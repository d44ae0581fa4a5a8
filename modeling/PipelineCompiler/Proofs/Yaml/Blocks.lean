import PipelineCompiler.Proofs.Json.Spelled
import PipelineCompiler.Proofs.Yaml.Kept

namespace PipelineCompiler.Yaml

/-!
# Documents become tokens

A document that is written as blocks is read as the tokens of its parts.

* `Kept` — data that comes back from YAML, up to a depth;
* `outlineOf`, `ofValueAfter_eq` — data without places is laid out without anchors;
* `tokens` — the tokens of a value;
* `Scans`, `ScansBehind` — what is written of a value is read as its tokens;
* `goes_items`, `goes_entries` — the lines of a block;
* `Kept.scan_write` — so is a document.
-/

/-! ### Data -/

/-- Data that comes back from YAML: scalars that do, lists, and mappings whose keys are different
    texts that do, not more than so many of these inside one another. -/
inductive Kept : Nat → Value → Prop
  | atom {depth : Nat} {v : Value} (atom : Atom v) : Kept depth v
  | list {depth : Nat} {items : List Value} (each : ∀ v ∈ items, Kept depth v) :
    Kept (depth + 1) (.list items)
  | fields {depth : Nat} {fields : List (String × Value)} (nodup : (Keyed.keys fields).Nodup)
      (keys : ∀ field ∈ fields, Scalar.isKeptKey field.1 = true)
      (each : ∀ field ∈ fields, Kept depth field.2) : Kept (depth + 1) (.ofFields fields)

/-- What a mapping that comes back consists of. -/
theorem Kept.parts {depth : Nat} {fields : List (String × Value)}
    (h : Kept depth (.ofFields fields)) : ∃ inner, depth = inner + 1 ∧
      (Keyed.keys fields).Nodup ∧ (∀ field ∈ fields, Scalar.isKeptKey field.1 = true) ∧
        ∀ field ∈ fields, Kept inner field.2 := by
  have hinj : ∀ others : List (String × Value), Value.ofFields others = .ofFields fields →
      others = fields := fun others heq => by
    refine (List.map_inj_right fun a b hab => ?_).mp (Value.map.inj heq)
    exact Prod.ext (Value.str.inj (Prod.mk.inj hab).1) (Prod.mk.inj hab).2
  generalize hv : Value.ofFields fields = v at h
  cases h with
  | atom atom =>
    subst hv
    cases atom
  | list each => cases hv
  | fields nodup keys each =>
    obtain rfl := hinj _ hv.symm
    exact ⟨_, rfl, nodup, keys, each⟩

/-! ### Outlines -/

/-- The outline of a value by itself. -/
def outlineOf (v : Value) : Outline := (Outline.ofValueAfter [] [] v).1

/-- The outline of a field. -/
def fieldOutline (field : String × Value) : Outline × Outline :=
  (.scalar none (.str field.1), outlineOf field.2)

/-- A value without places: it is laid out the same wherever it stands. -/
def Unplaced (v : Value) : Prop := ∀ again written,
  Outline.ofValueAfter again written v = (outlineOf v, written)

/-- The items of a list. -/
theorem ofItems_eq {items : List Value} (h : ∀ v ∈ items, Unplaced v)
    (again written : List Nat) :
    Outline.ofItems again written items = (items.map outlineOf, written) := by
  induction items with
  | nil => rfl
  | cons v rest ih =>
    rw [Outline.ofItems, h v List.mem_cons_self]
    dsimp only
    rw [ih fun w hw => h w (List.mem_cons_of_mem v hw)]
    rfl

/-- The entries of a mapping. -/
theorem ofEntries_eq {fields : List (String × Value)} (h : ∀ field ∈ fields, Unplaced field.2)
    (again written : List Nat) :
    Outline.ofEntries again written (fields.map fun field => (.str field.1, field.2)) =
      (fields.map fieldOutline, written) := by
  induction fields with
  | nil => rfl
  | cons field rest ih =>
    rw [List.map_cons, Outline.ofEntries]
    dsimp only [Outline.ofValueAfter]
    rw [h field List.mem_cons_self]
    dsimp only
    rw [ih fun other hother => h other (List.mem_cons_of_mem field hother)]
    rfl

/-- The outline of a list. -/
theorem outlineOf_list {items : List Value} (h : ∀ v ∈ items, Unplaced v) :
    outlineOf (.list items) = .sequence none (items.map outlineOf) := by
  rw [outlineOf, Outline.ofValueAfter, ofItems_eq h]

/-- The outline of a mapping. -/
theorem outlineOf_fields {fields : List (String × Value)}
    (h : ∀ field ∈ fields, Unplaced field.2) :
    outlineOf (.ofFields fields) = .mapping none false (fields.map fieldOutline) := by
  rw [outlineOf, Value.ofFields, Outline.ofValueAfter, ofEntries_eq h]

/-- The outline of a scalar. -/
theorem Atom.outlineOf_eq {v : Value} (h : Atom v) : outlineOf v = .scalar none v := by
  cases h <;> rfl

/-- **Data that comes back** has no places. -/
theorem Kept.unplaced {depth : Nat} {v : Value} (h : Kept depth v) : Unplaced v := by
  induction h with
  | atom h =>
    intro again written
    rw [h.outlineOf_eq]
    cases h <;> rfl
  | list each ih =>
    intro again written
    rw [outlineOf_list ih, Outline.ofValueAfter, ofItems_eq ih]
  | fields nodup keys each ih =>
    intro again written
    rw [outlineOf_fields ih, Value.ofFields, Outline.ofValueAfter, ofEntries_eq ih]

/-! ### Depth -/

/-- Its outline is as deep as it is. -/
theorem Kept.depth_outlineOf {depth : Nat} {v : Value} (h : Kept depth v) :
    (outlineOf v).depth ≤ depth := by
  -- By induction on the data; a collection is one deeper than its deepest part.
  induction h with
  | atom h =>
    rw [h.outlineOf_eq]
    exact Nat.zero_le _
  | list each ih =>
    rename_i depth items
    rw [outlineOf_list fun v hv => (each v hv).unplaced, Outline.depth]
    refine Nat.succ_le_succ ?_
    clear each
    induction items with
    | nil => exact Nat.zero_le _
    | cons v rest ihrest =>
      exact Nat.max_le.mpr ⟨ih v List.mem_cons_self,
        ihrest fun w hw => ih w (List.mem_cons_of_mem v hw)⟩
  | fields nodup keys each ih =>
    rename_i depth fields
    rw [outlineOf_fields fun field hfield => (each field hfield).unplaced, Outline.depth]
    refine Nat.succ_le_succ ?_
    clear nodup keys each
    induction fields with
    | nil => exact Nat.zero_le _
    | cons field rest ihrest =>
      exact Nat.max_le.mpr ⟨Nat.max_le.mpr ⟨Nat.zero_le _, ih field List.mem_cons_self⟩,
        ihrest fun other hother => ih other (List.mem_cons_of_mem field hother)⟩

/-- Data that is not deeper than documents may be is not too deep to be written. -/
theorem Kept.not_isTooDeep {depth : Nat} {v : Value} (h : Kept depth v)
    (hdepth : depth ≤ Outline.depthLimit) : isTooDeep v = false := by
  have houtline : Outline.ofValue v = outlineOf v := by
    rw [Outline.ofValue, h.unplaced]
  rw [isTooDeep, houtline, decide_eq_false_iff_not]
  exact Nat.not_lt.mpr (Nat.le_trans h.depth_outlineOf hdepth)

/-! ### Texts -/

/-- The characters of a line break and an indentation. -/
def newlineChars (indent : Nat) : List Char := '\n' :: List.replicate indent ' '

/-- The characters of a value. -/
def bodyChars (indent : Nat) (v : Value) : List Char :=
  (Outline.bodyText indent (outlineOf v)).toList

/-- The characters of an item. -/
def itemChars (indent : Nat) (v : Value) : List Char := '-' :: ' ' :: bodyChars (indent + 2) v

/-- Whether a value is written as a block. -/
def isBlock (v : Value) : Bool := (outlineOf v).isBlock

/-- The indentation of a value behind a key. -/
def valueIndent (indent : Nat) (v : Value) : Nat := (outlineOf v).valueIndent indent

/-- The characters behind a simple key and its `:`. -/
def behindChars (indent : Nat) (v : Value) : List Char :=
  (if isBlock v then newlineChars (valueIndent indent v) else [' ']) ++
    bodyChars (valueIndent indent v) v

/-- The characters of an entry. -/
def entryChars (indent : Nat) (field : String × Value) : List Char :=
  if isSimpleScalar none (.str field.1) then
    (Scalar.write (indent + 2) field.1).toList ++ ':' :: behindChars indent field.2
  else
    '?' :: ' ' :: ((Scalar.write (indent + 2) field.1).toList ++
      (newlineChars indent ++ ':' :: ' ' :: bodyChars (indent + 2) field.2))

/-- The line break and indentation between lines. -/
theorem toList_newline (indent : Nat) : (Outline.newline indent).toList = newlineChars indent := by
  rw [Outline.newline, spaces, String.toList_append, Number.toList_pushn]
  rfl

/-- Data without places has no anchor and no tag. -/
theorem Kept.properties_outlineOf {depth : Nat} {v : Value} (h : Kept depth v) :
    (outlineOf v).properties = [] := by
  cases h with
  | atom h =>
    rw [h.outlineOf_eq]
    rfl
  | list each =>
    rw [outlineOf_list fun v hv => (each v hv).unplaced]
    rfl
  | fields nodup keys each =>
    rw [outlineOf_fields fun field hfield => (each field hfield).unplaced]
    rfl

/-- Behind a key with lines of its own it is indented deeper. -/
theorem Kept.loneValueIndent_eq {depth : Nat} {v : Value} (h : Kept depth v) (indent : Nat) :
    (outlineOf v).loneValueIndent indent = indent + 2 := by
  cases h with
  | atom h =>
    rw [h.outlineOf_eq]
    rfl
  | list each =>
    rw [outlineOf_list fun v hv => (each v hv).unplaced]
    rfl
  | fields nodup keys each =>
    rw [outlineOf_fields fun field hfield => (each field hfield).unplaced]
    rfl

/-- The characters of a scalar. -/
theorem Atom.bodyChars_eq {v : Value} (h : Atom v) (indent : Nat) :
    bodyChars indent v = (scalarText indent v).toList := by
  rw [bodyChars, h.outlineOf_eq, Outline.bodyText]

/-- Nothing stands between a mark and a node without properties. -/
theorem behindMark_eq {node : Outline} (h : node.properties = []) (indent : Nat) (body : String) :
    Outline.behindMark indent node body = body := by
  rw [Outline.behindMark, h]
  rfl

/-- The characters behind a key. -/
theorem toList_behindKey {depth : Nat} {v : Value} (h : Kept depth v) (indent : Nat) :
    (Outline.behindKey indent (outlineOf v)
      (Outline.bodyText ((outlineOf v).valueIndent indent) (outlineOf v))).toList =
        behindChars indent v := by
  rw [Outline.behindKey, h.properties_outlineOf, String.toList_append, String.toList_append,
    behindChars, isBlock, valueIndent, ← toList_newline]
  split <;> rfl

/-- The characters of an entry. -/
theorem toList_entry {depth : Nat} {field : String × Value} (h : Kept depth field.2)
    (indent : Nat) :
    (if (fieldOutline field).1.isSimpleKey then
      Outline.behindMark (indent + 2) (fieldOutline field).1
          (Outline.bodyText (indent + 2) (fieldOutline field).1) ++ ":" ++
        Outline.behindKey indent (outlineOf field.2)
          (Outline.bodyText ((outlineOf field.2).valueIndent indent) (outlineOf field.2))
    else
      "? " ++ Outline.behindMark (indent + 2) (fieldOutline field).1
          (Outline.bodyText (indent + 2) (fieldOutline field).1) ++
            Outline.newline indent ++ ": " ++
        Outline.behindMark ((outlineOf field.2).loneValueIndent indent) (outlineOf field.2)
          (Outline.bodyText ((outlineOf field.2).loneValueIndent indent)
            (outlineOf field.2))).toList = entryChars indent field := by
  have hkey : Outline.behindMark (indent + 2) (fieldOutline field).1
      (Outline.bodyText (indent + 2) (fieldOutline field).1) =
        Scalar.write (indent + 2) field.1 := by
    have hnone : (fieldOutline field).1.properties = [] := rfl
    rw [behindMark_eq hnone, fieldOutline, Outline.bodyText, scalarText]
  rw [hkey, h.loneValueIndent_eq, behindMark_eq h.properties_outlineOf, entryChars]
  show (if isSimpleScalar none (.str field.1) = true then _ else _ : String).toList = _
  have hcolon : ":".toList = [':'] := rfl
  have hmark : "? ".toList = ['?', ' '] := rfl
  have hbehind : ": ".toList = [':', ' '] := rfl
  -- A simple key stands before its value on one line, any other key on a line of its own.
  split
  · simp only [String.toList_append, toList_behindKey h, List.append_assoc, hcolon,
      List.cons_append, List.nil_append]
  · simp only [String.toList_append, toList_newline, List.append_assoc, hmark, hbehind,
      List.cons_append, List.nil_append, bodyChars]

/-- **The lines of a list.** -/
theorem bodyChars_list {depth indent : Nat} {items : List Value} (h : ∀ v ∈ items, Kept depth v)
    (hne : items ≠ []) :
    bodyChars indent (.list items) =
      (newlineChars indent).intercalate (items.map (itemChars indent)) := by
  have hitems : (Outline.itemTexts indent (items.map outlineOf)).map String.toList =
      items.map (itemChars indent) := by
    clear hne
    -- By induction on the items, each with a dash in front.
    induction items with
    | nil => rfl
    | cons v rest ih =>
      have hv := (h v List.mem_cons_self).properties_outlineOf
      rw [List.map_cons, Outline.itemTexts, List.map_cons, List.map_cons,
        ih fun w hw => h w (List.mem_cons_of_mem v hw), behindMark_eq hv, String.toList_append]
      rfl
  have hfull : (items.map outlineOf).isEmpty = false := by
    rw [List.isEmpty_map]
    exact List.isEmpty_eq_false_iff.mpr hne
  rw [bodyChars, outlineOf_list fun v hv => (h v hv).unplaced, Outline.bodyText, hfull,
    if_neg Bool.false_ne_true, String.toList_intercalate, toList_newline, hitems]

/-- **The lines of a mapping.** -/
theorem bodyChars_fields {depth indent : Nat} {fields : List (String × Value)}
    (h : ∀ field ∈ fields, Kept depth field.2) (hne : fields ≠ []) :
    bodyChars indent (.ofFields fields) =
      (newlineChars indent).intercalate (fields.map (entryChars indent)) := by
  have hentries : (Outline.entryTexts indent (fields.map fieldOutline)).map String.toList =
      fields.map (entryChars indent) := by
    clear hne
    -- By induction on the entries.
    induction fields with
    | nil => rfl
    | cons field rest ih =>
      have hv := (h field List.mem_cons_self).properties_outlineOf
      rw [List.map_cons, fieldOutline, Outline.entryTexts, List.map_cons, List.map_cons,
        ih fun other hother => h other (List.mem_cons_of_mem field hother)]
      exact congrArg (· :: rest.map (entryChars indent))
        (toList_entry (h field List.mem_cons_self) indent)
  have hfull : (fields.map fieldOutline).isEmpty = false := by
    rw [List.isEmpty_map]
    exact List.isEmpty_eq_false_iff.mpr hne
  rw [bodyChars, outlineOf_fields fun field hfield => (h field hfield).unplaced, Outline.bodyText,
    hfull, if_neg Bool.false_ne_true, String.toList_intercalate, toList_newline, hentries]

/-- The characters of an empty list. -/
theorem bodyChars_noItems (indent : Nat) : bodyChars indent (.list []) = ['[', ']'] := by
  rw [bodyChars, outlineOf_list (List.forall_mem_nil _), List.map_nil, Outline.bodyText,
    if_pos List.isEmpty_nil]
  decide

/-- The characters of an empty mapping. -/
theorem bodyChars_noFields (indent : Nat) :
    bodyChars indent (.ofFields []) = ['\x7b', '\x7d'] := by
  rw [bodyChars, outlineOf_fields (List.forall_mem_nil _), List.map_nil, Outline.bodyText,
    if_pos List.isEmpty_nil]
  decide

/-! ### Tokens -/

mutual

/-- The tokens of a value.  A sequence behind a simple key opens no block. -/
def tokens (bare : Bool) : Value → List Token
  | .list items =>
    if items.isEmpty then [.bracketOpen, .bracketClose]
    else if bare then itemTokens items
    else .sequenceOpen :: (itemTokens items ++ [.blockClose])
  | .map entries =>
    if entries.isEmpty then [.braceOpen, .braceClose]
    else .mappingOpen :: (entryTokens entries ++ [.blockClose])
  | v => [scalarToken v]

/-- The tokens of items. -/
def itemTokens : List Value → List Token
  | [] => []
  | item :: rest => .dash :: (tokens false item ++ itemTokens rest)

/-- The tokens of entries. -/
def entryTokens : List (Value × Value) → List Token
  | [] => []
  | (key, value) :: rest =>
    .key :: scalarToken key :: .value ::
      (tokens (isSimpleScalar none key) value ++ entryTokens rest)

end

/-- The tokens of a scalar. -/
theorem Atom.tokens_eq {v : Value} (h : Atom v) (bare : Bool) :
    tokens bare v = [scalarToken v] := by
  cases h <;> rw [tokens] <;> simp

/-! ### Lines -/

open Stage Lexer

/-- What is written of a value behind a mark, or on lines of its own, is read as its tokens.  The
    text goes on at a column that is not deeper than the block around. -/
def Scans (v : Value) : Prop := ∀ {column n k : Nat} {found : List Token} {blocks : List Int}
  {rest : List Char}, n < column → k ≤ n → NextLine rest →
    Goes ⟨bodyChars column v ++ '\n' :: (List.replicate k ' ' ++ rest), column,
      found, n :: blocks, true⟩
      ⟨rest, k, found ++ tokens false v, n :: blocks, true⟩

/-- What is written of a value behind a simple key is read as its tokens. -/
def ScansBehind (v : Value) : Prop := ∀ {column n k : Nat} {found : List Token}
  {blocks : List Int} {rest : List Char}, n < column → k ≤ n → NextLine rest →
    Goes ⟨behindChars n v ++ '\n' :: (List.replicate k ' ' ++ rest), column, found, n :: blocks,
        false⟩
      ⟨rest, k, found ++ tokens true v, n :: blocks, true⟩

section

variable {column k : Nat} {i : Int} {found : List Token} {blocks : List Int} {rest : List Char}

/-- A block at a column is opened once. -/
theorem opener_self (block : Token) (column : Nat) : opener block column column = [] :=
  if_neg (Int.lt_irrefl _)

/-- The blocks around it stay. -/
theorem around_self (column : Nat) (blocks : List Int) : around column blocks column = blocks :=
  if_neg (Int.lt_irrefl _)

/-- A mark may stand on the next line. -/
theorem follows_mark {x : Char} {block mark : Token} (h : IsMark x block mark)
    (rest : List Char) : NextLine (x :: ' ' :: rest) := by
  refine ⟨fun y hy => ?_, fun sign _ htake => ?_⟩
  · obtain rfl := Option.some.inj hy
    cases h <;> decide
  · have hx := (List.cons.inj htake).1
    have hspace := (List.cons.inj (List.cons.inj htake).2).1
    rw [hx, ← hspace] at h
    cases h

/-- The characters of a part of the block at a column, which is read as its tokens and opens the
    block if it is the first part. -/
structure IsLine (block : Token) (column : Nat) (line : List Char) (parts : List Token) : Prop where
  follows : ∀ others, NextLine (line ++ '\n' :: others)
  goes : ∀ (k : Nat) (i : Int) (found : List Token) (blocks : List Int) (rest : List Char),
    i ≤ column → k ≤ column → NextLine rest →
      Goes ⟨line ++ '\n' :: (List.replicate k ' ' ++ rest), column, found, i :: blocks, true⟩
        ⟨rest, k, found ++ (opener block i column ++ parts), column :: around i blocks column,
          true⟩

/-- **The lines of a block** are read one after another. -/
theorem isLine_lines {α : Type} {line : α → List Char}
    {parts : α → List Token} {block : Token}
    {xs : List α} (hne : xs ≠ []) (h : ∀ x ∈ xs, IsLine block column (line x) (parts x)) :
    IsLine block column ((newlineChars column).intercalate (xs.map line)) (xs.flatMap parts) := by
  -- By induction on the lines.  Each ends where the next one starts, in the same column.
  induction xs with
  | nil => exact absurd rfl hne
  | cons x others ih =>
    have hx := h x List.mem_cons_self
    cases others with
    | nil =>
      rw [List.map_singleton, List.intercalate_singleton, List.flatMap_singleton]
      exact hx
    | cons y more =>
      have hothers := ih (List.cons_ne_nil y more) fun z hz => h z (List.mem_cons_of_mem x hz)
      have htext : ∀ tail, (newlineChars column).intercalate ((x :: y :: more).map line) ++ tail =
          line x ++ '\n' :: (List.replicate column ' ' ++
            ((newlineChars column).intercalate ((y :: more).map line) ++ tail)) := fun tail => by
        rw [List.map_cons, List.map_cons, List.intercalate_cons_cons, newlineChars]
        simp only [List.append_assoc, List.cons_append]
      refine ⟨fun others => ?_, fun k i found blocks rest hi hk hrest => ?_⟩
      · rw [htext]
        exact hx.follows _
      have hfirst := hx.goes column i found blocks _ hi (Nat.le_refl _)
        (hothers.follows (List.replicate k ' ' ++ rest))
      have hnext := hothers.goes k column (found ++ (opener block i column ++ parts x))
        (around i blocks column) rest (Int.le_refl _) hk hrest
      rw [opener_self, around_self] at hnext
      rw [htext, List.flatMap_cons]
      simpa only [List.append_assoc, List.nil_append] using hfirst.trans hnext

/-- What is written of a value, and the end of its line, may stand on the next line. -/
def Begins (v : Value) : Prop := ∀ column others, NextLine (bodyChars column v ++ '\n' :: others)

/-- **An item** is a line. -/
theorem isLine_item {v : Value} (hstart : Begins v) (h : Scans v) (column : Nat) :
    IsLine .sequenceOpen column (itemChars column v) (.dash :: tokens false v) := by
  refine ⟨fun others => follows_mark .dash _, fun k i found blocks rest hi hk hrest => ?_⟩
  have hparts : found ++ (opener .sequenceOpen i column ++ .dash :: tokens false v) =
      found ++ (opener .sequenceOpen i column ++ [Token.dash]) ++ tokens false v := by
    simp only [List.append_assoc, List.cons_append, List.nil_append]
  rw [hparts, itemChars]
  refine (goes_mark .dash hi).trans ?_
  refine (goes_space (hstart (column + 2) _).solid).trans ?_
  exact h (by omega) hk hrest

/-- What stands behind a simple key starts with a space or a line break. -/
theorem exists_behindChars (indent : Nat) (v : Value) :
    ∃ x others, behindChars indent v = x :: others ∧ (x = ' ' ∨ x = '\n') := by
  rw [behindChars]
  split
  · exact ⟨'\n', _, rfl, .inr rfl⟩
  · exact ⟨' ', _, rfl, .inl rfl⟩

/-- A text that comes back as a key comes back. -/
theorem isKept_of_isKeptKey {s : String} (h : Scalar.isKeptKey s = true) :
    Scalar.isKept s = true := (Bool.and_eq_true_iff.mp h).1

/-- An entry with a simple key is a line. -/
theorem isLine_simple {field : String × Value} (hkey : Scalar.isKeptKey field.1 = true)
    (hsimple : isSimpleScalar none (.str field.1) = true) (h : ScansBehind field.2)
    (column : Nat) :
    IsLine .mappingOpen column (entryChars column field)
      (.key :: scalarToken (.str field.1) :: .value :: tokens true field.2) := by
  have hwritten := written_text (isKept_of_isKeptKey hkey) (column + 2)
  obtain ⟨hinline, hreach⟩ := key_on_line hkey hsimple (column + 2)
  obtain ⟨x, behind, hbehind, hx⟩ := exists_behindChars column field.2
  have htext : ∀ tail, entryChars column field ++ tail =
      (Scalar.write (column + 2) field.1).toList ++ ':' :: x :: (behind ++ tail) := fun tail => by
    rw [entryChars, if_pos hsimple, hbehind]
    simp only [List.append_assoc, List.cons_append]
  refine ⟨fun others => ?_, fun k i found blocks rest hi hk hrest => ?_⟩
  · rw [htext]
    exact hwritten.follows ⟨':', _, rfl, .inr rfl⟩
  have hparts : found ++ (opener .mappingOpen i column ++
      (.key :: scalarToken (.str field.1) :: .value :: tokens true field.2)) =
      found ++ (opener .mappingOpen i column ++ [.key, scalarToken (.str field.1), .value]) ++
        tokens true field.2 := by
    simp only [List.append_assoc, List.cons_append, List.nil_append]
  rw [htext, hparts]
  -- First the key with its colon, then the value behind it.
  refine (goes_key hwritten (by omega) hinline hreach hx hi).trans ?_
  have hchars : x :: (behind ++ '\n' :: (List.replicate k ' ' ++ rest)) =
      behindChars column field.2 ++ '\n' :: (List.replicate k ' ' ++ rest) := by
    rw [hbehind, List.cons_append]
  rw [hchars]
  exact h (by omega) hk hrest

/-- An entry whose key has lines of its own is a line. -/
theorem isLine_lone {field : String × Value} (hkey : Scalar.isKeptKey field.1 = true)
    (hsimple : isSimpleScalar none (.str field.1) = false) (hstart : Begins field.2)
    (h : Scans field.2) (column : Nat) :
    IsLine .mappingOpen column (entryChars column field)
      (.key :: scalarToken (.str field.1) :: .value :: tokens false field.2) := by
  have hwritten := written_text (isKept_of_isKeptKey hkey) (column + 2)
  have htext : ∀ tail, entryChars column field ++ tail =
      '?' :: ' ' :: ((Scalar.write (column + 2) field.1).toList ++
        '\n' :: (List.replicate column ' ' ++ ':' :: ' ' ::
          (bodyChars (column + 2) field.2 ++ tail))) := fun tail => by
    rw [entryChars, if_neg (Bool.eq_false_iff.mp hsimple), newlineChars]
    simp only [List.append_assoc, List.cons_append]
  refine ⟨fun others => ?_, fun k i found blocks rest hi hk hrest => ?_⟩
  · rw [htext]
    exact follows_mark .key _
  have hparts : found ++ (opener .mappingOpen i column ++
      (Token.key :: scalarToken (.str field.1) :: Token.value :: tokens false field.2)) =
      found ++ (opener .mappingOpen i column ++ [Token.key]) ++ [scalarToken (.str field.1)] ++
        ([] ++ [Token.value]) ++ tokens false field.2 := by
    simp only [List.append_assoc, List.cons_append, List.nil_append]
  rw [htext, hparts]
  -- First the mark and the key, then the line with the colon and the value.
  refine (goes_mark .key hi).trans ?_
  refine (goes_space (hwritten.follows ⟨'\n', _, rfl, .inl rfl⟩).solid).trans ?_
  refine (goes_scalar hwritten (by omega) (follows_mark .value _) (Int.le_refl _)
    (by omega)).trans ?_
  refine Goes.trans (opener_self _ column ▸ around_self column _ ▸
    goes_mark .value (Int.le_refl _)) ?_
  refine (goes_space (hstart (column + 2) _).solid).trans ?_
  exact h (by omega) hk hrest

/-- **An entry** is a line. -/
theorem isLine_entry {field : String × Value} (hkey : Scalar.isKeptKey field.1 = true)
    (hstart : Begins field.2) (h : Scans field.2) (hbehind : ScansBehind field.2) (column : Nat) :
    IsLine .mappingOpen column (entryChars column field)
      (.key :: scalarToken (.str field.1) :: .value ::
        tokens (isSimpleScalar none (.str field.1)) field.2) := by
  cases hsimple : isSimpleScalar none (.str field.1) with
  | true => exact isLine_simple hkey hsimple hbehind column
  | false => exact isLine_lone hkey hsimple hstart h column

end

/-! ### Documents -/

/-- What is written of a value is read as its tokens wherever it stands. -/
structure IsScanned (v : Value) : Prop where
  begins : Begins v
  scans : Scans v
  behind : ScansBehind v

/-- The tokens of items, one item after another. -/
theorem itemTokens_eq (items : List Value) :
    itemTokens items = items.flatMap fun v => .dash :: tokens false v := by
  induction items with
  | nil => rfl
  | cons v rest ih => rw [itemTokens, ih, List.flatMap_cons, List.cons_append]

/-- The tokens of an entry. -/
def fieldTokens (field : String × Value) : List Token :=
  .key :: scalarToken (.str field.1) :: .value ::
    tokens (isSimpleScalar none (.str field.1)) field.2

/-- The tokens of entries, one entry after another. -/
theorem entryTokens_eq (fields : List (String × Value)) :
    entryTokens (fields.map fun field => (.str field.1, field.2)) =
      fields.flatMap fieldTokens := by
  induction fields with
  | nil => rfl
  | cons field rest ih =>
    rw [List.map_cons, entryTokens, ih, List.flatMap_cons, fieldTokens]
    rfl

/-- The tokens of a list. -/
theorem tokens_list {items : List Value} (hne : items ≠ []) (bare : Bool) :
    tokens bare (.list items) =
      if bare then itemTokens items
      else .sequenceOpen :: (itemTokens items ++ [Token.blockClose]) := by
  rw [tokens, List.isEmpty_eq_false_iff.mpr hne, if_neg Bool.false_ne_true]

/-- The tokens of a mapping. -/
theorem tokens_fields {fields : List (String × Value)} (hne : fields ≠ []) (bare : Bool) :
    tokens bare (.ofFields fields) =
      .mappingOpen :: (fields.flatMap fieldTokens ++ [Token.blockClose]) := by
  have hfull : (fields.map fun field => (Value.str field.1, field.2)).isEmpty = false := by
    rw [List.isEmpty_map]
    exact List.isEmpty_eq_false_iff.mpr hne
  rw [Value.ofFields, tokens, hfull, if_neg Bool.false_ne_true, entryTokens_eq]

/-- **The items of a list** are the lines of a block. -/
theorem isLine_items {depth : Nat} {items : List Value} (h : ∀ v ∈ items, Kept depth v)
    (hne : items ≠ []) (hscan : ∀ v ∈ items, IsScanned v) (column : Nat) :
    IsLine .sequenceOpen column (bodyChars column (.list items)) (itemTokens items) := by
  rw [bodyChars_list h hne, itemTokens_eq]
  exact isLine_lines hne fun v hv => isLine_item (hscan v hv).begins (hscan v hv).scans column

/-- **The entries of a mapping** are the lines of a block. -/
theorem isLine_entries {depth : Nat} {fields : List (String × Value)}
    (h : ∀ field ∈ fields, Kept depth field.2) (hne : fields ≠ [])
    (hkeys : ∀ field ∈ fields, Scalar.isKeptKey field.1 = true)
    (hscan : ∀ field ∈ fields, IsScanned field.2) (column : Nat) :
    IsLine .mappingOpen column (bodyChars column (.ofFields fields))
      (fields.flatMap fieldTokens) := by
  rw [bodyChars_fields h hne]
  exact isLine_lines hne fun field hfield => isLine_entry (hkeys field hfield)
    (hscan field hfield).begins (hscan field hfield).scans (hscan field hfield).behind column

/-- What is not written as a block stands behind a space. -/
theorem behindChars_inline {v : Value} (h : isBlock v = false) (indent : Nat) :
    behindChars indent v = ' ' :: bodyChars (valueIndent indent v) v := by
  rw [behindChars, h, if_neg Bool.false_ne_true, List.cons_append, List.nil_append]

/-- A block stands on lines of its own. -/
theorem behindChars_block {v : Value} (h : isBlock v = true) (indent : Nat) :
    behindChars indent v =
      newlineChars (valueIndent indent v) ++ bodyChars (valueIndent indent v) v := by
  rw [behindChars, h, if_pos rfl]

/-- **A scalar** is read as its token. -/
theorem Atom.isScanned {v : Value} (h : Atom v) : IsScanned v where
  begins := by
    intro column others
    rw [h.bodyChars_eq]
    exact (h.written column).follows ⟨'\n', others, rfl, .inl rfl⟩
  scans := by
    intro column n k found blocks rest hn hk hrest
    rw [h.bodyChars_eq, h.tokens_eq]
    exact goes_scalar (h.written column) (by omega) hrest (by omega) (by omega)
  behind := by
    intro column n k found blocks rest hn hk hrest
    have hblock : isBlock v = false := by
      rw [isBlock, h.outlineOf_eq]
      rfl
    have hindent : valueIndent n v = n + 2 := by
      rw [valueIndent, h.outlineOf_eq]
      rfl
    -- A scalar stands on the line of its key, behind a space.
    have hwritten := h.written (n + 2)
    rw [behindChars_inline hblock, hindent, h.bodyChars_eq, h.tokens_eq]
    exact (goes_space (hwritten.follows ⟨'\n', _, rfl, .inl rfl⟩).solid).trans
      (goes_scalar hwritten (by omega) hrest (by omega) (by omega))

/-- A pair of brackets may stand on the next line. -/
theorem follows_pair {a b : Char} {opening closing : Token} (h : IsPair a b opening closing)
    (rest : List Char) : NextLine (a :: b :: rest) := by
  refine ⟨fun y hy => ?_, fun sign hsign htake => ?_⟩
  · obtain rfl := Option.some.inj hy
    cases h <;> decide
  · have ha := (List.cons.inj htake).1
    subst ha
    revert hsign
    cases h <;> decide

/-- **What is empty** is read as a pair of brackets. -/
theorem isScanned_empty {v : Value} {a b : Char} {opening closing : Token}
    (h : IsPair a b opening closing) (hbody : ∀ indent, bodyChars indent v = [a, b])
    (hblock : isBlock v = false) (htokens : ∀ bare, tokens bare v = [opening, closing]) :
    IsScanned v where
  begins := by
    intro column others
    rw [hbody]
    exact follows_pair h _
  scans := by
    intro column n k found blocks rest hn hk hrest
    rw [hbody, htokens]
    exact goes_empty h hrest.solid (by omega)
  behind := by
    intro column n k found blocks rest hn hk hrest
    rw [behindChars_inline hblock, hbody, htokens]
    exact (goes_space (follows_pair h _).solid).trans (goes_empty h hrest.solid (by omega))

/-- A block that is deeper is read up to its end. -/
theorem scans_block {v : Value} {block : Token} {parts : List Token}
    (h : ∀ column, IsLine block column (bodyChars column v) parts)
    (htokens : tokens false v = block :: (parts ++ [Token.blockClose])) : Scans v := by
  intro column n k found blocks rest hn hk hrest
  have hdeeper : (n : Int) < column := Int.ofNat_lt.mpr hn
  have hlines := (h column).goes k n found blocks rest (Int.le_of_lt hdeeper)
    (Nat.le_of_lt (Nat.lt_of_le_of_lt hk hn)) hrest
  rw [opener, around, if_pos hdeeper, if_pos hdeeper] at hlines
  have hclose : Goes ⟨rest, k, found ++ ([block] ++ parts), column :: n :: blocks, true⟩
      ⟨rest, k, found ++ ([block] ++ parts) ++ [Token.blockClose], n :: blocks, true⟩ :=
    goes_close hrest.solid (show (k : Int) < column by omega)
  rw [htokens]
  simpa only [List.append_assoc, List.cons_append, List.nil_append] using hlines.trans hclose

/-- A list is written as a block unless it is empty. -/
theorem isBlock_list {depth : Nat} {items : List Value} (h : ∀ v ∈ items, Kept depth v) :
    isBlock (.list items) = !items.isEmpty := by
  rw [isBlock, outlineOf_list fun v hv => (h v hv).unplaced, Outline.isBlock, List.isEmpty_map]

/-- So is a mapping. -/
theorem isBlock_fields {depth : Nat} {fields : List (String × Value)}
    (h : ∀ field ∈ fields, Kept depth field.2) :
    isBlock (.ofFields fields) = !fields.isEmpty := by
  rw [isBlock, outlineOf_fields fun field hfield => (h field hfield).unplaced, Outline.isBlock,
    List.isEmpty_map]

/-- **A list** is read as its tokens. -/
theorem isScanned_list {depth : Nat} {items : List Value} (h : ∀ v ∈ items, Kept depth v)
    (hne : items ≠ []) (hscan : ∀ v ∈ items, IsScanned v) : IsScanned (.list items) where
  begins column others := (isLine_items h hne hscan column).follows others
  scans := scans_block (isLine_items h hne hscan) (tokens_list hne false)
  behind := by
    intro column n k found blocks rest hn hk hrest
    have hblock : isBlock (.list items) = true := by
      rw [isBlock_list h, List.isEmpty_eq_false_iff.mpr hne]
      rfl
    have hindent : valueIndent n (.list items) = n := by
      rw [valueIndent, outlineOf_list fun v hv => (h v hv).unplaced]
      rfl
    have hlines := isLine_items h hne hscan n
    -- The dashes stand below the key, so they open no block.
    have hgoes := hlines.goes k n found blocks rest (Int.le_refl _) hk hrest
    rw [opener_self, around_self, List.nil_append] at hgoes
    rw [behindChars_block hblock, hindent, tokens_list hne, if_pos rfl, newlineChars,
      List.cons_append, List.cons_append, List.append_assoc]
    exact (goes_line (hlines.follows _).solid).trans hgoes

/-- **A mapping** is read as its tokens. -/
theorem isScanned_fields {depth : Nat} {fields : List (String × Value)}
    (h : ∀ field ∈ fields, Kept depth field.2) (hne : fields ≠ [])
    (hkeys : ∀ field ∈ fields, Scalar.isKeptKey field.1 = true)
    (hscan : ∀ field ∈ fields, IsScanned field.2) : IsScanned (.ofFields fields) where
  begins column others := (isLine_entries h hne hkeys hscan column).follows others
  scans := scans_block (isLine_entries h hne hkeys hscan) (tokens_fields hne false)
  behind := by
    intro column n k found blocks rest hn hk hrest
    have hblock : isBlock (.ofFields fields) = true := by
      rw [isBlock_fields h, List.isEmpty_eq_false_iff.mpr hne]
      rfl
    -- Entries stand on lines of their own, two columns further in.
    have hindent : valueIndent n (.ofFields fields) = n + 2 := by
      rw [valueIndent, outlineOf_fields fun field hfield => (h field hfield).unplaced]
      rfl
    have hlines := isLine_entries h hne hkeys hscan (n + 2)
    rw [behindChars_block hblock, hindent, newlineChars, List.cons_append, List.cons_append,
      List.append_assoc, tokens_fields hne true, ← tokens_fields hne false]
    exact (goes_line (hlines.follows _).solid).trans
      (scans_block (isLine_entries h hne hkeys hscan) (tokens_fields hne false) (by omega) hk hrest)

/-- **Data that comes back** is read as its tokens. -/
theorem Kept.isScanned {depth : Nat} {v : Value} (h : Kept depth v) : IsScanned v := by
  -- By induction on the data; empty collections are written in brackets and braces.
  induction h with
  | atom h => exact h.isScanned
  | list each ih =>
    rename_i items
    by_cases hne : items = []
    · subst hne
      exact isScanned_empty .brackets bodyChars_noItems (isBlock_list each) fun bare => by
        rw [tokens]
        rfl
    · exact isScanned_list each hne ih
  | fields nodup keys each ih =>
    rename_i fields
    by_cases hne : fields = []
    · subst hne
      exact isScanned_empty .braces bodyChars_noFields (isBlock_fields each) fun bare => by
        rw [Value.ofFields, tokens]
        rfl
    · exact isScanned_fields each hne keys ih

/-! ### Characters -/

/-- The characters of lines, with others between them. -/
theorem forall_mem_intercalate {p : Char → Prop} {separator : List Char}
    {lines : List (List Char)}
    (hseparator : ∀ c ∈ separator, p c) (h : ∀ line ∈ lines, ∀ c ∈ line, p c) :
    ∀ c ∈ separator.intercalate lines, p c := by
  induction lines with
  | nil => exact List.forall_mem_nil p
  | cons line rest ih =>
    have hline := h line List.mem_cons_self
    have hrest := ih fun other hother => h other (List.mem_cons_of_mem line hother)
    cases rest with
    | nil =>
      rw [List.intercalate_singleton]
      exact hline
    | cons next others =>
      rw [List.intercalate_cons_cons]
      exact List.forall_mem_append.mpr
        ⟨List.forall_mem_append.mpr ⟨hline, hseparator⟩, hrest⟩

/-- Line breaks and indentations may stand in a text. -/
theorem allowed_newline (indent : Nat) : ∀ c ∈ newlineChars indent, isAllowed c = true :=
  List.forall_mem_cons.mpr ⟨by decide, fun _ hc => List.eq_of_mem_replicate hc ▸ by decide⟩

/-- So may brackets and braces. -/
theorem allowed_pair {a b : Char} {opening closing : Token} (h : IsPair a b opening closing) :
    ∀ c ∈ [a, b], isAllowed c = true := by
  rw [List.forall_mem_cons, List.forall_mem_singleton]
  cases h <;> decide

/-- The characters of a value may stand in a text wherever it stands. -/
def Allowed (v : Value) : Prop := ∀ indent, ∀ c ∈ bodyChars indent v, isAllowed c = true

/-- Those of an item. -/
theorem allowed_item {v : Value} (h : Allowed v) (indent : Nat) :
    ∀ c ∈ itemChars indent v, isAllowed c = true :=
  List.forall_mem_cons.mpr ⟨by decide, List.forall_mem_cons.mpr ⟨by decide, h (indent + 2)⟩⟩

/-- Those behind a key. -/
theorem allowed_behind {v : Value} (h : Allowed v) (indent : Nat) :
    ∀ c ∈ behindChars indent v, isAllowed c = true := by
  refine List.forall_mem_append.mpr ⟨?_, h _⟩
  split
  · exact allowed_newline _
  · exact List.forall_mem_singleton.mpr (by decide)

/-- Those of an entry. -/
theorem allowed_entry {field : String × Value} (hkey : Scalar.isKeptKey field.1 = true)
    (h : Allowed field.2) (indent : Nat) :
    ∀ c ∈ entryChars indent field, isAllowed c = true := by
  have hwritten := (written_text (isKept_of_isKeptKey hkey) (indent + 2)).allowed
  have hcolon : isAllowed ':' = true := by decide
  have hspace : isAllowed ' ' = true := by decide
  rw [entryChars]
  split
  · exact List.forall_mem_append.mpr
      ⟨hwritten, List.forall_mem_cons.mpr ⟨hcolon, allowed_behind h indent⟩⟩
  · have hvalue : ∀ c ∈ ':' :: ' ' :: bodyChars (indent + 2) field.2, isAllowed c = true :=
      List.forall_mem_cons.mpr ⟨hcolon, List.forall_mem_cons.mpr ⟨hspace, h (indent + 2)⟩⟩
    have hkeyed := List.forall_mem_append.mpr
      ⟨hwritten, List.forall_mem_append.mpr ⟨allowed_newline indent, hvalue⟩⟩
    exact List.forall_mem_cons.mpr ⟨by decide, List.forall_mem_cons.mpr ⟨hspace, hkeyed⟩⟩

/-- **Every character of data that comes back** may stand in a text. -/
theorem Kept.allowed {depth : Nat} {v : Value} (h : Kept depth v) : Allowed v := by
  -- By induction on the data; what joins its parts are line breaks and spaces.
  induction h with
  | atom h =>
    intro indent
    rw [h.bodyChars_eq]
    exact (h.written indent).allowed
  | list each ih =>
    rename_i items
    intro indent
    by_cases hne : items = []
    · subst hne
      rw [bodyChars_noItems]
      exact allowed_pair .brackets
    · rw [bodyChars_list each hne]
      refine forall_mem_intercalate (allowed_newline indent)
        (List.forall_mem_map.mpr fun v hv => ?_)
      exact allowed_item (ih v hv) indent
  | fields nodup keys each ih =>
    rename_i fields
    intro indent
    by_cases hne : fields = []
    · subst hne
      rw [bodyChars_noFields]
      exact allowed_pair .braces
    · rw [bodyChars_fields each hne]
      refine forall_mem_intercalate (allowed_newline indent)
        (List.forall_mem_map.mpr fun field hfield => ?_)
      exact allowed_entry (keys field hfield) (ih field hfield) indent

/-- The text of a document that is a mapping. -/
theorem Kept.toList_write {depth : Nat} {fields : List (String × Value)}
    (h : Kept depth (.ofFields fields)) (hne : fields ≠ []) :
    (write (.ofFields fields)).toList = bodyChars 0 (.ofFields fields) ++ ['\n'] := by
  have houtline : Outline.ofValue (.ofFields fields) = outlineOf (.ofFields fields) := by
    rw [Outline.ofValue, h.unplaced]
  obtain ⟨_, -, -, -, heach⟩ := h.parts
  have hblock : (outlineOf (.ofFields fields)).isBlock = true := by
    have hfull := isBlock_fields heach
    rwa [List.isEmpty_eq_false_iff.mpr hne] at hfull
  have hopen : isOpenEnded (.ofFields fields) = false := rfl
  rw [write, houtline, hopen, hblock, if_pos rfl, if_neg Bool.false_ne_true, Outline.blockText,
    behindMark_eq h.properties_outlineOf, String.append_empty, String.toList_append]
  rfl

/-- **A document** is read as its tokens. -/
theorem Kept.scan_write {depth : Nat} {fields : List (String × Value)}
    (h : Kept depth (.ofFields fields)) (hne : fields ≠ []) :
    Token.scan (write (.ofFields fields)) = tokens false (.ofFields fields) ++
      [Token.streamEnd] := by
  have hchars := h.toList_write hne
  have hallowed : ∀ c ∈ (write (.ofFields fields)).toList, isAllowed c = true := by
    rw [hchars]
    exact List.forall_mem_append.mpr ⟨h.allowed 0, List.forall_mem_singleton.mpr (by decide)⟩
  have hempty : NextLine [] := ⟨fun _ hx => (Option.not_mem_none _ hx).elim, fun _ _ => nofun⟩
  have hlines : IsLine .mappingOpen 0 (bodyChars 0 (.ofFields fields))
      (fields.flatMap fieldTokens) := by
    obtain ⟨_, -, -, hkeys, heach⟩ := h.parts
    exact isLine_entries heach hne hkeys (fun field hfield => (heach field hfield).isScanned) 0
  -- The block starts at the margin, which is deeper than no block at all.
  have hgoes := hlines.goes 0 (-1) [] [] [] (by decide) (Nat.le_refl 0) hempty
  have hscan : Token.scan (write (.ofFields fields)) =
      (.mappingOpen :: fields.flatMap fieldTokens) ++ [Token.blockClose, Token.streamEnd] :=
    scan_eq hallowed (by rw [hchars]; exact hgoes)
  rw [hscan, tokens_fields hne, List.cons_append, List.cons_append, List.append_assoc]
  rfl

end PipelineCompiler.Yaml
