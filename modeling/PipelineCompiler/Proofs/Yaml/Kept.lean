import PipelineCompiler.Proofs.Yaml.Numerals
import PipelineCompiler.Proofs.Yaml.Scanned
import PipelineCompiler.Yaml.Assembly

namespace PipelineCompiler.Yaml

/-!
# Scalars that are kept

Which scalars come back as they are, how they are written, and what they are read as.

* `Scalar.isKept`, `Scalar.isKeptKey` — the texts that come back, and that come back as keys;
* `Atom` — the scalars of JSON that come back;
* `Atom.written`, `Atom.scalarValue_eq` — they are written as scalars, and have their value again;
* `written_key` — a simple key stands on one line, within reach of the `:` behind it.
-/

namespace Scalar

/-- Whether a text comes back.  Between single quotes the next-line control is taken for a line
    break, which is read as a space. -/
def isKept (s : String) : Bool := !(allowsSingle s.toList && s.toList.contains '\x85')

/-- Whether a text comes back as a key.  What is written of it before a `:` on the same line must
    not be longer than a key may be. -/
def isKeptKey (s : String) : Bool :=
  isKept s && (!isSimpleScalar none (.str s) || (write 0 s).length ≤ Lexer.keyReach)

/-- A text that starts with no character that starts something else. -/
theorem startsWithIndicator_eq_false {x : Char} {cs : List Char} (hx : x ∉ indicators)
    (hmark : (x = '?' ∨ x = ':' ∨ x = '-') → isGap (cs.head?.getD '\x00') = false) :
    startsWithIndicator (x :: cs) = false := by
  have hfirst : "#,[]\x7b\x7d&*!|>'\"%@\x60".contains x = false := by
    rw [String.contains_char_eq]
    exact decide_eq_false hx
  rw [startsWithIndicator, hfirst, Bool.false_or, Bool.and_eq_false_iff, String.contains_char_eq,
    decide_eq_false_iff_not]
  by_cases hin : x = '?' ∨ x = ':' ∨ x = '-'
  · exact .inr (hmark hin)
  · refine .inl fun hmem => hin ?_
    simpa using hmem

end Scalar

/-! ### Numbers stand without quotes -/

section

variable {cs : List Char}

/-- No two neighbours satisfy a condition that no two characters satisfy. -/
theorem hasNeighbours_of_not_mem {p : Char → Char → Bool}
    (hp : ∀ c ∈ cs, ∀ next ∈ cs, p c next = false) :
    Scalar.hasNeighbours p cs = false := by
  rw [Scalar.hasNeighbours, List.any_eq_false]
  intro pair hpair
  obtain ⟨hfirst, hsecond⟩ := List.of_mem_zip hpair
  rw [hp _ hfirst _ (List.mem_of_mem_tail hsecond)]
  exact Bool.false_ne_true

/-- The characters of numbers are shown, and start nothing else. -/
theorem Numeric.allowsSingle (h : Numeric cs) : Scalar.allowsSingle cs = true := by
  have hshown : cs.all Scalar.isShown = true := List.all_eq_true.mpr (h.all (by decide))
  have hspace : ∀ c ∈ cs, (c == ' ') = false := fun c hc =>
    beq_eq_false_iff_ne.mpr fun heq => h.not_mem (x := ' ') (by decide) (heq ▸ hc)
  have happart : Scalar.hasNeighbours (fun c next => (c == ' ' && isWrittenBreak next) ||
      (isWrittenBreak c && next == ' ')) cs =
        false := hasNeighbours_of_not_mem fun c hc next hnext => by
    rw [hspace c hc, hspace next hnext, Bool.false_and, Bool.and_false]
    rfl
  rw [Scalar.allowsSingle, hshown, happart]
  rfl

/-- **A number** stands without quotes. -/
theorem Unsigned.allowsPlain (h : Unsigned cs) (negative : Bool) :
    Scalar.allowsPlain (signed negative cs) = true := by
  have hnumeric := h.numeric_signed negative
  have hother : ∀ {x}, numerals.contains x = false → ∀ c ∈ signed negative cs, c ≠ x :=
    fun hx c hc heq => hnumeric.not_mem hx (heq ▸ hc)
  have hbreaks : Scalar.isMultiline (signed negative cs) = false :=
    List.any_eq_false.mpr fun c hc =>
      Bool.eq_false_iff.mp (Bool.not_eq_true' _ |>.mp
        (hnumeric.all (p := fun c => !isWrittenBreak c) (by decide) c hc))
  have hcolons : Scalar.hasNeighbours (fun c next => c == ':' && isGap next) (signed negative cs) =
      false := hasNeighbours_of_not_mem fun c hc next _ => by
    rw [beq_eq_false_iff_ne.mpr (hother (by decide) c hc), Bool.false_and]
  have hhashes : Scalar.hasNeighbours (fun c next => isGap c && next == '#') (signed negative cs) =
      false := hasNeighbours_of_not_mem fun c _ next hnext => by
    rw [beq_eq_false_iff_ne.mpr (hother (by decide) next hnext), Bool.and_false]
  have hlast : ∀ {x}, numerals.contains x = false → (signed negative cs).getLast? ≠ some x :=
    fun hx heq => hother hx _ (List.mem_of_getLast? heq) rfl
  have hfirst : (signed negative cs).head? ≠ some ' ' :=
    fun heq => hother (by decide) _ (List.mem_of_head? heq) rfl
  have hstart : Scalar.startsWithIndicator (signed negative cs) = false ∧
      ['-', '-', '-'].isPrefixOf (signed negative cs) = false ∧
        ['.', '.', '.'].isPrefixOf (signed negative cs) = false := by
    obtain ⟨d, rest, rfl, hd⟩ := h.first
    have hmem := h.numeric d List.mem_cons_self
    have hdash : d ≠ '-' := fun heq => absurd (heq ▸ hd) (by decide)
    have hdot : d ≠ '.' := fun heq => absurd (heq ▸ hd) (by decide)
    have hgap : isGap d = false := by
      have hall : numerals.all (fun c => !isGap c) = true := by decide
      exact Bool.not_eq_true' _ |>.mp (List.all_eq_true.mp hall d hmem)
    have hplain : numerals.all (fun c => !Scalar.indicators.contains c) = true := by decide
    have hclear : ∀ c ∈ numerals, c ∉ Scalar.indicators := fun c hc hin => by
      have hnot := List.all_eq_true.mp hplain c hc
      rw [List.contains_iff_mem.mpr hin] at hnot
      cases hnot
    -- The first character is a digit or the sign, and neither starts anything else.
    cases negative with
    | true =>
      refine ⟨Scalar.startsWithIndicator_eq_false (by decide) fun _ => hgap, ?_, rfl⟩
      simp [signed, List.isPrefixOf, hdash.symm]
    | false =>
      refine ⟨Scalar.startsWithIndicator_eq_false (hclear d hmem) fun hmark => ?_, ?_, ?_⟩
      · rcases hmark with rfl | rfl | rfl <;> cases hd
      · simp [signed, List.isPrefixOf, hdash.symm]
      · simp [signed, List.isPrefixOf, hdot.symm]
  rw [Scalar.allowsPlain, hnumeric.allowsSingle, hbreaks, Scalar.hasIndicator, hstart.1, hstart.2.1,
    hstart.2.2, hcolons, hhashes, beq_eq_false_iff_ne.mpr (hlast (by decide)),
    bne_iff_ne.mpr hfirst, bne_iff_ne.mpr (hlast (by decide))]
  rfl

end

/-! ### Scalars -/

/-- The scalars of JSON that come back. -/
inductive Atom : Value → Prop
  | null : Atom .null
  | bool (b : Bool) : Atom (.bool b)
  | int {i : Int} (short : Number.isTooLong i = false) : Atom (.int i)
  | float (x : Float) : Atom (.float x)
  | str {s : String} (kept : Scalar.isKept s = true) : Atom (.str s)

/-- The text of a scalar, apart from quotes and escapes. -/
def scalarSource : Value → String
  | .str s => s
  | v => scalarText 0 v

/-- Whether a scalar is written without quotes. -/
def standsPlain : Value → Bool
  | .str s => Tag.ofPlain s == .str && Scalar.allowsPlain s.toList
  | _ => true

/-- The token of a scalar. -/
def scalarToken (v : Value) : Token := .scalar (scalarSource v) (standsPlain v)

/-- The node of a scalar. -/
def scalarNode (v : Value) : Node where
  tag := Reader.scalarTag none (standsPlain v) (scalarSource v)
  content := .scalar (scalarSource v)

/-- **What stands without quotes**: a text that starts nothing else, with nothing in it that would
    end it. -/
theorem Scalar.allowsPlain_cons {x : Char} {cs : List Char} (hx : x ∉ Scalar.indicators)
    (hmark : (x = '?' ∨ x = ':' ∨ x = '-') → isGap (cs.head?.getD '\x00') = false)
    (hindicator : (['-', '-', '-'].isPrefixOf (x :: cs) || ['.', '.', '.'].isPrefixOf (x :: cs) ||
      false || Scalar.hasNeighbours (fun c next => c == ':' && isGap next) (x :: cs) ||
      (x :: cs).getLast? == some ':' ||
      Scalar.hasNeighbours (fun c next => isGap c && next == '#') (x :: cs)) = false)
    (hother : (Scalar.allowsSingle (x :: cs) && !Scalar.isMultiline (x :: cs) && !false &&
      (x :: cs).head? != some ' ' && (x :: cs).getLast? != some ' ') = true) :
    Scalar.allowsPlain (x :: cs) = true := by
  rw [Scalar.allowsPlain, Scalar.hasIndicator, Scalar.startsWithIndicator_eq_false hx hmark,
    hindicator]
  exact hother

/-- The words for what is no text stand without quotes. -/
theorem written_word (indent : Nat) {word : String}
    (h : word ∈ ["null", "true", "false", ".nan", ".inf", "-.inf"]) :
    Written indent word true word.toList := by
  simp only [List.mem_cons, List.not_mem_nil, or_false] at h
  rcases h with rfl | rfl | rfl | rfl | rfl | rfl
  all_goals
    exact .plain (Scalar.allowsPlain_cons (by decide) (by decide) (by decide) (by decide))
      (by decide)

/-- So do numbers. -/
theorem written_number (indent : Nat) {text : String} {negative : Bool} {cs : List Char}
    (h : Unsigned cs) (htext : text.toList = signed negative cs) :
    Written indent text true text.toList := by
  refine .plain (htext ▸ h.allowsPlain negative) ?_
  rw [htext, signed]
  split
  · exact List.cons_ne_nil _ _
  · exact h.ne_nil

/-- A text is written in one of three ways. -/
theorem written_text {s : String} (h : Scalar.isKept s = true) (indent : Nat) :
    Written indent s (standsPlain (.str s)) (Scalar.write indent s).toList := by
  unfold Scalar.write
  dsimp only
  -- The writer tries to go without quotes first, then with single ones, and uses double ones for
  -- the rest.
  split
  next hplain =>
    obtain ⟨htag, hallows⟩ := Bool.and_eq_true_iff.mp hplain
    have hne : s.toList ≠ [] := fun hnil => by
      obtain rfl : s = "" := String.toList_eq_nil_iff.mp hnil
      revert htag
      decide
    show Written indent s (Tag.ofPlain s == .str && Scalar.allowsPlain s.toList) _
    rw [hplain]
    exact .plain hallows hne
  next hplain =>
    show Written indent s (Tag.ofPlain s == .str && Scalar.allowsPlain s.toList) _
    rw [Bool.eq_false_iff.mpr hplain]
    split
    next hsingle =>
      have hcontrol : '\x85' ∉ s.toList := by
        rw [Scalar.isKept, hsingle, Bool.true_and, Bool.not_eq_true'] at h
        exact fun hmem => Bool.false_ne_true (h.symm.trans (List.contains_iff_mem.mpr hmem))
      have hchars : ("'" ++ String.ofList (Scalar.singleChars indent false s.toList) ++
        "'").toList =
          '\x27' :: (Scalar.singleChars indent false s.toList ++ ['\x27']) := by
        simp
      rw [hchars]
      exact .single (Scalar.fits_of_allowsSingle hsingle hcontrol)
    next =>
      have hchars : ("\"" ++ String.join (s.toList.map Scalar.doubleChar) ++ "\"").toList =
          '\x22' :: (Lexeme.doubleText s.toList ++ ['\x22']) := by
        simp [String.toList_join, List.flatMap_map, Lexeme.doubleText]
        rfl
      rw [hchars]
      exact .double

/-- The characters of a number that is written. -/
theorem exists_unsigned (x : Float) : (∃ negative cs, Unsigned cs ∧
    (Number.render layout x).toList = signed negative cs) ∨
      Number.render layout x ∈ [".nan", ".inf", "-.inf"] := by
  by_cases hdigits : x.isNaN = true ∨ x.isInf = true
  · right
    rw [render_undigited hdigits]
    split
    · decide
    · split <;> decide
  · left
    obtain ⟨hnan, hinf⟩ := not_or.mp hdigits
    obtain ⟨p, hproper, -, hchars, -⟩ := Number.exists_pieces layout
      (Bool.not_eq_true _ ▸ hnan) (Bool.not_eq_true _ ▸ hinf)
    exact ⟨_, p.chars, unsigned_pieces hproper, hchars⟩

/-- **A scalar** is written as one. -/
theorem Atom.written {v : Value} (h : Atom v) (indent : Nat) :
    Written indent (scalarSource v) (standsPlain v) (scalarText indent v).toList := by
  cases h with
  | null => exact written_word indent (by decide)
  | bool b => cases b <;> exact written_word indent (by decide)
  | int short =>
    rename_i i
    obtain ⟨negative, -, htext⟩ := Json.exists_sign i []
    have hchars : (toString i).toList = signed negative (Nat.toDigits 10 i.natAbs) := by
      simpa [signed] using htext
    exact written_number indent (unsigned_toDigits i.natAbs) hchars
  | float x =>
    rcases exists_unsigned x with ⟨negative, cs, hunsigned, hchars⟩ | hword
    · exact written_number indent hunsigned hchars
    · exact written_word indent (List.mem_append_right ["null", "true", "false"] hword)
  | str kept => exact written_text kept indent

/-! ### Their values -/

/-- The type of a scalar. -/
def scalarTag : Value → Tag
  | .null => .null
  | .bool _ => .bool
  | .int _ => .int
  | .float _ => .float
  | _ => .str

/-- A scalar without quotes has the type of its text, and with quotes it is a text. -/
theorem tag_scalarNode (v : Value) :
    (scalarNode v).tag = if standsPlain v then Tag.ofPlain (scalarSource v) else .str := by
  rw [scalarNode, Reader.scalarTag]

/-- **It is the type that its text has.** -/
theorem Atom.tag_eq {v : Value} (h : Atom v) : (scalarNode v).tag = scalarTag v := by
  rw [tag_scalarNode]
  cases h with
  | null => decide
  | bool b => cases b <;> decide
  | int =>
    rw [standsPlain, if_pos rfl, scalarSource, scalarText, tag_int, scalarTag]
    all_goals exact nofun
  | float x =>
    rw [standsPlain, if_pos rfl, scalarSource, scalarText, tag_float, scalarTag]
    all_goals exact nofun
  | str =>
    rename_i s _
    rw [standsPlain, scalarSource]
    split
    next hplain => exact eq_of_beq (Bool.and_eq_true_iff.mp hplain).1
    next => rfl

/-- No scalar has the type of a collection. -/
theorem Atom.emptyShape?_eq {v : Value} (h : Atom v) :
    (scalarNode v).tag.emptyShape? = none := by
  rw [h.tag_eq]
  cases h <;> rfl

/-- The words for truth and falsehood are read back. -/
theorem booleanValue_eq (b : Bool) : booleanValue (scalarSource (.bool b)) = .ok (.bool b) := by
  have hlower : Text.lower (scalarSource (.bool b)) = scalarSource (.bool b) := by
    cases b with
    | false => exact lower_eq_self ['f', 'a', 'l', 's', 'e'] (by decide)
    | true => exact lower_eq_self ['t', 'r', 'u', 'e'] (by decide)
  rw [booleanValue, hlower]
  cases b <;> rfl

/-- **A scalar has its value again.** -/
theorem Atom.scalarValue_eq {v : Value} (h : Atom v) {nodes : Nodes} {place : Nat}
    (hnode : nodes.node place = scalarNode v) : nodes.scalarValue place = .ok v := by
  have htext : nodes.text (nodes.size + 1) place = .ok (scalarSource v) := by
    rw [Nodes.text, Nodes.content, hnode]
    rfl
  have htag : nodes.tag place = scalarTag v := by
    rw [Nodes.tag, hnode, h.tag_eq]
  rw [Nodes.scalarValue, htext, htag]
  dsimp only [bind, Except.bind]
  -- One case for each kind of scalar, with the tag that its text has.
  cases h with
  | null => rfl
  | bool b =>
    dsimp only [scalarTag]
    exact booleanValue_eq b
  | int short =>
    dsimp only [scalarTag]
    show (wholeValue (toString _)).map Value.int = _
    rw [wholeValue_toString short]
    rfl
  | float x =>
    dsimp only [scalarTag]
    simp only [scalarSource, scalarText]
    exact decimalValue_render place x
  | str =>
    dsimp only [scalarTag]
    rfl

/-- It needs no place. -/
theorem Atom.placeLeaf_eq {v : Value} (h : Atom v) (a : Assembly) (place : Nat) :
    a.placeLeaf place v = v := by
  cases h <;> rfl

/-! ### Their characters -/

/-- A character that is shown may stand in a text. -/
theorem isAllowed_of_shown {c : Char} (h : Scalar.isShown c = true) : isAllowed c = true := by
  simp only [Scalar.isShown, isAllowed, Bool.or_eq_true, Bool.and_eq_true, decide_eq_true_eq,
    beq_iff_eq] at h ⊢
  omega

/-- A character that holds no half has its own number. -/
theorem codeOf_eq_toNat {c : Char} (h : c.toNat < Text.halfShift) : Text.codeOf c = c.toNat := by
  rw [Text.codeOf, decide_eq_false (Nat.not_le.mpr h), Bool.false_and, if_neg Bool.false_ne_true]

/-- The characters of ASCII that are neither controls nor blanks may stand on a line. -/
theorem allowed_of_ascii {c : Char} (h : 0x20 < c.toNat ∧ c.toNat ≤ 0x7E) :
    isAllowed c = true ∧ IsInline c := by
  have hcode := codeOf_eq_toNat (c := c) (by rw [Text.halfShift]; omega)
  have hne : ∀ x : Char, x.toNat ≤ 0x20 ∨ 0x7E < x.toNat → c ≠ x := fun x hx heq => by
    subst heq
    omega
  refine ⟨?_, ?_, hne _ (by decide)⟩
  · simp only [isAllowed, hcode, Bool.or_eq_true, Bool.and_eq_true, decide_eq_true_eq, beq_iff_eq]
    omega
  · simp only [isBreak, Bool.or_eq_false_iff, beq_eq_false_iff_ne]
    exact ⟨⟨⟨⟨hne _ (by decide), hne _ (by decide)⟩, hne _ (by decide)⟩,
      hne _ (by decide)⟩, hne _ (by decide)⟩

/-- So may hexadecimal digits. -/
theorem allowed_of_isHexDigit {c : Char} (h : Lexeme.isHexDigit c = true) :
    isAllowed c = true ∧ IsInline c := by
  have hrange : ('0' ≤ c ∧ c ≤ '9') ∨ ('a' ≤ c ∧ c ≤ 'z') ∨
    ('A' ≤ c ∧ c ≤ 'Z') := by
    rw [Lexeme.isHexDigit, Number.baseDigit?] at h
    split at h
    next hdigit => exact .inl hdigit
    split at h
    next hlower => exact .inr (.inl hlower)
    split at h
    next hupper => exact .inr (.inr hupper)
    next => cases h
  simp only [Char.le_def, UInt32.le_iff_toNat_le] at hrange
  have hval : c.val.toNat = c.toNat := rfl
  rw [hval] at hrange
  refine allowed_of_ascii ?_
  -- Three ranges, all of them within ASCII.
  rcases hrange with hrange | hrange | hrange
  all_goals
    have hlow := hrange.1
    have hhigh := hrange.2
    simp at hlow hhigh
    omega

/-- So may a number in hexadecimal. -/
theorem allowed_hexChars (width n : Nat) :
    ∀ c ∈ Lexeme.hexChars width n, isAllowed c = true ∧ IsInline c := by
  intro c hc
  rcases List.mem_append.mp hc with hc | hc
  · exact allowed_of_isHexDigit (List.eq_of_mem_replicate hc ▸ (by decide))
  · exact allowed_of_isHexDigit (Lexeme.isHexDigit_toDigits n c hc)

/-- So may a character that needs no escape. -/
theorem allowed_of_isBare {x : Char} (h : Scalar.isBare x = true) :
    isAllowed x = true ∧ IsInline x := by
  have hne : ∀ y, Scalar.isBare y = false → x ≠ y := fun y hy heq =>
    Bool.false_ne_true (hy.symm.trans (heq ▸ h))
  refine ⟨?_, ?_, hne _ (by decide)⟩
  · simp only [Scalar.isBare, Bool.and_eq_true, Bool.or_eq_true, decide_eq_true_eq] at h
    have hcode := codeOf_eq_toNat (c := x) (by rw [Text.halfShift]; omega)
    simp only [isAllowed, hcode, Bool.or_eq_true, Bool.and_eq_true, decide_eq_true_eq, beq_iff_eq]
    omega
  · simp only [isBreak, Bool.or_eq_false_iff, beq_eq_false_iff_ne]
    exact ⟨⟨⟨⟨hne _ (by decide), hne _ (by decide)⟩, hne _ (by decide)⟩,
      hne _ (by decide)⟩, hne _ (by decide)⟩

/-- **What stands between double quotes** may stand on a line. -/
theorem allowed_doubleChars (x : Char) :
    ∀ c ∈ Lexeme.doubleChars x, isAllowed c = true ∧ IsInline c := by
  -- A character stands for itself, has a short escape, or is written with its number in two, four
  -- or eight digits.
  cases hbare : Scalar.isBare x with
  | true =>
    rw [Lexeme.doubleChars_bare hbare]
    exact List.forall_mem_singleton.mpr (allowed_of_isBare hbare)
  | false =>
    have hslash : isAllowed '\\' = true ∧ IsInline '\\' := by decide
    rw [Lexeme.doubleChars, Scalar.doubleChar, hbare, if_neg Bool.false_ne_true]
    cases hshort : Scalar.shortEscape? x with
    | some letter =>
      have hletter : isAllowed letter = true ∧ IsInline letter :=
        Lexeme.of_lookup_eq_some (p := fun entry => isAllowed entry.2 = true ∧ IsInline entry.2)
          (by decide) hshort
      rw [String.toList_push]
      simpa using ⟨hslash, hletter⟩
    | none =>
      have hnumber : ∀ {letter : Char} (width : Nat), isAllowed letter = true ∧
        IsInline letter →
          ∀ c ∈ '\\' :: letter :: Lexeme.hexChars width (Text.codeOf x),
            isAllowed c = true ∧ IsInline c := fun width hletter =>
        List.forall_mem_cons.mpr ⟨hslash, List.forall_mem_cons.mpr ⟨hletter,
          allowed_hexChars width _⟩⟩
      dsimp only
      split
      · rw [String.toList_append, Lexeme.toList_hex]
        exact hnumber 2 (by decide)
      split
      · rw [String.toList_append, Lexeme.toList_hex]
        exact hnumber 4 (by decide)
      · rw [String.toList_append, Lexeme.toList_hex]
        exact hnumber 8 (by decide)

/-- The characters between single quotes are those of the text, quotes, spaces and line feeds. -/
theorem mem_singleChars {indent : Nat} {inBreaks : Bool} {cs : List Char} {c : Char}
    (h : c ∈ Scalar.singleChars indent inBreaks cs) : c ∈ cs ∨ c ∈ [' ', '\n', '\x27'] := by
  have hspace : ∀ {c}, c ∈ List.replicate indent ' ' → c ∈ [' ', '\n', '\x27'] := fun hc =>
    List.eq_of_mem_replicate hc ▸ List.mem_cons_self
  -- Along the recursion of the writer, which adds breaks, spaces and doubled quotes only.
  fun_induction Scalar.singleChars indent inBreaks cs with
  | case1 => exact .inr (hspace h)
  | case2 => cases h
  | case3 inBreaks x rest hbreak ih =>
    rcases List.mem_append.mp h with hfeed | hrest
    · split at hfeed
      · exact .inr (by simp_all)
      · cases hfeed
    · rcases List.mem_cons.mp hrest with rfl | hrest
      · exact .inl List.mem_cons_self
      · exact (ih hrest).imp_left (List.mem_cons_of_mem x)
  | case4 inBreaks x rest hbreak ih =>
    rcases List.mem_append.mp h with hfirst | hrest
    · rcases List.mem_append.mp hfirst with hindent | hchar
      · split at hindent
        · exact .inr (hspace hindent)
        · cases hindent
      · split at hchar
        · exact .inr (by simp_all)
        · exact .inl (List.mem_singleton.mp hchar ▸ List.mem_cons_self)
    · exact (ih hrest).imp_left (List.mem_cons_of_mem x)

/-- **The characters of a scalar may stand in a text.** -/
theorem Written.allowed {indent : Nat} {text : String} {plain : Bool} {chars : List Char}
    (h : Written indent text plain chars) : ∀ c ∈ chars, isAllowed c = true := by
  cases h with
  | plain allows full =>
    exact fun c hc => isAllowed_of_shown ((Scalar.words_of_allowsPlain allows).shown c hc)
  | single fits =>
    refine List.forall_mem_cons.mpr ⟨by decide, List.forall_mem_append.mpr
      ⟨fun c hc => ?_, List.forall_mem_singleton.mpr (by decide)⟩⟩
    rcases mem_singleChars hc with hc | hc
    · exact isAllowed_of_shown (fits.shown c hc)
    · simp only [List.mem_cons, List.not_mem_nil, or_false] at hc
      rcases hc with rfl | rfl | rfl <;> decide
  | double =>
    refine List.forall_mem_cons.mpr ⟨by decide, List.forall_mem_append.mpr
      ⟨fun c hc => ?_, List.forall_mem_singleton.mpr (by decide)⟩⟩
    obtain ⟨x, -, hx⟩ := List.mem_flatMap.mp hc
    exact (allowed_doubleChars x c hx).1

/-! ### Keys -/

/-- On one line the indentation does not matter between single quotes. -/
theorem singleChars_oneLine (indent : Nat) {cs : List Char}
    (h : ∀ c ∈ cs, isWrittenBreak c = false) :
    Scalar.singleChars indent false cs = cs.flatMap Scalar.singleChar := by
  induction cs with
  | nil => rfl
  | cons x rest ih =>
    rw [Scalar.singleChars_cons indent (h x List.mem_cons_self),
      ih fun c hc => h c (List.mem_cons_of_mem x hc), List.flatMap_cons]

/-- Neither does it for the text. -/
theorem write_oneLine (indent : Nat) {s : String}
    (h : ∀ c ∈ s.toList, isWrittenBreak c = false) :
    Scalar.write indent s = Scalar.write 0 s := by
  rw [Scalar.write, Scalar.write, singleChars_oneLine indent h, singleChars_oneLine 0 h]

/-- A text on one line is written on one line. -/
theorem Written.isInline {indent : Nat} {s : String} {plain : Bool} {chars : List Char}
    (h : Written indent s plain chars) (hbreaks : ∀ c ∈ s.toList, isWrittenBreak c = false) :
    ∀ c ∈ chars, IsInline c := by
  -- There are three ways to write a text; in quotes, each character becomes one or two, and none a
  -- break.
  cases h with
  | plain allows full => exact fun c hc => (Scalar.words_of_allowsPlain allows).isInline hc
  | single fits =>
    refine List.forall_mem_cons.mpr ⟨by decide, List.forall_mem_append.mpr
      ⟨fun c hc => ?_, List.forall_mem_singleton.mpr (by decide)⟩⟩
    rw [singleChars_oneLine indent hbreaks] at hc
    obtain ⟨x, hx, hc⟩ := List.mem_flatMap.mp hc
    unfold Scalar.singleChar at hc
    split at hc
    · rw [List.eq_of_mem_replicate (n := 2) hc]
      decide
    · rw [List.mem_singleton.mp hc]
      exact Scalar.isInline_of_shown (fits.shown x hx) (hbreaks x hx)
  | double =>
    refine List.forall_mem_cons.mpr ⟨by decide, List.forall_mem_append.mpr
      ⟨fun c hc => ?_, List.forall_mem_singleton.mpr (by decide)⟩⟩
    obtain ⟨x, -, hx⟩ := List.mem_flatMap.mp hc
    exact (allowed_doubleChars x c hx).2

/-- **A simple key stands on one line**, within reach of the `:` behind it. -/
theorem key_on_line {s : String} (hkept : Scalar.isKeptKey s = true)
    (hsimple : isSimpleScalar none (.str s) = true) (indent : Nat) :
    (∀ c ∈ (Scalar.write indent s).toList, IsInline c) ∧
      (Scalar.write indent s).toList.length ≤ Lexer.keyReach := by
  have hbreaks : ∀ c ∈ s.toList, isWrittenBreak c = false := by
    simp only [isSimpleScalar, Bool.and_eq_true, Bool.not_eq_true', Scalar.isMultiline,
      List.any_eq_false] at hsimple
    exact fun c hc => Bool.eq_false_iff.mpr (hsimple.1.2 c hc)
  rw [Scalar.isKeptKey, hsimple, Bool.not_true, Bool.false_or, Bool.and_eq_true,
    decide_eq_true_eq] at hkept
  obtain ⟨hkept, hreach⟩ := hkept
  refine ⟨(written_text hkept indent).isInline hbreaks, ?_⟩
  rw [write_oneLine indent hbreaks, String.length_toList]
  exact hreach

/-- No escape is longer than the one with eight digits. -/
theorem length_doubleChars_le (x : Char) : (Lexeme.doubleChars x).length ≤ 10 := by
  -- The same three ways to write a character.
  cases hbare : Scalar.isBare x with
  | true =>
    rw [Lexeme.doubleChars_bare hbare, List.length_singleton]
    decide
  | false =>
    have hnumber : ∀ {letter : Char} (width : Nat), 0 < width → width ≤ 8 →
        Text.codeOf x < 16 ^ width →
        ('\\' :: letter :: Lexeme.hexChars width (Text.codeOf x)).length ≤ 10 := by
      intro letter width hpos hwidth hcode
      rw [List.length_cons, List.length_cons, Lexeme.length_hexChars hpos hcode]
      omega
    rw [Lexeme.doubleChars, Scalar.doubleChar, hbare, if_neg Bool.false_ne_true]
    cases Scalar.shortEscape? x with
    | some letter =>
      rw [String.toList_push, List.length_append, List.length_singleton]
      decide
    | none =>
      dsimp only
      split
      next hcode =>
        rw [String.toList_append, Lexeme.toList_hex]
        exact hnumber 2 (by decide) (by decide) (Nat.lt_succ_of_le hcode)
      split
      next hcode =>
        rw [String.toList_append, Lexeme.toList_hex]
        exact hnumber 4 (by decide) (by decide) (Nat.lt_succ_of_le hcode)
      next =>
        rw [String.toList_append, Lexeme.toList_hex]
        exact hnumber 8 (by decide) (by decide) (Nat.lt_trans (codeOf_lt x) (by decide))

/-- What is written for a text character by character. -/
theorem length_flatMap_le {f : Char → List Char} {n : Nat} (h : ∀ x, (f x).length ≤ n)
    (cs : List Char) : (cs.flatMap f).length ≤ n * cs.length := by
  induction cs with
  | nil => exact Nat.zero_le _
  | cons x rest ih =>
    have hx := h x
    rw [List.flatMap_cons, List.length_append, List.length_cons, Nat.mul_succ]
    omega

/-- **A key is within reach** if it has at most a hundred and two characters, whatever they are. -/
theorem isKeptKey_of_length {s : String} (hkept : Scalar.isKept s = true)
    (hlength : s.length ≤ 102) : Scalar.isKeptKey s = true := by
  rw [Scalar.isKeptKey, hkept, Bool.true_and, Bool.or_eq_true, Bool.not_eq_true',
    decide_eq_true_eq]
  cases hsimple : isSimpleScalar none (.str s) with
  | false => exact .inl rfl
  | true =>
    right
    have hbreaks : ∀ c ∈ s.toList, isWrittenBreak c = false := by
      simp only [isSimpleScalar, Bool.and_eq_true, Bool.not_eq_true', Scalar.isMultiline,
        List.any_eq_false] at hsimple
      exact fun c hc => Bool.eq_false_iff.mpr (hsimple.1.2 c hc)
    have hquotes : ∀ x, (Scalar.singleChar x).length ≤ 2 := fun x => by
      rw [Scalar.singleChar]
      split
      · exact Nat.le_refl 2
      · exact Nat.le_succ 1
    have hsingle := length_flatMap_le hquotes s.toList
    have hdouble := length_flatMap_le length_doubleChars_le s.toList
    have hchars : s.toList.length = s.length := String.length_toList
    have hwritten := written_text hkept 0
    rw [← String.length_toList]
    generalize (Scalar.write 0 s).toList = chars, standsPlain (.str s) = plain at hwritten ⊢
    rw [Lexer.keyReach]
    -- Ten characters for each of the text, and two quotes, stay within the reach of a key.
    cases hwritten with
    | plain => omega
    | single =>
      rw [singleChars_oneLine 0 hbreaks, List.length_cons, List.length_append,
        List.length_singleton]
      omega
    | double =>
      rw [Lexeme.doubleText, List.length_cons, List.length_append, List.length_singleton]
      omega

end PipelineCompiler.Yaml
