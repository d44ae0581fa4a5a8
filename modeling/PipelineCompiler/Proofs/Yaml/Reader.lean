import PipelineCompiler.Proofs.Yaml.Lexer
import PipelineCompiler.Yaml.Reader

namespace PipelineCompiler.Yaml

/-!
# The texts of nodes

The scalars among the nodes of a document have the texts of tokens, or none at all.

* `Node.TextIn`, `Reader.Within` — a property of the texts of nodes, and of all that a reader has;
* `Reader.ReadsWithin` — whatever is read keeps it;
* `within_document` — the nodes of a document.
-/

/-- The text of a scalar has a property. -/
def Node.TextIn (p : String → Prop) (n : Node) : Prop :=
  ∀ text, n.content = .scalar text → p text

namespace Reader

variable {p : String → Prop} {r r' : Reader}

/-- The texts of the tokens that are left have a property, and those of the nodes so far. -/
structure Within (p : String → Prop) (r : Reader) : Prop where
  tokens : ∀ text ∈ textsOf r.tokens, p text
  nodes : ∀ n, some n ∈ r.nodes → n.TextIn p

/-- The texts of some of the tokens. -/
theorem textsOf_sublist {xs ys : List Token} (h : xs.Sublist ys) :
    (textsOf xs).Sublist (textsOf ys) := h.filterMap _

/-- Going on to tokens further behind. -/
theorem Within.tokens_of_sublist (h : r.Within p) {tokens : List Token}
    (hsub : tokens.Sublist r.tokens) : ({ r with tokens } : Reader).Within p :=
  ⟨fun text htext => h.tokens text ((textsOf_sublist hsub).subset htext), h.nodes⟩

/-- The next token is passed. -/
theorem Within.step (h : r.Within p) : r.step.Within p :=
  h.tokens_of_sublist (List.tail_sublist _)

/-- A place is taken for a node. -/
theorem Within.reserve (h : r.Within p) (anchor : Option String) : (r.reserve anchor).2.Within p :=
  ⟨h.tokens, fun n hn => by
    rcases Array.mem_push.mp hn with hn | hn
    · exact h.nodes n hn
    · cases hn⟩

/-- A node is put at its place. -/
theorem Within.fill (h : r.Within p) {place : Nat} {n : Node} (hn : n.TextIn p) :
    (r.fill place n).Within p :=
  ⟨h.tokens, fun other hother => by
    rcases Array.mem_or_eq_of_mem_setIfInBounds hother with hother | heq
    · exact h.nodes other hother
    · exact Option.some.inj heq ▸ hn⟩

/-- A node is added. -/
theorem Within.add (h : r.Within p) {n : Node} (hn : n.TextIn p) : (r.add n).2.Within p :=
  ⟨h.tokens, fun other hother => by
    rcases Array.mem_push.mp hother with hother | heq
    · exact h.nodes other hother
    · exact Option.some.inj heq ▸ hn⟩

/-- An alias is noted. -/
theorem Within.noteAlias (h : r.Within p) (place : Nat) : (r.noteAlias place).Within p :=
  ⟨h.tokens, h.nodes⟩

/-- The properties of a node are passed. -/
theorem Within.properties (h : r.Within p) {anchor : Option String}
    {tag : Option (Option String × String)} (hread : r.properties = .ok (anchor, tag, r')) :
    r'.Within p := by
  unfold Reader.properties at hread
  -- A tag or an anchor may come first, or only one of them, or none; reading them drops tokens and
  -- adds no text.
  split at hread
  next htokens =>
    obtain ⟨-, hrest⟩ := Prod.mk.inj (Except.ok.inj hread)
    obtain ⟨-, rfl⟩ := Prod.mk.inj hrest
    exact h.tokens_of_sublist (htokens ▸ .cons _ (.cons _ (.refl _)))
  next htokens =>
    obtain ⟨-, hrest⟩ := Prod.mk.inj (Except.ok.inj hread)
    obtain ⟨-, rfl⟩ := Prod.mk.inj hrest
    exact h.tokens_of_sublist (htokens ▸ .cons _ (.cons _ (.refl _)))
  next => cases hread
  next => cases hread
  next htokens =>
    obtain ⟨-, hrest⟩ := Prod.mk.inj (Except.ok.inj hread)
    obtain ⟨-, rfl⟩ := Prod.mk.inj hrest
    exact h.tokens_of_sublist (htokens ▸ .cons _ (.refl _))
  next htokens =>
    obtain ⟨-, hrest⟩ := Prod.mk.inj (Except.ok.inj hread)
    obtain ⟨-, rfl⟩ := Prod.mk.inj hrest
    exact h.tokens_of_sublist (htokens ▸ .cons _ (.refl _))
  next =>
    obtain ⟨-, hrest⟩ := Prod.mk.inj (Except.ok.inj hread)
    obtain ⟨-, rfl⟩ := Prod.mk.inj hrest
    exact h

/-- The next token is a scalar. -/
theorem Within.scalar (h : r.Within p) {text : String} {plain : Bool}
    (hpeek : r.peek = .scalar text plain) : p text := by
  refine h.tokens text (List.mem_filterMap.mpr ⟨.scalar text plain, ?_, rfl⟩)
  rw [peek] at hpeek
  cases htokens : r.tokens with
  | nil =>
    rw [htokens] at hpeek
    cases hpeek
  | cons first rest =>
    rw [htokens] at hpeek
    exact hpeek ▸ List.mem_cons_self

/-- What is read keeps the property. -/
def Keeps {α : Type} (p : String → Prop) (x : Except Fault (α × Reader)) : Prop :=
  ∀ a r', x = .ok (a, r') → r'.Within p

/-- Nothing is read. -/
theorem keeps_error {α : Type} (fault : Fault) :
    Keeps p (.error fault : Except Fault (α × Reader)) :=
  fun _ _ h => nomatch h

/-- Nothing more is read. -/
theorem keeps_ok {α : Type} (h : r.Within p) (a : α) : Keeps p (.ok (a, r)) := fun _ _ heq =>
  (Prod.mk.inj (Except.ok.inj heq)).2 ▸ h

/-- Something is read, and then something else. -/
theorem Keeps.bind {α β : Type} {x : Except Fault (α × Reader)}
    {f : α × Reader → Except Fault (β × Reader)} (hx : Keeps p x)
    (hf : ∀ a r', r'.Within p → Keeps p (f (a, r'))) : Keeps p (x >>= f) := by
  intro b r' h
  obtain ⟨⟨a, r₁⟩, hok, h⟩ := bind_eq_ok.mp h
  exact hf a r₁ (hx a r₁ hok) b r' h

/-- Whatever is read with some fuel keeps the property. -/
structure ReadsWithin (p : String → Prop) (fuel : Nat) : Prop where
  node : ∀ inBlock bareDashes depth r, r.Within p →
    Keeps p (Reader.node inBlock bareDashes depth fuel r)
  content : ∀ inBlock bareDashes hasProperties tag depth r, r.Within p → ∀ n r',
    Reader.content inBlock bareDashes hasProperties tag depth fuel r = .ok (n, r') →
      r'.Within p ∧ n.TextIn p
  optionalNode : ∀ inBlock bareDashes ends depth r, r.Within p →
    Keeps p (Reader.optionalNode inBlock bareDashes ends depth fuel r)
  blockItems : ∀ depth r, r.Within p → Keeps p (Reader.blockItems depth fuel r)
  bareItems : ∀ depth r, r.Within p → Keeps p (Reader.bareItems depth fuel r)
  blockValue : ∀ depth r, r.Within p → Keeps p (Reader.blockValue depth fuel r)
  blockEntries : ∀ depth r, r.Within p → Keeps p (Reader.blockEntries depth fuel r)
  flowValue : ∀ closing depth r, r.Within p → Keeps p (Reader.flowValue closing depth fuel r)
  bracketItems : ∀ first depth r, r.Within p → Keeps p (Reader.bracketItems first depth fuel r)
  braceEntries : ∀ first depth r, r.Within p → Keeps p (Reader.braceEntries first depth fuel r)

/-- A collection has no text of its own. -/
theorem textIn_sequence (tag : Tag) (items : List Nat) :
    (Node.mk tag (.sequence items)).TextIn p := fun _ h => nomatch h

/-- Neither has a mapping. -/
theorem textIn_mapping (tag : Tag) (entries : List Entry) :
    (Node.mk tag (.mapping entries)).TextIn p := fun _ h => nomatch h

section Reads

variable (hempty : p "") {fuel : Nat}

/-- A node. -/
theorem node_within (ih : ReadsWithin p fuel) (inBlock bareDashes : Bool) (depth : Nat)
    (h : r.Within p) : Keeps p (Reader.node inBlock bareDashes depth (fuel + 1) r) := by
  rw [Reader.node]
  split
  · split
    · exact keeps_ok (h.step.noteAlias _) _
    · exact keeps_error _
  · intro a r' hread
    obtain ⟨⟨anchor, tag, r₁⟩, hproperties, hread⟩ := bind_eq_ok.mp hread
    have hr₁ := h.properties hproperties
    obtain ⟨fullTag, -, hread⟩ := bind_eq_ok.mp hread
    -- three checks, then the content
    split at hread
    next place reserved hreserve =>
    have hreserved : reserved.Within p := by
      have hwithin := hr₁.reserve anchor
      rwa [hreserve] at hwithin
    split at hread
    · split at hread <;> split at hread <;> cases hread
    split at hread
    · split at hread <;> cases hread
    split at hread
    · cases hread
    obtain ⟨⟨found, r₂⟩, hcontent, hread⟩ := bind_eq_ok.mp hread
    obtain ⟨-, rfl⟩ := Prod.mk.inj (Except.ok.inj hread)
    obtain ⟨hr₂, hfound⟩ := ih.content _ _ _ _ _ _ hreserved _ _ hcontent
    exact hr₂.fill hfound

include hempty

/-- A node without text. -/
theorem textIn_empty : Node.empty.TextIn p := fun _ h => Content.scalar.inj h ▸ hempty

/-- The content of a node. -/
theorem content_within (ih : ReadsWithin p fuel) (inBlock bareDashes hasProperties : Bool)
    (tag : Option String) (depth : Nat) (h : r.Within p) {n : Node}
    (hread : Reader.content inBlock bareDashes hasProperties tag depth (fuel + 1) r = .ok (n, r')) :
    r'.Within p ∧ n.TextIn p := by
  have hsequence : ∀ {items : Except Fault (List Nat × Reader)}, Keeps p items →
      (items >>= fun found =>
        pure (Node.mk (collectionTag .seq tag) (.sequence found.1), found.2)) = .ok (n, r') →
      r'.Within p ∧ n.TextIn p := by
    intro items hitems hread
    obtain ⟨⟨found, r₁⟩, hok, hread⟩ := bind_eq_ok.mp hread
    obtain ⟨rfl, rfl⟩ := Prod.mk.inj (Except.ok.inj hread)
    exact ⟨hitems found _ hok, textIn_sequence _ _⟩
  have hmapping : ∀ {entries : Except Fault (List Entry × Reader)}, Keeps p entries →
      (entries >>= fun found =>
        pure (Node.mk (collectionTag .map tag) (.mapping found.1), found.2)) = .ok (n, r') →
      r'.Within p ∧ n.TextIn p := by
    intro entries hentries hread
    obtain ⟨⟨found, r₁⟩, hok, hread⟩ := bind_eq_ok.mp hread
    obtain ⟨rfl, rfl⟩ := Prod.mk.inj (Except.ok.inj hread)
    exact ⟨hentries found _ hok, textIn_mapping _ _⟩
  rw [Reader.content] at hread
  -- In the order of the reader: a scalar, a collection in brackets, one that is not indented, a
  -- block, and what is empty.
  split at hread
  next text plain hpeek =>
    obtain ⟨rfl, rfl⟩ := Prod.mk.inj (Except.ok.inj hread)
    exact ⟨h.step, fun _ heq => Content.scalar.inj heq ▸ h.scalar hpeek⟩
  next => exact hsequence (ih.bracketItems _ _ _ h.step) hread
  next => exact hmapping (ih.braceEntries _ _ _ h.step) hread
  next =>
    split at hread
    · exact hsequence (ih.bareItems _ _ h) hread
    split at hread
    · exact hsequence (ih.blockItems _ _ h.step) hread
    split at hread
    · exact hmapping (ih.blockEntries _ _ h.step) hread
    split at hread
    · obtain ⟨rfl, rfl⟩ := Prod.mk.inj (Except.ok.inj hread)
      exact ⟨h, fun _ heq => Content.scalar.inj heq ▸ hempty⟩
    · cases hread

/-- A node that may be absent. -/
theorem optionalNode_within (ih : ReadsWithin p fuel) (inBlock bareDashes : Bool)
    (ends : List Token) (depth : Nat) (h : r.Within p) :
    Keeps p (Reader.optionalNode inBlock bareDashes ends depth (fuel + 1) r) := by
  rw [Reader.optionalNode]
  split
  · exact keeps_ok (h.add (textIn_empty hempty)) _
  · exact ih.node _ _ _ _ h

/-- The value behind a key of a block. -/
theorem blockValue_within (ih : ReadsWithin p fuel) (depth : Nat) (h : r.Within p) :
    Keeps p (Reader.blockValue depth (fuel + 1) r) := by
  rw [Reader.blockValue]
  split
  · exact ih.optionalNode _ _ _ _ _ h.step
  · exact keeps_ok (h.add (textIn_empty hempty)) _

/-- The value behind a key inside brackets or braces. -/
theorem flowValue_within (ih : ReadsWithin p fuel) (closing : Token) (depth : Nat)
    (h : r.Within p) : Keeps p (Reader.flowValue closing depth (fuel + 1) r) := by
  rw [Reader.flowValue]
  split
  · exact ih.optionalNode _ _ _ _ _ h.step
  · exact keeps_ok (h.add (textIn_empty hempty)) _

omit hempty

/-- The items of a block. -/
theorem blockItems_within (ih : ReadsWithin p fuel) (depth : Nat) (h : r.Within p) :
    Keeps p (Reader.blockItems depth (fuel + 1) r) := by
  rw [Reader.blockItems]
  split
  · exact (ih.optionalNode _ _ _ _ _ h.step).bind fun _ _ h => (ih.blockItems _ _ h).bind
      fun _ _ h => keeps_ok h _
  · exact keeps_ok h.step _
  · exact keeps_error _

/-- The items of a sequence that is not indented. -/
theorem bareItems_within (ih : ReadsWithin p fuel) (depth : Nat) (h : r.Within p) :
    Keeps p (Reader.bareItems depth (fuel + 1) r) := by
  rw [Reader.bareItems]
  split
  · exact (ih.optionalNode _ _ _ _ _ h.step).bind fun _ _ h => (ih.bareItems _ _ h).bind
      fun _ _ h => keeps_ok h _
  · exact keeps_ok h _

/-- The entries of a block. -/
theorem blockEntries_within (ih : ReadsWithin p fuel) (depth : Nat) (h : r.Within p) :
    Keeps p (Reader.blockEntries depth (fuel + 1) r) := by
  rw [Reader.blockEntries]
  split
  · exact (ih.optionalNode _ _ _ _ _ h.step).bind fun _ _ h => (ih.blockValue _ _ h).bind
      fun _ _ h => (ih.blockEntries _ _ h).bind fun _ _ h => keeps_ok h _
  · exact keeps_ok h.step _
  · exact keeps_error _

/-- The items between brackets. -/
theorem bracketItems_within (ih : ReadsWithin p fuel) (first : Bool) (depth : Nat)
    (h : r.Within p) : Keeps p (Reader.bracketItems first depth (fuel + 1) r) := by
  rw [Reader.bracketItems]
  -- At the bracket the items end; before it there is a comma, unless this is the first of them.
  split
  · exact keeps_ok h.step _
  by_cases hcomma : (!first && r.peek != Token.comma) = true
  · rw [if_pos hcomma]
    exact keeps_error _
  rw [if_neg hcomma]
  have hnext : (if first = true then r else r.step).Within p := by
    cases first with
    | true => exact h
    | false => exact h.step
  generalize (if first = true then r else r.step) = r at hnext
  dsimp only
  split
  · exact Keeps.bind (ih.optionalNode _ _ _ _ _ (hnext.step.reserve none)) fun _ _ h =>
      Keeps.bind (ih.flowValue _ _ _ h) fun _ _ h =>
        Keeps.bind (ih.bracketItems _ _ _ (h.fill (textIn_mapping _ _))) fun _ _ h => keeps_ok h _
  · exact keeps_ok hnext.step _
  · exact (ih.node _ _ _ _ hnext).bind fun _ _ h => (ih.bracketItems _ _ _ h).bind
      fun _ _ h => keeps_ok h _

include hempty

/-- The entries between braces. -/
theorem braceEntries_within (ih : ReadsWithin p fuel) (first : Bool) (depth : Nat)
    (h : r.Within p) : Keeps p (Reader.braceEntries first depth (fuel + 1) r) := by
  rw [Reader.braceEntries]
  -- At the brace the entries end; before it there is a comma, unless this is the first of them.
  split
  · exact keeps_ok h.step _
  by_cases hcomma : (!first && r.peek != Token.comma) = true
  · rw [if_pos hcomma]
    exact keeps_error _
  rw [if_neg hcomma]
  have hnext : (if first = true then r else r.step).Within p := by
    cases first with
    | true => exact h
    | false => exact h.step
  generalize (if first = true then r else r.step) = r at hnext
  dsimp only
  split
  · exact (ih.optionalNode _ _ _ _ _ hnext.step).bind fun _ _ h =>
      (ih.flowValue _ _ _ h).bind fun _ _ h =>
        (ih.braceEntries _ _ _ h).bind fun _ _ h => keeps_ok h _
  · exact keeps_ok hnext.step _
  · exact Keeps.bind (ih.node _ _ _ _ hnext) fun _ _ h =>
      Keeps.bind (ih.braceEntries _ _ _ (h.add (textIn_empty hempty))) fun _ _ h => keeps_ok h _

/-- **Whatever is read** keeps the property. -/
theorem readsWithin (fuel : Nat) : ReadsWithin p fuel := by
  induction fuel with
  | zero => constructor <;> intros <;> first | exact keeps_error _ | contradiction
  | succ fuel ih => exact
    { node := fun _ _ _ _ h => node_within ih _ _ _ h
      content := fun _ _ _ _ _ _ h _ _ hread => content_within hempty ih _ _ _ _ _ h hread
      optionalNode := fun _ _ _ _ _ h => optionalNode_within hempty ih _ _ _ _ h
      blockItems := fun _ _ h => blockItems_within ih _ h
      bareItems := fun _ _ h => bareItems_within ih _ h
      blockValue := fun _ _ h => blockValue_within hempty ih _ h
      blockEntries := fun _ _ h => blockEntries_within ih _ h
      flowValue := fun _ _ _ h => flowValue_within hempty ih _ _ h
      bracketItems := fun _ _ _ h => bracketItems_within ih _ _ h
      braceEntries := fun _ _ _ h => braceEntries_within hempty ih _ _ h }

end Reads

/-- Directives are passed. -/
theorem directives_sublist {versioned : Bool} {handles found : Keyed String}
    {tokens rest : List Token} (h : directives versioned handles tokens = .ok (found, rest)) :
    rest.Sublist tokens := by
  fun_induction directives versioned handles tokens with
  | case1 => cases h
  | case2 _ _ _ _ _ _ ih => exact .cons _ (ih h)
  | case3 => cases h
  | case4 _ _ _ _ _ _ ih => exact .cons _ (ih h)
  | case5 _ _ _ ih => exact .cons _ (ih h)
  | case6 =>
    obtain ⟨-, rfl⟩ := Prod.mk.inj (Except.ok.inj h)
    exact .refl _

/-- **The nodes of a document** have the texts of tokens. -/
theorem within_document (hempty : p "") {tokens : List Token}
    (h : ∀ text ∈ textsOf tokens, p text)
    (hread : document tokens = .ok r) : r.Within p := by
  have hnode : ∀ (r₀ : Reader) fuel, r₀.Within p →
      ∀ r, (Reader.node true false 0 fuel r₀).map (·.2) = .ok r → r.Within p := by
    intro r₀ fuel hr₀ r hread
    obtain ⟨⟨place, r₁⟩, hok, rfl⟩ := map_eq_ok.mp hread
    exact (readsWithin hempty fuel).node _ _ _ _ hr₀ place r₁ hok
  have hmarked : ∀ r, markedDocument tokens = .ok r → r.Within p := by
    intro r hread
    obtain ⟨⟨handles, rest⟩, hdirectives, hread⟩ := bind_eq_ok.mp hread
    have hrest := directives_sublist hdirectives
    dsimp only at hread
    split at hread
    next tokens' =>
      have htokens := textsOf_sublist (.trans (.cons _ (.refl _)) hrest)
      have hstart :
          ({ tokens := tokens', handles := handles ++ defaultHandles } : Reader).Within p :=
        ⟨fun text htext => h text (htokens.subset htext),
          fun _ hn => absurd hn (Array.not_mem_empty _)⟩
      split at hread
      · exact Except.ok.inj hread ▸ hstart.add (textIn_empty hempty)
      · exact hnode _ _ hstart _ hread
    next => cases hread
  -- A document starts with a mark or without one.
  unfold document at hread
  split at hread
  · exact hmarked r hread
  · exact hmarked r hread
  · exact hmarked r hread
  · exact hmarked r hread
  · exact hnode _ _ ⟨h, fun _ hn => absurd hn (Array.not_mem_empty _)⟩ _ hread

end Reader
end PipelineCompiler.Yaml
