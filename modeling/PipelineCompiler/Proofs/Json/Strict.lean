import PipelineCompiler.Proofs.Json.Grammar
import PipelineCompiler.Proofs.Json.Restored

namespace PipelineCompiler.Json

/-!
# Which documents are strict JSON

A text that follows the grammar of JSON has neither an `N` nor an `I` outside of its quoted texts.
An infinity and what is no number are written with one of them.

* `shown` — the characters outside of quoted texts;
* `IsValue.quiet` — in the grammar none of these is an `N` or an `I`;
* `Spells.shouts` — in the text of data one of them is, if there is a float that is not finite;
* `Spells.isStrict_iff` — a text of data is strict JSON if and only if the floats in the data are
  finite.
-/

open Number

/-! ### Outside of quoted texts -/

/-- Where a character stands. -/
inductive Place where
  | outside
  | quoted
  | escaped
deriving Repr, DecidableEq

/-- The characters outside of quoted texts. -/
def shown : Place → List Char → List Char
  | _, [] => []
  | .outside, c :: rest =>
    if c = '\x22' then shown .quoted rest else c :: shown .outside rest
  | .quoted, c :: rest =>
    if c = '\x22' then shown .outside rest
    else if c = '\\' then shown .escaped rest
    else shown .quoted rest
  | .escaped, _ :: rest => shown .quoted rest

/-- A text that begins and ends outside of quoted texts, and what is shown of it. -/
def Shows (cs visible : List Char) : Prop :=
  ∀ rest, shown .outside (cs ++ rest) = visible ++ shown .outside rest

/-- What is shown of a text is determined by it. -/
theorem Shows.unique {cs visible visible' : List Char} (h : Shows cs visible)
    (h' : Shows cs visible') : visible = visible' :=
  List.append_cancel_right ((h []).symm.trans (h' []))

/-- Texts one after another. -/
theorem Shows.append {cs ds visible visible' : List Char} (h : Shows cs visible)
    (h' : Shows ds visible') : Shows (cs ++ ds) (visible ++ visible') := by
  intro rest
  rw [List.append_assoc, h, h', List.append_assoc]

/-- Text without quotes is shown. -/
theorem shows_bare {cs : List Char} (h : ∀ c ∈ cs, c ≠ '\x22') : Shows cs cs := by
  intro rest
  induction cs with
  | nil => rfl
  | cons c more ih =>
    obtain ⟨hc, hmore⟩ := List.forall_mem_cons.mp h
    rw [List.cons_append, shown, if_neg hc, ih hmore]
    rfl

/-- A character of a quoted text is not shown. -/
theorem IsCharacter.shown {part : List Char} (h : IsCharacter part) (rest : List Char) :
    shown .quoted (part ++ rest) = shown .quoted rest := by
  -- Quotes and backslashes never stand by themselves in a quoted text.
  cases h with
  | plain printable quote backslash =>
    rw [List.singleton_append, Json.shown, if_neg quote, if_neg backslash]
  | letter letter => rfl
  | @code a b c d digits =>
    have hne : ∀ x ∈ [a, b, c, d], x ≠ '\x22' ∧ x ≠ '\\' := by
      intro x hx
      constructor
      all_goals
        rintro rfl
        have hdigit := digits _ hx
        revert hdigit
        unfold IsHexDigit
        decide
    simp only [List.mem_cons, List.not_mem_nil, or_false, forall_eq_or_imp, forall_eq] at hne
    obtain ⟨ha, hb, hc, hd⟩ := hne
    simp [Json.shown, ha, hb, hc, hd]

/-- Nothing is shown of a quoted text. -/
theorem IsQuoted.shows {cs : List Char} (h : IsQuoted cs) : Shows cs [] := by
  obtain ⟨each⟩ := h
  intro rest
  rename_i parts
  have hparts : shown .quoted (parts.flatten ++ '\x22' :: rest) = shown .outside rest := by
    induction parts with
    | nil => rfl
    | cons part parts ih =>
      obtain ⟨hpart, hparts⟩ := List.forall_mem_cons.mp each
      rw [List.flatten_cons, List.append_assoc, hpart.shown, ih hparts]
  rw [List.cons_append, List.append_assoc]
  exact hparts

/-! ### Texts that follow the grammar -/

/-- A text that shows no `N` and no `I`. -/
def Quiet (cs : List Char) : Prop :=
  ∃ visible, Shows cs visible ∧ 'N' ∉ visible ∧ 'I' ∉ visible

/-- Texts one after another. -/
theorem Quiet.append {cs ds : List Char} (h : Quiet cs) (h' : Quiet ds) : Quiet (cs ++ ds) := by
  obtain ⟨visible, hshows, hn, hi⟩ := h
  obtain ⟨visible', hshows', hn', hi'⟩ := h'
  refine ⟨visible ++ visible', hshows.append hshows', ?_, ?_⟩
  · rw [List.mem_append]
    exact not_or.mpr ⟨hn, hn'⟩
  · rw [List.mem_append]
    exact not_or.mpr ⟨hi, hi'⟩

/-- Text without quotes and these letters. -/
theorem quiet_bare {cs : List Char} (h : ∀ c ∈ cs, c ≠ '\x22' ∧ c ≠ 'N' ∧ c ≠ 'I') :
    Quiet cs :=
  ⟨cs, shows_bare fun c hc => (h c hc).1, fun hn => (h _ hn).2.1 rfl, fun hi =>
    (h _ hi).2.2 rfl⟩

/-- A single character. -/
theorem quiet_char {c : Char} (h : c ≠ '\x22' ∧ c ≠ 'N' ∧ c ≠ 'I') : Quiet [c] :=
  quiet_bare fun _ hd => List.mem_singleton.mp hd ▸ h

/-- The words. -/
theorem quiet_words : ∀ text ∈ ["null", "true", "false"], Quiet text.toList := by
  have hbare : ∀ text ∈ ["null", "true", "false"], ∀ c ∈ text.toList,
      c ≠ '\x22' ∧ c ≠ 'N' ∧ c ≠ 'I' := by
    simp
  exact fun text htext => quiet_bare (hbare text htext)

/-- Blanks. -/
theorem quiet_blank {cs : List Char} (h : Blank cs) : Quiet cs := by
  refine quiet_bare fun c hc => ⟨?_, ?_, ?_⟩
  all_goals
    rintro rfl
    exact absurd (h _ hc) (by decide)

/-- Digits. -/
theorem quiet_digits {cs : List Char} (h : AllDigits cs) : Quiet cs := by
  refine quiet_bare fun c hc => ⟨?_, ?_, ?_⟩
  all_goals
    rintro rfl
    exact absurd (h _ hc) (by decide)

/-- Quoted texts. -/
theorem IsQuoted.quiet {cs : List Char} (h : IsQuoted cs) : Quiet cs :=
  ⟨[], h.shows, List.not_mem_nil, List.not_mem_nil⟩

/-- Numbers. -/
theorem IsNumber.quiet {cs : List Char} (h : IsNumber cs) : Quiet cs := by
  obtain ⟨signed, whole, pointed, marked⟩ := h
  -- Sign, fraction and exponent are digits and signs, so none of them has a capital letter.
  have hsign : ∀ {sign : List Char}, sign = [] ∨ sign = ['-'] → Quiet sign := by
    rintro sign (rfl | rfl)
    · exact quiet_digits fun _ hc => nomatch hc
    · exact quiet_char (by decide)
  have hpoint : ∀ {point : List Char}, IsFraction point → Quiet point := by
    rintro point (rfl | ⟨ds, hdigits, rfl⟩)
    · exact quiet_digits fun _ hc => nomatch hc
    · exact (quiet_char (by decide)).append (quiet_digits hdigits.2)
  have hexponent : ∀ {exponent : List Char}, IsExponent exponent → Quiet exponent := by
    rintro exponent (rfl | ⟨mark, sign, ds, hmark, hsign, hdigits, rfl⟩)
    · exact quiet_digits fun _ hc => nomatch hc
    · have hmark' : Quiet [mark] := by
        rcases hmark with rfl | rfl
        · exact quiet_char (by decide)
        · exact quiet_char (by decide)
      have hsign' : Quiet sign := by
        rcases hsign with rfl | rfl | rfl
        · exact quiet_digits fun _ hc => nomatch hc
        · exact quiet_char (by decide)
        · exact quiet_char (by decide)
      exact hmark'.append (hsign'.append (quiet_digits hdigits.2))
  exact (hsign signed).append
    ((quiet_digits whole.1.2).append ((hpoint pointed).append (hexponent marked)))

mutual

/-- **A value of the grammar shows no `N` and no `I`.** -/
theorem IsValue.quiet : ∀ {cs : List Char}, IsValue cs → Quiet cs
  | _, .null => quiet_words "null" (by simp)
  | _, .bool true => quiet_words "true" (by simp)
  | _, .bool false => quiet_words "false" (by simp)
  | _, .number h => h.quiet
  | _, .quoted h => h.quiet
  | _, .noItems blank => (quiet_char (by decide)).append ((quiet_blank blank).append
      (quiet_char (by decide)))
  | _, .items members => (quiet_char (by decide)).append (members.quiet.append
      (quiet_char (by decide)))
  | _, .noEntries blank => (quiet_char (by decide)).append ((quiet_blank blank).append
      (quiet_char (by decide)))
  | _, .entries members => (quiet_char (by decide)).append (members.quiet.append
      (quiet_char (by decide)))

/-- So does a member of a list or mapping. -/
theorem IsMember.quiet : ∀ {keyed : Bool} {cs : List Char}, IsMember keyed cs → Quiet cs
  | _, _, .item lead value trail =>
    (quiet_blank lead).append (value.quiet.append (quiet_blank trail))
  | _, _, .entry lead quoted past space value trail =>
    (quiet_blank lead).append (quoted.quiet.append ((quiet_blank past).append
      ((quiet_char (by decide)).append ((quiet_blank space).append
        (value.quiet.append (quiet_blank trail))))))

/-- So do members with separators between them. -/
theorem AreMembers.quiet : ∀ {keyed : Bool} {cs : List Char}, AreMembers keyed cs → Quiet cs
  | _, _, .last member => member.quiet
  | _, _, .more member members =>
    member.quiet.append ((quiet_char (by decide)).append members.quiet)

end

/-! ### Texts of data -/

/-- A text that shows an `N` or an `I` under a condition. -/
def Shouts (condition : Prop) (cs : List Char) : Prop :=
  ∃ visible, Shows cs visible ∧ (condition → 'N' ∈ visible ∨ 'I' ∈ visible)

variable {condition condition' : Prop}

/-- A stronger condition. -/
theorem Shouts.mono {cs : List Char} (h : Shouts condition cs) (himp : condition' → condition) :
    Shouts condition' cs := by
  obtain ⟨visible, hshows, hloud⟩ := h
  exact ⟨visible, hshows, fun hcondition => hloud (himp hcondition)⟩

/-- Texts one after another. -/
theorem Shouts.append {cs ds : List Char} (h : Shouts condition cs) (h' : Shouts condition' ds) :
    Shouts (condition ∨ condition') (cs ++ ds) := by
  obtain ⟨visible, hshows, hloud⟩ := h
  obtain ⟨visible', hshows', hloud'⟩ := h'
  refine ⟨visible ++ visible', hshows.append hshows', ?_⟩
  rw [List.mem_append, List.mem_append]
  rintro (hcondition | hcondition)
  · exact (hloud hcondition).imp .inl .inl
  · exact (hloud' hcondition).imp .inr .inr

/-- A quiet text shouts under no condition. -/
theorem Quiet.shouts {cs : List Char} (h : Quiet cs) : Shouts False cs := by
  obtain ⟨visible, hshows, -⟩ := h
  exact ⟨visible, hshows, False.elim⟩

/-- A quiet text before another. -/
theorem Shouts.behind {cs ds : List Char} (h : Shouts condition ds) (hquiet : Quiet cs) :
    Shouts condition (cs ++ ds) :=
  (hquiet.shouts.append h).mono .inr

/-- Parts of a list or mapping, one of which shouts. -/
theorem shouts_following {α : Type} {g : Gaps} (hg : g.Blank) {closing : Char}
    (hclosing : Quiet [closing]) {P : α → Prop} {text : α → List Char} {parts : List α}
    (h : ∀ part ∈ parts, Shouts (P part) (text part)) :
    Shouts (∃ part ∈ parts, P part) (following g closing (parts.map text)) := by
  induction parts with
  | nil =>
    exact ((quiet_blank hg.last).append hclosing).shouts.mono fun ⟨_, hpart, _⟩ => nomatch hpart
  | cons part rest ih =>
    obtain ⟨hpart, hrest⟩ := List.forall_mem_cons.mp h
    have hcomma : Quiet [','] := quiet_char (by decide)
    have htexts := ((hpart.append (ih hrest)).behind (quiet_blank hg.between)).behind hcomma
    refine htexts.mono ?_
    rintro ⟨other, hother, hloud⟩
    rcases List.mem_cons.mp hother with rfl | hother
    · exact .inl hloud
    · exact .inr ⟨other, hother, hloud⟩

/-- Parts between brackets, one of which shouts. -/
theorem shouts_enclosed {α : Type} {g : Gaps} (hg : g.Blank) {opening closing : Char}
    (hopening : Quiet [opening]) (hclosing : Quiet [closing]) {P : α → Prop}
    {text : α → List Char} {parts : List α}
    (h : ∀ part ∈ parts, Shouts (P part) (text part)) :
    Shouts (∃ part ∈ parts, P part) (enclosed g opening closing (parts.map text)) := by
  cases parts with
  | nil => exact (hopening.append hclosing).shouts.mono fun ⟨_, hpart, _⟩ => nomatch hpart
  | cons part rest =>
    obtain ⟨hpart, hrest⟩ := List.forall_mem_cons.mp h
    have htexts := ((hpart.append (shouts_following hg hclosing hrest)).behind
      (quiet_blank hg.first)).behind hopening
    refine htexts.mono ?_
    rintro ⟨other, hother, hloud⟩
    rcases List.mem_cons.mp hother with rfl | hother
    · exact .inl hloud
    · exact .inr ⟨other, hother, hloud⟩

/-- A float that is not finite is written with an `N` or an `I`. -/
theorem shouts_render (x : Float) : Shouts (¬ IsFinite x) (render layout x).toList := by
  by_cases hfinite : IsFinite x
  · exact (isNumber_render hfinite).quiet.shouts.mono fun hnot => hnot hfinite
  -- A float that is not finite is one of three words.
  · have htexts : ∀ text ∈ ["NaN", "Infinity", "-Infinity"],
        (∀ c ∈ text.toList, c ≠ '\x22') ∧
          ('N' ∈ text.toList ∨ 'I' ∈ text.toList) := by
      simp
    have htext : render layout x ∈ ["NaN", "Infinity", "-Infinity"] := by
      unfold render
      split
      next => exact List.mem_cons_self
      next hnan =>
      split
      next =>
        split
        · exact List.mem_cons_of_mem _ (List.mem_cons_of_mem _ List.mem_cons_self)
        · exact List.mem_cons_of_mem _ List.mem_cons_self
      next hinf =>
        exact absurd ⟨Bool.not_eq_true _ ▸ hnan, Bool.not_eq_true _ ▸ hinf⟩ hfinite
    obtain ⟨hbare, hloud⟩ := htexts _ htext
    exact ⟨_, shows_bare hbare, fun _ => hloud⟩

/-- **The text of data with a float that is not finite shows an `N` or an `I`.** -/
theorem Spells.shouts {depth : Nat} {v : Value} {cs : List Char} (h : Spells depth v cs) :
    Shouts (∃ x ∈ floats v, ¬ IsFinite x) cs := by
  have hnone : ∀ {v : Value}, floats v = [] → (∃ x ∈ floats v, ¬ IsFinite x) →
    False := by
    rintro v hfloats ⟨x, hx, -⟩
    rw [hfloats] at hx
    exact nomatch hx
  -- By induction on how the text spells the data: only floats shout, and brackets pass on what
  -- their parts do.
  induction h with
  | null depth => exact IsValue.null.quiet.shouts.mono (hnone rfl)
  | bool depth b => exact (IsValue.bool b).quiet.shouts.mono (hnone rfl)
  | int => exact (isNumber_toString _).quiet.shouts.mono (hnone rfl)
  | float depth x =>
    refine (shouts_render x).mono ?_
    rintro ⟨y, hy, hinfinite⟩
    exact List.mem_singleton.mp hy ▸ hinfinite
  | str depth s => exact (isQuoted_quote s).quiet.shouts.mono (hnone rfl)
  | @list depth g hg parts each ih =>
    refine (shouts_enclosed hg (quiet_char (by decide)) (quiet_char (by decide)) ih).mono ?_
    rw [floats_list]
    rintro ⟨x, hx, hinfinite⟩
    obtain ⟨v, hv, hxv⟩ := List.mem_flatMap.mp hx
    obtain ⟨part, hpart, rfl⟩ := List.mem_map.mp hv
    exact ⟨part, hpart, x, hxv, hinfinite⟩
  | @fields depth g hg parts nodup each ih =>
    have hentries : ∀ part ∈ parts, Shouts (∃ x ∈ floats part.1.2, ¬ IsFinite x)
        (entryChars g part.1.1 part.2) := by
      intro part hpart
      have hcolon : Quiet [':'] := quiet_char (by decide)
      exact (((ih part hpart).behind (quiet_blank hg.colon)).behind hcolon).behind
        (isQuoted_quote part.1.1).quiet
    refine (shouts_enclosed hg (quiet_char (by decide)) (quiet_char (by decide)) hentries).mono ?_
    rw [floats_ofFields]
    rintro ⟨x, hx, hinfinite⟩
    obtain ⟨field, hfield, hxv⟩ := List.mem_flatMap.mp hx
    obtain ⟨part, hpart, rfl⟩ := List.mem_map.mp hfield
    exact ⟨part, hpart, x, hxv, hinfinite⟩

/-- **A text of data is strict JSON if and only if the floats in the data are finite.** -/
theorem Spells.isStrict_iff {depth : Nat} {v : Value} {text : String}
    (h : Spells depth v text.toList) : IsStrict text ↔ ∀ x ∈ floats v, IsFinite x := by
  have hnone : Blank [] := fun _ hc => nomatch hc
  constructor
  · rintro ⟨before, cs, after, hbefore, hvalue, hafter, htext⟩
    have hquiet : Quiet text.toList :=
      htext ▸ (quiet_blank hbefore).append (hvalue.quiet.append (quiet_blank hafter))
    obtain ⟨visible, hshows, hn, hi⟩ := hquiet
    obtain ⟨visible', hshows', hloud⟩ := h.shouts
    have hsame : visible' = visible := hshows'.unique hshows
    intro x hx
    by_contra hinfinite
    rcases hloud ⟨x, hx, hinfinite⟩ with hmem | hmem
    · exact hn (hsame ▸ hmem)
    · exact hi (hsame ▸ hmem)
  · intro hfinite
    exact ⟨[], text.toList, [], hnone, h.isValue hfinite, hnone, (List.append_nil _).symm⟩

end PipelineCompiler.Json
