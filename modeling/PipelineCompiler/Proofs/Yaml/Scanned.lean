import PipelineCompiler.Proofs.Yaml.Steps

namespace PipelineCompiler.Yaml

/-!
# Scalars and keys become tokens

* `Written` — the characters that a scalar is written with;
* `Written.token_eq` — the lexer takes them for a scalar;
* `Stage.goes_scalar` — a scalar at the end of a line;
* `Stage.goes_empty` — the brackets and braces of what is empty;
* `Stage.goes_key` — a scalar and the `:` behind it, which is a key;
* `Stage.finishes_end`, `scan_eq` — the end of the text, and so the tokens of a text.
-/

/-- The characters that a scalar is written with.  The flag says that it has no quotes, and the
    lines after its first start at the indentation. -/
inductive Written (indent : Nat) (text : String) : Bool → List Char → Prop
  | plain (allows : Scalar.allowsPlain text.toList = true) (full : text.toList ≠ []) :
    Written indent text true text.toList
  | single (fits : Scalar.Fits text.toList) :
    Written indent text false
      ('\x27' :: (Scalar.singleChars indent false text.toList ++ ['\x27']))
  | double : Written indent text false
      ('\x22' :: (Lexeme.doubleText text.toList ++ ['\x22']))

/-- What may stand behind a scalar: the end of its line, or the mark of a value. -/
def EndsScalar (tail : List Char) : Prop := ∃ x rest, tail = x :: rest ∧ (x = '\n' ∨ x = ':')

/-! ### The first character -/

namespace Scalar

/-- The characters that start something else in a block. -/
def indicators : List Char := "#,[]\x7b\x7d&*!|>\x27\x22%@\x60".toList

/-- A text without quotes starts with none of them, and with `?`, `:` or `-` only in front of a
    character that is no gap. -/
theorem head_of_allowsPlain {x : Char} {cs : List Char} (h : allowsPlain (x :: cs) = true) :
    x ∉ indicators ∧ ((x = '?' ∨ x = ':' ∨ x = '-') → ∃ y rest, cs = y :: rest ∧
      isGap y = false) := by
  have hstart : startsWithIndicator (x :: cs) = false := by
    simp only [allowsPlain, hasIndicator, Bool.and_eq_true, Bool.not_eq_true',
      Bool.or_eq_false_iff] at h
    exact h.1.1.2.1.1.1.2
  simp only [startsWithIndicator, Bool.or_eq_false_iff, Bool.and_eq_false_iff] at hstart
  refine ⟨fun hmem => ?_, fun hmark => ?_⟩
  · have hnone := hstart.1
    rw [String.contains_char_eq, decide_eq_false_iff_not] at hnone
    exact hnone hmem
  · have hgap : isGap (cs.head?.getD '\x00') = false := hstart.2.resolve_left fun hnone => by
      rcases hmark with rfl | rfl | rfl <;> simp at hnone
    cases cs with
    | nil => cases hgap
    | cons y rest => exact ⟨y, rest, rfl, hgap⟩

/-- It starts with no gap. -/
theorem isGap_head {x : Char} {cs : List Char} (h : allowsPlain (x :: cs) = true) :
    isGap x = false := by
  have hwords := words_of_allowsPlain h
  exact not_isGap_of_shown (hwords.shown x List.mem_cons_self) (hwords.first x rfl).1
    (hwords.oneLine x List.mem_cons_self)

/-- It starts with no mark of a document. -/
theorem unmarked_of_allowsPlain {cs : List Char} (h : allowsPlain cs = true) {tail : List Char}
    (htail : EndsScalar tail) :
    ∀ mark ∈ ['-', '.'], (cs ++ tail).take 3 ≠ [mark, mark, mark] := by
  have hprefix : ∀ mark ∈ ['-', '.'], List.isPrefixOf [mark, mark, mark] cs = false := by
    simp only [allowsPlain, hasIndicator, Bool.and_eq_true, Bool.not_eq_true',
      Bool.or_eq_false_iff] at h
    simp only [List.mem_cons, List.not_mem_nil, or_false, forall_eq_or_imp, forall_eq]
    exact ⟨h.1.1.2.1.1.1.1.1, h.1.1.2.1.1.1.1.2⟩
  obtain ⟨y, rest, rfl, hy⟩ := htail
  intro mark hmark htake
  have hne : y ≠ mark := by
    rcases hy with rfl | rfl
    · exact fun heq => absurd (heq ▸ hmark) (by decide)
    · exact fun heq => absurd (heq ▸ hmark) (by decide)
  -- The mark would have to lie inside the text, since what follows starts with another character.
  rcases cs with _ | ⟨a, _ | ⟨b, _ | ⟨c, others⟩⟩⟩
  · exact hne (List.cons.inj htake).1
  · exact hne (List.cons.inj (List.cons.inj htake).2).1
  · exact hne (List.cons.inj (List.cons.inj (List.cons.inj htake).2).2).1
  · have hcs : [a, b, c] = [mark, mark, mark] := htake
    injection hcs with ha hcs
    injection hcs with hb hcs
    injection hcs with hc hcs
    have hnot := hprefix mark hmark
    rw [ha, hb, hc] at hnot
    simp [List.isPrefixOf] at hnot

end Scalar

section

variable {indent : Nat} {text : String} {plain : Bool} {chars : List Char}

/-- A scalar has characters. -/
theorem Written.ne_nil (h : Written indent text plain chars) : chars ≠ [] := by
  cases h with
  | plain allows full => exact full
  | single | double => exact List.cons_ne_nil _ _

/-- A scalar may stand on the next line. -/
theorem Written.follows (h : Written indent text plain chars) {tail : List Char}
    (htail : EndsScalar tail) : NextLine (chars ++ tail) := by
  cases h with
  | plain allows full =>
    obtain ⟨x, cs, hcs⟩ := List.exists_cons_of_ne_nil full
    have hwords := Scalar.words_of_allowsPlain allows
    refine ⟨fun y hy => ?_, Scalar.unmarked_of_allowsPlain allows htail⟩
    rw [hcs] at hwords hy
    obtain rfl : x = y := Option.some.inj hy
    exact ⟨(hwords.first x rfl).1, (hwords.first x rfl).2, hwords.isInline List.mem_cons_self⟩
  | single | double =>
    refine ⟨fun y hy => ?_, fun mark hmark htake => ?_⟩
    · obtain rfl := Option.some.inj hy
      decide
    · obtain rfl := (List.cons.inj htake).1
      revert hmark
      decide

end

namespace Lexer

variable {l : Lexer}

/-- A character that starts nothing else starts a plain scalar. -/
theorem startsPlain_eq {x next : Char} (hgap : isGap x = false) (hx : x ∉ Scalar.indicators)
    (hnext : (x = '?' ∨ x = ':' ∨ x = '-') → isGap next = false) :
    startsPlain false x next = true := by
  rw [startsPlain, Bool.or_eq_true]
  by_cases hmark : x = '?' ∨ x = ':' ∨ x = '-'
  · right
    rw [hnext hmark]
    rcases hmark with rfl | rfl | rfl <;> rfl
  · left
    have hall : "-?:,[]\x7b\x7d#&*!|>'\"%@\x60".toList.all (fun y =>
        y ∈ Scalar.indicators ∨ y = '?' ∨ y = ':' ∨ y = '-') = true := by decide
    rw [hgap, Bool.false_or, Bool.not_eq_true', String.contains_char_eq, decide_eq_false_iff_not]
    exact fun hmem => (of_decide_eq_true (List.all_eq_true.mp hall x hmem)).elim hx hmark

/-- **A text without quotes** is taken for a plain scalar. -/
theorem token_plain {cs tail : List Char} (h : Scalar.allowsPlain cs = true) (hne : cs ≠ [])
    (htail : EndsScalar tail) (hrest : l.cursor.rest = cs ++ tail) (hflow : l.flowLevel = 0) :
    l.token = l.plain := by
  obtain ⟨x, cs, rfl⟩ := List.exists_cons_of_ne_nil hne
  obtain ⟨hindicator, hmark⟩ := Scalar.head_of_allowsPlain h
  have hgap : isGap x = false := Scalar.isGap_head h
  have hinFlow : l.inFlow = false := by
    rw [inFlow, hflow]
    rfl
  have hunmarked : ∀ mark ∈ ['-', '.'], l.cursor.atMark mark = false := fun mark hmem => by
    rw [Cursor.atMark, hrest]
    exact Bool.and_eq_false_iff.mpr
      (.inl (beq_eq_false_iff_ne.mpr (Scalar.unmarked_of_allowsPlain h htail mark hmem)))
  have hnext : ∀ y ∈ ['?', ':', '-'], (x == y && isGap (l.cursor.ahead 1)) = false := by
    intro y hy
    by_cases hx : x = y
    · obtain ⟨z, rest, rfl, hz⟩ := hmark (by simpa [hx] using hy)
      rw [l.cursor.ahead_one hrest, hz, Bool.and_false]
    · rw [beq_eq_false_iff_ne.mpr hx, Bool.false_and]
  have hother : ∀ y ∈ Scalar.indicators, (x == y) = false := fun y hy =>
    beq_eq_false_iff_ne.mpr fun heq => hindicator (heq ▸ hy)
  have hstarts : startsPlain false x (l.cursor.ahead 1) = true :=
    startsPlain_eq hgap hindicator fun hx => by
      have hone := hnext x (by simpa using hx)
      rwa [beq_self_eq_true, Bool.true_and] at hone
  -- No mark and no indicator stands here, so all branches before that of a plain scalar are passed.
  unfold token
  dsimp only
  rw [l.cursor.peek_cons hrest, hinFlow, hunmarked '-' (by decide), hunmarked '.' (by decide)]
  simp only [hother '%' (by decide), hother '[' (by decide), hother '\x7b' (by decide),
    hother ']' (by decide), hother '\x7d' (by decide), hother ',' (by decide),
    hother '*' (by decide), hother '&' (by decide), hother '!' (by decide),
    hother '|' (by decide), hother '>' (by decide), hother '\x27' (by decide),
    hother '\x22' (by decide), hnext '-' (by decide), hnext '?' (by decide),
    hnext ':' (by decide), hstarts, Bool.false_and, Bool.and_false, Bool.false_or,
    Bool.false_eq_true, if_false, if_true]

/-! ### Keys that may start here -/

/-- The key that may start here. -/
def keyHere (l : Lexer) : PossibleKey where
  place := l.tokens.size
  required := !l.inFlow && l.indent == (l.cursor.column : Int)
  index := l.cursor.index
  line := l.cursor.line
  column := l.cursor.column

/-- It is remembered where a key is allowed. -/
def keysHere (l : Lexer) : List (Nat × PossibleKey) :=
  if l.keyAllowed then [(l.flowLevel, l.keyHere)] else []

/-- Where no key was possible before, only this one is remembered. -/
theorem saveKey_eq (hkeys : l.possibleKeys = []) :
    l.saveKey = .ok { l with possibleKeys := l.keysHere } := by
  rw [saveKey, keysHere]
  cases hallowed : l.keyAllowed with
  | false =>
    obtain ⟨cursor, found, flowLevel, indent, indents, keyAllowed, possibleKeys⟩ := l
    obtain rfl : keyAllowed = false := hallowed
    obtain rfl : possibleKeys = [] := hkeys
    rfl
  | true =>
    rw [if_pos rfl, if_pos rfl, dropKey_eq hkeys]
    show Except.ok { l with possibleKeys := (l.flowLevel, l.keyHere) :: l.possibleKeys } = _
    rw [hkeys, hallowed]

/-- No other key is remembered. -/
theorem mem_keysHere {entry : Nat × PossibleKey} (h : entry ∈ l.keysHere) :
    entry = (l.flowLevel, l.keyHere) := by
  rw [keysHere] at h
  split at h
  · exact List.mem_singleton.mp h
  · cases h

/-- Inside a block that is less deep it is not required. -/
theorem keysHere_free (h : l.indent < (l.cursor.column : Int)) :
    ∀ entry ∈ l.keysHere, entry.2.required = false ∧ entry.2.line = l.cursor.line := by
  intro entry hentry
  obtain rfl := mem_keysHere hentry
  refine ⟨?_, rfl⟩
  show (!l.inFlow && l.indent == (l.cursor.column : Int)) = false
  rw [beq_eq_false_iff_ne.mpr (Int.ne_of_lt h), Bool.and_false]

/-- It is live on the same line, within reach. -/
theorem keysHere_live {m : Lexer} (hline : m.cursor.line = l.cursor.line)
    (hindex : m.cursor.index ≤ l.cursor.index + keyReach) :
    ∀ entry ∈ l.keysHere, m.isStale entry.2 = false := by
  intro entry hentry
  obtain rfl := mem_keysHere hentry
  rw [isStale, Bool.or_eq_false_iff]
  refine ⟨bne_eq_false_iff_eq.mpr hline.symm, decide_eq_false ?_⟩
  show ¬keyReach < m.cursor.index - l.cursor.index
  omega

/-- The state behind a scalar. -/
def behind (l : Lexer) (text : String) (plain : Bool) (cursor : Cursor) (keyAllowed : Bool) :
    Lexer :=
  { l.emit (.scalar text plain) with cursor, keyAllowed, possibleKeys := l.keysHere }

/-! ### Scalars -/

variable {text : String} {plain : Bool} {chars : List Char} {indent : Nat}

/-- **A quoted scalar** is read up to its closing quote. -/
theorem token_quoted (h : Written indent text false chars) (hindent : 0 < indent)
    {tail : List Char} (htail : EndsScalar tail) (hrest : l.cursor.rest = chars ++ tail)
    (hkeys : l.possibleKeys = []) :
    l.token = .ok (l.behind text false (l.cursor.advance chars.length) false) := by
  have hquote : tail.head? ≠ some '\x27' := by
    obtain ⟨x, rest, rfl, rfl | rfl⟩ := htail
    · simp
    · simp
  -- What the first quote is decides how the scalar is read.
  cases h with
  | single fits =>
    rw [List.cons_append, List.append_assoc] at hrest
    have hread := Lexeme.quoted_single fits hindent hrest hquote
    have htoken : l.token = l.quoted false := by
      unfold token
      dsimp only
      rw [l.cursor.peek_cons hrest]
      rfl
    rw [htoken, quoted, saveKey_eq hkeys]
    show (Lexeme.quoted false l.cursor >>= _) = _
    rw [hread, String.ofList_toList, List.length_cons, List.length_append]
    rfl
  | double =>
    rw [List.cons_append, List.append_assoc] at hrest
    have hread := Lexeme.quoted_double hrest
    have htoken : l.token = l.quoted true := by
      unfold token
      dsimp only
      rw [l.cursor.peek_cons hrest]
      rfl
    rw [htoken, quoted, saveKey_eq hkeys]
    show (Lexeme.quoted true l.cursor >>= _) = _
    rw [hread, String.ofList_toList, List.length_cons, List.length_append]
    rfl

/-- The state behind a plain scalar. -/
theorem plain_eq (hflow : l.flowLevel = 0) (hkeys : l.possibleKeys = []) {cursor : Cursor}
    {broken : Bool} (h : Lexeme.plain false (l.indent + 1) l.cursor = (text, broken, cursor)) :
    l.plain = .ok (l.behind text true cursor broken) := by
  have hinFlow : inFlow { l with possibleKeys := l.keysHere } = false := by
    rw [inFlow, hflow]
    rfl
  rw [Lexer.plain, saveKey_eq hkeys]
  dsimp only [bind, Except.bind]
  rw [hinFlow, h]
  rfl

/-- A plain scalar is read up to the `:` behind it. -/
theorem token_plain_key (h : Written indent text true chars) {x : Char} (hx : isGap x = true)
    {rest : List Char} (hrest : l.cursor.rest = chars ++ ':' :: x :: rest)
    (hcolumn : l.indent ≤ l.cursor.column) (hflow : l.flowLevel = 0)
    (hkeys : l.possibleKeys = []) :
    l.token = .ok (l.behind text true (l.cursor.advance chars.length) false) := by
  cases h with
  | plain allows full =>
    rw [token_plain allows full ⟨':', _, rfl, .inr rfl⟩ hrest hflow,
      plain_eq hflow hkeys
        (Lexeme.plain_key (Scalar.words_of_allowsPlain allows) full hx hrest (by omega)),
      String.ofList_toList]

/-- A plain scalar at the end of its line is read up to the text on the next line. -/
theorem token_plain_line (h : Written indent text true chars) {n : Nat} {rest : List Char}
    (hfollows : NextLine rest)
    (hrest : l.cursor.rest = chars ++ '\n' :: (List.replicate n ' ' ++ rest))
    (hcolumn : l.indent ≤ l.cursor.column) (hn : (n : Int) ≤ l.indent) (hflow : l.flowLevel = 0)
    (hkeys : l.possibleKeys = []) :
    l.token = .ok (l.behind text true (l.cursor.advance (chars.length + (1 + n))) true) := by
  cases h with
  | plain allows full =>
    rw [token_plain allows full ⟨'\n', _, rfl, .inl rfl⟩ hrest hflow,
      plain_eq hflow hkeys
        (Lexeme.plain_line (Scalar.words_of_allowsPlain allows) full hfollows hrest (by omega)
          (by omega)),
      String.ofList_toList]

/-! ### Keys -/

/-- A possible key that is live stays possible. -/
theorem arrive_live {fuel : Nat} (hfuel : 0 < fuel) (hstart : Starts l.cursor.rest)
    (hlive : ∀ entry ∈ l.possibleKeys, l.isStale entry.2 = false) : arrive fuel l = .ok l := by
  obtain ⟨hspace, hhash, hbreak, hmark⟩ := hstart.peek
  have hnone : (l.possibleKeys.any fun entry => l.isStale entry.2 && entry.2.required) = false :=
    List.any_eq_false.mpr fun entry hentry => by
      rw [hlive entry hentry, Bool.false_and]
      exact Bool.false_ne_true
  have hall : (l.possibleKeys.filter fun entry => !l.isStale entry.2) = l.possibleKeys :=
    List.filter_eq_self.mpr fun entry hentry => by
      rw [hlive entry hentry]
      rfl
  rw [arrive, skipOrderMark_eq hmark, skipToToken_here hfuel hspace hhash hbreak, dropStaleKeys,
    hnone, if_neg Bool.false_ne_true, hall]

/-- The state behind a scalar that is a key, before the block around it. -/
def keyed (l : Lexer) (text : String) (plain : Bool) (cursor : Cursor) : Lexer :=
  emitAt { l.emit (.scalar text plain) with cursor, keyAllowed := false, possibleKeys := [] }
    l.tokens.size .key

/-- The tokens up to there. -/
theorem toList_keyed (l : Lexer) (text : String) (plain : Bool) (cursor : Cursor) :
    (l.keyed text plain cursor).tokens.toList =
      l.tokens.toList ++ [Token.key, Token.scalar text plain] := by
  have hkey := toList_emitAt
    (l := { l.emit (.scalar text plain) with cursor, keyAllowed := false, possibleKeys := [] })
    (Array.toList_push) .key
  rwa [Array.length_toList] at hkey

/-- What stands before the mark of a value becomes its key. -/
theorem value_eq {found : PossibleKey} (hflow : l.flowLevel = 0)
    (hkeys : l.possibleKeys = [(0, found)]) :
    l.value = .ok
      { ((emitAt { l with possibleKeys := [] } found.place .key).openBlock found.column
          found.place .mappingOpen).emit .value with
        cursor := l.cursor.step, keyAllowed := false } := by
  -- Outside of brackets, a key that is remembered is forgotten once it is used.
  have hinFlow : ∀ possibleKeys, inFlow
      (emitAt { l with possibleKeys } found.place .key) = false := fun _ => by
    rw [inFlow]
    show (l.flowLevel != 0) = false
    rw [hflow]
    rfl
  have hkey : l.possibleKey? = some found := by
    rw [possibleKey?, hkeys, hflow]
    rfl
  have hforget : l.forgetKey = { l with possibleKeys := [] } := by
    rw [forgetKey, hkeys, hflow]
    rfl
  rw [value, hkey]
  dsimp only
  rw [hforget, hinFlow, if_neg Bool.false_ne_true]
  unfold openBlock
  split <;> rfl

/-- The mark of a value is met behind a scalar. -/
theorem token_value {x : Char} (hx : x = ' ' ∨ x = '\n') {rest : List Char}
    (hrest : l.cursor.rest = ':' :: x :: rest) : l.token = l.value := by
  have hgap : isGap x = true := by
    rcases hx with rfl | rfl <;> rfl
  unfold token
  dsimp only
  rw [l.cursor.peek_cons hrest, l.cursor.ahead_one hrest, hgap, Bool.or_true]
  rfl

/-- **A scalar in front of a `:`** is the key of a value.  The block around it is opened unless it
    is open already. -/
theorem leads_key (h : Written indent text plain chars) (hindent : 0 < indent)
    (hinline : ∀ x ∈ chars, IsInline x) (hreach : chars.length ≤ keyReach) {x : Char}
    (hx : x = ' ' ∨ x = '\n') {rest : List Char}
    (hrest : l.cursor.rest = chars ++ ':' :: x :: rest) (hcolumn : l.indent ≤ l.cursor.column)
    (hflow : l.flowLevel = 0) (hkeys : l.possibleKeys = []) (hallowed : l.keyAllowed = true) :
    l.Leads { ((l.keyed text plain (l.cursor.advance chars.length)).openBlock l.cursor.column
        l.tokens.size .mappingOpen).emit .value with
      cursor := l.cursor.advance (chars.length + 1), keyAllowed := false } := by
  have htail : EndsScalar (':' :: x :: rest) := ⟨_, _, rfl, .inr rfl⟩
  have hgap : isGap x = true := by
    rcases hx with rfl | rfl <;> rfl
  have hpos : 0 < chars.length := List.length_pos_iff.mpr h.ne_nil
  have hlength : l.cursor.rest.length = chars.length + (2 + rest.length) := by
    rw [hrest]
    simp only [List.length_append, List.length_cons]
    omega
  have hmore : l.cursor.rest ≠ [] := List.length_pos_iff.mp (by omega)
  have htoken : l.token = .ok (l.behind text plain (l.cursor.advance chars.length) false) := by
    cases plain with
    | true => exact token_plain_key h hgap hrest hcolumn hflow hkeys
    | false => exact token_quoted h hindent htail hrest hkeys
  have hbehind := l.cursor.rest_append hrest
  obtain ⟨hline, hplace⟩ := Cursor.advance_inline hrest hinline
  have hindex := l.cursor.index_advance (n := chars.length) (by omega)
  have hhere : l.keysHere = [(0, l.keyHere)] := by
    rw [keysHere, hallowed, hflow]
    rfl
  have hstart : Starts l.cursor.rest := hrest ▸ (h.follows htail).solid
  -- The scalar is read first and might become a key; the `:` behind it makes it one.
  refine (leads_token hstart hmore hkeys hcolumn htoken ?_).trans ?_
  · show (l.cursor.advance _).left < l.cursor.left
    rw [Cursor.left_advance, Cursor.left]
    omega
  have hlive :=
    keysHere_live (l := l) (m := l.behind text plain (l.cursor.advance chars.length) false)
    hline (by show (l.cursor.advance chars.length).index ≤ _; omega)
  have hcolon : Starts (l.cursor.advance chars.length).rest := by
    rw [hbehind]
    intro y hy
    obtain rfl := Option.some.inj hy
    decide
  refine leads_of_next (fun fuel hfuel => ?_) ?_
  · have harrive := arrive_live (l := l.behind text plain (l.cursor.advance chars.length) false)
      (Nat.zero_lt_of_lt hfuel) hcolon hlive
    have hmore' : (l.cursor.advance chars.length).rest ≠ [] := by
      rw [hbehind]
      exact List.cons_ne_nil _ _
    have hblock : l.indent ≤ ((l.cursor.advance chars.length).column : Int) := by omega
    have hvalue := value_eq (l := l.behind text plain (l.cursor.advance chars.length) false)
      hflow hhere
    rw [next_of_arrive harrive hmore' (.inr hblock),
      token_value (l := l.behind text plain (l.cursor.advance chars.length) false) hx hbehind,
      hvalue, Cursor.advance_add]
    rfl
  · show (l.cursor.advance (chars.length + 1)).left < (l.cursor.advance chars.length).left
    rw [Cursor.left_advance, Cursor.left_advance, Cursor.left]
    omega

/-! ### Brackets and braces -/

/-- The two kinds of brackets with their tokens. -/
inductive IsPair : Char → Char → Token → Token → Prop
  | brackets : IsPair '[' ']' .bracketOpen .bracketClose
  | braces : IsPair '\x7b' '\x7d' .braceOpen .braceClose

variable {a b : Char} {opening closing : Token}

/-- An opening bracket. -/
theorem token_opening (h : IsPair a b opening closing) {rest : List Char}
    (hrest : l.cursor.rest = a :: rest) (hflow : l.flowLevel = 0) (hkeys : l.possibleKeys = []) :
    l.token = .ok { l.emit opening with
      cursor := l.cursor.step, flowLevel := 1, keyAllowed := true,
      possibleKeys := l.keysHere } := by
  have htoken : l.token = l.opening opening := by
    unfold token
    dsimp only
    rw [l.cursor.peek_cons hrest]
    cases h <;> rfl
  rw [htoken, Lexer.opening, saveKey_eq hkeys]
  show Except.ok { emit { l with possibleKeys := l.keysHere } opening with
    cursor := l.cursor.step, flowLevel := l.flowLevel + 1, keyAllowed := true } = _
  rw [hflow]
  rfl

/-- A closing bracket. -/
theorem token_closing (h : IsPair a b opening closing) {rest : List Char}
    (hrest : l.cursor.rest = b :: rest) (hflow : l.flowLevel = 1)
    (hkeys : ∀ entry ∈ l.possibleKeys, entry.1 = 0) :
    l.token = .ok { l.emit closing with
      cursor := l.cursor.step, flowLevel := 0, keyAllowed := false } := by
  have htoken : l.token = l.closing closing := by
    unfold token
    dsimp only
    rw [l.cursor.peek_cons hrest]
    cases h <;> rfl
  have hkey : l.possibleKey? = none := by
    refine List.lookup_eq_none_iff.mpr fun entry hentry => ?_
    rw [hflow, hkeys entry hentry]
    rfl
  have hall : l.possibleKeys.filter (·.1 != l.flowLevel) = l.possibleKeys :=
    List.filter_eq_self.mpr fun entry hentry => by
      rw [hflow, hkeys entry hentry]
      rfl
  -- No key is possible in brackets that hold nothing.
  have hforget : l.forgetKey = l := by
    rw [forgetKey, hall]
  rw [htoken, Lexer.closing, dropKey, hkey, hforget]
  show (Lexeme.require l.inFlow >>= fun _ => Except.ok { l.emit closing with
    cursor := l.cursor.step, flowLevel := l.flowLevel - 1, keyAllowed := false }) = _
  rw [inFlow, hflow]
  rfl

/-- **What is empty** is read at once. -/
theorem leads_empty (h : IsPair a b opening closing) {rest : List Char}
    (hrest : l.cursor.rest = a :: b :: rest) (hcolumn : l.indent ≤ l.cursor.column)
    (hflow : l.flowLevel = 0) (hkeys : l.possibleKeys = []) :
    l.Leads { (l.emit opening).emit closing with
      cursor := l.cursor.advance 2, flowLevel := 0, keyAllowed := false,
      possibleKeys := l.keysHere } := by
  have hsolid : ∀ x ∈ [a, b], x ≠ ' ' ∧ x ≠ '#' ∧ IsInline x := by
    rw [List.forall_mem_cons, List.forall_mem_singleton]
    cases h <;> decide
  have hmore : l.cursor.rest ≠ [] := by
    rw [hrest]
    exact List.cons_ne_nil _ _
  have hstart : Starts l.cursor.rest := by
    rw [hrest]
    exact fun y hy => Option.some.inj hy ▸ hsolid a List.mem_cons_self
  have hrest' : l.cursor.step.rest = b :: rest := by
    rw [Cursor.rest_step, hrest]
    rfl
  have hmore' : l.cursor.step.rest ≠ [] := by
    rw [hrest']
    exact List.cons_ne_nil _ _
  have hstart' : Starts l.cursor.step.rest := by
    rw [hrest']
    exact fun y hy => Option.some.inj hy ▸ hsolid b (List.mem_cons_of_mem _ List.mem_cons_self)
  have hleft : 0 < l.cursor.left ∧ 0 < l.cursor.step.left :=
    ⟨List.length_pos_iff.mpr hmore, List.length_pos_iff.mpr hmore'⟩
  have hline := (Cursor.step_inline hrest (hsolid a List.mem_cons_self).2.2).1
  have hindex := l.cursor.index_step hmore
  -- The opening bracket and the closing one are two tokens, read one after the other.
  refine (leads_token hstart hmore hkeys hcolumn (token_opening h hrest hflow hkeys) ?_).trans ?_
  · show l.cursor.step.left < l.cursor.left
    rw [Cursor.left_step]
    omega
  refine leads_of_next (fun fuel hfuel => ?_) ?_
  · have harrive := arrive_live (l := { l.emit opening with
        cursor := l.cursor.step, flowLevel := 1, keyAllowed := true, possibleKeys := l.keysHere })
      (Nat.zero_lt_of_lt hfuel) hstart'
      (keysHere_live hline (by show l.cursor.step.index ≤ _; rw [hindex, keyReach]; omega))
    rw [next_of_arrive harrive hmore' (.inl rfl), token_closing h hrest' rfl fun entry hentry => by
      rw [mem_keysHere hentry]
      exact hflow]
    rfl
  · show (l.cursor.advance 2).left < l.cursor.step.left
    rw [Cursor.left_advance, Cursor.left_step]
    rw [Cursor.left_step] at hleft
    omega

end Lexer

namespace Stage

open Lexer

variable {indent : Nat} {text : String} {plain : Bool} {chars rest : List Char} {column : Nat}
  {tokens : List Token} {blocks : List Int} {i : Int} {allowed : Bool}

/-- **A scalar at the end of its line**, behind which the text goes on at a column that is not
    deeper than the block around. -/
theorem goes_scalar (h : Written indent text plain chars) (hindent : 0 < indent) {n : Nat}
    (hfollows : NextLine rest) (hn : (n : Int) ≤ i) (hi : i < (column : Int)) :
    Goes ⟨chars ++ '\n' :: (List.replicate n ' ' ++ rest), column, tokens, i :: blocks, allowed⟩
      ⟨rest, n, tokens ++ [Token.scalar text plain], i :: blocks, true⟩ := by
  intro l hl
  obtain ⟨hblock, -⟩ := List.cons.inj hl.blocks
  have htail : EndsScalar ('\n' :: (List.replicate n ' ' ++ rest)) := ⟨_, _, rfl, .inl rfl⟩
  have hdeeper : l.indent < (l.cursor.column : Int) := by
    rw [hblock, hl.column]
    exact hi
  have hstart : Starts l.cursor.rest := hl.rest ▸ (h.follows htail).solid
  have hpos : 0 < chars.length := List.length_pos_iff.mpr h.ne_nil
  have hlength : l.cursor.left = chars.length + (1 + (n + rest.length)) := by
    rw [Cursor.left, hl.rest]
    simp only [List.length_append, List.length_cons, List.length_replicate]
    omega
  have hmore : l.cursor.rest ≠ [] := List.length_pos_iff.mp (by rw [← Cursor.left]; omega)
  have hbehind := l.cursor.rest_append hl.rest
  have hrest := Cursor.rest_line hbehind
  obtain ⟨hline, hcolumn⟩ := Cursor.place_line hbehind
  rw [← Cursor.advance_add] at hrest hline hcolumn
  have hfree := keysHere_free hdeeper
  have hle := l.cursor.line_le_advance chars.length
  have htokens : (l.tokens.push (.scalar text plain)).toList =
      tokens ++ [Token.scalar text plain] := by
    rw [Array.toList_push, hl.tokens]
  -- Both ways lead here: without quotes at once, with quotes over the line break behind.
  refine ⟨{ l.emit (.scalar text plain) with
    cursor := l.cursor.advance (chars.length + (1 + n)), keyAllowed := true, possibleKeys := [] },
    ?_, hrest, hcolumn, htokens, hl.blocks, rfl, hl.flow, rfl⟩
  cases plain with
  | true =>
    have htoken := token_plain_line h hfollows hl.rest (Int.le_of_lt hdeeper)
      (hblock ▸ hn) hl.flow hl.keys
    refine (leads_token hstart hmore hl.keys (Int.le_of_lt hdeeper) htoken ?_).trans
      (leads_stale (l := l.behind text true _ true) ?_ ?_)
    · show (l.cursor.advance _).left < l.cursor.left
      rw [Cursor.left_advance]
      omega
    · show Starts (l.cursor.advance (chars.length + (1 + n))).rest
      rw [hrest]
      exact hfollows.solid
    · intro entry hentry
      obtain ⟨hrequired, hsame⟩ := hfree entry hentry
      refine ⟨hrequired, ?_⟩
      show entry.2.line ≠ (l.cursor.advance (chars.length + (1 + n))).line
      omega
  | false =>
    have htoken := token_quoted h hindent htail hl.rest hl.keys
    have hlead := leads_line (l := l.behind text false (l.cursor.advance chars.length) false)
      hbehind hfollows.solid hl.flow fun entry hentry => by
        obtain ⟨hrequired, hsame⟩ := hfree entry hentry
        exact ⟨hrequired, hsame.trans_le hle⟩
    refine (leads_token hstart hmore hl.keys (Int.le_of_lt hdeeper) htoken ?_).trans ?_
    · show (l.cursor.advance _).left < l.cursor.left
      rw [Cursor.left_advance]
      omega
    · rw [Cursor.advance_add]
      exact hlead

/-- **What is empty**, at the end of its line. -/
theorem goes_empty {a b : Char} {opening closing : Token} (h : IsPair a b opening closing) {n : Nat}
    (hstart : Starts rest) (hi : i < (column : Int)) :
    Goes ⟨a :: b :: '\n' :: (List.replicate n ' ' ++ rest), column, tokens,
      i :: blocks, allowed⟩
      ⟨rest, n, tokens ++ [opening, closing], i :: blocks, true⟩ := by
  intro l hl
  obtain ⟨hblock, -⟩ := List.cons.inj hl.blocks
  have hdeeper : l.indent < (l.cursor.column : Int) := by
    rw [hblock, hl.column]
    exact hi
  have hbehind : (l.cursor.advance 2).rest = '\n' :: (List.replicate n ' ' ++ rest) := by
    rw [Cursor.rest_advance, hl.rest]
    rfl
  have hrest := Cursor.rest_line hbehind
  have hcolumn := (Cursor.place_line hbehind).2
  have hle := l.cursor.line_le_advance 2
  -- The two brackets lead to the end of the line, and the line break to the next one.
  have hlead := leads_empty h hl.rest (Int.le_of_lt hdeeper) hl.flow hl.keys
  refine ⟨_, hlead.trans (leads_line (l := { (l.emit opening).emit closing with
    cursor := l.cursor.advance 2, flowLevel := 0, keyAllowed := false, possibleKeys := l.keysHere })
    hbehind hstart rfl fun entry hentry => ?_), hrest, hcolumn, ?_, hl.blocks, rfl, rfl, rfl⟩
  · obtain ⟨hrequired, hsame⟩ := keysHere_free hdeeper entry hentry
    exact ⟨hrequired, hsame.trans_le hle⟩
  · show ((l.tokens.push opening).push closing).toList = _
    rw [Array.toList_push, Array.toList_push, hl.tokens, List.append_assoc]
    rfl

/-- Behind a key and its `:`. -/
theorem place_key {x : Char} {l : Lexer} (hinline : ∀ y ∈ chars, IsInline y)
    (hrest : l.cursor.rest = chars ++ ':' :: x :: rest) :
    (l.cursor.advance (chars.length + 1)).rest = x :: rest ∧
      (l.cursor.advance (chars.length + 1)).column = l.cursor.column + (chars.length + 1) := by
  have hbehind := l.cursor.rest_append hrest
  rw [Cursor.advance_add, Cursor.advance, Cursor.advance, Cursor.rest_step, hbehind,
    (Cursor.step_inline hbehind ⟨by decide, by decide⟩).2,
      (Cursor.advance_inline hrest hinline).2]
  exact ⟨rfl, by omega⟩

/-- **A key opens a block** that is deeper. -/
theorem goes_key_first (h : Written indent text plain chars) (hindent : 0 < indent)
    (hinline : ∀ y ∈ chars, IsInline y) (hreach : chars.length ≤ keyReach) {x : Char}
    (hx : x = ' ' ∨ x = '\n') (hi : i < (column : Int)) :
    Goes ⟨chars ++ ':' :: x :: rest, column, tokens, i :: blocks, true⟩
      ⟨x :: rest, column + (chars.length + 1),
        tokens ++ [Token.mappingOpen, Token.key, Token.scalar text plain, Token.value],
        column :: i :: blocks, false⟩ := by
  intro l hl
  obtain ⟨hblock, hblocks⟩ := List.cons.inj hl.blocks
  obtain ⟨hrest, hcolumn⟩ := place_key hinline hl.rest
  have hdeeper : l.indent < (l.cursor.column : Int) := by
    rw [hblock, hl.column]
    exact hi
  have hopened : (l.keyed text plain (l.cursor.advance chars.length)).openBlock l.cursor.column
      l.tokens.size .mappingOpen =
        { (l.keyed text plain (l.cursor.advance chars.length)).emitAt
          l.tokens.size .mappingOpen with
          indent := l.cursor.column, indents := l.indent :: l.indents } := if_pos hdeeper
  -- The block is opened in front of the key, by way of the place that was kept for it.
  have hlead := leads_key h hindent hinline hreach hx hl.rest (Int.le_of_lt hdeeper) hl.flow hl.keys
    hl.allowed
  have htokens := toList_emitAt (l.toList_keyed text plain (l.cursor.advance chars.length))
    .mappingOpen
  rw [show l.tokens.toList.length = l.tokens.size from Array.length_toList] at htokens
  rw [hopened] at hlead
  refine ⟨_, hlead, hrest, hcolumn.trans (congrArg (· + (chars.length + 1)) hl.column), ?_, ?_,
    rfl, hl.flow, rfl⟩
  · show (Array.push ((l.keyed text plain _).emitAt l.tokens.size .mappingOpen).tokens
      Token.value).toList = _
    rw [Array.toList_push, htokens, hl.tokens, List.append_assoc]
    rfl
  · show (l.cursor.column : Int) :: l.indent :: l.indents = _
    rw [hblock, hblocks, hl.column]

/-- **A key goes on** with the block at its column. -/
theorem goes_key_next (h : Written indent text plain chars) (hindent : 0 < indent)
    (hinline : ∀ y ∈ chars, IsInline y) (hreach : chars.length ≤ keyReach) {x : Char}
    (hx : x = ' ' ∨ x = '\n') :
    Goes ⟨chars ++ ':' :: x :: rest, column, tokens, column :: blocks, true⟩
      ⟨x :: rest, column + (chars.length + 1),
        tokens ++ [Token.key, Token.scalar text plain, Token.value],
          column :: blocks, false⟩ := by
  intro l hl
  obtain ⟨hblock, hblocks⟩ := List.cons.inj hl.blocks
  obtain ⟨hrest, hcolumn⟩ := place_key hinline hl.rest
  have hsame : l.indent = (l.cursor.column : Int) := by
    rw [hblock, hl.column]
  have hopened : (l.keyed text plain (l.cursor.advance chars.length)).openBlock l.cursor.column
      l.tokens.size .mappingOpen = l.keyed text plain (l.cursor.advance chars.length) :=
    if_neg (hsame ▸ Int.lt_irrefl _)
  have hlead := leads_key h hindent hinline hreach hx hl.rest (Int.le_of_eq hsame) hl.flow hl.keys
    hl.allowed
  rw [hopened] at hlead
  -- No token opens a block, since one is open at this column.
  refine ⟨_, hlead, hrest, hcolumn.trans (congrArg (· + (chars.length + 1)) hl.column), ?_,
    hl.blocks, rfl, hl.flow, rfl⟩
  show (Array.push _ Token.value).toList = _
  rw [Array.toList_push, toList_keyed, hl.tokens, List.append_assoc]
  rfl

/-- **A key** is read inside the block at its column. -/
theorem goes_key (h : Written indent text plain chars) (hindent : 0 < indent)
    (hinline : ∀ y ∈ chars, IsInline y) (hreach : chars.length ≤ keyReach) {x : Char}
    (hx : x = ' ' ∨ x = '\n') (hi : i ≤ (column : Int)) :
    Goes ⟨chars ++ ':' :: x :: rest, column, tokens, i :: blocks, true⟩
      ⟨x :: rest, column + (chars.length + 1),
        tokens ++ (opener .mappingOpen i column ++
          [Token.key, Token.scalar text plain, Token.value]),
        column :: around i blocks column, false⟩ := by
  rcases Int.lt_or_eq_of_le hi with hlt | rfl
  · rw [opener, around, if_pos hlt, if_pos hlt]
    exact goes_key_first h hindent hinline hreach hx hlt
  · rw [opener, around, if_neg (Int.lt_irrefl _), if_neg (Int.lt_irrefl _)]
    exact goes_key_next h hindent hinline hreach hx

/-- **The end of the text** closes the outermost block. -/
theorem finishes_end {l : Lexer} (hl : l.IsAt ⟨[], 0, tokens, [0, -1], allowed⟩) :
    l.Finishes (l.tokens.push .blockClose |>.push .streamEnd) := by
  obtain ⟨hindent, hindents⟩ := List.cons.inj hl.blocks
  have hrest : l.cursor.rest = [] := hl.rest
  have hcolumn : l.cursor.column = 0 := hl.column
  have hsame : ({ l with possibleKeys := [] } : Lexer) = l := by
    rw [← hl.keys]
  have hflow : l.inFlow = false := by
    rw [inFlow, hl.flow]
    rfl
  have hstart : Starts l.cursor.rest := by
    rw [hrest]
    exact fun x hx => absurd hx (by simp)
  have hclosed : closeBlocks (-1) l = { l.emit .blockClose with indent := -1, indents := [] } := by
    rw [closeBlocks_deeper hflow (by rw [hindent]; decide) hindents]
    exact closeBlocks_eq (Int.le_refl _)
  -- The open block is closed, and then nothing is left to be read.
  refine finishes_of_ended (m := { l.emit .blockClose with indent := -1, indents := [] }.emit
    .streamEnd) fun fuel hfuel => ?_
  have harrive := arrive_here (Nat.zero_lt_of_lt hfuel) hstart (hl.keys ▸ List.forall_mem_nil _)
  rw [hsame] at harrive
  rw [next_eq, harrive]
  show (if (closeBlocks l.cursor.column l).cursor.atEnd = true then _ else _) = _
  rw [closeBlocks_eq (by rw [hindent, hcolumn]; decide), Cursor.atEnd, hrest]
  show (streamEnd l >>= fun l => Except.ok (l, true)) = _
  rw [streamEnd, hclosed,
    dropKey_eq (l := { l.emit .blockClose with indent := -1, indents := [] }) hl.keys]
  rfl

end Stage

/-- **The tokens of a text** that the lexer gets through. -/
theorem scan_eq {text : String} (hallowed : ∀ c ∈ text.toList, isAllowed c = true)
    {tokens : List Token} {allowed : Bool}
    (h : Stage.Goes ⟨text.toList, 0, [], [-1], true⟩ ⟨[], 0, tokens, [0, -1], allowed⟩) :
    Token.scan text = tokens ++ [Token.blockClose, Token.streamEnd] := by
  obtain ⟨m, hleads, hm⟩ := h { cursor := { rest := text.toList } }
    ⟨rfl, rfl, rfl, rfl, rfl, rfl, rfl⟩
  have htokens : m.tokens.toList = tokens := hm.tokens
  have hall : text.toList.all isAllowed = true := List.all_eq_true.mpr hallowed
  have hrun := (hleads _ (Stage.finishes_end hm) (text.toList.length + 1) (Nat.lt_succ_self _)).1
  unfold Token.scan
  dsimp only
  rw [if_pos hall, hrun, Array.toList_push, Array.toList_push, htokens, List.append_assoc]
  rfl

end PipelineCompiler.Yaml
