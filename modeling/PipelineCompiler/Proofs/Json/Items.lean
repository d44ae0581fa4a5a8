import Mathlib.Data.List.Basic
import Mathlib.Data.List.Forall2
import PipelineCompiler.Proofs.Json.Quoted
import PipelineCompiler.Proofs.Number.Characters
import PipelineCompiler.Proofs.Success

namespace PipelineCompiler.Json

/-!
# Where written values end

The canonical text of a value can be told apart from what follows it, so that the text of a list
or mapping falls into the texts of its parts in one way only.

* `Position`, `walk` — walks through a text, keeping the count of open brackets and whether a
  quoted text is open;
* `IsItem` — a text that opens and closes its own brackets and quotes, and after which a separator
  or a closing bracket of the surroundings may follow;
* `item_append_inj` — an item ends at one place only;
* `enclose_inj` — a list of items between brackets is determined by its text;
* `item_of_writeWithin` — every canonical text is an item.
-/

/-! ### Walking through a text -/

/-- Where a walk stands: outside of quoted texts, within one, or behind a backslash within one;
    always with the count of brackets that are open. -/
inductive Position where
  | plain (depth : Nat)
  | quoted (depth : Nat)
  | escaped (depth : Nat)
deriving Repr, DecidableEq

/-- The position behind a character.  A separator or closing bracket of the surroundings is no
    part of the walk. -/
def Position.next : Position → Char → Option Position
  | .plain depth, c =>
    if c = '\x22' then some (.quoted depth)
    else if c = '[' ∨ c = '\x7b' then some (.plain (depth + 1))
    else if c = ']' ∨ c = '\x7d' then
      if depth = 0 then none else some (.plain (depth - 1))
    else if c = ',' then
      if depth = 0 then none else some (.plain depth)
    else some (.plain depth)
  | .quoted depth, c =>
    if c = '\x22' then some (.plain depth)
    else if c = '\\' then some (.escaped depth)
    else some (.quoted depth)
  | .escaped depth, _ => some (.quoted depth)

/-- The position behind a text. -/
def walk : Position → List Char → Option Position
  | p, [] => some p
  | p, c :: rest => (p.next c).bind fun q => walk q rest

/-- A text in two parts is walked through part by part. -/
theorem walk_append (p : Position) (xs ys : List Char) :
    walk p (xs ++ ys) = (walk p xs).bind fun q => walk q ys := by
  induction xs generalizing p with
  | nil => rfl
  | cons c rest ih =>
    rw [List.cons_append, walk, walk]
    cases p.next c with
    | none => rfl
    | some q => exact ih q

/-- A text that opens and closes its own brackets and quotes. -/
structure IsItem (cs : List Char) : Prop where
  ne_nil : cs ≠ []
  walks : ∀ depth, walk (.plain depth) cs = some (.plain depth)

/-- What may follow an item: nothing, or a separator or closing bracket. -/
def Stops (rest : List Char) : Prop :=
  ∀ c after, rest = c :: after → (Position.plain 0).next c = none

/-- A separator stops an item. -/
theorem stops_comma (rest : List Char) : Stops (',' :: rest) := by
  intro c after h
  obtain ⟨rfl, -⟩ := List.cons.inj h
  decide

/-- An item does not go on behind its end. -/
theorem item_eq_of_append {t more rest : List Char} (ht : IsItem t) (hu : IsItem (t ++ more))
    (hstop : Stops (more ++ rest)) : more = [] := by
  cases more with
  | nil => rfl
  | cons c after =>
    have hnone := hstop c (after ++ rest) rfl
    have hwalk := hu.walks 0
    rw [walk_append, ht.walks 0, Option.bind_some, walk, hnone] at hwalk
    cases hwalk

/-- **An item ends at one place only.** -/
theorem item_append_inj {t u rest rest' : List Char} (ht : IsItem t) (hu : IsItem u)
    (hr : Stops rest) (hr' : Stops rest') (h : t ++ rest = u ++ rest') :
    t = u ∧ rest = rest' := by
  rcases List.append_eq_append_iff.mp h with ⟨more, rfl, rfl⟩ | ⟨more, rfl, rfl⟩
  · obtain rfl := item_eq_of_append ht hu hr
    simp
  · obtain rfl := item_eq_of_append hu ht hr'
    simp

/-! ### Items between brackets -/

/-- Items with separators between them. -/
def separated (items : List (List Char)) : List Char := [','].intercalate items

/-- A bracket that closes a list or a mapping. -/
def IsClosing (c : Char) : Prop := c = ']' ∨ c = '\x7d'

/-- A closing bracket stops an item. -/
theorem stops_closing {c : Char} (h : IsClosing c) (rest : List Char) : Stops (c :: rest) := by
  intro d after he
  obtain ⟨rfl, -⟩ := List.cons.inj he
  rcases h with rfl | rfl
  · decide
  · decide

/-- A closing bracket is no separator. -/
theorem IsClosing.ne_comma {c : Char} (h : IsClosing c) : c ≠ ',' := by
  rcases h with rfl | rfl
  · decide
  · decide

/-- What stands behind an item: the closing bracket, or a separator and more items. -/
def behind (close : Char) (rest : List Char) : List (List Char) → List Char
  | [] => close :: rest
  | t :: ts => ',' :: t ++ behind close rest ts

/-- What stands behind an item stops it. -/
theorem stops_behind {close : Char} (h : IsClosing close) (rest : List Char)
    (ts : List (List Char)) : Stops (behind close rest ts) := by
  cases ts with
  | nil => exact stops_closing h rest
  | cons t ts => exact stops_comma _

/-- The first of some items and what stands behind it. -/
theorem separated_append (close : Char) (rest t : List Char) (ts : List (List Char)) :
    separated (t :: ts) ++ close :: rest = t ++ behind close rest ts := by
  induction ts generalizing t with
  | nil => simp [separated, behind, List.intercalate]
  | cons u us ih =>
    have hsplit : separated (t :: u :: us) = t ++ ',' :: separated (u :: us) := by
      simp [separated, List.intercalate]
    rw [hsplit, List.append_assoc, List.cons_append, ih, behind, List.cons_append]

/-- What stands behind an item determines the items there. -/
theorem behind_inj {close : Char} (hclose : IsClosing close) {rest rest' : List Char}
    {ts us : List (List Char)} (hts : ∀ t ∈ ts, IsItem t) (hus : ∀ u ∈ us, IsItem u)
    (h : behind close rest ts = behind close rest' us) : ts = us := by
  -- By induction on the items: behind each stands a comma or the closing bracket, which differ.
  induction ts generalizing us with
  | nil =>
    cases us with
    | nil => rfl
    | cons u us => exact absurd (List.cons.inj h).1 hclose.ne_comma
  | cons t ts ih =>
    cases us with
    | nil => exact absurd (List.cons.inj h).1.symm hclose.ne_comma
    | cons u us =>
      obtain ⟨rfl, hrest⟩ := item_append_inj (hts t List.mem_cons_self)
        (hus u List.mem_cons_self) (stops_behind hclose rest ts) (stops_behind hclose rest' us)
        (List.cons.inj h).2
      rw [ih (fun x hx => hts x (List.mem_cons_of_mem _ hx))
        (fun x hx => hus x (List.mem_cons_of_mem _ hx)) hrest]

/-- An item does not start with a closing bracket. -/
theorem item_ne_closing {t rest after : List Char} {close : Char} (hclose : IsClosing close)
    (ht : IsItem t) : t ++ rest ≠ close :: after := by
  intro h
  obtain ⟨c, t, rfl⟩ := List.exists_cons_of_ne_nil ht.ne_nil
  obtain ⟨rfl, -⟩ := List.cons.inj h
  have hwalk := ht.walks 0
  rw [walk, stops_closing hclose [] _ _ rfl] at hwalk
  cases hwalk

/-- **Items between brackets are determined by the text.** -/
theorem separated_inj (close : Char) (hclose : IsClosing close) (rest rest' : List Char)
    {ts us : List (List Char)} (hts : ∀ t ∈ ts, IsItem t) (hus : ∀ u ∈ us, IsItem u)
    (h : separated ts ++ close :: rest = separated us ++ close :: rest') : ts = us := by
  -- An empty list ends at once, and the other one would have to start with the bracket.
  cases ts with
  | nil =>
    cases us with
    | nil => rfl
    | cons u us =>
      rw [separated_append] at h
      exact absurd h.symm (item_ne_closing hclose (hus u List.mem_cons_self))
  | cons t ts =>
    cases us with
    | nil =>
      rw [separated_append] at h
      exact absurd h (item_ne_closing hclose (hts t List.mem_cons_self))
    | cons u us =>
      rw [separated_append, separated_append] at h
      have hbehind : behind close rest (t :: ts) = behind close rest' (u :: us) :=
        congrArg (',' :: ·) h
      exact behind_inj hclose hts hus hbehind

/-- Items are walked through one after another, where a separator may stand. -/
theorem walk_separated {ts : List (List Char)} (hts : ∀ t ∈ ts, IsItem t) (depth : Nat) :
    walk (.plain (depth + 1)) (separated ts) = some (.plain (depth + 1)) := by
  induction ts with
  | nil => rfl
  | cons t ts ih =>
    have ht := (hts t List.mem_cons_self).walks (depth + 1)
    cases ts with
    | nil => simpa [separated, List.intercalate] using ht
    | cons u us =>
      have hsplit : separated (t :: u :: us) = t ++ ',' :: separated (u :: us) := by
        simp [separated, List.intercalate]
      rw [hsplit, walk_append, ht, Option.bind_some, walk]
      show walk (.plain (depth + 1)) (separated (u :: us)) = _
      exact ih fun x hx => hts x (List.mem_cons_of_mem _ hx)

/-- The canonical text of items between brackets. -/
theorem toList_enclose (level : Nat) (opening closing : String) (items : List String) :
    (Style.canonical.enclose level opening closing items).toList
      = opening.toList ++ (separated (items.map String.toList) ++ closing.toList) := by
  unfold Style.enclose
  split
  next h =>
    rw [List.isEmpty_iff.mp h]
    simp [separated, List.intercalate]
  next =>
    simp [Style.newline, Style.canonical, separated, String.toList_intercalate]

/-- Items between brackets are an item. -/
theorem item_enclose {level : Nat} {opening closing : String} {items : List String}
    (hpair : opening = "[" ∧ closing = "]" ∨ opening = "\x7b" ∧ closing = "\x7d")
    (hitems : ∀ t ∈ items, IsItem t.toList) :
    IsItem (Style.canonical.enclose level opening closing items).toList := by
  have hmem : ∀ t ∈ items.map String.toList, IsItem t := by
    intro t ht
    obtain ⟨s, hs, rfl⟩ := List.mem_map.mp ht
    exact hitems s hs
  have hwalk := fun depth => walk_separated hmem depth
  rw [toList_enclose]
  constructor
  · rcases hpair with ⟨rfl, rfl⟩ | ⟨rfl, rfl⟩
    · simp
    · simp
  -- Within the brackets the count is one higher, and the last one brings it back.
  · intro depth
    have hend : ∀ c, IsClosing c → walk (.plain (depth + 1)) [c] = some (.plain depth) := by
      rintro c (rfl | rfl)
      · rfl
      · rfl
    rcases hpair with ⟨rfl, rfl⟩ | ⟨rfl, rfl⟩
    · show walk (.plain (depth + 1)) (_ ++ [']']) = _
      rw [walk_append, hwalk, Option.bind_some, hend _ (.inl rfl)]
    · show walk (.plain (depth + 1)) (_ ++ ['\x7d']) = _
      rw [walk_append, hwalk, Option.bind_some, hend _ (.inr rfl)]

/-- **A list or mapping falls into its parts in one way only.** -/
theorem enclose_inj {level level' : Nat} {opening closing : String}
    (hpair : opening = "[" ∧ closing = "]" ∨ opening = "\x7b" ∧ closing = "\x7d")
    {ts us : List String} (hts : ∀ t ∈ ts, IsItem t.toList)
    (hus : ∀ u ∈ us, IsItem u.toList)
    (h : Style.canonical.enclose level opening closing ts
      = Style.canonical.enclose level' opening closing us) : ts = us := by
  have hchars := congrArg String.toList h
  rw [toList_enclose, toList_enclose] at hchars
  have hinner := List.append_cancel_left hchars
  have hmem : ∀ {xs : List String}, (∀ x ∈ xs, IsItem x.toList) →
      ∀ x ∈ xs.map String.toList, IsItem x := by
    intro xs hxs x hx
    obtain ⟨s, hs, rfl⟩ := List.mem_map.mp hx
    exact hxs s hs
  -- The bracket that closes is in the alphabet of none of the items, so the two lists end in the
  -- same place.
  have hlists : ts.map String.toList = us.map String.toList := by
    rcases hpair with ⟨-, rfl⟩ | ⟨-, rfl⟩
    · exact separated_inj ']' (.inl rfl) [] [] (hmem hts) (hmem hus) hinner
    · exact separated_inj '\x7d' (.inr rfl) [] [] (hmem hts) (hmem hus) hinner
  exact List.map_injective_iff.mpr (fun _ _ => String.toList_inj.mp) hlists

/-! ### The texts of values -/

open Number

/-- Characters of numbers and words leave a walk where it is. -/
theorem walk_plain {cs : List Char} (h : PlainText cs) (depth : Nat) :
    walk (.plain depth) cs = some (.plain depth) := by
  induction cs with
  | nil => rfl
  | cons c rest ih =>
    have hc := h c List.mem_cons_self
    -- A character of a number is none of those that change the position.
    have hne : ∀ d, isPlain d = false → c ≠ d := by
      rintro d hd rfl
      rw [hd] at hc
      cases hc
    have hnext : (Position.plain depth).next c = some (.plain depth) := by
      simp [Position.next, hne '\x22' (by decide), hne '[' (by decide), hne '\x7b' (by decide),
        hne ']' (by decide), hne '\x7d' (by decide), hne ',' (by decide)]
    rw [walk, hnext, Option.bind_some]
    exact ih fun d hd => h d (List.mem_cons_of_mem _ hd)

/-- A number or a word is an item. -/
theorem item_plain {cs : List Char} (hne : cs ≠ []) (h : PlainText cs) : IsItem cs :=
  ⟨hne, walk_plain h⟩

/-- A written character of a quoted text leaves the quotes open. -/
theorem walk_quoteChar (c : Char) (depth : Nat) :
    walk (.quoted depth) (quoteChar c).toList = some (.quoted depth) := by
  unfold quoteChar
  split
  next => rfl
  next hquote =>
  split
  next => rfl
  next hbackslash =>
  split
  next => rfl
  next =>
  split
  next => rfl
  next =>
  split
  next => rfl
  next =>
  split
  next => rfl
  next =>
  split
  next => rfl
  next =>
  split
  next hcontrol =>
    -- the digits of a code neither end the text nor begin another escape
    have hdigit : ∀ n < 16, Nat.digitChar n ≠ '\x22' ∧ Nat.digitChar n ≠ '\\' := by decide
    obtain ⟨hq, hb⟩ := hdigit (c.toNat / 16) (by omega)
    obtain ⟨hq', hb'⟩ := hdigit (c.toNat % 16) (by omega)
    rw [toList_controlEscape c.toNat hcontrol]
    simp [walk, Position.next, hq, hb, hq', hb']
  next =>
    have htext : c.toString.toList = [c] := String.toList_singleton c
    have hq : c ≠ '\x22' := fun he => hquote (by simp [he])
    have hb : c ≠ '\\' := fun he => hbackslash (by simp [he])
    rw [htext]
    simp [walk, Position.next, hq, hb]

/-- The characters of a quoted text leave the quotes open. -/
theorem walk_quotedChars (cs : List Char) (depth : Nat) :
    walk (.quoted depth) (quotedChars cs) = some (.quoted depth) := by
  induction cs with
  | nil => rfl
  | cons c cs ih =>
    have hchars : quotedChars (c :: cs) = (quoteChar c).toList ++ quotedChars cs := rfl
    rw [hchars, walk_append, walk_quoteChar, Option.bind_some, ih]

/-- A quoted text is an item. -/
theorem item_quote (s : String) : IsItem (quote s).toList := by
  rw [toList_quote]
  refine ⟨List.cons_ne_nil _ _, fun depth => ?_⟩
  show walk (.quoted depth) (quotedChars s.toList ++ ['\x22']) = _
  rw [walk_append, walk_quotedChars]
  rfl

/-- The text of a scalar is quoted, or is a number or a word. -/
theorem scalar_cases {v : Value} {text : String} (h : scalar v = .ok text) :
    (∃ s, v = .str s ∧ text = quote s) ∨ text.toList ≠ [] ∧ PlainText text.toList := by
  -- Texts are quoted, numbers and words are bare, and nothing else is a scalar of JSON.
  cases v with
  | null =>
    obtain rfl := Except.ok.inj h
    exact .inr ⟨by decide, by decide⟩
  | bool b =>
    obtain rfl := Except.ok.inj h
    cases b with
    | false => exact .inr ⟨by decide, by decide⟩
    | true => exact .inr ⟨by decide, by decide⟩
  | int i =>
    simp only [scalar] at h
    split at h
    · cases h
    · obtain rfl := Except.ok.inj h
      exact .inr ⟨toString_ne_nil i, toString_plain i⟩
  | float x =>
    obtain rfl := Except.ok.inj h
    refine .inr ⟨render_ne_nil ?_ ?_ ?_ x, render_plain ?_ ?_ ?_ x⟩
    · decide
    · decide
    · decide
    · decide
    · decide
    · decide
  | str s =>
    obtain rfl := Except.ok.inj h
    exact .inl ⟨s, rfl, rfl⟩
  | bytes | date | timestamp | list | tuple | set | map | placed | endless => cases h

/-- The text of a scalar is an item. -/
theorem item_scalar {v : Value} {text : String} (h : scalar v = .ok text) :
    IsItem text.toList := by
  rcases scalar_cases h with ⟨s, -, rfl⟩ | ⟨hne, hplain⟩
  · exact item_quote s
  · exact item_plain hne hplain

/-- The text of a key is a quoted text. -/
theorem exists_quote_of_key {v : Value} {text : String} (h : key v = .ok text) :
    ∃ s, text = quote s := by
  unfold key at h
  split at h
  next s _ => exact ⟨s, (Except.ok.inj h).symm⟩
  next w _ =>
    obtain ⟨s, -, rfl⟩ := map_eq_ok.mp h
    exact ⟨s, rfl⟩

/-- An entry of a mapping: the key, a colon and the text of the value. -/
theorem item_entry (s : String) {text : String} (h : IsItem text.toList) :
    IsItem (quote s ++ Style.canonical.keySeparator ++ text).toList := by
  refine ⟨by simp [toList_quote], fun depth => ?_⟩
  rw [String.toList_append, String.toList_append, walk_append, walk_append,
    (item_quote s).walks, Option.bind_some]
  show (some (Position.plain depth)).bind _ = _
  exact h.walks depth

/-- Sorting keeps the elements. -/
theorem perm_insertOn {α : Type} {key : α → Value} {x : α} {xs ys : List α}
    (h : Value.insertOn? key x xs = some ys) : ys.Perm (x :: xs) := by
  -- By induction on the list, into which the element is put before the first one that is not less.
  induction xs generalizing ys with
  | nil =>
    obtain rfl := Option.some.inj h
    exact .refl _
  | cons y rest ih =>
    simp only [Value.insertOn?, Option.bind_eq_bind, Option.bind_eq_some_iff] at h
    obtain ⟨before, -, h⟩ := h
    split at h
    · obtain rfl := Option.some.inj h
      exact .refl _
    · obtain ⟨zs, hzs, h⟩ := Option.bind_eq_some_iff.mp h
      obtain rfl := Option.some.inj h
      exact ((ih hzs).cons y).trans (.swap x y rest)

/-- Sorting keeps the elements of a list behind those that are sorted. -/
theorem perm_foldlM_insertOn {α : Type} {key : α → Value} {xs sorted ys : List α}
    (h : xs.foldlM (fun sorted x => Value.insertOn? key x sorted) sorted = some ys) :
    ys.Perm (xs ++ sorted) := by
  induction xs generalizing sorted with
  | nil =>
    obtain rfl := Option.some.inj h
    exact .refl _
  | cons x xs ih =>
    rw [List.foldlM_cons, Option.bind_eq_bind, Option.bind_eq_some_iff] at h
    obtain ⟨next, hnext, h⟩ := h
    exact ((ih h).trans ((perm_insertOn hnext).append_left xs)).trans List.perm_middle

/-- The canonical order of entries keeps them. -/
theorem perm_arrange {entries arranged : List (Value × String)}
    (h : Style.canonical.arrange entries = .ok arranged) : arranged.Perm entries := by
  unfold Style.arrange at h
  rw [if_pos (show Style.canonical.sorted = true from rfl)] at h
  split at h
  next sorted hsorted =>
    obtain rfl := Except.ok.inj h
    have hperm := perm_foldlM_insertOn hsorted
    rwa [List.append_nil] at hperm
  next => cases h

/-- The texts of a list are those of its items. -/
theorem writeItems_eq_ok {style : Style} {around : List Nat} {level : Nat} {items : List Value}
    {texts : List String} : writeItems style around level items = .ok texts ↔
      List.Forall₂ (fun v text => writeWithin style around level v = .ok text) items texts := by
  induction items generalizing texts with
  | nil => simp [writeItems, eq_comm]
  | cons item rest ih =>
    simp only [writeItems, bind_eq_ok, pure_eq_ok, List.forall₂_cons_left_iff, ih]
    constructor
    · rintro ⟨text, htext, others, hothers, rfl⟩
      exact ⟨text, others, htext, hothers, rfl⟩
    · rintro ⟨text, others, htext, hothers, rfl⟩
      exact ⟨text, htext, others, hothers, rfl⟩

/-- The written form of an entry of a mapping. -/
def WritesEntry (style : Style) (around : List Nat) (level : Nat) (entry : Value × Value)
    (written : Value × String) : Prop :=
  ∃ keyText text, key entry.1 = .ok keyText ∧
    writeWithin style around level entry.2 = .ok text ∧
    written = (entry.1, keyText ++ style.keySeparator ++ text)

/-- The entries of a mapping are written one by one. -/
theorem writeEntries_eq_ok {style : Style} {around : List Nat} {level : Nat}
    {entries : List (Value × Value)} {written : List (Value × String)} :
    writeEntries style around level entries = .ok written ↔
      List.Forall₂ (WritesEntry style around level) entries written := by
  induction entries generalizing written with
  | nil => simp [writeEntries, eq_comm]
  | cons entry rest ih =>
    simp only [writeEntries, bind_eq_ok, pure_eq_ok, List.forall₂_cons_left_iff, ih]
    constructor
    · rintro ⟨keyText, hkey, text, htext, others, hothers, rfl⟩
      exact ⟨_, others, ⟨keyText, text, hkey, htext, rfl⟩, hothers, rfl⟩
    · rintro ⟨_, others, ⟨keyText, text, hkey, htext, rfl⟩, hothers, rfl⟩
      exact ⟨keyText, hkey, text, htext, others, hothers, rfl⟩

/-- **Every canonical text is an item.** -/
theorem item_of_writeWithin (around : List Nat) (level : Nat) (v : Value) : ∀ text : String,
    writeWithin .canonical around level v = .ok text → IsItem text.toList := by
  -- the induction follows the writer: values, entries of mappings, items of lists
  refine writeWithin.induct
    (fun around level v => ∀ text, writeWithin .canonical around level v = .ok text →
      IsItem text.toList)
    (fun around level entries => ∀ written, writeEntries .canonical around level entries =
      .ok written → ∀ entry ∈ written, IsItem entry.2.toList)
    (fun around level items => ∀ texts, writeItems .canonical around level items = .ok texts →
      ∀ t ∈ texts, IsItem t.toList)
    ?list ?tuple ?map ?inside ?placed ?scalar ?noItems ?item ?noEntries ?entry around level v
  case list | tuple =>
    intro around level items ih text h
    rw [writeWithin] at h
    obtain ⟨texts, htexts, h⟩ := bind_eq_ok.mp h
    obtain rfl := pure_eq_ok.mp h
    exact item_enclose (.inl ⟨rfl, rfl⟩) (ih texts htexts)
  case map =>
    intro around level entries ih text h
    rw [writeWithin] at h
    obtain ⟨written, hwritten, h⟩ := bind_eq_ok.mp h
    obtain ⟨arranged, harranged, h⟩ := bind_eq_ok.mp h
    obtain rfl := pure_eq_ok.mp h
    refine item_enclose (.inr ⟨rfl, rfl⟩) fun t ht => ?_
    obtain ⟨entry, hentry, rfl⟩ := List.mem_map.mp ht
    exact ih written hwritten _ ((perm_arrange harranged).subset hentry)
  case inside =>
    intro around level place v hmem text h
    rw [writeWithin, if_pos hmem] at h
    cases h
  case placed =>
    intro around level place v hmem ih text h
    rw [writeWithin, if_neg hmem] at h
    exact ih text h
  case scalar =>
    intro around level v hlist htuple hmap hplaced text h
    rw [writeWithin.eq_5 _ _ _ v hlist htuple hmap hplaced] at h
    exact item_scalar h
  case noItems =>
    intro around level texts h t ht
    obtain rfl := Except.ok.inj h
    cases ht
  case item =>
    intro around level item rest ih ihrest texts h t ht
    rw [writeItems] at h
    obtain ⟨text, htext, h⟩ := bind_eq_ok.mp h
    obtain ⟨others, hothers, h⟩ := bind_eq_ok.mp h
    obtain rfl := pure_eq_ok.mp h
    rcases List.mem_cons.mp ht with rfl | ht
    · exact ih _ htext
    · exact ihrest _ hothers t ht
  case noEntries =>
    intro around level written h entry hentry
    obtain rfl := Except.ok.inj h
    cases hentry
  case entry =>
    intro around level name value rest ih ihrest written h entry hentry
    rw [writeEntries] at h
    obtain ⟨keyText, hkey, h⟩ := bind_eq_ok.mp h
    obtain ⟨text, htext, h⟩ := bind_eq_ok.mp h
    obtain ⟨others, hothers, h⟩ := bind_eq_ok.mp h
    obtain rfl := pure_eq_ok.mp h
    obtain ⟨s, rfl⟩ := exists_quote_of_key hkey
    rcases List.mem_cons.mp hentry with rfl | hentry
    · exact item_entry s (ih _ htext)
    · exact ihrest _ hothers entry hentry

end PipelineCompiler.Json
