import PipelineCompiler.Proofs.Naming.Ready

namespace PipelineCompiler

/-!
# Sessions of an allocator

An allocator is asked for names over and over: some are reserved, some belong to records.

* `NameAllocator.Call`, `NameAllocator.after` — a request, and the allocator after it; a request
  that fails leaves it as it is;
* `Session` — requests to a new allocator, one after another;
* `call_cases` — the three things that a request that succeeds can do;
* `Session.Tracked` — what the allocator knows of the requests before a position;
* `Session.tracked` — every request keeps that;
* `Session.consistent` — who gets a new name and who shares one, over a whole session.

Sharing is decided by digests.  That it is decided by the records themselves rests on the assumption
that the digests taken in the session tell their texts apart.
-/

namespace NameAllocator

/-- A request to an allocator. -/
inductive Call where
  | reserve (stem : String)
  | allocate (stem : String) (record : Value)

/-- The text by which equal records are found, for a request about a record that has one. -/
def Call.text? (nameField : Option String) : Call → Option String
  | .reserve _ => none
  | .allocate _ record => (structuralText nameField record).toOption

/-- What a request does. -/
def call (a : NameAllocator) : Call → Except Failure (String × NameAllocator)
  | .reserve stem => a.reserve stem
  | .allocate stem record => a.allocate (.ok stem) record

/-- The name that a request gives. -/
def answer (a : NameAllocator) (c : Call) : Except Failure String := (a.call c).map (·.1)

/-- The allocator after a request. -/
def after (a : NameAllocator) (c : Call) : NameAllocator :=
  match a.call c with
  | .ok (_, next) => next
  | .error _ => a

/-! ### One request -/

/-- A request gives a name exactly when it leads to another allocator. -/
theorem answer_eq_ok {a : NameAllocator} {c : Call} {name : String} :
    a.answer c = .ok name ↔ a.call c = .ok (name, a.after c) := by
  unfold answer after
  cases a.call c with
  | error e => simp [Except.map]
  | ok given => simp [Except.map, Prod.ext_iff]

/-- A request that fails changes nothing. -/
theorem after_of_error {a : NameAllocator} {c : Call} {e : Failure} (h : a.answer c = .error e) :
    a.after c = a := by
  unfold answer at h
  unfold after
  cases hcall : a.call c with
  | error e' => rfl
  | ok given =>
    rw [hcall] at h
    cases h

/-- The requests about records with a text. -/
theorem Call.text?_eq_some {nameField : Option String} {c : Call} {text : String} :
    c.text? nameField = some text ↔
      ∃ stem record, c = .allocate stem record ∧
        structuralText nameField record = .ok text := by
  cases c with
  | reserve stem => simp [Call.text?]
  | allocate stem record =>
    cases h : structuralText nameField record <;> simp [Call.text?, Except.toOption, h]

/-- **What a request can do.**  A reservation takes a new name; a record whose key is kept gets the
    name that is kept for it; every other record takes a new name, which is kept for it. -/
theorem call_cases {a next : NameAllocator} {c : Call} {name : String}
    (h : a.call c = .ok (name, next)) :
    (∃ stem, c = .reserve stem ∧ freeName a.policy a.used stem = .ok name ∧
      next = { a with used := a.used ++ [name] }) ∨
    ∃ text, c.text? a.nameField = some text ∧
      (Keyed.find? a.byKey (Digest.sha256Hex text) = some name ∧ next = a ∨
        Keyed.find? a.byKey (Digest.sha256Hex text) = none ∧
          (∃ stem, freeName a.policy a.used stem = .ok name) ∧
          next = { a with
            used := a.used ++ [name]
            byKey := a.byKey ++ [(Digest.sha256Hex text, name)] }) := by
  cases c with
  | reserve stem =>
    obtain ⟨hfree, hnext⟩ := reserve_eq_ok h
    exact .inl ⟨stem, rfl, hfree, hnext⟩
  | allocate stem record =>
    obtain ⟨key, hkey, h⟩ := bind_eq_ok.mp (show a.allocate (.ok stem) record = _ from h)
    obtain ⟨text, htext, rfl⟩ := map_eq_ok.mp (show (structuralText _ _).map _ = _ from hkey)
    refine .inr ⟨text, Call.text?_eq_some.mpr ⟨stem, record, rfl, htext⟩, ?_⟩
    unfold allocateFor at h
    -- The key of the record is kept already, or a name is searched for it.
    split at h
    next kept hkept =>
      obtain ⟨rfl, rfl⟩ := Prod.mk.inj (pure_eq_ok.mp h)
      exact .inl ⟨hkept, rfl⟩
    next hnone =>
      obtain ⟨base, hbase, h⟩ := bind_eq_ok.mp h
      obtain ⟨⟨free, used⟩, hreserve, h⟩ := bind_eq_ok.mp h
      obtain ⟨hfree, rfl⟩ := reserve_eq_ok hreserve
      obtain ⟨rfl, rfl⟩ := Prod.mk.inj (pure_eq_ok.mp h)
      exact .inr ⟨hnone, ⟨base, hfree⟩, rfl⟩

/-- The policy and the field for the name are the same throughout. -/
theorem after_settings (a : NameAllocator) (c : Call) :
    (a.after c).policy = a.policy ∧ (a.after c).nameField = a.nameField := by
  cases hanswer : a.answer c with
  | error e => rw [after_of_error hanswer]; exact ⟨rfl, rfl⟩
  | ok name =>
    obtain ⟨stem, -, -, hnext⟩ | ⟨text, -, ⟨-, hnext⟩ | ⟨-, -, hnext⟩⟩ :=
      call_cases (answer_eq_ok.mp hanswer)
    all_goals rw [hnext]; exact ⟨rfl, rfl⟩

/-- The names that a request adds: its own name or none. -/
theorem after_used (a : NameAllocator) (c : Call) :
    (a.after c).used = a.used ∨
      ∃ name stem, a.answer c = .ok name ∧ freeName a.policy a.used stem = .ok name ∧
        (a.after c).used = a.used ++ [name] := by
  cases hanswer : a.answer c with
  | error e => rw [after_of_error hanswer]; exact .inl rfl
  | ok name =>
    obtain ⟨stem, -, hfree, hnext⟩ | ⟨text, -,
      ⟨-, hnext⟩ | ⟨-, ⟨stem, hfree⟩, hnext⟩⟩ :=
      call_cases (answer_eq_ok.mp hanswer)
    · exact .inr ⟨name, stem, rfl, hfree, by rw [hnext]⟩
    · exact .inl (by rw [hnext])
    · exact .inr ⟨name, stem, rfl, hfree, by rw [hnext]⟩

/-- **Where names have a length, the only requests that fail are those about records without a
    text.** -/
theorem exists_answer_iff {a : NameAllocator} (h : a.policy.maxLength.isSome = true) (c : Call) :
    (∃ name, a.answer c = .ok name) ↔
      (∃ stem, c = .reserve stem) ∨ ∃ text, c.text? a.nameField = some text := by
  -- A request that is answered had its text; the other way round a free name is always found.
  constructor
  · rintro ⟨name, hanswer⟩
    obtain ⟨stem, hstem, -⟩ | ⟨text, htext, -⟩ := call_cases (answer_eq_ok.mp hanswer)
    · exact .inl ⟨stem, hstem⟩
    · exact .inr ⟨text, htext⟩
  · have hreserve : ∀ stem, ∃ name next, a.reserve stem = .ok (name, next) := fun stem => by
      obtain ⟨name, hname⟩ := exists_freeName h a.used stem
      exact ⟨name, _, by rw [reserve, hname]; rfl⟩
    rintro (⟨stem, rfl⟩ | ⟨text, htext⟩)
    · obtain ⟨name, next, hname⟩ := hreserve stem
      exact ⟨name, by rw [answer, call, hname]; rfl⟩
    · obtain ⟨stem, record, rfl, hrecord⟩ := Call.text?_eq_some.mp htext
      have hcall : a.call (.allocate stem record) =
          a.allocateFor (.ok stem) (Digest.sha256Hex text) := by
        rw [call, allocate, structuralKey, hrecord]
        rfl
      cases hfind : Keyed.find? a.byKey (Digest.sha256Hex text) with
      | some kept => exact ⟨kept, by rw [answer, hcall, allocateFor, hfind]; rfl⟩
      | none =>
        obtain ⟨name, next, hname⟩ := hreserve stem
        refine ⟨name, ?_⟩
        rw [answer, hcall, allocateFor, hfind]
        change ((a.reserve stem >>= _ : Except Failure (String × NameAllocator))).map (·.1) = _
        rw [hname]
        rfl

end NameAllocator

/-! ### Requests one after another -/

open NameAllocator (Call)

/-- Requests to a new allocator. -/
structure Session where
  policy : NamePolicy
  /-- The field of a record that holds its name. -/
  nameField : Option String := some "name"
  calls : List Call

namespace Session

/-- The allocator after the first `n` requests. -/
def allocator (s : Session) (n : Nat) : NameAllocator :=
  (s.calls.take n).foldl NameAllocator.after { policy := s.policy, nameField := s.nameField }

/-- The names after the first `n` requests. -/
def names (s : Session) (n : Nat) : List String := (s.allocator n).used

/-- The answer to the request at a position. -/
def answer? (s : Session) (i : Nat) : Option (Except Failure String) :=
  s.calls[i]?.map (s.allocator i).answer

/-- The request at a position gives a name. -/
def Gives (s : Session) (i : Nat) (c : Call) (name : String) : Prop :=
  s.calls[i]? = some c ∧ (s.allocator i).answer c = .ok name

/-- The request at a position is about a record with a text, and gives it a name. -/
def Allocates (s : Session) (i : Nat) (text name : String) : Prop :=
  ∃ c, s.Gives i c name ∧ c.text? s.nameField = some text

/-- The texts whose digests are taken. -/
def texts (s : Session) : List String := s.calls.filterMap (Call.text? s.nameField)

/-- The session without the request at a position. -/
def without (s : Session) (i : Nat) : Session := { s with calls := s.calls.eraseIdx i }

variable {s : Session} {i j n : Nat} {c : Call} {text text' name name' : String}

/-- One request more. -/
theorem allocator_succ (h : s.calls[n]? = some c) :
    s.allocator (n + 1) = (s.allocator n).after c := by
  rw [allocator, List.take_add_one, h, List.foldl_append]
  rfl

/-- No request is left. -/
theorem allocator_of_none (h : s.calls[n]? = none) : s.allocator (n + 1) = s.allocator n := by
  rw [allocator, List.take_add_one, h]
  simp [allocator]

/-- The policy and the field for the name are the same throughout. -/
theorem allocator_settings (s : Session) (n : Nat) :
    (s.allocator n).policy = s.policy ∧ (s.allocator n).nameField = s.nameField := by
  induction n with
  | zero => exact ⟨rfl, rfl⟩
  | succ n ih =>
    cases hcall : s.calls[n]? with
    | none => rw [allocator_of_none hcall]; exact ih
    | some c =>
      have hafter := (s.allocator n).after_settings c
      rw [allocator_succ hcall, hafter.1, hafter.2]
      exact ih

/-- What the request at a position did. -/
theorem Gives.call (h : s.Gives i c name) :
    (s.allocator i).call c = .ok (name, s.allocator (i + 1)) := by
  rw [allocator_succ h.1]
  exact NameAllocator.answer_eq_ok.mp h.2

/-- The texts of requests are among those whose digests are taken. -/
theorem Allocates.mem_texts (h : s.Allocates i text name) : text ∈ s.texts := by
  obtain ⟨c, ⟨hcall, -⟩, htext⟩ := h
  exact List.mem_filterMap.mpr ⟨c, List.mem_of_getElem? hcall, htext⟩

/-- The two ways in which a record gets its name. -/
theorem Allocates.cases (h : s.Allocates i text name) :
    Keyed.find? (s.allocator i).byKey (Digest.sha256Hex text) = some name ∧
        s.allocator (i + 1) = s.allocator i ∨
      Keyed.find? (s.allocator i).byKey (Digest.sha256Hex text) = none ∧
        (∃ stem, freeName s.policy (s.names i) stem = .ok name) ∧
        s.names (i + 1) = s.names i ++ [name] ∧
        (s.allocator (i + 1)).byKey =
          (s.allocator i).byKey ++ [(Digest.sha256Hex text, name)] := by
  obtain ⟨c, hgives, htext⟩ := h
  obtain ⟨hpolicy, hfield⟩ := s.allocator_settings i
  -- A request for a name of its own has no text.
  obtain ⟨stem, rfl, -⟩ | ⟨text', htext', hcases⟩ := NameAllocator.call_cases hgives.call
  · cases htext
  · rw [hfield] at htext'
    obtain rfl := Option.some.inj (htext.symm.trans htext')
    rcases hcases with hkept | ⟨hnone, hfree, hnext⟩
    · exact .inl hkept
    · exact .inr ⟨hnone, hpolicy ▸ hfree, congrArg NameAllocator.used hnext,
        congrArg NameAllocator.byKey hnext⟩

/-- A reservation takes a new name. -/
theorem Gives.reserved {stem : String} (h : s.Gives i (.reserve stem) name) :
    freeName s.policy (s.names i) stem = .ok name ∧ s.names (i + 1) = s.names i ++ [name] ∧
      (s.allocator (i + 1)).byKey = (s.allocator i).byKey := by
  obtain ⟨stem', hstem, hfree, hnext⟩ | ⟨text, htext, -⟩ := NameAllocator.call_cases h.call
  · rw [(s.allocator_settings i).1] at hfree
    obtain rfl := Call.reserve.inj hstem
    refine ⟨hfree, congrArg NameAllocator.used hnext, ?_⟩
    rw [hnext]
  · cases htext

/-- **The names only grow, at their end.** -/
theorem names_prefix (s : Session) {m n : Nat} (h : m ≤ n) : s.names m <+: s.names n := by
  induction n, h using Nat.le_induction with
  | base => exact List.prefix_rfl
  | succ n _ ih =>
    refine ih.trans ?_
    cases hcall : s.calls[n]? with
    | none => rw [names, names, allocator_of_none hcall]
    | some c =>
      rw [names, names, allocator_succ hcall]
      rcases (s.allocator n).after_used c with hused | ⟨name, -, -, -, hused⟩
      · rw [hused]
      · exact hused ▸ List.prefix_append _ _

/-! ### What the allocator knows -/

/-- What the allocator knows of the first `n` requests: every record that was given a name has its
    key kept with it, no key is kept without such a record, different keys are kept with different
    names, and reserved names are kept for no key. -/
structure Tracked (s : Session) (n : Nat) : Prop where
  nodup : (s.names n).Nodup
  known : ∀ i < n, ∀ text name, s.Allocates i text name →
    Keyed.find? (s.allocator n).byKey (Digest.sha256Hex text) = some name
  origin : ∀ key name, Keyed.find? (s.allocator n).byKey key = some name →
    name ∈ s.names n ∧ ∃ i < n, ∃ text, s.Allocates i text name ∧
      key = Digest.sha256Hex text
  distinct : ∀ key key' name, Keyed.find? (s.allocator n).byKey key = some name →
    Keyed.find? (s.allocator n).byKey key' = some name → key = key'
  reserved : ∀ i < n, ∀ stem name, s.Gives i (.reserve stem) name →
    name ∈ s.names n ∧ ∀ key, Keyed.find? (s.allocator n).byKey key ≠ some name

/-- Nothing was asked yet. -/
theorem tracked_zero (s : Session) : s.Tracked 0 where
  nodup := List.nodup_nil
  known := fun _ hi => absurd hi (Nat.not_lt_zero _)
  origin := fun _ _ h => nomatch h
  distinct := fun _ _ _ h => nomatch h
  reserved := fun _ hi => absurd hi (Nat.not_lt_zero _)

/-- A request that gives no name of its own. -/
theorem Tracked.idle (h : s.Tracked n) (hnext : s.allocator (n + 1) = s.allocator n)
    (hknown : ∀ text name, s.Allocates n text name →
      Keyed.find? (s.allocator n).byKey (Digest.sha256Hex text) = some name)
    (hreserved : ∀ stem name, ¬ s.Gives n (.reserve stem) name) : s.Tracked (n + 1) := by
  have hnames : s.names (n + 1) = s.names n := congrArg NameAllocator.used hnext
  -- The allocator is as it was, so each clause speaks of this request or of one before it.
  refine ⟨hnames ▸ h.nodup, fun i hi text name hallocates => ?_, fun key name hfind => ?_, ?_,
    fun i hi stem name hgives => ?_⟩
  · rw [hnext]
    rcases Nat.lt_succ_iff_lt_or_eq.mp hi with hi | rfl
    · exact h.known i hi text name hallocates
    · exact hknown text name hallocates
  · rw [hnext] at hfind
    obtain ⟨hused, i, hi, horigin⟩ := h.origin key name hfind
    exact ⟨hnames ▸ hused, i, Nat.lt_succ_of_lt hi, horigin⟩
  · rw [hnext]
    exact h.distinct
  · rw [hnext, hnames]
    rcases Nat.lt_succ_iff_lt_or_eq.mp hi with hi | rfl
    · exact h.reserved i hi stem name hgives
    · exact absurd hgives (hreserved stem name)

/-- A new name is none of those in use. -/
theorem Tracked.nodup_append (h : s.Tracked n) {stem : String}
    (hfree : freeName s.policy (s.names n) stem = .ok name) : (s.names n ++ [name]).Nodup :=
  nodup_concat h.nodup (freeName_fresh hfree)

/-- **A reservation keeps what is known.** -/
theorem Tracked.reserve (h : s.Tracked n) {stem : String}
    (hgives : s.Gives n (.reserve stem) name) : s.Tracked (n + 1) := by
  obtain ⟨hfree, hnames, hkeys⟩ := hgives.reserved
  have hold : ∀ other ∈ s.names n, other ∈ s.names (n + 1) :=
    fun other hother => hnames ▸ List.mem_append_left _ hother
  refine ⟨hnames ▸ h.nodup_append hfree, fun i hi text other hallocates => ?_,
    fun key other hfind => ?_, hkeys ▸ h.distinct, fun i hi stem' other hother => ?_⟩
  · rw [hkeys]
    rcases Nat.lt_succ_iff_lt_or_eq.mp hi with hi | rfl
    · exact h.known i hi text other hallocates
    · obtain ⟨c, ⟨hcall, -⟩, htext⟩ := hallocates
      obtain rfl := Option.some.inj (hgives.1.symm.trans hcall)
      cases htext
  · rw [hkeys] at hfind
    obtain ⟨hused, i, hi, horigin⟩ := h.origin key other hfind
    exact ⟨hold other hused, i, Nat.lt_succ_of_lt hi, horigin⟩
  · rw [hkeys]
    rcases Nat.lt_succ_iff_lt_or_eq.mp hi with hi | rfl
    · obtain ⟨hused, hunkept⟩ := h.reserved i hi stem' other hother
      exact ⟨hold other hused, hunkept⟩
    · -- the new name is kept for no key, because what is kept is in use
      obtain rfl := Except.ok.inj (hgives.2.symm.trans
        (Option.some.inj (hgives.1.symm.trans hother.1) ▸ hother.2))
      refine ⟨hnames ▸ List.mem_append_right _ List.mem_cons_self, fun key hfind => ?_⟩
      exact freeName_fresh hfree (h.origin key name hfind).1

/-- **A record that takes a new name keeps what is known.** -/
theorem Tracked.allocate (h : s.Tracked n) (hallocates : s.Allocates n text name)
    (hnone : Keyed.find? (s.allocator n).byKey (Digest.sha256Hex text) = none) {stem : String}
    (hfree : freeName s.policy (s.names n) stem = .ok name)
    (hnames : s.names (n + 1) = s.names n ++ [name])
    (hkeys : (s.allocator (n + 1)).byKey =
      (s.allocator n).byKey ++ [(Digest.sha256Hex text, name)]) : s.Tracked (n + 1) := by
  have hold : ∀ other ∈ s.names n, other ∈ s.names (n + 1) :=
    fun other hother => hnames ▸ List.mem_append_left _ hother
  -- what is kept afterwards was kept before, or it is the new name under the new key
  have hfind : ∀ key other, Keyed.find? (s.allocator (n + 1)).byKey key = some other ↔
      Keyed.find? (s.allocator n).byKey key = some other ∨
        key = Digest.sha256Hex text ∧ other = name := by
    intro key other
    rw [hkeys]
    simp only [Keyed.find?_append, Keyed.find?]
    by_cases hkey : Digest.sha256Hex text = key
    · subst hkey
      simp [hnone, eq_comm]
    · simp [hkey, Ne.symm hkey]
  have hunkept : ∀ key, Keyed.find? (s.allocator n).byKey key ≠ some name :=
    fun key hkept => freeName_fresh hfree (h.origin key name hkept).1
  refine ⟨hnames ▸ h.nodup_append hfree, fun i hi text' other hother => ?_,
    fun key other hkept => ?_, fun key key' other hkept hkept' => ?_,
    fun i hi stem' other hother => ?_⟩
  · rw [hfind]
    rcases Nat.lt_succ_iff_lt_or_eq.mp hi with hi | rfl
    · exact .inl (h.known i hi text' other hother)
    · obtain ⟨c, hc, htext⟩ := hallocates
      obtain ⟨c', hc', htext'⟩ := hother
      obtain rfl := Option.some.inj (hc.1.symm.trans hc'.1)
      obtain rfl := Option.some.inj (htext.symm.trans htext')
      exact .inr ⟨rfl, Except.ok.inj (hc'.2.symm.trans hc.2)⟩
  · rcases (hfind key other).mp hkept with hkept | ⟨rfl, rfl⟩
    · obtain ⟨hused, i, hi, horigin⟩ := h.origin key other hkept
      exact ⟨hold other hused, i, Nat.lt_succ_of_lt hi, horigin⟩
    · exact ⟨hnames ▸ List.mem_append_right _ List.mem_cons_self, n, Nat.lt_succ_self n, text,
        hallocates, rfl⟩
  · rcases (hfind key other).mp hkept with hkept | ⟨rfl, rfl⟩
    · rcases (hfind key' other).mp hkept' with hkept' | ⟨-, rfl⟩
      · exact h.distinct key key' other hkept hkept'
      · exact absurd hkept (hunkept key)
    · rcases (hfind key' other).mp hkept' with hkept' | ⟨rfl, -⟩
      · exact absurd hkept' (hunkept key')
      · rfl
  · rcases Nat.lt_succ_iff_lt_or_eq.mp hi with hi | rfl
    · obtain ⟨hused, hkept⟩ := h.reserved i hi stem' other hother
      refine ⟨hold other hused, fun key hkey => ?_⟩
      rcases (hfind key other).mp hkey with hkey | ⟨-, rfl⟩
      · exact hkept key hkey
      · exact freeName_fresh hfree hused
    · obtain ⟨c, ⟨hcall, -⟩, htext⟩ := hallocates
      obtain rfl := Option.some.inj (hcall.symm.trans hother.1)
      cases htext

/-- **Every request keeps what is known**, whether it succeeds or fails. -/
theorem Tracked.step (h : s.Tracked n) : s.Tracked (n + 1) := by
  cases hcall : s.calls[n]? with
  | none =>
    -- no request is left
    have hgone : ∀ c name, ¬ s.Gives n c name := fun c name hgives => by
      rw [hgives.1] at hcall
      cases hcall
    exact h.idle (allocator_of_none hcall)
      (fun text name ⟨c, hgives, _⟩ => absurd hgives (hgone c name))
      (fun stem name => hgone _ name)
  | some c =>
    cases hanswer : (s.allocator n).answer c with
    | error e =>
      have hfails : ∀ c name, ¬ s.Gives n c name := fun c' name hgives => by
        obtain rfl := Option.some.inj (hcall.symm.trans hgives.1)
        exact absurd (hanswer.symm.trans hgives.2) (by simp)
      refine h.idle ?_ (fun text name ⟨c, hgives, _⟩ => absurd hgives (hfails c name))
        (fun stem name => hfails _ name)
      rw [allocator_succ hcall, NameAllocator.after_of_error hanswer]
    | ok name =>
      have hgives : s.Gives n c name := ⟨hcall, hanswer⟩
      obtain ⟨stem, rfl, -⟩ | ⟨text, htext, -⟩ := NameAllocator.call_cases hgives.call
      · exact h.reserve hgives
      · rw [(s.allocator_settings n).2] at htext
        have hallocates : s.Allocates n text name := ⟨c, hgives, htext⟩
        rcases hallocates.cases with ⟨hkept, hnext⟩ | ⟨hnone,
          ⟨stem, hfree⟩, hnames, hkeys⟩
        · refine h.idle hnext (fun text' name' hother => ?_) (fun stem name' hother => ?_)
          · obtain ⟨c', hgives', htext'⟩ := hother
            obtain rfl := Option.some.inj (hcall.symm.trans hgives'.1)
            obtain rfl := Option.some.inj (htext.symm.trans htext')
            rw [hkept, Except.ok.inj (hanswer.symm.trans hgives'.2)]
          · obtain rfl := Option.some.inj (hcall.symm.trans hother.1)
            cases htext
        · exact h.allocate hallocates hnone hfree hnames hkeys

/-- **The allocator knows all requests before every position.** -/
theorem tracked (s : Session) (n : Nat) : s.Tracked n := by
  induction n with
  | zero => exact s.tracked_zero
  | succ n ih => exact ih.step

/-! ### Whole sessions -/

/-- A request that failed may be left out: all later requests meet the same allocator. -/
theorem allocator_without {e : Failure} (h : s.answer? i = some (.error e)) (hn : i ≤ n) :
    (s.without i).allocator n = s.allocator (n + 1) := by
  obtain ⟨c, hcall, hanswer⟩ := Option.map_eq_some_iff.mp h
  induction n, hn using Nat.le_induction with
  | base =>
    rw [allocator_succ hcall, NameAllocator.after_of_error hanswer]
    simp only [allocator, without, List.take_eraseIdx_eq_take_of_le _ _ _ (le_refl i)]
  | succ n hn ih =>
    have hshift : (s.without i).calls[n]? = s.calls[n + 1]? :=
      List.getElem?_eraseIdx_of_ge hn
    cases hnext : s.calls[n + 1]? with
    | none => rw [allocator_of_none hnext, allocator_of_none (hshift.trans hnext), ih]
    | some d => rw [allocator_succ hnext, allocator_succ (hshift.trans hnext), ih]

/-- What holds of the names over a whole session. -/
structure Consistent (s : Session) : Prop where
  /-- No name is there twice. -/
  nodup : ∀ n, (s.names n).Nodup
  /-- Names stay, and new ones go to the end. -/
  grows : ∀ m n, m ≤ n → s.names m <+: s.names n
  /-- A reservation adds its name, and no other. -/
  reserved : ∀ i stem name, s.Gives i (.reserve stem) name →
    s.names (i + 1) = s.names i ++ [name]
  /-- So does a request about a record that equals none of the records before. -/
  allocated : ∀ i text name, s.Allocates i text name →
    (∀ j < i, ∀ other, ¬ s.Allocates j text other) → s.names (i + 1) = s.names i ++ [name]
  /-- A request about a record that equals one before adds nothing. -/
  shared : ∀ i j text name other, j < i → s.Allocates j text other →
    s.Allocates i text name →
    s.names (i + 1) = s.names i
  /-- Two records get one name exactly when they are equal. -/
  same : ∀ i j text text' name name', s.Allocates i text name → s.Allocates j text' name' →
    (name = name' ↔ text = text')
  /-- A reserved name is given once. -/
  apart : ∀ i j stem c name name', i ≠ j → s.Gives i (.reserve stem) name →
    s.Gives j c name' →
    name ≠ name'
  /-- A request that fails leaves the allocator as it is, and all later answers are those without
      it. -/
  failed : ∀ i e, s.answer? i = some (.error e) → s.allocator (i + 1) = s.allocator i ∧
    ∀ n, i ≤ n → (s.without i).allocator n = s.allocator (n + 1) ∧
      (s.without i).answer? n = s.answer? (n + 1)
  /-- Where names have a length, a request fails only if its record has no text. -/
  answered : s.policy.maxLength.isSome = true → ∀ i c, s.calls[i]? = some c →
    ((∃ name, s.Gives i c name) ↔
      (∃ stem, c = .reserve stem) ∨ ∃ text, c.text? s.nameField = some text)

/-- A reserved name is given to no other request before or after it. -/
theorem Gives.ne_of_reserve {stem : String} (h : s.Gives i (.reserve stem) name)
    (h' : s.Gives j c name') (hne : i ≠ j) : name ≠ name' := by
  obtain ⟨hfree, hnames, -⟩ := h.reserved
  obtain ⟨stem', rfl, -⟩ | ⟨text, htext, -⟩ := NameAllocator.call_cases h'.call
  · -- of two reservations the later name is new where the earlier one is in use
    obtain ⟨hfree', hnames', -⟩ := h'.reserved
    rcases Nat.lt_or_gt_of_ne hne with hlt | hlt
    · rintro rfl
      exact freeName_fresh hfree' ((s.tracked j).reserved i hlt stem name h).1
    · rintro rfl
      exact freeName_fresh hfree ((s.tracked i).reserved j hlt stem' name h').1
  · -- a record's name is kept for its key, and a reserved name is kept for none
    rw [(s.allocator_settings j).2] at htext
    have htracked := s.tracked (max i j + 1)
    have hkept := htracked.known j (by omega) text name' ⟨c, h', htext⟩
    rintro rfl
    exact (htracked.reserved i (by omega) stem name h).2 _ hkept

/-- Two records get one name exactly when they are equal. -/
theorem Allocates.name_eq_iff (hsep : Separates (· ∈ s.texts)) (h : s.Allocates i text name)
    (h' : s.Allocates j text' name') : name = name' ↔ text = text' := by
  have htracked := s.tracked (max i j + 1)
  have hkept := htracked.known i (by omega) text name h
  have hkept' := htracked.known j (by omega) text' name' h'
  constructor
  · rintro rfl
    exact hsep text text' h.mem_texts h'.mem_texts (htracked.distinct _ _ name hkept hkept')
  · rintro rfl
    exact Option.some.inj (hkept.symm.trans hkept')

/-- **Names over a whole session**, where the digests taken in it tell their texts apart. -/
theorem consistent (s : Session) (hsep : Separates (· ∈ s.texts)) : s.Consistent where
  nodup n := (s.tracked n).nodup
  grows _ _ h := s.names_prefix h
  reserved _ _ _ h := h.reserved.2.1
  allocated i text name h hnew := by
    -- A name that is kept for the digest was allocated for the same text before, so it is not new.
    rcases h.cases with ⟨hkept, -⟩ | ⟨-, -, hnames, -⟩
    · obtain ⟨-, j, hj, text', h', hdigest⟩ := (s.tracked i).origin _ _ hkept
      obtain rfl := hsep text text' h.mem_texts h'.mem_texts hdigest
      exact absurd h' (hnew j hj name)
    · exact hnames
  shared i j text name other hj h' h := by
    rcases h.cases with ⟨-, hnext⟩ | ⟨hnone, -⟩
    · exact congrArg NameAllocator.used hnext
    · rw [(s.tracked _).known j hj text other h'] at hnone
      cases hnone
  same _ _ _ _ _ _ h h' := h.name_eq_iff hsep h'
  apart _ _ _ _ _ _ hne h h' := h.ne_of_reserve h' hne
  failed i e h := by
    obtain ⟨c, hcall, hanswer⟩ := Option.map_eq_some_iff.mp h
    -- A request that fails leaves the allocator as it was, so all later ones are answered as if it
    -- had not been made.
    refine ⟨?_, fun n hn => ⟨allocator_without h hn, ?_⟩⟩
    · rw [allocator_succ hcall, NameAllocator.after_of_error hanswer]
    · rw [answer?, answer?, allocator_without h hn]
      exact congrArg (Option.map _) (List.getElem?_eraseIdx_of_ge hn)
  answered hlimited i c hcall := by
    obtain ⟨hpolicy, hfield⟩ := s.allocator_settings i
    have hiff := NameAllocator.exists_answer_iff (a := s.allocator i) (hpolicy ▸ hlimited) c
    rw [hfield] at hiff
    exact ⟨fun ⟨name, hgives⟩ => hiff.mp ⟨name, hgives.2⟩,
      fun hc => (hiff.mpr hc).imp fun name hanswer => ⟨hcall, hanswer⟩⟩

/-- It is enough that all texts that differ have different digests. -/
theorem separates_of_nodup {texts : List String}
    (h : (texts.dedup.map Digest.sha256Hex).Nodup) : Separates (· ∈ texts) :=
  fun _ _ ha hb heq =>
    List.inj_on_of_nodup_map h (List.mem_dedup.mpr ha) (List.mem_dedup.mpr hb) heq

/-- A session in which a record comes twice, a request fails, and a stem ends in a number. -/
def sampleSession : Session where
  policy := .kubernetes (some 6)
  calls :=
    [.reserve "Train!", .allocate "train" (.ofFields [("image", .str "a")]),
      .allocate "other" (.ofFields [("name", .str "b"), ("image", .str "a")]),
      .allocate "train" (.list []), .reserve "train-2", .allocate "x" (.ofFields [])]

theorem sampleSession_consistent :
    sampleSession.Consistent ∧ sampleSession.names 6 = ["train", "trai-2", "trai-3", "x"] :=
  ⟨consistent sampleSession (separates_of_nodup (by decide)), by decide +kernel⟩

end Session
end PipelineCompiler
