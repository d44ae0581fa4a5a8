import Mathlib.Data.List.Lex
import Mathlib.Data.List.Perm.Subperm
import Mathlib.Data.List.Sort
import PipelineCompiler.Graph.Order
import PipelineCompiler.Proofs.Keyed
import PipelineCompiler.Proofs.Success

namespace PipelineCompiler

/-!
# What the planner does

The planner counts, for every task, the producers that it still waits for.  The tasks that it places
are nevertheless easy to name: each time the least of those that are not placed although all their
producers are.

* `orderedTexts_eq`, `sortedTexts_sorted`, `mem_sortedTexts` — texts in order;
* `orderedTexts_congr`, `sortedTexts_congr` — which depend on nothing but which texts there are;
* `readyTasks`, `nextTask?`, `placeTasks` — the tasks that could come next, the least of them, and
  the tasks that are placed in this way;
* `Ordered`, `placeTasks_ordered` — every task once and behind its producers;
* `Planner.Tells` — what the tables of the planner say, while some tasks have not been told that
  the last one is placed;
* `Tells.release`, `Tells.place` — one task is told, and one is placed;
* `Tells.step`, `Tells.run` — a task is placed and all are told that need it, until none is ready;
* `order_eq` — the order of a graph, said without counts and tables.

The number of a task is that of its producers which are not placed, and one more as long as it has
not been told.  So it reaches zero once, when it is told of the last of them.
-/

/-! ### Texts in order -/

/-- A text does not stand behind another. -/
def Text.NotAfter (s t : String) : Prop := Text.codes s ≤ Text.codes t

instance : DecidableRel Text.NotAfter :=
  fun s t => inferInstanceAs (Decidable (Text.codes s ≤ Text.codes t))

instance : Std.Total Text.NotAfter := ⟨fun s t => le_total (Text.codes s) (Text.codes t)⟩

instance : IsTrans String Text.NotAfter := ⟨fun _ _ _ => le_trans (α := List Nat)⟩

/-- Texts that do not stand behind each other are the same. -/
theorem notAfter_antisymm {s t : String} (h : Text.NotAfter s t) (h' : Text.NotAfter t s) :
    s = t := Text.codes_injective (le_antisymm h h')

/-- A text that does not stand behind another text stands before it. -/
theorem lt_of_notAfter {s t : String} (h : Text.NotAfter s t) (hne : s ≠ t) :
    Text.codes s < Text.codes t :=
  lt_of_le_of_ne h fun heq => hne (Text.codes_injective heq)

/-- The order of texts comes from sorting by insertion. -/
theorem orderedTexts_eq (texts : List String) :
    orderedTexts texts = texts.insertionSort Text.NotAfter := by
  -- Text by text: both put it before the first one that does not come before it.
  have hinsert : ∀ (text : String) (sorted : List String),
      insertText text sorted = sorted.orderedInsert Text.NotAfter text := by
    intro text sorted
    induction sorted with
    | nil => rfl
    | cons other rest ih =>
      rw [insertText, List.orderedInsert_cons, ih, ← ite_not]
      exact if_congr not_lt rfl rfl
  unfold orderedTexts
  induction texts with
  | nil => rfl
  | cons text rest ih => rw [List.foldr_cons, List.insertionSort_cons, ih, hinsert]

/-- Texts in order are the same texts. -/
theorem orderedTexts_perm (texts : List String) : (orderedTexts texts).Perm texts := by
  rw [orderedTexts_eq]
  exact List.perm_insertionSort _ texts

/-- Putting texts in order keeps them. -/
theorem mem_orderedTexts {texts : List String} {text : String} :
    text ∈ orderedTexts texts ↔ text ∈ texts := (orderedTexts_perm texts).mem_iff

/-- **Different texts in order ascend.** -/
theorem orderedTexts_sorted {texts : List String} (h : texts.Nodup) :
    (orderedTexts texts).Pairwise fun s t => Text.codes s < Text.codes t := by
  have hnodup : (orderedTexts texts).Nodup := (orderedTexts_perm texts).nodup_iff.mpr h
  have hsorted : (orderedTexts texts).Pairwise Text.NotAfter := by
    rw [orderedTexts_eq]
    exact List.pairwise_insertionSort Text.NotAfter texts
  exact (hsorted.and hnodup).imp fun h => lt_of_notAfter h.1 h.2

/-- Sorting keeps the texts. -/
theorem mem_sortedTexts {texts : List String} {text : String} :
    text ∈ sortedTexts texts ↔ text ∈ texts := by
  rw [sortedTexts, mem_orderedTexts, mem_foldl_insertNew]
  simp

/-- **Sorted texts ascend**, so that none of them is there twice. -/
theorem sortedTexts_sorted (texts : List String) :
    (sortedTexts texts).Pairwise fun s t => Text.codes s < Text.codes t :=
  orderedTexts_sorted (nodup_foldl_insertNew List.nodup_nil)

/-- Texts that ascend are different. -/
theorem nodup_of_ascending {texts : List String}
    (h : texts.Pairwise fun s t => Text.codes s < Text.codes t) : texts.Nodup :=
  h.imp fun hlt heq => ne_of_lt hlt (congrArg Text.codes heq)

/-- Putting texts in order forgets the order they were in. -/
theorem orderedTexts_congr {texts others : List String} (h : texts.Perm others) :
    orderedTexts texts = orderedTexts others := by
  rw [orderedTexts_eq, orderedTexts_eq]
  refine List.Perm.eq_of_pairwise (fun a b _ _ => notAfter_antisymm)
    (List.pairwise_insertionSort Text.NotAfter texts)
    (List.pairwise_insertionSort Text.NotAfter others) ?_
  exact ((List.perm_insertionSort _ texts).trans h).trans (List.perm_insertionSort _ others).symm

/-- Sorted texts depend on nothing but which texts there are. -/
theorem sortedTexts_congr {texts others : List String}
    (h : ∀ text, text ∈ texts ↔ text ∈ others) :
    sortedTexts texts = sortedTexts others := by
  refine orderedTexts_congr ((List.perm_ext_iff_of_nodup (nodup_foldl_insertNew List.nodup_nil)
    (nodup_foldl_insertNew List.nodup_nil)).mpr fun text => ?_)
  rw [mem_foldl_insertNew, mem_foldl_insertNew, h]

/-- Texts that ascend are the sorted texts of those that they are. -/
theorem eq_sortedTexts {sorted texts : List String}
    (hsorted : sorted.Pairwise fun s t => Text.codes s < Text.codes t)
    (h : ∀ text, text ∈ sorted ↔ text ∈ texts) : sorted = sortedTexts texts := by
  have hperm : sorted.Perm (sortedTexts texts) :=
    (List.perm_ext_iff_of_nodup (nodup_of_ascending hsorted)
      (nodup_of_ascending (sortedTexts_sorted texts))).mpr fun text => by rw [mem_sortedTexts, h]
  exact hperm.eq_of_pairwise (fun a b _ _ hab hba => absurd (hab.trans hba) (lt_irrefl _))
    hsorted (sortedTexts_sorted texts)

/-! ### Tasks that are ready -/

/-- The tasks that are not placed although all their producers are. -/
def readyTasks (dependencies : Keyed (List String)) (placed : List String) : List String :=
  (Keyed.keys dependencies).filter fun id =>
    !placed.contains id && (Planner.producersOf dependencies id).all placed.contains

/-- The task that comes next: the least of those that are ready. -/
def nextTask? (dependencies : Keyed (List String)) (placed : List String) : Option String :=
  (sortedTexts (readyTasks dependencies placed)).head?

/-- Places ready tasks behind those that are placed, the least first, at most `count` of them. -/
def placeTasks (dependencies : Keyed (List String)) : (count : Nat) → List String → List String
  | 0, placed => placed
  | count + 1, placed =>
    match nextTask? dependencies placed with
    | none => placed
    | some id => placeTasks dependencies count (placed ++ [id])

/-- The tasks of a graph in order, whether or not all of them can be placed. -/
def Graph.placedTasks (g : Graph) : List String :=
  placeTasks g.dependencies g.tasks.length []

variable {dependencies : Keyed (List String)} {placed : List String} {id : String}

/-- Which tasks are ready. -/
theorem mem_readyTasks : id ∈ readyTasks dependencies placed ↔
    id ∈ Keyed.keys dependencies ∧ id ∉ placed ∧
      ∀ p ∈ Planner.producersOf dependencies id, p ∈ placed := by
  simp only [readyTasks, List.mem_filter, Bool.and_eq_true, Bool.not_eq_true',
    List.contains_eq_mem, decide_eq_false_iff_not, List.all_eq_true, decide_eq_true_eq]

/-- The task that comes next is ready. -/
theorem nextTask?_mem (h : nextTask? dependencies placed = some id) :
    id ∈ readyTasks dependencies placed :=
  mem_sortedTexts.mp (List.mem_of_mem_head? h)

/-- The task that comes next is the least one that is ready. -/
theorem nextTask?_le (h : nextTask? dependencies placed = some id) :
    ∀ other ∈ readyTasks dependencies placed, Text.codes id ≤ Text.codes other := by
  intro other hother
  have hsorted := sortedTexts_sorted (readyTasks dependencies placed)
  have hmem := mem_sortedTexts.mpr hother
  unfold nextTask? at h
  cases hlist : sortedTexts (readyTasks dependencies placed) with
  | nil => rw [hlist] at h; cases h
  | cons first rest =>
    -- The first text of an ascending list is the least.
    rw [hlist] at h hsorted hmem
    obtain rfl := Option.some.inj h
    rcases List.mem_cons.mp hmem with rfl | hmem
    · exact le_refl _
    · exact le_of_lt ((List.pairwise_cons.mp hsorted).1 other hmem)

/-- A task comes next unless none is ready. -/
theorem nextTask?_eq_none (h : nextTask? dependencies placed = none) :
    readyTasks dependencies placed = [] := by
  have hnil : sortedTexts (readyTasks dependencies placed) = [] := List.head?_eq_none_iff.mp h
  refine List.eq_nil_iff_forall_not_mem.mpr fun id hid => ?_
  rw [← mem_sortedTexts, hnil] at hid
  cases hid

/-- Which task comes next depends on nothing but which tasks are ready. -/
theorem nextTask?_congr {others : Keyed (List String)}
    (h : ∀ id, id ∈ readyTasks dependencies placed ↔ id ∈ readyTasks others placed) :
    nextTask? dependencies placed = nextTask? others placed := by
  rw [nextTask?, nextTask?, sortedTexts_congr h]

/-- Tasks in an order in which every task stands once and behind those that it needs. -/
structure Ordered (dependencies : Keyed (List String)) (order : List String) : Prop where
  nodup : order.Nodup
  keys : ∀ id ∈ order, id ∈ Keyed.keys dependencies
  before : Chained (fun earlier id => ∀ producers,
    Keyed.find? dependencies id = some producers →
    ∀ p ∈ producers, p ∈ earlier) order

/-- No task is in order. -/
theorem ordered_nil (dependencies : Keyed (List String)) : Ordered dependencies [] where
  nodup := List.nodup_nil
  keys := fun _ h => nomatch h
  before := chained_nil _

/-- What a task needs, if it is there. -/
theorem producersOf_eq {producers : List String}
    (h : Keyed.find? dependencies id = some producers) :
    Planner.producersOf dependencies id = producers := by
  rw [Planner.producersOf, h, Option.getD_some]

/-- A ready task may be placed. -/
theorem Ordered.place (h : Ordered dependencies placed)
    (hready : id ∈ readyTasks dependencies placed) : Ordered dependencies (placed ++ [id]) := by
  obtain ⟨hkey, hnew, hproducers⟩ := mem_readyTasks.mp hready
  refine ⟨nodup_concat h.nodup hnew, fun other hother => ?_,
    h.before.concat fun producers hfind p hp => ?_⟩
  · rcases List.mem_append.mp hother with hother | hother
    · exact h.keys other hother
    · obtain rfl := List.mem_singleton.mp hother
      exact hkey
  -- The producers of the task have been placed, since it is ready.
  · rw [producersOf_eq hfind] at hproducers
    exact hproducers p hp

/-- Placing tasks keeps the order. -/
theorem placeTasks_ordered (count : Nat) (h : Ordered dependencies placed) :
    Ordered dependencies (placeTasks dependencies count placed) := by
  induction count generalizing placed with
  | zero => exact h
  | succ count ih =>
    unfold placeTasks
    split
    next => exact h
    next id hid => exact ih (h.place (nextTask?_mem hid))

/-- What a placed task needs is placed. -/
theorem Ordered.producers (h : Ordered dependencies placed) (hid : id ∈ placed) :
    ∀ p ∈ Planner.producersOf dependencies id, p ∈ placed := by
  intro p hp
  obtain ⟨earlier, later, rfl⟩ := List.append_of_mem hid
  obtain ⟨producers, hproducers⟩ := Keyed.exists_find?_of_mem_keys (h.keys id hid)
  rw [producersOf_eq hproducers] at hp
  exact List.mem_append_left _ (h.before earlier id later rfl producers hproducers p hp)

/-! ### The tables -/

namespace Planner

/-- Producers that are tasks themselves, none of them listed twice. -/
structure Closed (dependencies : Keyed (List String)) : Prop where
  nodup : ∀ id, (producersOf dependencies id).Nodup
  keys : ∀ id, ∀ p ∈ producersOf dependencies id, p ∈ Keyed.keys dependencies

/-- A table with everyone who needs a task and has a note there. -/
structure Notes (dependencies : Keyed (List String)) (noted : String → String → Prop)
    (table : Keyed (List String)) : Prop where
  found : ∀ p ∈ Keyed.keys dependencies, ∃ ids, Keyed.find? table p = some ids ∧
    ids.Nodup ∧
    ∀ id, id ∈ ids ↔ noted id p

/-- Notes that say the same. -/
theorem Notes.congr {noted other : String → String → Prop} {table : Keyed (List String)}
    (h : Notes dependencies noted table) (hsame : ∀ id p, noted id p ↔ other id p) :
    Notes dependencies other table := by
  refine ⟨fun p hp => ?_⟩
  obtain ⟨ids, hfind, hnodup, hids⟩ := h.found p hp
  exact ⟨ids, hfind, hnodup, fun id => (hids id).trans (hsame id p)⟩

/-- A note at a task. -/
theorem Notes.note {noted : String → String → Prop} {table : Keyed (List String)}
    (h : Notes dependencies noted table) {p : String} (hp : p ∈ Keyed.keys dependencies)
    (id : String) : ∃ next, Planner.note id table p = .ok next ∧
      Notes dependencies (fun x q => noted x q ∨ x = id ∧ q = p) next := by
  obtain ⟨ids, hfind, hnodup, hids⟩ := h.found p hp
  refine ⟨Keyed.put table p (insertNew ids id), ?_, ⟨fun q hq => ?_⟩⟩
  · exact bind_eq_ok.mpr ⟨ids, fetch_eq_ok.mpr hfind, rfl⟩
  -- The set of one producer grows, and the others stay as they are.
  · by_cases hqp : q = p
    · subst hqp
      refine ⟨_, Keyed.find?_put_self table q _, nodup_insertNew hnodup id, fun x => ?_⟩
      rw [mem_insertNew, hids]
      simp
    · obtain ⟨others, hothers, hnodup', hmem⟩ := h.found q hq
      refine ⟨others, (Keyed.find?_put_of_ne table _ hqp).trans hothers, hnodup', fun x => ?_⟩
      rw [hmem]
      simp [hqp]

/-- Notes at some tasks. -/
theorem Notes.notes {noted : String → String → Prop} {table : Keyed (List String)}
    (h : Notes dependencies noted table) (id : String) {producers : List String}
    (hproducers : ∀ p ∈ producers, p ∈ Keyed.keys dependencies) :
    ∃ next, producers.foldlM (Planner.note id) table = .ok next ∧
      Notes dependencies (fun x q => noted x q ∨ x = id ∧ q ∈ producers) next := by
  -- By induction on the producers; each of them has a set, so no note fails.
  induction producers generalizing noted table with
  | nil => exact ⟨table, rfl, by simpa using h⟩
  | cons p rest ih =>
    obtain ⟨next, hnext, hnoted⟩ := h.note (hproducers p List.mem_cons_self) id
    obtain ⟨last, hlast, hall⟩ := ih hnoted fun q hq => hproducers q (List.mem_cons_of_mem _ hq)
    refine ⟨last, ?_, hall.congr fun x q => ?_⟩
    · rw [List.foldlM_cons]
      exact bind_eq_ok.mpr ⟨next, hnext, hlast⟩
    · rw [List.mem_cons, or_assoc, and_or_left]

/-- **Who needs each task** is found in the table of consumers. -/
theorem exists_consumerTable (hclosed : Closed dependencies) :
    ∃ table, consumerTable dependencies = .ok table ∧ Notes dependencies
      (fun id p => id ∈ Keyed.keys dependencies ∧ p ∈ producersOf dependencies id) table := by
  have hstart : Notes dependencies (fun id p => id ∈ ([] : List String) ∧
      p ∈ producersOf dependencies id)
        (Keyed.ofList ((Keyed.keys dependencies).map fun id => (id, []))) := by
    refine ⟨fun p hp => ⟨[], ?_, List.nodup_nil, by simp⟩⟩
    rw [Keyed.find?_ofList_map (fun _ => []), if_pos hp]
  -- the tasks are gone through one by one, and each leaves its notes
  suffices hfrom : ∀ (ids done : List String) table,
      Notes dependencies (fun id p => id ∈ done ∧ p ∈ producersOf dependencies id) table →
      ∃ last, ids.foldlM (noteAll dependencies) table = .ok last ∧ Notes dependencies
        (fun id p => id ∈ done ++ ids ∧ p ∈ producersOf dependencies id) last from
    hfrom (Keyed.keys dependencies) [] _ hstart
  intro ids
  induction ids with
  | nil => exact fun done table h => ⟨table, rfl, by simpa using h⟩
  | cons id rest ih =>
    intro done table h
    obtain ⟨next, hnext, hnoted⟩ := h.notes id (hclosed.keys id)
    obtain ⟨last, hlast, hall⟩ := ih (done ++ [id]) next <| hnoted.congr fun x q => by
      rw [List.mem_append, List.mem_singleton, or_and_right]
      exact or_congr_right (and_congr_right fun hx => by rw [hx])
    refine ⟨last, ?_, by simpa using hall⟩
    rw [List.foldlM_cons]
    exact bind_eq_ok.mpr ⟨next, hnext, hlast⟩

/-! ### What the tables say -/

/-- How many producers of a task are not placed. -/
def unplaced (dependencies : Keyed (List String)) (placed : List String) (id : String) : Nat :=
  (producersOf dependencies id).countP fun p => !placed.contains p

/-- What the tables say while the tasks `due` have not been told that the last one is placed. -/
structure Tells (dependencies : Keyed (List String)) (due : List String) (p : Planner) :
    Prop where
  ordered : Ordered dependencies p.placed
  missing : ∀ id ∈ Keyed.keys dependencies, Keyed.find? p.missing id =
    some ((unplaced dependencies p.placed id : Int) + if id ∈ due then 1 else 0)
  consumers : Notes dependencies
    (fun id q => id ∈ Keyed.keys dependencies ∧ q ∈ producersOf dependencies id) p.consumers
  ascending : p.ready.Pairwise fun s t => Text.codes s < Text.codes t
  ready : ∀ id, id ∈ p.ready ↔ id ∈ readyTasks dependencies p.placed ∧ id ∉ due

/-- No producer is missing when all of them are placed. -/
theorem unplaced_eq_zero :
    unplaced dependencies placed id = 0 ↔ ∀ p ∈ producersOf dependencies id,
      p ∈ placed := by
  rw [unplaced, List.countP_eq_zero]
  simp

/-- A task that is placed is not missing any more. -/
theorem unplaced_concat (hclosed : Closed dependencies) {last : String} (hnew : last ∉ placed) :
    unplaced dependencies placed id = unplaced dependencies (placed ++ [last]) id +
      if last ∈ producersOf dependencies id then 1 else 0 := by
  unfold unplaced
  have hnodup := hclosed.nodup id
  generalize producersOf dependencies id = producers at hnodup ⊢
  -- By induction on the producers, among which the task is at most once.
  induction producers with
  | nil => rfl
  | cons p rest ih =>
    obtain ⟨hp, hrest⟩ := List.nodup_cons.mp hnodup
    rw [List.countP_cons, List.countP_cons, ih hrest]
    by_cases hlast : p = last
    · subst hlast
      simp [hp, hnew]
    · have hother : last ≠ p := fun h => hlast h.symm
      simp only [List.contains_append, List.contains_cons, List.contains_nil, Bool.or_false,
        List.mem_cons, hother, false_or, beq_eq_false_iff_ne.mpr hlast]
      omega

/-- What becomes of a task that is told. -/
theorem release_eq {p : Planner} {count : Int} (h : Keyed.find? p.missing id = some count) :
    p.release id = .ok { p with
      missing := Keyed.put p.missing id (count - 1)
      ready := if count - 1 = 0 then orderedTexts (p.ready ++ [id]) else p.ready } := by
  unfold release
  rw [fetch_eq_ok.mpr h]
  show (if count - 1 = 0 then _ else _) = _
  split
  · rfl
  · rfl

/-- **A task is told** that one of its producers is placed: its number is that of the others then,
    and it is ready if there are none. -/
theorem Tells.release {due : List String} {p : Planner} (h : Tells dependencies (id :: due) p)
    (hid : id ∈ Keyed.keys dependencies) (hdue : id ∉ due) (hnew : id ∉ p.placed) :
    ∃ q, p.release id = .ok q ∧ Tells dependencies due q ∧ q.placed = p.placed := by
  have hfind : Keyed.find? p.missing id = some ((unplaced dependencies p.placed id : Int) + 1) := by
    rw [h.missing id hid, if_pos List.mem_cons_self]
  have hmissing : ∀ other ∈ Keyed.keys dependencies,
      Keyed.find? (Keyed.put p.missing id (unplaced dependencies p.placed id : Int)) other =
        some ((unplaced dependencies p.placed other : Int) + if other ∈ due then 1 else 0) := by
    intro other hother
    by_cases hsame : other = id
    · subst hsame
      rw [Keyed.find?_put_self, if_neg hdue, Int.add_zero]
    · rw [Keyed.find?_put_of_ne _ _ hsame, h.missing other hother]
      simp [hsame]
  refine ⟨_, release_eq hfind, ?_, rfl⟩
  rw [Int.add_sub_cancel]
  -- The number of the task falls to zero exactly if no other producer is left, and then the task
  -- joins those that are ready.
  by_cases hzero : unplaced dependencies p.placed id = 0
  · have hready : id ∈ readyTasks dependencies p.placed :=
      mem_readyTasks.mpr ⟨hid, hnew, unplaced_eq_zero.mp hzero⟩
    have hother : id ∉ p.ready := fun hmem => ((h.ready id).mp hmem).2 List.mem_cons_self
    have hnodup : (p.ready ++ [id]).Nodup := nodup_concat (nodup_of_ascending h.ascending) hother
    rw [if_pos (by exact_mod_cast hzero)]
    refine ⟨h.ordered, hmissing, h.consumers, orderedTexts_sorted hnodup, fun x => ?_⟩
    rw [mem_orderedTexts, List.mem_append, List.mem_singleton, h.ready, List.mem_cons]
    by_cases hx : x = id
    · subst hx
      simp [hready, hdue]
    · simp [hx]
  · have hwaits : id ∉ readyTasks dependencies p.placed := fun hmem =>
      hzero (unplaced_eq_zero.mpr (mem_readyTasks.mp hmem).2.2)
    rw [if_neg (by exact_mod_cast hzero)]
    refine ⟨h.ordered, hmissing, h.consumers, h.ascending, fun x => ?_⟩
    rw [h.ready, List.mem_cons]
    by_cases hx : x = id
    · subst hx
      simp [hwaits]
    · simp [hx]

/-- All tasks that are due are told, one after another. -/
theorem Tells.releaseAll {due : List String} {p : Planner} (h : Tells dependencies due p)
    (hkeys : ∀ id ∈ due, id ∈ Keyed.keys dependencies) (hnodup : due.Nodup)
    (hnew : ∀ id ∈ due, id ∉ p.placed) :
    ∃ q, due.foldlM Planner.release p = .ok q ∧ Tells dependencies [] q ∧
      q.placed = p.placed := by
  -- By induction on the tasks that are due.  None occurs twice, so each counter falls by one at
  -- most.
  induction due generalizing p with
  | nil => exact ⟨p, rfl, h, rfl⟩
  | cons id rest ih =>
    obtain ⟨hid, hrest⟩ := List.nodup_cons.mp hnodup
    obtain ⟨q, hq, htells, hplaced⟩ :=
      h.release (hkeys id List.mem_cons_self) hid (hnew id List.mem_cons_self)
    obtain ⟨last, hlast, htells', hplaced'⟩ :=
      ih htells (fun x hx => hkeys x (List.mem_cons_of_mem _ hx)) hrest
        fun x hx => hplaced ▸ hnew x (List.mem_cons_of_mem _ hx)
    refine ⟨last, ?_, htells', hplaced'.trans hplaced⟩
    rw [List.foldlM_cons]
    exact bind_eq_ok.mpr ⟨q, hq, hlast⟩

/-- Which tasks are ready once one of them is placed: those that were and do not need it. -/
theorem mem_readyTasks_concat (hid : id ∈ readyTasks dependencies placed) {x : String}
    (hneeds : id ∉ producersOf dependencies x) :
    x ∈ readyTasks dependencies (placed ++ [id]) ↔
      x ∈ readyTasks dependencies placed ∧ x ≠ id := by
  rw [mem_readyTasks, mem_readyTasks, List.mem_append, List.mem_singleton, not_or]
  constructor
  · rintro ⟨hx, ⟨hplaced, hne⟩, hall⟩
    refine ⟨⟨hx, hplaced, fun q hq => ?_⟩, hne⟩
    refine (List.mem_append.mp (hall q hq)).resolve_right fun hmem => ?_
    obtain rfl := List.mem_singleton.mp hmem
    exact hneeds hq
  · rintro ⟨⟨hx, hplaced, hall⟩, hne⟩
    exact ⟨hx, ⟨hplaced, hne⟩, fun q hq => List.mem_append_left _ (hall q hq)⟩

/-- **A task is placed** that was ready, and those that need it are due. -/
theorem Tells.place (hclosed : Closed dependencies) {p : Planner} (h : Tells dependencies [] p)
    {rest consumers : List String} (hready : p.ready = id :: rest)
    (hconsumers : ∀ x, x ∈ consumers ↔
      x ∈ Keyed.keys dependencies ∧ id ∈ producersOf dependencies x) :
    Tells dependencies consumers { p with ready := rest, placed := p.placed ++ [id] } := by
  have hid : id ∈ readyTasks dependencies p.placed :=
    ((h.ready id).mp (hready ▸ List.mem_cons_self)).1
  obtain ⟨-, hnew, -⟩ := mem_readyTasks.mp hid
  have hascending := h.ascending
  rw [hready] at hascending
  obtain ⟨hfirst, hrest⟩ := List.pairwise_cons.mp hascending
  refine ⟨h.ordered.place hid, fun x hx => ?_, h.consumers, hrest, fun x => ?_⟩
  · rw [h.missing x hx, if_neg List.not_mem_nil, Int.add_zero, unplaced_concat hclosed hnew]
    have hmem : x ∈ consumers ↔ id ∈ producersOf dependencies x :=
      (hconsumers x).trans (and_iff_right hx)
    simp only [hmem]
    split <;> simp
  · have hxrest : x ∈ rest ↔ x ∈ readyTasks dependencies p.placed ∧ x ≠ id := by
      have hmem := h.ready x
      rw [hready, List.mem_cons] at hmem
      constructor
      · intro hx
        refine ⟨(hmem.mp (.inr hx)).1, ?_⟩
        rintro rfl
        exact lt_irrefl _ (hfirst x hx)
      · rintro ⟨hx, hne⟩
        exact (hmem.mpr ⟨hx, List.not_mem_nil⟩).resolve_left hne
    show x ∈ rest ↔ _
    rw [hxrest, hconsumers]
    -- A task that needs this one was not ready before, and is due now.
    by_cases hneeds : id ∈ producersOf dependencies x
    · refine iff_of_false (fun hx => hnew ((mem_readyTasks.mp hx.1).2.2 id hneeds)) fun hx => ?_
      exact hx.2 ⟨(mem_readyTasks.mp hx.1).1, hneeds⟩
    · rw [mem_readyTasks_concat hid hneeds]
      exact (and_iff_left fun hx => hneeds hx.2).symm

/-- **One task is placed**, and the tables say what they should. -/
theorem Tells.step (hclosed : Closed dependencies) {p : Planner} (h : Tells dependencies [] p)
    {rest : List String} (hready : p.ready = id :: rest) :
    ∃ q, p.step id rest = .ok q ∧ Tells dependencies [] q ∧ q.placed = p.placed ++ [id] := by
  have hid : id ∈ readyTasks dependencies p.placed :=
    ((h.ready id).mp (hready ▸ List.mem_cons_self)).1
  obtain ⟨hkey, hnew, hproducers⟩ := mem_readyTasks.mp hid
  obtain ⟨consumers, hfind, hnodup, hconsumers⟩ := h.consumers.found id hkey
  -- a task that needs this one is not placed, since this one is not
  have hwaiting : ∀ x ∈ consumers, x ∉ p.placed ++ [id] := by
    intro x hx hplaced
    have hneeds : id ∈ producersOf dependencies x := ((hconsumers x).mp hx).2
    rcases List.mem_append.mp hplaced with hplaced | hplaced
    · exact hnew (h.ordered.producers hplaced id hneeds)
    · obtain rfl := List.mem_singleton.mp hplaced
      exact hnew (hproducers x hneeds)
  have htells : Tells dependencies (orderedTexts consumers)
      { p with ready := rest, placed := p.placed ++ [id] } :=
    h.place hclosed hready fun x => mem_orderedTexts.trans (hconsumers x)
  obtain ⟨q, hq, hagain, hplaced⟩ := htells.releaseAll
    (fun x hx => ((hconsumers x).mp (mem_orderedTexts.mp hx)).1)
    ((orderedTexts_perm consumers).nodup_iff.mpr hnodup)
    (fun x hx => hwaiting x (mem_orderedTexts.mp hx))
  exact ⟨q, bind_eq_ok.mpr ⟨consumers, fetch_eq_ok.mpr hfind, hq⟩, hagain, hplaced⟩

/-- **All tasks are placed**, and these are the tasks that `placeTasks` names. -/
theorem Tells.run (hclosed : Closed dependencies) (count : Nat) {p : Planner}
    (h : Tells dependencies [] p) :
    p.run count = .ok (placeTasks dependencies count p.placed) := by
  induction count generalizing p with
  | zero => rfl
  | succ count ih =>
    -- The list of ready tasks ascends and has the members of `readyTasks`, so both name the same
    -- task.
    have hnext : nextTask? dependencies p.placed = p.ready.head? := by
      rw [nextTask?, ← eq_sortedTexts h.ascending fun x => by simpa using h.ready x]
    unfold Planner.run placeTasks
    rw [hnext]
    cases hready : p.ready with
    | nil => rfl
    | cons id rest =>
      obtain ⟨q, hq, htells, hplaced⟩ := h.step hclosed hready
      dsimp only [List.head?_cons]
      rw [hq, ← hplaced]
      exact ih htells

/-- **The planner starts** with tables that say what they should. -/
theorem exists_start (hclosed : Closed dependencies) :
    ∃ p, start dependencies = .ok p ∧ Tells dependencies [] p ∧ p.placed = [] ∧
      p.missing = counts dependencies := by
  obtain ⟨table, htable, hnotes⟩ := exists_consumerTable hclosed
  have hcounts : ∀ x, Keyed.find? (counts dependencies) x =
      if x ∈ Keyed.keys dependencies then some ((producersOf dependencies x).length : Int)
      else none := Keyed.find?_ofList_map _ _
  have hnodup : (Keyed.keys (counts dependencies)).Nodup := Keyed.nodup_ofList _
  -- The tasks with a zero in the table are those without producers.
  have hzero : ∀ x, x ∈ Keyed.keys ((counts dependencies).filter fun entry => entry.2 = 0) ↔
      x ∈ readyTasks dependencies [] := by
    intro x
    rw [mem_readyTasks, Keyed.keys, List.mem_map]
    constructor
    · rintro ⟨⟨y, n⟩, hentry, rfl⟩
      obtain ⟨hmem, hn⟩ := List.mem_filter.mp hentry
      have hfind := Keyed.find?_of_mem hnodup hmem
      rw [hcounts] at hfind
      split at hfind
      next hkey =>
        obtain rfl := Option.some.inj hfind
        have hnil : producersOf dependencies y = [] := by simpa using hn
        exact ⟨hkey, List.not_mem_nil, by simp [hnil]⟩
      next => cases hfind
    · rintro ⟨hkey, -, hnone⟩
      have hnil : producersOf dependencies x = [] :=
        List.eq_nil_iff_forall_not_mem.mpr fun q hq => List.not_mem_nil (hnone q hq)
      refine ⟨(x, 0), List.mem_filter.mpr ⟨Keyed.mem_of_find? ?_, by simp⟩, rfl⟩
      rw [hcounts, if_pos hkey, hnil]
      rfl
  refine ⟨_, bind_eq_ok.mpr ⟨table, htable, rfl⟩, ⟨ordered_nil _, fun x hx => ?_, hnotes,
    orderedTexts_sorted ?_, fun x => ?_⟩, rfl, rfl⟩
  · show Keyed.find? (counts dependencies) x = _
    rw [hcounts, if_pos hx, if_neg List.not_mem_nil, Int.add_zero, unplaced]
    congr 2
    exact (List.countP_eq_length.mpr fun q _ => rfl).symm
  · exact hnodup.sublist (List.filter_sublist.map _)
  · rw [mem_orderedTexts, hzero]
    simp

end Planner

end PipelineCompiler
