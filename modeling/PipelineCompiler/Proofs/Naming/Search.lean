import Mathlib.Logic.Relation
import PipelineCompiler.Proofs.Naming.Fresh

namespace PipelineCompiler

/-!
# The search for a name

A new name is searched for by a loop: the sanitized stem is tried, and then the same with the
numbers from two on, until one of them is not used.

* `Search`, `Search.Turn` — where the loop stands, and a turn of it;
* `Search.Tried` — what has been tried so far, which a turn preserves (`Tried.turn`), and so a
  whole run (`Tried.run`);
* `Search.Tried.found` — where the loop stops, it stands at the name that is given;
* `Search.exists_stop`, `Search.not_endless` — it stops somewhere, and no run goes on for ever,
  because there are more names with equally long numbers than names in use;
* `search_least` — the loop ends with the least number whose name is free, whatever the policy is.

No measure drops from turn to turn.  Different numbers may make one name, as a name gives way to its
number where there is no room; only the end of a name with a longer number is sure to be new.
-/

/-- Where the search stands: how many names were tried, and the name that is tried now. -/
structure Search where
  index : Nat
  name : String

namespace Search

/-- The search begins with the sanitized stem. -/
def start (base : String) : Search := ⟨1, base⟩

section Run

variable (p : NamePolicy) (limit : Int) (base : String) (used : List String)

/-- A turn of the loop: the name is used, and the next number is tried. -/
inductive Turn : Search → Search → Prop
  | next {s : Search} (taken : s.name ∈ used) :
    Turn s ⟨s.index + 1, p.numbered limit base ((s.index + 1 : Nat) : Int)⟩

/-- Some turns of the loop, from its start on. -/
abbrev Run (s : Search) : Prop := Relation.ReflTransGen (Turn p limit base used) (start base) s

/-- What has been tried: nothing yet, or the stem and all numbers before the one that is tried
    now. -/
def Tried (s : Search) : Prop :=
  s = start base ∨
    2 ≤ s.index ∧ s.name = p.numbered limit base s.index ∧ base ∈ used ∧
      ∀ m : Nat, 2 ≤ m → m < s.index → p.numbered limit base m ∈ used

variable {p limit base used}

/-- A turn preserves what has been tried. -/
theorem Tried.turn {s t : Search} (h : Tried p limit base used s)
    (hturn : Turn p limit base used s t) : Tried p limit base used t := by
  obtain ⟨htaken⟩ := hturn
  rcases h with rfl | ⟨hindex, hname, hbase, hbefore⟩
  · -- the stem is used, and there is no number before two
    refine .inr ⟨le_refl 2, rfl, htaken, fun m hm hlt => ?_⟩
    simp only [start] at hlt
    omega
  · refine .inr ⟨by simp only; omega, rfl, hbase, fun m hm hlt => ?_⟩
    by_cases hlast : m = s.index
    · rw [hlast, ← hname]
      exact htaken
    · simp only at hlt
      exact hbefore m hm (by omega)

/-- So does a whole run. -/
theorem Tried.run {s : Search} (hrun : Run p limit base used s) : Tried p limit base used s := by
  induction hrun with
  | refl => exact .inl rfl
  | tail _ hturn ih => exact ih.turn hturn

/-- Of the numbers that are free, the search gives the one at which the loop stops. -/
theorem Tried.found {s : Search} (h : Tried p limit base used s) (hfree : s.name ∉ used)
    (hbase : base ∈ used) : firstFree used (fun n => p.numbered limit base n)
      (searchBound used.length) 2 = s.name ∧ s.index ≤ 2 + searchBound used.length := by
  rcases h with rfl | ⟨hindex, hname, -, hbefore⟩
  · exact absurd hbase hfree
  · have hbound := exists_free_number p limit base used
    obtain ⟨n, hlow, hfound, hnfree, hleast⟩ := firstFree_spec used
      (fun n => p.numbered limit base n) (searchBound used.length) 2 hbound
    -- both are the least number that is free
    have hsame : n = s.index := by
      rcases Nat.lt_trichotomy n s.index with hlt | heq | hlt
      · exact absurd (hbefore n hlow hlt) hnfree
      · exact heq
      · exact absurd (hname ▸ hleast s.index hindex hlt) hfree
    refine ⟨by rw [hfound, hsame, hname], ?_⟩
    obtain ⟨k, hk, hkbound, hkfree⟩ := hbound
    by_contra hlate
    exact hkfree (hbefore k hk (by omega))

/-- The loop passes over numbers that are used. -/
theorem run_numbered (hbase : base ∈ used) (k : Nat)
    (h : ∀ m : Nat, 2 ≤ m → m < k + 2 → p.numbered limit base m ∈ used) :
    Run p limit base used ⟨k + 2, p.numbered limit base ((k + 2 : Nat) : Int)⟩ := by
  induction k with
  | zero => exact .single (.next hbase)
  | succ k ih =>
    refine .tail (ih fun m hm hlt => h m hm (by omega)) ?_
    exact .next (h (k + 2) (by omega) (by omega))

/-- **The loop stops**: it comes to a name that is free. -/
theorem exists_stop (p : NamePolicy) (limit : Int) (base : String) (used : List String) :
    ∃ s, Run p limit base used s ∧ s.name ∉ used := by
  by_cases hbase : base ∈ used
  · obtain ⟨n, hlow, -, hfree, hleast⟩ :=
      firstFree_spec used (fun n => p.numbered limit base n)
      (searchBound used.length) 2 (exists_free_number p limit base used)
    obtain ⟨k, rfl⟩ := Nat.exists_eq_add_of_le' hlow
    exact ⟨_, run_numbered hbase k hleast, hfree⟩
  · exact ⟨start base, .refl, hbase⟩

/-- **No run goes on for ever.** -/
theorem not_endless (run : Nat → Search) (hstart : run 0 = start base) :
    ¬ ∀ i, Turn p limit base used (run i) (run (i + 1)) := by
  intro hturns
  -- in an endless run every number comes, and its name is used
  have hindex : ∀ i, (run (i + 1)).index = i + 2 ∧
      (run (i + 1)).name = p.numbered limit base ((i + 2 : Nat) : Int) := by
    intro i
    induction i with
    | zero =>
      have hturn := hturns 0
      rw [hstart] at hturn
      generalize run (0 + 1) = t at hturn
      obtain ⟨-⟩ := hturn
      exact ⟨rfl, rfl⟩
    | succ i ih =>
      have hturn := hturns (i + 1)
      generalize run (i + 1 + 1) = t at hturn
      obtain ⟨-⟩ := hturn
      rw [ih.1]
      exact ⟨rfl, rfl⟩
  have htaken : ∀ i, (run i).name ∈ used := by
    intro i
    have hturn := hturns i
    generalize run (i + 1) = t at hturn
    obtain ⟨htaken⟩ := hturn
    exact htaken
  obtain ⟨n, hlow, -, hfree⟩ := exists_free_number p limit base used
  obtain ⟨i, rfl⟩ := Nat.exists_eq_add_of_le' hlow
  exact hfree ((hindex i).2 ▸ htaken (i + 1))

end Run
end Search

/-- **The search ends with the least free number.**  Where names have a length, whatever it is, and
    whatever stands between a name and its number, the loop stops, and no run of it goes on for
    ever.  The name at which it stops is the one that is given, it was not in use and is from now
    on.  It is the sanitized stem if that was free, and otherwise the stem with the least number
    from two on whose name was free. -/
theorem search_least (a : NameAllocator) (limit : Int) (hlimit : a.policy.maxLength = some limit)
    (stem : String) :
    (∃ s, Search.Run a.policy limit (a.policy.sanitize stem) a.used s ∧ s.name ∉ a.used) ∧
    (∀ run : Nat → Search, run 0 = Search.start (a.policy.sanitize stem) →
      ¬ ∀ i,
        Search.Turn a.policy limit (a.policy.sanitize stem) a.used (run i) (run (i + 1))) ∧
    ∀ s, Search.Run a.policy limit (a.policy.sanitize stem) a.used s → s.name ∉ a.used →
      a.reserve stem = .ok (s.name, { a with used := a.used ++ [s.name] }) ∧
      (a.policy.sanitize stem ∉ a.used → s.name = a.policy.sanitize stem) ∧
      (a.policy.sanitize stem ∈ a.used → 2 ≤ s.index ∧
        s.index ≤ 2 + searchBound a.used.length ∧
        a.policy.withSuffix? (a.policy.sanitize stem) s.index = some s.name ∧
        ∀ m : Nat, 2 ≤ m → m < s.index → ∃ taken,
          a.policy.withSuffix? (a.policy.sanitize stem) m = some taken ∧ taken ∈ a.used) := by
  refine ⟨Search.exists_stop .., fun run hstart => Search.not_endless run hstart,
    fun s hrun hfree => ?_⟩
  have htried := Search.Tried.run hrun
  have hsuffix : ∀ m : Int, a.policy.withSuffix? (a.policy.sanitize stem) m =
      some (a.policy.numbered limit (a.policy.sanitize stem) m) := by
    intro m
    rw [NamePolicy.withSuffix?, hlimit]
    rfl
  -- The loop is entered only if the name itself is taken.
  by_cases hbase : a.policy.sanitize stem ∈ a.used
  · obtain ⟨hfound, hbound⟩ := htried.found hfree hbase
    refine ⟨?_, fun hnot => absurd hbase hnot, fun _ => ?_⟩
    · rw [NameAllocator.reserve, freeName, if_pos hbase, hlimit]
      simp only [hfound]
      rfl
    · rcases htried with rfl | ⟨hindex, hname, -, hbefore⟩
      · exact absurd hbase hfree
      · exact ⟨hindex, hbound, hname ▸ hsuffix s.index,
          fun m hm hlt => ⟨_, hsuffix m, hbefore m hm hlt⟩⟩
  · rcases htried with rfl | ⟨-, -, hused, -⟩
    · refine ⟨?_, fun _ => rfl, fun hused => absurd hused hbase⟩
      rw [NameAllocator.reserve, freeName, if_neg hbase]
      rfl
    · exact absurd hused hbase

/-- Names of a negative length give way to their numbers; these stand behind a digit. -/
def crampedNames : NameAllocator where
  policy := { maxLength := some (-3), delimiter := "-1" }
  used := ["id", "-12", "a"]

/-- There the search passes over the stem and the number two, and stops at the number three. -/
theorem crampedNames_least :
    crampedNames.policy.maxLength = some (-3) ∧ crampedNames.policy.sanitize "Ab" = "id" ∧
    crampedNames.reserve "Ab" =
      .ok ("-13", { crampedNames with used := crampedNames.used ++ ["-13"] }) := by
  have hbase : crampedNames.policy.sanitize "Ab" = "id" := by decide +kernel
  have htwo : crampedNames.policy.withSuffix? "id" (2 : Nat) = some "-12" := by decide +kernel
  have hthree : crampedNames.policy.withSuffix? "id" (3 : Nat) = some "-13" := by decide +kernel
  obtain ⟨⟨s, hrun, hfree⟩, -, hstops⟩ := search_least crampedNames (-3) rfl "Ab"
  obtain ⟨hreserve, -, hnumbered⟩ := hstops s hrun hfree
  rw [hbase] at hnumbered
  obtain ⟨hindex, -, hname, hbefore⟩ := hnumbered (by decide)
  -- the number two is used, and the number three is not
  have hnot : s.index ≠ 2 := by
    intro heq
    rw [heq, htwo] at hname
    rw [← Option.some.inj hname] at hfree
    exact hfree (by decide)
  have hlate : ¬ 3 < s.index := by
    intro hlt
    obtain ⟨taken, htaken, hused⟩ := hbefore 3 (by omega) hlt
    rw [hthree] at htaken
    rw [← Option.some.inj htaken] at hused
    revert hused
    decide
  have hfound : s.index = 3 := by omega
  rw [hfound, hthree] at hname
  rw [← Option.some.inj hname] at hreserve
  exact ⟨rfl, hbase, hreserve⟩

end PipelineCompiler
