import Mathlib.Logic.Relation
import PipelineCompiler.Proofs.Argo.Closure
import PipelineCompiler.Proofs.Argo.Run

namespace PipelineCompiler.Argo

/-!
# What tasks wait for

The dependencies of a task are read off the texts of its bindings, whoever wrote these.

* `Mentions`, `mentions_of_mem_scanTasks` — the tasks that a text mentions;
* `scanTasks_text` — references mention the tasks that they refer to;
* `Awaits` — a task waits for earlier tasks, and for those that a text given to it mentions;
* `Run.Tasks.inOrder`, `blueprint_inOrder` — tasks are added behind those that they wait for;
* `compile_awaits` — so it is in every workflow, and nothing is waited for in a circle when no
  text that is written down mentions a task;
* `selfishPipeline_not_ordered` — with such a text a task may wait for itself.
-/

open Relation

/-! ### Tasks that a text mentions -/

/-- A reference to an output of a task begins somewhere in a text. -/
def Mentions (text name : String) : Prop :=
  taskOpening ++ (name.toList ++ taskClosing) <:+: text.toList

/-- What stands before the first point. -/
theorem span_point {name : List Char} (h : '.' ∉ name) (rest : List Char) :
    (name ++ '.' :: rest).takeWhile (· != '.') = name ∧
      (name ++ '.' :: rest).dropWhile (· != '.') = '.' :: rest := by
  induction name with
  | nil => simp
  | cons c name ih =>
    rw [List.mem_cons, not_or] at h
    have hc : (c != '.') = true := by simpa using fun heq => h.1 heq.symm
    obtain ⟨htake, hdrop⟩ := ih h.2
    simp only [List.cons_append, List.takeWhile_cons, List.dropWhile_cons, hc, htake, hdrop,
      if_true, and_self]

/-- How a reference begins, in front of the name. -/
theorem taskOpening_eq : taskOpening = '\x7b' :: '\x7b' :: ['t', 'a', 's', 'k', 's', '.'] := rfl

/-- What follows the name begins with a point. -/
theorem taskClosing_eq : taskClosing = '.' :: ['o', 'u', 't', 'p', 'u', 't', 's', '.'] := rfl

/-- A text begins with a reference to a task: the name is not empty and has no points. -/
theorem leadingTask?_eq_some {cs name : List Char} :
    leadingTask? cs = some name ↔
      name ≠ [] ∧ '.' ∉ name ∧
        ∃ rest, cs = taskOpening ++ (name ++ (taskClosing ++ rest)) := by
  unfold leadingTask?
  simp only [Option.bind_eq_bind, Option.bind_eq_some_iff]
  constructor
  · rintro ⟨rest, hrest, after, hafter, h⟩
    split at h
    next => cases h
    next hne =>
      obtain rfl := Option.some.inj h
      refine ⟨fun hnil => hne (by rw [hnil]; rfl), fun hmem => ?_, after, ?_⟩
      · have hpoint := List.all_eq_true.mp List.all_takeWhile _ hmem
        simp at hpoint
      · rw [eq_append_of_dropStart? hrest, ← eq_append_of_dropStart? hafter,
          List.takeWhile_append_dropWhile]
  -- the name ends at the first point, which is where the closing begins
  · rintro ⟨hne, hpoint, rest, rfl⟩
    obtain ⟨htake, hdrop⟩ := span_point hpoint (taskClosing.tail ++ rest)
    have hclosing : taskClosing ++ rest = '.' :: (taskClosing.tail ++ rest) := rfl
    refine ⟨_, dropStart?_append _ _, rest, ?_, ?_⟩
    · rw [hclosing, hdrop, ← hclosing, dropStart?_append]
    · rw [hclosing, htake, if_neg (by simpa using hne)]

/-- Every name that is found stands in a reference. -/
theorem infix_of_mem_scanTasks {cs : List Char} {skip : Nat} {name : String}
    (h : name ∈ scanTasks skip cs) : taskOpening ++ (name.toList ++ taskClosing) <:+: cs := by
  induction cs generalizing skip with
  | nil =>
    rw [scanTasks] at h
    cases h
  | cons c rest ih =>
    -- whatever is found further on stands in the longer text as well
    have hrest : ∀ {skip}, name ∈ scanTasks skip rest →
        taskOpening ++ (name.toList ++ taskClosing) <:+: c :: rest :=
      fun hmem => (ih hmem).trans (List.suffix_cons c rest).isInfix
    cases skip with
    | succ skip => exact hrest h
    | zero =>
      rw [scanTasks] at h
      split at h
      next found hfound =>
        rcases List.mem_cons.mp h with rfl | h
        · obtain ⟨-, -, after, heq⟩ := leadingTask?_eq_some.mp hfound
          rw [heq, String.toList_ofList]
          exact ⟨[], after, by simp⟩
        · exact hrest h
      next => exact hrest h

/-- **The tasks that are found in a text are mentioned there.** -/
theorem mentions_of_mem_scanTasks {text name : String} (h : name ∈ scanTasks 0 text.toList) :
    Mentions text name := infix_of_mem_scanTasks h

/-- Nothing is found where no reference to a task begins. -/
theorem scanTasks_eq_nil {cs : List Char} (h : ¬ taskOpening <:+: cs) (skip : Nat) :
    scanTasks skip cs = [] := by
  refine List.eq_nil_iff_forall_not_mem.mpr fun name hname => h ?_
  exact (List.prefix_append _ _).isInfix.trans (infix_of_mem_scanTasks hname)

/-! ### References mention what they refer to -/

/-- Something to skip is skipped. -/
theorem scanTasks_append (skipped rest : List Char) :
    scanTasks skipped.length (skipped ++ rest) = scanTasks 0 rest := by
  induction skipped with
  | nil => rfl
  | cons c skipped ih => rw [List.cons_append, List.length_cons, scanTasks, ih]

/-- No reference begins where no brace opens. -/
theorem scanTasks_of_no_brace {cs : List Char} (h : '\x7b' ∉ cs) (skip : Nat) :
    scanTasks skip cs = [] :=
  scanTasks_eq_nil (fun hwithin => h (hwithin.subset (by decide))) skip

/-- The name of a parameter or artifact has no braces. -/
theorem sanitizeIoName_no_brace (s : String) : '\x7b' ∉ (sanitizeIoName s).toList := by
  unfold sanitizeIoName
  rw [String.toList_map]
  intro hmem
  obtain ⟨c, -, hc⟩ := List.mem_map.mp hmem
  split at hc
  next h =>
    rw [hc] at h
    exact absurd h (by decide)
  next => exact absurd hc (by decide)

/-- The tasks that a reference refers to: that of an output, and for a constant those that its text
    mentions. -/
def Reference.tasks : Reference → List String
  | .constant text => scanTasks 0 text.toList
  | .parameter _ | .artifact _ => []
  | .taskParameter task _ | .taskArtifact task _ => [task]

/-- References whose text mentions what they refer to: names of tasks have no points, and those of
    parameters and artifacts no braces. -/
def Reference.IsPlain : Reference → Prop
  | .constant _ => True
  | .parameter name | .artifact name => '\x7b' ∉ name.toList
  | .taskParameter task name | .taskArtifact task name =>
    task ≠ "" ∧ HasNoPoint task ∧ '\x7b' ∉ name.toList

/-- A text that begins with a reference to a task mentions that task, and what follows mentions. -/
theorem scanTasks_opening {name rest : List Char} (hne : name ≠ []) (hpoint : '.' ∉ name) :
    scanTasks 0 (taskOpening ++ (name ++ (taskClosing ++ rest)))
      = String.ofList name :: scanTasks 0 rest := by
  have hlead := leadingTask?_eq_some.mpr ⟨hne, hpoint, rest, rfl⟩
  -- the scan is at the first brace, and skips what is left of the reference
  have hlength : taskOpening.length + name.length + taskClosing.length - 1
      = (taskOpening.tail ++ (name ++ taskClosing)).length := by
    simp only [taskOpening_eq, taskClosing_eq, List.length_append, List.length_cons,
      List.length_nil, List.tail_cons]
    omega
  have hcons : taskOpening ++ (name ++ (taskClosing ++ rest))
      = '\x7b' :: ((taskOpening.tail ++ (name ++ taskClosing)) ++ rest) := by
    simp [taskOpening_eq]
  rw [hcons] at hlead ⊢
  rw [scanTasks, hlead]
  dsimp only
  rw [hlength, scanTasks_append]

/-- No reference begins at two braces with another character than a `t` behind them. -/
theorem scanTasks_braces {c : Char} {rest : List Char} (hc : c ≠ 't')
    (hrest : '\x7b' ∉ c :: rest) :
    scanTasks 0 ('\x7b' :: '\x7b' :: c :: rest) = [] := by
  refine scanTasks_eq_nil (fun hwithin => ?_) 0
  rw [taskOpening_eq, List.infix_cons_iff, List.infix_cons_iff] at hwithin
  rcases hwithin with hstart | hstart | hwithin
  · simp only [List.cons_prefix_cons, true_and] at hstart
    exact hc hstart.1.symm
  · simp only [List.cons_prefix_cons, true_and] at hstart
    exact hrest (hstart.1 ▸ List.mem_cons_self)
  · exact hrest (hwithin.subset List.mem_cons_self)

/-- The texts of references, as far as it matters which tasks they mention. -/
theorem toList_text {r : Reference} : match r with
    | .constant text => r.text.toList = text.toList
    | .parameter name => r.text.toList = '\x7b' :: '\x7b' :: 'i' ::
        ("nputs.parameters.".toList ++ (name.toList ++ "\x7d\x7d".toList))
    | .artifact name => r.text.toList = '\x7b' :: '\x7b' :: 'i' ::
        ("nputs.artifacts.".toList ++ (name.toList ++ "\x7d\x7d".toList))
    | .taskParameter task name => r.text.toList = taskOpening ++ (task.toList ++ (taskClosing ++
        ("parameters.".toList ++ (name.toList ++ "\x7d\x7d".toList))))
    | .taskArtifact task name => r.text.toList = taskOpening ++ (task.toList ++ (taskClosing ++
        ("artifacts.".toList ++ (name.toList ++ "\x7d\x7d".toList)))) := by
  have hshown : ∀ s : String, toString s = s := fun _ => rfl
  cases r with
  | constant text => rfl
  | parameter name | artifact name | taskParameter task name | taskArtifact task name =>
    simp only [Reference.text, braced, hshown, String.toList_append, List.append_assoc]
    rfl

/-- **References mention the tasks that they refer to**, and no others. -/
theorem scanTasks_text {r : Reference} (h : r.IsPlain) : scanTasks 0 r.text.toList = r.tasks := by
  -- nothing begins behind the opening of a reference
  have hbraces : ∀ {start name : List Char}, '\x7b' ∉ start → '\x7b' ∉ name →
      '\x7b' ∉ start ++ (name ++ "\x7d\x7d".toList) := by
    intro start name hstart hname hmem
    rcases List.mem_append.mp hmem with hmem | hmem
    · exact hstart hmem
    · rcases List.mem_append.mp hmem with hmem | hmem
      · exact hname hmem
      · exact absurd hmem (by decide)
  have htext := @toList_text r
  cases r with
  | constant text => rfl
  | parameter name | artifact name =>
    rw [htext]
    refine scanTasks_braces (by decide) fun hmem => ?_
    rcases List.mem_cons.mp hmem with hmem | hmem
    · exact absurd hmem (by decide)
    · exact hbraces (by decide) h hmem
  | taskParameter task name | taskArtifact task name =>
    have hne : task.toList ≠ [] := fun hnil => h.1 (String.toList_inj.mp hnil)
    rw [htext, scanTasks_opening hne h.2.1, String.ofList_toList,
      scanTasks_of_no_brace (hbraces (by decide) h.2.2)]
    rfl

/-! ### Tasks that wait for earlier tasks -/

/-- What a task waits for are tasks before it, or a text that it is given mentions them. -/
def Awaits (written : String → Prop) (earlier : Keyed DagTask) (entry : String × DagTask) :
    Prop :=
  ∀ name ∈ entry.2.dependencies, name ∈ Keyed.keys earlier ∨
    ∃ text, .constant text ∈ entry.2.references ∧ written text ∧ Mentions text name

/-- The dependencies in a template.  A task has a list of them in its document exactly when it waits
    for something; the list ascends; and it names earlier tasks, or tasks that a text mentions
    which is given to the task and written down in the pipeline. -/
structure Template.Awaited (written : String → Prop) (t : Template) : Prop where
  nodup : (Keyed.keys t.tasks).Nodup
  listed : ∀ entry ∈ t.tasks, ∀ v, ("dependencies", v) ∈ entry.2.fields ↔
    entry.2.dependencies ≠ [] ∧ v = .ofTexts entry.2.dependencies
  ascending : ∀ entry ∈ t.tasks,
    entry.2.dependencies.Pairwise fun s t => Text.codes s < Text.codes t
  awaits : Chained (Awaits written) t.tasks

/-- A task has a list of dependencies in its document when it has any. -/
theorem mem_fields_dependencies (task : DagTask) (v : Value) :
    ("dependencies", v) ∈ task.fields ↔
      task.dependencies ≠ [] ∧ v = .ofTexts task.dependencies := by
  unfold DagTask.fields
  cases hdependencies : task.dependencies with
  | nil => simp
  | cons name rest => simp

/-- Where the tasks wait for earlier tasks, the template is as it has to be. -/
theorem Template.awaited {written : String → Prop} {t : Template}
    (hnodup : (Keyed.keys t.tasks).Nodup) (h : Chained (Awaits written) t.tasks) :
    t.Awaited written :=
  ⟨hnodup, fun entry _ => mem_fields_dependencies entry.2,
    fun _ _ => sortedTexts_sorted _, h⟩

/-- So it is where there are no tasks. -/
theorem Template.awaited_of_no_tasks {written : String → Prop} {t : Template} (h : t.tasks = []) :
    t.Awaited written := by
  refine Template.awaited ?_ ?_
  · rw [h]
    exact List.nodup_nil
  · rw [h]
    exact chained_nil _

/-- A reference is plain, and what it mentions is one of some tasks, or it is a text that is
    written down. -/
structure Knows (written : String → Prop) (tasks : Keyed DagTask) (reference : Reference) :
    Prop where
  plain : reference.IsPlain
  known : ∀ name ∈ reference.tasks, name ∈ Keyed.keys tasks ∨
    ∃ text, reference = .constant text ∧ written text

variable {P : String → Prop} {s : Settings} {written : String → Prop}

/-- The dependencies of a task are the tasks that its references mention. -/
theorem mem_dependencies {task : DagTask} {name : String} :
    name ∈ task.dependencies ↔
      ∃ reference ∈ task.references, name ∈ scanTasks 0 reference.text.toList := by
  unfold DagTask.dependencies referencedTasks DagTask.texts DagTask.references
  rw [mem_sortedTexts, List.mem_flatMap]
  constructor
  · rintro ⟨text, htext, hscan⟩
    obtain ⟨binding, hbinding, rfl⟩ := List.mem_map.mp htext
    exact ⟨binding.2, List.mem_map_of_mem hbinding, hscan⟩
  · rintro ⟨reference, hreference, hscan⟩
    obtain ⟨binding, hbinding, rfl⟩ := List.mem_map.mp hreference
    exact ⟨binding.2.text, List.mem_map.mpr ⟨binding, hbinding, rfl⟩, hscan⟩

/-- A task waits for what its references know. -/
theorem awaits_of_knows {tasks : Keyed DagTask} {entry : String × DagTask}
    (h : ∀ reference ∈ entry.2.references, Knows written tasks reference) :
    Awaits written tasks entry := by
  intro name hname
  obtain ⟨reference, hmem, hscan⟩ := mem_dependencies.mp hname
  have hknows := h reference hmem
  rw [scanTasks_text hknows.plain] at hscan
  rcases hknows.known name hscan with hkey | ⟨text, rfl, hwritten⟩
  · exact .inl hkey
  · exact .inr ⟨text, hmem, hwritten, mentions_of_mem_scanTasks hscan⟩

/-- Tasks that were added change nothing for a reference. -/
theorem Knows.mono {tasks tasks' : Keyed DagTask} (hw : Keyed.Within tasks tasks')
    {reference : Reference} (h : Knows written tasks reference) :
    Knows written tasks' reference where
  plain := h.plain
  known := by
    intro name hname
    refine (h.known name hname).imp_left fun hkey => ?_
    obtain ⟨task, htask⟩ := Keyed.exists_find?_of_mem_keys hkey
    exact Keyed.mem_keys_of_find? (hw _ _ htask)

/-- In all templates, and in the graph at hand, tasks wait for earlier tasks. -/
structure Draft.InOrder (written : String → Prop) (d : Draft) : Prop where
  templates : ∀ entry ∈ d.templates.entries, entry.2.Awaited written
  tasks : Chained (Awaits written) d.scope.tasks.entries

variable {d d' : Draft} {done : List String} {reference : Reference}

/-- A name that a task has can be mentioned. -/
theorem Draft.Named.plain (h : d.Named P done) {task name : String}
    (htask : task ∈ Keyed.keys d.scope.tasks.entries) (hname : '\x7b' ∉ name.toList) :
    (Reference.taskArtifact task name).IsPlain ∧ (Reference.taskParameter task name).IsPlain := by
  have hused := h.tasks.used task htask
  have hplain : task ≠ "" ∧ HasNoPoint task ∧ '\x7b' ∉ name.toList :=
    ⟨fun heq => h.nonempty (heq ▸ hused),
      hasNoPoint_of_legal (h.tasks.legal task hused), hname⟩
  exact ⟨hplain, hplain⟩

/-- A reference to a task that has been placed. -/
theorem Draft.Named.knows (h : d.Named P done) {task name : String}
    (htask : task ∈ Keyed.keys d.scope.tasks.entries) (hname : '\x7b' ∉ name.toList) :
    Knows written d.scope.tasks.entries (.taskArtifact task name) ∧
      Knows written d.scope.tasks.entries (.taskParameter task name) := by
  have hknown : ∀ n ∈ [task], n ∈ Keyed.keys d.scope.tasks.entries :=
    fun n hn => List.mem_singleton.mp hn ▸ htask
  exact ⟨⟨(h.plain htask hname).1, fun n hn => .inl (hknown n hn)⟩,
    ⟨(h.plain htask hname).2, fun n hn => .inl (hknown n hn)⟩⟩

/-- A reference to an input of the graph mentions no task. -/
theorem knows_input (tasks : Keyed DagTask) (name : String) :
    Knows written tasks (.parameter (sanitizeIoName name)) ∧
      Knows written tasks (.artifact (sanitizeIoName name)) :=
  ⟨⟨sanitizeIoName_no_brace name, fun _ h => nomatch h⟩,
    ⟨sanitizeIoName_no_brace name, fun _ h => nomatch h⟩⟩

/-- A template that is stored is as the others have to be. -/
theorem awaited_of_stored {templates templates' : Registry Template} {t : Template} {name : String}
    (h : Registry.Stored P Template.record templates t name templates')
    (ht : t.Awaited written) (hold : ∀ entry ∈ templates.entries, entry.2.Awaited written) :
    ∀ entry ∈ templates'.entries, entry.2.Awaited written := by
  intro entry hentry
  rcases h.appended with ⟨heq, -⟩ | ⟨-, heq, -⟩
  · exact hold entry (heq ▸ hentry)
  · rw [heq, List.mem_append, List.mem_singleton] at hentry
    rcases hentry with hentry | rfl
    · exact hold entry hentry
    · exact ht

/-- The template that converts artifacts has no tasks. -/
theorem conversionTemplate_tasks {t : Template} (h : conversionTemplate s = .ok t) :
    t.tasks = [] := by
  obtain ⟨input, -, h⟩ := bind_eq_ok.mp h
  obtain ⟨output, -, h⟩ := bind_eq_ok.mp h
  obtain ⟨image, -, h⟩ := bind_eq_ok.mp h
  rw [← pure_eq_ok.mp h]
  rfl

/-- **A conversion** stands behind the task whose output it converts. -/
theorem Run.Conversion.inOrder {source : Reference} {name : String}
    (h : Run.Conversion P s d source name d') (hnamed : d.Named P done)
    (hsource : Knows written d.scope.tasks.entries source) (hordered : d.InOrder written) :
    d'.InOrder written ∧
      Knows written d'.scope.tasks.entries (.taskParameter name conversionOutput) := by
  have hnamed' := (h.named hnamed).1
  obtain ⟨t, template, templates, tasks, ht, htemplate, htask, rfl⟩ := h.exists_interned
  have hstored := htask.stored hnamed.tasks
  refine ⟨⟨awaited_of_stored (htemplate.stored hnamed.templates)
      (Template.awaited_of_no_tasks (conversionTemplate_tasks ht)) hordered.templates, ?_⟩,
    (hnamed'.knows hstored.listed (by decide)).2⟩
  show Chained (Awaits written) tasks.entries
  -- The conversion may be there already; otherwise it is put behind all tasks, and so behind the
  -- one that it waits for.
  rcases hstored.appended with ⟨heq, -⟩ | ⟨-, heq, -⟩
  · rw [heq]
    exact hordered.tasks
  · rw [heq]
    refine hordered.tasks.concat (awaits_of_knows fun r hr => ?_)
    obtain rfl : r = source := by
      simpa [DagTask.references, DagTask.parameters, DagTask.artifacts] using hr
    exact hsource

/-- What an argument may refer to when some tasks are compiled. -/
def Allowed (written : String → Prop) (done : List String) : Argument → Prop
  | .literal text => written text
  | .graphInput _ _ => True
  | .taskOutput source => source.task ∈ done

/-- A task that something is gotten from has been placed. -/
theorem Draft.Named.found (h : d.Named P done) {id name : String} (hid : id ∈ done)
    (hname : Keyed.find? d.scope.taskNames id = some name) :
    name ∈ Keyed.keys d.scope.tasks.entries := by
  obtain ⟨other, hother, hmem⟩ := h.placed id hid
  rwa [Option.some.inj (hname.symm.trans hother)]

/-- **A binding** refers to what has been placed. -/
theorem Run.Value.inOrder {argument : Argument} (h : Run.Value P s d argument reference d')
    (hallowed : Allowed written done argument) (hnamed : d.Named P done)
    (hordered : d.InOrder written) :
    d'.InOrder written ∧ Knows written d'.scope.tasks.entries reference := by
  cases h with
  | constant text => exact ⟨hordered, trivial, fun _ _ => .inr ⟨text, rfl, hallowed⟩⟩
  | @input name => exact ⟨⟨hordered.templates, hordered.tasks⟩, (knows_input _ name).1⟩
  | @convertedInput name _ _ _ _ converted =>
    exact converted.inOrder (hnamed.use _ _) (knows_input _ name).2
      ⟨hordered.templates, hordered.tasks⟩
  | @convertedOutput source _ _ _ found converted =>
    have hknown := hnamed.found hallowed found
    exact converted.inOrder hnamed
      (hnamed.knows hknown (sanitizeIoName_no_brace source.output)).1 hordered

/-- A binding of a file refers to what has been placed. -/
theorem Draft.BindsFile.inOrder {argument : Argument} (h : d.BindsFile argument reference d')
    (hallowed : Allowed written done argument) (hnamed : d.Named P done)
    (hordered : d.InOrder written) :
    d'.InOrder written ∧ Knows written d'.scope.tasks.entries reference := by
  cases h with
  | @input name => exact ⟨⟨hordered.templates, hordered.tasks⟩, (knows_input _ name).2⟩
  | @output source _ found =>
    exact ⟨hordered,
      (hnamed.knows (hnamed.found hallowed found) (sanitizeIoName_no_brace source.output)).1⟩

/-- The bindings of a task refer to what has been placed, if each of them does. -/
theorem Draft.BindsAll.inOrder {binds : Draft → Argument → Reference → Draft → Prop}
    (hnames : ∀ d argument reference d', binds d argument reference d' → d.Named P done →
      d'.Named P done ∧ d.Grows d')
    (hbinds : ∀ d argument reference d', binds d argument reference d' →
      Allowed written done argument → d.Named P done → d.InOrder written →
        d'.InOrder written ∧ Knows written d'.scope.tasks.entries reference)
    {b : Binder} {names : List String} {bindings : List (String × Reference)}
    (hallowed : ∀ name ∈ b.component.inputNames,
      Allowed written done (b.component.argumentFor b.arguments name))
    (h : Draft.BindsAll binds b d names bindings d') (hnamed : d.Named P done)
    (hordered : d.InOrder written) :
    d'.InOrder written ∧
      ∀ binding ∈ bindings, Knows written d'.scope.tasks.entries binding.2 := by
  -- By induction on the bindings.  What the first one refers to stays known while the others are
  -- added, since tasks are only added.
  induction h with
  | nil => exact ⟨hordered, fun _ hbinding => nomatch hbinding⟩
  | @cons d d₁ d₂ name _ _ _ declared first rest _ ih =>
    obtain ⟨hnamed₁, -⟩ := hnames _ _ _ _ first hnamed
    obtain ⟨hordered₁, hfirst⟩ :=
      hbinds _ _ _ _ first (hallowed name declared) hnamed hordered
    obtain ⟨hordered₂, hrest⟩ := ih hnamed₁ hordered₁
    obtain ⟨-, hgrows⟩ := rest.named hnames hnamed₁
    refine ⟨hordered₂, fun binding hbinding => ?_⟩
    rcases List.mem_cons.mp hbinding with rfl | hbinding
    · exact hfirst.mono hgrows.tasks.within
    · exact hrest binding hbinding

/-- **A task** stands behind the tasks that it waits for. -/
theorem Run.Task.inOrder {id : String} {b : Binder} {blueprint : Blueprint}
    (h : Run.Task P s id b blueprint d d')
    (hallowed : ∀ name ∈ b.component.inputNames,
      Allowed written done (b.component.argumentFor b.arguments name))
    (htemplate : blueprint.template.Awaited written) (hnamed : d.Named P done) (hid : id ∉ done)
    (hordered : d.InOrder written) : d'.InOrder written := by
  cases h with
  | @intro template name templates d₁ d₂ parameters artifacts interned values files named =>
    have ht := interned.stored hnamed.templates
    have hnamed₀ := hnamed.withTemplates ht.sound
    obtain ⟨hnamed₁, -⟩ := values.named (fun _ _ _ _ hbinds => hbinds.named) hnamed₀
    obtain ⟨hordered₁, hparameters⟩ := values.inOrder (fun _ _ _ _ hbinds => hbinds.named)
      (fun _ _ _ _ hbinds => hbinds.inOrder) hallowed hnamed₀
      ⟨awaited_of_stored ht htemplate hordered.templates, hordered.tasks⟩
    obtain ⟨hnamed₂, hgrows₂⟩ := files.named (fun _ _ _ _ hbinds => hbinds.named) hnamed₁
    obtain ⟨hordered₂, hartifacts⟩ := files.inOrder (fun _ _ _ _ hbinds => hbinds.named)
      (fun _ _ _ _ hbinds => hbinds.inOrder) hallowed hnamed₁ hordered₁
    refine ⟨hordered₂.templates, ?_⟩
    -- the task comes last, behind the conversions that were added for its bindings
    show Chained (Awaits written) (d₂.scope.tasks.define name _).entries
    rw [Registry.define_entries (hnamed₂.isNew named hid)]
    refine hordered₂.tasks.concat (awaits_of_knows fun r hr => ?_)
    obtain ⟨binding, hbinding, rfl⟩ := List.mem_map.mp hr
    rcases List.mem_append.mp hbinding with hbinding | hbinding
    · exact (hparameters binding hbinding).mono hgrows₂.tasks.within
    · exact hartifacts binding hbinding

/-- A component in whose templates tasks wait for earlier tasks. -/
def CompilesInOrder (P : String → Prop) (s : Settings)
    (written : String → Prop) (c : Component) :
    Prop :=
  ∀ arguments kinds path templates blueprint templates', templates.Sound P Template.record →
    (∀ entry ∈ templates.entries, entry.2.Awaited written) →
      (componentBlueprint s arguments kinds path templates c).Yields P (blueprint, templates') →
        (∀ entry ∈ templates'.entries, entry.2.Awaited written) ∧
          blueprint.template.Awaited written

/-- **The tasks of a graph** stand behind the tasks that they wait for. -/
theorem Run.Tasks.inOrder {g : Graph} {order : List String}
    (h : Run.Tasks P s g.tasks order d d')
    (hinner : ∀ id task inner, g.task? id = some task → task.reference.spec = some inner →
      CompilesInOrder P s written inner ∧ ∀ name ∈ inner.inputNames, ∀ text,
        inner.argumentFor task.arguments name = .literal text → written text)
    (hbefore : Chained (fun earlier id => ∀ task, g.task? id = some task →
      ∀ p ∈ task.producers, p ∈ earlier) (done ++ order))
    (hnodup : (done ++ order).Nodup) (hnamed : d.Named P done) (hordered : d.InOrder written) :
    d'.InOrder written := by
  induction h generalizing done with
  | nil => exact hordered
  | @cons d d₁ d₂ id rest task component kinds blueprint templates found spec _
      made added _ ih =>
    have hid : id ∉ done := fun hmem =>
      (List.nodup_append.mp hnodup).2.2 id hmem id List.mem_cons_self rfl
    obtain ⟨hcompiles, hliterals⟩ := hinner id task component found spec
    obtain ⟨htemplates, htemplate⟩ :=
      hcompiles _ _ _ _ _ _ hnamed.templates hordered.templates made
    have hnamed₀ :=
      hnamed.withTemplates (blueprint_stores component _ _ _ _ _ _ hnamed.templates made).1
    obtain ⟨hnamed₁, -⟩ := added.named hnamed₀ hid
    refine ih (by simpa using hbefore) (by simpa using hnodup) hnamed₁
      (added.inOrder (fun name hname => ?_) htemplate hnamed₀ hid ⟨htemplates,
        hordered.tasks⟩)
    -- an output of a task is one of a producer, which comes before in the order
    cases hargument : component.argumentFor task.arguments name with
    | literal text => exact hliterals name hname text hargument
    | graphInput => trivial
    | taskOutput source =>
      obtain ⟨entry, hentry, heq⟩ := argumentFor_mem hargument fun _ h => nomatch h
      exact hbefore done id rest rfl task found source.task (mem_producers hentry heq)

/-- **Components, to any depth,** have tasks that wait for earlier ones, or for those that the texts
    written in them mention. -/
theorem blueprint_inOrder (c : Component) (hwritten : ∀ text, c.Writes text → written text) :
    CompilesInOrder P s written c := by
  induction c using Component.nesting with
  | container c container himpl =>
    intro arguments kinds path templates blueprint templates' ht hordered hyields
    obtain ⟨rfl, hmade⟩ := container_runs himpl hyields
    obtain ⟨line, -, -, -, houtline⟩ := containerBlueprint_spec hmade
    refine ⟨hordered, ?_⟩
    -- only graphs have templates with tasks
    cases htemplate : blueprint.template with
    | dag =>
      rw [htemplate] at houtline
      cases houtline
    | container | conversion => exact Template.awaited_of_no_tasks rfl
  | graph c g himpl ih =>
    intro arguments kinds path templates blueprint templates' ht hordered hyields
    obtain ⟨order, scope, d, horder, hscope, hrun, rfl, hmade⟩ := graph_run himpl hyields
    have hplanned := order_planned horder
    have hbefore : Chained (fun earlier id => ∀ task, g.task? id = some task →
        ∀ p ∈ task.producers, p ∈ earlier) ([] ++ order) := hplanned.before
    have hnodup : ([] ++ order).Nodup := hplanned.nodup
    have hstart : Draft.InOrder written { templates, scope } := by
      obtain ⟨names, a, -, rfl⟩ := start_eq hscope
      exact ⟨hordered, chained_nil _⟩
    have hnamed := Draft.named_start hscope ht
    have hend := hrun.inOrder (fun id task inner htask hspec =>
      ⟨ih _ (Keyed.mem_of_find? htask) inner hspec fun text htext =>
        hwritten text (htext.outward himpl htask hspec),
        fun name hname text htext =>
          hwritten text (writes_of_task himpl htask hspec hname htext)⟩)
      hbefore hnodup hnamed hstart
    obtain ⟨hnamed', -⟩ := hrun.named (fun _ _ _ _ => blueprint_stores _) hnodup hnamed
    obtain ⟨outputs, -, hmade⟩ := bind_eq_ok.mp hmade
    obtain rfl := pure_eq_ok.mp hmade
    exact ⟨hend.templates, Template.awaited hnamed'.tasks.nodup hend.tasks⟩

/-! ### Whole workflows -/

/-- A task of a template waits for another one. -/
def WaitsFor (tasks : Keyed DagTask) (name other : String) : Prop :=
  ∃ task, Keyed.find? tasks name = some task ∧ other ∈ task.dependencies

/-- What a task waits for stands before it. -/
def TasksOrdered (tasks : Keyed DagTask) : Prop :=
  Chained (fun earlier entry => ∀ name ∈ entry.2.dependencies,
    name ∈ Keyed.keys earlier) tasks

/-- What is waited for, directly or not, stands before whoever waits. -/
theorem TasksOrdered.before {tasks : Keyed DagTask} (h : TasksOrdered tasks) {name other : String}
    (hwaits : TransGen (WaitsFor tasks) name other) :
    ∃ earlier task later, tasks = earlier ++ (name, task) :: later ∧
      other ∈ Keyed.keys earlier := by
  induction hwaits with
  | single hwaits =>
    obtain ⟨task, htask, hmem⟩ := hwaits
    obtain ⟨earlier, later, heq⟩ := List.append_of_mem (Keyed.mem_of_find? htask)
    exact ⟨earlier, task, later, heq, h _ _ _ heq _ hmem⟩
  | @tail mid other _ hwaits ih =>
    obtain ⟨earlier, task, later, heq, hmid⟩ := ih
    obtain ⟨found, hfound, hmem⟩ := hwaits
    refine ⟨earlier, task, later, heq, ?_⟩
    -- the task in between stands before the first one, and so does what it waits for
    obtain ⟨first, hfirst⟩ := Keyed.exists_find?_of_mem_keys hmid
    rw [heq, Keyed.find?_append, hfirst, Option.some_or] at hfound
    obtain rfl := Option.some.inj hfound
    obtain ⟨before, after, hsplit⟩ := List.append_of_mem (Keyed.mem_of_find? hfirst)
    have hbefore :=
      h before (mid, first) (after ++ (name, task) :: later) (by rw [heq, hsplit]; simp)
      other hmem
    rw [hsplit, Keyed.keys_append]
    exact List.mem_append_left _ hbefore

/-- **Nothing is waited for in a circle.** -/
theorem TasksOrdered.acyclic {tasks : Keyed DagTask} (h : TasksOrdered tasks)
    (hnodup : (Keyed.keys tasks).Nodup) (name : String) :
    ¬ TransGen (WaitsFor tasks) name name := by
  intro hwaits
  obtain ⟨earlier, task, later, heq, hmem⟩ := h.before hwaits
  rw [heq, Keyed.keys_append, List.nodup_append] at hnodup
  exact hnodup.2.2 name hmem name List.mem_cons_self rfl

/-- Without a text that mentions a task, tasks wait for earlier tasks only. -/
theorem Template.Awaited.ordered {written : String → Prop} {t : Template} (h : t.Awaited written)
    (hnone : ∀ text name, written text → ¬ Mentions text name) : TasksOrdered t.tasks :=
  h.awaits.imp fun _ _ hawaits name hname => (hawaits name hname).resolve_right
    fun ⟨text, _, hwritten, hmentions⟩ => hnone text name hwritten hmentions

/-- **Dependencies in workflows.**  Whatever is compiled and whatever texts are written down in it,
    the dependencies of a task are listed when there are any, they ascend, and each of them is an
    earlier task of the same graph or a task that a literal or default mentions which the task is
    given.  So where no literal and no default mentions a task, tasks wait for earlier tasks only,
    and for none in a circle. -/
theorem compile_awaits (context : Context) (c : Component) (arguments : Keyed Value) (w : Workflow)
    (hok : (compile context c arguments).result = .ok w) :
    (∀ entry ∈ w.templates, entry.2.Awaited c.Writes) ∧
      ((∀ text name, c.Writes text → ¬ Mentions text name) → ∀ entry ∈ w.templates,
        TasksOrdered entry.2.tasks ∧
          ∀ name, ¬ TransGen (WaitsFor entry.2.tasks) name name) := by
  -- The invariants of the registry start with the empty one, and the templates and the entrypoint
  -- are put there in order.
  obtain ⟨s, blueprint, templates, templates', -, hblueprint, hinterned, hentries, -⟩ :=
    compile_interned (Recorded.yields_of_result hok)
  have hempty : (Registry.empty s.policy : Registry Template).Sound
      (· ∈ (compile context c arguments).digested) Template.record :=
    Registry.sound_empty (policy_delimiter_legal s)
  obtain ⟨htemplates, htemplate⟩ :=
    blueprint_inOrder c (fun _ htext => htext) _ _ _ _ _ _ hempty
    (fun _ hentry => nomatch hentry) hblueprint
  obtain ⟨hsound, -⟩ := blueprint_stores c _ _ _ _ _ _ hempty hblueprint
  have hall : ∀ entry ∈ w.templates, entry.2.Awaited c.Writes :=
    hentries ▸ awaited_of_stored (hinterned.stored hsound) htemplate htemplates
  -- Where nothing mentions a task, order alone excludes circles.
  refine ⟨hall, fun hnone entry hentry => ?_⟩
  have hordered := (hall entry hentry).ordered hnone
  exact ⟨hordered, hordered.acyclic (hall entry hentry).nodup⟩

/-- The dependencies in the workflow of the example. -/
theorem samplePipeline_awaits :
    ∃ w, (compile sampleContext samplePipeline []).result = .ok w ∧
      (∀ entry ∈ w.templates, entry.2.Awaited samplePipeline.Writes) ∧
      ((∀ text name, samplePipeline.Writes text → ¬ Mentions text name) →
        ∀ entry ∈ w.templates,
        TasksOrdered entry.2.tasks ∧
          ∀ name, ¬ TransGen (WaitsFor entry.2.tasks) name name) := by
  obtain ⟨w, hw⟩ := samplePipeline_result
  exact ⟨w, hw, compile_awaits sampleContext samplePipeline [] w hw⟩

/-! ### A task that waits for itself -/

/-- A pipeline whose only task is given a text that mentions the task itself. -/
def selfishPipeline : Component :=
  { implementation := .graph
      { tasks := [("t", sampleTask sampleConsumer
          [("x", .literal (Reference.taskParameter "t" "o").text)])]
        outputValues := [] }
    name := .str "c", description := .null, inputs := [], outputs := [], metadata := [] }

/-- **There is a workflow of this pipeline, and its task waits for itself.** -/
theorem selfishPipeline_not_ordered :
    ∃ w, (compile sampleContext selfishPipeline []).result = .ok w ∧
      ∃ entry ∈ w.templates, ¬ TasksOrdered entry.2.tasks ∧
        WaitsFor entry.2.tasks "t" "t" := by
  have hfound : ((compile sampleContext selfishPipeline []).result.toOption.map fun w =>
      w.templates.map fun entry => entry.2.tasks.map fun task => (task.1, task.2.dependencies))
        = some [[], [("t", ["t"])]] := by
    decide +kernel
  obtain ⟨w, hw, htasks⟩ := Option.map_eq_some_iff.mp hfound
  have hmem : [("t", ["t"])] ∈ w.templates.map fun entry =>
      entry.2.tasks.map fun task => (task.1, task.2.dependencies) := by
    rw [htasks]
    exact List.mem_cons_of_mem _ List.mem_cons_self
  obtain ⟨entry, hentry, heq⟩ := List.mem_map.mp hmem
  obtain ⟨⟨name, task⟩, htask, hpair⟩ := List.map_eq_singleton_iff.mp heq
  obtain ⟨rfl, hdependencies⟩ := Prod.mk.inj hpair
  have hself : WaitsFor entry.2.tasks "t" "t" :=
    ⟨task, by rw [htask]; rfl, by rw [hdependencies]; exact List.mem_cons_self⟩
  refine ⟨w, toOption_eq_some.mp hw, entry, hentry, fun hordered => ?_, hself⟩
  exact hordered.acyclic (by rw [htask]; exact List.nodup_singleton _) "t" (.single hself)

end PipelineCompiler.Argo
