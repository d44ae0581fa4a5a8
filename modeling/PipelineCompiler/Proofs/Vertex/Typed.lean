import PipelineCompiler.Proofs.Vertex.Conversions

namespace PipelineCompiler.Vertex

/-!
# Types of converted parameters

A conversion declares that its parameter is a text.  What it is bound to is a text as well when it
is a constant; an input of the pipeline has the type that the pipeline declares for it.

* `Job.boundType?`, `Job.IsTypeCorrect` — the type of what a parameter is bound to, and the tasks
  whose parameters all have the types that their components declare;
* `PipelineCompiled.conversion_types` — what conversions declare and what they are bound to;
* `job_conversionTypes` — a conversion is type-correct unless it converts an input of the pipeline
  that is a number;
* `integerPipeline_mistyped` — the conversion of a whole number is not.
-/

/-! ### Types of parameters -/

/-- The type of a constant. -/
def Constant.type : Constant → PrimitiveType
  | .string _ => .string
  | .int _ => .int
  | .double _ => .double

/-- The type of what a parameter of a task is bound to.  Outputs of tasks are artifacts. -/
def Job.boundType? (j : Job) : ParameterSource → Option PrimitiveType
  | .constant value => some value.type
  | .pipelineInput name => Keyed.find? j.root.parameters name
  | .taskOutput _ _ => none

/-- The parameters of a task are those that its component declares, and each is bound to something
    of the declared type. -/
def Job.IsTypeCorrect (j : Job) (task : JobTask) : Prop :=
  ∃ component, Keyed.find? j.components task.component = some component ∧
    List.Forall₂ (fun declared bound => bound.1 = declared.1 ∧
      j.boundType? bound.2 = some declared.2) component.parameters task.parameters

/-- The declared types that stand for numbers. -/
def IsNumeric (declared : Value) : Prop :=
  ∃ text, declared = .str text ∧ Text.lower text ∈ ["integer", "float", "double"]

/-- Everything else stands for a text. -/
theorem ofType_eq_string {declared : Value} :
    PrimitiveType.ofType declared = .string ↔ ¬ IsNumeric declared := by
  cases declared with
  | str text =>
    unfold PrimitiveType.ofType IsNumeric
    dsimp only
    -- Names of numeric types are compared in lower case.
    split
    next h => simp [eq_of_beq h]
    next hinteger =>
      split
      next h =>
        rcases Bool.or_eq_true_iff.mp h with h | h
        · simp [eq_of_beq h]
        · simp [eq_of_beq h]
      next hreal =>
        have hnot : Text.lower text ∉ ["integer", "float", "double"] := by
          simpa [not_or] using And.intro hinteger hreal
        simpa using hnot
  | _ => simp [PrimitiveType.ofType, IsNumeric]

/-- The type under the name of an input that is listed. -/
theorem find?_declaredTypes {c : Component} {names : List String} {name : String}
    (h : name ∈ names) : Keyed.find? (declaredTypes c names) name =
      some (PrimitiveType.ofType (typeOf c name)) := by
  induction names with
  | nil => cases h
  | cons first rest ih =>
    rw [declaredTypes, List.map_cons, Keyed.find?]
    split
    next heq => rw [heq]
    next hne =>
      have hrest := (List.mem_cons.mp h).resolve_left fun heq => hne heq.symm
      exact ih hrest

/-! ### Conversions -/

/-- The conversion declares one parameter, a text.  It is bound to a constant text, or to an input
    that the pipeline declares, whose type is the declared one. -/
structure ConversionTypes (c : Component) (job : Job) (component : String)
    (source : ParameterSource) : Prop where
  declared : ∃ executor, Keyed.find? job.components component = some (.conversion executor)
  bound : (∃ text, source = .constant (.string text)) ∨ ∃ name ∈ c.inputNames,
    source = .pipelineInput name ∧ Keyed.find? job.root.parameters name =
      some (PrimitiveType.ofType (typeOf c name))

/-- What a file is made of that a task needs: a text, or an input that the pipeline declares. -/
theorem NeedsArtifact.source {c : Component} {g : Graph} {order : List String} {id input : String}
    {source : ParameterSource} (h : NeedsArtifact c g id input source)
    (hplanned : Planned g c.inputNames order) :
    (∃ text, source = .constant (.string text)) ∨
      ∃ name ∈ c.inputNames, source = .pipelineInput name := by
  obtain ⟨task, component, -, -, htask, -, -, -, -, hsource⟩ := h
  cases hargument : component.argumentFor task.arguments input with
  | literal text =>
    rw [hargument] at hsource
    exact .inl ⟨text, (Option.some.inj hsource).symm⟩
  | graphInput name type =>
    obtain ⟨entry, hentry, heq⟩ := argumentFor_mem hargument fun _ he => nomatch he
    rw [hargument] at hsource
    exact .inr ⟨name, hplanned.input htask hentry heq, (Option.some.inj hsource).symm⟩
  | taskOutput output =>
    rw [hargument] at hsource
    cases hsource

/-- **What conversions declare, and what they are bound to.** -/
theorem PipelineCompiled.conversion_types {P : String → Prop} {s : Settings} {c : Component}
    {arguments : Keyed Value} {g : Graph} {order : List String} {job : Job} {d : Draft}
    (h : PipelineCompiled P s c arguments g order job d) (hthrifty : d.Thrifty s order)
    {name component : String} {source : ParameterSource} {cached : Bool}
    (hfind : Keyed.find? job.root.tasks name = some (.conversion component source cached)) :
    ConversionTypes c job component source := by
  rw [h.compiled.tasks] at hfind
  -- A conversion has a user, whose need says what is converted.
  obtain ⟨hmade, id, input, user, step, hneeds, -, -, -⟩ := h.exists_user hthrifty hfind
  obtain ⟨component', executor, launch, conversion, cached', hfound, hcomponent, -⟩ := hmade
  obtain ⟨rfl, -, -⟩ := JobTask.conversion.inj (Option.some.inj (hfound.symm.trans hfind))
  refine ⟨⟨executor, h.components ▸ hcomponent⟩, ?_⟩
  refine (hneeds.source h.compiled.planned).imp_right ?_
  rintro ⟨input, hinput, rfl⟩
  have hused :
    input ∈ (JobTask.conversion component' (.pipelineInput input) cached).pipelineInputs :=
    List.mem_singleton.mpr rfl
  have hrecorded : input ∈ d.parameters :=
    h.compiled.sound.inputsRecorded _ (Keyed.mem_of_find? hfind) input hused
  refine ⟨input, hinput, rfl, ?_⟩
  rw [h.compiled.parameters]
  exact find?_declaredTypes hrecorded

/-- **A conversion is type-correct** unless what it converts is an input that is a number. -/
theorem ConversionTypes.isTypeCorrect_iff {c : Component} {job : Job} {component : String}
    {source : ParameterSource} (h : ConversionTypes c job component source) (cached : Bool) :
    job.IsTypeCorrect (.conversion component source cached) ↔
      ∀ name, source = .pipelineInput name → ¬ IsNumeric (typeOf c name) := by
  obtain ⟨executor, hexecutor⟩ := h.declared
  have hiff : job.IsTypeCorrect (.conversion component source cached) ↔
      job.boundType? source = some .string := by
    constructor
    · rintro ⟨found, hfound, hbound⟩
      obtain rfl := Option.some.inj (hfound.symm.trans hexecutor)
      cases hbound with
      | cons hsource => exact hsource.2
    · exact fun hsource => ⟨_, hexecutor, .cons ⟨rfl, hsource⟩ .nil⟩
  rw [hiff]
  -- A text is of the type that conversions take; the type of an input is what it was declared with.
  rcases h.bound with ⟨text, rfl⟩ | ⟨name, -, rfl, hname⟩
  · refine ⟨fun _ name he => ?_, fun _ => rfl⟩
    cases he
  · rw [Job.boundType?, hname, Option.some_inj, ofType_eq_string]
    refine ⟨fun hnot other he => ?_, fun hnot => hnot name rfl⟩
    obtain rfl := ParameterSource.pipelineInput.inj he
    exact hnot

/-- **The types of conversions**, whatever the pipeline is: they declare a text, and they are bound
    to a text or to an input that the pipeline declares, under its declared type.  So they are
    type-correct but for those inputs that are numbers. -/
theorem job_conversionTypes {context : Context} {c : Component} {arguments : Keyed Value}
    {outputDirectory contextName : String} {job : Job}
    (hok : (compile context c arguments outputDirectory contextName).result = .ok job)
    (hdigests : (compile context c arguments outputDirectory contextName).SeparatesDigests) :
    ∀ name component source cached,
      Keyed.find? job.root.tasks name = some (.conversion component source cached) →
      ConversionTypes c job component source ∧
      (job.IsTypeCorrect (.conversion component source cached) ↔
        ∀ input, source = .pipelineInput input → ¬ IsNumeric (typeOf c input)) := by
  intro name component source cached hfind
  obtain ⟨s, g, order, d, -, hpipeline, hthrifty⟩ := compile_thrifty hok hdigests
  have htypes := hpipeline.conversion_types hthrifty hfind
  exact ⟨htypes, htypes.isTypeCorrect_iff cached⟩

/-- The pipeline of the example with a whole number as its input. -/
def integerPipeline : Component :=
  { samplePipeline with inputs := [{ name := "y", type := .str "Integer", default := some "1" }] }

/-- The input of the pipeline that a conversion converts. -/
def JobTask.convertedInput? : JobTask → Option String
  | .conversion _ source _ => source.pipelineInput?
  | .step .. => none

/-- There is a job with a conversion of this number, and all digests on the way to it are
    different. -/
theorem integerPipeline_compiles :
    ((compile sampleContext integerPipeline [] "").result.toOption.bind fun job =>
      (Keyed.find? job.root.tasks "make-artifact-for-y").bind JobTask.convertedInput?) =
        some "y" ∧
      ((compile sampleContext integerPipeline [] "").digested.map Digest.sha256Hex).Nodup := by
  decide +kernel

/-- The job, and the conversion in it. -/
theorem integerPipeline_result : ∃ job component cached,
    (compile sampleContext integerPipeline [] "").result = .ok job ∧
    Keyed.find? job.root.tasks "make-artifact-for-y" =
      some (.conversion component (.pipelineInput "y") cached) := by
  obtain ⟨job, hjob, htask⟩ := Option.bind_eq_some_iff.mp integerPipeline_compiles.1
  obtain ⟨task, hfind, hinput⟩ := Option.bind_eq_some_iff.mp htask
  cases task with
  | step => cases hinput
  | conversion component source cached =>
    cases source with
    | pipelineInput name =>
      obtain rfl := Option.some.inj hinput
      exact ⟨job, component, cached, toOption_eq_some.mp hjob, hfind⟩
    | constant | taskOutput => cases hinput

/-- The input is a number. -/
theorem isNumeric_integer : IsNumeric (typeOf integerPipeline "y") :=
  ⟨"Integer", rfl, by decide +kernel⟩

theorem integerPipeline_conversionTypes : ∃ job component cached,
    (compile sampleContext integerPipeline [] "").result = .ok job ∧
    Keyed.find? job.root.tasks "make-artifact-for-y" =
      some (.conversion component (.pipelineInput "y") cached) ∧
    ConversionTypes integerPipeline job component (.pipelineInput "y") ∧
    (job.IsTypeCorrect (.conversion component (.pipelineInput "y") cached) ↔
      ∀ input, ParameterSource.pipelineInput "y" = .pipelineInput input →
        ¬ IsNumeric (typeOf integerPipeline input)) := by
  obtain ⟨job, component, cached, hjob, hfind⟩ := integerPipeline_result
  exact ⟨job, component, cached, hjob, hfind, job_conversionTypes hjob
    (separatesDigests_of_nodup integerPipeline_compiles.2) _ _ _ _ hfind⟩

/-- **Its conversion is not type-correct.** -/
theorem integerPipeline_mistyped : ¬ ∀ (context : Context) (c : Component)
    (arguments : Keyed Value)
    (outputDirectory contextName : String) (job : Job),
    (compile context c arguments outputDirectory contextName).result = .ok job →
    (compile context c arguments outputDirectory contextName).SeparatesDigests →
    ∀ name component source cached,
      Keyed.find? job.root.tasks name = some (.conversion component source cached) →
      job.IsTypeCorrect (.conversion component source cached) := fun h => by
  obtain ⟨job, component, cached, hjob, hfind⟩ := integerPipeline_result
  have hdigests := separatesDigests_of_nodup integerPipeline_compiles.2
  obtain ⟨s, g, order, d, -, hpipeline, hthrifty⟩ := compile_thrifty hjob hdigests
  have htypes := hpipeline.conversion_types hthrifty hfind
  have hcorrect := h _ _ _ _ _ job hjob hdigests _ _ _ _ hfind
  exact (htypes.isTypeCorrect_iff cached).mp hcorrect "y" rfl isNumeric_integer

end PipelineCompiler.Vertex
