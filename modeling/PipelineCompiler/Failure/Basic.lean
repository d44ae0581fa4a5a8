import PipelineCompiler.Failure.Cause

namespace PipelineCompiler

/-!
# Failures

* `ConfigError` — what can be wrong with a configuration;
* `Refusal` — requests that make no sense;
* `Accident` — failures without a wording of their own;
* `Failure` — all of them and the compilation errors;
* `Failure.showing` — the failure of a wording that shows values;
* `Failure.within` — attributes a compilation error to a task, and leaves the rest alone;
* `Value.shownText`, `wholeText` — the plain form of a value, and a text for storage, if there is
  one;
* `Keyed.fetch` — a look-up that fails when the key is not there.
-/

/-- What can be wrong with a configuration. -/
inductive ConfigError where
  | fileNotFound (path : String)
  | unsupportedFormat (suffix : String)
  | fileNotMapping (typeName : String)
  | overridesNotMapping (typeName : String)
  | rootsNotMappings (base override : String)
  /-- The values under a path have different types. -/
  | typeConflict (path : List String) (base override : String)
deriving Repr, DecidableEq

/-- The wording. -/
def ConfigError.message : ConfigError → String
  | .fileNotFound path => s!"Arquivo de configuração não encontrado: {path}"
  | .unsupportedFormat suffix => s!"Formato não suportado: {suffix}"
  | .fileNotMapping typeName => s!"Config root deve ser dict, recebido: {typeName}"
  | .overridesNotMapping typeName => s!"Overrides devem ser dict, recebido: {typeName}"
  | .rootsNotMappings base override =>
    s!"Deep-merge requer dicts no nível raiz, recebido: {base} vs {override}"
  | .typeConflict path base override =>
    let key := ".".intercalate path
    s!"Conflito de tipo na chave '{key}': {base} vs {override}"

/-- Requests that make no sense. -/
inductive Refusal where
  | recordNotMapping (typeName : String)
  | configNotMapping (typeName : String)
  | notAContainer
  | unknownSection (target : String)
  | unsupportedDocument (suffix : String)
  | unknownPrimitive (name : String)
deriving Repr, DecidableEq

/-- The wording. -/
def Refusal.message : Refusal → String
  | .recordNotMapping typeName =>
    s!"Registro para chave estrutural deve ser dict, recebido: {typeName}"
  | .configNotMapping typeName => s!"Config para hashing deve ser dict, recebido: {typeName}"
  | .notAContainer => "resolve_command_line only supports container components"
  | .unknownSection target => quoted target
  | .unsupportedDocument suffix => s!"Unsupported document format: {suffix}"
  | .unknownPrimitive name => s!"Unknown primitive type {name}"

/-- Failures without a wording of their own. -/
inductive Accident where
  | malformedYaml
  | malformedJson
  /-- A text that is no number, bytes or a text without a form in UTF-8, a sequence that is no
      list of pairs, a number with too many digits to be written, or a value inside itself where
      that cannot be. -/
  | invalidValue
  /-- A value of a type that the operation has no use for, or a setting that is not there. -/
  | illTyped
deriving Repr, DecidableEq

/-- Why an operation has no result. -/
inductive Failure where
  | compilation (error : CompilationError)
  | config (error : ConfigError)
  | refusal (refusal : Refusal)
  | accident (accident : Accident)

namespace Failure

/-- The failure of a cause that belongs to no task yet. -/
def ofCause (cause : Cause) : Failure := .compilation { cause }

/-- The failure of a fault in a serialized component. -/
def ofSpec (fault : SpecFault) : Failure := ofCause (.spec fault)

/-- The failure of a fault in a placeholder. -/
def ofPlaceholder (fault : PlaceholderFault) : Failure := ofCause (.placeholder fault)

/-- A value of the wrong type. -/
def illTyped : Failure := .accident .illTyped

/-- A value that cannot be read or written. -/
def invalidValue : Failure := .accident .invalidValue

/-- The failure of a wording that shows some values, all of which have to be shown. -/
def showing (values : List Value) (failure : Failure) : Failure :=
  if values.all Value.isShown then failure else invalidValue

/-- Attributes a compilation error to a task. -/
def within (taskId : String) : Failure → Failure
  | .compilation error => .compilation (error.within taskId)
  | other => other

end Failure

/-- The plain form of a value that can be shown. -/
def Value.shownText (v : Value) : Except Failure String :=
  if v.isShown then .ok v.text else .error .invalidValue

/-- A text that has a form in UTF-8. -/
def wholeText (s : String) : Except Failure String :=
  if Text.isWhole s then .ok s else .error .invalidValue

/-- The value under a key that has to be there. -/
def Keyed.fetch (entries : Keyed α) (key : String) : Except Failure α :=
  match Keyed.find? entries key with
  | some a => .ok a
  | none => .error .illTyped

/-- Attributes a compilation error of a computation to a task. -/
def withinTask (taskId : String) (result : Except Failure α) : Except Failure α :=
  result.mapError (Failure.within taskId)

end PipelineCompiler
