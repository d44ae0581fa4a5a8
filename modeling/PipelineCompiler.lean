import PipelineCompiler.Argo.Compile
import PipelineCompiler.Component.Loader
import PipelineCompiler.Export
import PipelineCompiler.Vertex.Compile
import PipelineCompiler.Proofs.Json.Items
import PipelineCompiler.Proofs.Keyed
import PipelineCompiler.Proofs.Naming.Fresh
import PipelineCompiler.Proofs.Json.Alike
import PipelineCompiler.Proofs.Naming.Registry
import PipelineCompiler.Component.Basic
import PipelineCompiler.Proofs.Graph.Order
import PipelineCompiler.Proofs.Argo.Outline
import PipelineCompiler.Proofs.Argo.Reference
import PipelineCompiler.Proofs.Argo.Scope
import PipelineCompiler.Proofs.Argo.Binding
import PipelineCompiler.Proofs.Argo.Compile
import PipelineCompiler.Proofs.Argo.Closure
import PipelineCompiler.Proofs.Argo.Follow
import PipelineCompiler.Proofs.Argo.Origin
import PipelineCompiler.Proofs.Argo.Flow
import PipelineCompiler.Proofs.CommandLine
import PipelineCompiler.Proofs.Vertex.Outline
import PipelineCompiler.Proofs.Vertex.Parts
import PipelineCompiler.Proofs.Vertex.Binding
import PipelineCompiler.Proofs.Vertex.Compile
import PipelineCompiler.Proofs.Vertex.Closure
import PipelineCompiler.Proofs.Vertex.Constant
import PipelineCompiler.Proofs.Vertex.Warnings
import PipelineCompiler.Proofs.Vertex.Flow
import PipelineCompiler.Proofs.Component.Rearranged
import PipelineCompiler.Proofs.Agreement
import PipelineCompiler.Proofs.Argo.Rearranged
import PipelineCompiler.Proofs.Vertex.Rearranged
import PipelineCompiler.Proofs.Argo.Run
import PipelineCompiler.Proofs.Argo.Steps
import PipelineCompiler.Proofs.Argo.Dependencies
import PipelineCompiler.Proofs.Argo.CallGraph
import PipelineCompiler.Proofs.Argo.Outputs
import PipelineCompiler.Proofs.Json.Plain
import PipelineCompiler.Proofs.Naming.Ready
import PipelineCompiler.Proofs.Launch
import PipelineCompiler.Proofs.Component.Flat
import PipelineCompiler.Proofs.Argo.Plain
import PipelineCompiler.Proofs.Argo.Verdict
import PipelineCompiler.Proofs.Vertex.Plain
import PipelineCompiler.Proofs.Vertex.Verdict
import PipelineCompiler.Proofs.Verdict
import PipelineCompiler.Proofs.Failing
import PipelineCompiler.Proofs.Argo.Visits
import PipelineCompiler.Proofs.Argo.Made
import PipelineCompiler.Proofs.Argo.Failing
import PipelineCompiler.Proofs.Argo.Kinds
import PipelineCompiler.Proofs.Dependencies
import PipelineCompiler.Proofs.Json.Same
import PipelineCompiler.Proofs.Argo.Shared
import PipelineCompiler.Proofs.Vertex.Shared
import PipelineCompiler.Proofs.Argo.Conversions
import PipelineCompiler.Proofs.Vertex.Conversions
import PipelineCompiler.Proofs.Component.Loaded
import PipelineCompiler.Proofs.Argo.Names
import PipelineCompiler.Proofs.Json.Held
import PipelineCompiler.Proofs.Config.Overlay
import PipelineCompiler.Proofs.Context
import PipelineCompiler.Proofs.Component.Needs
import PipelineCompiler.Proofs.Refusals
import PipelineCompiler.Proofs.Component.Unbound
import PipelineCompiler.Proofs.Component.Lacking
import PipelineCompiler.Proofs.Argo.Needs
import PipelineCompiler.Proofs.Argo.Unbound
import PipelineCompiler.Proofs.Naming.Session
import PipelineCompiler.Proofs.Naming.Shape
import PipelineCompiler.Proofs.Reached
import PipelineCompiler.Proofs.Argo.Declared
import PipelineCompiler.Proofs.BothTargets
import PipelineCompiler.Proofs.Unattributed
import PipelineCompiler.Proofs.Attributed
import PipelineCompiler.Proofs.Component.Deeper
import PipelineCompiler.Proofs.Component.Parts
import PipelineCompiler.Proofs.Component.Attributed
import PipelineCompiler.Proofs.Isolation
import PipelineCompiler.Proofs.Component.Fields
import PipelineCompiler.Proofs.Component.Serialized
import PipelineCompiler.Proofs.Component.Proper
import PipelineCompiler.Proofs.Component.Inverse
import PipelineCompiler.Proofs.Number.Digits
import PipelineCompiler.Proofs.Tame
import PipelineCompiler.Proofs.Yaml.Lexeme
import PipelineCompiler.Proofs.Yaml.Lexer
import PipelineCompiler.Proofs.Yaml.Reader
import PipelineCompiler.Proofs.Yaml.Texts
import PipelineCompiler.Proofs.Component.Slips
import PipelineCompiler.Proofs.Graph.Faults
import PipelineCompiler.Proofs.Walk
import PipelineCompiler.Proofs.Number.Characters
import PipelineCompiler.Proofs.Number.Rounding
import PipelineCompiler.Proofs.Number.Scientific
import PipelineCompiler.Proofs.Number.Interval
import PipelineCompiler.Proofs.Number.Spelled
import PipelineCompiler.Proofs.Json.Numbers
import PipelineCompiler.Proofs.Json.Spelled
import PipelineCompiler.Proofs.Json.Restored
import PipelineCompiler.Proofs.Json.Grammar
import PipelineCompiler.Proofs.Json.Strict
import PipelineCompiler.Proofs.Vertex.Tidy
import PipelineCompiler.Proofs.Vertex.Printed
import PipelineCompiler.Proofs.Yaml.Cursor
import PipelineCompiler.Proofs.Yaml.Quoted
import PipelineCompiler.Proofs.Config.Entrywise
import PipelineCompiler.Proofs.Config.Layers
import PipelineCompiler.Proofs.Json.Canonical
import PipelineCompiler.Proofs.Naming.Search
import PipelineCompiler.Proofs.Yaml.Blocks
import PipelineCompiler.Proofs.Component.Calls
import PipelineCompiler.Proofs.Component.Entries
import PipelineCompiler.Proofs.Vertex.Typed
import PipelineCompiler.Proofs.Argo.Traces
import PipelineCompiler.Proofs.Vertex.Traces
import PipelineCompiler.Proofs.Observed
import PipelineCompiler.Proofs.Yaml.Assembled
import PipelineCompiler.Proofs.Exported
