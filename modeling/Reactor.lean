import Reactor.CommandLine.Arguments
import Reactor.CommandLine.Duration
import Reactor.CommandLine.Report
import Reactor.CommandLine.Run
import Reactor.Config
import Reactor.Decimal.Binary
import Reactor.Decimal.Layout
import Reactor.Decimal.Nearest
import Reactor.Decimal.Shortest
import Reactor.Descriptor.Basic
import Reactor.Descriptor.Loader
import Reactor.Descriptor.OfJson
import Reactor.Descriptor.OfValue
import Reactor.Digest.Sha256
import Reactor.Elapsed
import Reactor.Engine
import Reactor.Failure
import Reactor.Format.Basic
import Reactor.Format.Json
import Reactor.Format.Script
import Reactor.Format.Standard
import Reactor.Format.Yaml
import Reactor.Json.Basic
import Reactor.Json.Fault
import Reactor.Json.Literal
import Reactor.Json.Parser
import Reactor.Json.Printer
import Reactor.Json.Token
import Reactor.Main
import Reactor.ModulePath
import Reactor.Placeholder
import Reactor.Project.Basic
import Reactor.Project.Inheritance
import Reactor.Project.PluginMerge
import Reactor.Project.Resolution
import Reactor.Project.Substitution
import Reactor.Proofs.CommandLine.Effective
import Reactor.Proofs.CommandLine.ExitCodes
import Reactor.Proofs.Descriptor.Faults
import Reactor.Proofs.Descriptor.Globals
import Reactor.Proofs.Descriptor.Loaded
import Reactor.Proofs.Descriptor.Loading
import Reactor.Proofs.Descriptor.Probing
import Reactor.Proofs.Descriptor.Readers
import Reactor.Proofs.Descriptor.RoundTrip
import Reactor.Proofs.Descriptor.WellFormed
import Reactor.Proofs.Descriptor.Written
import Reactor.Proofs.Json.Fields
import Reactor.Proofs.Json.Integers
import Reactor.Proofs.Json.Numerals
import Reactor.Proofs.Json.ReadBack
import Reactor.Proofs.Json.Unambiguous
import Reactor.Proofs.Json.Written
import Reactor.Proofs.LocalFailures
import Reactor.Proofs.Outcome
import Reactor.Proofs.Placeholder
import Reactor.Proofs.Placeholder.DollarRuns
import Reactor.Proofs.Placeholder.Escaping
import Reactor.Proofs.Placeholder.Strictness
import Reactor.Proofs.Project.AncestorView
import Reactor.Proofs.Project.Ancestors
import Reactor.Proofs.Project.CollectedProperties
import Reactor.Proofs.Project.Coordinates
import Reactor.Proofs.Project.DerivedFields
import Reactor.Proofs.Project.EffectiveProperties
import Reactor.Proofs.Project.ExpandedMerge
import Reactor.Proofs.Project.Failures
import Reactor.Proofs.Project.HashedText
import Reactor.Proofs.Project.Idempotence
import Reactor.Proofs.Project.IncrementalMerge
import Reactor.Proofs.Project.MissingProperties
import Reactor.Proofs.Project.ModuleNames
import Reactor.Proofs.Project.NearestMatch
import Reactor.Proofs.Project.NearestScalars
import Reactor.Proofs.Project.Obtained
import Reactor.Proofs.Project.PlainDescriptors
import Reactor.Proofs.Project.PluginMerge
import Reactor.Proofs.Project.PluginTexts
import Reactor.Proofs.Project.Steps
import Reactor.Proofs.Script.Tables
import Reactor.Proofs.SortedMap
import Reactor.Proofs.Text.Split
import Reactor.Proofs.Text.Trim
import Reactor.Proofs.Text.Utf8
import Reactor.Proofs.Tree.Completeness
import Reactor.Proofs.Tree.Deadline
import Reactor.Proofs.Tree.DepthFirst
import Reactor.Proofs.Tree.ErrorModes
import Reactor.Proofs.Tree.Globals
import Reactor.Proofs.Tree.Invariant
import Reactor.Proofs.Tree.LocatedParent
import Reactor.Proofs.Tree.MissingProperties
import Reactor.Proofs.Tree.ModuleCycles
import Reactor.Proofs.Tree.Nesting
import Reactor.Proofs.Tree.ParentChain
import Reactor.Proofs.Tree.ParentView
import Reactor.Proofs.Tree.Position
import Reactor.Proofs.Tree.Queries
import Reactor.Proofs.Tree.QueryNames
import Reactor.Proofs.Tree.Siblings
import Reactor.Proofs.Tree.Standalone
import Reactor.Proofs.Tree.Traversals
import Reactor.Proofs.Tree.Turn
import Reactor.Proofs.Tree.Walk
import Reactor.Proofs.Value.Calls
import Reactor.Proofs.Value.Decoders
import Reactor.Proofs.Value.FirstRefusal
import Reactor.Proofs.Value.Ordered
import Reactor.Proofs.Value.Parts
import Reactor.Proofs.Value.Pointers
import Reactor.Proofs.Value.Refusals
import Reactor.Proofs.Value.Strings
import Reactor.Proofs.Value.Structure
import Reactor.Proofs.Value.ToJson
import Reactor.Proofs.Workspace.CanonicalPath
import Reactor.Proofs.Workspace.Entries
import Reactor.Proofs.Workspace.RegularFiles
import Reactor.Script.Code
import Reactor.Script.Compile.Draft
import Reactor.Script.Compile.Operator
import Reactor.Script.Compile.Pending
import Reactor.Script.Compile.Program
import Reactor.Script.Data
import Reactor.Script.Grammar
import Reactor.Script.Item
import Reactor.Script.Library.Argument
import Reactor.Script.Library.Basic
import Reactor.Script.Library.Catalog
import Reactor.Script.Library.Files
import Reactor.Script.Library.Numbers
import Reactor.Script.Library.Strings
import Reactor.Script.Library.Tables
import Reactor.Script.Machine
import Reactor.Script.Memory
import Reactor.Script.Metatable
import Reactor.Script.Number
import Reactor.Script.Numeral
import Reactor.Script.Operation
import Reactor.Script.Program
import Reactor.Script.Result
import Reactor.Script.Table
import Reactor.Script.Template
import Reactor.Script.Token
import Reactor.SortedMap
import Reactor.Text.Blank
import Reactor.Text.Hex
import Reactor.Text.Split
import Reactor.Text.Utf8
import Reactor.Tree.Aggregation
import Reactor.Tree.Basic
import Reactor.Tree.ParentSearch
import Reactor.Value.Basic
import Reactor.Value.Document
import Reactor.Workspace.Branch
import Reactor.Workspace.FileSystem
import Reactor.Workspace.Path
import Reactor.Yaml.Block
import Reactor.Yaml.Character
import Reactor.Yaml.Document
import Reactor.Yaml.Fault
import Reactor.Yaml.Folding
import Reactor.Yaml.Lexer
import Reactor.Yaml.Node
import Reactor.Yaml.Plain
import Reactor.Yaml.Quoted
import Reactor.Yaml.Scalar
import Reactor.Yaml.Token
import Reactor.Proofs.Descriptor.Shorthand
import Reactor.Proofs.Script.Rejections
import Reactor.Proofs.Value.RootPointer
