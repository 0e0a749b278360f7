import WorkflowAnalysis.Analysis
import WorkflowAnalysis.Extraction.Activities
import WorkflowAnalysis.Extraction.ChildWorkflows
import WorkflowAnalysis.Extraction.Classes
import WorkflowAnalysis.Extraction.Collaborators
import WorkflowAnalysis.Extraction.Site
import WorkflowAnalysis.Failure
import WorkflowAnalysis.Files.Path
import WorkflowAnalysis.Files.Resolution
import WorkflowAnalysis.Files.Tree
import WorkflowAnalysis.Files.Visited
import WorkflowAnalysis.Json.Decoder
import WorkflowAnalysis.Json.Reader
import WorkflowAnalysis.Json.Value
import WorkflowAnalysis.Json.Writer
import WorkflowAnalysis.Modules.Constants
import WorkflowAnalysis.Modules.Exports
import WorkflowAnalysis.Modules.Imports
import WorkflowAnalysis.Modules.Search
import WorkflowAnalysis.Records.Component
import WorkflowAnalysis.Records.Vocabulary
import WorkflowAnalysis.Registry
import WorkflowAnalysis.Syntax.Cursor
import WorkflowAnalysis.Syntax.Grammar.Expressions
import WorkflowAnalysis.Syntax.Grammar.Functions
import WorkflowAnalysis.Syntax.Grammar.Goal
import WorkflowAnalysis.Syntax.Grammar.Markup
import WorkflowAnalysis.Syntax.Grammar.Modules
import WorkflowAnalysis.Syntax.Grammar.Statements
import WorkflowAnalysis.Syntax.Grammar.Types
import WorkflowAnalysis.Syntax.Lexer
import WorkflowAnalysis.Syntax.Node
import WorkflowAnalysis.Syntax.Shape
import WorkflowAnalysis.Syntax.Source
import WorkflowAnalysis.Syntax.Token
import WorkflowAnalysis.Text.NameChars
import WorkflowAnalysis.Proofs.Files.Places
import WorkflowAnalysis.Proofs.Files.Resolution
import WorkflowAnalysis.Proofs.Text.Endings
import WorkflowAnalysis.Proofs.Modules.Lookup
import WorkflowAnalysis.Proofs.Extraction.BaseChains
import WorkflowAnalysis.Proofs.Extraction.Composition
import WorkflowAnalysis.Proofs.Extraction.Termination
import WorkflowAnalysis.Proofs.Extraction.CreatedClasses
import WorkflowAnalysis.Proofs.Extraction.CreatedFiles
import WorkflowAnalysis.Proofs.Records.FirstOccurrences
import WorkflowAnalysis.Proofs.Analysis.Records
import WorkflowAnalysis.Proofs.Analysis.Fallbacks
import WorkflowAnalysis.Proofs.Analysis.Isolation
import WorkflowAnalysis.Proofs.Extraction.PackageImports
import WorkflowAnalysis.Proofs.Files.Listings
import WorkflowAnalysis.Proofs.Registry.Batches
import WorkflowAnalysis.Proofs.Registry.WorkflowDirectories
import WorkflowAnalysis.Proofs.Registry.Log
import WorkflowAnalysis.Proofs.Registry.Interleaving
import WorkflowAnalysis.Proofs.Json.RoundTrip
import WorkflowAnalysis.Proofs.Records.Codecs
import WorkflowAnalysis.Proofs.Analysis.Vocabularies
import WorkflowAnalysis.Proofs.Syntax.CompiledCalls
import WorkflowAnalysis.Proofs.Analysis.CallForms
import WorkflowAnalysis.Proofs.Extraction.Respellings
import WorkflowAnalysis.Proofs.Syntax.SourceOrder
import WorkflowAnalysis.Proofs.Syntax.Forms
import WorkflowAnalysis.Proofs.Extraction.ActivitySites
import WorkflowAnalysis.Proofs.Extraction.StartSites
import WorkflowAnalysis.Proofs.Extraction.ParameterRoots
import WorkflowAnalysis.Syntax.Walk
import WorkflowAnalysis.Proofs.Extraction.Wrappers
import WorkflowAnalysis.Proofs.Syntax.Omissions
import WorkflowAnalysis.Proofs.Modules.ExportedNames
import WorkflowAnalysis.Proofs.Extraction.CreationOrder
import WorkflowAnalysis.Proofs.Files.Manifests
import WorkflowAnalysis.Proofs.Files.PackageEntries
import WorkflowAnalysis.Proofs.Files.NormalForms
import WorkflowAnalysis.Proofs.Files.ModuleLookups
import WorkflowAnalysis.Proofs.Files.Spellings
import WorkflowAnalysis.Proofs.Files.VisitedHistories
import WorkflowAnalysis.Proofs.Modules.ConstantLiterals
import WorkflowAnalysis.Proofs.Modules.ImportBindings
import WorkflowAnalysis.Proofs.Registry.WorkflowFiles
import WorkflowAnalysis.Proofs.Json.Grammar
import WorkflowAnalysis.Proofs.Json.Spelling
import WorkflowAnalysis.Proofs.Records.MemberOrder
