import WorkflowAnalysis.Modules.Search
import WorkflowAnalysis.Records.Component

/-! Places in a file where something runs on a task queue. -/
namespace WorkflowAnalysis

open Syntax

structure Site where
  name : String
  queue : String
deriving DecidableEq, Repr, Inhabited

def Site.activity (site : Site) : Activity := { name := site.name, taskQueue := some site.queue }

def Site.childWorkflow (site : Site) : ChildWorkflow :=
  { name := some site.name, taskQueue := some site.queue }

def Project.memberValue? (project : Project) (file : SourceFile) (node : Node) : Option String := do
  let (object, property) ← node.namedMember?
  let specifier ← file.imports.get? object
  project.constant? specifier property file.path

end WorkflowAnalysis
