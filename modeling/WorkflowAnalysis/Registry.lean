import WorkflowAnalysis.Analysis

/-! A registry of what the workers of a service host. Workers report the names of their activities and
the directory of their workflows; a registry only ever appends. -/
namespace WorkflowAnalysis

/-! ### Workflow files -/

/-- Files that only gather the exports of others. -/
def barrelNames : List String := ["index.js", "index.ts", "index.j", "index.t"]

def endsWith (name ending : String) : Bool := ending.toList.isSuffixOf name.toList

/-- The name of a file that holds workflow code, and not a barrel, declarations or a source map. -/
def isWorkflowFileName (name : String) : Bool :=
  !barrelNames.contains name && !endsWith name ".d.ts" && !endsWith name ".js.map"

namespace FileTree

/-- The directory meant by a path to it or to something in it. -/
def workflowDirectory (tree : FileTree) (path : Path) : Path :=
  if tree.isDirectory path then path else path.parent?.getD (Path.ofString ".")

/-- The workflow files directly in a directory, sorted by name. Files whose names are not text are left
out. -/
def workflowFiles (tree : FileTree) (directory : Path) : Except Failure (List Path) := do
  let names ← (tree.fileNames directory).mapError (.unlistable directory)
  return ((names.filterMap FileName.text?).filter isWorkflowFileName).map fun name =>
    directory.join ⟨[], name⟩

end FileTree

/-! ### Registration -/

structure Worker where
  taskQueue : String
  activityNames : List String := []
  workflowsPath : Option Path := none

structure Registry where
  serviceName : String
  vocabulary : Vocabulary := {}
  components : Components := {}

namespace Registry

def version : String := "0.1.0-alpha"

def appendActivities (registry : Registry) (activities : List Activity) : Registry :=
  { registry with
    components :=
      { registry.components with activities := registry.components.activities ++ activities } }

def appendWorkflows (registry : Registry) (workflows : List Workflow) : Registry :=
  { registry with
    components :=
      { registry.components with workflows := registry.components.workflows ++ workflows } }

def addActivities (registry : Registry) (names : List String) (queue : Option String) : Registry :=
  registry.appendActivities (names.map fun name => { name, taskQueue := queue })

/-- The workflows in a directory, tagged with their worker's queue. The first file that fails, fails
them all. -/
def analyzeWorkflows (registry : Registry) (tree : FileTree) (path : Path) (queue : String) :
    Except Failure (List Workflow) := do
  let project : Project := { tree, vocabulary := registry.vocabulary }
  let files ← tree.workflowFiles (tree.workflowDirectory path)
  files.mapM fun file => do
    return { ← project.analyze file queue with taskQueue := some queue }

/-- Registers the workflows next to a path: all of them, or none when a file fails. -/
def addWorkflows (registry : Registry) (tree : FileTree) (path : Path) (queue : String) :
    Except Failure Nat × Registry :=
  match registry.analyzeWorkflows tree path queue with
  | .error failure => (.error failure, registry)
  | .ok workflows => (.ok workflows.length, registry.appendWorkflows workflows)

/-- Registers a worker's activities and then its workflows; the activities stay even if the workflows
fail. -/
def addWorker (registry : Registry) (tree : FileTree) (worker : Worker) :
    Except Failure Unit × Registry :=
  let registry := registry.addActivities worker.activityNames (some worker.taskQueue)
  match worker.workflowsPath with
  | none => (.ok (), registry)
  | some path =>
    let (outcome, registry) := registry.addWorkflows tree path worker.taskQueue
    (outcome.map fun _ => (), registry)

def manifest (registry : Registry) : Manifest :=
  { serviceName := registry.serviceName, registryVersion := version, components := registry.components }

end Registry

end WorkflowAnalysis
