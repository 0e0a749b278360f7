import WorkflowAnalysis.Json.Decoder
import WorkflowAnalysis.Json.Writer

/-! The records an analysis produces and a registry collects, and their form as documents. -/
namespace WorkflowAnalysis

/-- A remote operation that a workflow can invoke. -/
structure Activity where
  name : String
  taskQueue : Option String
deriving DecidableEq, Repr, Inhabited

structure ChildWorkflow where
  name : Option String
  taskQueue : Option String
deriving DecidableEq, Repr, Inhabited

/-- What one workflow file depends on. The queue is the one its worker polls, known to a registry. -/
structure Workflow where
  name : Option String
  activities : List Activity
  childWorkflows : List ChildWorkflow
  taskQueue : Option String
deriving DecidableEq, Repr, Inhabited

structure Components where
  activities : List Activity := []
  workflows : List Workflow := []
deriving DecidableEq, Repr, Inhabited

structure Manifest where
  serviceName : String
  registryVersion : String
  components : Components
deriving DecidableEq, Repr, Inhabited

/-! ### Documents -/

open Document

def Activity.document (activity : Activity) : Document :=
  record (("name", text activity.name) :: optionalText "taskQueue" activity.taskQueue)

def ChildWorkflow.document (child : ChildWorkflow) : Document :=
  record (optionalText "name" child.name ++ optionalText "taskQueue" child.taskQueue)

def Workflow.document (workflow : Workflow) : Document :=
  record (optionalText "name" workflow.name ++
    [("activities", list (workflow.activities.map Activity.document)),
     ("childWorkflows", list (workflow.childWorkflows.map ChildWorkflow.document))] ++
    optionalText "taskQueue" workflow.taskQueue)

def Components.document (components : Components) : Document :=
  record
    [("activities", list (components.activities.map Activity.document)),
     ("workflows", list (components.workflows.map Workflow.document))]

def Manifest.document (manifest : Manifest) : Document :=
  record
    [("serviceName", text manifest.serviceName),
     ("registryVersion", text manifest.registryVersion),
     ("components", manifest.components.document)]

/-! ### Decoding

In a draft a field that is absent differs from one that is present and empty. -/

def optionalString : Decoder (Option String) := Decoder.optional Decoder.string

structure Activity.Draft where
  name : Option String := none
  taskQueue : Option (Option String) := none

def Activity.shape : RecordShape Activity.Draft Activity where
  fields :=
    [.slot "name" (·.name) (fun draft name => { draft with name := some name }) Decoder.string,
     .slot "taskQueue" (·.taskQueue) (fun draft queue => { draft with taskQueue := some queue })
       optionalString]
  start := {}
  finish := fun draft => do
    return { name := ← draft.name, taskQueue := draft.taskQueue.join }

structure ChildWorkflow.Draft where
  name : Option (Option String) := none
  taskQueue : Option (Option String) := none

def ChildWorkflow.shape : RecordShape ChildWorkflow.Draft ChildWorkflow where
  fields :=
    [.slot "name" (·.name) (fun draft name => { draft with name := some name }) optionalString,
     .slot "taskQueue" (·.taskQueue) (fun draft queue => { draft with taskQueue := some queue })
       optionalString]
  start := {}
  finish := fun draft => some { name := draft.name.join, taskQueue := draft.taskQueue.join }

structure Workflow.Draft where
  name : Option (Option String) := none
  activities : Option (List Activity) := none
  childWorkflows : Option (List ChildWorkflow) := none
  taskQueue : Option (Option String) := none

def Workflow.shape : RecordShape Workflow.Draft Workflow where
  fields :=
    [.slot "name" (·.name) (fun draft name => { draft with name := some name }) optionalString,
     .slot "activities" (·.activities)
       (fun draft activities => { draft with activities := some activities })
       (Decoder.list Activity.shape.decode),
     .slot "childWorkflows" (·.childWorkflows)
       (fun draft children => { draft with childWorkflows := some children })
       (Decoder.list ChildWorkflow.shape.decode),
     .slot "taskQueue" (·.taskQueue) (fun draft queue => { draft with taskQueue := some queue })
       optionalString]
  start := {}
  finish := fun draft => do
    return { name := draft.name.join, activities := ← draft.activities
             childWorkflows := ← draft.childWorkflows, taskQueue := draft.taskQueue.join }

structure Components.Draft where
  activities : Option (List Activity) := none
  workflows : Option (List Workflow) := none

def Components.shape : RecordShape Components.Draft Components where
  fields :=
    [.slot "activities" (·.activities)
       (fun draft activities => { draft with activities := some activities })
       (Decoder.list Activity.shape.decode),
     .slot "workflows" (·.workflows) (fun draft workflows => { draft with workflows := some workflows })
       (Decoder.list Workflow.shape.decode)]
  start := {}
  finish := fun draft => do
    return { activities := ← draft.activities, workflows := ← draft.workflows }

structure Manifest.Draft where
  serviceName : Option String := none
  registryVersion : Option String := none
  components : Option Components := none

def Manifest.shape : RecordShape Manifest.Draft Manifest where
  fields :=
    [.slot "serviceName" (·.serviceName) (fun draft name => { draft with serviceName := some name })
       Decoder.string,
     .slot "registryVersion" (·.registryVersion)
       (fun draft version => { draft with registryVersion := some version }) Decoder.string,
     .slot "components" (·.components)
       (fun draft components => { draft with components := some components })
       Components.shape.decode]
  start := {}
  finish := fun draft => do
    return { serviceName := ← draft.serviceName, registryVersion := ← draft.registryVersion
             components := ← draft.components }

def Activity.ofText : String → Except Problem Activity := Activity.shape.decode.ofText

def ChildWorkflow.ofText : String → Except Problem ChildWorkflow := ChildWorkflow.shape.decode.ofText

def Workflow.ofText : String → Except Problem Workflow := Workflow.shape.decode.ofText

def Components.ofText : String → Except Problem Components := Components.shape.decode.ofText

def Manifest.ofText : String → Except Problem Manifest := Manifest.shape.decode.ofText

end WorkflowAnalysis
