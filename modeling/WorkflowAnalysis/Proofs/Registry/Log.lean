import WorkflowAnalysis.Proofs.Registry.Batches

/-! The log of a registry. Every call appends: the activities that it names, and the workflows that it
finds if none of them fails. What is registered after some calls is settled by the calls and by the files
as they were at each of them, and stays in front of all that comes later. -/
namespace WorkflowAnalysis

/-- What is registered at one moment stands in front of what is registered at another. -/
structure Components.IsPrefixOf (earlier later : Components) : Prop where
  activities : earlier.activities <+: later.activities
  workflows : earlier.workflows <+: later.workflows

namespace Registry

/-! ### Calls -/

inductive Request where
  | activities (names : List String) (queue : Option String)
  | workflows (path : Path) (queue : String)
  | worker (worker : Worker)

structure Call where
  tree : FileTree
  request : Request

inductive Answer where
  | done
  | count (appended : Nat)
  | failed (failure : Failure)
deriving DecidableEq, Repr

def serve (registry : Registry) (call : Call) : Answer × Registry :=
  match call.request with
  | .activities names queue => (.done, registry.addActivities names queue)
  | .workflows path queue =>
    match registry.addWorkflows call.tree path queue with
    | (.ok appended, registry) => (.count appended, registry)
    | (.error failure, registry) => (.failed failure, registry)
  | .worker worker =>
    match registry.addWorker call.tree worker with
    | (.ok (), registry) => (.done, registry)
    | (.error failure, registry) => (.failed failure, registry)

def serveAll (registry : Registry) : List Call → List Answer × Registry
  | [] => ([], registry)
  | call :: calls =>
    let (answer, registry) := registry.serve call
    let (answers, registry) := registry.serveAll calls
    (answer :: answers, registry)

/-! ### What a call is due -/

def Request.batch? : Request → Option (List Activity)
  | .activities names queue => some (names.map fun name => ⟨name, queue⟩)
  | .workflows _ _ => none
  | .worker hired => some (hired.activityNames.map fun name => ⟨name, some hired.taskQueue⟩)

/-- Where a request looks for workflows, and their queue. -/
def Request.source? : Request → Option (Path × String)
  | .activities _ _ => none
  | .workflows path queue => some (path, queue)
  | .worker hired => hired.workflowsPath.map fun path => (path, hired.taskQueue)

def Request.answer : Request → Except Failure (List Workflow) → Answer
  | _, .error failure => .failed failure
  | .workflows _ _, .ok batch => .count batch.length
  | _, .ok _ => .done

def Call.activities (call : Call) : List Activity := call.request.batch?.getD []

/-- What becomes of the workflows of a call, on the files as they are at that call. -/
def Call.ComesTo (vocabulary : Vocabulary) (call : Call) (outcome : Except Failure (List Workflow)) :
    Prop :=
  match call.request.source? with
  | none => outcome = .ok []
  | some (path, queue) => Project.Settles { tree := call.tree, vocabulary } path queue outcome

/-- The workflows that an outcome adds: all or none. -/
def appended : Except Failure (List Workflow) → List Workflow
  | .ok workflows => workflows
  | .error _ => []

/-! ### Steps -/

def extend (registry : Registry) (activities : List Activity) (workflows : List Workflow) : Registry :=
  { registry with
    components :=
      { activities := registry.components.activities ++ activities
        workflows := registry.components.workflows ++ workflows } }

theorem appendActivities_eq_extend (registry : Registry) (activities : List Activity) :
    registry.appendActivities activities = registry.extend activities [] := by
  simp [appendActivities, extend]

theorem appendWorkflows_eq_extend (registry : Registry) (workflows : List Workflow) :
    registry.appendWorkflows workflows = registry.extend [] workflows := by
  simp [appendWorkflows, extend]

@[simp] theorem extend_nil (registry : Registry) : registry.extend [] [] = registry := by
  simp [extend]

@[simp] theorem extend_extend (registry : Registry) (activities activities' : List Activity)
    (workflows workflows' : List Workflow) :
    (registry.extend activities workflows).extend activities' workflows' =
      registry.extend (activities ++ activities') (workflows ++ workflows') := by
  simp [extend]

theorem isPrefixOf_extend (registry : Registry) (activities : List Activity)
    (workflows : List Workflow) :
    registry.components.IsPrefixOf (registry.extend activities workflows).components :=
  ⟨List.prefix_append _ _, List.prefix_append _ _⟩

def outcome (registry : Registry) (call : Call) : Except Failure (List Workflow) :=
  match call.request.source? with
  | none => .ok []
  | some (path, queue) => registry.analyzeWorkflows call.tree path queue

@[simp] theorem outcome_extend (registry : Registry) (activities : List Activity)
    (workflows : List Workflow) (call : Call) :
    (registry.extend activities workflows).outcome call = registry.outcome call :=
  rfl

theorem comesTo_outcome (registry : Registry) (call : Call) :
    call.ComesTo registry.vocabulary (registry.outcome call) := by
  unfold Call.ComesTo outcome
  cases call.request.source? with
  | none => rfl
  | some source => exact registry.settles_analyzeWorkflows call.tree source.1 source.2

@[simp] theorem analyzeWorkflows_extend (registry : Registry) (activities : List Activity)
    (workflows : List Workflow) (tree : FileTree) (path : Path) (queue : String) :
    (registry.extend activities workflows).analyzeWorkflows tree path queue =
      registry.analyzeWorkflows tree path queue :=
  rfl

theorem addWorkflows_eq_extend (registry : Registry) (tree : FileTree) (path : Path) (queue : String) :
    registry.addWorkflows tree path queue =
      ((registry.analyzeWorkflows tree path queue).map List.length,
        registry.extend [] (appended (registry.analyzeWorkflows tree path queue))) := by
  unfold addWorkflows
  cases registry.analyzeWorkflows tree path queue with
  | error failure => simp [appended, Except.map]
  | ok workflows => simp [appended, Except.map, appendWorkflows_eq_extend]

/-- One call: the registry is extended by the activities named and by the outcome, whatever it is. -/
theorem serve_eq_extend (registry : Registry) (call : Call) :
    registry.serve call = (call.request.answer (registry.outcome call),
      registry.extend call.activities (appended (registry.outcome call))) := by
  obtain ⟨tree, request⟩ := call
  cases request with
  | activities names queue =>
    simp [serve, addActivities, appendActivities_eq_extend, Call.activities, Request.batch?, outcome,
      Request.source?, Request.answer, appended]
  | workflows path queue =>
    simp only [serve, addWorkflows_eq_extend, Call.activities, Request.batch?, outcome, Request.source?]
    cases registry.analyzeWorkflows tree path queue <;> rfl
  | worker hired =>
    cases hp : hired.workflowsPath with
    | none =>
      simp [serve, addWorker, hp, addActivities, appendActivities_eq_extend, Call.activities,
        Request.batch?, outcome, Request.source?, Request.answer, appended]
    | some path =>
      simp only [serve, addWorker, hp, addActivities, appendActivities_eq_extend,
        addWorkflows_eq_extend, analyzeWorkflows_extend, extend_extend, Call.activities,
        Request.batch?, outcome, Request.source?, Option.map_some, Option.getD_some,
        List.append_nil, List.nil_append]
      cases registry.analyzeWorkflows tree path hired.taskQueue <;> rfl

/-! ### Runs -/

theorem serveAll_eq_extend (registry : Registry) (calls : List Call) :
    registry.serveAll calls =
      (calls.map fun call => call.request.answer (registry.outcome call),
        registry.extend (calls.flatMap Call.activities)
          (calls.flatMap fun call => appended (registry.outcome call))) := by
  induction calls generalizing registry with
  | nil => simp [serveAll]
  | cons call calls ih =>
    -- A call leaves the vocabulary alone, and with it what becomes of later calls.
    simp only [serveAll, serve_eq_extend, ih, outcome_extend, extend_extend, List.map_cons,
      List.flatMap_cons]

theorem forall₂_outcome (registry : Registry) (calls : List Call) :
    List.Forall₂ (Call.ComesTo registry.vocabulary) calls (calls.map registry.outcome) := by
  rw [List.forall₂_map_right_iff, List.forall₂_same]
  intro call _
  exact registry.comesTo_outcome call

/-- A registry is a log of the calls on it, from the first on. After any number of calls it holds the
activities that they name and the workflows of those that came to a batch, in the order of the calls.
A call that fails adds no workflows and answers with the failure; one that asks for workflows alone
answers how many it added. So what is registered at one moment stands in front of whatever is
registered later. -/
theorem serveAll_isLog (service : String) (vocabulary : Vocabulary) (calls : List Call) :
    let fresh : Registry := { serviceName := service, vocabulary }
    let snapshot : Nat → Components := fun k => (fresh.serveAll (calls.take k)).2.components
    ∃ outcomes, List.Forall₂ (Call.ComesTo vocabulary) calls outcomes ∧
      (fresh.serveAll calls).1 = List.zipWith Request.answer (calls.map Call.request) outcomes ∧
      (∀ k, (snapshot k).activities = (calls.take k).flatMap Call.activities ∧
        (snapshot k).workflows = (outcomes.take k).flatMap appended) ∧
      ∀ j k, j ≤ k → (snapshot j).IsPrefixOf (snapshot k) := by
  intro fresh snapshot
  refine ⟨calls.map fresh.outcome, fresh.forall₂_outcome calls, ?_, ?_, ?_⟩
  · rw [serveAll_eq_extend, List.zipWith_map, List.zipWith_self]
  · intro k
    constructor
    · simp [snapshot, serveAll_eq_extend, extend, fresh]
    · simp [snapshot, serveAll_eq_extend, extend, fresh, ← List.map_take, List.flatMap_map]
  · intro j k hjk
    obtain ⟨later, hlater⟩ : calls.take j <+: calls.take k := List.take_prefix_take_left hjk
    simp only [snapshot, ← hlater, serveAll_eq_extend, List.flatMap_append, ← extend_extend]
    exact isPrefixOf_extend _ _ _

end Registry

end WorkflowAnalysis
