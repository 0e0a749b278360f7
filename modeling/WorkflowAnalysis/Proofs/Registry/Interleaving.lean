import Mathlib.Logic.Function.Basic
import WorkflowAnalysis.Proofs.Registry.Log

/-! Many clients of one registry. The registry is locked for one append at a time, and a worker takes two of
them, with an analysis in between during which others may append. Whatever the order in which the clients
get to run, no batch is lost, torn or doubled. -/
namespace WorkflowAnalysis

namespace Registry

/-! ### Clients -/

/-- What happens under the lock. -/
inductive Append where
  | activities (batch : List Activity)
  | workflows (batch : List Workflow)

def Append.activities? : Append → Option (List Activity)
  | .activities batch => some batch
  | .workflows _ => none

def Append.workflows? : Append → Option (List Workflow)
  | .activities _ => none
  | .workflows batch => some batch

def perform (registry : Registry) : Append → Registry
  | .activities batch => registry.appendActivities batch
  | .workflows batch => registry.appendWorkflows batch

/-- What a client still has to do. An analysis needs no lock; if it succeeds, its batch is appended at
another time. -/
inductive Action where
  | append (step : Append)
  | analyze (path : Path) (queue : String)

def Request.actions (request : Request) : List Action :=
  (request.batch?.toList.map fun batch => .append (.activities batch)) ++
    request.source?.toList.map fun source => .analyze source.1 source.2

/-- What a client does when it gets to run: the append that it makes, if any, and what is left to do. A
batch that fails is dropped, and the client goes on. -/
def advance (registry : Registry) (tree : FileTree) : List Action → Option Append × List Action
  | [] => (none, [])
  | .append step :: actions => (some step, actions)
  | .analyze path queue :: actions =>
    match registry.analyzeWorkflows tree path queue with
    | .ok batch => (none, .append (.workflows batch) :: actions)
    | .error _ => (none, actions)

/-! ### Interleavings -/

structure Shared (ι : Type) where
  registry : Registry
  pending : ι → List Action

/-- A client gets to run, on the files as they are then. -/
structure Turn (ι : Type) where
  client : ι
  tree : FileTree

namespace Shared

variable {ι : Type} [DecidableEq ι]

def turn (shared : Shared ι) (turn : Turn ι) : Option Append × Shared ι :=
  let (step, pending) := shared.registry.advance turn.tree (shared.pending turn.client)
  (step,
    { registry := step.elim shared.registry shared.registry.perform
      pending := Function.update shared.pending turn.client pending })

/-- The appends made in some turns, each with its client, and the state after them. -/
def play (shared : Shared ι) : List (Turn ι) → List (ι × Append) × Shared ι
  | [] => ([], shared)
  | turn :: turns =>
    let (step, shared) := shared.turn turn
    let (steps, shared) := shared.play turns
    (step.toList.map (turn.client, ·) ++ steps, shared)

end Shared

/-! ### Batches -/

def activityBatches (steps : List Append) : List (List Activity) := steps.filterMap Append.activities?

def workflowBatches (steps : List Append) : List (List Workflow) := steps.filterMap Append.workflows?

def pendingBatches : List Action → List (List Activity)
  | [] => []
  | .append step :: actions => activityBatches [step] ++ pendingBatches actions
  | .analyze _ _ :: actions => pendingBatches actions

section Batches

variable (activities : List Activity) (workflows : List Workflow) (steps later : List Append)

@[simp] theorem activityBatches_nil : activityBatches [] = [] := rfl

@[simp] theorem workflowBatches_nil : workflowBatches [] = [] := rfl

@[simp] theorem activityBatches_activities :
    activityBatches (.activities activities :: steps) = activities :: activityBatches steps := rfl

@[simp] theorem activityBatches_workflows :
    activityBatches (.workflows workflows :: steps) = activityBatches steps := rfl

@[simp] theorem workflowBatches_activities :
    workflowBatches (.activities activities :: steps) = workflowBatches steps := rfl

@[simp] theorem workflowBatches_workflows :
    workflowBatches (.workflows workflows :: steps) = workflows :: workflowBatches steps := rfl

@[simp] theorem activityBatches_append :
    activityBatches (steps ++ later) = activityBatches steps ++ activityBatches later :=
  List.filterMap_append

@[simp] theorem workflowBatches_append :
    workflowBatches (steps ++ later) = workflowBatches steps ++ workflowBatches later :=
  List.filterMap_append

end Batches

theorem pendingBatches_actions (request : Request) (actions : List Action) :
    pendingBatches (request.actions ++ actions) =
      request.batch?.toList ++ pendingBatches actions := by
  unfold Request.actions
  cases request.batch? <;> cases request.source? <;> simp [pendingBatches]

theorem pendingBatches_flatMap (program : List Request) :
    pendingBatches (program.flatMap Request.actions) = program.filterMap Request.batch? := by
  induction program with
  | nil => rfl
  | cons request program ih =>
    rw [List.flatMap_cons, pendingBatches_actions, ih]
    cases hb : request.batch? with
    | none => rw [List.filterMap_cons_none hb, Option.toList_none, List.nil_append]
    | some batch => rw [List.filterMap_cons_some hb, Option.toList_some, List.singleton_append]

def stepsOf {ι : Type} [DecidableEq ι] (client : ι) (steps : List (ι × Append)) : List Append :=
  (steps.filter fun step => step.1 = client).map Prod.snd

/-! ### What becomes of a program -/

/-- A client that set out with some actions has made some steps and has other actions left. Each action
is done once and in its turn; `seen` are the files that the client has met. -/
inductive Performs (vocabulary : Vocabulary) (seen : FileTree → Prop) :
    List Action → List Append → List Action → Prop where
  | waiting (actions : List Action) : Performs vocabulary seen actions [] actions
  | append {step : Append} {actions left : List Action} {steps : List Append}
      (rest : Performs vocabulary seen actions steps left) :
      Performs vocabulary seen (.append step :: actions) (step :: steps) left
  | registered {tree : FileTree} {path : Path} {queue : String} {batch : List Workflow}
      {actions left : List Action} {steps : List Append} (met : seen tree)
      (settles : Project.Settles { tree, vocabulary } path queue (.ok batch))
      (rest : Performs vocabulary seen actions steps left) :
      Performs vocabulary seen (.analyze path queue :: actions) (.workflows batch :: steps) left
  | failed {tree : FileTree} {path : Path} {queue : String} {failure : Failure}
      {actions left : List Action} {steps : List Append} (met : seen tree)
      (settles : Project.Settles { tree, vocabulary } path queue (.error failure))
      (rest : Performs vocabulary seen actions steps left) :
      Performs vocabulary seen (.analyze path queue :: actions) steps left
  | analyzed {tree : FileTree} {path : Path} {queue : String} {batch : List Workflow}
      (actions : List Action) (met : seen tree)
      (settles : Project.Settles { tree, vocabulary } path queue (.ok batch)) :
      Performs vocabulary seen (.analyze path queue :: actions) []
        (.append (.workflows batch) :: actions)

theorem performs_advance (registry : Registry) {seen : FileTree → Prop} {tree : FileTree}
    (met : seen tree) (actions : List Action) {steps : List Append} {left : List Action}
    (h : Performs registry.vocabulary seen (registry.advance tree actions).2 steps left) :
    Performs registry.vocabulary seen actions ((registry.advance tree actions).1.toList ++ steps)
      left := by
  match actions with
  | [] => exact h
  | .append step :: actions => exact .append h
  | .analyze path queue :: actions =>
    have settles := registry.settles_analyzeWorkflows tree path queue
    cases ho : registry.analyzeWorkflows tree path queue with
    | error failure =>
      rw [ho] at settles
      simp only [advance, ho] at h ⊢
      exact .failed met settles h
    | ok batch =>
      rw [ho] at settles
      simp only [advance, ho] at h ⊢
      -- The batch is still waiting to be appended, or that is the next step.
      cases h with
      | waiting => exact .analyzed actions met settles
      | append rest => exact .registered met settles rest

/-- The activities that are named are registered or pending: none is lost, and none is registered twice. -/
theorem Performs.pendingBatches_eq {vocabulary : Vocabulary} {seen : FileTree → Prop}
    {actions left : List Action} {steps : List Append}
    (h : Performs vocabulary seen actions steps left) :
    pendingBatches actions = activityBatches steps ++ pendingBatches left := by
  induction h with
  | waiting => rfl
  | @append step _ _ _ _ ih => cases step <;> simp [pendingBatches, ih]
  | registered _ _ _ ih => simp [pendingBatches, ih]
  | failed _ _ _ ih => simp [pendingBatches, ih]
  | analyzed => simp [pendingBatches]

section Steps

variable {ι : Type} [DecidableEq ι] {client other : ι}

theorem stepsOf_append (steps later : List (ι × Append)) :
    stepsOf client (steps ++ later) = stepsOf client steps ++ stepsOf client later := by
  simp [stepsOf]

theorem stepsOf_own (step : Option Append) :
    stepsOf client (step.toList.map (client, ·)) = step.toList := by
  cases step <;> simp [stepsOf]

theorem stepsOf_other (h : other ≠ client) (step : Option Append) :
    stepsOf client (step.toList.map (other, ·)) = [] := by
  cases step <;> simp [stepsOf, h]

end Steps

namespace Shared

variable {ι : Type} [DecidableEq ι]

theorem pending_turn (shared : Shared ι) (turn : Turn ι) :
    (shared.turn turn).2.pending = Function.update shared.pending turn.client
      (shared.registry.advance turn.tree (shared.pending turn.client)).2 :=
  rfl

/-- One turn adds the batch of the step that is made. -/
theorem registry_turn (shared : Shared ι) (turn : Turn ι) :
    (shared.turn turn).2.registry =
      shared.registry.extend (activityBatches (shared.turn turn).1.toList).flatten
        (workflowBatches (shared.turn turn).1.toList).flatten := by
  unfold Shared.turn
  obtain ⟨step, left⟩ := shared.registry.advance turn.tree (shared.pending turn.client)
  match step with
  | none => simp
  | some (.activities batch) => simp [perform, appendActivities_eq_extend]
  | some (.workflows batch) => simp [perform, appendWorkflows_eq_extend]

theorem registry_play (shared : Shared ι) (turns : List (Turn ι)) :
    (shared.play turns).2.registry =
      shared.registry.extend (activityBatches ((shared.play turns).1.map Prod.snd)).flatten
        (workflowBatches ((shared.play turns).1.map Prod.snd)).flatten := by
  induction turns generalizing shared with
  | nil => simp [play]
  | cons turn turns ih =>
    have hsteps (step : Option Append) :
        (step.toList.map (turn.client, ·)).map Prod.snd = step.toList := by
      simp [Function.comp_def]
    simp only [play, ih, registry_turn, extend_extend, List.map_append, hsteps,
      activityBatches_append, workflowBatches_append, List.flatten_append]

theorem performs_play (shared : Shared ι) (client : ι) (seen : FileTree → Prop)
    (turns : List (Turn ι)) (met : ∀ turn ∈ turns, turn.client = client → seen turn.tree) :
    Performs shared.registry.vocabulary seen (shared.pending client)
      (stepsOf client (shared.play turns).1) ((shared.play turns).2.pending client) := by
  induction turns generalizing shared with
  | nil => exact .waiting _
  | cons turn turns ih =>
    have hrest := ih (shared.turn turn).2 fun later h => met later (List.mem_cons_of_mem _ h)
    have hvocabulary : (shared.turn turn).2.registry.vocabulary = shared.registry.vocabulary := by
      rw [registry_turn]
      rfl
    rw [hvocabulary, pending_turn] at hrest
    simp only [play, stepsOf_append]
    -- Nobody but the client itself changes what it has left to do.
    by_cases hc : turn.client = client
    · subst hc
      rw [Function.update_self] at hrest
      rw [stepsOf_own]
      exact performs_advance shared.registry (met turn List.mem_cons_self rfl) _ hrest
    · rw [Function.update_of_ne (Ne.symm hc)] at hrest
      rw [stepsOf_other hc, List.nil_append]
      exact hrest

theorem play_append (shared : Shared ι) (turns later : List (Turn ι)) :
    shared.play (turns ++ later) =
      ((shared.play turns).1 ++ ((shared.play turns).2.play later).1,
        ((shared.play turns).2.play later).2) := by
  induction turns generalizing shared with
  | nil => rfl
  | cons turn turns ih => simp [play, ih]

end Shared

/-! ### Calls that nobody interrupts -/

section Uninterrupted

variable {ι : Type} [DecidableEq ι] (shared : Shared ι) (client : ι) (tree : FileTree)
  {actions : List Action}

/-- The client alone runs for some turns and leaves the registry and its own actions in a given state. -/
def Shared.Reaches (registry : Registry) (actions : List Action) : Prop :=
  ∃ n, (shared.play (.replicate n { client, tree })).2 =
    { registry, pending := Function.update shared.pending client actions }

variable {shared client tree}

theorem Shared.Reaches.trans {registry registry' : Registry} {actions actions' : List Action}
    (h : shared.Reaches client tree registry actions)
    (h' : Shared.Reaches { registry, pending := Function.update shared.pending client actions }
      client tree registry' actions') :
    shared.Reaches client tree registry' actions' := by
  obtain ⟨n, hn⟩ := h
  obtain ⟨m, hm⟩ := h'
  refine ⟨n + m, ?_⟩
  rw [List.replicate_add, Shared.play_append, hn, hm, Function.update_idem]

theorem Shared.reaches_append {step : Append}
    (h : shared.pending client = .append step :: actions) :
    shared.Reaches client tree (shared.registry.perform step) actions :=
  ⟨1, by simp [Shared.play, Shared.turn, h, advance]⟩

theorem Shared.reaches_analyze {path : Path} {queue : String}
    (h : shared.pending client = .analyze path queue :: actions) :
    shared.Reaches client tree (shared.registry.addWorkflows tree path queue).2 actions := by
  unfold addWorkflows
  cases ho : shared.registry.analyzeWorkflows tree path queue with
  | error failure => exact ⟨1, by simp [Shared.play, Shared.turn, h, advance, ho]⟩
  | ok batch => exact ⟨2, by simp [Shared.play, Shared.turn, h, advance, ho, perform]⟩

/-- A call that nobody interrupts leaves the registry as if there were no other clients. -/
theorem Shared.reaches_serve {request : Request}
    (h : shared.pending client = request.actions ++ actions) :
    shared.Reaches client tree (shared.registry.serve { tree, request }).2 actions := by
  cases request with
  | activities names queue => exact Shared.reaches_append h
  | workflows path queue =>
    have hserve : (shared.registry.serve { tree, request := .workflows path queue }).2 =
        (shared.registry.addWorkflows tree path queue).2 := by
      simp only [serve]
      split <;> simp [*]
    rw [hserve]
    exact Shared.reaches_analyze h
  | worker hired =>
    cases hp : hired.workflowsPath with
    | none =>
      have hserve : (shared.registry.serve { tree, request := .worker hired }).2 =
          shared.registry.addActivities hired.activityNames (some hired.taskQueue) := by
        simp [serve, addWorker, hp]
      have hfirst : shared.pending client = .append (.activities
          (hired.activityNames.map fun name => ⟨name, some hired.taskQueue⟩)) :: actions := by
        simpa [Request.actions, Request.batch?, Request.source?, hp] using h
      rw [hserve]
      exact Shared.reaches_append hfirst
    | some path =>
      have hserve : (shared.registry.serve { tree, request := .worker hired }).2 =
          ((shared.registry.addActivities hired.activityNames (some hired.taskQueue)).addWorkflows
            tree path hired.taskQueue).2 := by
        simp only [serve, addWorker, hp]
        split <;> simp_all
      have hfirst : shared.pending client = .append (.activities
          (hired.activityNames.map fun name => ⟨name, some hired.taskQueue⟩)) ::
            .analyze path hired.taskQueue :: actions := by
        simpa [Request.actions, Request.batch?, Request.source?, hp] using h
      rw [hserve]
      exact (Shared.reaches_append hfirst).trans (Shared.reaches_analyze (by simp))

end Uninterrupted

section Serial

variable {ι : Type} [DecidableEq ι]

/-- What a client has to do for its share of some calls. -/
def share (calls : List (ι × Call)) (client : ι) : List Action :=
  (calls.filter fun call => call.1 = client).flatMap fun call => call.2.request.actions

theorem share_cons_self (client : ι) (call : Call) (calls : List (ι × Call)) :
    share ((client, call) :: calls) client = call.request.actions ++ share calls client := by
  simp [share]

theorem update_share (client : ι) (call : Call) (calls : List (ι × Call)) :
    Function.update (share ((client, call) :: calls)) client (share calls client) = share calls := by
  funext other
  by_cases ho : other = client
  · rw [ho, Function.update_self]
  · simp [Function.update_of_ne ho, share, Ne.symm ho]

/-- Calls one after the other are one of the interleavings of their clients. -/
theorem exists_play_eq_serveAll (registry : Registry) (calls : List (ι × Call)) :
    ∃ turns : List (Turn ι), (Shared.play { registry, pending := share calls } turns).2 =
      { registry := (registry.serveAll (calls.map Prod.snd)).2, pending := fun _ => [] } := by
  induction calls generalizing registry with
  | nil => exact ⟨[], rfl⟩
  | cons call calls ih =>
    obtain ⟨client, call⟩ := call
    obtain ⟨n, hn⟩ : Shared.Reaches { registry, pending := share ((client, call) :: calls) } client
        call.tree (registry.serve call).2 (share calls client) :=
      Shared.reaches_serve (share_cons_self client call calls)
    obtain ⟨later, hlater⟩ := ih (registry.serve call).2
    refine ⟨.replicate n { client, tree := call.tree } ++ later, ?_⟩
    rw [Shared.play_append, hn, update_share, hlater]
    rfl

end Serial

/-- Whatever the order in which clients get to run, the registry holds the batches of the steps that they
have made, whole and in the order of the steps. The steps of a client are those of its program, in the
order of the program: a batch that succeeds is appended once, one that fails is not appended, and the
rest is pending. What is registered at one moment stands in front of whatever is registered later. -/
theorem play_keepsBatches {ι : Type} [DecidableEq ι] (service : String) (vocabulary : Vocabulary)
    (programs : ι → List Request) (turns : List (Turn ι)) :
    let start : Shared ι :=
      { registry := { serviceName := service, vocabulary }
        pending := fun client => (programs client).flatMap Request.actions }
    let steps : Nat → List (ι × Append) := fun k => (start.play (turns.take k)).1
    let after : Nat → Shared ι := fun k => (start.play (turns.take k)).2
    (∀ k,
      (after k).registry.components.activities =
        (activityBatches ((steps k).map Prod.snd)).flatten ∧
      (after k).registry.components.workflows =
        (workflowBatches ((steps k).map Prod.snd)).flatten) ∧
    (∀ k client,
      Performs vocabulary (fun tree => { client, tree } ∈ turns.take k)
        ((programs client).flatMap Request.actions) (stepsOf client (steps k))
        ((after k).pending client) ∧
      (programs client).filterMap Request.batch? =
        activityBatches (stepsOf client (steps k)) ++ pendingBatches ((after k).pending client)) ∧
    ∀ j k, j ≤ k → (after j).registry.components.IsPrefixOf (after k).registry.components := by
  intro start steps after
  refine ⟨?_, ?_, ?_⟩
  · intro k
    have h := start.registry_play (turns.take k)
    constructor
    · simp [after, h, extend, start, steps]
    · simp [after, h, extend, start, steps]
  · intro k client
    have hperforms := start.performs_play client (fun tree => { client, tree } ∈ turns.take k)
      (turns.take k) (by rintro ⟨_, tree⟩ hturn rfl; exact hturn)
    refine ⟨hperforms, ?_⟩
    rw [← pendingBatches_flatMap]
    exact hperforms.pendingBatches_eq
  · intro j k hjk
    obtain ⟨later, hlater⟩ : turns.take j <+: turns.take k := List.take_prefix_take_left hjk
    simp only [after, ← hlater, Shared.play_append, Shared.registry_play _ later]
    exact isPrefixOf_extend _ _ _

end Registry

end WorkflowAnalysis
