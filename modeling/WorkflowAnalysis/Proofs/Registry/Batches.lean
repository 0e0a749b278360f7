import Mathlib.Data.List.Forall2
import WorkflowAnalysis.Proofs.Files.Listings
import WorkflowAnalysis.Registry

/-! Batches of workflows. The files of a directory are analyzed in any order, but the results are read in
the order of the names. So a batch is complete, or it fails with the failure of the file whose name comes
first among those that fail. -/
namespace WorkflowAnalysis

namespace FileTree

variable {tree : FileTree} {directory : Path} {files : List Path}

theorem workflowFiles_eq_ok : tree.workflowFiles directory = .ok files ↔
    ∃ names, tree.fileNames directory = .ok names ∧
      files = ((names.filterMap FileName.text?).filter isWorkflowFileName).map fun name =>
        directory.join ⟨[], name⟩ := by
  unfold workflowFiles
  cases tree.fileNames directory with
  | error fault => simp [Except.mapError, bind, Except.bind]
  | ok names => simp [Except.mapError, bind, Except.bind, pure, Except.pure, eq_comm]

theorem mem_textNames {names : List FileName} {name : String} :
    name ∈ names.filterMap FileName.text? ↔ .ofText name ∈ names := by
  simp only [List.mem_filterMap, FileName.text?_eq_some, exists_eq_right]

theorem pairwise_textNames {names : List FileName} (h : names.Pairwise fun a b => a.bytes < b.bytes) :
    (names.filterMap FileName.text?).Pairwise fun a b => utf8Bytes a < utf8Bytes b := by
  refine h.filterMap _ ?_
  rintro a b hab text ha text' hb
  rw [FileName.text?_eq_some] at ha hb
  subst ha hb
  exact hab

theorem last_join_name (directory : Path) (name : String) :
    (directory.join ⟨[], name⟩).last = name := by
  unfold Path.join
  split
  · rfl
  · split <;> rfl

theorem pairwise_workflowFiles (h : tree.workflowFiles directory = .ok files) :
    files.Pairwise fun a b => utf8Bytes a.last < utf8Bytes b.last := by
  obtain ⟨names, hn, rfl⟩ := workflowFiles_eq_ok.mp h
  rw [List.pairwise_map]
  simp only [last_join_name]
  exact (pairwise_textNames (pairwise_fileNames hn)).filter _

end FileTree

/-! ### Outcomes -/

inductive Project.Registers (project : Project) (path : Path) (queue : String) :
    Except Failure (List Workflow) → Prop where
  | unlistable {failure : Failure}
      (listing : project.tree.workflowFiles (project.tree.workflowDirectory path) = .error failure) :
      project.Registers path queue (.error failure)
  | aborted {files : List Path} {file : Path} {failure : Failure}
      (listing : project.tree.workflowFiles (project.tree.workflowDirectory path) = .ok files)
      (listed : file ∈ files) (fails : project.analyze file queue = .error failure)
      (first : ∀ other ∈ files, ∀ failure', project.analyze other queue = .error failure' →
        other = file ∨ utf8Bytes file.last < utf8Bytes other.last) :
      project.Registers path queue (.error failure)
  | complete {files : List Path} {records : List Workflow}
      (listing : project.tree.workflowFiles (project.tree.workflowDirectory path) = .ok files)
      (analyzed : List.Forall₂ (fun file record => project.analyze file queue = .ok record)
        files records) :
      project.Registers path queue
        (.ok (records.map fun record => { record with taskQueue := some queue }))

theorem mapM_cases {α β ε : Type} (f : α → Except ε β) (xs : List α) :
    (∃ ys, xs.mapM f = .ok ys ∧ List.Forall₂ (fun x y => f x = .ok y) xs ys) ∨
      ∃ before x after e, xs = before ++ x :: after ∧ xs.mapM f = .error e ∧ f x = .error e ∧
        ∀ b ∈ before, ∃ y, f b = .ok y := by
  induction xs with
  | nil => exact .inl ⟨[], rfl, .nil⟩
  | cons x xs ih =>
    rw [List.mapM_cons]
    cases hx : f x with
    | error e => exact .inr ⟨[], x, xs, e, rfl, rfl, hx, by simp⟩
    | ok y =>
      rcases ih with ⟨ys, hm, hall⟩ | ⟨before, bad, after, e, rfl, hm, hbad, hbefore⟩
      · refine .inl ⟨y :: ys, ?_, .cons hx hall⟩
        rw [hm]
        rfl
      · refine .inr ⟨x :: before, bad, after, e, rfl, ?_, hbad, ?_⟩
        · rw [hm]
          rfl
        · intro b hb
          rcases List.mem_cons.mp hb with rfl | hb
          · exact ⟨y, hx⟩
          · exact hbefore b hb

namespace Project

def analyzeFor (project : Project) (queue : String) (file : Path) : Except Failure Workflow :=
  (project.analyze file queue).map fun record => { record with taskQueue := some queue }

variable {project : Project} {queue : String} {file : Path}

theorem analyzeFor_eq_error {failure : Failure} :
    project.analyzeFor queue file = .error failure ↔ project.analyze file queue = .error failure := by
  unfold analyzeFor
  cases project.analyze file queue with
  | error cause => simp [Except.map]
  | ok record => simp [Except.map]

theorem analyzeFor_eq_ok {workflow : Workflow} :
    project.analyzeFor queue file = .ok workflow ↔
      ∃ record, project.analyze file queue = .ok record ∧
        { record with taskQueue := some queue } = workflow := by
  unfold analyzeFor
  cases project.analyze file queue with
  | error cause => simp [Except.map]
  | ok record => simp [Except.map]

theorem exists_records {files : List Path} {workflows : List Workflow}
    (h : List.Forall₂ (fun file workflow => project.analyzeFor queue file = .ok workflow)
      files workflows) :
    ∃ records, List.Forall₂ (fun file record => project.analyze file queue = .ok record)
      files records ∧ workflows = records.map fun record => { record with taskQueue := some queue } := by
  induction h with
  | nil => exact ⟨[], .nil, rfl⟩
  | cons hfile _ ih =>
    obtain ⟨record, hrecord, rfl⟩ := analyzeFor_eq_ok.mp hfile
    obtain ⟨records, hall, rfl⟩ := ih
    exact ⟨record :: records, .cons hrecord hall, rfl⟩

/-- Reading the results of a listing in its order gives what a registration has to come to. -/
theorem registers_mapM {path : Path} {files : List Path}
    (hl : project.tree.workflowFiles (project.tree.workflowDirectory path) = .ok files) :
    project.Registers path queue (files.mapM (project.analyzeFor queue)) := by
  rcases mapM_cases (project.analyzeFor queue) files with
    ⟨workflows, hm, hall⟩ | ⟨before, file, after, failure, he, hm, hfail, hbefore⟩
  · obtain ⟨records, hrecords, rfl⟩ := exists_records hall
    rw [hm]
    exact .complete hl hrecords
  · rw [hm]
    refine .aborted hl (by simp [he]) (analyzeFor_eq_error.mp hfail) ?_
    intro other hother failure' hfail'
    have hsorted := FileTree.pairwise_workflowFiles hl
    rw [he, List.pairwise_append, List.pairwise_cons] at hsorted
    rw [he, List.mem_append, List.mem_cons] at hother
    rcases hother with hother | rfl | hother
    · -- What stands before the failing file does not fail.
      obtain ⟨workflow, hok⟩ := hbefore other hother
      rw [analyzeFor_eq_error.mpr hfail'] at hok
      cases hok
    · exact .inl rfl
    · exact .inr (hsorted.2.1.1 other hother)

end Project

/-! ### Analyses that run side by side -/

/-- The results of some tasks after those with given numbers have finished one after the other. Each
result stands in the slot of its task. -/
def resultsAfter {α β : Type} (work : α → β) (tasks : List α) (finished : List Nat) : List (Option β) :=
  finished.foldl (fun slots i => slots.set i (tasks[i]?.map work)) (tasks.map fun _ => none)

theorem getElem?_foldl_set {β : Type} (result : Nat → Option β) (finished : List Nat)
    (slots : List (Option β)) (i : Nat) (hi : i < slots.length) :
    (finished.foldl (fun slots i => slots.set i (result i)) slots)[i]? =
      if i ∈ finished then some (result i) else slots[i]? := by
  induction finished generalizing slots with
  | nil => simp
  | cons first finished ih =>
    rw [List.foldl_cons, ih _ (by simpa using hi)]
    by_cases hm : i ∈ finished
    · simp [hm]
    · by_cases hf : first = i
      · subst hf
        simp [hi]
      · simp [hm, List.getElem?_set_ne hf, Ne.symm hf]

theorem length_foldl_set {β : Type} (result : Nat → Option β) (finished : List Nat)
    (slots : List (Option β)) :
    (finished.foldl (fun slots i => slots.set i (result i)) slots).length = slots.length := by
  induction finished generalizing slots with
  | nil => rfl
  | cons first finished ih => rw [List.foldl_cons, ih, List.length_set]

/-- Once all tasks have finished, the order in which they did so cannot be told. -/
theorem resultsAfter_eq_map {α β : Type} (work : α → β) (tasks : List α) {finished : List Nat}
    (h : finished.Perm (List.range tasks.length)) :
    resultsAfter work tasks finished = tasks.map fun task => some (work task) := by
  apply List.ext_getElem?
  intro i
  unfold resultsAfter
  by_cases hi : i < tasks.length
  · have hm : i ∈ finished := h.mem_iff.mpr (List.mem_range.mpr hi)
    rw [getElem?_foldl_set _ _ _ _ (by simpa using hi), if_pos hm]
    simp [hi]
  · rw [List.getElem?_eq_none (by rw [length_foldl_set]; simpa using hi),
      List.getElem?_eq_none (by simpa using hi)]

/-- The batch that some results make up, once none is missing. -/
def collect {β ε : Type} (slots : List (Option (Except ε β))) : Option (Except ε (List β)) :=
  (slots.mapM id).map fun results => results.mapM id

theorem collect_map_some {α β ε : Type} (work : α → Except ε β) (tasks : List α) :
    collect (tasks.map fun task => some (work task)) = some (tasks.mapM work) := by
  have hall : (tasks.map fun task => some (work task)).mapM id = some (tasks.map work) := by
    rw [List.mapM_map]
    exact List.mapM_pure
  rw [collect, hall, Option.map_some, List.mapM_map]
  rfl

/-- What a registration comes to. Its files may be analyzed side by side: whichever finishes first, the
outcome is the same. -/
structure Project.Settles (project : Project) (path : Path) (queue : String)
    (outcome : Except Failure (List Workflow)) : Prop where
  registers : project.Registers path queue outcome
  any_order : ∀ files finished,
    project.tree.workflowFiles (project.tree.workflowDirectory path) = .ok files →
    finished.Perm (List.range files.length) →
    collect (resultsAfter (project.analyzeFor queue) files finished) = some outcome

namespace Registry

theorem analyzeWorkflows_eq (registry : Registry) (tree : FileTree) (path : Path) (queue : String) :
    registry.analyzeWorkflows tree path queue =
      tree.workflowFiles (tree.workflowDirectory path) >>=
        List.mapM (Project.analyzeFor { tree, vocabulary := registry.vocabulary } queue) :=
  rfl

theorem settles_analyzeWorkflows (registry : Registry) (tree : FileTree) (path : Path)
    (queue : String) :
    Project.Settles { tree, vocabulary := registry.vocabulary } path queue
      (registry.analyzeWorkflows tree path queue) := by
  rw [analyzeWorkflows_eq]
  cases hl : tree.workflowFiles (tree.workflowDirectory path) with
  | error failure =>
    refine ⟨.unlistable hl, ?_⟩
    intro files finished hfiles
    cases hl.symm.trans hfiles
  | ok files =>
    refine ⟨Project.registers_mapM hl, ?_⟩
    intro files' finished hfiles hf
    cases hl.symm.trans hfiles
    rw [resultsAfter_eq_map _ _ hf, collect_map_some]
    rfl

end Registry

end WorkflowAnalysis
