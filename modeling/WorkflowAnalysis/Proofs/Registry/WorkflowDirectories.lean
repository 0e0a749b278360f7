import WorkflowAnalysis.Proofs.Registry.Batches

/-! The directory that a path to a workflow file stands for. It is the parent of the path, which can be
listed and lists the file, except for a name without a slash: the parent of such a name is the empty path,
and that leads nowhere. -/
namespace WorkflowAnalysis

namespace FileTree

open WorkflowAnalysis.Path

variable {tree : FileTree} {p : Path} {bytes : ByteArray}

theorem workflowDirectory_of_locate (h : tree.locate p = .ok (.file bytes)) :
    tree.workflowDirectory p = p.parent?.getD (ofString ".") := by
  have hd : tree.isDirectory p = false := by simp [isDirectory, h]
  simp [workflowDirectory, hd]

/-- A path to a file can be given to a registry: its directory can be listed, the file is among the
workflow files there if its name is that of one, and a registration fails only for a file that fails. -/
structure ServesDirectory (tree : FileTree) (p : Path) : Prop where
  listable : ∃ files, tree.workflowFiles (tree.workflowDirectory p) = .ok files
  listed : ∀ files name, tree.workflowFiles (tree.workflowDirectory p) = .ok files →
    p.fileName? = some name → isWorkflowFileName name = true →
      ∃ file ∈ files, file.place tree.cwd = p.place tree.cwd ∧ tree.locate file = tree.locate p
  fails_only : ∀ (registry : Registry) (queue : String) (failure : Failure),
    (registry.addWorkflows tree p queue).1 = .error failure →
      ∃ files, tree.workflowFiles (tree.workflowDirectory p) = .ok files ∧ ∃ file ∈ files,
        Project.analyze { tree, vocabulary := registry.vocabulary } file queue = .error failure

theorem addWorkflows_eq_error {registry : Registry} {queue : String} {failure : Failure}
    (h : (registry.addWorkflows tree p queue).1 = .error failure) :
    Project.Registers { tree, vocabulary := registry.vocabulary } p queue (.error failure) := by
  have hr := (registry.settles_analyzeWorkflows tree p queue).registers
  unfold Registry.addWorkflows at h
  cases ho : registry.analyzeWorkflows tree p queue with
  | error cause =>
    rw [ho] at h hr
    cases h
    exact hr
  | ok workflows =>
    rw [ho] at h
    cases h

theorem servesDirectory_of_init_ne_nil (h : tree.locate p = .ok (.file bytes)) (hi : p.init ≠ []) :
    tree.ServesDirectory p := by
  obtain ⟨parent, hparent, hlocate, hplace⟩ := exists_parent h hi
  have hdirectory : tree.workflowDirectory p = parent := by
    rw [workflowDirectory_of_locate h, hparent, Option.getD_some]
  obtain ⟨names, hnames, hmem⟩ := exists_fileNames hlocate
  have hlisting : tree.workflowFiles (tree.workflowDirectory p) =
      .ok (((names.filterMap FileName.text?).filter isWorkflowFileName).map fun name =>
        parent.join ⟨[], name⟩) := by
    rw [hdirectory]
    exact workflowFiles_eq_ok.mpr ⟨names, hnames, rfl⟩
  refine ⟨⟨_, hlisting⟩, ?_, ?_⟩
  · intro files name hfiles hname haccepted
    rw [hlisting] at hfiles
    cases hfiles
    obtain ⟨rfl, hplain⟩ := fileName?_of_not_isIdle (isIdle_last h) hname
    have hp : p.place tree.cwd = parent.place tree.cwd ++ [p.last] := by
      rw [hplace, place_eq_concat hplain]
    have hfind := find?_place h
    rw [hp] at hfind
    refine ⟨parent.join ⟨[], p.last⟩, ?_, ?_, ?_⟩
    · have hheld := holdsFile_ofText.mpr ⟨bytes, hfind⟩
      have hname := mem_textNames.mpr ((hmem _).mpr hheld)
      exact List.mem_map.mpr ⟨p.last, List.mem_filter.mpr ⟨hname, haccepted⟩, rfl⟩
    · rw [place_join_name hplain, hp]
    · rw [h]
      exact locate_join_name hlocate hplain hfind
  · intro registry queue failure hfail
    cases addWorkflows_eq_error hfail with
    | unlistable listing =>
      rw [hlisting] at listing
      cases listing
    | aborted listing listed fails first => exact ⟨_, listing, _, listed, fails⟩

theorem workflowFiles_of_init_eq_nil (h : tree.locate p = .ok (.file bytes)) (hi : p.init = []) :
    tree.workflowFiles (tree.workflowDirectory p) = .error (.unlistable .empty .missing) := by
  rw [workflowDirectory_of_locate h, parent?_of_not_isIdle (isIdle_last h), hi]
  rfl

/-- A path to a file serves its directory exactly when it is spelled with a slash. To a name alone a
registry answers that the empty path is missing, and it stays as it is. -/
theorem servesDirectory_iff_slash (hf : tree.isFile p = true) :
    (tree.ServesDirectory p ↔ p.init ≠ []) ∧
    (p.init = [] → ∀ (registry : Registry) (queue : String),
      registry.addWorkflows tree p queue = (.error (.unlistable .empty .missing), registry)) := by
  obtain ⟨bytes, h⟩ := isFile_iff.mp hf
  refine ⟨⟨?_, servesDirectory_of_init_ne_nil h⟩, ?_⟩
  · intro hs hi
    obtain ⟨files, hfiles⟩ := hs.listable
    rw [workflowFiles_of_init_eq_nil h hi] at hfiles
    cases hfiles
  · intro hi registry queue
    have hbatch : registry.analyzeWorkflows tree p queue =
        .error (.unlistable .empty .missing) := by
      rw [Registry.analyzeWorkflows_eq, workflowFiles_of_init_eq_nil h hi]
      rfl
    rw [Registry.addWorkflows, hbatch]

def loneWorkflow : FileTree :=
  (ofWorkingDirectory ["w"]).write (ofString "order.js") "export function order() {}".toUTF8

theorem servesDirectory_iff_slash_order :
    loneWorkflow.isFile (ofString "./order.js") = true ∧
    loneWorkflow.ServesDirectory (ofString "./order.js") := by
  have hf : loneWorkflow.isFile (ofString "./order.js") = true := by decide +kernel
  exact ⟨hf, (servesDirectory_iff_slash hf).1.mpr (by decide)⟩

/-- The plain name of a file in the working directory is refused. -/
theorem not_forall_servesDirectory :
    ¬ ∀ (tree : FileTree) (p : Path), tree.isFile p = true → tree.ServesDirectory p := by
  intro h
  have hf : loneWorkflow.isFile (ofString "order.js") = true := by decide +kernel
  obtain ⟨files, hfiles⟩ := (h loneWorkflow (ofString "order.js") hf).listable
  obtain ⟨bytes, hl⟩ := isFile_iff.mp hf
  rw [workflowFiles_of_init_eq_nil hl (by decide)] at hfiles
  cases hfiles

end FileTree

end WorkflowAnalysis
