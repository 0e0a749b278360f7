import WorkflowAnalysis.Proofs.Extraction.CreatedClasses

/-! What creating classes contributes. The files taken over are those of the created classes and those
that following their bases enters. The file of a created class is taken over whoever entered it first,
because a path is marked as visited only when its file is handed out; so no path is handed out twice. -/
namespace WorkflowAnalysis

open Syntax

namespace Project

variable {project : Project} {file held : SourceFile}

def visitedCreating (project : Project) (file : SourceFile) (visited : VisitedFiles)
    (refs : List ClassRef) : VisitedFiles :=
  refs.foldl (fun visited ref => (project.enterCreated file visited ref).2) visited

theorem createdFiles_handsOut_visited (project : Project) (file : SourceFile)
    (visited : VisitedFiles) (refs : List ClassRef) :
    project.HandsOut file.fallback visited (project.createdFiles file visited refs)
      (project.visitedCreating file visited refs) := by
  induction refs generalizing visited with
  | nil => exact .refl visited
  | cons ref refs ih =>
    let call : Call := ⟨true, visited, file, ref⟩
    exact (call.handsOut project).trans (ih (call.outcome project).2)

theorem createdFiles_handsOut (project : Project) (file : SourceFile) (visited : VisitedFiles)
    (refs : List ClassRef) :
    ∃ after, project.HandsOut file.fallback visited (project.createdFiles file visited refs) after :=
  ⟨_, project.createdFiles_handsOut_visited file visited refs⟩

/-- The files that a file takes over through the classes it creates, in the order of their activities. -/
def contributors (project : Project) (file : SourceFile) : List SourceFile :=
  project.createdFiles file (.startingAt file.path) file.program.created.refs

/-- A file comes from a created class: it is the file of the class, or following the base that the class
has there enters it. Each call stands for one reference, with what has been visited at its turn. -/
def ComesFrom (project : Project) (file : SourceFile) (call : Call) (held : SourceFile) : Prop :=
  ∃ path created, project.createdFile? file call.ref = some path ∧
    project.file? file.fallback path = some created ∧
    (held = created ∨ held ∈ (project.ancestors (call.visited.insert path) created
      (created.program.declaredBase? call.ref.className)).1)

theorem comesFrom_of_mem_outcome {call : Call} (hc : call ∈ project.creationCalls file)
    (hm : held ∈ (call.outcome project).1) : project.ComesFrom file call held := by
  obtain ⟨hcreation, hfile⟩ := isCreation_of_mem_callsFrom hc
  unfold Call.outcome at hm
  rw [if_pos hcreation, hfile] at hm
  unfold enterCreated at hm
  cases hp : project.createdFile? file call.ref with
  | none => simp [hp] at hm
  | some path =>
    cases hv : call.visited.contains path with
    | true => simp [hp, hv] at hm
    | false =>
      cases hf : project.file? file.fallback path with
      | none => simp [hp, hv, hf] at hm
      | some created =>
        refine ⟨path, created, hp, hf, ?_⟩
        simp only [hp, hv, hf, Bool.false_eq_true, if_false, List.mem_append,
          List.mem_singleton] at hm
        exact hm.symm

theorem exists_comesFrom (h : held ∈ project.contributors file) :
    ∃ call ∈ project.creationCalls file, project.ComesFrom file call held := by
  unfold contributors at h
  rw [createdFiles_eq_flatMap] at h
  obtain ⟨call, hc, hm⟩ := List.mem_flatMap.mp h
  exact ⟨call, hc, comesFrom_of_mem_outcome hc hm⟩

/-- The entry is visited from the start, so nothing under its path is handed out. -/
theorem HandsOut.nodup_cons {fallback : String} {files : List SourceFile} {after : VisitedFiles}
    (h : project.HandsOut fallback (.startingAt file.path) files after) :
    ((file :: files).map fun held => held.path.components).Nodup := by
  rw [List.map_cons, List.nodup_cons]
  refine ⟨?_, h.distinct⟩
  intro hm
  obtain ⟨held, hheld, he⟩ := List.mem_map.mp hm
  have hnew := (h.entered held hheld).2.1
  rw [VisitedFiles.contains_congr he, VisitedFiles.startingAt, VisitedFiles.contains_insert] at hnew
  simp at hnew

theorem nodup_contributors (project : Project) (file : SourceFile) :
    ((file :: project.contributors file).map fun held => held.path.components).Nodup := by
  obtain ⟨after, hall⟩ :=
    project.createdFiles_handsOut file (.startingAt file.path) file.program.created.refs
  exact hall.nodup_cons

/-- A file that creates classes takes over the activities of some files, one after the other.
Each of them comes from a created class. The file of every created class that can be read is among
them, unless it is the entry, and all its activities are taken over. No two of them have one path, and
none has that of the entry. -/
theorem createdSites_sound_complete (project : Project) (file : SourceFile) :
    ∃ files : List SourceFile,
      (project.createdSites file).map Site.activity =
        (files.flatMap fun held => (project.fileSites held).map Site.activity) ∧
      (project.creationCalls file).map Call.ref = file.program.created.refs ∧
      (∀ held ∈ files, project.file? file.fallback held.path = some held ∧
        ∃ call ∈ project.creationCalls file, project.ComesFrom file call held) ∧
      (∀ ref ∈ file.program.created.refs, ∀ path held,
        project.createdFile? file ref = some path →
        project.file? file.fallback path = some held →
        path.components ≠ file.path.components →
          path.IsAmong (files.map SourceFile.path) ∧
          (project.fileSites held).map Site.activity ⊆
            (project.createdSites file).map Site.activity) ∧
      ((file :: files).map fun held => held.path.components).Nodup := by
  refine ⟨project.contributors file, ?_, project.map_ref_callsFrom file _ _, ?_, ?_,
    project.nodup_contributors file⟩
  · unfold createdSites contributors
    rw [List.map_flatMap]
  · intro held hm
    obtain ⟨after, hall⟩ :=
      project.createdFiles_handsOut file (.startingAt file.path) file.program.created.refs
    rw [← hall.shared held hm]
    exact ⟨(hall.entered held hm).1.file?_eq, exists_comesFrom hm⟩
  · intro ref hr path held hcreated hfile hne
    obtain ⟨rfl, -, -, hfallback⟩ := file?_eq_some hfile
    have hloaded : project.IsLoaded held :=
      ⟨(isNormal_of_createdFile? hcreated).1.isAbsolute, by rwa [hfallback]⟩
    have henters := enters_of_createdFile? hloaded hfallback hne hr hcreated
    refine ⟨?_, henters.takesOver hloaded hfallback⟩
    obtain ⟨call, hc, hamong⟩ := henters
    obtain ⟨entered, hm, he⟩ := isAmong_paths.mp hamong
    refine isAmong_paths.mpr ⟨entered, ?_, he⟩
    unfold contributors
    rw [createdFiles_eq_flatMap]
    exact List.mem_flatMap.mpr ⟨call, hc, hm⟩

end Project

end WorkflowAnalysis
