import WorkflowAnalysis.Analysis
import WorkflowAnalysis.Proofs.Records.FirstOccurrences

/-! Records. An analysis succeeds exactly when its text parses, and then its record is settled by the
sites of the file: each activity and child workflow once, with a queue, where it comes up first. -/
namespace WorkflowAnalysis

open Syntax

namespace Project

variable {project : Project} {text : String} {path : Path} {fallback : String}

/-! ### Outcomes -/

theorem analyzeSource_of_parse {program : Program}
    (h : Program.parse (project.tree.normalize path) text = .ok program) :
    project.analyzeSource text path fallback =
      .ok (project.workflow (.ofProgram (project.tree.normalize path) program fallback)) := by
  unfold analyzeSource
  dsimp only
  rw [h]
  rfl

theorem analyzeSource_of_parse_error {cause : ParseFailure}
    (h : Program.parse (project.tree.normalize path) text = .error cause) :
    project.analyzeSource text path fallback =
      .error (.unparsable (project.tree.normalize path) cause) := by
  unfold analyzeSource
  dsimp only
  rw [h]
  rfl

theorem analyze_of_read (h : project.tree.read (project.tree.normalize path) = .ok text) :
    project.analyze path fallback = project.analyzeSource text path fallback := by
  unfold analyze analyzeSource FileTree.parseFile FileTree.load
  dsimp only
  rw [h]
  rfl

theorem analyze_of_read_error {fault : Fault}
    (h : project.tree.read (project.tree.normalize path) = .error fault) :
    project.analyze path fallback =
      .error (.unreadable (project.tree.normalize path) fault) := by
  unfold analyze FileTree.parseFile FileTree.load
  dsimp only
  rw [h]
  rfl

theorem analyzeSource_eq_ok {record : Workflow} :
    project.analyzeSource text path fallback = .ok record ↔
      ∃ program, Program.parse (project.tree.normalize path) text = .ok program ∧
        record = project.workflow (.ofProgram (project.tree.normalize path) program fallback) := by
  cases h : Program.parse (project.tree.normalize path) text with
  | error cause => simp [analyzeSource_of_parse_error h]
  | ok program => simp [analyzeSource_of_parse h, eq_comm]

theorem analyze_eq_ok {record : Workflow} :
    project.analyze path fallback = .ok record ↔
      ∃ text, project.tree.read (project.tree.normalize path) = .ok text ∧
        project.analyzeSource text path fallback = .ok record := by
  cases h : project.tree.read (project.tree.normalize path) with
  | error fault => simp [analyze_of_read_error h]
  | ok text => simp [analyze_of_read h]

theorem analyze_eq_error {failure : Failure} :
    project.analyze path fallback = .error failure ↔
      (∃ fault, project.tree.read (project.tree.normalize path) = .error fault ∧
        failure = .unreadable (project.tree.normalize path) fault) ∨
      ∃ text cause, project.tree.read (project.tree.normalize path) = .ok text ∧
        Program.parse (project.tree.normalize path) text = .error cause ∧
        failure = .unparsable (project.tree.normalize path) cause := by
  cases h : project.tree.read (project.tree.normalize path) with
  | error fault => simp [analyze_of_read_error h, eq_comm]
  | ok text =>
    rw [analyze_of_read h]
    cases hp : Program.parse (project.tree.normalize path) text with
    | error cause => simp [analyzeSource_of_parse_error hp, hp, eq_comm]
    | ok program => simp [analyzeSource_of_parse hp, hp]

/-! ### Well-formed records without loss -/

/-- The record of a file. No activity and no child workflow comes twice and each is complete; in both
lists stand the first occurrences among all sites, inherited activities before those of classes, of the
module and of created classes. -/
structure IsRecordOf (project : Project) (file : SourceFile) (record : Workflow) : Prop where
  name_eq : record.name = file.program.exportedName?
  taskQueue_eq : record.taskQueue = none
  activities_nodup : (record.activities.map fun a => (a.name, a.taskQueue)).Nodup
  children_nodup : (record.childWorkflows.map fun c => (c.name, c.taskQueue)).Nodup
  activity_complete : ∀ activity ∈ record.activities, ∃ queue, activity.taskQueue = some queue
  child_complete : ∀ child ∈ record.childWorkflows,
    ∃ name queue, child.name = some name ∧ child.taskQueue = some queue
  activities_first : FirstOccurrences
    ((project.inheritedSites file ++ project.classSites file ++ project.moduleSites file ++
      project.createdSites file).map Site.activity) record.activities
  children_first : FirstOccurrences
    ((project.childSites file).map Site.childWorkflow) record.childWorkflows

theorem mem_activities {file : SourceFile} {activity : Activity} :
    activity ∈ (project.workflow file).activities ↔
      ∃ site ∈ project.activitySites file, site.activity = activity :=
  List.mem_eraseDups.trans List.mem_map

theorem mem_childWorkflows {file : SourceFile} {child : ChildWorkflow} :
    child ∈ (project.workflow file).childWorkflows ↔
      ∃ site ∈ project.childSites file, site.childWorkflow = child :=
  List.mem_eraseDups.trans List.mem_map

theorem isRecordOf_workflow (project : Project) (file : SourceFile) :
    project.IsRecordOf file (project.workflow file) where
  name_eq := rfl
  taskQueue_eq := rfl
  activities_nodup := by
    refine (nodup_eraseDups _).map ?_
    rintro ⟨name, queue⟩ ⟨name', queue'⟩ h
    cases h
    rfl
  children_nodup := by
    refine (nodup_eraseDups _).map ?_
    rintro ⟨name, queue⟩ ⟨name', queue'⟩ h
    cases h
    rfl
  activity_complete := by
    intro activity hm
    obtain ⟨site, -, rfl⟩ := mem_activities.mp hm
    exact ⟨_, rfl⟩
  child_complete := by
    intro child hm
    obtain ⟨site, -, rfl⟩ := mem_childWorkflows.mp hm
    exact ⟨_, _, rfl, rfl⟩
  activities_first := firstOccurrences_iff.mpr rfl
  children_first := firstOccurrences_iff.mpr rfl

/-- A file has one record. -/
theorem isRecordOf_iff {file : SourceFile} {record : Workflow} :
    project.IsRecordOf file record ↔ record = project.workflow file := by
  constructor
  · intro h
    have hw := project.isRecordOf_workflow file
    obtain ⟨name, activities, children, queue⟩ := record
    have hname : name = (project.workflow file).name := h.name_eq
    have hqueue : queue = (project.workflow file).taskQueue := h.taskQueue_eq
    have hactivities : activities = (project.workflow file).activities :=
      h.activities_first.unique hw.activities_first
    have hchildren : children = (project.workflow file).childWorkflows :=
      h.children_first.unique hw.children_first
    rw [hname, hqueue, hactivities, hchildren]
  · rintro rfl
    exact project.isRecordOf_workflow file

/-- A record is the answer of an analysis exactly when the text parses, the given one or that of the
file, and the record is that of the file: well-formed, and with nothing lost, added or moved. -/
theorem analysis_ok_iff_isRecordOf (project : Project) (path : Path) (fallback : String)
    (record : Workflow) :
    (∀ text, project.analyzeSource text path fallback = .ok record ↔
      ∃ program, Program.parse (project.tree.normalize path) text = .ok program ∧
        project.IsRecordOf (.ofProgram (project.tree.normalize path) program fallback) record) ∧
    (project.analyze path fallback = .ok record ↔
      ∃ text program, project.tree.read (project.tree.normalize path) = .ok text ∧
        Program.parse (project.tree.normalize path) text = .ok program ∧
        project.IsRecordOf (.ofProgram (project.tree.normalize path) program fallback) record) := by
  constructor
  · intro text
    rw [analyzeSource_eq_ok]
    simp only [isRecordOf_iff]
  · rw [analyze_eq_ok]
    simp only [analyzeSource_eq_ok, isRecordOf_iff, exists_and_left]

end Project

end WorkflowAnalysis
