import Mathlib.Data.List.Forall2
import WorkflowAnalysis.Proofs.Analysis.Records

/-! What an analysis takes from its entry alone. Other files are consulted for constants that stand for
queues, and for activities of classes that are extended or created. So two projects that read the same
text at the entry fail alike, and their records differ in such queues and such activities only. -/
namespace WorkflowAnalysis

open Syntax

namespace Project

variable {project other : Project} {file : SourceFile}

/-! ### Queues -/

/-- Queues read off one expression of a file in two projects. If they are not equal, they stand for a
constant of an imported module that is not the same in both; where it has a value, that is the queue. -/
def QueuesAlike (project other : Project) (file : SourceFile) (queue queue' : Option String) : Prop :=
  queue = queue' ∨ ∃ object constant specifier,
    file.imports.get? object = some specifier ∧
    project.constant? specifier constant file.path ≠ other.constant? specifier constant file.path ∧
    (∀ value, project.constant? specifier constant file.path = some value → queue = some value) ∧
    ∀ value, other.constant? specifier constant file.path = some value → queue' = some value

theorem QueuesAlike.getD {queue queue' : Option String}
    (h : project.QueuesAlike other file queue queue') (name : String) :
    project.QueuesAlike other file (some (queue.getD name)) (some (queue'.getD name)) := by
  rcases h with rfl | ⟨object, constant, specifier, hi, hne, hvalue, hvalue'⟩
  · exact .inl rfl
  · refine .inr ⟨object, constant, specifier, hi, hne, ?_, ?_⟩
    · intro value hv
      simp [hvalue value hv]
    · intro value hv
      simp [hvalue' value hv]

theorem QueuesAlike.bind {α : Type} {f g : α → Option String}
    (h : ∀ a, project.QueuesAlike other file (f a) (g a)) (source : Option α) :
    project.QueuesAlike other file (source.bind f) (source.bind g) := by
  cases source with
  | none => exact .inl rfl
  | some a => exact h a

theorem memberValue?_alike (project other : Project) (file : SourceFile) (node : Node) :
    project.QueuesAlike other file (project.memberValue? file node) (other.memberValue? file node) := by
  cases hn : node.namedMember? with
  | none =>
    left
    simp [memberValue?, hn]
  | some named =>
    obtain ⟨object, constant⟩ := named
    cases hi : file.imports.get? object with
    | none =>
      left
      simp [memberValue?, hn, hi]
    | some specifier =>
      have hvalue (project : Project) : project.memberValue? file node =
          project.constant? specifier constant file.path := by
        simp [memberValue?, hn, hi]
      rw [hvalue, hvalue]
      by_cases he : project.constant? specifier constant file.path =
          other.constant? specifier constant file.path
      · exact .inl he
      · exact .inr ⟨object, constant, specifier, hi, he, fun _ => id, fun _ => id⟩

theorem proxyQueue?_alike (project other : Project) (file : SourceFile) (arguments : List Node) :
    project.QueuesAlike other file (project.proxyQueue? file arguments)
      (other.proxyQueue? file arguments) := by
  unfold proxyQueue?
  apply QueuesAlike.bind
  intro options
  cases options with
  | object members =>
    apply QueuesAlike.bind
    intro value
    cases value with
    | member object property => exact (memberValue?_alike project other file _).getD property
    | _ => exact .inl rfl
  | call callee types arguments =>
    apply QueuesAlike.bind
    intro value
    cases value with
    | string | identifier => exact .inl rfl
    | _ => exact memberValue?_alike project other file _
  | _ => exact .inl rfl

theorem optionsQueue?_alike (project other : Project) (file : SourceFile) (members : List Node) :
    project.QueuesAlike other file (project.optionsQueue? file members)
      (other.optionsQueue? file members) := by
  unfold optionsQueue?
  apply QueuesAlike.bind
  intro value
  cases value with
  | string | identifier => exact .inl rfl
  | _ => exact memberValue?_alike project other file _

theorem secondQueue?_alike (project other : Project) (file : SourceFile) (arguments : List Node) :
    project.QueuesAlike other file (project.secondQueue? file arguments)
      (other.secondQueue? file arguments) := by
  apply QueuesAlike.bind
  exact optionsQueue?_alike project other file

/-! ### Sites -/

structure SitesAlike (project other : Project) (file : SourceFile) (site site' : Site) : Prop where
  name_eq : site.name = site'.name
  queues_alike : project.QueuesAlike other file (some site.queue) (some site'.queue)

theorem proxyQueue_alike (project other : Project) (file : SourceFile) (arguments : List Node) :
    project.QueuesAlike other file (some (project.proxyQueue file arguments))
      (some (other.proxyQueue file arguments)) :=
  (proxyQueue?_alike project other file arguments).getD file.fallback

theorem forall₂_sites {queue queue' : String} (names : List String)
    (h : project.QueuesAlike other file (some queue) (some queue')) :
    List.Forall₂ (project.SitesAlike other file) (names.map (⟨·, queue⟩))
      (names.map (⟨·, queue'⟩)) := by
  rw [List.forall₂_map_left_iff, List.forall₂_map_right_iff, List.forall₂_same]
  intro name _
  exact ⟨rfl, h⟩

theorem moduleSites_alike (hv : project.vocabulary = other.vocabulary) (file : SourceFile) :
    List.Forall₂ (project.SitesAlike other file) (project.moduleSites file)
      (other.moduleSites file) := by
  refine List.rel_flatMap (R := Eq) (List.forall₂_refl file.program.nodes) ?_
  rintro node _ rfl
  unfold declaratorSites
  rw [hv]
  split
  · split
    · exact forall₂_sites _ (proxyQueue_alike project other file _)
    · exact .nil
  · exact .nil

theorem classSites_alike (hv : project.vocabulary = other.vocabulary) (file : SourceFile) :
    List.Forall₂ (project.SitesAlike other file) (project.classSites file)
      (other.classSites file) := by
  refine List.rel_flatMap (R := Eq) (List.forall₂_refl file.program.nodes) ?_
  rintro node _ rfl
  unfold classNodeSites
  rw [hv]
  split
  · refine List.rel_flatMap (R := Eq) (List.forall₂_refl _) ?_
    rintro ⟨field, arguments⟩ _ rfl
    exact forall₂_sites _ (proxyQueue_alike project other file arguments)
  · exact .nil

theorem startInfo?_alike (project other : Project) (file : SourceFile) (isDirect : Bool)
    (arguments : List Node) :
    Option.Rel (fun info info' => info.1 = info'.1 ∧ project.QueuesAlike other file info.2 info'.2)
      (project.startInfo? file isDirect arguments) (other.startInfo? file isDirect arguments) := by
  have hsecond := secondQueue?_alike project other file arguments
  unfold startInfo?
  cases Node.argument? arguments 0 with
  | none => exact .none
  | some first =>
    cases first with
    | string value => exact .some ⟨rfl, hsecond⟩
    | identifier name =>
      cases isDirect with
      | false => exact .none
      | true => exact .some ⟨rfl, hsecond⟩
    | member object property =>
      cases isDirect with
      | false => exact .none
      | true =>
        simp only [Option.bind_eq_bind, Option.bind_some, if_true]
        cases file.constantMember? (.member object property) with
        | none => exact .none
        | some name => exact .some ⟨rfl, hsecond⟩
    | object members =>
      simp only [Option.bind_eq_bind, Option.bind_some]
      cases (Node.property? members "type").bind file.workflowType? with
      | none => exact .none
      | some name => exact .some ⟨rfl, optionsQueue?_alike project other file members⟩
    | _ => exact .none

theorem sitesAlike_of_infos {info info' : Option (String × Option String)}
    (h : Option.Rel
      (fun info info' => info.1 = info'.1 ∧ project.QueuesAlike other file info.2 info'.2) info info') :
    Option.Rel (project.SitesAlike other file)
      (info.map fun info => ⟨info.1, info.2.getD file.fallback⟩)
      (info'.map fun info => ⟨info.1, info.2.getD file.fallback⟩) := by
  cases h with
  | none => exact .none
  | some h => exact .some ⟨h.1, h.2.getD file.fallback⟩

theorem childSites_alike (hv : project.vocabulary = other.vocabulary) (file : SourceFile) :
    List.Forall₂ (project.SitesAlike other file) (project.childSites file)
      (other.childSites file) := by
  unfold childSites
  rw [hv]
  refine List.rel_filterMap (R := Eq) ?_ (List.forall₂_refl file.program.nodes)
  rintro node _ rfl
  unfold childSite?
  rw [hv]
  split
  · split
    · exact sitesAlike_of_infos (startInfo?_alike project other file _ _)
    · exact .none
  · exact .none

theorem map_name_eq {sites sites' : List Site}
    (h : List.Forall₂ (project.SitesAlike other file) sites sites') :
    sites.map Site.name = sites'.map Site.name := by
  induction h with
  | nil => rfl
  | cons halike _ ih => rw [List.map_cons, List.map_cons, halike.name_eq, ih]

/-- The sites that stand in a file itself, in two projects: place by place they are alike. -/
structure OwnSitesAlike (project other : Project) (file : SourceFile) : Prop where
  children : List.Forall₂ (project.SitesAlike other file) (project.childSites file)
    (other.childSites file)
  classes : List.Forall₂ (project.SitesAlike other file) (project.classSites file)
    (other.classSites file)
  modules : List.Forall₂ (project.SitesAlike other file) (project.moduleSites file)
    (other.moduleSites file)

theorem ownSitesAlike (hv : project.vocabulary = other.vocabulary) (file : SourceFile) :
    project.OwnSitesAlike other file where
  children := childSites_alike hv file
  classes := classSites_alike hv file
  modules := moduleSites_alike hv file

theorem OwnSitesAlike.childWorkflows_order (h : project.OwnSitesAlike other file) :
    SameOrder ((project.childWorkflows file).map ChildWorkflow.name)
      ((other.childWorkflows file).map ChildWorkflow.name) := by
  apply SameOrder.of_map_eq
  have hnames := congrArg (List.map some) (map_name_eq h.children)
  simpa [Function.comp_def, Site.childWorkflow] using hnames

/-! ### Analyses -/

/-- What the text at the entry settles in two projects. An analysis fails in both or in none, for a
reason that lies in the entry: it is no text, or its text does not parse. Records of it have one name and
start the same child workflows, and the sites in the entry itself are alike. -/
structure EntryDecides (project other : Project) (path entry : Path) (fallback : String) : Prop where
  fails_iff : ∀ failure, project.analyze path fallback = .error failure ↔
    other.analyze path fallback = .error failure
  failure_cases : ∀ failure, project.analyze path fallback = .error failure ↔
    (∃ fault, project.tree.read entry = .error fault ∧ failure = .unreadable entry fault) ∨
    ∃ text cause, project.tree.read entry = .ok text ∧ Program.parse entry text = .error cause ∧
      failure = .unparsable entry cause
  failure_path : ∀ failure, project.analyze path fallback = .error failure → failure.path = entry
  of_text : ∀ text, project.tree.read entry = .ok text →
    project.analyze path fallback = project.analyzeSource text path fallback ∧
      other.analyze path fallback = other.analyzeSource text path fallback
  of_success : ∀ record, project.analyze path fallback = .ok record →
    ∃ record' text program, other.analyze path fallback = .ok record' ∧
      project.tree.read entry = .ok text ∧ Program.parse entry text = .ok program ∧
      project.IsRecordOf (.ofProgram entry program fallback) record ∧
      other.IsRecordOf (.ofProgram entry program fallback) record' ∧
      record.name = record'.name ∧
      SameOrder (record.childWorkflows.map ChildWorkflow.name)
        (record'.childWorkflows.map ChildWorkflow.name) ∧
      project.OwnSitesAlike other (.ofProgram entry program fallback)

/-- Whatever stands at other paths, the text at the entry decides whether and how an analysis fails, and
of a record all but what comes from constants and from the classes that are extended or created. -/
theorem entry_decides {path : Path} (fallback : String)
    (hv : project.vocabulary = other.vocabulary)
    (hn : project.tree.normalize path = other.tree.normalize path)
    (hr : project.tree.read (project.tree.normalize path) =
      other.tree.read (project.tree.normalize path)) :
    project.EntryDecides other path (project.tree.normalize path) fallback where
  fails_iff failure := by
    rw [analyze_eq_error, analyze_eq_error, ← hn, ← hr]
  failure_cases _ := analyze_eq_error
  failure_path failure h := by
    obtain ⟨fault, -, rfl⟩ | ⟨text, cause, -, -, rfl⟩ := analyze_eq_error.mp h
    · rfl
    · rfl
  of_text text ht := by
    refine ⟨analyze_of_read ht, ?_⟩
    rw [hr, hn] at ht
    exact analyze_of_read ht
  of_success record h := by
    obtain ⟨text, ht, h⟩ := analyze_eq_ok.mp h
    obtain ⟨program, hp, rfl⟩ := analyzeSource_eq_ok.mp h
    have halike : project.OwnSitesAlike other
        (.ofProgram (project.tree.normalize path) program fallback) :=
      ownSitesAlike hv _
    refine ⟨other.workflow (.ofProgram (project.tree.normalize path) program fallback), text,
      program, ?_, ht, hp, isRecordOf_workflow _ _, isRecordOf_workflow _ _, rfl,
      halike.childWorkflows_order, halike⟩
    rw [hr] at ht
    rw [hn] at ht hp ⊢
    rw [analyze_of_read ht, analyzeSource_of_parse hp]

/-- An entry that takes a queue from another file, which is not there. -/
def lonelyProject : Project where
  tree := (FileTree.ofWorkingDirectory ["w"]).write (Path.ofString "a.js")
    "const q = require('./q.js'); const { audit } = proxyActivities({ taskQueue: q.SLOW });".toUTF8

/-- The same entry with the file that it takes the queue from. -/
def joinedProject : Project where
  tree := lonelyProject.tree.write (Path.ofString "q.js") "exports.SLOW = 'slow';".toUTF8

theorem normalize_joinedProject :
    joinedProject.tree.normalize (Path.ofString "a.js") =
      lonelyProject.tree.normalize (Path.ofString "a.js") := by
  decide +kernel

theorem read_joinedProject :
    joinedProject.tree.read (joinedProject.tree.normalize (Path.ofString "a.js")) =
      lonelyProject.tree.read (joinedProject.tree.normalize (Path.ofString "a.js")) := by
  decide +kernel

theorem entry_decides_lonely :
    (joinedProject.vocabulary = lonelyProject.vocabulary ∧
      joinedProject.tree.normalize (Path.ofString "a.js") =
        lonelyProject.tree.normalize (Path.ofString "a.js") ∧
      joinedProject.tree.read (joinedProject.tree.normalize (Path.ofString "a.js")) =
        lonelyProject.tree.read (joinedProject.tree.normalize (Path.ofString "a.js"))) ∧
    joinedProject.EntryDecides lonelyProject (Path.ofString "a.js")
      (joinedProject.tree.normalize (Path.ofString "a.js")) "main" :=
  ⟨⟨rfl, normalize_joinedProject, read_joinedProject⟩,
    entry_decides "main" rfl normalize_joinedProject read_joinedProject⟩

-- The queue does differ: without its file the constant gives its own name.
example :
    (joinedProject.analyze (Path.ofString "a.js") "main").toOption.map Workflow.activities =
        some [⟨"audit", some "slow"⟩] ∧
      (lonelyProject.analyze (Path.ofString "a.js") "main").toOption.map Workflow.activities =
        some [⟨"audit", some "SLOW"⟩] := by
  decide +kernel

end Project

end WorkflowAnalysis
