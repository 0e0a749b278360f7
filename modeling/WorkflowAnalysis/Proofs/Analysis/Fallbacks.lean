import WorkflowAnalysis.Proofs.Analysis.Records

/-! Runs with different fallbacks. Every file of a run carries the fallback, and each place where a queue is
read may fall back on it. But it has no say in which files are entered, where the sites are and what else is
looked up: each extractor gives the sites that it would give without a fallback, with the open queues filled
in. So runs with any two fallbacks go through the same files, find the same sites in them, and have every
queue in common that is not open. -/
namespace WorkflowAnalysis

open Syntax

/-- A site whose queue may still be open. -/
structure OpenSite where
  name : String
  queue : Option String

def OpenSite.fill (fallback : String) (site : OpenSite) : Site :=
  ⟨site.name, site.queue.getD fallback⟩

def SourceFile.withFallback (fallback : String) (file : SourceFile) : SourceFile :=
  { file with fallback }

theorem SourceFile.fallback_withFallback (fallback : String) (file : SourceFile) :
    (file.withFallback fallback).fallback = fallback := rfl

theorem SourceFile.program_withFallback (fallback : String) (file : SourceFile) :
    (file.withFallback fallback).program = file.program := rfl

/-! ### Sites -/

/-- What comes out under every fallback is one list of sites with the open queues filled in. -/
def OnlyFills (run : String → List Site) : Prop :=
  ∃ sites : List OpenSite, ∀ fallback, run fallback = sites.map (OpenSite.fill fallback)

namespace OnlyFills

theorem nil : OnlyFills fun _ => [] := ⟨[], fun _ => rfl⟩

theorem append {run run' : String → List Site} (h : OnlyFills run) (h' : OnlyFills run') :
    OnlyFills fun fallback => run fallback ++ run' fallback := by
  obtain ⟨sites, hsites⟩ := h
  obtain ⟨sites', hsites'⟩ := h'
  refine ⟨sites ++ sites', fun fallback => ?_⟩
  simp only [hsites, hsites', List.map_append]

theorem flatMap {α : Type} {run : α → String → List Site} (h : ∀ a, OnlyFills (run a)) (as : List α) :
    OnlyFills fun fallback => as.flatMap (run · fallback) := by
  choose sites hsites using h
  refine ⟨as.flatMap sites, fun fallback => ?_⟩
  rw [List.map_flatMap]
  simp only [hsites]

theorem filterMap {α : Type} {run : α → String → Option Site}
    (h : ∀ a, ∃ site : Option OpenSite, ∀ fallback, run a fallback = site.map (OpenSite.fill fallback))
    (as : List α) : OnlyFills fun fallback => as.filterMap (run · fallback) := by
  choose site hsite using h
  refine ⟨as.filterMap site, fun fallback => ?_⟩
  rw [List.map_filterMap]
  simp only [hsite]

theorem map_names (names : List String) (queue : Option String) :
    OnlyFills fun fallback => names.map (⟨·, queue.getD fallback⟩) :=
  ⟨names.map (⟨·, queue⟩), fun fallback => by simp [OpenSite.fill]⟩

end OnlyFills

namespace Project

variable {project : Project} {file : SourceFile}

theorem declaratorSites_onlyFills (project : Project) (file : SourceFile) (node : Node) :
    OnlyFills fun fallback => project.declaratorSites (file.withFallback fallback) node := by
  unfold declaratorSites
  split
  · next target _ _ =>
    split
    · next arguments _ =>
      exact .map_names (file.program.namesOfTarget target) (project.proxyQueue? file arguments)
    · exact .nil
  · exact .nil

theorem moduleSites_onlyFills (project : Project) (file : SourceFile) :
    OnlyFills fun fallback => project.moduleSites (file.withFallback fallback) :=
  .flatMap (project.declaratorSites_onlyFills file) file.program.nodes

theorem classNodeSites_onlyFills (project : Project) (file : SourceFile) (node : Node) :
    OnlyFills fun fallback => project.classNodeSites (file.withFallback fallback) node := by
  unfold classNodeSites
  split
  · exact .flatMap (fun (field : FieldProxy) => .map_names _ (project.proxyQueue? file field.2)) _
  · exact .nil

theorem classSites_onlyFills (project : Project) (file : SourceFile) :
    OnlyFills fun fallback => project.classSites (file.withFallback fallback) :=
  .flatMap (project.classNodeSites_onlyFills file) file.program.nodes

theorem fileSites_onlyFills (project : Project) (file : SourceFile) :
    OnlyFills fun fallback => project.fileSites (file.withFallback fallback) :=
  (project.moduleSites_onlyFills file).append (project.classSites_onlyFills file)

theorem childSite?_onlyFills (project : Project) (file : SourceFile) (wrappers : List String)
    (node : Node) : ∃ site : Option OpenSite, ∀ fallback,
      project.childSite? (file.withFallback fallback) wrappers node =
        site.map (OpenSite.fill fallback) := by
  unfold childSite?
  split
  · next callee _ arguments =>
    split
    · let info := project.startInfo? file (isDirectStart project.vocabulary callee) arguments
      refine ⟨info.map fun found => ⟨found.1, found.2⟩, fun fallback => ?_⟩
      rw [Option.map_map]
      rfl
    · exact ⟨none, fun _ => rfl⟩
  · exact ⟨none, fun _ => rfl⟩

theorem childSites_onlyFills (project : Project) (file : SourceFile) :
    OnlyFills fun fallback => project.childSites (file.withFallback fallback) :=
  .filterMap (project.childSite?_onlyFills file (file.program.wrappers project.vocabulary))
    file.program.nodes

/-! ### Files -/

theorem file?_withFallback (project : Project) (fallback other : String) (path : Path) :
    project.file? fallback path = (project.file? other path).map (.withFallback fallback) := by
  unfold file?
  rw [Option.map_map]
  rfl

theorem baseChain_withFallback (project : Project) (fuel : Nat) (visited : VisitedFiles)
    (file : SourceFile) (ref : Option ClassRef) (fallback : String) :
    project.baseChain fuel visited (file.withFallback fallback) ref =
      ((project.baseChain fuel visited file ref).1.map (.withFallback fallback),
        (project.baseChain fuel visited file ref).2) := by
  have hbase (file : SourceFile) :
      project.baseFile? (file.withFallback fallback) = project.baseFile? file := rfl
  induction fuel generalizing visited file ref with
  | zero => cases ref <;> rfl
  | succ fuel ih =>
    cases ref with
    | none => rfl
    | some ref =>
      rw [baseChain, baseChain, hbase]
      cases project.baseFile? file ref with
      | none => rfl
      | some path =>
        dsimp only
        split
        · rfl
        · rw [SourceFile.fallback_withFallback,
            file?_withFallback project fallback file.fallback path]
          cases project.file? file.fallback path with
          | none => rfl
          | some base =>
            have hrest := ih (visited.insert path) base base.program.firstBase?
            dsimp only [Option.map_some]
            rw [SourceFile.program_withFallback, hrest]
            rfl

theorem ancestors_withFallback (project : Project) (visited : VisitedFiles) (file : SourceFile)
    (ref : Option ClassRef) (fallback : String) :
    project.ancestors visited (file.withFallback fallback) ref =
      ((project.ancestors visited file ref).1.map (.withFallback fallback),
        (project.ancestors visited file ref).2) := by
  unfold ancestors
  rw [baseChain_withFallback]
  simp

theorem enterCreated_withFallback (project : Project) (file : SourceFile) (visited : VisitedFiles)
    (ref : ClassRef) (fallback : String) :
    project.enterCreated (file.withFallback fallback) visited ref =
      ((project.enterCreated file visited ref).1.map (.withFallback fallback),
        (project.enterCreated file visited ref).2) := by
  have hcreated : project.createdFile? (file.withFallback fallback) = project.createdFile? file := rfl
  unfold enterCreated
  rw [hcreated]
  cases project.createdFile? file ref with
  | none => rfl
  | some path =>
    dsimp only
    split
    · rfl
    · rw [SourceFile.fallback_withFallback,
        file?_withFallback project fallback file.fallback path]
      cases project.file? file.fallback path with
      | none => rfl
      | some created =>
        dsimp only [Option.map_some]
        rw [ancestors_withFallback]
        simp [SourceFile.withFallback]

theorem createdFiles_withFallback (project : Project) (file : SourceFile) (visited : VisitedFiles)
    (refs : List ClassRef) (fallback : String) :
    project.createdFiles (file.withFallback fallback) visited refs =
      (project.createdFiles file visited refs).map (.withFallback fallback) := by
  induction refs generalizing visited with
  | nil => rfl
  | cons ref refs ih =>
    rw [createdFiles, createdFiles, enterCreated_withFallback]
    dsimp only
    rw [ih, List.map_append]

end Project

/-! ### What a run finds -/

/-- A file whose activities another one takes over, with the sites in it. -/
structure FoundFile where
  file : SourceFile
  sites : List OpenSite

/-- What there is to find for a file: the files that it extends and those whose classes it creates, with
their sites, and its own sites. -/
structure Discovery where
  above : List FoundFile
  created : List FoundFile
  classSites : List OpenSite
  moduleSites : List OpenSite
  childSites : List OpenSite

namespace Discovery

variable {discovery : Discovery} {project : Project} {file : SourceFile}

def activities (discovery : Discovery) : List OpenSite :=
  discovery.above.flatMap FoundFile.sites ++ discovery.classSites ++ discovery.moduleSites ++
    discovery.created.flatMap FoundFile.sites

/-- The run over a file finds these files and sites, with its fallback for the open queues. -/
structure IsFound (discovery : Discovery) (project : Project) (file : SourceFile) : Prop where
  above : (project.ancestors (.startingAt file.path) file file.program.firstBase?).1 =
    discovery.above.map fun found => found.file.withFallback file.fallback
  created : project.createdFiles file (.startingAt file.path) file.program.created.refs =
    discovery.created.map fun found => found.file.withFallback file.fallback
  fileSites : ∀ found ∈ discovery.above ++ discovery.created,
    project.fileSites (found.file.withFallback file.fallback) =
      found.sites.map (OpenSite.fill file.fallback)
  classSites : project.classSites file = discovery.classSites.map (OpenSite.fill file.fallback)
  moduleSites : project.moduleSites file = discovery.moduleSites.map (OpenSite.fill file.fallback)
  childSites : project.childSites file = discovery.childSites.map (OpenSite.fill file.fallback)

theorem exists_isFound (project : Project) (file : SourceFile) :
    ∃ discovery : Discovery, ∀ fallback, discovery.IsFound project (file.withFallback fallback) := by
  choose sites hsites using project.fileSites_onlyFills
  obtain ⟨classSites, hclass⟩ := project.classSites_onlyFills file
  obtain ⟨moduleSites, hmodule⟩ := project.moduleSites_onlyFills file
  obtain ⟨childSites, hchild⟩ := project.childSites_onlyFills file
  let found (files : List SourceFile) : List FoundFile := files.map fun file => ⟨file, sites file⟩
  let above := (project.ancestors (.startingAt file.path) file file.program.firstBase?).1
  let created := project.createdFiles file (.startingAt file.path) file.program.created.refs
  refine ⟨⟨found above, found created, classSites, moduleSites, childSites⟩, fun fallback => ?_⟩
  refine ⟨?_, ?_, ?_, hclass fallback, hmodule fallback, hchild fallback⟩
  · have h := project.ancestors_withFallback (.startingAt file.path) file file.program.firstBase?
      fallback
    rw [List.map_map]
    exact congrArg Prod.fst h
  · rw [List.map_map]
    exact project.createdFiles_withFallback file (.startingAt file.path) file.program.created.refs
      fallback
  · intro one hone
    rw [← List.map_append] at hone
    obtain ⟨base, -, rfl⟩ := List.mem_map.mp hone
    exact hsites base fallback

theorem IsFound.flatMap_fileSites (h : discovery.IsFound project file) {found : List FoundFile}
    (hsub : found ⊆ discovery.above ++ discovery.created) :
    (found.map fun one => one.file.withFallback file.fallback).flatMap project.fileSites =
      (found.flatMap FoundFile.sites).map (OpenSite.fill file.fallback) := by
  rw [List.flatMap_map, List.map_flatMap]
  exact List.flatMap_congr fun one hone => h.fileSites one (hsub hone)

theorem IsFound.activitySites (h : discovery.IsFound project file) :
    project.activitySites file = discovery.activities.map (OpenSite.fill file.fallback) := by
  unfold Project.activitySites Project.inheritedSites Project.createdSites activities
  rw [h.above, h.created, h.classSites, h.moduleSites,
    h.flatMap_fileSites (List.subset_append_left _ _),
    h.flatMap_fileSites (List.subset_append_right _ _)]
  simp only [List.map_append]

end Discovery

/-! ### Records -/

/-- A record that lists some sites, each once, with a fallback for the open queues. A queue that is not
open stands in the record. -/
structure Workflow.FillsIn (record : Workflow) (fallback : String) (sites children : List OpenSite) :
    Prop where
  activities_first :
    FirstOccurrences (sites.map fun site => (site.fill fallback).activity) record.activities
  children_first :
    FirstOccurrences (children.map fun site => (site.fill fallback).childWorkflow)
      record.childWorkflows
  activities_known : ∀ site ∈ sites, ∀ queue, site.queue = some queue →
    ⟨site.name, some queue⟩ ∈ record.activities
  children_known : ∀ site ∈ children, ∀ queue, site.queue = some queue →
    ⟨some site.name, some queue⟩ ∈ record.childWorkflows

/-- What a record has in common with another if it differs only where its fallback stands in: the name,
the names of activities and child workflows in the order in which they come up, and whatever has
another queue. -/
structure Workflow.AgreesBut (record : Workflow) (fallback : String) (other : Workflow) : Prop where
  name_eq : record.name = other.name
  activities_order : SameOrder (record.activities.map Activity.name)
    (other.activities.map Activity.name)
  children_order : SameOrder (record.childWorkflows.map ChildWorkflow.name)
    (other.childWorkflows.map ChildWorkflow.name)
  activities_mem : ∀ activity ∈ record.activities, activity.taskQueue ≠ some fallback →
    activity ∈ other.activities
  children_mem : ∀ child ∈ record.childWorkflows, child.taskQueue ≠ some fallback →
    child ∈ other.childWorkflows

/-- A queue that is not the fallback is not open, so it is the same with any other fallback. -/
theorem OpenSite.mem_map_fill {sites : List OpenSite} {site : Site} {fallback other : String}
    (h : site ∈ sites.map (fill fallback)) (hne : site.queue ≠ fallback) :
    site ∈ sites.map (fill other) := by
  obtain ⟨⟨name, _ | queue⟩, hs, rfl⟩ := List.mem_map.mp h
  · exact absurd rfl hne
  · exact List.mem_map_of_mem hs

namespace Project

variable {project : Project} {discovery : Discovery} {file other : SourceFile}

theorem workflow_fillsIn (h : discovery.IsFound project file) :
    (project.workflow file).FillsIn file.fallback discovery.activities discovery.childSites where
  activities_first := by
    apply firstOccurrences_iff.mpr
    rw [workflow, h.activitySites, List.map_map]
    rfl
  children_first := by
    apply firstOccurrences_iff.mpr
    rw [workflow, childWorkflows, h.childSites, List.map_map]
    rfl
  activities_known := by
    intro site hs queue hq
    rw [mem_activities, h.activitySites]
    exact ⟨_, List.mem_map_of_mem hs, by simp [OpenSite.fill, Site.activity, hq]⟩
  children_known := by
    intro site hs queue hq
    rw [mem_childWorkflows, h.childSites]
    exact ⟨_, List.mem_map_of_mem hs, by simp [OpenSite.fill, Site.childWorkflow, hq]⟩

theorem workflow_agreesBut (h : discovery.IsFound project file) (h' : discovery.IsFound project other)
    (hname : file.program.exportedName? = other.program.exportedName?) :
    (project.workflow file).AgreesBut file.fallback (project.workflow other) where
  name_eq := hname
  activities_order := by
    apply SameOrder.of_map_eq
    rw [h.activitySites, h'.activitySites]
    simp [Function.comp_def, Site.activity, OpenSite.fill]
  children_order := by
    apply SameOrder.of_map_eq
    rw [h.childSites, h'.childSites]
    simp [Function.comp_def, Site.childWorkflow, OpenSite.fill]
  activities_mem := by
    intro activity hm hne
    rw [mem_activities, h.activitySites] at hm
    rw [mem_activities, h'.activitySites]
    obtain ⟨site, hs, rfl⟩ := hm
    exact ⟨site, OpenSite.mem_map_fill hs fun he => hne (congrArg some he), rfl⟩
  children_mem := by
    intro child hm hne
    rw [mem_childWorkflows, h.childSites] at hm
    rw [mem_childWorkflows, h'.childSites]
    obtain ⟨site, hs, rfl⟩ := hm
    exact ⟨site, OpenSite.mem_map_fill hs fun he => hne (congrArg some he), rfl⟩

/-- The fallback only fills in. A text that fails does so with every fallback. For any other text what
there is to find is settled before the fallback is known, and a run with any fallback finds just that, in
the file and in those that it takes over. The record lists the sites with the open queues filled in, and
records for any two fallbacks agree on the rest. -/
theorem fallback_only_fills (project : Project) (text : String) (path : Path) :
    (∃ failure, ∀ fallback, project.analyzeSource text path fallback = .error failure) ∨
    ∃ (program : Program) (discovery : Discovery),
      Program.parse (project.tree.normalize path) text = .ok program ∧
      ∀ fallback,
        discovery.IsFound project (.ofProgram (project.tree.normalize path) program fallback) ∧
        ∃ record, project.analyzeSource text path fallback = .ok record ∧
          record.name = program.exportedName? ∧
          record.FillsIn fallback discovery.activities discovery.childSites ∧
          ∀ other record', project.analyzeSource text path other = .ok record' →
            record.AgreesBut fallback record' := by
  cases h : Program.parse (project.tree.normalize path) text with
  | error cause => exact .inl ⟨_, fun fallback => analyzeSource_of_parse_error h⟩
  | ok program =>
    let run := SourceFile.ofProgram (project.tree.normalize path) program
    obtain ⟨discovery, hfound⟩ := Discovery.exists_isFound project (run "")
    refine .inr ⟨program, discovery, rfl, fun fallback => ⟨hfound fallback, ?_⟩⟩
    refine ⟨_, analyzeSource_of_parse h, rfl, workflow_fillsIn (hfound fallback), ?_⟩
    intro other record' hother
    rw [analyzeSource_of_parse h] at hother
    cases hother
    exact workflow_agreesBut (hfound fallback) (hfound other) rfl

end Project

end WorkflowAnalysis
