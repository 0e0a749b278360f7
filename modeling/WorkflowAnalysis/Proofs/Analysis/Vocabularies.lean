import Mathlib.Data.List.Flatten
import WorkflowAnalysis.Proofs.Analysis.Records

/-! What a record owes to which names of the vocabulary. Lookups go by the export helper alone, so which
files are entered depends on neither the proxy functions nor the start function. Activities go by the
proxy functions and child workflows by the start function, and more proxy functions only add sites
between those that were there. -/
namespace WorkflowAnalysis

open Syntax

namespace Project

variable {project other : Project}

/-! ### Lookups -/

/-- Two projects see the same files and take the same calls for exports of other modules. -/
structure LooksUpAlike (project other : Project) : Prop where
  tree_eq : project.tree = other.tree
  helper_eq : project.vocabulary.reExportHelper = other.vocabulary.reExportHelper

namespace LooksUpAlike

theorem symm (h : project.LooksUpAlike other) : other.LooksUpAlike project :=
  ⟨h.tree_eq.symm, h.helper_eq.symm⟩

theorem reExported_eq (h : project.LooksUpAlike other) : project.reExported = other.reExported := by
  funext path program
  unfold reExported
  rw [h.tree_eq, h.helper_eq]

theorem searchFrom_eq {α : Type} (h : project.LooksUpAlike other)
    (answer : Path → Program → Option α) (fuel : Nat) :
    project.searchFrom answer fuel = other.searchFrom answer fuel := by
  induction fuel with
  | zero => rfl
  | succ fuel ih =>
    funext visited pending
    rw [searchFrom, searchFrom, ih, h.reExported_eq, h.tree_eq]

theorem search_eq {α : Type} (h : project.LooksUpAlike other) (answer : Path → Program → Option α) :
    project.search answer = other.search answer := by
  funext start
  unfold search
  rw [h.searchFrom_eq, h.tree_eq]

theorem constant?_eq (h : project.LooksUpAlike other) : project.constant? = other.constant? := by
  funext specifier name importer
  unfold constant?
  simp only [h.tree_eq, h.search_eq]

theorem classFile?_eq (h : project.LooksUpAlike other) : project.classFile? = other.classFile? := by
  funext name start
  unfold classFile?
  rw [h.search_eq]

theorem memberValue?_eq (h : project.LooksUpAlike other) :
    project.memberValue? = other.memberValue? := by
  funext file node
  unfold memberValue?
  rw [h.constant?_eq]

theorem proxyQueue_eq (h : project.LooksUpAlike other) : project.proxyQueue = other.proxyQueue := by
  funext file arguments
  unfold proxyQueue proxyQueue?
  rw [h.memberValue?_eq]

theorem startInfo?_eq (h : project.LooksUpAlike other) : project.startInfo? = other.startInfo? := by
  have hoptions : project.optionsQueue? = other.optionsQueue? := by
    funext file members
    unfold optionsQueue?
    rw [h.memberValue?_eq]
  funext file isDirect arguments
  unfold startInfo? secondQueue?
  rw [hoptions]

/-! ### Files -/

theorem file?_eq (h : project.LooksUpAlike other) : project.file? = other.file? := by
  funext fallback path
  unfold file?
  rw [h.tree_eq]

theorem baseFile?_eq (h : project.LooksUpAlike other) : project.baseFile? = other.baseFile? := by
  funext file ref
  unfold baseFile?
  rw [h.tree_eq, h.classFile?_eq]

theorem baseChain_eq (h : project.LooksUpAlike other) (fuel : Nat) :
    project.baseChain fuel = other.baseChain fuel := by
  induction fuel with
  | zero => rfl
  | succ fuel ih =>
    funext visited file ref
    cases ref with
    | none => rfl
    | some ref => rw [baseChain, baseChain, h.baseFile?_eq, h.file?_eq, ih]

theorem ancestors_eq (h : project.LooksUpAlike other) : project.ancestors = other.ancestors := by
  funext visited file ref
  unfold ancestors chainBound
  rw [h.tree_eq, h.baseChain_eq]

theorem enterCreated_eq (h : project.LooksUpAlike other) :
    project.enterCreated = other.enterCreated := by
  have hcreated : project.createdFile? = other.createdFile? := by
    funext file ref
    unfold createdFile?
    rw [h.tree_eq, h.classFile?_eq]
  funext file visited ref
  unfold enterCreated
  rw [hcreated, h.file?_eq, h.ancestors_eq]

theorem createdFiles_eq (h : project.LooksUpAlike other) (file : SourceFile)
    (visited : VisitedFiles) (refs : List ClassRef) :
    project.createdFiles file visited refs = other.createdFiles file visited refs := by
  induction refs generalizing visited with
  | nil => rfl
  | cons ref refs ih => simp only [createdFiles, h.enterCreated_eq, ih]

end LooksUpAlike

/-! ### Child workflows -/

theorem childSites_eq (h : project.LooksUpAlike other)
    (hs : project.vocabulary.childStart = other.vocabulary.childStart) (file : SourceFile) :
    project.childSites file = other.childSites file := by
  have hstart : project.vocabulary.isChildStart = other.vocabulary.isChildStart := by
    funext name
    unfold Vocabulary.isChildStart
    rw [hs]
  have hdirect : isDirectStart project.vocabulary = isDirectStart other.vocabulary := by
    funext callee
    unfold isDirectStart
    rw [hstart]
  have hcalls : isDirectStartCall project.vocabulary = isDirectStartCall other.vocabulary := by
    funext node
    unfold isDirectStartCall
    rw [hdirect]
  have hwrapper : wrapperName? project.vocabulary = wrapperName? other.vocabulary := by
    funext node
    unfold wrapperName?
    simp only [startsChild_eq_any, hcalls]
  have hwrappers : file.program.wrappers project.vocabulary =
      file.program.wrappers other.vocabulary := by
    unfold Program.wrappers
    rw [hwrapper]
  have hsite : project.childSite? = other.childSite? := by
    funext file wrappers node
    unfold childSite? isStart
    rw [hdirect, h.startInfo?_eq]
  unfold childSites
  rw [hwrappers, hsite]

/-! ### Activities -/

theorem isProxy_iff {vocabulary : Vocabulary} {name : String} :
    vocabulary.isProxy name = true ↔ name ∈ vocabulary.proxyFunctions := by
  simp [Vocabulary.isProxy]

theorem proxyArguments?_mono {vocabulary wider : Vocabulary}
    (hp : vocabulary.proxyFunctions ⊆ wider.proxyFunctions) {node : Node} {arguments : List Node}
    (h : proxyArguments? vocabulary node = some arguments) :
    proxyArguments? wider node = some arguments := by
  cases node with
  | call callee types passed =>
    simp only [proxyArguments?] at h ⊢
    split at h
    · rename_i hproxy
      cases hname : callee.targetName? with
      | none => simp [hname] at hproxy
      | some name =>
        have hmem : name ∈ vocabulary.proxyFunctions := by simpa [hname, isProxy_iff] using hproxy
        simpa [isProxy_iff, hp hmem] using h
    · cases h
  | _ => cases h

theorem filterMap_sublist {α β : Type} {f g : α → Option β} (l : List α)
    (h : ∀ a b, f a = some b → g a = some b) : (l.filterMap f).Sublist (l.filterMap g) := by
  rw [List.filterMap_eq_flatMap_toList, List.filterMap_eq_flatMap_toList]
  refine List.Sublist.flatMap_right l fun a _ => ?_
  cases hf : f a with
  | none => exact List.nil_sublist _
  | some b => rw [h a b hf]

theorem moduleSites_sublist (h : project.LooksUpAlike other)
    (hp : project.vocabulary.proxyFunctions ⊆ other.vocabulary.proxyFunctions) (file : SourceFile) :
    (project.moduleSites file).Sublist (other.moduleSites file) := by
  refine List.Sublist.flatMap_right _ fun node _ => ?_
  unfold declaratorSites
  rw [h.proxyQueue_eq]
  split
  · cases ha : proxyArguments? project.vocabulary _ with
    | none => exact List.nil_sublist _
    | some arguments => rw [proxyArguments?_mono hp ha]
  · exact List.nil_sublist _

theorem fieldProxies_sublist {vocabulary wider : Vocabulary}
    (hp : vocabulary.proxyFunctions ⊆ wider.proxyFunctions) (members : List Node) :
    (fieldProxies vocabulary members).Sublist (fieldProxies wider members) := by
  refine (filterMap_sublist _ ?_).append (filterMap_sublist _ ?_)
  · intro node proxy hn
    unfold initializedField? at hn ⊢
    split at hn
    · obtain ⟨arguments, ha, rfl⟩ := Option.map_eq_some_iff.mp hn
      rw [proxyArguments?_mono hp ha]
      rfl
    · cases hn
  · intro node proxy hn
    unfold assignedField? at hn ⊢
    split at hn
    · obtain ⟨arguments, ha, rfl⟩ := Option.map_eq_some_iff.mp hn
      rw [proxyArguments?_mono hp ha]
      rfl
    · cases hn

theorem classSites_sublist (h : project.LooksUpAlike other)
    (hp : project.vocabulary.proxyFunctions ⊆ other.vocabulary.proxyFunctions) (file : SourceFile) :
    (project.classSites file).Sublist (other.classSites file) := by
  refine List.Sublist.flatMap_right _ fun node _ => ?_
  unfold classNodeSites
  rw [h.proxyQueue_eq]
  split
  · exact (fieldProxies_sublist hp _).flatMap _
  · exact List.nil_sublist _

/-- With more proxy functions a file has all its activity sites, in their order, and possibly others
between them. -/
theorem activitySites_sublist (h : project.LooksUpAlike other)
    (hp : project.vocabulary.proxyFunctions ⊆ other.vocabulary.proxyFunctions) (file : SourceFile) :
    (project.activitySites file).Sublist (other.activitySites file) := by
  have hfile (held : SourceFile) : (project.fileSites held).Sublist (other.fileSites held) :=
    (moduleSites_sublist h hp held).append (classSites_sublist h hp held)
  have hinherited : (project.inheritedSites file).Sublist (other.inheritedSites file) := by
    unfold inheritedSites
    rw [h.ancestors_eq]
    exact List.Sublist.flatMap_right _ fun held _ => hfile held
  have hcreated : (project.createdSites file).Sublist (other.createdSites file) := by
    unfold createdSites
    rw [h.createdFiles_eq]
    exact List.Sublist.flatMap_right _ fun held _ => hfile held
  exact ((hinherited.append (classSites_sublist h hp file)).append
    (moduleSites_sublist h hp file)).append hcreated

/-! ### Records -/

/-- A record that differs from another by further activities only. -/
structure Gains (record wider : Workflow) : Prop where
  name_eq : record.name = wider.name
  childWorkflows_eq : record.childWorkflows = wider.childWorkflows
  activities_subset : record.activities ⊆ wider.activities

/-- A record that differs from another by child workflows only. -/
structure KeepsActivities (record other : Workflow) : Prop where
  name_eq : record.name = other.name
  activities_eq : record.activities = other.activities

theorem workflow_gains (h : project.LooksUpAlike other)
    (hs : project.vocabulary.childStart = other.vocabulary.childStart)
    (hp : project.vocabulary.proxyFunctions ⊆ other.vocabulary.proxyFunctions) (file : SourceFile) :
    Gains (project.workflow file) (other.workflow file) where
  name_eq := rfl
  childWorkflows_eq := by
    simp only [workflow, childWorkflows, childSites_eq h hs]
  activities_subset := by
    intro activity hm
    obtain ⟨site, hsite, rfl⟩ := mem_activities.mp hm
    exact mem_activities.mpr ⟨site, (activitySites_sublist h hp file).subset hsite, rfl⟩

theorem workflow_keepsActivities (h : project.LooksUpAlike other)
    (hp : ∀ name, name ∈ project.vocabulary.proxyFunctions ↔ name ∈ other.vocabulary.proxyFunctions)
    (file : SourceFile) : KeepsActivities (project.workflow file) (other.workflow file) where
  name_eq := rfl
  activities_eq := by
    have hsites : project.activitySites file = other.activitySites file :=
      (activitySites_sublist h (fun name => (hp name).mp) file).antisymm
        (activitySites_sublist h.symm (fun name => (hp name).mpr) file)
    simp only [workflow, hsites]

/-- Two analyses fail alike, or both give a record and the records are related. -/
inductive AnswersAlike (related : Workflow → Workflow → Prop) :
    Except Failure Workflow → Except Failure Workflow → Prop
  | record {record record' : Workflow} :
      related record record' → AnswersAlike related (.ok record) (.ok record')
  | failure (failure : Failure) : AnswersAlike related (.error failure) (.error failure)

theorem answersAlike_of_workflow {related : Workflow → Workflow → Prop}
    (h : project.LooksUpAlike other)
    (hw : ∀ file, related (project.workflow file) (other.workflow file))
    (path : Path) (fallback : String) :
    (∀ text, AnswersAlike related (project.analyzeSource text path fallback)
      (other.analyzeSource text path fallback)) ∧
    AnswersAlike related (project.analyze path fallback) (other.analyze path fallback) := by
  have hsource (text : String) : AnswersAlike related (project.analyzeSource text path fallback)
      (other.analyzeSource text path fallback) := by
    cases hp : Program.parse (project.tree.normalize path) text with
    | error cause =>
      rw [analyzeSource_of_parse_error hp, h.tree_eq,
        analyzeSource_of_parse_error (by rwa [← h.tree_eq])]
      exact .failure _
    | ok program =>
      rw [analyzeSource_of_parse hp, h.tree_eq, analyzeSource_of_parse (by rwa [← h.tree_eq])]
      exact .record (hw _)
  refine ⟨hsource, ?_⟩
  cases hr : project.tree.read (project.tree.normalize path) with
  | error fault =>
    rw [analyze_of_read_error hr, h.tree_eq, analyze_of_read_error (by rwa [← h.tree_eq])]
    exact .failure _
  | ok text =>
    rw [analyze_of_read hr, analyze_of_read (by rwa [← h.tree_eq])]
    exact hsource text

/-- The proxy functions decide on activities only and the start function on child workflows only. With
further proxy functions a record keeps its name, its child workflows and all its activities, those of
other files included. With the same proxy functions, whatever the start function, it keeps its name and
its list of activities. -/
theorem vocabulary_parts_independent (tree : FileTree) (path : Path) (fallback : String)
    {vocabulary other : Vocabulary} (hh : vocabulary.reExportHelper = other.reExportHelper) :
    (vocabulary.childStart = other.childStart →
      vocabulary.proxyFunctions ⊆ other.proxyFunctions →
      (∀ text, AnswersAlike Gains (analyzeSource ⟨tree, vocabulary⟩ text path fallback)
        (analyzeSource ⟨tree, other⟩ text path fallback)) ∧
      AnswersAlike Gains (analyze ⟨tree, vocabulary⟩ path fallback)
        (analyze ⟨tree, other⟩ path fallback)) ∧
    ((∀ name, name ∈ vocabulary.proxyFunctions ↔ name ∈ other.proxyFunctions) →
      (∀ text, AnswersAlike KeepsActivities (analyzeSource ⟨tree, vocabulary⟩ text path fallback)
        (analyzeSource ⟨tree, other⟩ text path fallback)) ∧
      AnswersAlike KeepsActivities (analyze ⟨tree, vocabulary⟩ path fallback)
        (analyze ⟨tree, other⟩ path fallback)) := by
  have hlook : LooksUpAlike ⟨tree, vocabulary⟩ ⟨tree, other⟩ := ⟨rfl, hh⟩
  constructor
  · intro hs hp
    exact answersAlike_of_workflow hlook (workflow_gains hlook hs hp) path fallback
  · intro hp
    exact answersAlike_of_workflow hlook (workflow_keepsActivities hlook hp) path fallback

/-- A workflow whose base class binds its activities by a function that only a fork of the library has. -/
def forkTree : FileTree :=
  ((FileTree.ofWorkingDirectory ["w"]).write (Path.ofString "main.js")
    ("import { Base } from './base.js'; class Main extends Base {} " ++
      "const { own } = proxyActivities(); startChild('next');").toUTF8).write
    (Path.ofString "base.js") "class Base {} const { inherited } = bindActivities();".toUTF8

def forkVocabulary : Vocabulary :=
  { proxyFunctions := ["bindActivities", "proxyLocalActivities", "proxyActivities"] }

/-- The fork's proxy functions in another order, and another start function. -/
def startVocabulary : Vocabulary :=
  { proxyFunctions := ["proxyActivities", "bindActivities", "proxyLocalActivities"]
    childStart := "startChild" }

theorem vocabulary_parts_independent_fork :
    ((({} : Vocabulary).reExportHelper = forkVocabulary.reExportHelper ∧
        ({} : Vocabulary).childStart = forkVocabulary.childStart ∧
        ({} : Vocabulary).proxyFunctions ⊆ forkVocabulary.proxyFunctions) ∧
      AnswersAlike Gains (analyze ⟨forkTree, {}⟩ (Path.ofString "main.js") "main")
        (analyze ⟨forkTree, forkVocabulary⟩ (Path.ofString "main.js") "main")) ∧
    ((forkVocabulary.reExportHelper = startVocabulary.reExportHelper ∧
        ∀ name, name ∈ forkVocabulary.proxyFunctions ↔ name ∈ startVocabulary.proxyFunctions) ∧
      AnswersAlike KeepsActivities
        (analyze ⟨forkTree, forkVocabulary⟩ (Path.ofString "main.js") "main")
        (analyze ⟨forkTree, startVocabulary⟩ (Path.ofString "main.js") "main")) := by
  have hsubset : ({} : Vocabulary).proxyFunctions ⊆ forkVocabulary.proxyFunctions := by decide
  have hsame (name : String) : name ∈ forkVocabulary.proxyFunctions ↔
      name ∈ startVocabulary.proxyFunctions := by
    simp only [forkVocabulary, startVocabulary, List.mem_cons, List.not_mem_nil, or_false]
    tauto
  have hfork : ({} : Vocabulary).reExportHelper = forkVocabulary.reExportHelper := rfl
  have hstart : forkVocabulary.reExportHelper = startVocabulary.reExportHelper := rfl
  obtain ⟨-, hgains⟩ :=
    (vocabulary_parts_independent forkTree (Path.ofString "main.js") "main" hfork).1 rfl hsubset
  obtain ⟨-, hkeeps⟩ :=
    (vocabulary_parts_independent forkTree (Path.ofString "main.js") "main" hstart).2 hsame
  refine ⟨⟨⟨hfork, rfl, hsubset⟩, ?_⟩, ⟨hstart, hsame⟩, ?_⟩
  · exact hgains
  · exact hkeeps

-- Each part of the vocabulary does add something of its own.
example :
    (analyze ⟨forkTree, {}⟩ (Path.ofString "main.js") "main").toOption =
        some ⟨none, [⟨"own", some "main"⟩], [], none⟩ ∧
      (analyze ⟨forkTree, startVocabulary⟩ (Path.ofString "main.js") "main").toOption =
        some ⟨none, [⟨"inherited", some "main"⟩, ⟨"own", some "main"⟩],
          [⟨some "next", some "main"⟩], none⟩ := by
  decide +kernel

end Project

end WorkflowAnalysis
