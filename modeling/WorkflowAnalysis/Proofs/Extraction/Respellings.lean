import WorkflowAnalysis.Proofs.Extraction.CreatedFiles
import WorkflowAnalysis.Proofs.Extraction.Termination

/-! One file under two spellings. What has been visited is told apart by components, so a spelling that
goes up somewhere counts as another file than the plain spelling of the same place. Only packages are
entered under such spellings, and only where the specifier goes up itself; apart from them a run enters
no place twice. -/
namespace WorkflowAnalysis

open Relation Syntax

namespace Path

/-- A spelling that goes up somewhere. -/
def Climbs (p : Path) : Prop := ".." ∈ p.segments

variable {p q r : Path}

theorem names_of_isAbsolute (h : p.isAbsolute = true) : p.names = p.segments.filter (!isIdle ·) := by
  obtain ⟨rest, hi⟩ := init_of_isAbsolute h
  unfold names
  rw [segments, hi]
  rfl

/-- From the root and without a step up, the names of a spelling are those of its place. -/
theorem place_of_not_climbs (ha : p.isAbsolute = true) (hc : ¬ p.Climbs) (cwd : List String) :
    p.place cwd = p.names := by
  have hplain : Plain p.names := by
    intro name hm
    rw [names_of_isAbsolute ha, List.mem_filter] at hm
    have hup : name ≠ ".." := by
      rintro rfl
      exact hc hm.1
    simp_all [isPlain]
  rw [place_eq_foldl_names, if_pos ha, foldl_step_plain hplain, List.nil_append]

theorem components_eq_of_place_eq {cwd : List String} (hp : p.isAbsolute = true)
    (hq : q.isAbsolute = true) (hcp : ¬ p.Climbs) (hcq : ¬ q.Climbs)
    (h : p.place cwd = q.place cwd) : p.components = q.components := by
  rw [place_of_not_climbs hp hcp, place_of_not_climbs hq hcq] at h
  rw [components_inj, hp, hq]
  exact ⟨rfl, h⟩

theorem IsNormal.not_climbs (h : p.IsNormal) : ¬ p.Climbs := by
  obtain ⟨names, hn, rfl⟩ := h
  intro hm
  obtain rfl | ⟨front, last, rfl⟩ := List.eq_nil_or_concat' names
  · revert hm
    unfold Climbs
    decide
  · rw [absolute_concat, Climbs, segments, List.cons_append, List.mem_cons] at hm
    rcases hm with hm | hm
    · exact absurd hm (by decide)
    · exact absurd (hn ".." hm) (by decide)

theorem climbs_join (h : (p.join r).Climbs) : p.Climbs ∨ r.Climbs := by
  unfold join at h
  split at h
  · exact .inr h
  · split at h <;>
      simp only [Climbs, segments, List.mem_append, List.mem_cons, List.not_mem_nil, or_false] at h ⊢ <;>
      tauto

theorem climbs_append_js (h : (p.append ".js").Climbs) : p.Climbs := by
  rcases List.mem_append.mp h with h | h
  · exact List.mem_append_left _ h
  · have hlast : ".." = p.last ++ ".js" := List.mem_singleton.mp h
    have hplain := isPlain_append_js p.last
    rw [← hlast] at hplain
    exact absurd hplain (by decide)

end Path

namespace FileTree

variable {tree : FileTree} {p q : Path}

theorem normalize_eq_iff : tree.normalize p = tree.normalize q ↔
    p.place tree.cwd = q.place tree.cwd := by
  constructor
  · intro h
    exact Path.absolute_injective (Path.plain_place tree.cwd_plain p)
      (Path.plain_place tree.cwd_plain q) (congrArg Path.components h)
  · intro h
    unfold normalize Path.normalize
    rw [h]

/-- Dots in the spelling of a package stand in its specifier. -/
theorem climbs_of_mem_packageSpellings {specifier : String} {place : List String}
    (hplace : Path.Plain place) (h : p ∈ packageSpellings specifier place) (hc : p.Climbs) :
    (Path.ofString specifier).Climbs := by
  have hmodules : ¬ (Path.ofString "node_modules").Climbs := by
    unfold Path.Climbs
    decide
  have hindex : ¬ (Path.ofString "index.js").Climbs := by
    unfold Path.Climbs
    decide
  have hplace : ¬ (Path.absolute place).Climbs := Path.IsNormal.not_climbs ⟨place, hplace, rfl⟩
  have hcandidate (h : (((Path.absolute place).join (Path.ofString "node_modules")).join
      (Path.ofString specifier)).Climbs) : (Path.ofString specifier).Climbs := by
    rcases Path.climbs_join h with h | h
    · rcases Path.climbs_join h with h | h
      · exact absurd h hplace
      · exact absurd h hmodules
    · exact h
  unfold packageSpellings at h
  simp only [List.mem_cons, List.not_mem_nil, or_false] at h
  rcases h with rfl | rfl | rfl
  · exact hcandidate hc
  · exact hcandidate (Path.climbs_append_js hc)
  · rcases Path.climbs_join hc with h | h
    · exact hcandidate h
    · exact absurd h hindex

end FileTree

namespace VisitedFiles

variable {visited : VisitedFiles} {tree : FileTree} {p : Path}

/-- No place is visited under two spellings. -/
def EntersOnce (visited : VisitedFiles) (tree : FileTree) : Prop :=
  ∀ p ∈ visited.paths, ∀ q ∈ visited.paths, p ≠ q → tree.normalize p ≠ tree.normalize q

/-- Two spellings of one place that do not go up would be one member. -/
theorem entersOnce_iff (hn : (visited.paths.map Path.components).Nodup)
    (ha : ∀ p ∈ visited.paths, p.isAbsolute = true) :
    visited.EntersOnce tree ↔
      ∀ p ∈ visited.paths, p.Climbs → ∀ q ∈ visited.paths,
        tree.normalize q = tree.normalize p → q = p := by
  constructor
  · intro h p hp _ q hq he
    by_contra hne
    exact h q hq p hp hne he
  · intro h p hp q hq hne he
    by_cases hcp : p.Climbs
    · exact hne (h p hp hcp q hq he.symm).symm
    · by_cases hcq : q.Climbs
      · exact hne (h q hq hcq p hp he)
      · have hcomponents := Path.components_eq_of_place_eq (ha p hp) (ha q hq) hcp hcq
          (FileTree.normalize_eq_iff.mp he)
        exact hne (List.inj_on_of_nodup_map hn hp hq hcomponents)

end VisitedFiles

namespace Project

variable {project : Project} {entry : SourceFile}

/-! ### What a run has visited -/

/-- A path that a base class is entered under, where the specifier of its package goes up. -/
def IsClimbingPackage (project : Project) (entry : SourceFile) (p : Path) : Prop :=
  ∃ call specifier, project.Makes entry call ∧ call.isCreation = false ∧
    call.file.imports.get? (call.ref.owner.getD call.ref.className) = some specifier ∧
    (Path.ofString specifier).Climbs ∧
    project.tree.resolveModule? specifier call.file.path = none ∧
    project.tree.resolvePackage? specifier call.file.path = some p

/-- What has been visited is spelled from the root, comes once, and goes up only in packages. -/
structure WellSpelled (project : Project) (entry : SourceFile) (visited : VisitedFiles) : Prop where
  distinct : (visited.paths.map Path.components).Nodup
  isAbsolute : ∀ p ∈ visited.paths, p.isAbsolute = true
  climbing : ∀ p ∈ visited.paths, p.Climbs → project.IsClimbingPackage entry p

theorem wellSpelled_startingAt (h : entry.path.IsNormal) :
    project.WellSpelled entry (.startingAt entry.path) where
  distinct := List.nodup_singleton _
  isAbsolute p hp := by
    rw [List.mem_singleton.mp hp]
    exact h.isAbsolute
  climbing p hp hc := by
    rw [List.mem_singleton.mp hp] at hc
    exact absurd hc h.not_climbs

theorem Call.isClimbingPackage {call : Call} {p : Path} (hm : project.Makes entry call)
    (h : call.target? project = some p) (hc : p.Climbs) : project.IsClimbingPackage entry p := by
  unfold target? at h
  split at h
  · exact absurd hc (isNormal_of_createdFile? h).1.not_climbs
  · rename_i hcreation
    unfold baseFile? at h
    obtain ⟨specifier, hi, h⟩ := Option.bind_eq_some_iff.mp h
    split at h
    · rename_i start hstart
      obtain ⟨hn, -⟩ := isNormal_of_classFile? (FileTree.resolveModule?_eq_some hstart).1 h
      exact absurd hc hn.not_climbs
    · rename_i hmodule
      obtain ⟨start, hstart, h⟩ := Option.bind_eq_some_iff.mp h
      -- A lookup that is passed on ends at a path in normal form.
      rcases (classFile?_eq_some h).1.eq_or_isNormal with rfl | ⟨hn, -⟩
      · refine ⟨call, specifier, hm, by simpa using hcreation, hi, ?_, hmodule, hstart⟩
        obtain ⟨hn | ⟨place, hplace, hspelling⟩, -⟩ := FileTree.resolvePackage?_spelling hstart
        · exact absurd hc hn.not_climbs
        · apply FileTree.climbs_of_mem_packageSpellings _ hspelling hc
          obtain ⟨n, -, rfl⟩ := List.mem_map.mp hplace
          intro name hname
          exact Path.plain_place project.tree.cwd_plain call.file.path name
            (List.dropLast_subset _ (List.mem_of_mem_take hname))
      · exact absurd hc hn.not_climbs

/-- A call enters a path that is new. -/
def Visits (project : Project) (entry : SourceFile) (before after : VisitedFiles) : Prop :=
  ∃ call path, project.Makes entry call ∧ call.entered? project = some path ∧
    before = call.visited ∧ after = call.visited.insert path

theorem Visits.wellSpelled {before after : VisitedFiles} (h : project.Visits entry before after)
    (hb : project.WellSpelled entry before) : project.WellSpelled entry after := by
  obtain ⟨call, path, hm, he, rfl, rfl⟩ := h
  obtain ⟨htarget, hnew⟩ := Call.entered?_eq_some.mp he
  refine ⟨VisitedFiles.nodup_insert hb.distinct hnew, ?_, ?_⟩
  · intro p hp
    rw [VisitedFiles.paths_insert hnew] at hp
    rcases List.mem_cons.mp hp with rfl | hp
    · exact (Call.target?_eq_some htarget).1
    · exact hb.isAbsolute p hp
  · intro p hp hc
    rw [VisitedFiles.paths_insert hnew] at hp
    rcases List.mem_cons.mp hp with rfl | hp
    · exact Call.isClimbingPackage hm htarget hc
    · exact hb.climbing p hp hc

theorem wellSpelled_of_visits {visited : VisitedFiles} (hn : entry.path.IsNormal)
    (h : ReflTransGen (project.Visits entry) (.startingAt entry.path) visited) :
    project.WellSpelled entry visited := by
  induction h with
  | refl => exact wellSpelled_startingAt hn
  | tail _ hlast ih => exact hlast.wellSpelled ih

theorem Call.outcome_visits {call : Call} (hm : project.Makes entry call) :
    ReflTransGen (project.Visits entry) call.visited (call.outcome project).2 := by
  induction call using project.nests_wellFounded.induction with
  | _ call ih =>
    obtain ⟨-, ho⟩ | ⟨path, he, -, ho⟩ | ⟨path, file, below, he, -, ho, hbelow⟩ :=
      call.outcome_cases project
    · rw [ho]
    · rw [ho]
      exact .single ⟨call, path, hm, he, rfl, rfl⟩
    · have hfirst : project.Visits entry call.visited (call.visited.insert path) :=
        ⟨call, path, hm, he, rfl, rfl⟩
      rw [ho]
      rcases hbelow with rfl | ⟨inner, hn, hv, rfl⟩
      · exact .single hfirst
      · rw [← hv] at hfirst
        exact .head hfirst (ih inner hn (.nested hm hn))

/-! ### Runs -/

/-- What one run over an entry takes over: the sites, the files they stand in, and all that has been
visited. -/
structure Run where
  sites : List Site
  files : List SourceFile
  visited : VisitedFiles

/-- The two ways to other files. -/
inductive Route where
  | bases
  | creations

def runAlong (project : Project) (entry : SourceFile) : Route → Run
  | .bases =>
    let run := project.ancestors (.startingAt entry.path) entry entry.program.firstBase?
    ⟨project.inheritedSites entry, run.1, run.2⟩
  | .creations =>
    ⟨project.createdSites entry, project.contributors entry,
      project.visitedCreating entry (.startingAt entry.path) entry.program.created.refs⟩

/-- A run hands out what it visits, and visits by calls. -/
structure IsRun (project : Project) (entry : SourceFile) (run : Run) : Prop where
  sites_eq : run.sites = run.files.flatMap project.fileSites
  handsOut : project.HandsOut entry.fallback (.startingAt entry.path) run.files run.visited
  visits : ReflTransGen (project.Visits entry) (.startingAt entry.path) run.visited

theorem visitedCreating_visits {visited : VisitedFiles} {refs : List ClassRef}
    (hm : ∀ call ∈ project.callsFrom entry visited refs, project.Makes entry call) :
    ReflTransGen (project.Visits entry) visited (project.visitedCreating entry visited refs) := by
  induction refs generalizing visited with
  | nil => exact .refl
  | cons ref refs ih =>
    let call : Call := ⟨true, visited, entry, ref⟩
    have hfirst : project.Makes entry call := hm call List.mem_cons_self
    exact (call.outcome_visits hfirst).trans
      (ih fun call hc => hm call (List.mem_cons_of_mem _ hc))

theorem isRun_runAlong (project : Project) (entry : SourceFile) (route : Route) :
    project.IsRun entry (project.runAlong entry route) := by
  cases route with
  | bases =>
    unfold runAlong inheritedSites
    cases hbase : entry.program.firstBase? with
    | none =>
      rw [ancestors_none]
      exact ⟨rfl, .refl _, .refl⟩
    | some ref =>
      let call : Call := ⟨false, .startingAt entry.path, entry, ref⟩
      have hcall : call ∈ extensionCalls entry := by simp [extensionCalls, hbase, call]
      exact ⟨rfl, call.handsOut project, call.outcome_visits (.extension hcall)⟩
  | creations =>
    exact ⟨rfl, project.createdFiles_handsOut_visited _ _ _,
      visitedCreating_visits fun call hc => .creation hc⟩

/-- What is visited once is handed out once, and the entry not at all. -/
theorem IsRun.contributesOnce {run : Run} (h : project.IsRun entry run)
    (honce : run.visited.EntersOnce project.tree) :
    ((entry :: run.files).map fun file => project.tree.normalize file.path).Nodup := by
  have hentry : (VisitedFiles.startingAt entry.path).contains entry.path = true := by
    simp [VisitedFiles.startingAt, VisitedFiles.contains_insert]
  have hvisited : ∀ file ∈ entry :: run.files, run.visited.contains file.path = true := by
    intro file hm
    rcases List.mem_cons.mp hm with rfl | hm
    · exact h.handsOut.kept _ hentry
    · exact (h.handsOut.entered file hm).2.2
  have hdistinct := h.handsOut.nodup_cons
  rw [List.Nodup, List.pairwise_map] at hdistinct ⊢
  refine hdistinct.imp_of_mem ?_
  intro file other hf ho hne he
  obtain ⟨p, hp, hpf⟩ := List.any_eq_true.mp (hvisited file hf)
  obtain ⟨q, hq, hqo⟩ := List.any_eq_true.mp (hvisited other ho)
  rw [beq_iff_eq] at hpf hqo
  have hpq : p ≠ q := by
    rintro rfl
    exact hne (hpf.symm.trans hqo)
  apply honce p hp q hq hpq
  rw [FileTree.normalize_eq_iff] at he ⊢
  rw [Path.place_congr hpf, he, Path.place_congr hqo]

/-- A run over an entry in normal form enters no place twice exactly when no visited spelling that goes
up shares its place with another one. Such spellings come from packages whose specifier goes up, and
from nowhere else. When no place is entered twice, every file contributes at most once and the entry
never. -/
theorem entersOnce_iff_climbing (project : Project) (path : Path) (program : Program)
    (fallback : String) (route : Route) :
    let entry := SourceFile.ofProgram (project.tree.normalize path) program fallback
    let run := project.runAlong entry route
    run.sites = run.files.flatMap project.fileSites ∧
      (run.visited.EntersOnce project.tree ↔
        ∀ p ∈ run.visited.paths, p.Climbs → ∀ q ∈ run.visited.paths,
          project.tree.normalize q = project.tree.normalize p → q = p) ∧
      (∀ p ∈ run.visited.paths, p.Climbs → project.IsClimbingPackage entry p) ∧
      (run.visited.EntersOnce project.tree →
        ((entry :: run.files).map fun file => project.tree.normalize file.path).Nodup) := by
  intro entry run
  have hrun := project.isRun_runAlong entry route
  have hspelled := wellSpelled_of_visits (project.tree.isNormal_normalize path) hrun.visits
  exact ⟨hrun.sites_eq, VisitedFiles.entersOnce_iff hspelled.distinct hspelled.isAbsolute,
    hspelled.climbing, hrun.contributesOnce⟩

/-- A file that goes into a package only to come back to itself. -/
def returningProject : Project where
  tree :=
    ((FileTree.ofWorkingDirectory ["w"]).write (Path.ofString "main.js")
      ("import * as own from 'kit/../../main.js'; " ++
        "class Base {} class Main extends own.Base {}").toUTF8).write
      (Path.ofString "node_modules/kit/index.js") "".toUTF8

/-- A place can be entered twice: the package leads back to the entry, which has been visited under
its plain spelling only. -/
theorem not_forall_entersOnce :
    ¬ ∀ (project : Project) (path : Path) (fallback : String) (entry : SourceFile) (route : Route),
      project.file? fallback (project.tree.normalize path) = some entry →
      (project.runAlong entry route).visited.EntersOnce project.tree := by
  intro h
  let path := Path.ofString "/w/main.js"
  let other := Path.ofString "/w/node_modules/kit/../../main.js"
  have hpaths : (returningProject.file? "main" (returningProject.tree.normalize path)).map
      (fun entry => (returningProject.runAlong entry .bases).visited.paths) = some [other, path] := by
    decide +kernel
  obtain ⟨entry, hentry, hpaths⟩ := Option.map_eq_some_iff.mp hpaths
  have honce := h returningProject path "main" entry .bases hentry
  apply honce other (by simp [hpaths]) path (by simp [hpaths])
  · decide +kernel
  · decide +kernel

end Project

end WorkflowAnalysis
