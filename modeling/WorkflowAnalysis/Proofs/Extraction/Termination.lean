import WorkflowAnalysis.Proofs.Extraction.Composition

/-! Composition ends. Every call that goes on marks a path as visited that was not, and all such paths
are known beforehand: the existing files in normal form, and packages as they are joined to a place
above some file. Joining leaves dots in the spelling, so one file may be entered under several of them;
but it starts from the place of the importer, so the spellings do not grow from one file to the next. -/
namespace WorkflowAnalysis

open Relation Syntax

def FileTree.normalFiles (tree : FileTree) : List Path :=
  (tree.textPlaces.map Path.absolute).filter tree.isFile

theorem FileTree.mem_normalFiles {tree : FileTree} {p : Path} (hn : p.IsNormal)
    (hf : tree.isFile p = true) : p ∈ tree.normalFiles := by
  have hplace : Path.absolute (p.place tree.cwd) ∈ tree.textPlaces.map Path.absolute :=
    List.mem_map_of_mem (place_mem_textPlaces hf)
  rw [← hn.eq_absolute_place tree.cwd] at hplace
  exact List.mem_filter.mpr ⟨hplace, hf⟩

theorem ImportMap.mem_bindings_of_get? {map : ImportMap} {name specifier : String}
    (h : map.get? name = some specifier) : (name, specifier) ∈ map.bindings := by
  obtain ⟨before, after, he, -⟩ := List.lookup_eq_some_iff.mp h
  rw [he]
  simp

namespace Project

variable {project : Project} {entry : SourceFile}

/-! ### Paths that can be entered -/

/-- The spellings under which a file may enter packages: any of its specifiers, joined to the package
directory of any place above the file. -/
def packagePaths (project : Project) (file : SourceFile) : List Path :=
  (FileTree.placesUp (file.path.place project.tree.cwd).dropLast).flatMap fun place =>
    file.imports.bindings.flatMap fun binding => FileTree.packageSpellings binding.2 place

def enterable (project : Project) (entry : SourceFile) : List Path :=
  project.tree.normalFiles ++
    (entry :: project.tree.normalFiles.filterMap (project.file? entry.fallback)).flatMap
      project.packagePaths

/-- A file whose classes are followed: the entry, or one that was read from a spelling of its place. -/
def IsSource (project : Project) (entry file : SourceFile) : Prop :=
  file = entry ∨ project.IsLoaded file

theorem mem_enterable_of_isNormal {p : Path} (hn : p.IsNormal) (hf : project.tree.isFile p = true) :
    p ∈ project.enterable entry :=
  List.mem_append_left _ (FileTree.mem_normalFiles hn hf)

theorem packagePaths_subset {file : SourceFile} (h : project.IsSource entry file) :
    project.packagePaths file ⊆ project.enterable entry := by
  intro p hp
  apply List.mem_append_right
  rw [List.mem_flatMap]
  rcases h with rfl | hl
  · exact ⟨file, List.mem_cons_self, hp⟩
  · -- The file may have been entered under another spelling; its normal one names the same packages.
    have hsame := FileTree.SameFile.absolute_place hl.isAbsolute hl.isFile
    obtain ⟨-, hprogram, himports, -⟩ := file?_eq_some hl.file?_eq
    rw [hsame.program?_eq] at hprogram
    let other := SourceFile.ofProgram (Path.absolute (file.path.place project.tree.cwd)) file.program
      entry.fallback
    have hother : project.file? entry.fallback other.path = some other :=
      file?_of_program? hprogram entry.fallback
    have hnormal : other.path ∈ project.tree.normalFiles :=
      FileTree.mem_normalFiles ⟨_, Path.plain_place project.tree.cwd_plain _, rfl⟩
        hsame.right_isFile
    have hpaths : project.packagePaths file = project.packagePaths other := by
      unfold packagePaths
      rw [hsame.place_eq, himports]
      rfl
    rw [hpaths] at hp
    exact ⟨other, List.mem_cons_of_mem _ (List.mem_filterMap.mpr ⟨_, hnormal, hother⟩), hp⟩

theorem mem_enterable_of_baseFile? {file : SourceFile} {ref : ClassRef} {path : Path}
    (hs : project.IsSource entry file) (h : project.baseFile? file ref = some path) :
    path ∈ project.enterable entry := by
  unfold baseFile? at h
  obtain ⟨specifier, hi, h⟩ := Option.bind_eq_some_iff.mp h
  split at h
  · rename_i start hstart
    obtain ⟨hn, hf⟩ := isNormal_of_classFile? (FileTree.resolveModule?_eq_some hstart).1 h
    exact mem_enterable_of_isNormal hn hf
  · obtain ⟨start, hstart, h⟩ := Option.bind_eq_some_iff.mp h
    rcases (classFile?_eq_some h).1.eq_or_isNormal with rfl | ⟨hn, hf⟩
    · obtain ⟨hn | ⟨place, hplace, hspelling⟩, hf⟩ := FileTree.resolvePackage?_spelling hstart
      · exact mem_enterable_of_isNormal hn hf
      · apply packagePaths_subset hs
        have hbinding := ImportMap.mem_bindings_of_get? hi
        exact List.mem_flatMap.mpr ⟨place, hplace, List.mem_flatMap.mpr ⟨_, hbinding, hspelling⟩⟩
    · exact mem_enterable_of_isNormal hn hf

theorem Call.mem_enterable {call : Call} {path : Path} (hs : project.IsSource entry call.file)
    (h : call.target? project = some path) : path ∈ project.enterable entry := by
  unfold target? at h
  split at h
  · obtain ⟨hn, hf⟩ := isNormal_of_createdFile? h
    exact mem_enterable_of_isNormal hn hf
  · exact mem_enterable_of_baseFile? hs h

/-! ### Every call that goes on adds a path -/

/-- One of the paths that can be entered becomes visited and was not before. -/
def Adds (project : Project) (entry : SourceFile) (before after : VisitedFiles) : Prop :=
  ∃ path ∈ project.enterable entry, before.contains path = false ∧ after = before.insert path

theorem Call.adds_entered {call : Call} {path : Path} (hs : project.IsSource entry call.file)
    (h : call.entered? project = some path) :
    project.Adds entry call.visited (call.visited.insert path) := by
  obtain ⟨ht, hnew⟩ := entered?_eq_some.mp h
  exact ⟨path, mem_enterable hs ht, hnew, rfl⟩

theorem Nests.adds {outer inner : Call} (hs : project.IsSource entry outer.file)
    (h : project.Nests outer inner) : project.Adds entry outer.visited inner.visited := by
  obtain ⟨path, file, ref, he, -, -, rfl⟩ := h
  exact Call.adds_entered hs he

theorem Nests.isSource {outer inner : Call} (h : project.Nests outer inner) :
    project.IsSource entry inner.file := by
  obtain ⟨path, file, ref, he, hf, -, rfl⟩ := h
  obtain ⟨ha, -⟩ := Call.target?_eq_some (Call.entered?_eq_some.mp he).1
  obtain ⟨rfl, -, -, hfallback⟩ := file?_eq_some hf
  rw [← hfallback] at hf
  exact .inr ⟨ha, hf⟩

theorem Call.outcome_adds {call : Call} (hs : project.IsSource entry call.file) :
    call.outcome project = ([], call.visited) ∨
      TransGen (project.Adds entry) call.visited (call.outcome project).2 := by
  induction call using project.nests_wellFounded.induction with
  | _ call ih =>
    obtain ⟨-, ho⟩ | ⟨path, he, -, ho⟩ | ⟨path, file, below, he, -, ho, hbelow⟩ :=
      call.outcome_cases project
    · exact .inl ho
    · right
      rw [ho]
      exact .single (adds_entered hs he)
    · right
      rw [ho]
      rcases hbelow with rfl | ⟨inner, hn, hv, rfl⟩
      · exact .single (adds_entered hs he)
      · have hfirst := adds_entered hs he
        rw [← hv] at hfirst
        rcases ih inner hn hn.isSource with hinner | hinner
        · rw [hinner]
          exact .single hfirst
        · exact .head hfirst hinner

theorem Call.outcome_reflTransGen (call : Call) (hs : project.IsSource entry call.file) :
    ReflTransGen (project.Adds entry) call.visited (call.outcome project).2 := by
  rcases outcome_adds hs with ho | ho
  · rw [ho]
  · exact ho.to_reflTransGen

theorem reflTransGen_of_mem_callsFrom {visited : VisitedFiles} {refs : List ClassRef} {call : Call}
    (h : call ∈ project.callsFrom entry visited refs) :
    ReflTransGen (project.Adds entry) visited call.visited := by
  induction refs generalizing visited with
  | nil => cases h
  | cons ref refs ih =>
    rcases List.mem_cons.mp h with rfl | h
    · exact .refl
    · have hentry : project.IsSource entry entry := .inl rfl
      exact (Call.outcome_reflTransGen ⟨true, visited, entry, ref⟩ hentry).trans (ih h)

/-- Every path that is added leaves fewer to add. -/
theorem length_le_of_isChain {call : Call} {calls : List Call}
    (hs : project.IsSource entry call.file) (h : (call :: calls).IsChain project.Nests) :
    calls.length ≤
      (project.enterable entry).countP fun path => !call.visited.contains path := by
  induction calls generalizing call with
  | nil => simp
  | cons inner calls ih =>
    obtain ⟨hn, hrest⟩ := List.isChain_cons_cons.mp h
    have hlength := ih hn.isSource hrest
    obtain ⟨path, hm, hnew, hinsert⟩ := hn.adds hs
    have hcount := VisitedFiles.countP_insert_lt hm hnew
    rw [← hinsert] at hcount
    rw [List.length_cons]
    omega

/-! ### Termination -/

/-- The calls that composing an entry makes: for its first derived class, for the classes it creates,
and those nested in another. -/
inductive Makes (project : Project) (entry : SourceFile) : Call → Prop
  | extension {call : Call} : call ∈ extensionCalls entry → Makes project entry call
  | creation {call : Call} : call ∈ project.creationCalls entry → Makes project entry call
  | nested {outer inner : Call} : Makes project entry outer → project.Nests outer inner →
      Makes project entry inner

theorem mem_extensionCalls {file : SourceFile} {call : Call} (h : call ∈ extensionCalls file) :
    call.file = file ∧ call.visited = .startingAt file.path := by
  obtain ⟨ref, -, rfl⟩ := List.mem_map.mp h
  exact ⟨rfl, rfl⟩

theorem Makes.isSource {call : Call} (h : project.Makes entry call) :
    project.IsSource entry call.file := by
  cases h with
  | extension h => exact .inl (mem_extensionCalls h).1
  | creation h => exact .inl (isCreation_of_mem_callsFrom h).2
  | nested _ hn => exact hn.isSource

theorem Makes.reflTransGen {call : Call} (h : project.Makes entry call) :
    ReflTransGen (project.Adds entry) (.startingAt entry.path) call.visited := by
  induction h with
  | extension h => rw [(mem_extensionCalls h).2]
  | creation h => exact reflTransGen_of_mem_callsFrom h
  | nested houter hn ih => exact ih.tail (hn.adds houter.isSource)

/-- Composition ends on every tree and for every entry. What a file takes over is put together from the
outcomes of calls. A call obeys the recursion without a bound, and calls do not nest for ever: nesting
is no deeper than there are paths that can be entered. Every call that hands out a file or goes on with
another first adds one of these paths, and nothing else is ever added. -/
theorem composition_terminates (project : Project) (entry : SourceFile) :
    (project.inheritedSites entry = (extensionCalls entry).flatMap fun call =>
        (call.outcome project).1.flatMap project.fileSites) ∧
      (project.createdSites entry = (project.creationCalls entry).flatMap fun call =>
        (call.outcome project).1.flatMap project.fileSites) ∧
      (∀ call : Call, call.outcome project = call.step project (Call.outcome project)) ∧
      (WellFounded fun inner outer => project.Nests outer inner) ∧
      ∀ call, project.Makes entry call →
        ReflTransGen (project.Adds entry) (.startingAt entry.path) call.visited ∧
          (call.outcome project = ([], call.visited) ∨
            TransGen (project.Adds entry) call.visited (call.outcome project).2) ∧
          (∀ inner, project.Nests call inner → project.Adds entry call.visited inner.visited) ∧
          ∀ calls, (call :: calls).IsChain project.Nests →
            calls.length ≤ (project.enterable entry).length := by
  refine ⟨project.inheritedSites_eq_flatMap entry, project.createdSites_eq_flatMap entry,
    Call.outcome_eq_step project, project.nests_wellFounded, ?_⟩
  intro call hcall
  refine ⟨hcall.reflTransGen, Call.outcome_adds hcall.isSource, ?_, ?_⟩
  · intro inner hn
    exact hn.adds hcall.isSource
  · intro calls hchain
    exact Nat.le_trans (length_le_of_isChain hcall.isSource hchain) List.countP_le_length

end Project

end WorkflowAnalysis
