import WorkflowAnalysis.Extraction.Collaborators
import WorkflowAnalysis.Proofs.Modules.Lookup

/-! Chains of base classes. From a file on, the base of its first derived class leads to the next one,
until a link is missing or comes back to a visited file. Where a file is settles which file comes next,
so a chain is never longer than the bound on it and nothing of it is lost. -/
namespace WorkflowAnalysis

open Relation Syntax

namespace Project

variable {project : Project}

/-! ### Links -/

def newBase? (project : Project) (visited : VisitedFiles) (file : SourceFile)
    (ref : Option ClassRef) : Option Path :=
  (ref.bind (project.baseFile? file)).filter fun path => !visited.contains path

theorem newBase?_eq_some {visited : VisitedFiles} {file : SourceFile} {ref : Option ClassRef}
    {path : Path} : project.newBase? visited file ref = some path ↔
      ref.bind (project.baseFile? file) = some path ∧ visited.contains path = false := by
  unfold newBase?
  rw [Option.filter_eq_some_iff]
  simp

theorem newBase?_eq_none {visited : VisitedFiles} {file : SourceFile} {ref : Option ClassRef} :
    project.newBase? visited file ref = none ↔
      ∀ path, ref.bind (project.baseFile? file) = some path → visited.contains path = true := by
  unfold newBase?
  rw [Option.filter_eq_none_iff]
  simp

/-- A file that was read from the path it names, spelled from the root. -/
structure IsLoaded (project : Project) (file : SourceFile) : Prop where
  isAbsolute : file.path.isAbsolute = true
  file?_eq : project.file? file.fallback file.path = some file

theorem file?_eq_some {fallback : String} {path : Path} {file : SourceFile}
    (h : project.file? fallback path = some file) :
    file.path = path ∧ project.tree.program? path = some file.program ∧
      file.imports = file.program.imports ∧ file.fallback = fallback := by
  obtain ⟨program, hp, rfl⟩ := Option.map_eq_some_iff.mp h
  exact ⟨rfl, hp, rfl, rfl⟩

theorem file?_of_program? {path : Path} {program : Program}
    (h : project.tree.program? path = some program) (fallback : String) :
    project.file? fallback path = some (.ofProgram path program fallback) := by
  unfold file?
  rw [h]
  rfl

theorem IsLoaded.isFile {file : SourceFile} (h : project.IsLoaded file) :
    project.tree.isFile file.path = true :=
  FileTree.isFile_of_program? (file?_eq_some h.file?_eq).2.1

theorem isLoaded_of_classFile? {name : String} {start path : Path} (ha : start.isAbsolute = true)
    (h : project.classFile? name start = some path) (fallback : String) :
    ∃ base, project.file? fallback path = some base ∧ project.IsLoaded base := by
  obtain ⟨hreach, -, program, hp, -⟩ := classFile?_eq_some h
  have hpath : path.isAbsolute = true := by
    rcases hreach.eq_or_isNormal with rfl | ⟨hn, -⟩
    · exact ha
    · exact hn.isAbsolute
  have hfile := file?_of_program? hp fallback
  exact ⟨_, hfile, hpath, hfile⟩

theorem isLoaded_of_baseFile? {file : SourceFile} {ref : ClassRef} {path : Path}
    (h : project.baseFile? file ref = some path) (fallback : String) :
    ∃ base, project.file? fallback path = some base ∧ project.IsLoaded base := by
  unfold baseFile? at h
  obtain ⟨specifier, -, h⟩ := Option.bind_eq_some_iff.mp h
  split at h
  · rename_i start hs
    exact isLoaded_of_classFile? (FileTree.resolveModule?_eq_some hs).1.isAbsolute h fallback
  · obtain ⟨start, hs, h⟩ := Option.bind_eq_some_iff.mp h
    exact isLoaded_of_classFile? (FileTree.resolvePackage?_eq_some hs).1 h fallback

/-- The place of a file settles where its base classes are. -/
theorem baseFile?_congr {file other : SourceFile} (hf : project.IsLoaded file)
    (ho : project.IsLoaded other)
    (h : file.path.place project.tree.cwd = other.path.place project.tree.cwd) :
    file.program = other.program ∧ project.baseFile? file = project.baseFile? other := by
  have hs : project.tree.SameFile file.path other.path :=
    ⟨hf.isAbsolute, ho.isAbsolute, hf.isFile, ho.isFile, h⟩
  obtain ⟨-, hfp, hfi, -⟩ := file?_eq_some hf.file?_eq
  obtain ⟨-, hop, hoi, -⟩ := file?_eq_some ho.file?_eq
  have hprogram : file.program = other.program := by
    rw [hs.program?_eq, hop] at hfp
    exact (Option.some.inj hfp).symm
  refine ⟨hprogram, ?_⟩
  funext ref
  unfold baseFile?
  rw [hfi, hoi, hprogram]
  simp only [hs.resolveModule?_eq, hs.resolvePackage?_eq]

/-! ### Chains -/

/-- `Inherits pick visited file ref chain`: following a reference of a file enters the files of
`chain`, the nearest first. In each of them `pick` chooses the reference to follow next, knowing the
one that led there. -/
inductive Inherits (project : Project) (pick : ClassRef → Program → Option ClassRef) :
    VisitedFiles → SourceFile → Option ClassRef → List SourceFile → Prop
  | stop {visited : VisitedFiles} {file : SourceFile} {ref : Option ClassRef} :
      project.newBase? visited file ref = none → Inherits project pick visited file ref []
  | enter {visited : VisitedFiles} {file base : SourceFile} {ref : ClassRef} {path : Path}
      {rest : List SourceFile} :
      project.newBase? visited file (some ref) = some path →
      project.file? file.fallback path = some base →
      Inherits project pick (visited.insert path) base (pick ref base.program) rest →
      Inherits project pick visited file (some ref) (base :: rest)

/-- Goes on with the first class of a file that extends a named one. -/
def firstDerived (_ : ClassRef) (program : Program) : Option ClassRef := program.firstBase?

def ownBase (ref : ClassRef) (program : Program) : Option ClassRef :=
  program.declaredBase? ref.className

theorem inherits_nil {pick : ClassRef → Program → Option ClassRef} {visited : VisitedFiles}
    {file : SourceFile} {ref : Option ClassRef} :
    project.Inherits pick visited file ref [] ↔ project.newBase? visited file ref = none := by
  constructor
  · intro h
    cases h
    assumption
  · exact .stop

theorem inherits_cons {pick : ClassRef → Program → Option ClassRef} {visited : VisitedFiles}
    {file base : SourceFile} {ref : Option ClassRef} {rest : List SourceFile} :
    project.Inherits pick visited file ref (base :: rest) ↔
      ∃ named, ref = some named ∧ project.newBase? visited file ref = some base.path ∧
        project.file? file.fallback base.path = some base ∧
        project.Inherits pick (visited.insert base.path) base (pick named base.program) rest := by
  constructor
  · intro h
    cases h with
    | enter hs hf h =>
      obtain ⟨rfl, -⟩ := file?_eq_some hf
      exact ⟨_, rfl, hs, hf, h⟩
  · rintro ⟨named, rfl, hs, hf, h⟩
    exact .enter hs hf h

theorem Inherits.unique {pick : ClassRef → Program → Option ClassRef} {visited : VisitedFiles}
    {file : SourceFile} {ref : Option ClassRef} {chain other : List SourceFile}
    (h : project.Inherits pick visited file ref chain)
    (h' : project.Inherits pick visited file ref other) : chain = other := by
  induction h generalizing other with
  | stop hn =>
    cases h' with
    | stop => rfl
    | enter hs =>
      rw [hn] at hs
      cases hs
  | enter hs hf _ ih =>
    cases h' with
    | stop hn =>
      rw [hn] at hs
      cases hs
    | enter hs' hf' h' =>
      cases hs.symm.trans hs'
      cases hf.symm.trans hf'
      rw [ih h']

theorem baseChain_of_newBase?_eq_none {visited : VisitedFiles} {file : SourceFile}
    {ref : Option ClassRef} (h : project.newBase? visited file ref = none) (fuel : Nat) :
    project.baseChain fuel visited file ref = ([], visited) := by
  rw [newBase?_eq_none] at h
  cases fuel with
  | zero => cases ref <;> rfl
  | succ fuel =>
    cases ref with
    | none => rfl
    | some ref =>
      rw [baseChain]
      cases hb : project.baseFile? file ref with
      | none => rfl
      | some path =>
        dsimp only
        rw [if_pos (h path hb)]

theorem baseChain_of_newBase?_eq_some {visited : VisitedFiles} {file base : SourceFile}
    {ref : ClassRef} {path : Path} (h : project.newBase? visited file (some ref) = some path)
    (hf : project.file? file.fallback path = some base) (fuel : Nat) :
    project.baseChain (fuel + 1) visited file (some ref) =
      (base :: (project.baseChain fuel (visited.insert path) base base.program.firstBase?).1,
        (project.baseChain fuel (visited.insert path) base base.program.firstBase?).2) := by
  obtain ⟨hb, hv⟩ := newBase?_eq_some.mp h
  rw [Option.bind_some] at hb
  rw [baseChain, hb]
  dsimp only
  rw [if_neg (by simp [hv]), hf]

/-- The places whose files lead to nothing new any more. -/
def Settled (project : Project) (visited : VisitedFiles) (places : List (List String)) : Prop :=
  ∀ file, project.IsLoaded file → file.path.place project.tree.cwd ∈ places →
    project.newBase? visited file file.program.firstBase? = none

/-- Entering a file settles the place of the one that led to it. -/
theorem Settled.insert {visited : VisitedFiles} {places : List (List String)} {file : SourceFile}
    {path : Path} (h : project.Settled visited places) (hf : project.IsLoaded file)
    (hb : project.newBase? visited file file.program.firstBase? = some path) :
    project.Settled (visited.insert path) (file.path.place project.tree.cwd :: places) := by
  intro other ho hm
  rw [newBase?_eq_none]
  intro next hn
  rw [VisitedFiles.contains_insert]
  rcases List.mem_cons.mp hm with hplace | hm
  · obtain ⟨hprogram, hbase⟩ := baseFile?_congr ho hf hplace
    rw [hprogram, hbase, (newBase?_eq_some.mp hb).1] at hn
    cases hn
    simp
  · rw [newBase?_eq_none.mp (h other ho hm) next hn, Bool.or_true]

/-- A chain from a file that was read is complete as soon as its steps outnumber the places that are
not settled yet. -/
theorem baseChain_inherits_of_settled {fuel : Nat} {visited : VisitedFiles} {file : SourceFile}
    {places : List (List String)} (hf : project.IsLoaded file) (hs : project.Settled visited places)
    (hfuel : project.tree.textPlaces.countP (fun place => !places.contains place) < fuel) :
    project.Inherits firstDerived visited file file.program.firstBase?
      (project.baseChain fuel visited file file.program.firstBase?).1 := by
  induction fuel generalizing visited file places with
  | zero => omega
  | succ fuel ih =>
    cases hn : project.newBase? visited file file.program.firstBase? with
    | none =>
      rw [baseChain_of_newBase?_eq_none hn]
      exact .stop hn
    | some path =>
      have hs' := hs.insert hf hn
      -- The place of the file was not settled before, since it leads to a new file.
      have hplace : file.path.place project.tree.cwd ∉ places := by
        intro hm
        rw [hs file hf hm] at hn
        cases hn
      have hcount := countP_lt_countP (FileTree.place_mem_textPlaces hf.isFile)
        (p := fun place => !(file.path.place project.tree.cwd :: places).contains place)
        (q := fun place => !places.contains place) (by simp) (by simp) (by simpa using hplace)
      obtain ⟨hb, -⟩ := newBase?_eq_some.mp hn
      obtain ⟨ref, href, hb⟩ := Option.bind_eq_some_iff.mp hb
      obtain ⟨base, hbase, hloaded⟩ := isLoaded_of_baseFile? hb file.fallback
      rw [href] at hn ⊢
      rw [baseChain_of_newBase?_eq_some hn hbase]
      exact .enter hn hbase (ih hloaded hs' (by omega))

/-- The bound on a chain cuts nothing off. -/
theorem ancestors_inherits (project : Project) (visited : VisitedFiles) (file : SourceFile)
    (ref : Option ClassRef) :
    ∃ chain, project.Inherits firstDerived visited file ref chain ∧
      (project.ancestors visited file ref).1 = chain.reverse := by
  refine ⟨(project.baseChain project.chainBound visited file ref).1, ?_, rfl⟩
  cases hn : project.newBase? visited file ref with
  | none =>
    rw [baseChain_of_newBase?_eq_none hn]
    exact .stop hn
  | some path =>
    obtain ⟨hb, -⟩ := newBase?_eq_some.mp hn
    obtain ⟨ref, rfl, hb⟩ := Option.bind_eq_some_iff.mp hb
    obtain ⟨base, hbase, hloaded⟩ := isLoaded_of_baseFile? hb file.fallback
    have hsettled : project.Settled (visited.insert path) [] := by
      intro other _ hm
      cases hm
    have hcount : project.tree.textPlaces.countP (fun place => !List.contains [] place) <
        project.tree.size + 2 := by
      have hle := project.tree.textPlaces.countP_le_length
        (p := fun place => !List.contains [] place)
      have hlen := project.tree.length_textPlaces_le
      omega
    rw [chainBound, baseChain_of_newBase?_eq_some hn hbase]
    exact .enter hn hbase (baseChain_inherits_of_settled hloaded hsettled hcount)

/-! ### Inherited activities -/

def nextBase? (project : Project) (file : SourceFile) : Option Path :=
  file.program.firstBase?.bind (project.baseFile? file)

/-- A chain of files, each the next after the one before it. None was seen before it is entered, and
the chain ends only where no next file is found or the next one has been seen. -/
structure IsBaseChain (project : Project) (seen : List Path) (file : SourceFile)
    (chain : List SourceFile) : Prop where
  linked : (file :: chain).IsChain fun file base =>
    ∃ path, project.nextBase? file = some path ∧ project.file? file.fallback path = some base
  fresh : ((seen ++ chain.map SourceFile.path).map Path.components).Nodup
  ended : ∀ path, project.nextBase? ((file :: chain).getLast (List.cons_ne_nil _ _)) = some path →
    path.IsAmong (seen ++ chain.map SourceFile.path)

theorem isBaseChain_nil {seen : List Path} {file : SourceFile} :
    project.IsBaseChain seen file [] ↔ (seen.map Path.components).Nodup ∧
      ∀ path, project.nextBase? file = some path → path.IsAmong seen := by
  constructor
  · intro h
    exact ⟨by simpa using h.fresh, by simpa using h.ended⟩
  · rintro ⟨hf, he⟩
    exact ⟨List.IsChain.singleton _, by simpa using hf, by simpa using he⟩

theorem isBaseChain_cons {seen : List Path} {file base : SourceFile} {rest : List SourceFile} :
    project.IsBaseChain seen file (base :: rest) ↔
      project.nextBase? file = some base.path ∧ project.file? file.fallback base.path = some base ∧
        project.IsBaseChain (seen ++ [base.path]) base rest := by
  constructor
  · intro h
    obtain ⟨⟨path, hn, hf⟩, hl⟩ := List.isChain_cons_cons.mp h.linked
    obtain ⟨rfl, -⟩ := file?_eq_some hf
    exact ⟨hn, hf, hl, by simpa using h.fresh, by simpa using h.ended⟩
  · rintro ⟨hn, hf, h⟩
    exact ⟨List.isChain_cons_cons.mpr ⟨⟨_, hn, hf⟩, h.linked⟩, by simpa using h.fresh,
      by simpa using h.ended⟩

/-- The files that following the first derived classes enters are those of the chain. -/
theorem isBaseChain_iff_inherits {visited : VisitedFiles} {seen : List Path} {file : SourceFile}
    {chain : List SourceFile} (hv : visited.Records seen)
    (hn : (seen.map Path.components).Nodup) :
    project.IsBaseChain seen file chain ↔
      project.Inherits firstDerived visited file file.program.firstBase? chain := by
  induction chain generalizing visited seen file with
  | nil =>
    rw [isBaseChain_nil, inherits_nil, newBase?_eq_none, and_iff_right hn]
    exact forall_congr' fun path => imp_congr_right fun _ => (hv path).symm
  | cons base rest ih =>
    have hnew : project.newBase? visited file file.program.firstBase? = some base.path ↔
        project.nextBase? file = some base.path ∧ ¬ base.path.IsAmong seen := by
      rw [newBase?_eq_some, ← hv, Bool.not_eq_true]
      rfl
    rw [isBaseChain_cons, inherits_cons]
    constructor
    · rintro ⟨hnext, hf, h⟩
      obtain ⟨ref, href, -⟩ := Option.bind_eq_some_iff.mp hnext
      have hseen : ((seen ++ [base.path]).map Path.components).Nodup := by
        have := h.fresh
        rw [List.map_append] at this
        exact this.of_append_left
      refine ⟨ref, href, hnew.mpr ⟨hnext, (Path.nodup_concat_iff.mp hseen).2⟩, hf, ?_⟩
      exact (ih (hv.insert base.path) hseen).mp h
    · rintro ⟨ref, -, hs, hf, h⟩
      obtain ⟨hnext, hamong⟩ := hnew.mp hs
      refine ⟨hnext, hf, ?_⟩
      exact (ih (hv.insert base.path) (Path.nodup_concat_iff.mpr ⟨hn, hamong⟩)).mpr h

/-- Exactly one chain starts at a file, and the file inherits the activities of all files on it: the
remotest file comes first, and in each file the sets bound to variables come before those bound to
fields. -/
theorem inheritedSites_eq_chain (project : Project) (file : SourceFile) :
    ∃ chain, (∀ other, project.IsBaseChain [file.path] file other ↔ other = chain) ∧
      (project.inheritedSites file).map Site.activity =
        chain.reverse.flatMap fun base =>
          (project.moduleSites base ++ project.classSites base).map Site.activity := by
  obtain ⟨chain, hchain, hancestors⟩ :=
    project.ancestors_inherits (.startingAt file.path) file file.program.firstBase?
  have hiff (other : List SourceFile) : project.IsBaseChain [file.path] file other ↔
      project.Inherits firstDerived (.startingAt file.path) file file.program.firstBase? other :=
    isBaseChain_iff_inherits (VisitedFiles.records_startingAt file.path) (by simp)
  refine ⟨chain, ?_, ?_⟩
  · intro other
    rw [hiff other]
    constructor
    · intro ho
      exact ho.unique hchain
    · rintro rfl
      exact hchain
  · unfold inheritedSites
    rw [hancestors, List.map_flatMap]
    rfl

/-! ### Ancestors of a class and of its file -/

/-- A class in a file, and what has been visited when it is met. -/
structure MetClass where
  visited : VisitedFiles
  file : SourceFile
  className : String

/-- A class and the one it extends itself, in a file that is new. -/
def ExtendsNew (project : Project) (met above : MetClass) : Prop :=
  ∃ ref path, met.file.program.declaredBase? met.className = some ref ∧
    project.newBase? met.visited met.file (some ref) = some path ∧
    project.file? met.file.fallback path = some above.file ∧ above.visited = met.visited.insert path ∧
    above.className = ref.className

/-- The first derived class of a file leads to the same new file as the class that was met there. -/
def LeadsAlike (project : Project) (met : MetClass) : Prop :=
  project.newBase? met.visited met.file met.file.program.firstBase? =
    project.newBase? met.visited met.file (met.file.program.declaredBase? met.className)

theorem inherits_own_iff {visited : VisitedFiles} {base : SourceFile} {name : String}
    {rest : List SourceFile}
    (h : project.Inherits firstDerived visited base base.program.firstBase? rest) :
    project.Inherits ownBase visited base (base.program.declaredBase? name) rest ↔
      ∀ met, ReflTransGen project.ExtendsNew ⟨visited, base, name⟩ met → project.LeadsAlike met := by
  induction rest generalizing visited base name with
  | nil =>
    rw [inherits_nil] at h ⊢
    constructor
    · intro hown met hmet
      rcases hmet.cases_head with rfl | ⟨above, ⟨ref, path, href, hnew, -⟩, -⟩
      · exact h.trans hown.symm
      · rw [href, hnew] at hown
        cases hown
    · intro hall
      exact (hall _ .refl).symm.trans h
  | cons base' rest ih =>
    obtain ⟨first, -, hfirst, hfile, h⟩ := inherits_cons.mp h
    rw [inherits_cons]
    constructor
    · rintro ⟨ref, href, hown, -, hrest⟩ met hmet
      rcases hmet.cases_head with rfl | ⟨above, ⟨ref', path, href', hnew, hf, hv, hc⟩, habove⟩
      · exact hfirst.trans hown.symm
      · obtain ⟨visited', file', name'⟩ := above
        dsimp only at href' hnew hf hv hc
        cases href.symm.trans href'
        rw [href, hnew] at hown
        cases hown
        cases hf.symm.trans hfile
        subst hv hc
        exact (ih h).mp hrest met habove
    · intro hall
      have hown : project.newBase? visited base (base.program.declaredBase? name) =
          some base'.path := (hall _ .refl).symm.trans hfirst
      obtain ⟨ref, href, -⟩ := Option.bind_eq_some_iff.mp (newBase?_eq_some.mp hown).1
      refine ⟨ref, href, hown, hfile, (ih h).mpr fun met hmet => hall met ?_⟩
      exact .head ⟨ref, base'.path, href, by rw [← href, hown], hfile, rfl, rfl⟩ hmet

/-- Following a base class enters its file and then what the first derived classes lead to. These are
the ancestors of the class itself exactly when, in every file on its own chain, the first derived class
leads on to the same new file as the class does. -/
theorem ancestors_eq_own_iff {visited : VisitedFiles} {file : SourceFile} {ref : ClassRef}
    {path : Path} (hbase : project.baseFile? file ref = some path)
    (hnew : visited.contains path = false) :
    ∃ base rest, project.file? file.fallback path = some base ∧
      (project.ancestors visited file (some ref)).1 = rest.reverse ++ [base] ∧
      project.Inherits firstDerived (visited.insert path) base base.program.firstBase? rest ∧
      (project.Inherits ownBase (visited.insert path) base
          (base.program.declaredBase? ref.className) rest ↔
        ∀ met, ReflTransGen project.ExtendsNew ⟨visited.insert path, base, ref.className⟩ met →
          project.LeadsAlike met) := by
  obtain ⟨chain, hchain, hancestors⟩ := project.ancestors_inherits visited file (some ref)
  have hstep : project.newBase? visited file (some ref) = some path :=
    newBase?_eq_some.mpr ⟨hbase, hnew⟩
  cases hchain with
  | stop hn =>
    rw [hn] at hstep
    cases hstep
  | @enter _ _ base _ path' rest hs hf hrest =>
    cases hs.symm.trans hstep
    refine ⟨base, rest, hf, ?_, hrest, inherits_own_iff hrest⟩
    rw [hancestors, List.reverse_cons]

/-- A base class without a base of its own, declared after a stranger that has one. -/
def strangerProject : Project where
  tree :=
    ((FileTree.ofWorkingDirectory ["w"]).write (Path.ofString "base.js")
      "const A = require('./far.js'); class Other extends A {} class Base {}".toUTF8).write
      (Path.ofString "far.js") "class A {}".toUTF8

def strangerEntry : SourceFile :=
  .ofProgram (Path.ofString "/w/main.js")
    ⟨[.importFrom ["Base"] "./base.js",
      .classDef .declaration (some "Main") [] (some (.identifier "Base")) []]⟩ "main"

theorem baseFile?_strangerEntry :
    strangerProject.baseFile? strangerEntry ⟨"Base", none⟩ = some (Path.ofString "/w/base.js") := by
  decide +kernel

theorem contains_strangerEntry :
    (VisitedFiles.startingAt strangerEntry.path).contains (Path.ofString "/w/base.js") = false := by
  decide +kernel

theorem ancestors_eq_own_iff_stranger :
    (strangerProject.baseFile? strangerEntry ⟨"Base", none⟩ = some (Path.ofString "/w/base.js") ∧
      (VisitedFiles.startingAt strangerEntry.path).contains (Path.ofString "/w/base.js") = false) ∧
    ∃ base rest,
      strangerProject.file? strangerEntry.fallback (Path.ofString "/w/base.js") = some base ∧
      (strangerProject.ancestors (.startingAt strangerEntry.path) strangerEntry
        (some ⟨"Base", none⟩)).1 = rest.reverse ++ [base] ∧
      strangerProject.Inherits firstDerived
        ((VisitedFiles.startingAt strangerEntry.path).insert (Path.ofString "/w/base.js")) base
        base.program.firstBase? rest ∧
      (strangerProject.Inherits ownBase
          ((VisitedFiles.startingAt strangerEntry.path).insert (Path.ofString "/w/base.js")) base
          (base.program.declaredBase? "Base") rest ↔
        ∀ met, ReflTransGen strangerProject.ExtendsNew
          ⟨(VisitedFiles.startingAt strangerEntry.path).insert (Path.ofString "/w/base.js"), base,
            "Base"⟩ met → strangerProject.LeadsAlike met) :=
  ⟨⟨baseFile?_strangerEntry, contains_strangerEntry⟩,
    ancestors_eq_own_iff baseFile?_strangerEntry contains_strangerEntry⟩

/-- A class does not always bring in its own ancestors: here it has none, and those of the stranger
in its file are entered. -/
theorem not_forall_ancestors_own :
    ¬ ∀ (project : Project) (visited : VisitedFiles) (file : SourceFile) (ref : ClassRef)
      (path : Path), project.baseFile? file ref = some path → visited.contains path = false →
      ∃ base rest, project.file? file.fallback path = some base ∧
        (project.ancestors visited file (some ref)).1 = rest.reverse ++ [base] ∧
        project.Inherits ownBase (visited.insert path) base
          (base.program.declaredBase? ref.className) rest := by
  intro h
  obtain ⟨base, rest, hfile, hancestors, hown⟩ := h strangerProject
    (.startingAt strangerEntry.path) strangerEntry ⟨"Base", none⟩ (Path.ofString "/w/base.js")
    baseFile?_strangerEntry contains_strangerEntry
  have hnone : base.program.declaredBase? "Base" = none := by
    have hdeclared : (strangerProject.file? strangerEntry.fallback (Path.ofString "/w/base.js")).map
        (fun base => base.program.declaredBase? "Base") = some none := by decide +kernel
    rw [hfile] at hdeclared
    exact Option.some.inj hdeclared
  have hlength : (strangerProject.ancestors (.startingAt strangerEntry.path) strangerEntry
      (some ⟨"Base", none⟩)).1.length = 2 := by decide +kernel
  rw [hnone] at hown
  cases hown with
  | stop =>
    rw [hancestors] at hlength
    cases hlength

end Project

end WorkflowAnalysis
