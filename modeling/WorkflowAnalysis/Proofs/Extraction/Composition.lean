import WorkflowAnalysis.Proofs.Extraction.BaseChains

/-! Composing a file out of others. Following a class, extended or created, is one call: it enters the
file of the class unless that was visited before, and goes on with one nested call for a base class.
Nesting always ends, so what holds of a call whenever it holds of the nested one holds of every call. -/
namespace WorkflowAnalysis

open Relation Syntax

namespace Project

variable {project : Project}

/-! ### Ancestors without a bound -/

theorem length_baseChain_le (project : Project) (fuel : Nat) (visited : VisitedFiles)
    (file : SourceFile) (ref : Option ClassRef) :
    (project.baseChain fuel visited file ref).1.length ≤ fuel := by
  induction fuel generalizing visited file ref with
  | zero => simp [baseChain]
  | succ fuel ih =>
    cases ref with
    | none => simp [baseChain]
    | some ref =>
      rw [baseChain]
      split
      · simp
      · split
        · simp
        · split
          · simp
          · simpa using ih _ _ _

theorem Inherits.baseChain_congr {visited : VisitedFiles} {file : SourceFile}
    {ref : Option ClassRef} {chain : List SourceFile}
    (h : project.Inherits firstDerived visited file ref chain) {fuel other : Nat}
    (hf : chain.length ≤ fuel) (ho : chain.length ≤ other) :
    project.baseChain fuel visited file ref = project.baseChain other visited file ref := by
  induction h generalizing fuel other with
  | stop hn => rw [baseChain_of_newBase?_eq_none hn, baseChain_of_newBase?_eq_none hn]
  | enter hs hb _ ih =>
    obtain ⟨fuel, rfl⟩ := Nat.exists_eq_add_of_le' (Nat.one_le_of_lt hf)
    obtain ⟨other, rfl⟩ := Nat.exists_eq_add_of_le' (Nat.one_le_of_lt ho)
    have hrest := ih (Nat.le_of_succ_le_succ hf) (Nat.le_of_succ_le_succ ho)
    unfold firstDerived at hrest
    rw [baseChain_of_newBase?_eq_some hs hb, baseChain_of_newBase?_eq_some hs hb, hrest]

theorem ancestors_of_newBase?_eq_none {visited : VisitedFiles} {file : SourceFile}
    {ref : Option ClassRef} (h : project.newBase? visited file ref = none) :
    project.ancestors visited file ref = ([], visited) := by
  unfold ancestors
  rw [baseChain_of_newBase?_eq_none h]
  rfl

theorem ancestors_of_newBase?_eq_some {visited : VisitedFiles} {file base : SourceFile}
    {ref : ClassRef} {path : Path} (h : project.newBase? visited file (some ref) = some path)
    (hb : project.file? file.fallback path = some base) :
    project.ancestors visited file (some ref) =
      ((project.ancestors (visited.insert path) base base.program.firstBase?).1 ++ [base],
        (project.ancestors (visited.insert path) base base.program.firstBase?).2) := by
  obtain ⟨rest, hrest, hancestors⟩ :=
    project.ancestors_inherits (visited.insert path) base base.program.firstBase?
  obtain ⟨chain, hchain, hall⟩ := project.ancestors_inherits visited file (some ref)
  cases hchain.unique (.enter h hb hrest)
  have hlength := project.length_baseChain_le project.chainBound visited file (some ref)
  have hfst : (project.baseChain project.chainBound visited file (some ref)).1 = base :: rest := by
    rw [← List.reverse_inj, ← hall]
    rfl
  rw [hfst, List.length_cons] at hlength
  have hfits : rest.length ≤ project.tree.size + 2 := by
    unfold chainBound at hlength
    omega
  have hcongr := hrest.baseChain_congr hfits (Nat.le_of_succ_le hlength)
  unfold ancestors
  rw [chainBound, baseChain_of_newBase?_eq_some h hb, hcongr]
  simp [chainBound]

theorem ancestors_none (visited : VisitedFiles) (file : SourceFile) :
    project.ancestors visited file none = ([], visited) :=
  ancestors_of_newBase?_eq_none rfl

/-! ### Calls -/

theorem isNormal_of_createdFile? {file : SourceFile} {ref : ClassRef} {path : Path}
    (h : project.createdFile? file ref = some path) :
    path.IsNormal ∧ project.tree.isFile path = true := by
  unfold createdFile? at h
  obtain ⟨specifier, -, h⟩ := Option.bind_eq_some_iff.mp h
  obtain ⟨start, hs, h⟩ := Option.bind_eq_some_iff.mp h
  have hstart := FileTree.resolveModule?_eq_some hs
  cases hc : project.classFile? ref.className start with
  | none =>
    rw [hc] at h
    cases h
    exact hstart
  | some found =>
    rw [hc] at h
    cases h
    exact isNormal_of_classFile? hstart.1 hc

/-- A class that is followed from a file, either because it is created there or as the base of another,
and what has been visited then. -/
structure Call where
  isCreation : Bool
  visited : VisitedFiles
  file : SourceFile
  ref : ClassRef

namespace Call

def target? (project : Project) (call : Call) : Option Path :=
  if call.isCreation then project.createdFile? call.file call.ref
  else project.baseFile? call.file call.ref

/-- The path that a call adds to the visited ones, before anything else is done. -/
def entered? (project : Project) (call : Call) : Option Path :=
  (call.target? project).filter fun path => !call.visited.contains path

/-- The base class to go on with. A created class names its own; from a base on, the first derived class
of the file stands in for it. -/
def next? (call : Call) (program : Program) : Option ClassRef :=
  if call.isCreation then program.declaredBase? call.ref.className else program.firstBase?

/-- The files that a call hands out, and what has been visited after it. -/
def outcome (project : Project) (call : Call) : List SourceFile × VisitedFiles :=
  if call.isCreation then project.enterCreated call.file call.visited call.ref
  else project.ancestors call.visited call.file (some call.ref)

/-- What a call comes to if `answer` stands for the nested one. -/
def step (project : Project) (answer : Call → List SourceFile × VisitedFiles) (call : Call) :
    List SourceFile × VisitedFiles :=
  match call.entered? project with
  | none => ([], call.visited)
  | some path =>
    match project.file? call.file.fallback path with
    | none => ([], call.visited.insert path)
    | some file =>
      let below :=
        match call.next? file.program with
        | none => ([], call.visited.insert path)
        | some ref => answer ⟨false, call.visited.insert path, file, ref⟩
      (below.1 ++ [file], below.2)

theorem entered?_eq_some {call : Call} {path : Path} :
    call.entered? project = some path ↔
      call.target? project = some path ∧ call.visited.contains path = false := by
  unfold entered?
  rw [Option.filter_eq_some_iff]
  simp

theorem entered?_eq_none {call : Call} :
    call.entered? project = none ↔
      ∀ path, call.target? project = some path → call.visited.contains path = true := by
  unfold entered?
  rw [Option.filter_eq_none_iff]
  simp

theorem ancestors_eq_step (project : Project) (visited : VisitedFiles) (file : SourceFile)
    (ref : ClassRef) : project.ancestors visited file (some ref) =
      step project (outcome project) ⟨false, visited, file, ref⟩ := by
  have hnew : entered? project ⟨false, visited, file, ref⟩ =
      project.newBase? visited file (some ref) := rfl
  unfold step
  rw [hnew]
  cases h : project.newBase? visited file (some ref) with
  | none => exact ancestors_of_newBase?_eq_none h
  | some path =>
    obtain ⟨base, hb, -⟩ := isLoaded_of_baseFile? (newBase?_eq_some.mp h).1 file.fallback
    rw [ancestors_of_newBase?_eq_some h hb]
    dsimp only
    rw [hb]
    change _ = (_ ++ [base], _)
    have hnext : next? ⟨false, visited, file, ref⟩ base.program = base.program.firstBase? := rfl
    rw [hnext]
    cases base.program.firstBase? with
    | none => rw [ancestors_none]
    | some next => rfl

theorem enterCreated_eq_step (project : Project) (visited : VisitedFiles) (file : SourceFile)
    (ref : ClassRef) : project.enterCreated file visited ref =
      step project (outcome project) ⟨true, visited, file, ref⟩ := by
  have hnew : entered? project ⟨true, visited, file, ref⟩ =
      (project.createdFile? file ref).filter fun path => !visited.contains path := rfl
  unfold step enterCreated
  rw [hnew]
  cases project.createdFile? file ref with
  | none => rfl
  | some path =>
    cases hv : visited.contains path with
    | true => simp [hv, Option.filter]
    | false =>
      simp only [hv, Option.filter, Bool.not_false, if_true, Bool.false_eq_true, if_false]
      cases project.file? file.fallback path with
      | none => rfl
      | some created =>
        have hnext : next? ⟨true, visited, file, ref⟩ created.program =
            created.program.declaredBase? ref.className := rfl
        dsimp only
        rw [hnext]
        cases created.program.declaredBase? ref.className with
        | none => rw [ancestors_none]
        | some base => rfl

/-- Calls obey a recursion that knows no bound. -/
theorem outcome_eq_step (project : Project) (call : Call) :
    call.outcome project = call.step project (outcome project) := by
  obtain ⟨isCreation, visited, file, ref⟩ := call
  cases isCreation with
  | false => exact ancestors_eq_step project visited file ref
  | true => exact enterCreated_eq_step project visited file ref

theorem target?_eq_some {call : Call} {path : Path} (h : call.target? project = some path) :
    path.isAbsolute = true ∧ project.tree.isFile path = true := by
  unfold target? at h
  split at h
  · obtain ⟨hn, hf⟩ := isNormal_of_createdFile? h
    exact ⟨hn.isAbsolute, hf⟩
  · obtain ⟨base, hb, hl⟩ := isLoaded_of_baseFile? h call.file.fallback
    obtain ⟨rfl, -⟩ := file?_eq_some hb
    exact ⟨hl.isAbsolute, hl.isFile⟩

end Call

/-- A call that has entered a file goes on with another. -/
def Nests (project : Project) (outer inner : Call) : Prop :=
  ∃ path file ref, outer.entered? project = some path ∧
    project.file? outer.file.fallback path = some file ∧
    outer.next? file.program = some ref ∧ inner = ⟨false, outer.visited.insert path, file, ref⟩

theorem Nests.fallback_eq {outer inner : Call} (h : project.Nests outer inner) :
    inner.file.fallback = outer.file.fallback := by
  obtain ⟨path, file, ref, -, hf, -, rfl⟩ := h
  exact (file?_eq_some hf).2.2.2

/-- The three ways a call can go: it enters nothing, or a file that cannot be read, or a file that it
hands out after what is below, the files of the nested call if there is one. -/
theorem Call.outcome_cases (project : Project) (call : Call) :
    (call.entered? project = none ∧ call.outcome project = ([], call.visited)) ∨
    (∃ path, call.entered? project = some path ∧ project.file? call.file.fallback path = none ∧
      call.outcome project = ([], call.visited.insert path)) ∨
    ∃ path file below, call.entered? project = some path ∧
      project.file? call.file.fallback path = some file ∧
      call.outcome project = (below.1 ++ [file], below.2) ∧
      (below = ([], call.visited.insert path) ∨
        ∃ inner, project.Nests call inner ∧ inner.visited = call.visited.insert path ∧
          below = inner.outcome project) := by
  rw [outcome_eq_step, step]
  cases he : call.entered? project with
  | none => exact .inl ⟨rfl, rfl⟩
  | some path =>
    dsimp only
    cases hf : project.file? call.file.fallback path with
    | none => exact .inr (.inl ⟨path, rfl, hf, rfl⟩)
    | some file =>
      refine .inr (.inr ⟨path, file, _, rfl, hf, rfl, ?_⟩)
      cases hn : call.next? file.program with
      | none => exact .inl rfl
      | some ref => exact .inr ⟨_, ⟨path, file, ref, he, hf, hn, rfl⟩, rfl, rfl⟩

theorem Inherits.acc {visited : VisitedFiles} {file : SourceFile} {ref : ClassRef}
    {chain : List SourceFile} (h : project.Inherits firstDerived visited file (some ref) chain) :
    Acc (fun inner outer => project.Nests outer inner) ⟨false, visited, file, ref⟩ := by
  induction chain generalizing visited file ref with
  | nil =>
    refine .intro _ ?_
    rintro _ ⟨path, entered, next, he, -⟩
    cases (inherits_nil.mp h).symm.trans he
  | cons base rest ih =>
    obtain ⟨named, -, hnew, hfile, hrest⟩ := inherits_cons.mp h
    refine .intro _ ?_
    -- The nested call follows the first derived class, as the rest of the chain does.
    rintro _ ⟨path, entered, next, he, hf, hn, rfl⟩
    cases hnew.symm.trans he
    cases hfile.symm.trans hf
    have hn : base.program.firstBase? = some next := hn
    rw [firstDerived, hn] at hrest
    exact ih hrest

/-- No call nests for ever. -/
theorem nests_wellFounded (project : Project) :
    WellFounded fun inner outer => project.Nests outer inner := by
  have hbase (visited : VisitedFiles) (file : SourceFile) (ref : ClassRef) :
      Acc (fun inner outer => project.Nests outer inner) ⟨false, visited, file, ref⟩ := by
    obtain ⟨chain, hchain, -⟩ := project.ancestors_inherits visited file (some ref)
    exact hchain.acc
  refine ⟨fun call => .intro call ?_⟩
  rintro _ ⟨path, file, ref, -, -, -, rfl⟩
  exact hbase _ _ _

/-! ### What is visited is handed out -/

/-- Between two sets of visited files some files were handed out, all with one fallback: each was new
and comes once, and whatever became visited is one of them unless it cannot be read. -/
structure HandsOut (project : Project) (fallback : String) (before : VisitedFiles)
    (files : List SourceFile) (after : VisitedFiles) : Prop where
  kept : ∀ p, before.contains p = true → after.contains p = true
  entered : ∀ file ∈ files, project.IsLoaded file ∧ before.contains file.path = false ∧
    after.contains file.path = true
  shared : ∀ file ∈ files, file.fallback = fallback
  distinct : (files.map fun file => file.path.components).Nodup
  complete : ∀ p, after.contains p = true → before.contains p = true ∨
    ∃ q, q.components = p.components ∧ q.isAbsolute = true ∧ project.tree.isFile q = true ∧
      ∀ file, project.file? fallback q = some file → file ∈ files

namespace HandsOut

variable {fallback : String} {before middle after : VisitedFiles} {files others : List SourceFile}

theorem refl (visited : VisitedFiles) : project.HandsOut fallback visited [] visited where
  kept _ h := h
  entered _ h := nomatch h
  shared _ h := nomatch h
  distinct := List.nodup_nil
  complete _ h := .inl h

theorem insert (fallback : String) {call : Call} {path : Path}
    (h : call.entered? project = some path) :
    project.HandsOut fallback call.visited (project.file? fallback path).toList
      (call.visited.insert path) := by
  obtain ⟨htarget, hnew⟩ := Call.entered?_eq_some.mp h
  obtain ⟨ha, hf⟩ := Call.target?_eq_some htarget
  refine ⟨?_, ?_, ?_, ?_, ?_⟩
  · intro p hp
    rw [VisitedFiles.contains_insert, hp, Bool.or_true]
  · intro file hm
    have hfile := Option.mem_toList.mp hm
    obtain ⟨rfl, -, -, rfl⟩ := file?_eq_some hfile
    exact ⟨⟨ha, hfile⟩, hnew, by simp [VisitedFiles.contains_insert]⟩
  · intro file hm
    exact (file?_eq_some (Option.mem_toList.mp hm)).2.2.2
  · cases project.file? fallback path <;> simp
  · intro p hp
    rw [VisitedFiles.contains_insert, Bool.or_eq_true, beq_iff_eq] at hp
    rcases hp with hp | hp
    · exact .inr ⟨path, hp, ha, hf, fun file => Option.mem_toList.mpr⟩
    · exact .inl hp

theorem trans (h : project.HandsOut fallback before files middle)
    (h' : project.HandsOut fallback middle others after) :
    project.HandsOut fallback before (files ++ others) after where
  kept p hp := h'.kept p (h.kept p hp)
  entered file hm := by
    rcases List.mem_append.mp hm with hm | hm
    · obtain ⟨hl, hb, ha⟩ := h.entered file hm
      exact ⟨hl, hb, h'.kept _ ha⟩
    · obtain ⟨hl, hb, ha⟩ := h'.entered file hm
      refine ⟨hl, ?_, ha⟩
      cases hc : before.contains file.path with
      | false => rfl
      | true => rw [h.kept _ hc] at hb; cases hb
  shared file hm := (List.mem_append.mp hm).elim (h.shared file) (h'.shared file)
  distinct := by
    rw [List.map_append, List.nodup_append]
    refine ⟨h.distinct, h'.distinct, ?_⟩
    -- What was handed out first is visited when the others are handed out.
    rintro _ hm _ hm' rfl
    obtain ⟨file, hf, he⟩ := List.mem_map.mp hm
    obtain ⟨other, ho, he'⟩ := List.mem_map.mp hm'
    have hvisited := (h.entered file hf).2.2
    rw [VisitedFiles.contains_congr (he.trans he'.symm), (h'.entered other ho).2.1] at hvisited
    cases hvisited
  complete p hp := by
    rcases h'.complete p hp with hp | ⟨q, hq, ha, hf, hall⟩
    · rcases h.complete p hp with hp | ⟨q, hq, ha, hf, hall⟩
      · exact .inl hp
      · exact .inr ⟨q, hq, ha, hf, fun file hfile => List.mem_append_left _ (hall file hfile)⟩
    · exact .inr ⟨q, hq, ha, hf, fun file hfile => List.mem_append_right _ (hall file hfile)⟩

theorem of_perm (h : project.HandsOut fallback before files after) (hp : files.Perm others) :
    project.HandsOut fallback before others after where
  kept := h.kept
  entered file hm := h.entered file (hp.mem_iff.mpr hm)
  shared file hm := h.shared file (hp.mem_iff.mpr hm)
  distinct := (hp.map _).nodup_iff.mp h.distinct
  complete p hc := by
    rcases h.complete p hc with hc | ⟨q, hq, ha, hf, hall⟩
    · exact .inl hc
    · exact .inr ⟨q, hq, ha, hf, fun file hfile => hp.mem_iff.mp (hall file hfile)⟩

end HandsOut

theorem Call.handsOut (project : Project) (call : Call) :
    project.HandsOut call.file.fallback call.visited (call.outcome project).1
      (call.outcome project).2 := by
  induction call using project.nests_wellFounded.induction with
  | _ call ih =>
    obtain ⟨-, ho⟩ | ⟨path, he, hf, ho⟩ | ⟨path, file, below, he, hf, ho, hbelow⟩ :=
      call.outcome_cases project
    · rw [ho]
      exact .refl call.visited
    · have hinsert := HandsOut.insert call.file.fallback he
      rw [hf] at hinsert
      rw [ho]
      exact hinsert
    · have hfirst := HandsOut.insert call.file.fallback he
      rw [hf, Option.toList_some] at hfirst
      have hrest : project.HandsOut call.file.fallback (call.visited.insert path) below.1
          below.2 := by
        rcases hbelow with rfl | ⟨inner, hn, hv, rfl⟩
        · exact .refl _
        · rw [← hv, ← hn.fallback_eq]
          exact ih inner hn
      -- The file is entered before those below it and handed out after them.
      rw [ho]
      exact (hfirst.trans hrest).of_perm List.perm_append_comm

theorem Call.contains_target {call : Call} {path : Path} (h : call.target? project = some path) :
    (call.outcome project).2.contains path = true := by
  obtain ⟨he, ho⟩ | ⟨other, he, -, ho⟩ | ⟨other, file, below, he, -, ho, hbelow⟩ :=
    call.outcome_cases project
  · rw [ho]
    exact entered?_eq_none.mp he path h
  · cases h.symm.trans (entered?_eq_some.mp he).1
    simp [ho, VisitedFiles.contains_insert]
  · cases h.symm.trans (entered?_eq_some.mp he).1
    have hpath : (call.visited.insert path).contains path = true := by
      simp [VisitedFiles.contains_insert]
    rw [ho]
    rcases hbelow with rfl | ⟨inner, -, hv, rfl⟩
    · exact hpath
    · rw [← hv] at hpath
      exact (inner.handsOut project).kept path hpath

/-! ### One call after the other -/

def callsFrom (project : Project) (file : SourceFile) : VisitedFiles → List ClassRef → List Call
  | _, [] => []
  | visited, ref :: refs =>
    let call : Call := ⟨true, visited, file, ref⟩
    call :: project.callsFrom file (call.outcome project).2 refs

def creationCalls (project : Project) (file : SourceFile) : List Call :=
  project.callsFrom file (.startingAt file.path) file.program.created.refs

def extensionCalls (file : SourceFile) : List Call :=
  file.program.firstBase?.toList.map fun ref => ⟨false, .startingAt file.path, file, ref⟩

theorem createdFiles_eq_flatMap (project : Project) (file : SourceFile) (visited : VisitedFiles)
    (refs : List ClassRef) : project.createdFiles file visited refs =
      (project.callsFrom file visited refs).flatMap fun call => (call.outcome project).1 := by
  induction refs generalizing visited with
  | nil => rfl
  | cons ref refs ih =>
    rw [createdFiles, callsFrom, List.flatMap_cons, ← ih]
    rfl

theorem createdSites_eq_flatMap (project : Project) (file : SourceFile) :
    project.createdSites file = (project.creationCalls file).flatMap fun call =>
      (call.outcome project).1.flatMap project.fileSites := by
  unfold createdSites creationCalls
  rw [createdFiles_eq_flatMap, List.flatMap_assoc]

theorem inheritedSites_eq_flatMap (project : Project) (file : SourceFile) :
    project.inheritedSites file = (extensionCalls file).flatMap fun call =>
      (call.outcome project).1.flatMap project.fileSites := by
  unfold inheritedSites extensionCalls
  cases file.program.firstBase? with
  | none => rw [ancestors_none]; rfl
  | some ref => simp [Call.outcome]

theorem map_ref_callsFrom (project : Project) (file : SourceFile) (visited : VisitedFiles)
    (refs : List ClassRef) : (project.callsFrom file visited refs).map Call.ref = refs := by
  induction refs generalizing visited with
  | nil => rfl
  | cons ref refs ih => rw [callsFrom, List.map_cons, ih]

theorem isCreation_of_mem_callsFrom {file : SourceFile} {visited : VisitedFiles}
    {refs : List ClassRef} {call : Call} (h : call ∈ project.callsFrom file visited refs) :
    call.isCreation = true ∧ call.file = file := by
  induction refs generalizing visited with
  | nil => cases h
  | cons ref refs ih =>
    rcases List.mem_cons.mp h with rfl | h
    · exact ⟨rfl, rfl⟩
    · exact ih h

/-- What has been visited at the turn of a call was handed out by the calls before it. -/
theorem exists_handsOut_of_mem_callsFrom {file : SourceFile} {visited : VisitedFiles}
    {refs : List ClassRef} {call : Call} (h : call ∈ project.callsFrom file visited refs) :
    ∃ before after, project.HandsOut file.fallback visited before call.visited ∧
      project.createdFiles file visited refs = before ++ (call.outcome project).1 ++ after := by
  induction refs generalizing visited with
  | nil => cases h
  | cons ref refs ih =>
    rcases List.mem_cons.mp h with rfl | h
    · exact ⟨[], project.createdFiles file _ refs, .refl visited, rfl⟩
    · obtain ⟨before, after, hbefore, hfiles⟩ := ih h
      refine ⟨_, after, (Call.handsOut project ⟨true, visited, file, ref⟩).trans hbefore, ?_⟩
      rw [createdFiles, List.append_assoc, List.append_assoc, ← List.append_assoc before, ← hfiles]
      rfl

/-! ### Spellings of a file that was handed out -/

theorem isAmong_paths {files : List SourceFile} {p : Path} :
    p.IsAmong (files.map SourceFile.path) ↔ ∃ file ∈ files, file.path.components = p.components := by
  unfold Path.IsAmong
  rw [List.map_map, List.mem_map]
  rfl

/-- Sites depend on the place of a file and on its fallback: its path only serves to resolve
specifiers. -/
theorem fileSites_congr {file other : SourceFile} (hf : project.IsLoaded file)
    (ho : project.IsLoaded other)
    (h : file.path.place project.tree.cwd = other.path.place project.tree.cwd)
    (hfallback : file.fallback = other.fallback) :
    project.fileSites file = project.fileSites other := by
  have hsame : project.tree.SameFile file.path other.path :=
    ⟨hf.isAbsolute, ho.isAbsolute, hf.isFile, ho.isFile, h⟩
  obtain ⟨hprogram, -⟩ := baseFile?_congr hf ho h
  have himports : file.imports = other.imports := by
    rw [(file?_eq_some hf.file?_eq).2.2.1, (file?_eq_some ho.file?_eq).2.2.1, hprogram]
  have hmember : project.memberValue? file = project.memberValue? other := by
    funext node
    unfold memberValue? constant?
    simp only [himports, hsame.resolveModule?_eq]
  have hqueue : project.proxyQueue file = project.proxyQueue other := by
    funext arguments
    unfold proxyQueue proxyQueue?
    rw [hmember, hfallback]
  have hdeclarator : project.declaratorSites file = project.declaratorSites other := by
    funext node
    unfold declaratorSites
    rw [hqueue, hprogram]
  have hclass : project.classNodeSites file = project.classNodeSites other := by
    funext node
    unfold classNodeSites
    rw [hqueue]
  unfold fileSites moduleSites classSites
  rw [hdeclarator, hclass, hprogram]

theorem HandsOut.exists_mem {before after : VisitedFiles} {files : List SourceFile}
    {held : SourceFile} (h : project.HandsOut held.fallback before files after)
    (hl : project.IsLoaded held) (hb : before.contains held.path = false)
    (ha : after.contains held.path = true) :
    held.path.IsAmong (files.map SourceFile.path) := by
  rcases h.complete held.path ha with hc | ⟨q, hq, hqa, hqf, hall⟩
  · rw [hb] at hc
    cases hc
  · have hsame := FileTree.SameFile.of_components hqa hqf hl.isFile hq
    obtain ⟨-, hprogram, -⟩ := file?_eq_some hl.file?_eq
    rw [← hsame.program?_eq] at hprogram
    exact isAmong_paths.mpr ⟨_, hall _ (file?_of_program? hprogram _), hq⟩

end Project

end WorkflowAnalysis
