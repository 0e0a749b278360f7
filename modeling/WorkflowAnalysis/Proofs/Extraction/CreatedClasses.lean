import WorkflowAnalysis.Proofs.Extraction.Composition

/-! Classes that a file creates. They are kept by name, so of several references to classes of one name
only the last counts; they are looked up by name first, so a name that is imported by itself hides the
member of a module; and they are taken up in turn with one set of visited files, so of several classes
in a file only the first brings in its base. What is created is taken over apart from these cases. -/
namespace WorkflowAnalysis

open Syntax

/-! ### References by name -/

namespace ClassTable

/-- Every reference stands under the name of its class, and no name comes twice. -/
structure IsKeyed (table : ClassTable) : Prop where
  key_eq : ∀ entry ∈ table.entries, entry.1 = entry.2.className
  nodup : (table.entries.map Prod.fst).Nodup

theorem IsKeyed.map_className {table : ClassTable} (h : table.IsKeyed) :
    table.refs.map ClassRef.className = table.entries.map Prod.fst := by
  unfold refs
  rw [List.map_map]
  apply List.map_congr_left
  intro entry hm
  exact (h.key_eq entry hm).symm

theorem IsKeyed.insert {table : ClassTable} (h : table.IsKeyed) (ref : ClassRef) :
    (table.insert ref).IsKeyed := by
  unfold ClassTable.insert
  split
  · have hkeys : (table.entries.map fun entry =>
        if entry.1 == ref.className then (entry.1, ref) else entry).map Prod.fst =
          table.entries.map Prod.fst := by
      rw [List.map_map]
      apply List.map_congr_left
      intro entry _
      dsimp only [Function.comp]
      split <;> rfl
    refine ⟨?_, by rw [hkeys]; exact h.nodup⟩
    intro entry hm
    obtain ⟨old, ho, rfl⟩ := List.mem_map.mp hm
    split
    · rename_i he
      exact beq_iff_eq.mp he
    · exact h.key_eq old ho
  · rename_i hnew
    refine ⟨?_, ?_⟩
    · intro entry hm
      rcases List.mem_append.mp hm with hm | hm
      · exact h.key_eq entry hm
      · rw [List.mem_singleton.mp hm]
    · rw [List.map_append, List.map_singleton, List.nodup_append_comm, List.singleton_append,
        List.nodup_cons]
      refine ⟨?_, h.nodup⟩
      simpa using hnew

theorem IsKeyed.mem_refs_insert {table : ClassTable} (h : table.IsKeyed) (ref : ClassRef)
    {other : ClassRef} : other ∈ (table.insert ref).refs ↔
      other = ref ∨ other ∈ table.refs ∧ other.className ≠ ref.className := by
  unfold ClassTable.insert refs
  split
  · rename_i hold
    obtain ⟨old, ho, he⟩ := List.any_eq_true.mp hold
    simp only [List.map_map, List.mem_map, Function.comp]
    constructor
    · rintro ⟨entry, hm, rfl⟩
      by_cases hk : entry.1 = ref.className
      · exact .inl (by simp [hk])
      · have hc : entry.2.className ≠ ref.className := by
          rwa [← h.key_eq entry hm]
        exact .inr ⟨⟨entry, hm, by simp [hk]⟩, by simpa [hk] using hc⟩
    · rintro (rfl | ⟨⟨entry, hm, rfl⟩, hc⟩)
      · exact ⟨old, ho, by simp [he]⟩
      · refine ⟨entry, hm, ?_⟩
        rw [← h.key_eq entry hm] at hc
        simp [hc]
  · rename_i hnew
    have hother : other ∈ table.entries.map Prod.snd → other.className ≠ ref.className := by
      intro hm hc
      obtain ⟨entry, he, rfl⟩ := List.mem_map.mp hm
      apply hnew
      exact List.any_eq_true.mpr ⟨entry, he, by simp [h.key_eq entry he, hc]⟩
    rw [List.map_append, List.mem_append, List.map_singleton, List.mem_singleton, or_comm]
    exact or_congr_right ⟨fun hm => ⟨hm, hother hm⟩, And.left⟩

theorem ofRefs_concat (refs : List ClassRef) (ref : ClassRef) :
    ofRefs (refs ++ [ref]) = (ofRefs refs).insert ref := by
  simp [ofRefs]

theorem isKeyed_ofRefs (refs : List ClassRef) : (ofRefs refs).IsKeyed := by
  induction refs using List.reverseRecOn with
  | nil =>
    refine ⟨?_, List.nodup_nil⟩
    intro entry hm
    cases hm
  | append_singleton refs ref ih =>
    rw [ofRefs_concat]
    exact ih.insert ref

def IsLast (refs : List ClassRef) (ref : ClassRef) : Prop :=
  ∃ before after, refs = before ++ ref :: after ∧ ∀ other ∈ after, other.className ≠ ref.className

theorem isLast_concat {refs : List ClassRef} {last ref : ClassRef} :
    IsLast (refs ++ [last]) ref ↔ ref = last ∨ IsLast refs ref ∧ ref.className ≠ last.className := by
  constructor
  · rintro ⟨before, after, he, hafter⟩
    obtain rfl | ⟨front, final, rfl⟩ := List.eq_nil_or_concat' after
    · exact .inl (List.head_eq_of_cons_eq (List.append_inj' he rfl).2).symm
    · rw [← List.cons_append, ← List.append_assoc] at he
      obtain ⟨hrefs, hlast⟩ := List.append_inj' he rfl
      cases hlast
      refine .inr ⟨⟨before, front, hrefs, fun other hm => hafter other (by simp [hm])⟩, ?_⟩
      exact (hafter last (by simp)).symm
  · rintro (rfl | ⟨⟨before, after, rfl, hafter⟩, hne⟩)
    · exact ⟨refs, [], rfl, fun _ hm => nomatch hm⟩
    · refine ⟨before, after ++ [last], by simp, ?_⟩
      intro other hm
      rcases List.mem_append.mp hm with hm | hm
      · exact hafter other hm
      · rw [List.mem_singleton.mp hm]
        exact hne.symm

theorem mem_refs_ofRefs {refs : List ClassRef} {ref : ClassRef} :
    ref ∈ (ofRefs refs).refs ↔ IsLast refs ref := by
  induction refs using List.reverseRecOn with
  | nil => simp [ofRefs, ClassTable.refs, IsLast]
  | append_singleton refs last ih =>
    rw [ofRefs_concat, (isKeyed_ofRefs refs).mem_refs_insert, isLast_concat, ih]

theorem exists_isLast {refs : List ClassRef} {ref : ClassRef} (h : ref ∈ refs) :
    ∃ kept, IsLast refs kept ∧ kept.className = ref.className := by
  induction refs using List.reverseRecOn with
  | nil => cases h
  | append_singleton refs last ih =>
    by_cases hc : ref.className = last.className
    · exact ⟨last, isLast_concat.mpr (.inl rfl), hc.symm⟩
    · have hm : ref ∈ refs := by
        rcases List.mem_append.mp h with hm | hm
        · exact hm
        · exact absurd (congrArg ClassRef.className (List.mem_singleton.mp hm)) hc
      obtain ⟨kept, hk, he⟩ := ih hm
      exact ⟨kept, isLast_concat.mpr (.inr ⟨hk, by rwa [he]⟩), he⟩

end ClassTable

/-- A property of an object literal that the top level binds to a name has a given value. -/
def Syntax.Program.TableHolds (program : Program) (table : String) (value : Node) : Prop :=
  ∃ kind declarators ascription initial members key keys,
    (kind, declarators) ∈ program.topVariables ∧
      Node.declarator (.binding table) ascription (some initial) ∈ declarators ∧
      initial.untyped = .object members ∧ Node.property key keys value ∈ members

theorem mem_lookupTable {program : Program} {table : String} {value : Node} {ref : ClassRef}
    (h : program.TableHolds table value) (hr : ClassRef.ofExpression? value = some ref) :
    ref ∈ program.lookupTable table := by
  obtain ⟨kind, declarators, ascription, initial, members, key, keys, hv, hd, hi, hm⟩ := h
  have hclasses : tableClasses table (.declarator (.binding table) ascription (some initial)) =
      members.filterMap tableEntry? := by
    simp only [tableClasses, if_true, hi]
  refine List.mem_flatMap.mpr ⟨_, List.mem_flatMap.mpr ⟨(kind, declarators), hv, hd⟩, ?_⟩
  rw [hclasses]
  exact List.mem_filterMap.mpr ⟨_, hm, hr⟩

namespace Project

variable {project : Project} {file : SourceFile}

theorem nodup_className_created (program : Program) :
    (program.created.refs.map ClassRef.className).Nodup := by
  have hkeyed := ClassTable.isKeyed_ofRefs (program.nodes.flatMap (createdClasses program))
  rw [Syntax.Program.created, hkeyed.map_className]
  exact hkeyed.nodup

/-! ### Files that are entered -/

theorem exists_call_of_mem_refs (project : Project) {ref : ClassRef}
    (h : ref ∈ file.program.created.refs) : ∃ call ∈ project.creationCalls file, call.ref = ref := by
  rw [← map_ref_callsFrom project file (.startingAt file.path) file.program.created.refs] at h
  exact List.mem_map.mp h

theorem call_eq_of_className_eq {call other : Call} (hc : call ∈ project.creationCalls file)
    (ho : other ∈ project.creationCalls file) (h : call.ref.className = other.ref.className) :
    call = other := by
  have hnodup := nodup_className_created file.program
  rw [← map_ref_callsFrom project file (.startingAt file.path) file.program.created.refs,
    List.map_map] at hnodup
  exact List.inj_on_of_nodup_map hnodup hc ho h

theorem target?_of_mem_creationCalls {call : Call} (h : call ∈ project.creationCalls file) :
    call.target? project = project.createdFile? file call.ref := by
  obtain ⟨hcreation, hfile⟩ := isCreation_of_mem_callsFrom h
  unfold Call.target?
  rw [hcreation, hfile, if_pos rfl]

def Enters (project : Project) (file : SourceFile) (path : Path) : Prop :=
  ∃ call ∈ project.creationCalls file,
    path.IsAmong ((call.outcome project).1.map SourceFile.path)

/-- A file takes over all activities of another through the classes it creates. -/
def TakesOver (project : Project) (file held : SourceFile) : Prop :=
  (project.fileSites held).map Site.activity ⊆ (project.createdSites file).map Site.activity

theorem fallback_of_mem_outcome {call : Call} {entered : SourceFile}
    (hc : call ∈ project.creationCalls file) (hm : entered ∈ (call.outcome project).1) :
    entered.fallback = file.fallback := by
  rw [(call.handsOut project).shared entered hm, (isCreation_of_mem_callsFrom hc).2]

theorem Enters.takesOver {held : SourceFile} (hl : project.IsLoaded held)
    (hfallback : held.fallback = file.fallback) (h : project.Enters file held.path) :
    project.TakesOver file held := by
  obtain ⟨call, hc, hamong⟩ := h
  obtain ⟨entered, hm, he⟩ := isAmong_paths.mp hamong
  obtain ⟨hloaded, -⟩ := (call.handsOut project).entered entered hm
  have hsites := fileSites_congr hloaded hl (Path.place_congr he project.tree.cwd)
    ((fallback_of_mem_outcome hc hm).trans hfallback.symm)
  apply List.map_subset
  rw [← hsites, createdSites_eq_flatMap]
  intro site hs
  exact List.mem_flatMap.mpr ⟨call, hc, List.mem_flatMap.mpr ⟨entered, hm, hs⟩⟩

theorem enters_of_contains {held : SourceFile} {call : Call} (hl : project.IsLoaded held)
    (hfallback : held.fallback = file.fallback)
    (hne : held.path.components ≠ file.path.components) (hc : call ∈ project.creationCalls file)
    (h : (call.outcome project).2.contains held.path = true) : project.Enters file held.path := by
  obtain ⟨before, after, hbefore, hfiles⟩ := exists_handsOut_of_mem_callsFrom hc
  have hstart : (VisitedFiles.startingAt file.path).contains held.path = false := by
    rw [← Bool.not_eq_true, VisitedFiles.records_startingAt, Path.IsAmong.singleton_iff]
    exact hne.symm
  have hown := call.handsOut project
  rw [(isCreation_of_mem_callsFrom hc).2] at hown
  have hall := hbefore.trans hown
  rw [← hfallback] at hall
  have hamong := hall.exists_mem hl hstart h
  obtain ⟨entered, hm, he⟩ := isAmong_paths.mp hamong
  have hall : entered ∈ project.createdFiles file (.startingAt file.path)
      file.program.created.refs := by
    rw [hfiles]
    exact List.mem_append_left _ hm
  rw [createdFiles_eq_flatMap] at hall
  obtain ⟨other, ho, hm⟩ := List.mem_flatMap.mp hall
  exact ⟨other, ho, isAmong_paths.mpr ⟨entered, hm, he⟩⟩

theorem enters_of_createdFile? {held : SourceFile} {ref : ClassRef} (hl : project.IsLoaded held)
    (hfallback : held.fallback = file.fallback)
    (hne : held.path.components ≠ file.path.components) (hr : ref ∈ file.program.created.refs)
    (h : project.createdFile? file ref = some held.path) : project.Enters file held.path := by
  obtain ⟨call, hc, rfl⟩ := exists_call_of_mem_refs project hr
  rw [← target?_of_mem_creationCalls hc] at h
  exact enters_of_contains hl hfallback hne hc (Call.contains_target h)

/-- What a call hands out last is the file of its class, and the others are those of its bases. -/
theorem Call.mem_outcome {call : Call} {entered : SourceFile}
    (h : entered ∈ (call.outcome project).1) : ∃ path, call.entered? project = some path ∧
      (entered ∈ (call.outcome project).1.dropLast ∨ entered.path = path) := by
  obtain ⟨-, ho⟩ | ⟨path, -, -, ho⟩ | ⟨path, own, below, he, hf, ho, -⟩ := call.outcome_cases project
  · rw [ho] at h
    cases h
  · rw [ho] at h
    cases h
  · refine ⟨path, he, ?_⟩
    rw [ho] at h ⊢
    rw [List.dropLast_concat]
    rcases List.mem_append.mp h with hm | hm
    · exact .inl hm
    · rw [List.mem_singleton.mp hm]
      exact .inr (file?_eq_some hf).1

/-! ### Values of lookup tables -/

/-- A value `owner.name` of a table out of which a file creates classes, where the owner is a module
and the class is declared at a path; neither is the file itself. -/
structure IsTableValue (project : Project) (file : SourceFile) (owner name : String) (path : Path) :
    Prop where
  listed : ∃ table key types arguments,
    Node.construct (.index (.identifier table) key) types arguments ∈ file.program.nodes ∧
      file.program.TableHolds table (.member (.identifier owner) name)
  declared : ∃ specifier start, file.imports.get? owner = some specifier ∧
    project.tree.resolveModule? specifier file.path = some start ∧
      start.components ≠ file.path.components ∧ project.classFile? name start = some path
  foreign : path.components ≠ file.path.components

/-- A file is entered for another reason than a class of a given name: a class of another name is
taken from it, or it holds a base class. -/
def EntersOtherwise (project : Project) (file : SourceFile) (name : String) (path : Path) : Prop :=
  ∃ call ∈ project.creationCalls file,
    call.ref.className ≠ name ∧ call.target? project = some path ∨
      path.IsAmong ((call.outcome project).1.dropLast.map SourceFile.path)

def creations (program : Program) : List ClassRef := program.nodes.flatMap (createdClasses program)

theorem mem_creations_of_table {program : Program} {table owner name : String} {key : Node}
    {types arguments : List Node}
    (hn : Node.construct (.index (.identifier table) key) types arguments ∈ program.nodes)
    (hv : program.TableHolds table (.member (.identifier owner) name)) :
    ⟨name, some owner⟩ ∈ creations program :=
  List.mem_flatMap.mpr ⟨_, hn, mem_lookupTable hv rfl⟩

theorem createdFile?_of_get?_eq_none {owner name specifier : String} {start path : Path}
    (hn : file.imports.get? name = none) (hi : file.imports.get? owner = some specifier)
    (hs : project.tree.resolveModule? specifier file.path = some start)
    (hc : project.classFile? name start = some path) :
    project.createdFile? file ⟨name, some owner⟩ = some path := by
  unfold createdFile?
  simp [hn, hi, hs, hc]

/-- The file of a class in a lookup table is entered exactly when the last reference of all to a class
of that name leads to it, or it is entered for another reason; and then all its activities are taken
over. If the value itself is the last reference and its name is not imported, that leads to the file. -/
theorem tableValue_enters_iff {owner name : String} {path : Path}
    (h : project.IsTableValue file owner name path) :
    ∃ held kept, project.file? file.fallback path = some held ∧
      ClassTable.IsLast (creations file.program) kept ∧ kept.className = name ∧
      (project.Enters file path ↔
        project.createdFile? file kept = some path ∨ project.EntersOtherwise file name path) ∧
      (project.Enters file path → project.TakesOver file held) ∧
      (kept = ⟨name, some owner⟩ → file.imports.get? name = none →
        project.createdFile? file kept = some path) := by
  obtain ⟨table, key, types, arguments, hnew, hvalue⟩ := h.listed
  obtain ⟨specifier, start, hi, hs, -, hclass⟩ := h.declared
  obtain ⟨kept, hkept, hname⟩ := ClassTable.exists_isLast (mem_creations_of_table hnew hvalue)
  have hrefs : kept ∈ file.program.created.refs := ClassTable.mem_refs_ofRefs.mpr hkept
  obtain ⟨hstart, -⟩ := FileTree.resolveModule?_eq_some hs
  obtain ⟨hnormal, -⟩ := isNormal_of_classFile? hstart hclass
  obtain ⟨held, hheld, hloaded⟩ := isLoaded_of_classFile? hstart.isAbsolute hclass file.fallback
  obtain ⟨rfl, -, -, hfallback⟩ := file?_eq_some hheld
  refine ⟨held, kept, hheld, hkept, hname, ⟨?_, ?_⟩, Enters.takesOver hloaded hfallback, ?_⟩
  · rintro ⟨call, hc, hamong⟩
    obtain ⟨entered, hm, he⟩ := isAmong_paths.mp hamong
    obtain ⟨own, hentered, hbase | hown⟩ := Call.mem_outcome hm
    · exact .inr ⟨call, hc, .inr (isAmong_paths.mpr ⟨entered, hbase, he⟩)⟩
    · obtain ⟨htarget, -⟩ := Call.entered?_eq_some.mp hentered
      have hcreated : project.createdFile? file call.ref = some own := by
        rw [← target?_of_mem_creationCalls hc, htarget]
      have hpath : own = held.path := by
        rw [hown] at he
        exact (isNormal_of_createdFile? hcreated).1.eq_of_components hnormal he
      subst hpath
      by_cases hsame : call.ref.className = name
      · obtain ⟨other, ho, rfl⟩ := exists_call_of_mem_refs project hrefs
        rw [call_eq_of_className_eq hc ho (hsame.trans hname.symm)] at hcreated
        exact .inl hcreated
      · exact .inr ⟨call, hc, .inl ⟨hsame, htarget⟩⟩
  · rintro (hcreated | ⟨call, hc, ⟨-, htarget⟩ | hbase⟩)
    · exact enters_of_createdFile? hloaded hfallback h.foreign hrefs hcreated
    · exact enters_of_contains hloaded hfallback h.foreign hc (Call.contains_target htarget)
    · obtain ⟨entered, hm, he⟩ := isAmong_paths.mp hbase
      exact ⟨call, hc, isAmong_paths.mpr ⟨entered, List.dropLast_subset _ hm, he⟩⟩
  · rintro rfl hn
    exact createdFile?_of_get?_eq_none hn hi hs hclass

/-- Two modules that each declare a class of one name; only the first has an activity. -/
def twinProject : Project where
  tree :=
    ((FileTree.ofWorkingDirectory ["w"]).write (Path.ofString "a.js")
      "class Handler {} const { audit } = proxyActivities();".toUTF8).write
      (Path.ofString "b.js") "class Handler {}".toUTF8

def twinTable : SourceFile :=
  .ofProgram (Path.ofString "/w/main.js")
    ⟨[.importFrom ["a"] "./a.js", .importFrom ["b"] "./b.js",
      .variableDeclaration .constant [.declarator (.binding "handlers") []
        (some (.object [.property (some "first") [] (.member (.identifier "a") "Handler"),
          .property (some "second") [] (.member (.identifier "b") "Handler")]))],
      .expression (.construct (.index (.identifier "handlers") (.identifier "kind")) [] [])]⟩ "main"

theorem isTableValue_twin :
    twinProject.IsTableValue twinTable "a" "Handler" (Path.ofString "/w/a.js") where
  listed := by
    refine ⟨"handlers", .identifier "kind", [], [], ?_, .constant, _, [], _, _, some "first", [],
      List.mem_singleton_self _, List.mem_singleton_self _, rfl, List.mem_cons_self⟩
    simp [twinTable, SourceFile.ofProgram, Program.nodes, Node.preorderList, Node.preorder,
      Node.preorderOption]
  declared := ⟨"./a.js", Path.ofString "/w/a.js", by decide +kernel, by decide +kernel,
    by decide +kernel, by decide +kernel⟩
  foreign := by decide +kernel

theorem tableValue_enters_iff_twin :
    twinProject.IsTableValue twinTable "a" "Handler" (Path.ofString "/w/a.js") ∧
    ∃ held kept, twinProject.file? twinTable.fallback (Path.ofString "/w/a.js") = some held ∧
      ClassTable.IsLast (creations twinTable.program) kept ∧ kept.className = "Handler" ∧
      (twinProject.Enters twinTable (Path.ofString "/w/a.js") ↔
        twinProject.createdFile? twinTable kept = some (Path.ofString "/w/a.js") ∨
          twinProject.EntersOtherwise twinTable "Handler" (Path.ofString "/w/a.js")) ∧
      (twinProject.Enters twinTable (Path.ofString "/w/a.js") →
        twinProject.TakesOver twinTable held) ∧
      (kept = ⟨"Handler", some "a"⟩ → twinTable.imports.get? "Handler" = none →
        twinProject.createdFile? twinTable kept = some (Path.ofString "/w/a.js")) :=
  ⟨isTableValue_twin, tableValue_enters_iff isTableValue_twin⟩

/-- Not every value of a table is taken over: here the second value of the table replaces the first,
because the classes have one name. -/
theorem not_forall_tableValue_takesOver :
    ¬ ∀ (project : Project) (file : SourceFile) (owner name : String) (path : Path),
      project.IsTableValue file owner name path →
        ∃ held, project.file? file.fallback path = some held ∧ project.TakesOver file held := by
  intro h
  obtain ⟨held, hheld, htakes⟩ := h twinProject twinTable "a" "Handler" _ isTableValue_twin
  have hsites : (twinProject.file? twinTable.fallback (Path.ofString "/w/a.js")).map
      twinProject.fileSites = some [⟨"audit", "main"⟩] := by decide +kernel
  have hcreated : twinProject.createdSites twinTable = [] := by decide +kernel
  rw [hheld, Option.map_some, Option.some.injEq] at hsites
  rw [TakesOver, hsites, hcreated] at htakes
  exact absurd (htakes List.mem_cons_self) List.not_mem_nil

/-! ### Bases of created classes -/

/-- A reference by which a file creates a class that extends another: the file of the class and the
file of its base, neither of which is the creating file. -/
structure CreatesDerived (project : Project) (file : SourceFile) (ref : ClassRef)
    (path basePath : Path) : Prop where
  listed : ref ∈ file.program.created.refs
  target : project.createdFile? file ref = some path
  foreign : path.components ≠ file.path.components
  extended : ∃ created base, project.file? file.fallback path = some created ∧
    created.program.declaredBase? ref.className = some base ∧
      project.baseFile? created base = some basePath
  base_foreign : basePath.components ≠ file.path.components

theorem Call.outcome_of_nests {outer inner : Call} (h : project.Nests outer inner) :
    (outer.outcome project).2 = (inner.outcome project).2 := by
  obtain ⟨path, file, ref, he, hf, hn, rfl⟩ := h
  rw [outcome_eq_step, step, he]
  dsimp only
  rw [hf]
  dsimp only
  rw [hn]

/-- The file of the base of a created class is entered exactly when the file of the class is still new
at the turn of the class, or the base is entered for a class of another name; and then all activities of
the base are taken over. -/
theorem createdBase_enters_iff {ref : ClassRef} {path basePath : Path}
    (h : project.CreatesDerived file ref path basePath) :
    ∃ call base, call ∈ project.creationCalls file ∧ call.ref = ref ∧
      project.file? file.fallback basePath = some base ∧
      (project.Enters file basePath ↔ call.visited.contains path = false ∨
        ∃ other ∈ project.creationCalls file, other.ref ≠ ref ∧
          basePath.IsAmong ((other.outcome project).1.map SourceFile.path)) ∧
      (project.Enters file basePath → project.TakesOver file base) := by
  obtain ⟨call, hc, hcall⟩ := exists_call_of_mem_refs project h.listed
  obtain ⟨created, baseRef, hcreated, hextends, hbase⟩ := h.extended
  obtain ⟨base, hfile, hloaded⟩ := isLoaded_of_baseFile? hbase file.fallback
  obtain ⟨hpath, -, -, hfallback⟩ := file?_eq_some hfile
  have htarget : call.target? project = some path := by
    rw [target?_of_mem_creationCalls hc, hcall, h.target]
  refine ⟨call, base, hc, hcall, hfile, ⟨?_, ?_⟩, ?_⟩
  · rintro ⟨other, ho, hamong⟩
    by_cases hsame : other.ref = ref
    · have hother : other = call := by
        apply call_eq_of_className_eq ho hc
        rw [hsame, hcall]
      subst hother
      obtain ⟨entered, hm, -⟩ := isAmong_paths.mp hamong
      obtain ⟨own, hentered, -⟩ := Call.mem_outcome hm
      obtain ⟨hown, hnew⟩ := Call.entered?_eq_some.mp hentered
      cases htarget.symm.trans hown
      exact .inl hnew
    · exact .inr ⟨other, ho, hsame, hamong⟩
  · rintro (hnew | ⟨other, ho, -, hamong⟩)
    · let inner : Call := ⟨false, call.visited.insert path, created, baseRef⟩
      have hnext : call.next? created.program = some baseRef := by
        unfold Call.next?
        rw [(isCreation_of_mem_callsFrom hc).1, if_pos rfl, hcall, hextends]
      rw [← (isCreation_of_mem_callsFrom hc).2] at hcreated
      have hnests : project.Nests call inner :=
        ⟨path, created, baseRef, Call.entered?_eq_some.mpr ⟨htarget, hnew⟩, hcreated, hnext, rfl⟩
      have hinner : inner.target? project = some basePath := hbase
      have hvisited := Call.contains_target hinner
      rw [← Call.outcome_of_nests hnests] at hvisited
      rw [← hpath] at hvisited ⊢
      exact enters_of_contains hloaded hfallback (hpath ▸ h.base_foreign) hc hvisited
    · exact ⟨other, ho, hamong⟩
  · rw [← hpath]
    exact Enters.takesOver hloaded hfallback

/-- A file with a class that extends nothing and one that extends a class of another file. -/
def derivedProject : Project where
  tree :=
    ((FileTree.ofWorkingDirectory ["w"]).write (Path.ofString "pair.js")
      "import { Base } from './base.js'; class Plain {} class Derived extends Base {}".toUTF8).write
      (Path.ofString "base.js") "class Base {} const { audit } = proxyActivities();".toUTF8

/-- Both classes are created, the one without a base first. -/
def derivedEntry : SourceFile :=
  .ofProgram (Path.ofString "/w/main.js")
    ⟨[.importFrom ["Plain", "Derived"] "./pair.js",
      .expression (.construct (.identifier "Plain") [] []),
      .expression (.construct (.identifier "Derived") [] [])]⟩ "main"

theorem createsDerived_entry :
    derivedProject.CreatesDerived derivedEntry ⟨"Derived", none⟩ (Path.ofString "/w/pair.js")
      (Path.ofString "/w/base.js") where
  listed := by decide +kernel
  target := by decide +kernel
  foreign := by decide +kernel
  extended := by
    have hfile : ((derivedProject.file? derivedEntry.fallback (Path.ofString "/w/pair.js")).bind
        fun created =>
          (created.program.declaredBase? "Derived").bind (derivedProject.baseFile? created)) =
            some (Path.ofString "/w/base.js") := by decide +kernel
    obtain ⟨created, hcreated, hfile⟩ := Option.bind_eq_some_iff.mp hfile
    obtain ⟨base, hextends, hbase⟩ := Option.bind_eq_some_iff.mp hfile
    exact ⟨created, base, hcreated, hextends, hbase⟩
  base_foreign := by decide +kernel

theorem createdBase_enters_iff_entry :
    derivedProject.CreatesDerived derivedEntry ⟨"Derived", none⟩ (Path.ofString "/w/pair.js")
      (Path.ofString "/w/base.js") ∧
    ∃ call base, call ∈ derivedProject.creationCalls derivedEntry ∧ call.ref = ⟨"Derived", none⟩ ∧
      derivedProject.file? derivedEntry.fallback (Path.ofString "/w/base.js") = some base ∧
      (derivedProject.Enters derivedEntry (Path.ofString "/w/base.js") ↔
        call.visited.contains (Path.ofString "/w/pair.js") = false ∨
        ∃ other ∈ derivedProject.creationCalls derivedEntry, other.ref ≠ ⟨"Derived", none⟩ ∧
          (Path.ofString "/w/base.js").IsAmong
            ((other.outcome derivedProject).1.map SourceFile.path)) ∧
      (derivedProject.Enters derivedEntry (Path.ofString "/w/base.js") →
        derivedProject.TakesOver derivedEntry base) :=
  ⟨createsDerived_entry, createdBase_enters_iff createsDerived_entry⟩

/-- A created class does not always bring in its base: here another class of its file comes first. -/
theorem not_forall_createdBase_takesOver :
    ¬ ∀ (project : Project) (file : SourceFile) (ref : ClassRef) (path basePath : Path),
      project.CreatesDerived file ref path basePath →
        ∃ base, project.file? file.fallback basePath = some base ∧ project.TakesOver file base := by
  intro h
  obtain ⟨base, hbase, htakes⟩ := h derivedProject derivedEntry _ _ _ createsDerived_entry
  have hsites : (derivedProject.file? derivedEntry.fallback (Path.ofString "/w/base.js")).map
      derivedProject.fileSites = some [⟨"audit", "main"⟩] := by decide +kernel
  have hcreated : derivedProject.createdSites derivedEntry = [] := by decide +kernel
  rw [hbase, Option.map_some, Option.some.injEq] at hsites
  rw [TakesOver, hsites, hcreated] at htakes
  exact absurd (htakes List.mem_cons_self) List.not_mem_nil

/-! ### Members of modules -/

/-- Creating a member of a module finds the file that extending it finds exactly when the name of the
member is not imported by itself, or what it is imported from leads to the same file. -/
theorem createdFile?_eq_baseFile?_iff {owner name specifier : String} {start path : Path}
    (hi : file.imports.get? owner = some specifier)
    (hs : project.tree.resolveModule? specifier file.path = some start)
    (hb : project.baseFile? file ⟨name, some owner⟩ = some path) :
    project.createdFile? file ⟨name, some owner⟩ = some path ↔
      ∀ other, file.imports.get? name = some other →
        (project.tree.resolveModule? other file.path).bind (project.classFile? name) = some path := by
  have hclass : project.classFile? name start = some path := by
    unfold baseFile? at hb
    rw [Option.getD_some, hi] at hb
    simpa [hs] using hb
  cases hn : file.imports.get? name with
  | none => simp [createdFile?_of_get?_eq_none hn hi hs hclass]
  | some other =>
    unfold createdFile?
    rw [hn]
    cases ho : project.tree.resolveModule? other file.path with
    | none => simp [ho]
    | some found =>
      cases hf : project.classFile? name found with
      | some declared => simp [ho, hf]
      | none =>
        -- A module without the class is not the file that declares it.
        have hne : found ≠ path := by
          rintro rfl
          rw [classFile?_of_declares (classFile?_eq_some hclass).2] at hf
          cases hf
        simp [ho, hf, hne]

/-- A class of the one module is imported by itself, the other module as a whole. -/
def twinImport : SourceFile :=
  .ofProgram (Path.ofString "/w/main.js")
    ⟨[.importFrom ["Handler"] "./b.js", .importFrom ["a"] "./a.js"]⟩ "main"

theorem get?_twinImport : twinImport.imports.get? "a" = some "./a.js" := by
  decide +kernel

theorem resolveModule?_twinImport :
    twinProject.tree.resolveModule? "./a.js" twinImport.path = some (Path.ofString "/w/a.js") := by
  decide +kernel

theorem baseFile?_twinImport :
    twinProject.baseFile? twinImport ⟨"Handler", some "a"⟩ = some (Path.ofString "/w/a.js") := by
  decide +kernel

theorem createdFile?_eq_baseFile?_iff_twin :
    (twinImport.imports.get? "a" = some "./a.js" ∧
      twinProject.tree.resolveModule? "./a.js" twinImport.path = some (Path.ofString "/w/a.js") ∧
      twinProject.baseFile? twinImport ⟨"Handler", some "a"⟩ = some (Path.ofString "/w/a.js")) ∧
    (twinProject.createdFile? twinImport ⟨"Handler", some "a"⟩ = some (Path.ofString "/w/a.js") ↔
      ∀ other, twinImport.imports.get? "Handler" = some other →
        (twinProject.tree.resolveModule? other twinImport.path).bind
          (twinProject.classFile? "Handler") = some (Path.ofString "/w/a.js")) :=
  ⟨⟨get?_twinImport, resolveModule?_twinImport, baseFile?_twinImport⟩,
    createdFile?_eq_baseFile?_iff get?_twinImport resolveModule?_twinImport baseFile?_twinImport⟩

/-- Creating a member of a module does not always find what extending it finds: here the name of the
member, imported from elsewhere, goes first. -/
theorem not_forall_createdFile?_eq_baseFile? :
    ¬ ∀ (project : Project) (file : SourceFile) (owner name specifier : String) (start path : Path),
      file.imports.get? owner = some specifier →
        project.tree.resolveModule? specifier file.path = some start →
        project.baseFile? file ⟨name, some owner⟩ = some path →
        project.createdFile? file ⟨name, some owner⟩ = some path := by
  intro h
  have hcreated := h twinProject twinImport _ _ _ _ _ get?_twinImport resolveModule?_twinImport
    baseFile?_twinImport
  have hother : twinProject.createdFile? twinImport ⟨"Handler", some "a"⟩ =
      some (Path.ofString "/w/b.js") := by decide +kernel
  rw [hother] at hcreated
  exact absurd hcreated (by decide)

end Project

end WorkflowAnalysis
