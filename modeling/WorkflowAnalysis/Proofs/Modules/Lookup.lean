import WorkflowAnalysis.Modules.Search
import WorkflowAnalysis.Proofs.Files.Resolution
import WorkflowAnalysis.Proofs.Modules.Preorder

/-! Lookups are complete. A lookup gives the first answer in the depth-first preorder of the graph of
wholesale exports, whatever cycles, diamonds and broken files there are in it, and it misses none: the
visited files that it cuts its branches at, and the bound on its steps, hide nothing. -/
namespace WorkflowAnalysis

open Relation Syntax

namespace Project

variable {project : Project}

/-! ### The graph -/

/-- A file that can be read exports a module wholesale, and the module is the other file. -/
def PassesOn (project : Project) (p q : Path) : Prop :=
  ∃ program, project.tree.program? p = some program ∧
    ∃ specifier ∈ program.reExports project.vocabulary.reExportHelper,
      project.tree.resolveModule? specifier p = some q

/-- A lookup at one file may come to another. -/
def Reaches (project : Project) : Path → Path → Prop := ReflTransGen project.PassesOn

/-- The files that a path passes lookups on to, in the order in which it names them. -/
def passedTo (project : Project) (p : Path) : List Path :=
  match project.tree.program? p with
  | some program => project.reExported p program
  | none => []

theorem mem_passedTo {p q : Path} : q ∈ project.passedTo p ↔ project.PassesOn p q := by
  unfold passedTo PassesOn
  cases project.tree.program? p with
  | none => simp
  | some program => simp [reExported]

theorem reaches_iff {p q : Path} :
    project.Reaches p q ↔ ReflTransGen (fun a b => b ∈ project.passedTo a) p q := by
  have hrel : (fun a b => b ∈ project.passedTo a) = project.PassesOn := by
    funext a b
    exact propext mem_passedTo
  rw [hrel]
  rfl

theorem PassesOn.isNormal {p q : Path} (h : project.PassesOn p q) :
    q.IsNormal ∧ project.tree.isFile q = true := by
  obtain ⟨program, -, specifier, -, hr⟩ := h
  exact FileTree.resolveModule?_eq_some hr

/-- Whatever else a lookup comes to is an existing file in normal form. -/
theorem Reaches.eq_or_isNormal {start q : Path} (h : project.Reaches start q) :
    q = start ∨ q.IsNormal ∧ project.tree.isFile q = true := by
  cases h with
  | refl => exact .inl rfl
  | tail _ hlast => exact .inr hlast.isNormal

theorem Reaches.eq_or_isFile {start q : Path} (h : project.Reaches start q) :
    q = start ∨ project.tree.isFile start = true := by
  rcases h.cases_head with rfl | ⟨_, ⟨program, hp, -⟩, -⟩
  · exact .inl rfl
  · exact .inr (FileTree.isFile_of_program? hp)

/-- Only the start can be met under two spellings, and both are then read as the same file. -/
theorem Reaches.eq_or_sameFile {start p q : Path} (hp : project.Reaches start p)
    (hq : project.Reaches start q) (h : p.components = q.components) :
    p = q ∨ project.tree.SameFile p q := by
  rcases hp.eq_or_isNormal with rfl | ⟨hpn, hpf⟩
  · rcases hq.eq_or_isNormal with rfl | ⟨hqn, hqf⟩
    · exact .inl rfl
    · rcases hq.eq_or_isFile with rfl | hf
      · exact .inl rfl
      · exact .inr (FileTree.SameFile.of_components hqn.isAbsolute hqf hf h.symm).symm
  · rcases hq.eq_or_isNormal with rfl | ⟨hqn, hqf⟩
    · rcases hp.eq_or_isFile with rfl | hf
      · exact .inl rfl
      · exact .inr (FileTree.SameFile.of_components hpn.isAbsolute hpf hf h)
    · exact .inl (hpn.eq_of_components hqn h)

theorem passedTo_congr {p q : Path} (h : project.tree.SameFile p q) :
    project.passedTo p = project.passedTo q := by
  unfold passedTo reExported
  rw [h.program?_eq]
  cases project.tree.program? q with
  | none => rfl
  | some program =>
    apply List.filterMap_congr
    intro specifier _
    exact h.resolveModule?_eq specifier

/-! ### The walk -/

/-- The answer that the file at a path gives, unless it is missing or broken. -/
def answerAt? {α : Type} (project : Project) (answer : Path → Program → Option α) (p : Path) :
    Option α :=
  (project.tree.program? p).bind (answer p)

/-- One step of the walk: the first pending file that is new answers, or else is followed. -/
theorem searchFrom_step {α : Type} (answer : Path → Program → Option α) (fuel : Nat)
    {visited : VisitedFiles} {pending rest : List Path} {p : Path}
    (h : pending.dropWhile visited.contains = p :: rest) :
    project.searchFrom answer (fuel + 1) visited pending =
      (project.answerAt? answer p).or
        (project.searchFrom answer fuel (visited.insert p) (project.passedTo p ++ rest)) := by
  rw [searchFrom, h]
  unfold answerAt? passedTo
  dsimp only
  cases project.tree.program? p with
  | none => rfl
  | some program =>
    dsimp only [Option.bind_some]
    cases answer p program <;> rfl

/-- With more steps than there are files left to enter, the walk gives the first answer of the whole
preorder; it makes no difference that it stops there and the preorder goes on. -/
theorem searchFrom_eq_findSome? {α : Type} (answer : Path → Program → Option α) {files : List Path}
    (hfiles : ∀ p, ∀ q ∈ project.passedTo p, q ∈ files) {fuel : Nat} {visited : VisitedFiles}
    {before pending : List Path} (hv : visited.Records before) (hp : ∀ p ∈ pending, p ∈ files)
    (hfuel : files.countP (fun q => !visited.contains q) < fuel) :
    ∃ order, DepthFirst project.passedTo before pending order ∧
      project.searchFrom answer fuel visited pending =
        order.findSome? (project.answerAt? answer) := by
  induction fuel generalizing visited before pending with
  | zero => omega
  | succ fuel ih =>
    cases hd : pending.dropWhile visited.contains with
    | nil =>
      refine ⟨[], DepthFirst.of_dropWhile hv ?_, ?_⟩
      · rw [hd]
        exact .done
      · rw [searchFrom, hd]
        rfl
    | cons p rest =>
      have hsub : ∀ q ∈ p :: rest, q ∈ pending := by
        intro q hq
        rw [← hd] at hq
        exact (List.dropWhile_suffix _).subset hq
      have hnew : visited.contains p = false := by
        have hhead := List.head?_dropWhile_not visited.contains pending
        rwa [hd] at hhead
      have hp' : ∀ q ∈ project.passedTo p ++ rest, q ∈ files := by
        intro q hq
        rcases List.mem_append.mp hq with hq | hq
        · exact hfiles p q hq
        · exact hp q (hsub q (List.mem_cons_of_mem _ hq))
      have hcount := VisitedFiles.countP_insert_lt (hp p (hsub p List.mem_cons_self)) hnew
      -- The stack of pending files is cut again where the files of `p` end.
      obtain ⟨order, horder, hsearch⟩ := ih (hv.insert p) hp' (by omega)
      obtain ⟨below, after, rfl, hbelow, hafter⟩ := horder.split
      have hfresh : ¬ p.IsAmong before := by
        rw [← hv p, hnew]
        exact Bool.false_ne_true
      refine ⟨p :: (below ++ after), DepthFirst.of_dropWhile hv ?_, ?_⟩
      · rw [hd]
        exact .enter hfresh hbelow (by simpa using hafter)
      · rw [searchFrom_step answer fuel hd, hsearch, List.findSome?_cons]
        cases project.answerAt? answer p <;> rfl

/-- All paths that a lookup can come to: its start, and the files of the tree in normal form. -/
def lookupFiles (project : Project) (start : Path) : List Path :=
  start :: project.tree.textPlaces.map Path.absolute

theorem passedTo_subset_lookupFiles (project : Project) (start p : Path) :
    ∀ q ∈ project.passedTo p, q ∈ project.lookupFiles start := by
  intro q hq
  obtain ⟨hn, hf⟩ := (mem_passedTo.mp hq).isNormal
  rw [lookupFiles, hn.eq_absolute_place project.tree.cwd]
  exact List.mem_cons_of_mem _ (List.mem_map_of_mem (FileTree.place_mem_textPlaces hf))

/-- A lookup gives the first answer in preorder, and the preorder lists what the lookup reaches. -/
theorem search_eq_findSome? {α : Type} (project : Project) (answer : Path → Program → Option α)
    (start : Path) :
    ∃ order, DepthFirst project.passedTo [] [start] order ∧
      (∀ p ∈ order, project.Reaches start p) ∧ (∀ p, project.Reaches start p → p.IsAmong order) ∧
      project.search answer start = order.findSome? (project.answerAt? answer) := by
  have hcount : (project.lookupFiles start).countP (fun q => !VisitedFiles.empty.contains q) <
      project.tree.size + 2 := by
    have hle := (project.lookupFiles start).countP_le_length
      (p := fun q => !VisitedFiles.empty.contains q)
    have hlen : (project.lookupFiles start).length ≤ project.tree.size + 1 := by
      simpa [lookupFiles] using project.tree.length_textPlaces_le
    omega
  have hstart : ∀ p ∈ [start], p ∈ project.lookupFiles start := by
    simp [lookupFiles]
  obtain ⟨order, horder, hsearch⟩ := searchFrom_eq_findSome? answer
    (project.passedTo_subset_lookupFiles start) VisitedFiles.records_empty hstart hcount
  refine ⟨order, horder, ?_, ?_, hsearch⟩
  · intro p hp
    obtain ⟨first, hf, hr⟩ := horder.reachable p hp
    rw [List.mem_singleton.mp hf] at hr
    exact reaches_iff.mpr hr
  · intro p hp
    apply horder.covers _ (reaches_iff.mp hp)
    intro a b ha hb he
    rcases (reaches_iff.mpr ha).eq_or_sameFile (reaches_iff.mpr hb) he with rfl | hs
    · rfl
    · exact passedTo_congr hs

/-! ### Constants -/

/-- The string that a name stands for in the file at a path; a missing or broken file has none. -/
def literalAt? (project : Project) (name : String) (p : Path) : Option String :=
  (project.tree.program? p).bind fun program => program.constant? name

/-- A name stands for the string in the first file of the preorder that gives it one, and for none
only if no file that the lookup reaches does. There is one preorder, and it lists just these files. -/
theorem constant?_eq_first_literal (project : Project) (specifier name : String)
    (importer : Path) :
    match project.tree.resolveModule? specifier importer with
    | none => project.constant? specifier name importer = none
    | some start =>
      if start.extension? = some "map" then project.constant? specifier name importer = none
      else
        ∃ order, (∀ other, DepthFirst project.passedTo [] [start] other ↔ other = order) ∧
          order.Nodup ∧ (∀ p, p ∈ order ↔ project.Reaches start p) ∧
          project.constant? specifier name importer =
            order.findSome? (project.literalAt? name) ∧
          ((project.constant? specifier name importer).isSome ↔
            ∃ p, project.Reaches start p ∧ (project.literalAt? name p).isSome) := by
  unfold constant?
  cases hstart : project.tree.resolveModule? specifier importer with
  | none => rfl
  | some start =>
    have hnormal := (FileTree.resolveModule?_eq_some hstart).1
    have hreach {p : Path} (hp : project.Reaches start p) : p.IsNormal := by
      rcases hp.eq_or_isNormal with rfl | ⟨hn, -⟩
      · exact hnormal
      · exact hn
    dsimp only [Option.bind_eq_bind, Option.bind_some]
    split
    · rfl
    · obtain ⟨order, horder, hsound, hcovers, hsearch⟩ :=
        project.search_eq_findSome? (fun _ program => program.constant? name) start
      have hmem (p : Path) : p ∈ order ↔ project.Reaches start p := by
        refine ⟨hsound p, fun hp => ?_⟩
        obtain ⟨q, hq, he⟩ := (hcovers p hp).exists_mem
        rwa [← (hreach (hsound q hq)).eq_of_components (hreach hp) he]
      have hnodup : order.Nodup := List.Nodup.of_map _ (by simpa using horder.nodup (by simp))
      refine ⟨order, horder.iff_eq, hnodup, hmem, hsearch, ?_⟩
      rw [hsearch, List.findSome?_isSome_iff]
      exact exists_congr fun p => and_congr_left' (hmem p)

/-! ### Classes -/

/-- The file at a path is there, can be parsed, and declares a class at some depth. -/
def Declares (project : Project) (name : String) (p : Path) : Prop :=
  project.tree.isFile p = true ∧ ∃ program, project.tree.program? p = some program ∧
    ∃ role decorators base members,
      Node.classDef role (some name) decorators base members ∈ program.nodes

theorem declaresClass_iff {name : String} {program : Program} :
    declaresClass name program = true ↔ ∃ role decorators base members,
      Node.classDef role (some name) decorators base members ∈ program.nodes := by
  unfold declaresClass
  rw [List.any_eq_true]
  constructor
  · rintro ⟨node, hm, hn⟩
    split at hn
    · rename_i role declared decorators base members
      rw [beq_iff_eq] at hn
      exact ⟨role, decorators, base, members, hn ▸ hm⟩
    · cases hn
  · rintro ⟨role, decorators, base, members, hm⟩
    exact ⟨_, hm, by simp⟩

def declaredAt? (name : String) (p : Path) (program : Program) : Option Path :=
  if declaresClass name program then some p else none

theorem answerAt?_declaredAt? {name : String} {p q : Path} :
    project.answerAt? (declaredAt? name) p = some q ↔ q = p ∧ project.Declares name p := by
  unfold answerAt? declaredAt? Declares
  rw [Option.bind_eq_some_iff]
  constructor
  · rintro ⟨program, hp, hq⟩
    rw [Option.ite_none_right_eq_some] at hq
    obtain ⟨hd, he⟩ := hq
    cases he
    exact ⟨rfl, FileTree.isFile_of_program? hp, program, hp, declaresClass_iff.mp hd⟩
  · rintro ⟨rfl, -, program, hp, hd⟩
    exact ⟨program, hp, if_pos (declaresClass_iff.mpr hd)⟩

theorem answerAt?_declaredAt?_eq_none {name : String} {p : Path} :
    project.answerAt? (declaredAt? name) p = none ↔ ¬ project.Declares name p := by
  rw [Option.eq_none_iff_forall_ne_some]
  constructor
  · intro h hd
    exact h p (answerAt?_declaredAt?.mpr ⟨rfl, hd⟩)
  · intro h q hq
    exact h (answerAt?_declaredAt?.mp hq).2

theorem classFile?_eq_some {name : String} {start p : Path}
    (h : project.classFile? name start = some p) :
    project.Reaches start p ∧ project.Declares name p := by
  obtain ⟨order, -, hsound, -, hsearch⟩ := project.search_eq_findSome? (declaredAt? name) start
  obtain ⟨q, hq, ha⟩ := List.exists_of_findSome?_eq_some (hsearch.symm.trans h)
  obtain ⟨rfl, hd⟩ := answerAt?_declaredAt?.mp ha
  exact ⟨hsound p hq, hd⟩

theorem isNormal_of_classFile? {name : String} {start p : Path} (hn : start.IsNormal)
    (h : project.classFile? name start = some p) : p.IsNormal ∧ project.tree.isFile p = true := by
  obtain ⟨hreach, hdeclares⟩ := classFile?_eq_some h
  rcases hreach.eq_or_isNormal with rfl | hp
  · exact ⟨hn, hdeclares.1⟩
  · exact hp

/-- A lookup that starts at a file which declares the class ends there. -/
theorem classFile?_of_declares {name : String} {start : Path} (h : project.Declares name start) :
    project.classFile? name start = some start := by
  have hanswer : project.answerAt? (declaredAt? name) start = some start :=
    answerAt?_declaredAt?.mpr ⟨rfl, h⟩
  have hpending : [start].dropWhile VisitedFiles.empty.contains = [start] := rfl
  change project.searchFrom (declaredAt? name) (project.tree.size + 1 + 1) .empty [start] = some start
  rw [searchFrom_step (declaredAt? name) (project.tree.size + 1) hpending, hanswer, Option.some_or]

theorem Declares.congr {name : String} {p q : Path} (h : project.tree.SameFile p q)
    (hd : project.Declares name p) : project.Declares name q := by
  obtain ⟨-, program, hp, hc⟩ := hd
  exact ⟨h.right_isFile, program, by rw [← h.program?_eq, hp], hc⟩

/-- A class lookup gives the first file of the preorder that declares the class, under the spelling it
came by, and fails only if no file that the lookup reaches declares it. The start may be met again
under another spelling; if the components agree, it is not listed a second time. -/
theorem classFile?_eq_first_declaring (project : Project) (name : String) (start : Path) :
    ∃ order, (∀ other, DepthFirst project.passedTo [] [start] other ↔ other = order) ∧
      (order.map Path.components).Nodup ∧ (∀ p ∈ order, project.Reaches start p) ∧
      (∀ p, project.Reaches start p → p.IsAmong order) ∧
      (∀ p, project.classFile? name start = some p ↔
        ∃ before after, order = before ++ p :: after ∧ project.Declares name p ∧
          ∀ q ∈ before, ¬ project.Declares name q) ∧
      ((project.classFile? name start).isSome ↔
        ∃ p, project.Reaches start p ∧ project.Declares name p) := by
  obtain ⟨order, horder, hsound, hcovers, hsearch⟩ :=
    project.search_eq_findSome? (declaredAt? name) start
  have hclass : project.classFile? name start =
      order.findSome? (project.answerAt? (declaredAt? name)) := hsearch
  refine ⟨order, horder.iff_eq, by simpa using horder.nodup (by simp), hsound, hcovers, ?_, ?_⟩
  · intro p
    rw [hclass, List.findSome?_eq_some_iff]
    constructor
    · rintro ⟨before, q, after, he, hq, hnone⟩
      obtain ⟨rfl, hd⟩ := answerAt?_declaredAt?.mp hq
      exact ⟨before, after, he, hd, fun r hr => answerAt?_declaredAt?_eq_none.mp (hnone r hr)⟩
    · rintro ⟨before, after, he, hd, hnone⟩
      exact ⟨before, p, after, he, answerAt?_declaredAt?.mpr ⟨rfl, hd⟩,
        fun r hr => answerAt?_declaredAt?_eq_none.mpr (hnone r hr)⟩
  · rw [hclass, List.findSome?_isSome_iff]
    constructor
    · rintro ⟨p, hp, hsome⟩
      obtain ⟨q, hq⟩ := Option.isSome_iff_exists.mp hsome
      exact ⟨p, hsound p hp, (answerAt?_declaredAt?.mp hq).2⟩
    · rintro ⟨p, hp, hd⟩
      -- The declaring file may be listed under the spelling of the start.
      obtain ⟨q, hq, he⟩ := (hcovers p hp).exists_mem
      have hdq : project.Declares name q := by
        rcases hp.eq_or_sameFile (hsound q hq) he.symm with rfl | hs
        · exact hd
        · exact hd.congr hs
      exact ⟨q, hq, Option.isSome_iff_exists.mpr ⟨q, answerAt?_declaredAt?.mpr ⟨rfl, hdq⟩⟩⟩

end Project

end WorkflowAnalysis
