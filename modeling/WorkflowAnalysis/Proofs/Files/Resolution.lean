import WorkflowAnalysis.Failure
import WorkflowAnalysis.Files.Resolution
import WorkflowAnalysis.Proofs.Files.Places

/-! What resolving a specifier gives. The answer is an existing file; from a module it is spelled in
normal form, from a package it is spelled from the root. What a file holds and what its own specifiers
stand for depends on its place alone, however the path to it is spelled. -/
namespace WorkflowAnalysis

open Syntax

namespace Path

/-- The one spelling of a place from the root. -/
def IsNormal (p : Path) : Prop := ∃ names, Plain names ∧ p = absolute names

theorem IsNormal.isAbsolute {p : Path} (h : p.IsNormal) : p.isAbsolute = true := by
  obtain ⟨names, -, rfl⟩ := h
  exact isAbsolute_absolute names

theorem IsNormal.eq_of_components {p q : Path} (hp : p.IsNormal) (hq : q.IsNormal)
    (h : p.components = q.components) : p = q := by
  obtain ⟨names, hn, rfl⟩ := hp
  obtain ⟨others, ho, rfl⟩ := hq
  rw [absolute_injective hn ho h]

theorem IsNormal.eq_absolute_place {p : Path} (h : p.IsNormal) (cwd : List String) :
    p = absolute (p.place cwd) := by
  obtain ⟨names, hn, rfl⟩ := h
  rw [place_absolute_plain hn]

theorem IsNormal.append_js {p : Path} (h : p.IsNormal) : (p.append ".js").IsNormal := by
  obtain ⟨names, hn, rfl⟩ := h
  exact append_js_absolute hn

theorem IsNormal.join_index {p : Path} (h : p.IsNormal) :
    (p.join (ofString "index.js")).IsNormal := by
  obtain ⟨names, hn, rfl⟩ := h
  refine ⟨names ++ ["index.js"], ?_, join_absolute hn "index.js"⟩
  intro name hm
  rcases List.mem_append.mp hm with hm | hm
  · exact hn name hm
  · rw [List.mem_singleton.mp hm]
    decide

theorem isAbsolute_join {p r : Path} (h : p.isAbsolute = true) : (p.join r).isAbsolute = true := by
  obtain ⟨rest, hi⟩ := init_of_isAbsolute h
  unfold join
  split
  · assumption
  · split
    · simp [Path.isAbsolute, hi]
    · simp [Path.isAbsolute, hi]

end Path

namespace FileTree

open WorkflowAnalysis.Path

theorem isNormal_normalize (tree : FileTree) (p : Path) : (tree.normalize p).IsNormal :=
  ⟨p.place tree.cwd, plain_place tree.cwd_plain p, rfl⟩

theorem existing?_eq_some {tree : FileTree} {p q : Path} (h : tree.existing? p = some q) :
    q = p ∧ tree.isFile q = true := by
  unfold existing? at h
  split at h
  · cases h
    exact ⟨rfl, by assumption⟩
  · cases h

theorem scriptFile?_eq_some {tree : FileTree} {p q : Path} (h : tree.scriptFile? p = some q) :
    (q = p ∨ q = p.append ".js") ∧ tree.isFile q = true := by
  rcases Option.or_eq_some_iff.mp (Option.or_eq_orElse.trans h) with h | ⟨-, h⟩
  · exact ⟨.inl (existing?_eq_some h).1, (existing?_eq_some h).2⟩
  · exact ⟨.inr (existing?_eq_some h).1, (existing?_eq_some h).2⟩

theorem scriptOrIndex?_eq_some {tree : FileTree} {p q : Path} (h : tree.scriptOrIndex? p = some q) :
    (q = p ∨ q = p.append ".js" ∨ q = p.join (ofString "index.js")) ∧ tree.isFile q = true := by
  rcases Option.or_eq_some_iff.mp (Option.or_eq_orElse.trans h) with h | ⟨-, h⟩
  · obtain ⟨he | he, hf⟩ := scriptFile?_eq_some h
    · exact ⟨.inl he, hf⟩
    · exact ⟨.inr (.inl he), hf⟩
  · exact ⟨.inr (.inr (existing?_eq_some h).1), (existing?_eq_some h).2⟩

theorem scriptOrIndex?_eq_find? (tree : FileTree) (target : Path) :
    tree.scriptOrIndex? target =
      [target, target.append ".js", target.join (ofString "index.js")].find? tree.isFile := by
  unfold scriptOrIndex? scriptFile? indexFile? existing?
  cases h : tree.isFile target with
  | true => simp [h]
  | false =>
    cases h' : tree.isFile (target.append ".js") with
    | true => simp [h, h']
    | false =>
      cases h'' : tree.isFile (target.join (ofString "index.js")) with
      | true => simp [h, h', h'']
      | false => simp [h, h', h'']

theorem isNormal_of_scriptOrIndex? {tree : FileTree} {p q : Path} (hn : p.IsNormal)
    (h : tree.scriptOrIndex? p = some q) : q.IsNormal ∧ tree.isFile q = true := by
  obtain ⟨rfl | rfl | rfl, hf⟩ := scriptOrIndex?_eq_some h
  · exact ⟨hn, hf⟩
  · exact ⟨hn.append_js, hf⟩
  · exact ⟨hn.join_index, hf⟩

theorem resolveModule?_eq_some {tree : FileTree} {specifier : String} {importer q : Path}
    (h : tree.resolveModule? specifier importer = some q) : q.IsNormal ∧ tree.isFile q = true :=
  isNormal_of_scriptOrIndex? (tree.isNormal_normalize _) h

theorem packageEntry?_eq_some {tree : FileTree} {directory q : Path}
    (h : tree.packageEntry? directory = some q) :
    (q.IsNormal ∨ q = directory.join (ofString "index.js")) ∧ tree.isFile q = true := by
  rcases Option.or_eq_some_iff.mp (Option.or_eq_orElse.trans h) with h | ⟨-, h⟩
  · obtain ⟨text, -, h⟩ := Option.bind_eq_some_iff.mp h
    obtain ⟨main, -, h⟩ := Option.bind_eq_some_iff.mp h
    obtain ⟨hn, hf⟩ := isNormal_of_scriptOrIndex? (tree.isNormal_normalize _) h
    exact ⟨.inl hn, hf⟩
  · obtain ⟨he, hf⟩ := existing?_eq_some h
    exact ⟨.inr he, hf⟩

/-- The spellings under which a package of a place can be entered, unless its manifest names a main
file. They are joined as they stand, so dots in the specifier stay in them. -/
def packageSpellings (specifier : String) (place : List String) : List Path :=
  let candidate := ((absolute place).join (ofString "node_modules")).join (ofString specifier)
  [candidate, candidate.append ".js", candidate.join (ofString "index.js")]

theorem isAbsolute_of_mem_packageSpellings {specifier : String} {place : List String} {q : Path}
    (h : q ∈ packageSpellings specifier place) : q.isAbsolute = true := by
  have ha : (((absolute place).join (ofString "node_modules")).join
      (ofString specifier)).isAbsolute = true :=
    isAbsolute_join (isAbsolute_join (isAbsolute_absolute place))
  unfold packageSpellings at h
  simp only [List.mem_cons, List.not_mem_nil, or_false] at h
  rcases h with rfl | rfl | rfl
  · exact ha
  · exact ha
  · exact isAbsolute_join ha

theorem packageAt?_eq_some {tree : FileTree} {specifier : String} {place : List String} {q : Path}
    (h : tree.packageAt? specifier place = some q) :
    (q.IsNormal ∨ q ∈ packageSpellings specifier place) ∧ tree.isFile q = true := by
  unfold packageAt? at h
  split at h
  · cases h
  · unfold packageSpellings
    rcases Option.or_eq_some_iff.mp (Option.or_eq_orElse.trans h) with h | ⟨-, h⟩
    · obtain ⟨he, hf⟩ := scriptFile?_eq_some h
      refine ⟨.inr ?_, hf⟩
      rcases he with rfl | rfl <;> simp
    · split at h
      · obtain ⟨hn | rfl, hf⟩ := packageEntry?_eq_some h
        · exact ⟨.inl hn, hf⟩
        · exact ⟨.inr (by simp), hf⟩
      · cases h

/-- The entry of a package is spelled in normal form or joined to a place above the importer. -/
theorem resolvePackage?_spelling {tree : FileTree} {specifier : String} {importer q : Path}
    (h : tree.resolvePackage? specifier importer = some q) :
    (q.IsNormal ∨ ∃ place ∈ placesUp (importer.place tree.cwd).dropLast,
      q ∈ packageSpellings specifier place) ∧ tree.isFile q = true := by
  unfold resolvePackage? at h
  split at h
  · cases h
  · split at h
    · cases h
    · obtain ⟨place, hm, h⟩ := List.exists_of_findSome?_eq_some h
      obtain ⟨hq, hf⟩ := packageAt?_eq_some h
      exact ⟨hq.imp_right fun hs => ⟨place, hm, hs⟩, hf⟩

theorem resolvePackage?_eq_some {tree : FileTree} {specifier : String} {importer q : Path}
    (h : tree.resolvePackage? specifier importer = some q) :
    q.isAbsolute = true ∧ tree.isFile q = true := by
  obtain ⟨hn | ⟨place, -, hs⟩, hf⟩ := resolvePackage?_spelling h
  · exact ⟨hn.isAbsolute, hf⟩
  · exact ⟨isAbsolute_of_mem_packageSpellings hs, hf⟩

/-! ### Spellings of one place -/

/-- Two spellings from the root of the place of one file. -/
structure SameFile (tree : FileTree) (p q : Path) : Prop where
  left_isAbsolute : p.isAbsolute = true
  right_isAbsolute : q.isAbsolute = true
  left_isFile : tree.isFile p = true
  right_isFile : tree.isFile q = true
  place_eq : p.place tree.cwd = q.place tree.cwd

theorem SameFile.of_components {tree : FileTree} {p q : Path} (hp : p.isAbsolute = true)
    (hf : tree.isFile p = true) (hg : tree.isFile q = true) (h : p.components = q.components) :
    tree.SameFile p q := by
  refine ⟨hp, ?_, hf, hg, place_congr h _⟩
  rw [← (components_inj.mp h).1, hp]

variable {tree : FileTree} {p q : Path}

theorem SameFile.symm (h : tree.SameFile p q) : tree.SameFile q p :=
  ⟨h.right_isAbsolute, h.left_isAbsolute, h.right_isFile, h.left_isFile, h.place_eq.symm⟩

theorem SameFile.absolute_place (ha : p.isAbsolute = true) (hf : tree.isFile p = true) :
    tree.SameFile p (absolute (p.place tree.cwd)) where
  left_isAbsolute := ha
  right_isAbsolute := isAbsolute_absolute _
  left_isFile := hf
  right_isFile := isFile_absolute_place ha hf
  place_eq := (place_absolute_plain (plain_place tree.cwd_plain p) tree.cwd).symm

theorem SameFile.last_eq (h : tree.SameFile p q) : p.last = q.last := by
  have hp := place_eq_concat (isPlain_last h.left_isAbsolute h.left_isFile) tree.cwd
  have hq := place_eq_concat (isPlain_last h.right_isAbsolute h.right_isFile) tree.cwd
  have he := h.place_eq
  rw [hp, hq] at he
  exact List.head_eq_of_cons_eq (List.append_inj' he rfl).2

theorem SameFile.read_eq (h : tree.SameFile p q) : tree.read p = tree.read q := by
  obtain ⟨bytes, hp⟩ := isFile_iff.mp h.left_isFile
  obtain ⟨others, hq⟩ := isFile_iff.mp h.right_isFile
  have he := find?_place hp
  rw [h.place_eq, find?_place hq] at he
  cases he
  unfold read
  rw [hp, hq]

theorem SameFile.language_eq (h : tree.SameFile p q) : Language.ofPath p = Language.ofPath q := by
  unfold Language.ofPath extension?
  rw [fileName?_of_plain (isPlain_last h.left_isAbsolute h.left_isFile),
    fileName?_of_plain (isPlain_last h.right_isAbsolute h.right_isFile), h.last_eq]

theorem program?_eq (tree : FileTree) (p : Path) :
    tree.program? p = (tree.read p).toOption.bind (Program.ofText? (Language.ofPath p)) := by
  unfold program? parseFile load
  cases tree.read p with
  | error fault => rfl
  | ok text =>
    change ((Program.parse p text).mapError _).toOption = Program.ofText? (Language.ofPath p) text
    unfold Program.parse
    cases Program.ofText? (Language.ofPath p) text <;> rfl

theorem isFile_of_program? {program : Program} (h : tree.program? p = some program) :
    tree.isFile p = true := by
  rw [program?_eq] at h
  obtain ⟨text, ht, -⟩ := Option.bind_eq_some_iff.mp h
  unfold read at ht
  rw [isFile_iff]
  cases hl : tree.locate p with
  | error fault => simp [hl, bind, Except.bind, Except.toOption] at ht
  | ok entry =>
    cases entry with
    | directory => simp [hl, bind, Except.bind, Except.toOption] at ht
    | file bytes => exact ⟨bytes, rfl⟩

theorem SameFile.program?_eq (h : tree.SameFile p q) : tree.program? p = tree.program? q := by
  rw [FileTree.program?_eq, FileTree.program?_eq, h.read_eq, h.language_eq]

/-- What a specifier stands for depends on the place of the importer alone, as long as the importer ends
in a name. -/
theorem resolveModule?_congr {name other : String} (hp : p.EndsIn name) (hq : q.EndsIn other)
    (h : p.place tree.cwd = q.place tree.cwd) (specifier : String) :
    tree.resolveModule? specifier p = tree.resolveModule? specifier q := by
  unfold resolveModule? normalize Path.normalize
  dsimp only
  rw [place_join, place_join, hp.place_parent?, hq.place_parent?, h]

theorem SameFile.resolveModule?_eq (h : tree.SameFile p q) (specifier : String) :
    tree.resolveModule? specifier p = tree.resolveModule? specifier q :=
  resolveModule?_congr (endsIn_last (isPlain_last h.left_isAbsolute h.left_isFile))
    (endsIn_last (isPlain_last h.right_isAbsolute h.right_isFile)) h.place_eq specifier

theorem SameFile.resolvePackage?_eq (h : tree.SameFile p q) (specifier : String) :
    tree.resolvePackage? specifier p = tree.resolvePackage? specifier q := by
  unfold resolvePackage?
  rw [h.place_eq]

end FileTree

end WorkflowAnalysis
