import Mathlib.Data.List.Sort
import WorkflowAnalysis.Proofs.Registry.Batches
import WorkflowAnalysis.Proofs.Text.Endings

/-! The workflow files of a directory. A listing has a path for each file that stands directly in the
directory under a text and is not a barrel, a declaration file or a source map, in the order of the bytes of
their names. So these names alone decide in which order workflows are registered. A name that is no text
is left out. -/
namespace WorkflowAnalysis

/-! ### Names -/

/-- `index.` with the first letter of an extension for scripts, with or without the second one. -/
def IsBarrelName (name : String) : Prop :=
  ∃ letter ending, name = "index." ++ letter ++ ending ∧ (letter = "t" ∨ letter = "j") ∧
    (ending = "" ∨ ending = "s")

/-- A name for workflow code. Its bytes need not be those of a text. -/
structure FileName.IsWorkflowName (name : FileName) : Prop where
  not_barrel : ∀ text, IsBarrelName text → name ≠ .ofText text
  not_declarations : ¬ utf8Bytes ".d.ts" <:+ name.bytes
  not_map : ¬ utf8Bytes ".js.map" <:+ name.bytes

theorem mem_barrelNames {name : String} : name ∈ barrelNames ↔ IsBarrelName name := by
  constructor
  · intro h
    simp only [barrelNames, List.mem_cons, List.not_mem_nil, or_false] at h
    rcases h with rfl | rfl | rfl | rfl
    · exact ⟨"j", "s", rfl, .inr rfl, .inr rfl⟩
    · exact ⟨"t", "s", rfl, .inl rfl, .inr rfl⟩
    · exact ⟨"j", "", rfl, .inr rfl, .inl rfl⟩
    · exact ⟨"t", "", rfl, .inl rfl, .inl rfl⟩
  · rintro ⟨letter, ending, rfl, rfl | rfl, rfl | rfl⟩ <;> decide

theorem endsWith_iff (name ending : String) (hplain : ∀ c ∈ ending.toList, c.toNat < 128) :
    endsWith name ending = true ↔ utf8Bytes ending <:+ (FileName.ofText name).bytes := by
  rw [endsWith, List.isSuffixOf_iff_suffix]
  exact (suffix_utf8Bytes_iff hplain).symm

theorem isWorkflowFileName_iff {name : String} :
    isWorkflowFileName name = true ↔ (FileName.ofText name).IsWorkflowName := by
  have hbarrel : barrelNames.contains name = true ↔
      ∃ text, IsBarrelName text ∧ FileName.ofText name = .ofText text := by
    simp only [List.contains_iff_mem, mem_barrelNames, FileName.ofText_injective.eq_iff,
      exists_eq_right']
  have hdeclarations := endsWith_iff name ".d.ts" (by simp)
  have hmap := endsWith_iff name ".js.map" (by simp)
  unfold isWorkflowFileName
  simp only [Bool.and_eq_true, Bool.not_eq_true', ← Bool.not_eq_true, hbarrel, hdeclarations, hmap,
    not_exists, not_and]
  constructor
  · rintro ⟨⟨hbarrel, hdeclarations⟩, hmap⟩
    exact ⟨hbarrel, hdeclarations, hmap⟩
  · rintro ⟨hbarrel, hdeclarations, hmap⟩
    exact ⟨⟨hbarrel, hdeclarations⟩, hmap⟩

/-! ### Listings -/

namespace FileTree

open WorkflowAnalysis.Path

variable {tree : FileTree} {directory : Path}

theorem isDirectory_iff {p : Path} : tree.isDirectory p = true ↔ tree.locate p = .ok .directory := by
  unfold isDirectory
  split
  · next h => simp [h]
  · next h => simpa using h

/-- What stands in a directory under the name of an entry is a file if the joined path leads to one. -/
theorem holdsFile_iff_isFile (hd : tree.locate directory = .ok .directory) {name : String}
    (hn : isPlain name = true) :
    tree.HoldsFile directory (.ofText name) ↔
      tree.isFile (directory.join ⟨[], name⟩) = true := by
  rw [isFile_iff, holdsFile_ofText]
  constructor
  · rintro ⟨bytes, hfind⟩
    exact ⟨bytes, locate_join_name hd hn hfind⟩
  · rintro ⟨bytes, hlocate⟩
    refine ⟨bytes, ?_⟩
    rw [← place_join_name hn]
    exact find?_place hlocate

/-- The names of a listing: the texts that name workflow files in the directory, by their bytes. -/
structure ListsWorkflows (tree : FileTree) (directory : Path) (names : List String) : Prop where
  sorted : names.Pairwise fun a b => utf8Bytes a < utf8Bytes b
  mem_iff : ∀ name, name ∈ names ↔
    tree.HoldsFile directory (.ofText name) ∧ (FileName.ofText name).IsWorkflowName

theorem exists_listsWorkflows (hd : tree.locate directory = .ok .directory) :
    ∃ names, tree.ListsWorkflows directory names ∧
      tree.workflowFiles directory = .ok (names.map fun name => directory.join ⟨[], name⟩) := by
  obtain ⟨names, hnames, hmem⟩ := exists_fileNames hd
  refine ⟨_, ⟨?_, ?_⟩, workflowFiles_eq_ok.mpr ⟨names, hnames, rfl⟩⟩
  · exact (pairwise_textNames (pairwise_fileNames hnames)).filter _
  · intro name
    rw [List.mem_filter, mem_textNames, hmem, isWorkflowFileName_iff]

/-- The order of bytes leaves one listing for a set of names. -/
theorem ListsWorkflows.unique {other : FileTree} {names others : List String}
    (h : tree.ListsWorkflows directory names) (h' : other.ListsWorkflows directory others)
    (hsame : ∀ name : String,
      tree.HoldsFile directory (.ofText name) ↔ other.HoldsFile directory (.ofText name)) :
    names = others := by
  have : Std.Irrefl fun a b : String => utf8Bytes a < utf8Bytes b := ⟨fun _ => List.lt_irrefl _⟩
  have : Std.Antisymm fun a b : String => utf8Bytes a < utf8Bytes b :=
    ⟨fun _ _ hab hba => absurd hba (List.lt_asymm hab)⟩
  apply h.sorted.eq_of_mem_iff h'.sorted
  intro name
  rw [h.mem_iff, h'.mem_iff, hsame]

end FileTree

theorem forall₂_of_mapM {α β ε : Type} {f : α → Except ε β} {xs : List α} {ys : List β}
    (h : xs.mapM f = .ok ys) : List.Forall₂ (fun x y => f x = .ok y) xs ys := by
  rcases mapM_cases f xs with ⟨_, hm, hall⟩ | ⟨_, _, _, _, -, hm, -⟩
  · cases hm.symm.trans h
    exact hall
  · cases hm.symm.trans h

theorem Registry.addWorkflows_eq_ok {registry after : Registry} {tree : FileTree} {path : Path}
    {queue : String} {count : Nat} (h : registry.addWorkflows tree path queue = (.ok count, after)) :
    ∃ workflows, registry.analyzeWorkflows tree path queue = .ok workflows ∧
      after = registry.appendWorkflows workflows := by
  unfold addWorkflows at h
  cases ho : registry.analyzeWorkflows tree path queue with
  | error failure =>
    rw [ho] at h
    cases h
  | ok workflows =>
    rw [ho] at h
    cases h
    exact ⟨workflows, rfl, rfl⟩

namespace FileTree

/-- A directory lists exactly the files directly in it that are named by a text for workflow code, each once
and by the bytes of their names, and a registration takes them in this order. A text names a file if the
path that is joined from it leads to one. Another tree where the same texts name files in the directory has
the same listing. -/
theorem workflowFiles_exact {tree : FileTree} {directory : Path}
    (hd : tree.isDirectory directory = true) :
    ∃ names, tree.ListsWorkflows directory names ∧
      tree.workflowFiles directory = .ok (names.map fun name => directory.join ⟨[], name⟩) ∧
      (∀ name, Path.isPlain name = true →
        (tree.HoldsFile directory (.ofText name) ↔
          tree.isFile (directory.join ⟨[], name⟩) = true)) ∧
      (∀ other : FileTree, other.isDirectory directory = true →
        (∀ name : String,
          tree.HoldsFile directory (.ofText name) ↔ other.HoldsFile directory (.ofText name)) →
        other.workflowFiles directory = tree.workflowFiles directory) ∧
      ∀ (registry after : Registry) (path : Path) (queue : String) (count : Nat),
        tree.workflowDirectory path = directory →
        registry.addWorkflows tree path queue = (.ok count, after) →
        ∃ workflows, after = registry.appendWorkflows workflows ∧
          List.Forall₂ (fun name workflow =>
              Project.analyzeFor { tree, vocabulary := registry.vocabulary } queue
                (directory.join ⟨[], name⟩) = .ok workflow)
            names workflows := by
  have hlocate := isDirectory_iff.mp hd
  obtain ⟨names, hlists, hfiles⟩ := exists_listsWorkflows hlocate
  refine ⟨names, hlists, hfiles, fun name => holdsFile_iff_isFile hlocate, ?_, ?_⟩
  · intro other hother hsame
    obtain ⟨others, hlists', hfiles'⟩ := exists_listsWorkflows (isDirectory_iff.mp hother)
    rw [hfiles, hfiles', hlists.unique hlists' hsame]
  · intro registry after path queue count hpath hadd
    obtain ⟨workflows, hbatch, rfl⟩ := Registry.addWorkflows_eq_ok hadd
    refine ⟨workflows, rfl, ?_⟩
    rw [Registry.analyzeWorkflows_eq, hpath, hfiles] at hbatch
    exact List.forall₂_map_left_iff.mp (forall₂_of_mapM hbatch)

/-- A directory with two workflow files, a barrel, declarations, a map, and a directory whose name is that
of a workflow file. -/
def mixedDirectory : FileTree :=
  let files := ["zeta.js", "index.ts", "types.d.ts", "Äpfel.js", "zeta.js.map", "nested.js/inner.js"]
  files.foldl (fun tree file => tree.write (.ofString file) "export function run() {}".toUTF8)
    (ofWorkingDirectory ["w"])

theorem workflowFiles_exact_mixed :
    mixedDirectory.isDirectory (.ofString ".") = true ∧
    ∃ names : List String, mixedDirectory.workflowFiles (.ofString ".") =
        .ok (names.map fun name => (Path.ofString ".").join ⟨[], name⟩) ∧
      (∀ name ∈ ["zeta.js", "Äpfel.js"], name ∈ names) ∧
      ∀ name ∈ ["index.ts", "types.d.ts", "zeta.js.map", "nested.js", "inner.js"], name ∉ names := by
  have hd : mixedDirectory.isDirectory (.ofString ".") = true := by decide +kernel
  obtain ⟨names, hlists, hfiles, hholds, -⟩ := workflowFiles_exact hd
  have hmem (name : String) (hn : Path.isPlain name = true) : name ∈ names ↔
      mixedDirectory.isFile ((Path.ofString ".").join ⟨[], name⟩) = true ∧
        isWorkflowFileName name = true := by
    rw [hlists.mem_iff, hholds name hn, isWorkflowFileName_iff]
  refine ⟨hd, names, hfiles, ?_, ?_⟩
  · intro name hm
    have hplain : ∀ name ∈ ["zeta.js", "Äpfel.js"], Path.isPlain name = true := by decide
    rw [hmem name (hplain name hm)]
    revert name
    decide +kernel
  · intro name hm
    have hplain : ∀ name ∈ ["index.ts", "types.d.ts", "zeta.js.map", "nested.js", "inner.js"],
        Path.isPlain name = true := by
      decide
    rw [hmem name (hplain name hm)]
    revert name
    decide +kernel

/-- A name of four bytes, the first of which no text has; the others are those of `.js`. -/
def rawName : FileName := ⟨[0xFF, 0x2E, 0x6A, 0x73]⟩

theorem rawName_ne_ofText (text : String) : rawName ≠ .ofText text := by
  intro h
  have hraw : rawName.text? = none := by decide +kernel
  rw [FileName.text?_eq_some.mpr h] at hraw
  cases hraw

def rawDirectory : FileTree :=
  let tree := ofWorkingDirectory ["w"]
  { tree with
    entries := ([.ofText "w", rawName], .file "export function run() {}".toUTF8) :: tree.entries }

/-- Not every file in a directory whose name is one for workflow code is listed. -/
theorem not_forall_workflowFiles_complete :
    ¬ ∀ (tree : FileTree) (directory : Path), tree.isDirectory directory = true →
      ∃ files, tree.workflowFiles directory = .ok files ∧
        ∀ name, tree.HoldsFile directory name → name.IsWorkflowName →
          ∃ file ∈ files, name = .ofText file.last := by
  intro h
  obtain ⟨files, -, hall⟩ := h rawDirectory (.ofString ".") (by decide +kernel)
  have hname : rawName.IsWorkflowName :=
    ⟨fun text _ => rawName_ne_ofText text, by decide +kernel, by decide +kernel⟩
  obtain ⟨file, -, hfile⟩ := hall rawName ⟨_, rfl⟩ hname
  exact rawName_ne_ofText file.last hfile

end FileTree

end WorkflowAnalysis
