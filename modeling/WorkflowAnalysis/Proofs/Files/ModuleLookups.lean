import WorkflowAnalysis.Proofs.Files.NormalForms

/-! Lookups of modules. A specifier leads from the directory of the importer to a target, and the module is
the first file among the target, the target as a script and its index file. It is always spelled in normal
form, and so may the importer be: as long as its last component is a name, no other spelling of it gives
another module. -/
namespace WorkflowAnalysis

open WorkflowAnalysis.Path

namespace FileTree

variable {tree : FileTree} {p found : Path} {paths : List Path}

/-- Where a specifier leads from an importer. An importer without a parent stands in the root. -/
def moduleTarget (tree : FileTree) (specifier : String) (importer : Path) : Path :=
  tree.normalize ((importer.parent?.getD root).join (ofString specifier))

def moduleCandidates (target : Path) : List Path :=
  [target, target.append ".js", target.join (ofString "index.js")]

def IsFirstFile (tree : FileTree) (paths : List Path) (found : Path) : Prop :=
  ∃ front back, paths = front ++ found :: back ∧ tree.isFile found = true ∧
    ∀ p ∈ front, tree.isFile p = false

theorem find?_isFile_iff : paths.find? tree.isFile = some found ↔ tree.IsFirstFile paths found := by
  rw [List.find?_eq_some_iff_append]
  constructor
  · rintro ⟨hfile, front, back, hpaths, hfront⟩
    exact ⟨front, back, hpaths, hfile, fun p hm => by simpa using hfront p hm⟩
  · rintro ⟨front, back, hpaths, hfile, hfront⟩
    exact ⟨hfile, front, back, hpaths, fun p hm => by simp [hfront p hm]⟩

theorem normalize_of_isNormal (h : p.IsNormal) : tree.normalize p = p :=
  (h.eq_absolute_place tree.cwd).symm

theorem endsIn_normalize {name : String} (h : p.EndsIn name) : (tree.normalize p).EndsIn name := by
  unfold normalize Path.normalize
  rw [h.place_eq tree.cwd, absolute_concat]
  exact endsIn_last h.2

/-- A module is the first file among the candidates at its target, and a fixed point of normalization. An
importer that ends in a name gives the same modules however it is spelled. -/
theorem resolveModule?_canonical (tree : FileTree) (specifier : String) (importer : Path) :
    (∀ found, tree.resolveModule? specifier importer = some found ↔
      tree.IsFirstFile (moduleCandidates (tree.moduleTarget specifier importer)) found) ∧
    (∀ found, tree.resolveModule? specifier importer = some found →
      tree.isFile found = true ∧ tree.normalize found = found) ∧
    ∀ name, importer.EndsIn name →
      tree.resolveModule? specifier importer =
        tree.resolveModule? specifier (tree.normalize importer) := by
  refine ⟨?_, ?_, ?_⟩
  · intro found
    rw [← find?_isFile_iff]
    exact Eq.congr_left (tree.scriptOrIndex?_eq_find? _)
  · intro found hfound
    obtain ⟨hnormal, hfile⟩ := resolveModule?_eq_some hfound
    exact ⟨hfile, normalize_of_isNormal hnormal⟩
  · intro name hname
    exact resolveModule?_congr hname (endsIn_normalize hname) (tree.place_normalize importer).symm
      specifier

/-- A directory with an index file beside a directory of workflows. -/
def kitTree : FileTree :=
  ((ofWorkingDirectory ["w"]).write (ofString "flows/main.js") "".toUTF8).write
    (ofString "kit/index.js") "".toUTF8

theorem resolveModule?_canonical_kit :
    kitTree.resolveModule? "../kit" (ofString "flows//../flows/./main.js/.") =
      some (ofString "/w/kit/index.js") ∧
    (ofString "flows//../flows/./main.js/.").EndsIn "main.js" ∧
    (kitTree.isFile (ofString "/w/kit/index.js") = true ∧
      kitTree.normalize (ofString "/w/kit/index.js") = ofString "/w/kit/index.js") ∧
    kitTree.resolveModule? "../kit" (ofString "flows//../flows/./main.js/.") =
      kitTree.resolveModule? "../kit"
        (kitTree.normalize (ofString "flows//../flows/./main.js/.")) := by
  have hfound : kitTree.resolveModule? "../kit" (ofString "flows//../flows/./main.js/.") =
      some (ofString "/w/kit/index.js") := by
    decide +kernel
  have hname : (ofString "flows//../flows/./main.js/.").EndsIn "main.js" := by
    constructor <;> decide +kernel
  have h := resolveModule?_canonical kitTree "../kit" (ofString "flows//../flows/./main.js/.")
  exact ⟨hfound, hname, h.2.1 _ hfound, h.2.2 _ hname⟩

-- A spelling that ends in a step up has another parent than its normal form.
example :
    kitTree.resolveModule? "./index.js" (ofString "kit/..") = some (ofString "/w/kit/index.js") ∧
      kitTree.resolveModule? "./index.js" (kitTree.normalize (ofString "kit/..")) = none := by
  decide +kernel

end FileTree

end WorkflowAnalysis
