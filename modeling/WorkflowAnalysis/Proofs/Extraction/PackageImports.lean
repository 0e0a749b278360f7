import WorkflowAnalysis.Analysis
import WorkflowAnalysis.Proofs.Files.Resolution

/-! Imports of packages. The name of a package is looked up next to the importer first, as if it were the
name of a file. So a package counts only where nothing next to the importer has its name, and what has
it there stands in for the package in every lookup. -/
namespace WorkflowAnalysis

namespace Path

-- The word cut last is not empty unless a slash stands right at its start.
theorem head?_init_cut (word cs : List Char) :
    (cut word cs).init.head? = some "" ↔ word = [] ∧ cs.head? = some '/' := by
  induction cs generalizing word with
  | nil => simp [cut]
  | cons c cs ih =>
    by_cases hc : c = '/'
    · subst hc
      simp [cut]
    · simp [cut, ih, hc]

theorem isAbsolute_ofString (text : String) :
    (ofString text).isAbsolute = true ↔ text.toList.head? = some '/' := by
  unfold isAbsolute ofString
  rw [beq_iff_eq, head?_init_cut]
  simp

theorem isAbsolute_of_package {specifier : String} (h : isRelativeSpecifier specifier = false) :
    (ofString specifier).isAbsolute = false := by
  apply Bool.eq_false_iff.mpr
  intro ha
  obtain ⟨rest, hl⟩ := List.head?_eq_some_iff.mp ((isAbsolute_ofString specifier).mp ha)
  simp [isRelativeSpecifier, hl] at h

end Path

namespace FileTree

open WorkflowAnalysis.Path

/-- What the name of a package may be mistaken for next to an importer: a file of that name, a script, a
directory with an index file. -/
def neighbours (tree : FileTree) (specifier : String) (importer : Path) : List Path :=
  let directory := (importer.parent?.getD root).place tree.cwd
  let target := absolute ((ofString specifier).segments.foldl step directory)
  [target, target.append ".js", target.join (ofString "index.js")]

theorem resolveModule?_of_package {specifier : String} (h : isRelativeSpecifier specifier = false)
    (tree : FileTree) (importer : Path) :
    tree.resolveModule? specifier importer =
      (tree.neighbours specifier importer).find? tree.isFile := by
  unfold resolveModule? neighbours normalize Path.normalize
  dsimp only
  rw [scriptOrIndex?_eq_find?, place_join, isAbsolute_of_package h, if_neg Bool.false_ne_true]

end FileTree

namespace Project

/-- Nothing next to an importer is taken for a package. A base class is looked up in the package, and the
package gives neither constants nor created classes. -/
structure PackageOnly (project : Project) (importer : Path) (specifier : String) : Prop where
  unresolved : project.tree.resolveModule? specifier importer = none
  bases : ∀ (file : SourceFile) (ref : ClassRef), file.path = importer →
    file.imports.get? (ref.owner.getD ref.className) = some specifier →
    project.baseFile? file ref =
      (project.tree.resolvePackage? specifier importer).bind (project.classFile? ref.className)
  constants : ∀ name, project.constant? specifier name importer = none
  created : ∀ (file : SourceFile) (ref : ClassRef), file.path = importer →
    (file.imports.get? ref.className).or (ref.owner.bind file.imports.get?) = some specifier →
    project.createdFile? file ref = none

/-- A file next to an importer is taken for a package. Base classes, created classes and constants are
looked up from that file, whether there is such a package or not. -/
structure Shadows (project : Project) (importer : Path) (specifier : String) (neighbour : Path) :
    Prop where
  resolved : project.tree.resolveModule? specifier importer = some neighbour
  bases : ∀ (file : SourceFile) (ref : ClassRef), file.path = importer →
    file.imports.get? (ref.owner.getD ref.className) = some specifier →
    project.baseFile? file ref = project.classFile? ref.className neighbour
  constants : ∀ name, neighbour.extension? ≠ some "map" → project.constant? specifier name importer =
    project.search (fun _ program => program.constant? name) neighbour
  created : ∀ (file : SourceFile) (ref : ClassRef), file.path = importer →
    (file.imports.get? ref.className).or (ref.owner.bind file.imports.get?) = some specifier →
    project.createdFile? file ref =
      some ((project.classFile? ref.className neighbour).getD neighbour)

variable {project : Project} {importer neighbour : Path} {specifier : String}

theorem packageOnly_of_resolveModule? (h : project.tree.resolveModule? specifier importer = none) :
    project.PackageOnly importer specifier where
  unresolved := h
  bases file ref hf hi := by
    subst hf
    unfold baseFile?
    rw [hi, Option.bind_eq_bind, Option.bind_some, h]
    rfl
  constants name := by
    unfold constant?
    rw [h, Option.bind_eq_bind, Option.bind_none]
  created file ref hf hi := by
    subst hf
    unfold createdFile?
    rw [hi, Option.bind_eq_bind, Option.bind_some, h, Option.bind_eq_bind, Option.bind_none]

theorem shadows_of_resolveModule? (h : project.tree.resolveModule? specifier importer = some neighbour) :
    project.Shadows importer specifier neighbour where
  resolved := h
  bases file ref hf hi := by
    subst hf
    unfold baseFile?
    rw [hi, Option.bind_eq_bind, Option.bind_some, h]
  constants name hm := by
    unfold constant?
    rw [h, Option.bind_eq_bind, Option.bind_some, if_neg hm]
  created file ref hf hi := by
    subst hf
    unfold createdFile?
    rw [hi, Option.bind_eq_bind, Option.bind_some, h, Option.bind_eq_bind, Option.bind_some]

/-- A package specifier leads to the package alone exactly when no file stands where its name leads from
the importer's directory. Otherwise the first such file shadows the package. -/
theorem packageOnly_iff_no_neighbour (h : isRelativeSpecifier specifier = false) (project : Project)
    (importer : Path) :
    (project.PackageOnly importer specifier ↔
      ∀ neighbour ∈ project.tree.neighbours specifier importer,
        project.tree.isFile neighbour = false) ∧
    ∀ neighbour,
      (project.tree.neighbours specifier importer).find? project.tree.isFile = some neighbour →
        project.Shadows importer specifier neighbour := by
  have hr := FileTree.resolveModule?_of_package h project.tree importer
  constructor
  · constructor
    · intro hp neighbour hm
      have hn := hr.symm.trans hp.unresolved
      simpa using List.find?_eq_none.mp hn neighbour hm
    · intro hn
      apply packageOnly_of_resolveModule?
      rw [hr, List.find?_eq_none]
      intro neighbour hm
      simp [hn neighbour hm]
  · intro neighbour hf
    exact shadows_of_resolveModule? (hr.trans hf)

/-- A workflow that extends a class of an installed package. A script of the package's name stands next to
it. -/
def shadowedProject : Project where
  tree := ((((FileTree.ofWorkingDirectory ["w"]).write (Path.ofString "main.js")
      "import { Base } from 'kit'; class Main extends Base {}".toUTF8).write
    (Path.ofString "kit.js")
      "class Base {} const { stray } = proxyActivities();".toUTF8).write
    (Path.ofString "node_modules/kit/index.js")
      "class Base {} const { packed } = proxyActivities();".toUTF8)

theorem find?_neighbours_shadowedProject :
    (shadowedProject.tree.neighbours "kit" (Path.ofString "/w/main.js")).find?
      shadowedProject.tree.isFile = some (Path.ofString "/w/kit.js") := by
  decide +kernel

theorem packageOnly_iff_no_neighbour_kit :
    isRelativeSpecifier "kit" = false ∧
    (shadowedProject.PackageOnly (Path.ofString "/w/main.js") "kit" ↔
      ∀ neighbour ∈ shadowedProject.tree.neighbours "kit" (Path.ofString "/w/main.js"),
        shadowedProject.tree.isFile neighbour = false) ∧
    shadowedProject.Shadows (Path.ofString "/w/main.js") "kit" (Path.ofString "/w/kit.js") := by
  have hkit : isRelativeSpecifier "kit" = false := by decide
  have h := packageOnly_iff_no_neighbour hkit shadowedProject (Path.ofString "/w/main.js")
  exact ⟨hkit, h.1, h.2 _ find?_neighbours_shadowedProject⟩

/-- The name of a package does lead to a file next to its importer, and the package is passed over. -/
theorem not_forall_packageOnly :
    ¬ ∀ (project : Project) (importer : Path) (specifier : String), specifier ≠ "" →
      isRelativeSpecifier specifier = false → project.PackageOnly importer specifier := by
  intro h
  have hnone := (h shadowedProject (Path.ofString "/w/main.js") "kit" (by decide) (by decide)).unresolved
  rw [FileTree.resolveModule?_of_package (by decide), find?_neighbours_shadowedProject] at hnone
  cases hnone

-- The package is there, but its activity is not found.
example :
    shadowedProject.tree.resolvePackage? "kit" (Path.ofString "/w/main.js") =
        some (Path.ofString "/w/node_modules/kit/index.js") ∧
      (shadowedProject.analyze (Path.ofString "main.js") "main").toOption.map Workflow.activities =
        some [⟨"stray", some "main"⟩] := by
  decide +kernel

end Project

end WorkflowAnalysis
