import WorkflowAnalysis.Files.Tree
import WorkflowAnalysis.Json.Decoder

/-! Which file a module specifier stands for. A module is looked up as it is spelled, then with `.js`
after it, then as a directory with an index file; nothing else is tried. -/
namespace WorkflowAnalysis

/-- A specifier that names a file and not a package. -/
def isRelativeSpecifier (specifier : String) : Bool :=
  match specifier.toList with
  | ['.'] | ['.', '.'] | '.' :: '/' :: _ | '.' :: '.' :: '/' :: _ | '/' :: _ => true
  | _ => false

structure PackageDraft where
  main : Option (Option String) := none

def packageShape : RecordShape PackageDraft (Option String) where
  fields :=
    [.slot "main" (·.main) (fun draft main => { draft with main := some main })
       (Decoder.optional Decoder.string)]
  start := {}
  finish := fun draft => some draft.main.join

/-- The main file that a manifest names; a manifest that cannot be decoded names none. -/
def packageMain? (text : String) : Option String :=
  match packageShape.decode.ofText text with
  | .ok (some main) => if main == "" then none else some main
  | _ => none

namespace FileTree

def existing? (tree : FileTree) (p : Path) : Option Path := if tree.isFile p then some p else none

def indexFile? (tree : FileTree) (directory : Path) : Option Path :=
  tree.existing? (directory.join (Path.ofString "index.js"))

def scriptFile? (tree : FileTree) (target : Path) : Option Path :=
  (tree.existing? target).orElse fun _ => tree.existing? (target.append ".js")

def scriptOrIndex? (tree : FileTree) (target : Path) : Option Path :=
  (tree.scriptFile? target).orElse fun _ => tree.indexFile? target

def resolveModule? (tree : FileTree) (specifier : String) (importer : Path) : Option Path :=
  let directory := importer.parent?.getD Path.root
  tree.scriptOrIndex? (tree.normalize (directory.join (Path.ofString specifier)))

def packageEntry? (tree : FileTree) (directory : Path) : Option Path :=
  let main := do
    let text ← (tree.read (directory.join (Path.ofString "package.json"))).toOption
    let main ← packageMain? text
    tree.scriptOrIndex? (tree.normalize (directory.join (Path.ofString main)))
  main.orElse fun _ => tree.indexFile? directory

def packageAt? (tree : FileTree) (specifier : String) (place : List String) : Option Path :=
  if place.getLast? = some "node_modules" then none
  else
    let candidate :=
      ((Path.absolute place).join (Path.ofString "node_modules")).join (Path.ofString specifier)
    (tree.scriptFile? candidate).orElse fun _ =>
      if tree.isDirectory candidate then tree.packageEntry? candidate else none

/-- A place and those above it, the nearest first. -/
def placesUp (place : List String) : List (List String) :=
  (List.range (place.length + 1)).reverse.map place.take

/-- The entry file of a package, as seen from a file: the nearest package directory above the file
that yields one wins. -/
def resolvePackage? (tree : FileTree) (specifier : String) (importer : Path) : Option Path :=
  if specifier == "" || isRelativeSpecifier specifier then none
  else
    match importer.place tree.cwd with
    | [] => none
    | place => (placesUp place.dropLast).findSome? (tree.packageAt? specifier)

end FileTree

end WorkflowAnalysis
