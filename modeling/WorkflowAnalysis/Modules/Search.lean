import WorkflowAnalysis.Failure
import WorkflowAnalysis.Files.Resolution
import WorkflowAnalysis.Files.Visited
import WorkflowAnalysis.Modules.Constants
import WorkflowAnalysis.Modules.Exports
import WorkflowAnalysis.Modules.Imports
import WorkflowAnalysis.Records.Vocabulary

/-! Lookups in other files. A file that exports all of other modules passes a lookup on to them, in
the order in which it names them, so a lookup walks the graph of these exports depth first and enters
each file once. -/
namespace WorkflowAnalysis

open Syntax

structure Project where
  tree : FileTree
  vocabulary : Vocabulary := {}

structure SourceFile where
  path : Path
  program : Program
  imports : ImportMap
  /-- The queue of whatever in the file names none that can be settled. -/
  fallback : String

def SourceFile.ofProgram (path : Path) (program : Program) (fallback : String) : SourceFile :=
  { path, program, imports := program.imports, fallback }

/-- A class named in a file declares it, at any depth. -/
def declaresClass (name : String) (program : Program) : Bool :=
  program.nodes.any fun
    | .classDef _ declared _ _ _ => declared == some name
    | _ => false

namespace Project

/-- The file at a path, unless it is missing or broken. -/
def file? (project : Project) (fallback : String) (path : Path) : Option SourceFile :=
  (project.tree.program? path).map (.ofProgram path · fallback)

def reExported (project : Project) (path : Path) (program : Program) : List Path :=
  (program.reExports project.vocabulary.reExportHelper).filterMap fun specifier =>
    project.tree.resolveModule? specifier path

/-- Walks from pending files, the first one first, until one of them answers. The files a file passes
on to come before those pending already. Each step enters a file for the first time, so as many steps
as there are files are enough. -/
def searchFrom {α : Type} (project : Project) (answer : Path → Program → Option α) :
    Nat → VisitedFiles → List Path → Option α
  | 0, _, _ => none
  | fuel + 1, visited, pending =>
    match pending.dropWhile visited.contains with
    | [] => none
    | path :: rest =>
      match project.tree.program? path with
      | none => project.searchFrom answer fuel (visited.insert path) rest
      | some program =>
        match answer path program with
        | some found => some found
        | none =>
          project.searchFrom answer fuel (visited.insert path)
            (project.reExported path program ++ rest)

def search {α : Type} (project : Project) (answer : Path → Program → Option α) (start : Path) :
    Option α :=
  project.searchFrom answer (project.tree.size + 2) .empty [start]

/-- The string that a name stands for in a module. Source maps hold none. -/
def constant? (project : Project) (specifier name : String) (importer : Path) : Option String := do
  let path ← project.tree.resolveModule? specifier importer
  if path.extension? = some "map" then none
  else project.search (fun _ program => program.constant? name) path

/-- The file that declares a class, starting from one that offers it. -/
def classFile? (project : Project) (name : String) (start : Path) : Option Path :=
  project.search (fun path program => if declaresClass name program then some path else none) start

end Project

end WorkflowAnalysis
