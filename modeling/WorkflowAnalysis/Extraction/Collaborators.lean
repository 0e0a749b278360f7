import WorkflowAnalysis.Extraction.Activities
import WorkflowAnalysis.Extraction.Classes

/-! Activities of other files that a file takes over: those of the classes it extends, and those of
the classes it creates. -/
namespace WorkflowAnalysis

namespace Project

/-! ### Inheritance -/

/-- The file that declares a class which a file extends. A package is consulted only when no file
answers to the specifier. -/
def baseFile? (project : Project) (file : SourceFile) (ref : ClassRef) : Option Path := do
  let specifier ← file.imports.get? (ref.owner.getD ref.className)
  match project.tree.resolveModule? specifier file.path with
  | some path => project.classFile? ref.className path
  | none => project.classFile? ref.className (← project.tree.resolvePackage? specifier file.path)

/-- The files of a chain of base classes, the nearest first, and what has been visited then. A file
settles which one comes after it, so a chain through known files comes back to a visited path. -/
def baseChain (project : Project) : Nat → VisitedFiles → SourceFile → Option ClassRef →
    List SourceFile × VisitedFiles
  | fuel + 1, visited, file, some ref =>
    match project.baseFile? file ref with
    | none => ([], visited)
    | some path =>
      if visited.contains path then ([], visited)
      else
        match project.file? file.fallback path with
        | none => ([], visited.insert path)
        | some base =>
          let (rest, visited) :=
            project.baseChain fuel (visited.insert path) base base.program.firstBase?
          (base :: rest, visited)
  | _, visited, _, _ => ([], visited)

/-- No chain of base classes is longer. -/
def chainBound (project : Project) : Nat := project.tree.size + 3

/-- The files of the classes that a class extends, the remotest first. -/
def ancestors (project : Project) (visited : VisitedFiles) (file : SourceFile)
    (ref : Option ClassRef) : List SourceFile × VisitedFiles :=
  let (chain, visited) := project.baseChain project.chainBound visited file ref
  (chain.reverse, visited)

def inheritedSites (project : Project) (file : SourceFile) : List Site :=
  (project.ancestors (.startingAt file.path) file file.program.firstBase?).1.flatMap
    project.fileSites

/-! ### Creation -/

/-- The file of a class that a file creates: the one that declares it, or else the module it is
imported from. -/
def createdFile? (project : Project) (file : SourceFile) (ref : ClassRef) : Option Path := do
  let specifier ← (file.imports.get? ref.className).or (ref.owner.bind file.imports.get?)
  let path ← project.tree.resolveModule? specifier file.path
  some ((project.classFile? ref.className path).getD path)

/-- The files that creating a class brings in: those of its base classes, then its own. -/
def enterCreated (project : Project) (file : SourceFile) (visited : VisitedFiles) (ref : ClassRef) :
    List SourceFile × VisitedFiles :=
  match project.createdFile? file ref with
  | none => ([], visited)
  | some path =>
    if visited.contains path then ([], visited)
    else
      match project.file? file.fallback path with
      | none => ([], visited.insert path)
      | some created =>
        let (bases, visited) :=
          project.ancestors (visited.insert path) created (created.program.declaredBase? ref.className)
        (bases ++ [created], visited)

def createdFiles (project : Project) (file : SourceFile) :
    VisitedFiles → List ClassRef → List SourceFile
  | _, [] => []
  | visited, ref :: refs =>
    let (entered, visited) := project.enterCreated file visited ref
    entered ++ project.createdFiles file visited refs

def createdSites (project : Project) (file : SourceFile) : List Site :=
  (project.createdFiles file (.startingAt file.path) file.program.created.refs).flatMap
    project.fileSites

end Project

end WorkflowAnalysis
