import WorkflowAnalysis.Extraction.Site

/-! Activities. A proxy call binds a set of activities to a task queue; which of them a file uses
shows in what is destructured from the set or called on it. Sets bound to a field of a class count
only where they are destructured. -/
namespace WorkflowAnalysis

open Syntax

def proxyArguments? (vocabulary : Vocabulary) : Node → Option (List Node)
  | .call callee _ arguments =>
    if (callee.targetName?.map vocabulary.isProxy).getD false then some arguments else none
  | _ => none

namespace Project

/-- The queue that a proxy call binds to. Its options are an object, or what a call builds from a
queue; a member that stands for nothing known gives its own name. -/
def proxyQueue? (project : Project) (file : SourceFile) (arguments : List Node) : Option String := do
  match ← Node.argument? arguments 0 with
  | .object members =>
    match ← Node.property? members "taskQueue" with
    | .string value => some value
    | .member object property =>
      some ((project.memberValue? file (.member object property)).getD property)
    | _ => none
  | .call _ _ arguments =>
    match ← Node.argument? arguments 0 with
    | .string value => some value
    | .identifier name => some name
    | node => project.memberValue? file node
  | _ => none

def proxyQueue (project : Project) (file : SourceFile) (arguments : List Node) : String :=
  (project.proxyQueue? file arguments).getD file.fallback

end Project

/-! ### Sets bound to variables -/

/-- The names that a node uses of the set bound to a name: by a call, or by destructuring. -/
def usedNames (bound : String) : Node → List String
  | .call (.member object property) _ _ => if object.isNamed bound then [property] else []
  | .call (.index object (.string property)) _ _ => if object.isNamed bound then [property] else []
  | .declarator (.objectPattern properties) _ (some value) =>
    if value.isNamed bound then Node.destructuredNames properties else []
  | _ => []

/-- The activities used of the set bound to a name, each once, in the order of first use. -/
def Syntax.Program.usages (program : Program) (bound : String) : List String :=
  (program.nodes.flatMap (usedNames bound)).eraseDups

def Syntax.Program.namesOfTarget (program : Program) : Node → List String
  | .objectPattern properties => Node.destructuredNames properties
  | .binding name => program.usages name
  | _ => []

namespace Project

def declaratorSites (project : Project) (file : SourceFile) : Node → List Site
  | .declarator target _ (some value) =>
    match proxyArguments? project.vocabulary value with
    | some arguments =>
      let queue := project.proxyQueue file arguments
      (file.program.namesOfTarget target).map (⟨·, queue⟩)
    | none => []
  | _ => []

/-- Activities of the sets that variables are bound to, at any depth. -/
def moduleSites (project : Project) (file : SourceFile) : List Site :=
  file.program.nodes.flatMap (project.declaratorSites file)

end Project

/-! ### Sets bound to fields -/

abbrev FieldProxy := String × List Node

def initializedField? (vocabulary : Vocabulary) : Node → Option FieldProxy
  | .field (some name) _ _ (some value) => (proxyArguments? vocabulary value).map (name, ·)
  | _ => none

/-- A field to which a statement assigns a proxy call, by any operator. -/
def assignedField? (vocabulary : Vocabulary) : Node → Option FieldProxy
  | .expression (.assign _ (.member .this name) value) =>
    (proxyArguments? vocabulary value).map (name, ·)
  | _ => none

def constructorBody : Node → List Node
  | .method .constructor _ _ _ (.function _ _ _ body) => body
  | _ => []

/-- The fields of a class that proxy calls are bound to: those initialized, then those that a
constructor assigns. -/
def fieldProxies (vocabulary : Vocabulary) (members : List Node) : List FieldProxy :=
  members.filterMap (initializedField? vocabulary) ++
    (members.flatMap constructorBody).filterMap (assignedField? vocabulary)

def destructuredFrom (field : String) : Node → List String
  | .declarator (.objectPattern properties) _ (some value) =>
    if value.thisMember? = some field then Node.destructuredNames properties else []
  | _ => []

namespace Project

def classNodeSites (project : Project) (file : SourceFile) (node : Node) : List Site :=
  match node with
  | .classDef _ _ _ _ members =>
    (fieldProxies project.vocabulary members).flatMap fun (field, arguments) =>
      let queue := project.proxyQueue file arguments
      (node.preorder.flatMap (destructuredFrom field)).map (⟨·, queue⟩)
  | _ => []

def classSites (project : Project) (file : SourceFile) : List Site :=
  file.program.nodes.flatMap (project.classNodeSites file)

def fileSites (project : Project) (file : SourceFile) : List Site :=
  project.moduleSites file ++ project.classSites file

end Project

end WorkflowAnalysis
