import WorkflowAnalysis.Syntax.Shape

/-! String constants that a file offers to others. -/
namespace WorkflowAnalysis

open Syntax

def declaredLiteral? (name : String) (declarators : List Node) : Option String :=
  declarators.findSome? fun
    | .declarator (.binding bound) _ (some (.string value)) => if bound = name then some value else none
    | _ => none

def isExportTarget (name : String) : Node → Bool
  | .member object property =>
    property == name && (object.isNamed "exports" || object.isMemberOf "module" "exports")
  | _ => false

def chainValue : Node → Node
  | .assign _ _ value => chainValue value
  | value => value

def assignedLiteral? (name : String) : Node → Option String
  | .assign _ target value =>
    if isExportTarget name target then (chainValue value).string? else assignedLiteral? name value
  | _ => none

/-- The string bound to a name: by a constant at the top level, else by an exported variable, else by
an assignment to a member of the exports. -/
def Syntax.Program.constant? (program : Program) (name : String) : Option String :=
  let declared := program.body.findSome? fun
    | .variableDeclaration .constant declarators => declaredLiteral? name declarators
    | _ => none
  let exported := program.body.findSome? fun
    | .exportDeclaration (.variableDeclaration _ declarators) => declaredLiteral? name declarators
    | _ => none
  let assigned := program.body.findSome? fun
    | .expression value => assignedLiteral? name value
    | _ => none
  (declared.or exported).or assigned

end WorkflowAnalysis
