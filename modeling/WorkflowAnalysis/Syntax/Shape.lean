import WorkflowAnalysis.Syntax.Node

/-! Recognizers for single forms. Compiled code and code written by hand spell the same call in
different ways; each function here knows one spelling, or a fixed set of them, and nothing else. -/
namespace WorkflowAnalysis.Syntax.Node

/-! ### Expressions -/

def string? : Node → Option String
  | string value => some value
  | _ => none

def identifier? : Node → Option String
  | identifier name => some name
  | _ => none

def untyped : Node → Node
  | typed _ inner _ => untyped inner
  | n => n

/-- The expression is a given name, whatever type marks it carries. -/
def isNamed (name : String) (n : Node) : Bool :=
  match n.untyped with
  | identifier spelling => spelling == name
  | _ => false

def memberAccess? : Node → Option (Node × String)
  | member subject name => some (subject, name)
  | index subject (string name) => some (subject, name)
  | index subject (template (some name) _) => some (subject, name)
  | _ => none

def owner? : Node → Option Node
  | member subject _ | index subject _ | privateMember subject _ => some subject
  | typed _ (member subject _) _ | typed _ (index subject _) _ => some subject
  | typed _ (privateMember subject _) _ => some subject
  | _ => none

/-- The expression is a given name, or an optional access to a member of it. -/
def isRootedAt (name : String) (n : Node) : Bool :=
  match n with
  | chain inner => (inner.owner?.map (isNamed name)).getD false
  | _ => n.isNamed name

/-- The expression reads a given property of a given name. -/
def isMemberOf (object property : String) (n : Node) : Bool :=
  let access :=
    match n.untyped with
    | chain inner => inner.memberAccess?
    | inner => inner.memberAccess?
  match access with
  | some (subject, name) => subject.isRootedAt object && name == property
  | none => false

/-- `object.property`, where the object is a plain name. -/
def namedMember? : Node → Option (String × String)
  | member (identifier subject) name => some (subject, name)
  | _ => none

def thisMember? : Node → Option String
  | member .this name => some name
  | _ => none

def isMember : Node → Bool
  | member _ _ | index _ _ | privateMember _ _ => true
  | _ => false

/-! ### Calls -/

/-- The name a callee stands for: a name, a member's property, or that of a member in the second
place of a pair, as compiled code writes it. -/
def targetName? : Node → Option String
  | identifier name => some name
  | member _ name => some name
  | sequence [_, member _ name] => some name
  | _ => none

def plainName? : Node → Option String
  | identifier name => some name
  | member _ name => some name
  | _ => none

def isThisMember : Node → Bool
  | member .this _ | index .this _ | privateMember .this _ => true
  | _ => false

/-- An argument, unless it is spread. -/
def argument? (arguments : List Node) (place : Nat) : Option Node :=
  match arguments[place]? with
  | some (spread _) | none => none
  | some value => some value

def require? : Node → Option String
  | call callee _ arguments =>
    if callee.isNamed "require" then (argument? arguments 0).bind string? else none
  | _ => none

/-! ### Objects and patterns -/

def members? : Node → Option (List Node)
  | object members => some members
  | _ => none

/-- The value of the first property with a given bare key. -/
def property? (members : List Node) (key : String) : Option Node :=
  members.findSome? fun
    | property name _ value => if name = some key then some value else none
    | _ => none

def binding? : Node → Option String
  | binding name => some name
  | _ => none

/-- The name that one property of a pattern gives: what it binds, or else its key. -/
def destructuredName? : Node → Option String
  | patternProperty _ _ (binding name) => some name
  | patternProperty name _ _ => name
  | _ => none

def destructuredNames (properties : List Node) : List String :=
  properties.filterMap destructuredName?

/-! ### Declarations -/

structure Declarator where
  target : Node
  value : Option Node

def declarator? : Node → Option Declarator
  | declarator target _ value => some ⟨target, value⟩
  | _ => none

/-- The variable declaration that a statement is or exports. -/
def variables? : Node → Option (VariableKind × List Node)
  | variableDeclaration kind declarators => some (kind, declarators)
  | exportDeclaration (variableDeclaration kind declarators) => some (kind, declarators)
  | _ => none

end WorkflowAnalysis.Syntax.Node
