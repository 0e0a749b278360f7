import WorkflowAnalysis.Syntax.Cursor

/-! The grammar is written without recursion of its own: each rule takes as an argument how to parse
the goals it contains, and one function on the depth of nesting ties them together. -/
namespace WorkflowAnalysis.Syntax

structure Cover where
  node : Node
  /-- How many shorthand defaults become part of the pattern. -/
  loose : Nat := 0
  /-- Errors that it makes only as a pattern. -/
  errors : Nat := 0

/-- How an expression may be assigned to. An expression carries this reading along, so that nothing
has to be parsed twice when an equals sign turns up after it. -/
inductive Target where
  | none
  /-- A name or a member. -/
  | simple (node : Node)
  | pattern (cover : Cover)
  /-- An assignment, which is a target with a default inside a pattern and nowhere else. Only a plain
  equals sign gives a default without an error. -/
  | withDefault (node : Node) (isPlain : Bool)

/-- What the operators and keywords around an expression have to know of it. -/
inductive Form where
  | other
  | logical
  | unary
  | importCall
deriving DecidableEq

structure Parsed where
  node : Node
  target : Target := .none
  form : Form := .other
  /-- The expression and its type arguments, where they come last in it: a call takes them over. -/
  applied : Option (Node × List Node) := none

/-- What is called when arguments follow, and with which type arguments. -/
def Parsed.callee (p : Parsed) : Node × List Node := p.applied.getD (p.node, [])

inductive TypeShape where
  | other
  | array
  | tuple
  | nullable
deriving DecidableEq

/-- A type: the expressions written inside it, which are all that remains of it in the tree, and its
outermost form. -/
structure ParsedType where
  parts : List Node
  shape : TypeShape := .other

/-- Whether a statement stands in a list, as the body of another statement, or after a label. -/
inductive Place where
  | list
  | single
  | label
deriving DecidableEq

inductive Goal where
  /-- An expression without commas; a return type may or may not follow an arrow's parameters. -/
  | assignment (returnType : Bool)
  /-- An expression of operators that bind tighter than a level. -/
  | binary (level : Nat)
  | unary
  | leftHand
  /-- A class to extend, and the types it is applied to. -/
  | heritage
  | construct
  | statement (place : Place)
  | pattern
  | type
  /-- A markup element; `inside` another one, text follows it. -/
  | markup (inside : Bool)

abbrev Goal.Result : Goal → Type
  | .assignment _ | .binary _ | .unary | .leftHand => Parsed
  | .construct | .statement _ | .pattern | .markup _ => Node
  | .heritage => Node × List Node
  | .type => ParsedType

abbrev Rules := (goal : Goal) → Parser goal.Result

namespace Rules

def assignmentWith (r : Rules) (returnType : Bool) : Parser Parsed := r (.assignment returnType)

def assignment (r : Rules) : Parser Parsed := r (.assignment true)

def binary (r : Rules) (level : Nat) : Parser Parsed := r (.binary level)

def unary (r : Rules) : Parser Parsed := r .unary

def leftHand (r : Rules) : Parser Parsed := r .leftHand

def heritage (r : Rules) : Parser (Node × List Node) := r .heritage

def construct (r : Rules) : Parser Node := r .construct

def statement (r : Rules) (place : Place) : Parser Node := r (.statement place)

def pattern (r : Rules) : Parser Node := r .pattern

def shapedType (r : Rules) : Parser ParsedType := r .type

/-- A type, of which only the expressions written inside remain. -/
def type (r : Rules) : Parser (List Node) := return (← r.shapedType).parts

def markup (r : Rules) (inside : Bool) : Parser Node := r (.markup inside)

/-- An expression in which `in` is an operator. -/
def operand (r : Rules) : Parser Node := return (← Parser.allowIn r.assignment).node

end Rules

open Syntax.Parser

/-- A key: the name it gives when written bare, else the expressions it holds. -/
structure Key where
  name : Option String := none
  parts : List Node := []
  /-- What it spells, bare or quoted. -/
  spelling : Option String := none

namespace Rules

def expression (r : Rules) : Parser Parsed :=
  inSetting (fun s => { s with inDecorator := false }) do
    let first ← r.assignment
    if ← isMark "," then
      let items ← iterate [first.node] fun items => do
        if ← takeMark "," then return .inl ((← r.assignment).node :: items)
        else return .inr items.reverse
      return { node := .sequence items }
    else return first

def parenthesized (r : Rules) : Parser Node := do
  expectOpening .round
  let inner ← allowIn r.expression
  expectClosing .round
  return inner.node

def key (r : Rules) : Parser Key := do
  match ← peek with
  | .text value =>
    advance
    return { parts := [.string value], spelling := some value }
  | .number =>
    advance
    return {}
  | .opening .square =>
    advance
    let inner ← r.operand
    expectClosing .square
    return { parts := [inner] }
  | _ =>
    let name ← anyWord
    return { name := some name, spelling := some name }

def initializer (r : Rules) : Parser (Option Node) := do
  if ← takeMark "=" then return some (← r.operand) else return none

end Rules

/-! ### Modifiers -/

def canFollowModifier : Parser Bool := do
  match ← peek with
  | .opening .square | .opening .curly | .mark "*" | .mark "..." | .privateName _ => return true
  | token => return token.isPlainKey

def canFollowAccessor : Parser Bool := do
  match ← peek with
  | .opening .square | .privateName _ => return true
  | token => return token.isPlainKey

def canFollowDefault : Parser Bool := do
  match ← peek with
  | .word "class" | .word "function" | .word "interface" | .mark "@" => return true
  | .word "abstract" => nextIs (return (← isWord "class") && !(← onNewLine))
  | .word "async" => nextIs (return (← isWord "function") && !(← onNewLine))
  | _ => return false

def canFollowExport : Parser Bool := do
  match ← peek with
  | .mark "@" => return true
  | .mark "*" | .word "as" | .opening .curly => return false
  | _ => canFollowModifier

def isModifying (word : String) : Parser Bool :=
  match word with
  | "static" => nextIs canFollowModifier
  | "default" => nextIs canFollowDefault
  | "export" => nextIs do
    match ← peek with
    | .word "default" => nextIs canFollowDefault
    | .word "type" => nextIs canFollowExport
    | _ => canFollowExport
  | _ => nextIs (return !(← onNewLine) && (← canFollowModifier))

/-- The modifiers that may not come before a given one. -/
def laterModifiers (word : String) : List String :=
  match word with
  | "public" | "private" | "protected" =>
    accessWords ++ ["override", "static", "accessor", "readonly", "async"]
  | "static" => ["readonly", "async", "accessor", "override"]
  | "override" => ["readonly", "accessor", "async"]
  | _ => []

/-- Reads modifiers. `constToo` lets `const` be one; `stopAtBlock` leaves `static` to the block that
follows it. Repeated modifiers and a wrong order are errors that are let pass. -/
def modifiers (constToo stopAtBlock : Bool) : Parser (List String) :=
  iterate [] fun found => do
    match ← peek with
    | .word word =>
      let stops :=
        !modifierWords.contains word || (word == "const" && !constToo)
          || (word == "static" && found.contains "static")
      if stops then return .inr found.reverse
      if word == "static" && stopAtBlock && (← nextIs (isOpening .curly)) then
        return .inr found.reverse
      if ← isModifying word then
        advance
        recordIf (found.contains word || (laterModifiers word).any found.contains)
        return .inl (word :: found)
      else return .inr found.reverse
    | _ => return .inr found.reverse

/-- Records modifiers that do not belong where they stand. -/
def allowOnly (allowed found : List String) : Parser Unit :=
  recordIf (found.any fun word => !allowed.contains word)

/-- Takes `get` or `set` where it introduces an accessor. -/
def takeAccessor (word : String) : Parser Bool := do
  if ← isWord word then
    if ← nextIs canFollowAccessor then
      advance
      return true
  return false

end WorkflowAnalysis.Syntax
