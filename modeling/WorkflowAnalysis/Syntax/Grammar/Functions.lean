import WorkflowAnalysis.Syntax.Grammar.Types

/-! Functions and classes, wherever they stand. -/
namespace WorkflowAnalysis.Syntax

open Syntax.Parser

namespace Rules

/-- Statements up to an end. Those that are a lone string, as long as nothing else came before, are
directives and no statements. -/
def statements (r : Rules) (isEnd : Parser Bool) : Parser (List Node) :=
  iterate ([], true) fun (found, inPrologue) => do
    if (← isEnd) || (← isStuck) then return .inr found.reverse
    let isText := match ← peek with
      | .text _ => true
      | _ => false
    match inPrologue && isText, ← r.statement .list with
    | true, .expression (.string _) => return .inl (found, true)
    | _, next => return .inl (next :: found, false)

def functionBody (r : Rules) : Parser (List Node) :=
  inSetting (fun s => { s with mayReturn := true }) do
    expectOpening .curly
    let body ← r.statements (isClosing .curly)
    expectClosing .curly
    return body

/-- Records what the head of a function may not have in its capacity. -/
def checkHead (capacity : Capacity) (isGeneric hasResult : Bool) (params : Parameters) :
    Parser Unit := do
  match capacity with
  | .plain | .method => return
  | .getter _ => recordIf !params.list.isEmpty
  | .setter _ =>
    let typed ← isTypescript
    let takesOne := match params.list with
      | [only] => !only.isRest && !(only.hasDefault && typed)
      | _ => false
    recordIf (!takesOne || hasResult)
  | .constructor => recordIf (isGeneric || params.receiver.isSome)

/-- A function from its type parameters on. Without a body it is a signature, which only a typed
language has; one that is declared to be a signature stays one even with a body. -/
def functionTail (r : Rules) (capacity : Capacity) (role : FunctionRole) (name : Option String)
    (isAsync isGenerator : Bool) : Parser Node :=
  inSetting (fun s => { s with inOperator := true, inAsync := isAsync, inGenerator := isGenerator }) do
    let isGeneric ← startsTypeParameters
    let generics ← r.typeParameters
    let params ← r.parameters capacity
    let hasResult ← isMark ":"
    let result ← r.resultAscription
    checkHead capacity isGeneric hasResult params
    let head := generics ++ params.nodes ++ result
    if ← isOpening .curly then
      let body ← r.functionBody
      if role == .signature then
        record
        semicolon
      return .function role name head body
    else if ← isTypescript then
      semicolon
      return .function .signature name head []
    else giveUp

def startsAsyncFunction : Parser Bool := do
  unless ← isWord "async" do return false
  nextIs (return (← isWord "function") && !(← onNewLine))

/-- The name of a function, if it has one. In an expression, the name belongs to the function. -/
def functionName (role : FunctionRole) (isAsync isGenerator : Bool) : Parser (Option String) := do
  unless (← peek).isBindable do return none
  if role == .expression then
    inSetting (fun s => { s with inAsync := isAsync, inGenerator := isGenerator }) do
      return some (← variableName)
  else return some (← variableName)

/-- A function from the word `function`, or `async` before it, on; `isAsync` tells that `async` has
been read already. On its own, it may stand only in a list of statements if it is asynchronous or a
generator. -/
def functionRule (r : Rules) (role : FunctionRole) (place : Place) (needsName isAsync : Bool) :
    Parser Node := do
  let isAsync := (← takeWord "async") || isAsync
  expectWord "function"
  let isGenerator ← takeMark "*"
  recordIf (place != .list && (isAsync || isGenerator))
  let name ← functionName role isAsync isGenerator
  recordIf (needsName && name.isNone && (← isOpening .round))
  r.functionTail .plain role name isAsync isGenerator

/-! ### Classes -/

/-- A key in a class. None is private under the name of a constructor, or has its access modified when
it is private already. -/
def classKey (r : Rules) (found : List String) : Parser Key := do
  match ← peek with
  | .privateName name =>
    advance
    recordIf (name == "constructor")
    recordIf (found.any accessWords.contains && (← isTypescript))
    return {}
  | _ => r.key

def startsSignature : Parser Bool := return (← isOpening .round) || (← isMark "<")

/-- The initial value of a field, evaluated outside any function that surrounds the class. It may hold
commas, unless the field is an accessor. -/
def fieldValue (r : Rules) (isAccessor : Bool) : Parser (Option Node) :=
  inSetting (fun s => { s with inOperator := true, inAsync := false, inGenerator := false }) do
    if isAccessor then r.initializer
    else if ← takeMark "=" then return some (← r.expression).node
    else return none

/-- The key names what every class has on its own: its prototype. -/
def namesPrototype (key : Key) (found : List String) : Bool :=
  key.spelling == some "prototype" && found.contains "static"

/-- Records what a method may not be: abstract with a body, decorated without one, or a static method
in the place of the prototype. -/
def checkMethod (key : Key) (marks : List Node) (found : List String) (function : Node) :
    Parser Unit := do
  let hasBody := match function with
    | .function .signature _ _ _ => false
    | _ => true
  recordIf (if hasBody then found.contains "abstract" else !marks.isEmpty)
  recordIf (namesPrototype key found)

def methodModifiers : List String := accessWords ++ ["static", "override", "abstract"]

def fieldModifiers : List String := "declare" :: "readonly" :: methodModifiers

/-- `get` or `set` has been read. -/
def accessor (r : Rules) (capacity : Capacity) (marks : List Node) (found : List String) :
    Parser Node := do
  let key ← r.classKey found
  let function ← r.functionTail capacity .expression none false false
  allowOnly methodModifiers found
  checkMethod key marks found function
  recordIf (key.spelling == some "constructor" && !found.contains "static")
  return .method .ordinary key.name marks key.parts function

def constructorMethod (r : Rules) (marks : List Node) (found : List String) : Parser Node := do
  let key ← r.key
  let function ← r.functionTail .constructor .expression none (found.contains "async") false
  allowOnly accessWords found
  checkMethod key marks found function
  return .method .constructor key.name marks key.parts function

def method (r : Rules) (isGenerator : Bool) (key : Key) (marks : List Node) (found : List String) :
    Parser Node := do
  let isAsync := found.contains "async"
  let function ← r.functionTail .method .expression none isAsync isGenerator
  allowOnly ("async" :: methodModifiers) found
  checkMethod key marks found function
  let isConstructor := key.spelling == some "constructor" && !found.contains "static"
  recordIf (isConstructor && (isAsync || isGenerator))
  return .method .ordinary key.name marks key.parts function

def fieldTail (r : Rules) (isOptional : Bool) (key : Key) (marks : List Node) (found : List String) :
    Parser Node := do
  let isAccessor := found.contains "accessor"
  if (← isMark "!") && !(← onNewLine) then
    advance
    recordIf isOptional
  recordIf (isOptional && isAccessor)
  let types ← r.ascription
  let value ← r.fieldValue isAccessor
  semicolon
  allowOnly (if isAccessor then "accessor" :: methodModifiers else fieldModifiers) found
  recordIf (value.isSome && found.contains "abstract")
  if isAccessor then return .group (marks ++ key.parts ++ types ++ value.toList)
  recordIf (key.spelling == some "constructor" || namesPrototype key found)
  return .field key.name marks (key.parts ++ types) value

def fieldOrMethod (r : Rules) (marks : List Node) (found : List String) : Parser Node := do
  let isGenerator ← takeMark "*"
  let key ← r.classKey found
  let isOptional ← takeMark "?"
  if isGenerator || (← startsSignature) then r.method isGenerator key marks found
  else r.fieldTail isOptional key marks found

def isConstructorKey (token : Token) : Bool :=
  token == .word "constructor" || token == .text "constructor"

/-- The statements of a `static` block, which may not return. -/
def staticBlock (r : Rules) : Parser (List Node) := do
  expectWord "static"
  expectOpening .curly
  let change (s : Setting) : Setting :=
    { s with inOperator := true, inAsync := true, inGenerator := false, mayReturn := false }
  let body ← inSetting change (manyUntil (isClosing .curly) (r.statement .list))
  expectClosing .curly
  return body

def classElement (r : Rules) : Parser Node := do
  let marks ← r.decorators
  let found ← modifiers true true
  if (← isWord "static") && (← nextIs (isOpening .curly)) then
    recordIf !(marks.isEmpty && found.isEmpty)
    return .group (marks ++ (← r.staticBlock))
  if ← takeAccessor "get" then return ← r.accessor (.getter true) marks found
  if ← takeAccessor "set" then return ← r.accessor (.setter true) marks found
  let token ← peek
  if isConstructorKey token && !found.contains "static" && (← nextIs startsSignature) then
    return ← r.constructorMethod marks found
  if ← isIndexSignature then
    recordIf !marks.isEmpty
    return .group (← r.indexSignature found)
  match token with
  | .word _ | .text _ | .number | .privateName _ | .mark "*" | .opening .square =>
    let isAmbient := found.contains "declare"
    inSetting (fun s => { s with isAmbient := s.isAmbient || isAmbient }) (r.fieldOrMethod marks found)
  | _ => giveUp

def classBody (r : Rules) : Parser (List Node) := do
  expectOpening .curly
  let members ← manyUntil (isClosing .curly) do
    if ← takeMark ";" then return Node.group [] else r.classElement
  expectClosing .curly
  return members

def implemented (r : Rules) : Parser (List Node) := do
  qualifiedName
  r.typeArguments?

structure Heritage where
  base : Option Node := none
  /-- What remains of the base's type arguments. -/
  arguments : List Node := []
  implemented : Option (List Node) := none

/-- The clauses after the name of a class. Of several bases in a clause the first counts, and of
several such clauses the last; more than one of either kind, and a base after what is implemented, are
errors that are let pass. -/
def classHeritage (r : Rules) : Parser Heritage :=
  iterate {} fun found => do
    if ← takeWord "extends" then
      recordIf (found.base.isSome || found.implemented.isSome)
      let (base, arguments) ← r.heritage
      iterate () fun _ => do
        if ← takeMark "," then
          let _ ← r.heritage
          record
          return .inl ()
        else return .inr ()
      return .inl { found with base, arguments }
    else if ← takeWord "implements" then
      recordIf found.implemented.isSome
      let first ← r.implemented
      let all ← iterate first fun all => do
        if ← takeMark "," then return .inl (all ++ (← r.implemented)) else return .inr all
      return .inl { found with implemented := some (found.implemented.getD [] ++ all) }
    else return .inr found

/-- A class from the word `class` on, after its decorators and modifiers. -/
def classRule (r : Rules) (role : ClassRole) (needsName : Bool) (marks : List Node)
    (found : List String) : Parser Node := do
  allowOnly ["declare", "abstract"] found
  expectWord "class"
  let name ←
    if (← peek).isBindable && !(← isWord "implements") then pure (some (← variableName))
    else pure none
  recordIf (needsName && name.isNone)
  let generics ← r.typeParameters
  let heritage ← r.classHeritage
  let members ← r.classBody
  return .classDef role name marks heritage.base
    (generics ++ heritage.arguments ++ heritage.implemented.getD [] ++ members)

end Rules

end WorkflowAnalysis.Syntax
