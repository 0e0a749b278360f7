import WorkflowAnalysis.Syntax.Grammar.Goal

/-! Types. They are parsed for their extent; what remains of a type is the list of expressions inside
it, such as computed keys and defaults of parameters. -/
namespace WorkflowAnalysis.Syntax

open Syntax.Parser

namespace Rules

/-! ### Lists of types -/

def typeArguments (r : Rules) : Parser (List Node) := do
  splitAngles
  expectMark "<"
  let (args, _) ← commaList (isMark ">") r.type
  expectMark ">"
  recordIf args.isEmpty
  return args.flatten

def typeArguments? (r : Rules) : Parser (List Node) := do
  splitAngles
  if ← isMark "<" then r.typeArguments else return []

def sameLineTypeArguments (r : Rules) : Parser (List Node) := do
  if ← onNewLine then return [] else r.typeArguments?

def typeParameter (r : Rules) : Parser (List Node) := do
  allowOnly ["const", "in", "out"] (← modifiers true false)
  let _ ← variableName
  let bound ← if ← takeWord "extends" then r.type else pure []
  let default ← if ← takeMark "=" then r.type else pure []
  return bound ++ default

/-- Type parameters come next: they are known only where types are. -/
def startsTypeParameters : Parser Bool := return (← isTypescript) && (← isMark "<")

/-- `<T extends U = V>` where types are enabled and the list is there. -/
def typeParameters (r : Rules) : Parser (List Node) := do
  unless ← startsTypeParameters do return []
  advance
  let (params, _) ← commaList (isMark ">") r.typeParameter
  expectMark ">"
  recordIf params.isEmpty
  return params.flatten

/-- `: T` where types are enabled. -/
def ascription (r : Rules) : Parser (List Node) := do
  unless ← isTypescript do return []
  if ← takeMark ":" then r.type else return []

/-- A type or a predicate such as `x is T`. -/
def resultType (r : Rules) : Parser (List Node) := do
  if (← peek).isIdentifier then
    let isPredicate ← nextIs (return (← isWord "is") && !(← onNewLine))
    if isPredicate then
      let _ ← anyWord
      advance
  r.type

def resultAscription (r : Rules) : Parser (List Node) := do
  unless ← isTypescript do return []
  if ← takeMark ":" then r.resultType else return []

/-! ### Patterns -/

/-- A binding inside a pattern, with the default that may be attached to it. -/
def bindingElement (r : Rules) : Parser Node := do
  let target ← r.pattern
  match ← r.initializer with
  | none => return target
  | some default => return .group [target, default]

/-- `...` and what is bound to the rest; a default there is an error, and in an object so is a pattern. -/
def restElement (r : Rules) (inObject : Bool) : Parser Node := do
  expectMark "..."
  let target ← r.pattern
  let isName := match target with
    | .binding _ => true
    | _ => false
  recordIf (inObject && !isName)
  let default ← r.initializer
  recordIf default.isSome
  return .group (target :: default.toList)

def patternProperty (r : Rules) : Parser Node := do
  let bindable := (← peek).isBindable
  let key ← r.key
  if bindable && !(← isMark ":") then
    match key.name with
    | some name =>
      checkName name
      match ← r.initializer with
      | none => return .patternProperty key.name [] (.binding name)
      | some default => return .patternProperty key.name [] (.group [.binding name, default])
    | none => giveUp
  else
    expectMark ":"
    return .patternProperty key.name key.parts (← r.bindingElement)

def bindingTarget (r : Rules) : Parser Node := do
  match ← peek with
  | .opening .curly =>
    advance
    let properties ← commaListWithRest (isClosing .curly) r.patternProperty (r.restElement true)
    expectClosing .curly
    return .objectPattern properties
  | .opening .square =>
    advance
    let item := do
      if ← isMark "," then return Node.group [] else r.bindingElement
    let items ← commaListWithRest (isClosing .square) item (r.restElement false)
    expectClosing .square
    return .group items
  | _ => return .binding (← variableName)

/-! ### Parameters -/

def decorators (r : Rules) : Parser (List Node) :=
  iterate [] fun found => do
    if ← takeMark "@" then
      let inner ← inSetting (fun s => { s with inDecorator := true }) r.leftHand
      return .inl (inner.node :: found)
    else return .inr found.reverse

inductive Capacity where
  /-- A function of its own, or a method of an object. -/
  | plain
  | method
  | getter (inClass : Bool)
  | setter (inClass : Bool)
  | constructor
deriving DecidableEq

def Capacity.inClass : Capacity → Bool
  | plain => false
  | method | constructor => true
  | getter inClass | setter inClass => inClass

structure Parameter where
  node : Node
  isRest : Bool := false
  hasDefault : Bool := false

def parameterModifiers (capacity : Capacity) : Parser (List String) := do
  unless ← isTypescript do return []
  if capacity == .constructor then return "readonly" :: "override" :: accessWords
  else return ["readonly"]

/-- A parameter: a pattern and perhaps a mark that it is optional, a type and a default. -/
def parameter (r : Rules) (capacity : Capacity) : Parser Parameter := do
  let marks ← r.decorators
  let mayBeDecorated := capacity.inClass && (← isTypescript)
  recordIf (!marks.isEmpty && !mayBeDecorated)
  let found ← modifiers false false
  allowOnly (← parameterModifiers capacity) found
  let target ← r.pattern
  let isName := match target with
    | .binding _ => true
    | _ => false
  recordIf (!found.isEmpty && !isName)
  let isOptional ← if ← isTypescript then takeMark "?" else pure false
  let types ← r.ascription
  let default ← r.initializer
  recordIf (isOptional && default.isSome)
  let parts := marks ++ target :: types ++ default.toList
  return { node := if parts.length == 1 then target else .group parts, hasDefault := default.isSome }

/-- The last parameter, which takes all arguments left: it is neither optional nor has a default. -/
def restParameter (r : Rules) : Parser Parameter := do
  expectMark "..."
  let target ← r.pattern
  if ← isTypescript then recordIf (← takeMark "?")
  let types ← r.ascription
  let default ← r.initializer
  recordIf default.isSome
  return { node := .group (target :: types ++ default.toList), isRest := true }

/-- A list of parameters, and what remains of the type of `this` if that comes first. -/
structure Parameters where
  receiver : Option (List Node)
  list : List Parameter

def Parameters.nodes (p : Parameters) : List Node :=
  p.receiver.getD [] ++ p.list.map (·.node)

def parameters (r : Rules) (capacity : Capacity) : Parser Parameters := do
  expectOpening .round
  let receiver ← do
    if (← isTypescript) && (← isWord "this") then
      advance
      let types ← r.ascription
      unless ← isClosing .round do expectMark ","
      pure (some types)
    else pure none
  let list ← commaListWithRest (isClosing .round) (r.parameter capacity) r.restParameter
  expectClosing .round
  return { receiver, list }

/-! ### Function types -/

def skipParameterStart (r : Rules) : Parser Bool := do
  if (← peek).isModifier then
    let _ ← modifiers false false
  let token ← peek
  if token.isIdentifier || token == .word "this" then
    advance
    return true
  match token with
  | .opening .square | .opening .curly =>
    let _ ← r.pattern
    return true
  | _ => return false

/-- After an opening parenthesis, a parameter list and nothing else can follow. -/
def startsParameterList (r : Rules) : Parser Bool := lookAhead do
  advance
  if (← isClosing .round) || (← isMark "...") then return true
  if ← r.skipParameterStart then
    match ← peek with
    | .mark ":" | .mark "," | .mark "?" | .mark "=" => return true
    | .closing .round =>
      advance
      isMark "=>"
    | _ => return false
  else return false

def startsFunctionType (r : Rules) : Parser Bool := do
  match ← peek with
  | .mark "<" | .word "new" => return true
  | .word "abstract" => nextIs (isWord "new")
  | .opening .round => r.startsParameterList
  | _ => return false

def functionType (r : Rules) : Parser (List Node) := do
  let _ ← takeWord "abstract"
  let _ ← takeWord "new"
  let generics ← r.typeParameters
  let params ← r.parameters .plain
  expectMark "=>"
  return generics ++ params.nodes ++ (← r.resultType)

/-! ### Members of object types -/

def signature (r : Rules) : Parser (List Node) := do
  let generics ← r.typeParameters
  let params ← r.parameters .plain
  return generics ++ params.nodes ++ (← r.resultAscription)

def isIndexSignature : Parser Bool := do
  unless ← isOpening .square do return false
  lookAhead do
    advance
    if (← isMark "...") || (← isClosing .square) then return true
    if (← peek).isModifier then
      advance
      if (← peek).isIdentifier then return true
    else if !(← peek).isIdentifier then return false
    else advance
    if (← isMark ":") || (← isMark ",") then return true
    unless ← takeMark "?" do return false
    return (← isMark ":") || (← isMark ",") || (← isClosing .square)

def memberEnd : Parser Unit := do
  unless ← takeMark "," do semicolon

/-- The name and the type of an index; it is not optional. -/
def indexParameter (r : Rules) : Parser (List Node) := do
  let _ ← anyWord
  recordIf (← takeMark "?")
  expectMark ":"
  r.type

/-- `[key: K]: V`, with one index and no comma after it. -/
def indexSignature (r : Rules) (found : List String) : Parser (List Node) := do
  allowOnly ["readonly", "static"] found
  expectOpening .square
  let (params, hasComma) ← commaList (isClosing .square) r.indexParameter
  recordIf (hasComma || params.length != 1)
  expectClosing .square
  expectMark ":"
  let types ← r.type
  memberEnd
  return params.flatten ++ types

/-- An accessor from its key on; one that sets has no result. -/
def accessorSignature (r : Rules) (isSetter : Bool) (found : List String) : Parser (List Node) := do
  allowOnly [] found
  let key ← r.key
  let generics ← r.typeParameters
  let params ← r.parameters .plain
  recordIf (isSetter && (← isMark ":"))
  let result ← r.resultAscription
  memberEnd
  return key.parts ++ generics ++ params.nodes ++ result

def typeMember (r : Rules) : Parser (List Node) := do
  if (← isOpening .round) || (← isMark "<") then
    let parts ← r.signature
    memberEnd
    return parts
  if (← isWord "new") && (← nextIs (return (← isOpening .round) || (← isMark "<"))) then
    advance
    let parts ← r.signature
    memberEnd
    return parts
  let found ← modifiers true false
  if ← takeAccessor "get" then return ← r.accessorSignature false found
  if ← takeAccessor "set" then return ← r.accessorSignature true found
  if ← isIndexSignature then return ← r.indexSignature found
  let key ← r.key
  let _ ← takeMark "?"
  let isMethod := (← isOpening .round) || (← isMark "<")
  allowOnly (if isMethod then [] else ["readonly"]) found
  let parts ← if isMethod then r.signature else r.ascription
  let default ← r.initializer
  if default.isSome then record
  memberEnd
  return key.parts ++ parts ++ default.toList

def typeMembers (r : Rules) : Parser (List Node) := do
  expectOpening .curly
  let members ← manyUntil (isClosing .curly) r.typeMember
  expectClosing .curly
  return members.flatten

def startsMappedType : Parser Bool := lookAhead do
  advance
  if (← takeMark "+") || (← takeMark "-") then return ← isWord "readonly"
  let _ ← takeWord "readonly"
  unless ← takeOpening .square do return false
  unless (← peek).isIdentifier do return false
  advance
  isWord "in"

def takeSign : Parser Unit := do
  unless ← takeMark "+" do
    let _ ← takeMark "-"

def mappedType (r : Rules) : Parser (List Node) := do
  expectOpening .curly
  takeSign
  let _ ← takeWord "readonly"
  expectOpening .square
  let _ ← anyWord
  expectWord "in"
  let range ← r.type
  let name ← if ← takeWord "as" then r.type else pure []
  expectClosing .square
  takeSign
  let _ ← takeMark "?"
  let value ← r.ascription
  unless ← takeMark "," do semicolon
  expectClosing .curly
  return range ++ name ++ value

/-! ### Other primary types -/

def startsNamedElement : Parser Bool := lookAhead do
  let _ ← takeMark "..."
  unless (← peek).isWord do return false
  advance
  if ← isMark ":" then return true
  unless ← takeMark "?" do return false
  isMark ":"

/-- What an element of a tuple asks of those after it. -/
inductive TupleRole where
  | required
  | optional
  /-- Any number of elements of one type. -/
  | rest
  /-- The elements of another tuple. -/
  | variadic
deriving DecidableEq

structure TupleElement where
  parts : List Node
  role : TupleRole

/-- The type of an element; a question mark after it makes the element optional. -/
def tupleElementType (r : Rules) : Parser TupleElement := do
  if ← takeMark "..." then
    let inner ← r.shapedType
    return { parts := inner.parts, role := if inner.shape == .array then .rest else .variadic }
  let inner ← r.shapedType
  return { parts := inner.parts, role := if inner.shape == .nullable then .optional else .required }

def tupleElement (r : Rules) : Parser TupleElement := do
  unless ← startsNamedElement do return ← r.tupleElementType
  let isRest ← takeMark "..."
  let _ ← anyWord
  let isOptional ← takeMark "?"
  recordIf (isRest && isOptional)
  expectMark ":"
  if isRest then
    let inner ← r.shapedType
    return { parts := inner.parts, role := if inner.shape == .array then .rest else .variadic }
  let inner ← r.tupleElementType
  return { parts := inner.parts, role := if isOptional then .optional else .required }

/-- The elements stand in a wrong order: a required one after an optional one, or anything but a
required one after the rest. -/
def misplacesElement : List TupleRole → Bool
  | [] => false
  | role :: after =>
    misplacesElement after
      || (role == .optional && after.contains .required)
      || (role == .rest && (after.contains .optional || after.contains .rest))

def tupleType (r : Rules) : Parser ParsedType := do
  expectOpening .square
  let (elements, _) ← commaList (isClosing .square) r.tupleElement
  expectClosing .square
  recordIf (misplacesElement (elements.map (·.role)))
  return { parts := elements.flatMap (·.parts), shape := .tuple }

def qualifiedName : Parser Unit := do
  let _ ← anyWord
  iterate () fun _ => do
    if ← takeMark "." then
      match ← peek with
      | .privateName _ => advance
      | _ => let _ ← anyWord
      return .inl ()
    else return .inr ()

def importType (r : Rules) : Parser (List Node) := do
  expectWord "import"
  expectOpening .round
  let source ← r.type
  let options ←
    if (← takeMark ",") && !(← isClosing .round) then
      let inner ← r.operand
      let _ ← takeMark ","
      pure [inner]
    else pure []
  expectClosing .round
  if ← takeMark "." then qualifiedName
  return source ++ options ++ (← r.sameLineTypeArguments)

def templateType (r : Rules) : Parser (List Node) := do
  advance
  let first ← r.type
  iterate first fun parts => do
    unless ← isClosing .curly do giveUp
    place (scanTemplate false (← get).rest)
    match ← peek with
    | .template .tail _ =>
      advance
      return .inr parts
    | .template .middle _ =>
      advance
      return .inl (parts ++ (← r.type))
    | _ => giveUp

def typeReference (r : Rules) : Parser (List Node) := do
  qualifiedName
  r.sameLineTypeArguments

def typeQuery (r : Rules) : Parser (List Node) := do
  expectWord "typeof"
  if ← isWord "import" then r.importType else r.typeReference

def assertion (r : Rules) : Parser (List Node) := do
  advance
  let _ ← anyWord
  if ← takeWord "is" then r.type else return []

/-- A type that no operator joins and no bracket follows, `unmarked` by an exclamation mark. -/
def unmarkedType (r : Rules) : Parser ParsedType := do
  match ← peek with
  | .text _ | .number | .template .whole _ =>
    advance
    return { parts := [] }
  | .template .head _ => return { parts := ← r.templateType }
  | .mark "-" =>
    advance
    expectToken .number
    return { parts := [] }
  | .mark "?" =>
    advance
    match ← peek with
    | .mark "," | .mark ">" | .mark "=" | .mark "|" | .closing .curly | .closing .round =>
      return { parts := [] }
    | _ => return { parts := ← r.type }
  | .opening .curly =>
    return { parts := ← if ← startsMappedType then r.mappedType else r.typeMembers }
  | .opening .square => r.tupleType
  | .opening .round =>
    advance
    let inner ← r.shapedType
    expectClosing .round
    return inner
  | .word "typeof" => return { parts := ← r.typeQuery }
  | .word "import" => return { parts := ← r.importType }
  | .word "this" =>
    advance
    if (← isWord "is") && !(← onNewLine) then
      advance
      return { parts := ← r.type }
    else return { parts := [] }
  | .word "asserts" =>
    let isPredicate ← nextIs do
      let token ← peek
      return (token.isIdentifier || token == .word "this") && !(← onNewLine)
    return { parts := ← if isPredicate then r.assertion else r.typeReference }
  | _ => return { parts := ← r.typeReference }

/-- A type that no operator joins and no bracket follows; exclamation marks may come first. -/
def primaryType (r : Rules) : Parser ParsedType := do
  if ← isMark "!" then
    iterate () fun _ => do
      if ← takeMark "!" then return .inl ()
      else return .inr { parts := (← r.unmarkedType).parts }
  else r.unmarkedType

/-- The current token begins a type, as far as one token tells. -/
def beginsType (inParameter : Bool) : Parser Bool := do
  match ← peek with
  | .text _ | .number | .template .whole _ | .template .head _ => return true
  | .opening .curly | .opening .square => return true
  | .mark "-" => if inParameter then return false else nextIs (isToken .number)
  | .mark m => return ["<", "|", "&", "*", "?", "!", "..."].contains m
  | .word "function" => return !inParameter
  | token =>
    match token with
    | .word w =>
      return token.isIdentifier
        || ["void", "null", "this", "typeof", "new", "true", "false", "import"].contains w
    | _ => return false

/-- A type can begin here. After parentheses, a parameter will do as well. -/
def canBeginType : Parser Bool := do
  unless ← isOpening .round do return ← beginsType false
  lookAhead <| iterate () fun _ => do
    advance
    let token ← peek
    if token == .opening .round then return .inl ()
    return .inr (token == .closing .round || token.isBindable || token.isModifier
      || token == .mark "@" || (← beginsType false))

/-- A primary type with what may follow it: brackets, and marks that let or forbid it to be null. A
question mark before what can be a type belongs to a conditional type. -/
def suffixedType (r : Rules) : Parser ParsedType := do
  let first ← r.primaryType
  iterate first fun subject => do
    if ← onNewLine then return .inr subject
    match ← peek with
    | .opening .square =>
      advance
      if ← takeClosing .square then return .inl { parts := subject.parts, shape := .array }
      let index ← r.type
      expectClosing .square
      return .inl { parts := subject.parts ++ index }
    | .mark "!" =>
      advance
      return .inl { parts := subject.parts }
    | .mark "?" =>
      if ← nextIs canBeginType then return .inr subject
      advance
      return .inl { parts := subject.parts, shape := .nullable }
    | _ => return .inr subject

/-- The bound of an inferred type, unless it is the test of a conditional type. -/
def inferredBound (r : Rules) : Parser (List Node) := do
  let bound ← attempt do
    expectWord "extends"
    let bound ← inSetting (fun s => { s with plainTypesOnly := true }) r.type
    if !(← read).plainTypesOnly && (← isMark "?") then giveUp
    return bound
  return bound.getD []

/-- A type with the words before it that act on it; `readonly` acts on arrays and tuples only. -/
def operatorType (r : Rules) : Parser ParsedType := do
  let words ← iterate [] fun words => do
    match ← peek with
    | .word word =>
      if ["keyof", "unique", "readonly"].contains word then
        advance
        return .inl (word :: words)
      else return .inr words
    | _ => return .inr words
  let inner ←
    if ← takeWord "infer" then
      let _ ← variableName
      pure { parts := ← r.inferredBound }
    else inSetting (fun s => { s with plainTypesOnly := false }) r.suffixedType
  match words with
  | [] => return inner
  | last :: before =>
    let isList := inner.shape == .array || inner.shape == .tuple
    recordIf ((last == "readonly" && !isList) || before.contains "readonly")
    return { parts := inner.parts }

/-- Types joined by a mark, with the mark allowed in front. -/
def joinedType (mark : String) (item : Parser ParsedType) : Parser ParsedType := do
  let isLed ← takeMark mark
  let first ← item
  if !isLed && !(← isMark mark) then return first
  iterate first.parts fun parts => do
    if ← takeMark mark then return .inl (parts ++ (← item).parts)
    else return .inr { parts }

def unionType (r : Rules) : Parser ParsedType := joinedType "|" (joinedType "&" r.operatorType)

def typeRule (r : Rules) : Parser ParsedType := do
  if ← r.startsFunctionType then return { parts := ← r.functionType }
  let subject ← r.unionType
  if !(← read).plainTypesOnly && !(← onNewLine) && (← isWord "extends") then
    advance
    let test ← inSetting (fun s => { s with plainTypesOnly := true }) r.type
    expectMark "?"
    let whenTrue ← inSetting (fun s => { s with plainTypesOnly := false }) r.type
    expectMark ":"
    let whenFalse ← inSetting (fun s => { s with plainTypesOnly := false }) r.type
    return { parts := subject.parts ++ test ++ whenTrue ++ whenFalse }
  else return subject

/-! ### Type arguments in expressions -/

/-- What may follow type arguments for `a<b>` not to be two comparisons. -/
def canFollowTypeArguments : Parser Bool := do
  match ← peek with
  | .opening .round | .template .whole _ | .template .head _ => return true
  | .mark "<" | .mark ">" | .mark "+" | .mark "-" => return false
  | token =>
    if ← onNewLine then return true
    if token.isBinaryOperator then return true
    match token with
    | .word word => return word == "as" || word == "satisfies" || ["in", "instanceof", "case",
        "catch", "const", "continue", "debugger", "default", "do", "else", "enum", "export",
        "extends", "finally", "for", "if", "return", "switch", "throw", "try", "var", "while",
        "with", "break"].contains word
    | .text _ | .number | .privateName _ | .opening _ => return false
    | .mark "!" | .mark "~" | .mark "++" | .mark "--" | .mark "/" | .mark "/=" | .mark "@" =>
      return false
    | _ => return true

/-- Type arguments after an expression, if that is how the angles are to be read. -/
def expressionTypeArguments? (r : Rules) : Parser (Option (List Node)) := do
  match ← peek with
  | .mark "<" | .mark "<<" =>
    unless ← isTypescript do return none
    attempt do
      splitAngles
      expectMark "<"
      let (args, _) ← commaList (isMark ">") r.type
      unless ← isMark ">" do giveUp
      if (← get).rest.head? == some '=' then giveUp
      advance
      unless ← canFollowTypeArguments do giveUp
      recordIf args.isEmpty
      return args.flatten
  | _ => return none

end Rules

end WorkflowAnalysis.Syntax
