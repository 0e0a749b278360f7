import WorkflowAnalysis.Syntax.Grammar.Functions
import WorkflowAnalysis.Syntax.Grammar.Markup
import WorkflowAnalysis.Syntax.Shape

/-! Expressions. Parentheses leave no trace in the tree. Array and object literals are read at once as
values and as assignment patterns. -/
namespace WorkflowAnalysis.Syntax

open Syntax.Parser

namespace Target

def assignable : Target → Option Cover
  | simple node => some { node }
  | pattern cover => some cover
  | none | withDefault _ _ => .none

def element : Target → Option Cover
  | withDefault node isPlain => some { node, errors := (!isPlain).toNat }
  | other => other.assignable

def isPattern : Target → Bool
  | pattern _ => true
  | _ => false

/-- The target that an expression under types is: a name or a member, however many types there are. -/
def ofTyped (typed : Node) : Target :=
  match typed.untyped with
  | .identifier _ | .member _ _ | .index _ _ | .privateMember _ _ => simple typed
  | _ => none

end Target

def Cover.settle (cover : Cover) : Parser Node := do
  modify fun s => { s with loose := s.loose - cover.loose, errors := s.errors + cover.errors }
  return cover.node

/-- An element of an array or object literal: as a value, and as part of a pattern if it can be. -/
structure Element where
  node : Node
  target : Option Cover
  isSpread : Bool := false

/-- A literal read as a pattern. A spread element has to be the last one, and it is an error to let a
comma follow it. -/
def patternOf (elements : List Element) (hasComma : Bool) : Target :=
  if elements.dropLast.any (·.isSpread) then .none
  else match elements.mapM (·.target) with
    | some covers =>
      let endsInSpread := (elements.getLast?.map (·.isSpread)).getD false
      .pattern {
        node := .group (covers.map (·.node))
        loose := covers.foldl (fun total cover => total + cover.loose) 0
        errors := covers.foldl (fun total cover => total + cover.errors)
          (endsInSpread && hasComma).toNat }
    | none => .none

namespace Rules

/-- `...` and what is spread. The rest of an object is not to be taken apart any further. -/
def spread (r : Rules) (inObject : Bool) : Parser Element := do
  expectMark "..."
  let inner ← allowIn r.assignment
  let isError := inObject && inner.target.isPattern
  let target := inner.target.assignable.map fun cover =>
    { cover with errors := cover.errors + isError.toNat }
  return { node := .spread inner.node, target, isSpread := true }

/-! ### Literals -/

def arrayLiteral (r : Rules) : Parser Parsed := do
  expectOpening .square
  let item : Parser Element := do
    if ← isMark "," then return { node := .group [], target := some { node := .group [] } }
    if ← isMark "..." then return ← r.spread false
    let inner ← allowIn r.assignment
    return { node := inner.node, target := inner.target.element }
  let (elements, hasComma) ← commaList (isClosing .square) item
  expectClosing .square
  return { node := .group (elements.map (·.node)), target := patternOf elements hasComma }

/-- `name` alone, or with a default that only a pattern can have. -/
def shorthand (r : Rules) (name : String) : Parser Element := do
  let value := Node.identifier name
  if ← takeMark "=" then
    let default ← r.operand
    modify fun s => { s with loose := s.loose + 1 }
    return {
      node := .property (some name) [] value
      target := some { node := .group [value, default], loose := 1 } }
  else return { node := .property (some name) [] value, target := some { node := value } }

def methodMember (r : Rules) (capacity : Capacity) (key : Key) (isAsync isGenerator : Bool) :
    Parser Element := do
  let function ← r.functionTail capacity .expression none isAsync isGenerator
  return { node := .property key.name key.parts function, target := none }

def objectMember (r : Rules) : Parser Element := do
  if ← isMark "..." then return ← r.spread true
  let found ← modifiers false false
  if ← takeAccessor "get" then
    allowOnly [] found
    return ← r.methodMember (.getter false) (← r.key) false false
  if ← takeAccessor "set" then
    allowOnly [] found
    return ← r.methodMember (.setter false) (← r.key) false false
  let isGenerator ← takeMark "*"
  let setting ← read
  let isName := match ← peek with
    | .word "await" => !setting.inAsync
    | .word "yield" => !setting.inGenerator
    | token => token.isIdentifier
  let key ← r.key
  if isGenerator || (← startsSignature) then
    allowOnly ["async"] found
    return ← r.methodMember .plain key (found.contains "async") isGenerator
  allowOnly [] found
  if isName && !(← isMark ":") then
    match key.name with
    | some name => r.shorthand name
    | none => giveUp
  else
    expectMark ":"
    let value ← allowIn r.assignment
    let target := value.target.element.map fun cover =>
      { cover with node := .group (key.parts ++ [cover.node]) }
    return { node := .property key.name key.parts value.node, target }

def objectLiteral (r : Rules) : Parser Parsed := do
  expectOpening .curly
  let (elements, hasComma) ← commaList (isClosing .curly) r.objectMember
  expectClosing .curly
  return { node := .object (elements.map (·.node)), target := patternOf elements hasComma }

/-- A template; after a tag, escapes without meaning are allowed in it. -/
def templateLiteral (r : Rules) (isTagged : Bool) : Parser Node := do
  match ← peek with
  | .template .whole cooked =>
    if cooked.isNone && !isTagged then record
    advance
    return .template cooked []
  | .template .head cooked =>
    if cooked.isNone && !isTagged then record
    advance
    let first ← allowIn r.expression
    let parts ← iterate [first.node] fun parts => do
      unless ← isClosing .curly do giveUp
      place (scanTemplate false (← get).rest)
      match ← peek with
      | .template .tail cooked =>
        if cooked.isNone && !isTagged then record
        advance
        return .inr parts.reverse
      | .template .middle cooked =>
        if cooked.isNone && !isTagged then record
        advance
        return .inl ((← allowIn r.expression).node :: parts)
      | _ => giveUp
    return .template none parts
  | _ => giveUp

/-- A regular expression, begun by the current slash. It is refused after any error of scanning. -/
def regexLiteral : Parser Node := do
  let state ← get
  let text := if state.token == .mark "/=" then '=' :: state.rest else state.rest
  match dropRegex text with
  | some rest =>
    if state.faults != 0 then giveUp
    advanceFrom rest
    return .group []
  | none => giveUp

/-! ### Primary expressions -/

def argumentList (r : Rules) : Parser (List Node) :=
  allowIn do
    expectOpening .round
    let item := do
      if ← isMark "..." then return (← r.spread false).node else return (← r.assignment).node
    let (args, _) ← commaList (isClosing .round) item
    expectClosing .round
    return args

/-- Arguments of a call: what restricts a decorator ends at the parenthesis. -/
def arguments (r : Rules) : Parser (List Node) :=
  inSetting (fun s => { s with inDecorator := false }) r.argumentList

def parenthesizedExpression (r : Rules) : Parser Parsed :=
  inSetting (fun s => { s with inOperator := true, inDecorator := false }) do
    expectOpening .round
    let inner ← r.expression
    expectClosing .round
    return inner

/-- `import(…)` and `import.meta`. -/
def importExpression (r : Rules) : Parser Parsed := do
  advance
  if ← takeMark "." then
    match ← peek with
    | .word "meta" =>
      advance
      return { node := .group [] }
    | .word "source" | .word "defer" =>
      advance
      unless ← isOpening .round do giveUp
    | _ => giveUp
  inSetting (fun s => { s with inOperator := true, inDecorator := false }) do
    expectOpening .round
    let source ← r.assignment
    let hasOptions := (← takeMark ",") && !(← isClosing .round)
    let options ← if hasOptions then pure [(← r.assignment).node] else pure []
    if hasOptions then
      let _ ← takeMark ","
    expectClosing .round
    return { node := .group (source.node :: options), form := .importCall }

def superExpression : Parser Node := do
  advance
  match ← peek with
  | .mark "." | .opening .square | .opening .round => return .group []
  | _ =>
    record
    return .group []

def wordExpression (r : Rules) (word : String) : Parser Parsed := do
  match word with
  | "function" => return { node := ← r.functionRule .expression .list false false }
  | "class" => return { node := ← r.classRule .expression false [] [] }
  | "this" =>
    advance
    return { node := .this }
  | "null" | "true" | "false" =>
    advance
    return { node := .group [] }
  | "new" => return { node := ← r.construct }
  | "super" => return { node := ← superExpression }
  | "import" => r.importExpression
  | _ =>
    if ← startsAsyncFunction then
      return { node := ← r.functionRule .expression .list false false }
    let name ← variableName
    return { node := .identifier name, target := .simple (.identifier name) }

def primary (r : Rules) : Parser Parsed := do
  match ← peek with
  | .word word => r.wordExpression word
  | .text value =>
    advance
    return { node := .string value }
  | .number =>
    advance
    return { node := .group [] }
  | .template _ _ => return { node := ← r.templateLiteral false }
  | .opening .round => r.parenthesizedExpression
  | .opening .square => r.arrayLiteral
  | .opening .curly => r.objectLiteral
  | .mark "/" | .mark "/=" => return { node := ← regexLiteral }
  | .mark "@" =>
    let marks ← r.decorators
    let found ← modifiers false false
    return { node := ← r.classRule .expression false marks found }
  | .mark "<" =>
    if (← read).dialect.markup then return { node := ← r.markup false } else giveUp
  | _ => giveUp

/-! ### Members and calls -/

structure Subject where
  parsed : Parsed
  chained : Bool := false

namespace Subject

def withMember (s : Subject) (node : Node) : Subject :=
  { s with parsed := { node, target := if s.chained then .none else .simple node } }

def withMark (s : Subject) : Subject :=
  let node := Node.typed [] s.parsed.node []
  { s with parsed := { node, target := if s.chained then .none else .ofTyped node } }

def withTypes (s : Subject) (types : List Node) : Subject :=
  { s with
    parsed := { node := .typed [] s.parsed.node types, applied := some (s.parsed.node, types) } }

end Subject

/-- The property after a point, which may not follow type arguments. -/
def memberAccess (s : Subject) : Parser Subject := do
  recordIf s.parsed.applied.isSome
  let object := s.parsed.node
  match ← peek with
  | .privateName name =>
    advance
    return s.withMember (.privateMember object name)
  | _ => return s.withMember (.member object (← anyWord))

def indexAccess (r : Rules) (s : Subject) : Parser Subject := do
  expectOpening .square
  let key ← inSetting (fun c => { c with inDecorator := false }) (allowIn r.expression)
  expectClosing .square
  return s.withMember (.index s.parsed.node key.node)

/-- Adds members, templates, non-null marks and type arguments, as long as there are any. -/
def members (r : Rules) (allowChain : Bool) (start : Subject) : Parser Subject :=
  iterate start fun s => do
    match ← peek with
    | .mark "." =>
      advance
      return .inl (← memberAccess s)
    | .mark "?." =>
      unless allowChain do return .inr s
      let goesOn ← nextIs do
        match ← peek with
        | .word _ | .privateName _ | .opening .square | .template .whole _ | .template .head _ =>
          return true
        | _ => return false
      unless goesOn do return .inr s
      advance
      let chained := { s with chained := true }
      if ← isOpening .square then return .inl (← r.indexAccess chained)
      if ← isTemplateStart then return .inl chained
      return .inl (← memberAccess chained)
    | .opening .square =>
      if (← read).inDecorator then return .inr s
      return .inl (← r.indexAccess s)
    | .template .whole _ | .template .head _ =>
      let quoted ← r.templateLiteral true
      recordIf s.chained
      return .inl { s with parsed := { node := .group [s.parsed.node, quoted] } }
    | .mark "!" =>
      if !(← isTypescript) || (← onNewLine) then return .inr s
      advance
      return .inl s.withMark
    | _ =>
      match ← r.expressionTypeArguments? with
      | some types => return .inl (s.withTypes types)
      | none => return .inr s

/-- Adds members and calls, as long as there are any. A call takes over the type arguments before
it. No template may follow an optional access. -/
def calls (r : Rules) (start : Subject) : Parser Subject :=
  iterate start fun before => do
    let s ← r.members true before
    let isOptional ← takeMark "?."
    let types ← if isOptional then r.expressionTypeArguments? else pure none
    if isOptional && (← isTemplateStart) then
      record
      let quoted ← r.templateLiteral true
      let node := Node.group (s.parsed.node :: types.getD [] ++ [quoted])
      return .inl { parsed := { node }, chained := true }
    if ← isOpening .round then
      let args ← r.arguments
      if isOptional then
        let node := Node.call s.parsed.node (types.getD []) args
        return .inl { parsed := { node }, chained := true }
      else
        let (callee, types) := s.parsed.callee
        return .inl { s with parsed := { node := .call callee types args } }
    else if isOptional then giveUp
    else return .inr s

/-- Lays the mark of an optional chain around an expression that is a link of one. -/
def chainOf (node : Node) : Node :=
  match node with
  | .member _ _ | .index _ _ | .privateMember _ _ | .call _ _ _ | .typed _ _ _ => .chain node
  | _ => node

/-- An expression of members and calls. One that ends in type arguments is no link of a chain. -/
def leftHandRule (r : Rules) : Parser Parsed := do
  let s ← r.calls { parsed := ← r.primary }
  if s.chained && s.parsed.applied.isNone then return { node := chainOf s.parsed.node }
  else return s.parsed

def heritageRule (r : Rules) : Parser (Node × List Node) := do
  let parsed ← r.leftHandRule
  match parsed.applied with
  | some applied => return applied
  | none => return (parsed.node, ← r.typeArguments?)

/-- `new` with a callee and perhaps arguments, or `new.target`. A decorator restricts the arguments as
well, and what `import` loads cannot be created. -/
def constructRule (r : Rules) : Parser Node := do
  expectWord "new"
  if ← takeMark "." then
    expectWord "target"
    return .group []
  let callee ← r.members false { parsed := ← r.primary }
  let args ← if ← isOpening .round then r.argumentList
    else if ← isMark "?." then giveUp
    else pure []
  recordIf (callee.parsed.form == .importCall)
  let (callee, types) := callee.parsed.callee
  return .construct callee types args

/-! ### Operators -/

def unaryMarks : List String := ["+", "-", "~", "!"]

def isUnaryOperator : Token → Bool
  | .mark m => unaryMarks.contains m
  | .word w => unaryWords.contains w
  | _ => false

/-- The word at hand is an operator here, or looks like one by what follows it. -/
def actsAsOperator (allowed : Bool) : Parser Bool := do
  if allowed then return true
  nextIs (return !(← onNewLine) && (← peek).followsAwait)

def awaitExpression (r : Rules) : Parser Parsed := do
  unless (← read).inAsync do record
  advance
  let inner ← inSetting (fun s => { s with inAsync := true }) r.unary
  return { node := .group [inner.node], form := .unary }

def castExpression (r : Rules) : Parser Parsed := do
  expectMark "<"
  let types ← r.type
  expectMark ">"
  let inner ← r.unary
  let node := Node.typed types inner.node []
  return { node, target := .ofTyped node }

def updateOf (parsed : Parsed) : Parser Parsed := do
  match parsed.target with
  | .simple node => return { node := .group [node] }
  | _ => giveUp

def updateExpression (r : Rules) : Parser Parsed := do
  if (← takeMark "++") || (← takeMark "--") then
    updateOf (← r.unary)
  else
    let inner ← r.leftHandRule
    if ((← isMark "++") || (← isMark "--")) && !(← onNewLine) then
      advance
      updateOf inner
    else return inner

def unaryRule (r : Rules) : Parser Parsed := do
  let token ← peek
  if isUnaryOperator token then
    advance
    return { node := .group [(← r.unary).node], form := .unary }
  match token with
  | .mark "<" =>
    let dialect ← dialect
    if dialect.markup then return { node := ← r.markup false }
    if dialect.typescript then return ← r.castExpression
    giveUp
  | .word "await" =>
    if ← actsAsOperator (← read).inAsync then r.awaitExpression else r.updateExpression
  | _ => r.updateExpression

/-- What an operator makes of its operands, of which some may begin with a parenthesis. Unless they do,
`??` does not mix with other logical operators, and `**` follows no operator before its operand. -/
def combine (operator : Token) (left : Parsed) (leftIsWrapped : Bool) (right : Parsed)
    (rightIsWrapped : Bool) : Parser Parsed := do
  match operator with
  | .mark "??" =>
    recordIf ((left.form == .logical && !leftIsWrapped) || (right.form == .logical && !rightIsWrapped))
  | .mark "**" => recordIf (left.form == .unary && !leftIsWrapped)
  | _ => pure ()
  let isLogical := operator == .mark "&&" || operator == .mark "||"
  return { node := .group [left.node, right.node], form := if isLogical then .logical else .other }

/-- The operators after an operand that bind tighter than `level`; the operand may begin with a
parenthesis. -/
def binaryRest (r : Rules) (level : Nat) (isWrapped : Bool) (start : Parsed) : Parser Parsed :=
  iterate start fun left => do
    joinAngles
    let token ← peek
    match binaryLevel token with
    | none => return .inr left
    | some strength =>
      let binds := if strength == 13 then level ≤ strength else level < strength
      unless binds do return .inr left
      if token == .word "in" && !(← read).inOperator then return .inr left
      if token == .word "as" || token == .word "satisfies" then
        if ← onNewLine then return .inr left
        advance
        let types ← r.type
        recordIf !(← isTypescript)
        let node := Node.typed [] left.node types
        return .inl { node, target := .ofTyped node }
      advance
      let rightIsWrapped ← isOpening .round
      let right ← r.binary strength
      return .inl (← combine token left isWrapped right rightIsWrapped)

def comparisonLevel : Nat := 9

/-- An operand and the operators after it that bind tighter than `level`. A private name is an operand
only on the left of `in`, where a comparison may stand. -/
def binaryRule (r : Rules) (level : Nat) : Parser Parsed := do
  match ← peek with
  | .privateName _ =>
    unless (← read).inOperator && level < comparisonLevel do giveUp
    advance
    expectWord "in"
    let right ← r.binary comparisonLevel
    r.binaryRest level false { node := .group [right.node] }
  | token => r.binaryRest level (token == .opening .round) (← r.unary)

/-! ### Arrow functions -/

/-- What a look at the first tokens tells about a parenthesis. -/
inductive Guess where
  | no
  | yes
  | maybe

/-- What follows `(` and is not `)`. -/
def guessParameters : Parser Guess := do
  let second ← peek
  match second with
  | .opening .square | .opening .curly => return .maybe
  | .mark "..." =>
    advance
    let third ← peek
    if third.isLiteral then return .no
    return if third.isIdentifier then .yes else .maybe
  | _ =>
    advance
    let third ← peek
    if second.isModifier && second != .word "async" && third.isIdentifier then
      return if third == .word "as" then .no else .yes
    unless second.isIdentifier || second == .word "this" do return .no
    match third with
    | .mark ":" => return .yes
    | .mark "?" =>
      advance
      match ← peek with
      | .mark ":" | .mark "," | .mark "=" | .closing .round => return .yes
      | _ => return .no
    | .mark "," | .mark "=" | .closing .round => return .maybe
    | _ => return .no

/-- What follows `<`. Where markup is enabled, only what no tag can be begins type parameters. -/
def guessGenerics : Parser Guess := do
  let second ← peek
  unless second.isIdentifier || second == .word "const" do return .no
  let dialect ← dialect
  unless dialect.markup do return if dialect.typescript then .maybe else .no
  advance
  match ← peek with
  | .word "extends" =>
    advance
    match ← peek with
    | .mark "=" | .mark ">" | .mark "/" => return .no
    | _ => return .maybe
  | .mark "," | .mark "=" => return .maybe
  | .word _ => return if second == .word "const" then .maybe else .no
  | _ => return .no

def guessArrow : Parser Guess := lookAheadOr .no do
  if ← takeWord "async" then
    if ← onNewLine then return .no
    unless (← isOpening .round) || (← isMark "<") do return .no
  match ← peek with
  | .opening .round =>
    advance
    if ← takeClosing .round then
      match ← peek with
      | .mark ":" => return if ← isTypescript then .maybe else .no
      | .mark "=>" | .opening .curly => return .yes
      | _ => return .no
    else guessParameters
  | .mark "<" =>
    advance
    guessGenerics
  | _ => return .no

structure ArrowHead where
  isAsync : Bool
  params : List Node
  hasResult : Bool

def expectArrow : Parser Unit := do
  unless ← isMark "=>" do giveUp
  recordIf (← onNewLine)
  advance

/-- What precedes the body of an arrow function, which takes `this` from outside. -/
def arrowHead (r : Rules) : Parser ArrowHead := do
  let isAsync ← takeWord "async"
  let params ← inSetting (fun s => { s with inAsync := s.inAsync || isAsync }) do
    let generics ← r.typeParameters
    let params ← allowIn (r.parameters .plain)
    recordIf params.receiver.isSome
    return generics ++ params.nodes
  let hasResult := (← isTypescript) && (← isMark ":")
  let result ← r.resultAscription
  expectArrow
  return { isAsync, params := params ++ result, hasResult }

def arrowBody (r : Rules) (head : ArrowHead) (returnType : Bool) : Parser Parsed :=
  inSetting (fun s => { s with inAsync := head.isAsync, inGenerator := false }) do
    if ← isOpening .curly then
      return { node := .arrow head.params (← allowIn r.functionBody) }
    else
      return { node := .arrow head.params [.expression (← r.assignmentWith returnType).node] }

/-- An arrow function that may turn out to be a parenthesis. Inside a conditional, a return type has
to leave a colon for the conditional itself. -/
def possibleArrow (r : Rules) (returnType : Bool) : Parser (Option Parsed) := do
  let state ← get
  let here := state.rest.length
  if state.notArrows.contains here then return none
  match ← attempt r.arrowHead with
  | none =>
    modify fun s => { s with notArrows := here :: s.notArrows }
    return none
  | some head =>
    let arrow ← r.arrowBody head returnType
    if !returnType && head.hasResult && !(← isMark ":") then
      set { state with notArrows := here :: (← get).notArrows }
      return none
    return some arrow

def parenthesizedArrow (r : Rules) (returnType : Bool) : Parser (Option Parsed) := do
  match ← peek with
  | .opening .round | .mark "<" | .word "async" =>
    match ← guessArrow with
    | .no => return none
    | .yes => return some (← r.arrowBody (← r.arrowHead) returnType)
    | .maybe => r.possibleArrow returnType
  | _ => return none

/-- `async x =>`. -/
def startsAsyncArrow : Parser Bool := do
  unless ← isWord "async" do return false
  nextIs do
    if (← onNewLine) || !(← peek).isBindable then return false
    advance
    return (← isMark "=>") && !(← onNewLine)

/-- An arrow function with a bare name for a parameter, from its arrow on. -/
def simpleArrow (r : Rules) (name : String) (isAsync returnType : Bool) : Parser Parsed := do
  expectArrow
  r.arrowBody { isAsync, params := [.binding name], hasResult := false } returnType

/-! ### Assignments -/

def yieldExpression (r : Rules) : Parser Parsed := do
  let allowed := (← read).inGenerator
  unless allowed do record
  advance
  if ← onNewLine then return { node := .group [] }
  let delegates ← takeMark "*"
  let isBare := match ← peek with
    | .mark ";" | .mark ":" | .mark "," | .closing _ | .endOfText | .word "in" => true
    | _ => false
  if isBare && !delegates then return { node := .group [] }
  let inner ← inSetting (fun s => { s with inGenerator := true }) r.assignment
  return { node := .group [inner.node] }

/-- An assignment from its operator on. A pattern on the left may not stand in parentheses. -/
def assignTo (r : Rules) (left : Parsed) (operator : AssignOperator) (isWrapped returnType : Bool) :
    Parser Parsed := do
  recordIf (isWrapped && left.target.isPattern)
  match left.target.assignable with
  | some cover =>
    let target ← cover.settle
    advance
    let value := (← r.assignmentWith returnType).node
    let asTarget := .withDefault (.group [target, value]) (operator == .plain)
    return { node := .assign operator target value, target := asTarget }
  | none => giveUp

def conditional (r : Rules) (test : Parsed) (returnType : Bool) : Parser Parsed := do
  if ← takeMark "?" then
    let whenTrue ← allowIn (r.assignmentWith false)
    expectMark ":"
    let whenFalse ← r.assignmentWith returnType
    return { node := .group [test.node, whenTrue.node, whenFalse.node] }
  else return test

def assignmentRule (r : Rules) (returnType : Bool) : Parser Parsed := do
  if ← isWord "yield" then
    if ← actsAsOperator (← read).inGenerator then return ← r.yieldExpression
  if let some arrow ← r.parenthesizedArrow returnType then return arrow
  if ← startsAsyncArrow then
    advance
    let name ← variableName
    return ← r.simpleArrow name true returnType
  let isWrapped ← isOpening .round
  let left ← r.binary 0
  match left.node, ← peek with
  | .identifier name, .mark "=>" => r.simpleArrow name false returnType
  | _, token =>
    match token.assignment? with
    | some operator => r.assignTo left operator isWrapped returnType
    | none => r.conditional left returnType

end Rules

end WorkflowAnalysis.Syntax
