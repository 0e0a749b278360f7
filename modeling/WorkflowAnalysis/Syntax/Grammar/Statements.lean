import WorkflowAnalysis.Syntax.Grammar.Expressions

/-! Statements and declarations. -/
namespace WorkflowAnalysis.Syntax

open Syntax.Parser

namespace Rules

/-! ### Variables -/

/-- A variable with its type and value. A name may be marked as definitely assigned, which calls for a
type and no value; no variable is optional. -/
def declarator (r : Rules) : Parser Node := do
  let target ← r.pattern
  let typed ← isTypescript
  let isDefinite ← do
    match target with
    | .binding _ => if typed && !(← onNewLine) then takeMark "!" else pure false
    | _ => pure false
  if typed then recordIf (← takeMark "?")
  let hasType ← isMark ":"
  let types ← r.ascription
  let value ← if ← takeMark "=" then pure (some (← r.assignment).node) else pure none
  recordIf (isDefinite && (!hasType || value.isSome))
  return .declarator target types value

def declarators (r : Rules) : Parser (List Node) := do
  let first ← r.declarator
  iterate [first] fun found => do
    if ← takeMark "," then return .inl ((← r.declarator) :: found) else return .inr found.reverse

/-- A declarator without the value that a constant and a pattern need. -/
def lacksValue (kind : VariableKind) : Node → Bool
  | .declarator (.binding _) _ none => kind == .constant
  | .declarator _ _ none => true
  | _ => false

/-- Records values that are missing, unless they are defined elsewhere. -/
def checkValues (kind : VariableKind) (declared : List Node) : Parser Unit := do
  recordIf (declared.any (lacksValue kind) && !(← read).isAmbient)

def variableStatement (r : Rules) (kind : VariableKind) : Parser Node := do
  let declared ← allowIn r.declarators
  semicolon
  checkValues kind declared
  return .variableDeclaration kind declared

/-- After `let` at the head of a loop, a declaration follows. -/
def followsLet : Parser Bool := do
  match ← peek with
  | .opening .curly | .opening .square => return true
  | .word "in" | .word "instanceof" => return false
  | .word "of" =>
    nextIs do
      match ← peek with
      | .mark "=" | .mark ";" | .mark "," | .mark ":" | .word "of" | .word "in" => return true
      | _ => return false
  | .word _ => return true
  | _ => return false

/-- `using` or `await using` with a name after it. -/
def startsUsing (inHead : Bool) : Parser Bool := lookAhead do
  if ← takeWord "await" then
    if ← onNewLine then return false
  unless ← takeWord "using" do return false
  if (← onNewLine) || !(← peek).isBindable then return false
  if inHead && (← isWord "of") then
    advance
    match ← peek with
    | .mark "=" | .mark ";" | .mark ":" => return true
    | _ => return false
  else return true

def takeUsing : Parser Unit := do
  let _ ← takeWord "await"
  expectWord "using"

/-- A resource has a name, and outside the head of a loop a value. -/
def isResource (inHead : Bool) : Node → Bool
  | .declarator (.binding _) _ value => inHead || value.isSome
  | _ => false

def usingStatement (r : Rules) : Parser Node := do
  takeUsing
  let declared ← allowIn r.declarators
  semicolon
  recordIf !(declared.all (isResource false))
  return .variableDeclaration .other declared

/-! ### Simple statements -/

def block (r : Rules) : Parser (List Node) := do
  expectOpening .curly
  let body ← manyUntil (isClosing .curly) (r.statement .list)
  expectClosing .curly
  return body

def ifStatement (r : Rules) : Parser Node := do
  advance
  let test ← r.parenthesized
  let whenTrue ← r.statement .single
  let whenFalse ← if ← takeWord "else" then pure [← r.statement .single] else pure []
  return .group ([test, whenTrue] ++ whenFalse)

def doStatement (r : Rules) : Parser Node := do
  advance
  let body ← r.statement .single
  expectWord "while"
  let test ← r.parenthesized
  let _ ← takeMark ";"
  return .group [body, test]

/-- `while (test) body`, and `with` likewise. -/
def whileStatement (r : Rules) : Parser Node := do
  advance
  let test ← r.parenthesized
  return .group [test, ← r.statement .single]

def jumpStatement : Parser Node := do
  advance
  unless ← mayEndStatement do
    let _ ← variableName
  semicolon
  return .group []

def returnStatement (r : Rules) : Parser Node := do
  recordIf !(← read).mayReturn
  advance
  if (← takeMark ";") || (← mayEndStatement) then return .group []
  let value ← allowIn r.expression
  semicolon
  return .group [value.node]

def throwStatement (r : Rules) : Parser Node := do
  advance
  recordIf (← onNewLine)
  let value ← r.expression
  semicolon
  return .group [value.node]

def switchCase (r : Rules) : Parser Node := do
  let test ←
    if ← takeWord "default" then pure []
    else
      expectWord "case"
      pure [(← allowIn r.expression).node]
  expectMark ":"
  let isEnd := do return (← isWord "case") || (← isWord "default") || (← isClosing .curly)
  return .group (test ++ (← manyUntil isEnd (r.statement .list)))

def switchStatement (r : Rules) : Parser Node := do
  advance
  let subject ← r.parenthesized
  expectOpening .curly
  let cases ← manyUntil (isClosing .curly) r.switchCase
  expectClosing .curly
  return .group (subject :: cases)

def catchClause (r : Rules) : Parser (List Node) := do
  let param ←
    if ← takeOpening .round then
      let target ← r.pattern
      let types ← r.ascription
      expectClosing .round
      pure (target :: types)
    else pure []
  return param ++ (← r.block)

def tryStatement (r : Rules) : Parser Node := do
  advance
  let body ← r.block
  let hasCatch ← takeWord "catch"
  let handler ← if hasCatch then r.catchClause else pure []
  let hasFinally ← takeWord "finally"
  let finalizer ← if hasFinally then r.block else pure []
  recordIf !(hasCatch || hasFinally)
  return .group (body ++ handler ++ finalizer)

/-! ### Loops over a head in parentheses -/

def loopBody (r : Rules) (head : List Node) : Parser Node := do
  expectClosing .round
  return .group (head ++ [← r.statement .single])

/-- The head of a counting loop from its first semicolon on; nothing is awaited in it. -/
def countingLoop (r : Rules) (awaits : Bool) (start : List Node) : Parser Node := do
  recordIf awaits
  expectMark ";"
  let test ←
    if (← isMark ";") || (← isClosing .round) then pure []
    else pure [(← allowIn r.expression).node]
  expectMark ";"
  let update ← if ← isClosing .round then pure [] else pure [(← allowIn r.expression).node]
  r.loopBody (start ++ test ++ update)

/-- A loop over keys or values from the word after its first clause on; keys are not awaited. -/
def loopOver (r : Rules) (awaits : Bool) (start : Node) : Parser Node := do
  if ← takeWord "in" then
    recordIf awaits
    r.loopBody [start, (← allowIn r.expression).node]
  else
    expectWord "of"
    r.loopBody [start, (← allowIn r.assignment).node]

def loopOverDeclaration (r : Rules) (awaits : Bool) (kind : VariableKind) : Parser Node := do
  let declared ← inSetting (fun s => { s with inOperator := false }) r.declarators
  let start := Node.variableDeclaration kind declared
  if (← isWord "in") || (← isWord "of") then r.loopOver awaits start
  else
    checkValues kind declared
    r.countingLoop awaits [start]

/-- A loop that begins with a resource, which is no key. -/
def loopOverResource (r : Rules) (awaits : Bool) : Parser Node := do
  takeUsing
  let declared ← inSetting (fun s => { s with inOperator := false }) r.declarators
  let start := Node.variableDeclaration .other declared
  recordIf (!(declared.all (isResource true)) || (← isWord "in"))
  if (← isWord "in") || (← isWord "of") then r.loopOver awaits start
  else r.countingLoop awaits [start]

/-- A loop whose first clause is an expression: before `in` and `of` it is an assignment target. Before
`of` it may not begin with `let`, and unless the loop awaits it may not be `async`. -/
def loopOverExpression (r : Rules) (awaits : Bool) : Parser Node := do
  let state ← get
  let start ← inSetting (fun s => { s with inOperator := false }) r.expression
  if (← isWord "in") || (← isWord "of") then
    if ← isWord "of" then
      let isAsync := match start.node with
        | .identifier "async" => state.token == .word "async" && !state.escaped
        | _ => false
      recordIf (state.token == .word "let" || (isAsync && !awaits))
    match start.target.assignable with
    | some cover => r.loopOver awaits (← cover.settle)
    | none => giveUp
  else r.countingLoop awaits [start.node]

def forStatement (r : Rules) : Parser Node := do
  advance
  let awaits ← isWord "await"
  if awaits then
    recordIf !(← read).inAsync
    advance
  expectOpening .round
  match ← peek with
  | .mark ";" => r.countingLoop awaits []
  | .word "var" =>
    advance
    r.loopOverDeclaration awaits .other
  | .word "const" =>
    advance
    r.loopOverDeclaration awaits .constant
  | .word "let" =>
    if ← nextIs followsLet then
      advance
      r.loopOverDeclaration awaits .other
    else r.loopOverExpression awaits
  | .word "using" | .word "await" =>
    if ← startsUsing true then r.loopOverResource awaits else r.loopOverExpression awaits
  | _ => r.loopOverExpression awaits

/-! ### Typed declarations -/

def isNamePath : Node → Bool
  | .identifier _ => true
  | .member subject _ => isNamePath subject
  | _ => false

/-- What an interface extends, any number of types that are called by name, in one clause. -/
def interfaceHeritage (r : Rules) : Parser (List Node) :=
  iterate [] fun found => do
    if ← takeWord "extends" then
      recordIf !found.isEmpty
      let named : Parser (List Node) := do
        let (base, args) ← r.heritage
        recordIf !(isNamePath base)
        return base :: args
      let first ← named
      let all ← iterate first fun all => do
        if ← takeMark "," then return .inl (all ++ (← named)) else return .inr all
      return .inl (found ++ all)
    else if ← takeWord "implements" then
      record
      let first ← r.implemented
      let all ← iterate first fun all => do
        if ← takeMark "," then return .inl (all ++ (← r.implemented)) else return .inr all
      return .inl (found ++ all)
    else return .inr found

def interfaceDeclaration (r : Rules) : Parser Node := do
  advance
  let _ ← variableName
  let generics ← r.typeParameters
  let bases ← r.interfaceHeritage
  return .group (generics ++ bases ++ (← r.typeMembers))

def typeAlias (r : Rules) : Parser Node := do
  advance
  let _ ← variableName
  let generics ← r.typeParameters
  expectMark "="
  let types ← r.type
  semicolon
  return .group (generics ++ types)

/-- A member of an enumeration. Its key is a name or a string; brackets around it may hold a string
or a template without substitutions. -/
def enumMember (r : Rules) : Parser Node := do
  let key ← r.key
  match key.name, key.parts with
  | some _, _ | none, [.string _] | none, [.template _ []] => pure ()
  | _, _ => giveUp
  let value ← r.initializer
  return .group (key.parts ++ value.toList)

def enumDeclaration (r : Rules) : Parser Node := do
  expectWord "enum"
  let _ ← variableName
  expectOpening .curly
  let (members, _) ← commaList (isClosing .curly) r.enumMember
  expectClosing .curly
  return .group members

/-- `namespace A.B`, `module "x"` or `global`, with or without a body. -/
def namespaceDeclaration (r : Rules) : Parser Node := do
  let isGlobal ← isWord "global"
  advance
  let isQuoted := match ← peek with
    | .text _ => true
    | _ => false
  if isQuoted then advance
  else unless isGlobal do qualifiedName
  if ← isOpening .curly then return .group (← r.block)
  else if isQuoted || isGlobal then
    semicolon
    return .group []
  else giveUp

/-- `import a = b.c` from the equals sign on, which only a typed language has. -/
def importAlias : Parser Node := do
  recordIf !(← isTypescript)
  expectMark "="
  if ← takeWord "require" then
    expectOpening .round
    let _ ← stringText
    expectClosing .round
  else qualifiedName
  semicolon
  return .group []

/-- The words and modifiers ahead begin a declaration and not an expression. -/
def startsDeclaration : Parser Bool := lookAhead <| iterate () fun _ => do
  match ← peek with
  | .word word =>
    match word with
    | "var" | "let" | "const" | "function" | "class" | "enum" => return .inr true
    | "interface" | "type" =>
      advance
      return .inr ((← peek).isBindable && !(← onNewLine))
    | "module" | "namespace" =>
      advance
      let isText := match ← peek with
        | .text _ => true
        | _ => false
      return .inr (!(← onNewLine) && (isText || (← peek).isBindable))
    | "abstract" | "accessor" | "async" | "declare" | "private" | "protected" | "public"
    | "readonly" =>
      advance
      return if ← onNewLine then .inr false else .inl ()
    | "static" =>
      advance
      return .inl ()
    | "global" =>
      advance
      match ← peek with
      | .opening .curly | .word "export" => return .inr true
      | token => return .inr token.isIdentifier
    | "import" =>
      advance
      match ← peek with
      | .text _ | .mark "*" | .opening .curly => return .inr true
      | token => return .inr token.isIdentifier
    | "export" =>
      advance
      match ← peek with
      | .mark "=" | .mark "*" | .mark "@" | .opening .curly | .word "default" | .word "as" =>
        return .inr true
      | _ => return .inl ()
    | _ => return .inr false
  | _ => return .inr false

/-- A declaration after its decorators and modifiers; only classes are decorated, and each kind of
declaration takes modifiers of its own. -/
def declaration (r : Rules) (marks : List Node) (found : List String) : Parser Node := do
  match ← peek with
  | .word word =>
    recordIf (!marks.isEmpty && word != "class")
    match word with
    | "var" | "let" =>
      allowOnly ["declare"] found
      advance
      r.variableStatement .other
    | "const" =>
      allowOnly ["declare"] found
      advance
      if (← isTypescript) && (← isWord "enum") then r.enumDeclaration
      else r.variableStatement .constant
    | "class" => r.classRule .declaration true marks found
    | "function" =>
      allowOnly ["declare", "async"] found
      let role := if found.contains "declare" then .signature else .declaration
      r.functionRule role .list true (found.contains "async")
    | "async" =>
      if ← startsAsyncFunction then r.functionRule .declaration .list true false else giveUp
    | "using" | "await" => if ← startsUsing false then r.usingStatement else giveUp
    | _ =>
      unless ← isTypescript do giveUp
      allowOnly ["declare"] found
      match word with
      | "interface" => r.interfaceDeclaration
      | "type" => r.typeAlias
      | "enum" => r.enumDeclaration
      | "module" | "namespace" | "global" => r.namespaceDeclaration
      | "import" =>
        advance
        let _ ← variableName
        importAlias
      | _ => giveUp
  | _ => giveUp

/-- Modifiers and the declaration after them; `declare` leaves the definition to another place. -/
def modifiedDeclaration (r : Rules) (marks : List Node) : Parser Node := do
  let found ← modifiers false false
  let isAmbient := found.contains "declare"
  inSetting (fun s => { s with isAmbient := s.isAmbient || isAmbient }) (r.declaration marks found)

/-! ### Statements by their first word -/

def expressionStatement (r : Rules) : Parser Node := do
  let value ← r.expression
  match value.node with
  | .identifier _ =>
    if ← takeMark ":" then return .group [← r.statement .label]
  | _ => pure ()
  semicolon
  return .expression value.node

/-- A statement that begins with `let`, which is a name where an operator, a member or arguments follow,
and where no declaration may stand. A member or a call needs no semicolon to end it. -/
def letStatement (r : Rules) (position : Place) : Parser Node := do
  let next ← peekNext
  if next.isAssignment || next.isArithmetic then
    let value ← r.assignment
    semicolon
    return .expression value.node
  if next == .mark "." || next == .opening .round then return .expression (← r.expression).node
  if (position != .list && next != .opening .square) || next == .mark ";" then
    let name ← variableName
    semicolon
    return .expression (.identifier name)
  recordIf (position != .list)
  advance
  r.variableStatement .other

def constStatement (r : Rules) (position : Place) : Parser Node := do
  let isEnum := (← isTypescript) && (← nextIs (isWord "enum"))
  recordIf (position != .list && !isEnum)
  r.declaration [] []

def typedWords : List String :=
  ["interface", "type", "module", "namespace", "declare", "enum", "private", "protected", "public",
   "abstract", "accessor", "static", "readonly", "global"]

/-- A declaration of a typed language where one begins, else an expression. -/
def typedStatement (r : Rules) : Parser Node := do
  if (← isTypescript) && (← startsDeclaration) then
    inSetting (fun s => { s with inAsync := false }) (r.modifiedDeclaration [])
  else r.expressionStatement

/-- A statement that begins with a word, imports and exports apart. Of declarations, only those of
variables and of plain functions may be the body of another statement. -/
def wordStatement (r : Rules) (position : Place) (word : String) : Parser Node := do
  match word with
  | "if" => r.ifStatement
  | "do" => r.doStatement
  | "while" | "with" => r.whileStatement
  | "for" => r.forStatement
  | "continue" | "break" => jumpStatement
  | "return" => r.returnStatement
  | "throw" => r.throwStatement
  | "switch" => r.switchStatement
  | "try" => r.tryStatement
  | "debugger" =>
    advance
    semicolon
    return .group []
  | "var" => r.declaration [] []
  | "const" => r.constStatement position
  | "class" =>
    recordIf (position != .list)
    r.declaration [] []
  | "let" => r.letStatement position
  | "function" => r.functionRule .declaration position true false
  | "async" =>
    if ← startsAsyncFunction then r.functionRule .declaration position true false
    else r.typedStatement
  | "using" | "await" => if ← startsUsing false then r.usingStatement else r.expressionStatement
  | _ => if typedWords.contains word then r.typedStatement else r.expressionStatement

end Rules

end WorkflowAnalysis.Syntax
