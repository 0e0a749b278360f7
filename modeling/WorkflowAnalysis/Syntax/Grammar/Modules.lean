import WorkflowAnalysis.Syntax.Grammar.Statements

/-! Imports and exports. They may stand anywhere: whether a text is a module is decided elsewhere. -/
namespace WorkflowAnalysis.Syntax

open Syntax.Parser

namespace Rules

/-- A name on the outside of a module, which may be quoted. -/
def outerName : Parser String := do
  match ← peek with
  | .text _ => stringText
  | _ => anyWord

def isOuterName : Parser Bool := do
  match ← peek with
  | .text _ | .word _ => return true
  | _ => return false

def importAttribute : Parser String := do
  let name ← outerName
  expectMark ":"
  let _ ← stringText
  return name

/-- Attributes after the source of an import, each of another name. -/
def importAttributes : Parser Unit := do
  let isThere := (← isWord "with") || ((← isWord "assert") && !(← onNewLine))
  if isThere then
    advance
    expectOpening .curly
    let (names, _) ← commaList (isClosing .curly) importAttribute
    recordIf !(decide names.Nodup)
    expectClosing .curly

/-- `type` before a name in a list marks the name as a type, unless it is the name. In a list of types
the mark is an error. -/
def takeTypeMark (ofTypes : Bool) : Parser Unit := do
  if (← isTypescript) && (← isWord "type") then
    let isMarking ← lookAhead do
      advance
      if ← takeWord "as" then
        if ← takeWord "as" then isOuterName
        else return !(← isOuterName)
      else isOuterName
    if isMarking then
      recordIf ofTypes
      advance

/-- One name of an import list: the name it binds. A word that names no variable is an error that is
let pass, a string is not. -/
def importSpecifier (ofTypes : Bool) : Parser String := do
  takeTypeMark ofTypes
  let outer ← peek
  let name ← outerName
  let isRenamed ← takeWord "as"
  let token ← if isRenamed then peek else pure outer
  if token.isReserved then record
  match token, isRenamed with
  | .text _, _ => giveUp
  | _, true => anyWord
  | _, false => return name

def namespaceImport : Parser String := do
  expectMark "*"
  expectWord "as"
  variableName

def namedImports (ofTypes : Bool) : Parser (List String) := do
  expectOpening .curly
  let (names, _) ← commaList (isClosing .curly) (importSpecifier ofTypes)
  expectClosing .curly
  return names

/-- The names an import binds, after a default name already read. -/
def importClause (ofTypes : Bool) (default : Option String) : Parser (List String) := do
  let names ← do
    match default with
    | some name =>
      if ← takeMark "," then
        if ← isMark "*" then pure [name, ← namespaceImport]
        else pure (name :: (← namedImports ofTypes))
      else pure [name]
    | none => if ← isMark "*" then pure [← namespaceImport] else namedImports ofTypes
  expectWord "from"
  return names

/-- The word after `import` is a keyword of the import, and not the name it binds. -/
def isImportKeyword (word : String) : Parser Bool := lookAhead do
  advance
  match ← peek with
  | .opening .curly | .mark "*" => return true
  | .word "from" =>
    advance
    return (← isWord "from") || (word == "type" && (← isMark "="))
  | token => return token.isBindable

/-- Takes the keyword of an import if there is one, and tells whether types are imported. -/
def takeImportKeyword : Parser Bool := do
  let typed ← isTypescript
  match ← peek with
  | .word word =>
    let isCandidate := (word == "type" && typed) || word == "source" || word == "defer"
    if isCandidate && (← isImportKeyword word) then
      advance
      return word == "type"
    else return false
  | _ => return false

def importTail : Parser Node := do
  match ← peek with
  | .text source =>
    advance
    importAttributes
    semicolon
    return .importFrom [] source
  | _ =>
    let ofTypes ← takeImportKeyword
    let default ← if (← peek).isBindable then pure (some (← variableName)) else pure none
    if default.isSome && (← isMark "=") then return ← importAlias
    let names ← importClause ofTypes default
    let source ← stringText
    importAttributes
    semicolon
    return .importFrom names source

def importStatement (r : Rules) : Parser Node := do
  if ← nextIs (return (← isMark ".") || (← isOpening .round)) then r.expressionStatement
  else
    advance
    importTail

/-! ### Exports -/

/-- One name of an export list: how it is called inside. -/
def exportSpecifier (ofTypes : Bool) : Parser Token := do
  takeTypeMark ofTypes
  let inner ← peek
  let name ← outerName
  exportName (← if ← takeWord "as" then outerName else pure name)
  return inner

/-- What names something in this very file: a word, unless it is reserved or will be. -/
def isLocalName : Token → Bool
  | .word w => !reservedWords.contains w && !futureWords.contains w
  | _ => false

def exportList (ofTypes : Bool) : Parser Node := do
  expectOpening .curly
  let (names, _) ← commaList (isClosing .curly) (exportSpecifier ofTypes)
  expectClosing .curly
  let hasSource ← do
    if ← takeWord "from" then
      match ← peek with
      | .text _ | .number | .word "null" | .word "true" | .word "false" => pure true
      | _ => pure false
    else pure false
  if hasSource then
    let _ ← stringText
    importAttributes
  else recordIf !(names.all isLocalName)
  semicolon
  return .group []

def exportAll : Parser Node := do
  expectMark "*"
  let name ← if ← takeWord "as" then pure (some (← outerName)) else pure none
  if let some name := name then exportName name
  expectWord "from"
  let source ← stringText
  importAttributes
  semicolon
  return .exportAll name source

/-- Decorators before and after the words that export a class; they stand in one of these places. -/
def exportDecorators (r : Rules) (before : List Node) : Parser (List Node) := do
  let after ← r.decorators
  recordIf (!before.isEmpty && !after.isEmpty)
  return before ++ after

def exportDefault (r : Rules) (before : List Node) : Parser Node := do
  exportName "default"
  advance
  let marks ← r.exportDecorators before
  if ← isWord "class" then return .exportDefault (← r.classRule .declaration false marks [])
  if ← isTypescript then
    if (← isWord "abstract") && (← nextIs (return (← isWord "class") && !(← onNewLine))) then
      advance
      return .exportDefault (← r.classRule .declaration false marks [])
  recordIf !marks.isEmpty
  if ← isTypescript then
    if (← isWord "interface")
        && (← nextIs (return (← peek).isBindable && !(← onNewLine))) then
      return .exportDefault (← r.interfaceDeclaration)
  if (← isWord "function") || (← startsAsyncFunction) then
    return .exportDefault (← r.functionRule .declaration .list false false)
  let value ← r.assignment
  semicolon
  return .exportDefault value.node

mutual

def boundNames : Node → List String
  | .binding name => [name]
  | .objectPattern parts | .group parts => allBoundNames parts
  | .patternProperty _ _ target => boundNames target
  | _ => []

def allBoundNames : List Node → List String
  | [] => []
  | part :: parts => boundNames part ++ allBoundNames parts

end

def declaredNames : Node → List String
  | .variableDeclaration _ declared =>
    declared.flatMap fun
      | .declarator target _ _ => boundNames target
      | _ => []
  | .function _ name _ _ => name.toList
  | .classDef _ name _ _ _ => name.toList
  | _ => []

/-- A declaration that is exported; a resource is not. -/
def exportedDeclaration (r : Rules) (before : List Node) : Parser Node := do
  let marks ← r.exportDecorators before
  recordIf (← startsUsing false)
  let node ← if ← isTypescript then r.modifiedDeclaration marks else r.declaration marks []
  for name in declaredNames node do exportName name
  return .exportDeclaration node

def exportStatement (r : Rules) (marks : List Node) : Parser Node := do
  advance
  match ← peek with
  | .word "default" => r.exportDefault marks
  | .mark "*" =>
    recordIf !marks.isEmpty
    exportAll
  | .opening .curly =>
    recordIf !marks.isEmpty
    exportList false
  | .word "import" =>
    advance
    let _ ← takeImportKeyword
    let _ ← variableName
    return .exportDeclaration (← importAlias)
  | token =>
    if ← isTypescript then
      match token with
      | .mark "=" =>
        advance
        let value ← r.expression
        semicolon
        return .group [value.node]
      | .word "as" =>
        advance
        expectWord "namespace"
        let _ ← variableName
        semicolon
        return .group []
      | .word "type" =>
        if ← nextIs (isOpening .curly) then
          advance
          return ← exportList true
        if ← nextIs (isMark "*") then
          advance
          return ← exportAll
        r.exportedDeclaration marks
      | _ => r.exportedDeclaration marks
    else r.exportedDeclaration marks

def decoratedStatement (r : Rules) (position : Place) : Parser Node := do
  let marks ← r.decorators
  if ← isWord "export" then return ← r.exportStatement marks
  let found ← modifiers false false
  recordIf (position != .list)
  r.classRule .declaration true marks found

def statementRule (r : Rules) (position : Place) : Parser Node := do
  match ← peek with
  | .opening .curly => return .group (← r.block)
  | .mark ";" =>
    advance
    return .group []
  | .mark "@" => r.decoratedStatement position
  | .word "import" => r.importStatement
  | .word "export" => r.exportStatement []
  | .word word =>
    if word == "let" && (← get).escaped then r.expressionStatement else r.wordStatement position word
  | _ => r.expressionStatement

end Rules

/-! ### Tying the knot -/

/-- One level of the grammar on top of rules for everything nested deeper. -/
def Rules.step (r : Rules) : Rules
  | .assignment returnType => r.assignmentRule returnType
  | .binary level => r.binaryRule level
  | .unary => r.unaryRule
  | .leftHand => r.leftHandRule
  | .heritage => r.heritageRule
  | .construct => r.constructRule
  | .statement position => r.statementRule position
  | .pattern => r.bindingTarget
  | .type => r.typeRule
  | .markup inside => r.markupRule inside

/-- The grammar down to a depth of nesting; beyond it, parsing gives up. -/
def Rules.ofDepth : Nat → Rules
  | 0 => fun _ => giveUp
  | n + 1 => fun goal => Rules.step (Rules.ofDepth n) goal

end WorkflowAnalysis.Syntax
