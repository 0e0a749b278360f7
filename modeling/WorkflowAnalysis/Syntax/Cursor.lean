import WorkflowAnalysis.Syntax.Lexer
import WorkflowAnalysis.Syntax.Node

/-! The state of a parse and its elementary moves. A parser either goes on, perhaps after recording an
error that leaves the tree complete, or gives up; giving up ends the attempt unless the grammar was
only trying a reading. -/
namespace WorkflowAnalysis.Syntax

structure Dialect where
  typescript : Bool
  markup : Bool
  isModule : Bool
deriving DecidableEq, Repr, Inhabited

structure Setting where
  dialect : Dialect
  /-- The length of the text: no list in it has more items. -/
  bound : Nat
  inOperator : Bool := true
  inGenerator : Bool := false
  inAsync : Bool := false
  inDecorator : Bool := false
  mayReturn : Bool := true
  isAmbient : Bool := false
  /-- A conditional type may not begin here. -/
  plainTypesOnly : Bool := false

structure Cursor where
  token : Token
  newline : Bool
  escaped : Bool
  rest : List Char
  errors : Nat := 0
  faults : Nat := 0
  stray : Bool := false
  /-- Shorthand members with a default that no assignment has taken as its target yet. -/
  loose : Nat := 0
  exported : List String := []
  /-- The text from the first comment on. -/
  comment : Option (List Char) := none
  /-- Places, as numbers of characters left, where no arrow function begins. -/
  notArrows : List Nat := []

abbrev Parser := ReaderT Setting (EStateM Unit Cursor)

namespace Parser

def giveUp {α : Type} : Parser α := throw ()

def record : Parser Unit := modify fun s => { s with errors := s.errors + 1 }

def recordIf (isError : Bool) : Parser Unit := do if isError then record

def peek : Parser Token := return (← get).token

def onNewLine : Parser Bool := return (← get).newline

def dialect : Parser Dialect := return (← read).dialect

def isTypescript : Parser Bool := return (← read).dialect.typescript

def place (next : Scan) : Parser Unit :=
  modify fun s =>
    { s with
      token := next.token, newline := next.newline, escaped := next.escaped, rest := next.rest
      faults := s.faults + next.faults, stray := s.stray || next.stray
      comment := s.comment.or next.comment }

/-- Goes on to the next token, whatever the current one stands for. -/
def skip : Parser Unit := do
  place (scan (← read).dialect.isModule false (← get).rest)

/-- Takes the current token for what it is; a keyword may not be spelled with escapes then. -/
def advance : Parser Unit := do
  let state ← get
  recordIf (state.escaped && state.token.isKeyword)
  skip

/-- Reads the rest of the text anew, as if `cs` came next. -/
def advanceFrom (cs : List Char) : Parser Unit := do
  place (scan (← read).dialect.isModule false cs)

/-! ### Tests -/

def isToken (token : Token) : Parser Bool := return (← get).token == token

def isMark (spelling : String) : Parser Bool := isToken (.mark spelling)

def isWord (spelling : String) : Parser Bool := isToken (.word spelling)

def isOpening (bracket : Bracket) : Parser Bool := isToken (.opening bracket)

def isClosing (bracket : Bracket) : Parser Bool := isToken (.closing bracket)

def isStuck : Parser Bool := do
  match ← peek with
  | .endOfText | .broken => return true
  | _ => return false

def isTemplateStart : Parser Bool := do
  match ← peek with
  | .template .whole _ | .template .head _ => return true
  | _ => return false

/-! ### Moves -/

def takeToken (token : Token) : Parser Bool := do
  if ← isToken token then
    advance
    return true
  else return false

def takeMark (spelling : String) : Parser Bool := takeToken (.mark spelling)

def takeWord (spelling : String) : Parser Bool := takeToken (.word spelling)

def takeOpening (bracket : Bracket) : Parser Bool := takeToken (.opening bracket)

def takeClosing (bracket : Bracket) : Parser Bool := takeToken (.closing bracket)

def expectToken (token : Token) : Parser Unit := do
  unless ← takeToken token do giveUp

def expectMark (spelling : String) : Parser Unit := expectToken (.mark spelling)

def expectWord (spelling : String) : Parser Unit := expectToken (.word spelling)

def expectOpening (bracket : Bracket) : Parser Unit := expectToken (.opening bracket)

def expectClosing (bracket : Bracket) : Parser Unit := expectToken (.closing bracket)

/-- Runs a parser and goes back to where it began if it gives up. What was learnt about arrow
functions is kept. -/
def attempt {α : Type} (p : Parser α) : Parser (Option α) := fun setting start =>
  match p setting start with
  | .ok a next => .ok (some a) next
  | .error _ last => .ok none { start with notArrows := last.notArrows }

/-- Runs a parser only for its result and goes back to where it began; giving up yields `refusal`. -/
def lookAheadOr {α : Type} (refusal : α) (p : Parser α) : Parser α := fun setting start =>
  match p setting start with
  | .ok a last => .ok a { start with notArrows := last.notArrows }
  | .error _ last => .ok refusal { start with notArrows := last.notArrows }

def lookAhead (p : Parser Bool) : Parser Bool := lookAheadOr false p

def nextIs (test : Parser Bool) : Parser Bool := lookAhead do
  advance
  test

def peekNext : Parser Token := lookAheadOr .endOfText do
  advance
  peek

def inSetting {α : Type} (change : Setting → Setting) (p : Parser α) : Parser α :=
  fun setting => p (change setting)

def allowIn {α : Type} (p : Parser α) : Parser α :=
  inSetting (fun s => { s with inOperator := true }) p

def mayEndStatement : Parser Bool := do
  if ← onNewLine then return true
  match ← peek with
  | .mark ";" | .closing .curly | .endOfText => return true
  | _ => return false

def semicolon : Parser Unit := do
  unless ← mayEndStatement do giveUp
  let _ ← takeMark ";"

/-! ### Repetition -/

/-- Repeats a step until it yields a result, as often as the text is long at most. -/
def repeatFrom {α β : Type} (step : α → Parser (α ⊕ β)) : Nat → α → Parser β
  | 0, _ => giveUp
  | n + 1, a => do
    match ← step a with
    | .inl next => repeatFrom step n next
    | .inr result => return result

def iterate {α β : Type} (start : α) (step : α → Parser (α ⊕ β)) : Parser β := do
  repeatFrom step ((← read).bound + 2) start

def manyUntil {α : Type} (isEnd : Parser Bool) (item : Parser α) : Parser (List α) :=
  iterate [] fun items => do
    if ← isEnd then return .inr items.reverse
    if ← isStuck then return .inr items.reverse
    return .inl ((← item) :: items)

/-- Items with commas between them, up to a token that `isEnd` knows; tells also whether a comma
follows the last one. -/
def commaList {α : Type} (isEnd : Parser Bool) (item : Parser α) : Parser (List α × Bool) := do
  if ← isEnd then return ([], false)
  let first ← item
  iterate [first] fun items => do
    if ← isEnd then return .inr (items.reverse, false)
    expectMark ","
    if ← isEnd then return .inr (items.reverse, true)
    return .inl ((← item) :: items)

/-- Like `commaList`, where an item that begins with `...` has to be the last one. -/
def commaListWithRest {α : Type} (isEnd : Parser Bool) (item restItem : Parser α) :
    Parser (List α) := do
  if ← isEnd then return []
  iterate ([], false) fun (items, closed) => do
    if closed then giveUp
    let isRest ← isMark "..."
    let next ← if isRest then restItem else item
    if ← isEnd then return .inr (next :: items).reverse
    expectMark ","
    if ← isEnd then
      recordIf (isRest && !(← read).isAmbient)
      return .inr (next :: items).reverse
    return .inl (next :: items, isRest)

/-! ### Names -/

/-- A word as a name, whatever it means elsewhere. -/
def anyWord : Parser String := do
  match ← peek with
  | .word spelling =>
    skip
    return spelling
  | _ => giveUp

/-- Records the use of `await` and `yield` as names where they are operators. -/
def checkName (spelling : String) : Parser Unit := do
  let setting ← read
  if spelling == "await" && (setting.inAsync || setting.dialect.isModule) then record
  if spelling == "yield" && setting.inGenerator then record

/-- Adds a name to those exported; twice the same one is an error, which typed files are free of. -/
def exportName (name : String) : Parser Unit := do
  let known := (← get).exported
  recordIf (known.contains name && !(← isTypescript))
  modify fun s => { s with exported := name :: s.exported }

def variableName : Parser String := do
  if (← peek).isBindable then
    let spelling ← anyWord
    checkName spelling
    return spelling
  else giveUp

def stringText : Parser String := do
  match ← peek with
  | .text value =>
    advance
    return value
  | _ => giveUp

/-- Joins `>` to the marks after it where it stands as an operator. -/
def joinAngles : Parser Unit := do
  if ← isMark ">" then
    match (← get).rest with
    | '>' :: '>' :: '=' :: rest => modify fun s => { s with token := .mark ">>>=", rest }
    | '>' :: '>' :: rest => modify fun s => { s with token := .mark ">>>", rest }
    | '>' :: '=' :: rest => modify fun s => { s with token := .mark ">>=", rest }
    | '>' :: rest => modify fun s => { s with token := .mark ">>", rest }
    | '=' :: rest => modify fun s => { s with token := .mark ">=", rest }
    | _ => return

/-- Splits `<<` where the first angle opens a list of types. -/
def splitAngles : Parser Unit := do
  match ← peek with
  | .mark "<<" => modify fun s => { s with token := .mark "<", rest := '<' :: s.rest }
  | .mark "<<=" => modify fun s => { s with token := .mark "<", rest := '<' :: '=' :: s.rest }
  | _ => return

end Parser

end WorkflowAnalysis.Syntax
