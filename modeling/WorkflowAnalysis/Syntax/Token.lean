/-! Tokens of a source text, and the classes of words that the grammar tells apart. Words are not
sorted into names and keywords here: nearly every keyword is a name somewhere. -/
namespace WorkflowAnalysis.Syntax

inductive Bracket where
  | round
  | square
  | curly
deriving DecidableEq, Repr, Inhabited

/-- Which stretch of a template a token is: all of it, or the text before, between and after its
substitutions. -/
inductive TemplatePart where
  | whole
  | head
  | middle
  | tail
deriving DecidableEq, Repr, Inhabited

inductive Token where
  | endOfText
  /-- Text that forms no token: an unclosed string, a malformed number, a stray character. -/
  | broken
  | word (spelling : String)
  | privateName (spelling : String)
  | text (value : String)
  | number
  /-- `cooked` is absent when the text holds an escape that means nothing. -/
  | template (part : TemplatePart) (cooked : Option String)
  | opening (bracket : Bracket)
  | closing (bracket : Bracket)
  | mark (spelling : String)
  | markupText
deriving DecidableEq, Repr, Inhabited

/-- Words that never name a variable, `await` and `yield` included. -/
def reservedWords : List String :=
  ["await", "break", "case", "catch", "class", "const", "continue", "debugger", "default",
   "delete", "do", "else", "enum", "export", "extends", "false", "finally", "for", "function",
   "if", "import", "in", "instanceof", "new", "null", "return", "super", "switch", "this",
   "throw", "true", "try", "typeof", "var", "void", "while", "with", "yield"]

/-- Words that may stand before a declaration or a member to modify it. -/
def modifierWords : List String :=
  ["abstract", "accessor", "async", "const", "declare", "default", "export", "in", "out",
   "override", "private", "protected", "public", "readonly", "static"]

def accessWords : List String := ["public", "private", "protected"]

def keywords : List String :=
  reservedWords ++ modifierWords ++
    ["any", "as", "assert", "asserts", "bigint", "boolean", "constructor", "defer", "from", "get",
     "global", "implements", "infer", "interface", "intrinsic", "is", "keyof", "let", "meta",
     "module", "namespace", "never", "number", "object", "of", "package", "require", "satisfies",
     "set", "source", "string", "symbol", "target", "type", "undefined", "unique", "unknown",
     "using"]

/-- Words that no export list may name without a source, besides the reserved ones. -/
def futureWords : List String :=
  ["implements", "interface", "let", "package", "private", "protected", "public", "static"]

/-- Words that stand between two operands. -/
def operatorWords : List String := ["in", "instanceof"]

/-- Words that stand before one operand. -/
def unaryWords : List String := ["delete", "typeof", "void"]

inductive AssignOperator where
  | plain
  | add
  | subtract
  | multiply
  | divide
  | remainder
  | power
  | shiftLeft
  | shiftRight
  | shiftRightUnsigned
  | bitAnd
  | bitOr
  | bitXor
  | logicalAnd
  | logicalOr
  | coalesce
deriving DecidableEq, Repr, Inhabited

def assignmentMarks : List (String × AssignOperator) :=
  [("=", .plain), ("+=", .add), ("-=", .subtract), ("*=", .multiply), ("/=", .divide),
   ("%=", .remainder), ("**=", .power), ("<<=", .shiftLeft), (">>=", .shiftRight),
   (">>>=", .shiftRightUnsigned), ("&=", .bitAnd), ("|=", .bitOr), ("^=", .bitXor),
   ("&&=", .logicalAnd), ("||=", .logicalOr), ("??=", .coalesce)]

/-- The binding strength of a binary operator; a higher level binds tighter. -/
def binaryLevel : Token → Option Nat
  | .mark "??" => some 2
  | .mark "||" => some 3
  | .mark "&&" => some 4
  | .mark "|" => some 5
  | .mark "^" => some 6
  | .mark "&" => some 7
  | .mark "==" | .mark "!=" | .mark "===" | .mark "!==" => some 8
  | .mark "<" | .mark ">" | .mark "<=" | .mark ">=" => some 9
  | .word "in" | .word "instanceof" | .word "as" | .word "satisfies" => some 9
  | .mark "<<" | .mark ">>" | .mark ">>>" => some 10
  | .mark "+" | .mark "-" => some 11
  | .mark "*" | .mark "/" | .mark "%" => some 12
  | .mark "**" => some 13
  | _ => none

namespace Token

def isReserved : Token → Bool
  | word w => reservedWords.contains w
  | _ => false

def isKeyword : Token → Bool
  | word w => keywords.contains w
  | _ => false

def isWord : Token → Bool
  | word _ => true
  | _ => false

def isIdentifier : Token → Bool
  | word w => !reservedWords.contains w
  | _ => false

/-- A word that can be bound; `await` and `yield` can, at the price of an error. -/
def isBindable : Token → Bool
  | word w => !reservedWords.contains w || w == "await" || w == "yield"
  | _ => false

def isModifier : Token → Bool
  | word w => modifierWords.contains w
  | _ => false

def isLiteral : Token → Bool
  | text _ | number => true
  | word w => w == "true" || w == "false" || w == "null"
  | template .whole _ => true
  | _ => false

/-- What a key may be made of, computed and private keys apart. -/
def isPlainKey : Token → Bool
  | word _ | text _ | number => true
  | _ => false

def isBinaryOperator (t : Token) : Bool :=
  match t with
  | word w => operatorWords.contains w
  | _ => (binaryLevel t).isSome

/-- An operator on two values that yields another value and not one of them. -/
def isArithmetic (t : Token) : Bool :=
  t.isBinaryOperator && t != mark "&&" && t != mark "||" && t != mark "??"

def assignment? : Token → Option AssignOperator
  | mark m => assignmentMarks.lookup m
  | _ => none

def isAssignment (t : Token) : Bool := t.assignment?.isSome

/-- What may follow `await` or `yield` where neither is an operator by context. -/
def followsAwait (t : Token) : Bool :=
  !t.isBinaryOperator && (t.isLiteral || t.isWord)

end Token

end WorkflowAnalysis.Syntax
