import WorkflowAnalysis.Syntax.Token
import WorkflowAnalysis.Text.NameChars

/-! Scanning of tokens. The grammar decides how the text after a token is read (a slash begins a
regular expression only where an operand is due, a closing brace may resume a template), so each way
of reading is a function of its own from the characters left to a token and the characters after it.
Strings and templates run through one automaton that takes a character at a time. -/
namespace WorkflowAnalysis.Syntax

open WorkflowAnalysis.Text (isNameStart isNamePart)

structure Scan where
  token : Token
  /-- A line ends between the token before and this one. -/
  newline : Bool := false
  /-- A word spelled with escapes. -/
  escaped : Bool := false
  rest : List Char
  /-- Errors that do not stop the scan. -/
  faults : Nat := 0
  stray : Bool := false
  /-- The text from the first comment before the token on. -/
  comment : Option (List Char) := none
deriving Inhabited

def isLineEnd (c : Char) : Bool :=
  c == '\n' || c == '\r' || c == '\u2028' || c == '\u2029'

/-- Space within a line; the zero width space is one, the Mongolian vowel separator is not. -/
def isBlank (c : Char) : Bool :=
  c == ' ' || c == '\t' || c == '\x0b' || c == '\x0c' || c == '\u0085' || c == '\u00a0'
    || c == '\u1680' || (0x2000 ≤ c.toNat && c.toNat ≤ 0x200b) || c == '\u202f' || c == '\u205f'
    || c == '\u3000' || c == '\ufeff'

/-! ### Space and comments -/

inductive TriviaMode where
  | code
  | lineComment
  | blockComment

structure Trivia where
  newline : Bool
  faults : Nat
  unclosed : Bool
  rest : List Char
  /-- The text from the first comment on. -/
  comment : Option (List Char)

/-- Skips space and comments. `<!--` anywhere and `-->` at the head of a line open a line comment,
which is a fault in a module. -/
def skipTrivia (isModule : Bool) :
    TriviaMode → Bool → Nat → Option (List Char) → List Char → Trivia
  | .code, newline, faults, comment, text@('/' :: '/' :: cs) =>
    skipTrivia isModule .lineComment newline faults (comment.or text) cs
  | .code, newline, faults, comment, text@('/' :: '*' :: cs) =>
    skipTrivia isModule .blockComment newline faults (comment.or text) cs
  | .code, newline, faults, comment, text@('<' :: '!' :: '-' :: '-' :: cs) =>
    skipTrivia isModule .lineComment newline (faults + isModule.toNat) (comment.or text) cs
  | .code, newline, faults, comment, text@('-' :: '-' :: '>' :: cs) =>
    if newline then
      skipTrivia isModule .lineComment newline (faults + isModule.toNat) (comment.or text) cs
    else ⟨newline, faults, false, '-' :: '-' :: '>' :: cs, comment⟩
  | .code, newline, faults, comment, c :: cs =>
    if isLineEnd c then skipTrivia isModule .code true faults comment cs
    else if isBlank c then skipTrivia isModule .code newline faults comment cs
    else ⟨newline, faults, false, c :: cs, comment⟩
  | .lineComment, newline, faults, comment, c :: cs =>
    if isLineEnd c then skipTrivia isModule .code true faults comment cs
    else skipTrivia isModule .lineComment newline faults comment cs
  | .blockComment, newline, faults, comment, '*' :: '/' :: cs =>
    skipTrivia isModule .code newline faults comment cs
  | .blockComment, newline, faults, comment, c :: cs =>
    skipTrivia isModule .blockComment (newline || isLineEnd c) faults comment cs
  | .blockComment, newline, faults, comment, [] => ⟨newline, faults + 1, true, [], comment⟩
  | _, newline, faults, comment, [] => ⟨newline, faults, false, [], comment⟩

def blockText : List Char → List Char
  | '*' :: '/' :: _ | [] => []
  | c :: cs => c :: blockText cs

def commentText (cs : List Char) : List Char :=
  match cs with
  | '/' :: '*' :: after => blockText after
  | _ => cs.takeWhile fun c => !isLineEnd c

/-! ### Names -/

def hexDigit? (c : Char) : Option Nat :=
  if c.isDigit then some (c.toNat - 48)
  else if 'a' ≤ c && c ≤ 'f' then some (c.toNat - 87)
  else if 'A' ≤ c && c ≤ 'F' then some (c.toNat - 55)
  else none

def hexValue? (digits : List Char) : Option Nat :=
  digits.foldl (fun value c => do return (← value) * 16 + (← hexDigit? c)) (some 0)

structure NameScan where
  /-- The decoded name, last character first. -/
  reversed : List Char
  escaped : Bool
  valid : Bool
  rest : List Char

/-- Whether an escaped code may stand where `before` has been read already. -/
def isNameCode (before : List Char) (code : Nat) : Bool :=
  if before.isEmpty then isNameStart (Char.ofNat code) else isNamePart (Char.ofNat code)

/-- Reads a name; the first argument is the value so far inside the braces of an escape. -/
def scanName : Option Nat → Bool → List Char → List Char → NameScan
  | some value, escaped, before, c :: cs =>
    match hexDigit? c with
    | some digit => scanName (some (value * 16 + digit)) escaped before cs
    | none =>
      if c == '\x7d' && isNameCode before value then
        scanName none true (Char.ofNat value :: before) cs
      else ⟨before, true, false, cs⟩
  | some _, _, before, [] => ⟨before, true, false, []⟩
  | none, escaped, before, '\x5c' :: 'u' :: '\x7b' :: cs => scanName (some 0) escaped before cs
  | none, _, before, '\x5c' :: 'u' :: a :: b :: c :: d :: cs =>
    match hexValue? [a, b, c, d] with
    | some value =>
      if isNameCode before value then scanName none true (Char.ofNat value :: before) cs
      else ⟨before, true, false, cs⟩
    | none => ⟨before, true, false, cs⟩
  | none, escaped, before, c :: cs =>
    if isNamePart c then scanName none escaped (c :: before) cs
    else ⟨before, escaped, c != '\x5c', c :: cs⟩
  | none, escaped, before, [] => ⟨before, escaped, true, []⟩

/-! ### Strings and templates -/

inductive QuoteMode where
  | plain
  | escape
  | octal (left value : Nat)
  | hex (left value : Nat) (isUnit : Bool)
  | unicode
  | braced (value : Option Nat)
  /-- A line feed right here belongs to the carriage return before it. -/
  | afterReturn
  /-- After `\0` in a template, which no digit may follow. -/
  | afterZero
  | dollar
deriving Repr

/-- `codes` holds the decoded codes, last one first, each with a mark that tells whether it was
written as a four digit escape and so may be half of a surrogate pair. -/
structure QuoteState where
  mode : QuoteMode := .plain
  codes : List (Nat × Bool) := []
  faults : Nat := 0

inductive QuoteStep where
  | more (state : QuoteState)
  | closed (state : QuoteState)
  | substitution (state : QuoteState)
  | unclosed

namespace QuoteState

def push (s : QuoteState) (code : Nat) (isUnit : Bool) : QuoteState :=
  { s with mode := .plain, codes := (code, isUnit) :: s.codes }

def fault (s : QuoteState) : QuoteState :=
  { s with mode := .plain, faults := s.faults + 1 }

def enter (s : QuoteState) (mode : QuoteMode) : QuoteState := { s with mode }

end QuoteState

/-- A character that is not part of an escape. `quote` is absent in a template. -/
def quotePlain (quote : Option Char) (s : QuoteState) (c : Char) : QuoteStep :=
  match quote with
  | some q =>
    if c == q then .closed s
    else if c == '\n' || c == '\r' then .unclosed
    else if c == '\x5c' then .more (s.enter .escape)
    else .more (s.push c.toNat false)
  | none =>
    if c == '\x60' then .closed s
    else if c == '$' then .more (s.enter .dollar)
    else if c == '\x5c' then .more (s.enter .escape)
    else if c == '\r' then .more ((s.push 10 false).enter .afterReturn)
    else .more (s.push c.toNat false)

def quoteEscape (quote : Option Char) (s : QuoteState) (c : Char) : QuoteStep :=
  if c == 'n' then .more (s.push 10 false)
  else if c == 't' then .more (s.push 9 false)
  else if c == 'b' then .more (s.push 8 false)
  else if c == 'v' then .more (s.push 11 false)
  else if c == 'f' then .more (s.push 12 false)
  else if c == 'r' then .more (s.push 13 false)
  else if c == 'x' then .more (s.enter (.hex 2 0 false))
  else if c == 'u' then .more (s.enter .unicode)
  else if c == '\r' then .more (s.enter .afterReturn)
  else if isLineEnd c then .more (s.enter .plain)
  else if quote.isNone && c == '0' then .more (s.enter .afterZero)
  else if quote.isNone && c.isDigit then .more s.fault
  else if '0' ≤ c && c ≤ '3' then .more (s.enter (.octal 2 (c.toNat - 48)))
  else if '4' ≤ c && c ≤ '7' then .more (s.enter (.octal 1 (c.toNat - 48)))
  else .more (s.push c.toNat false)

def quoteHex (quote : Option Char) (s : QuoteState) (left value : Nat) (isUnit : Bool) (c : Char) :
    QuoteStep :=
  match hexDigit? c with
  | some digit =>
    if left ≤ 1 then .more (s.push (value * 16 + digit) isUnit)
    else .more (s.enter (.hex (left - 1) (value * 16 + digit) isUnit))
  | none => quotePlain quote s.fault c

/-- One step of the automaton. An escape that breaks off is a fault, and the character that broke it
is read again as plain text. -/
def quoteStep (quote : Option Char) (s : QuoteState) (c : Char) : QuoteStep :=
  match s.mode with
  | .plain => quotePlain quote s c
  | .escape => quoteEscape quote s c
  | .octal left value =>
    if left != 0 && '0' ≤ c && c ≤ '7' then
      .more (s.enter (.octal (left - 1) (value * 8 + (c.toNat - 48))))
    else quotePlain quote (s.push value false) c
  | .hex left value isUnit => quoteHex quote s left value isUnit c
  | .unicode => if c == '\x7b' then .more (s.enter (.braced none)) else quoteHex quote s 4 0 true c
  | .braced value =>
    match hexDigit? c, value with
    | some digit, _ =>
      let next := value.getD 0 * 16 + digit
      if next ≤ 0x10ffff then .more (s.enter (.braced (some next))) else .more s.fault
    | none, some code =>
      if c == '\x7d' then .more (s.push code false) else quotePlain quote s.fault c
    | none, none => quotePlain quote s.fault c
  | .afterReturn => if c == '\n' then .more (s.enter .plain) else quotePlain quote (s.enter .plain) c
  | .afterZero => if c.isDigit then .more s.fault else quotePlain quote (s.push 0 false) c
  | .dollar =>
    if c == '\x7b' then .substitution (s.enter .plain) else quotePlain quote (s.push 36 false) c

def isHighSurrogate (code : Nat) : Bool := 0xd800 ≤ code && code ≤ 0xdbff

def isLowSurrogate (code : Nat) : Bool := 0xdc00 ≤ code && code ≤ 0xdfff

/-- Joins a high and a low surrogate that were written as neighbouring four digit escapes. -/
def joinSurrogates : List (Nat × Bool) → List Nat
  | (high, true) :: (low, true) :: codes =>
    if isHighSurrogate high && isLowSurrogate low then
      (0x10000 + (high - 0xd800) * 0x400 + (low - 0xdc00)) :: joinSurrogates codes
    else high :: joinSurrogates ((low, true) :: codes)
  | (code, _) :: codes => code :: joinSurrogates codes
  | [] => []

def hexText (digits value : Nat) : List Char :=
  match digits with
  | 0 => []
  | n + 1 => hexText n (value / 16) ++ [Nat.digitChar (value % 16)]

/-- The text of decoded codes. A lone surrogate is written as U+FFFD and its four hex digits, and then
a U+FFFD of the string's own is written the same way. -/
def quotedText (codes : List Nat) : String :=
  let isLone := fun code => isHighSurrogate code || isLowSurrogate code
  if codes.any isLone then
    String.ofList (codes.flatMap fun code =>
      if isLone code || code == 0xfffd then '\ufffd' :: hexText 4 code else [Char.ofNat code])
  else String.ofList (codes.map Char.ofNat)

def QuoteState.value (s : QuoteState) : String := quotedText (joinSurrogates s.codes.reverse)

/-- How a run of the automaton ended, and the characters after it. -/
inductive QuoteScan where
  | closed (state : QuoteState) (rest : List Char)
  | substitution (state : QuoteState) (rest : List Char)
  | unclosed

def runQuote (quote : Option Char) : QuoteState → List Char → QuoteScan
  | _, [] => .unclosed
  | s, c :: cs =>
    match quoteStep quote s c with
    | .more next => runQuote quote next cs
    | .closed last => .closed last cs
    | .substitution last => .substitution last cs
    | .unclosed => .unclosed

/-! ### Numbers -/

/-- Drops digits and the separators between them. A separator with no digit after it ends the run:
`some true` when another character stands there, `some false` at the end of the text. -/
def dropDigits (isDigit : Char → Bool) : List Char → Option Bool × List Char
  | '_' :: c :: cs =>
    if isDigit c then dropDigits isDigit cs else (some true, c :: cs)
  | ['_'] => (some false, [])
  | c :: cs => if isDigit c then dropDigits isDigit cs else (none, c :: cs)
  | [] => (none, [])

def Scan.missingDigit (s : Scan) : Scan :=
  { s with faults := s.faults + 1, stray := s.stray || !s.rest.isEmpty }

def Scan.digits (s : Scan) (isDigit : Char → Bool) : Scan :=
  match dropDigits isDigit s.rest with
  | (none, rest) => { s with rest }
  | (some _, rest) => { s with rest }.missingDigit

def Scan.someDigits (s : Scan) (isDigit : Char → Bool) : Scan :=
  match s.rest with
  | c :: cs => if isDigit c then { s with rest := cs }.digits isDigit else s.missingDigit
  | [] => s.missingDigit

/-- A number may not run into a name or another digit. -/
def Scan.numberEnd (s : Scan) : Scan :=
  match s.rest with
  | c :: cs =>
    if c.isDigit || isNameStart c then
      { s with token := .broken, rest := cs.dropWhile isNameStart, faults := s.faults + 1 }
    else s
  | [] => s

def Scan.exponent (s : Scan) : Scan :=
  match s.rest with
  | c :: '+' :: cs | c :: '-' :: cs =>
    if c == 'e' || c == 'E' then { s with rest := cs }.someDigits Char.isDigit else s
  | c :: cs => if c == 'e' || c == 'E' then { s with rest := cs }.someDigits Char.isDigit else s
  | [] => s

def Scan.fraction (s : Scan) : Scan :=
  match s.rest with
  | c :: _ =>
    if c.isDigit then (s.someDigits Char.isDigit).exponent.numberEnd else s.exponent.numberEnd
  | [] => s

/-- A number in another base; without a digit it is no number. -/
def Scan.based (s : Scan) (isDigit : Char → Bool) : Scan :=
  let done := s.someDigits isDigit
  if done.faults != s.faults then { done with token := .broken }
  else match done.rest with
    | 'n' :: cs => { done with rest := cs }.numberEnd
    | _ => done.numberEnd

/-- A number with a leading zero: octal unless it holds an eight or a nine. -/
def Scan.leadingZero (s : Scan) : Scan :=
  let rest := s.rest.dropWhile Char.isDigit
  let isDecimal := (s.rest.takeWhile Char.isDigit).any fun c => c == '8' || c == '9'
  match isDecimal, rest with
  | true, '.' :: cs => { s with rest := cs }.fraction
  | true, 'e' :: cs => { s with rest := 'e' :: cs }.exponent
  | _, _ => { s with rest }.numberEnd

def isHexDigit (c : Char) : Bool := (hexDigit? c).isSome

def isOctalDigit (c : Char) : Bool := '0' ≤ c && c ≤ '7'

def isBinaryDigit (c : Char) : Bool := c == '0' || c == '1'

def scanNumber (cs : List Char) : Scan :=
  let start : Scan := { token := .number, rest := cs }
  match cs with
  | '.' :: cs => ({ start with rest := cs }.someDigits Char.isDigit).exponent.numberEnd
  | '0' :: 'x' :: cs | '0' :: 'X' :: cs => { start with rest := cs }.based isHexDigit
  | '0' :: 'o' :: cs | '0' :: 'O' :: cs => { start with rest := cs }.based isOctalDigit
  | '0' :: 'b' :: cs | '0' :: 'B' :: cs => { start with rest := cs }.based isBinaryDigit
  | '0' :: c :: cs =>
    if c.isDigit then { start with rest := c :: cs }.leadingZero
    else match c with
      | '.' => { start with rest := cs }.fraction
      | 'n' => { start with rest := cs }.numberEnd
      | 'e' | 'E' => { start with rest := c :: cs }.exponent
      | _ => { start with rest := c :: cs }.numberEnd
  | _ =>
    let whole := start.someDigits Char.isDigit
    match whole.rest with
    | '.' :: cs => { whole with rest := cs }.fraction
    | 'n' :: cs => { whole with rest := cs }.numberEnd
    | _ => whole.exponent.numberEnd

/-! ### Regular expressions -/

/-- The characters after the slash that closes a pattern, if one does on this line. -/
def dropPattern : Bool → Bool → List Char → Option (List Char)
  | _, _, [] => none
  | inClass, true, c :: cs => if isLineEnd c then none else dropPattern inClass false cs
  | inClass, false, c :: cs =>
    if isLineEnd c then none
    else if c == '\x5c' then dropPattern inClass true cs
    else if c == '[' then dropPattern true false cs
    else if c == ']' then dropPattern false false cs
    else if c == '/' && !inClass then some cs
    else dropPattern inClass false cs

def isFlagChar (c : Char) : Bool := c.isAlphanum || c == '$' || c == '_'

/-- The characters after a regular expression, whose first slash has been read already. Its flags are
known ones, each at most once. -/
def dropRegex (cs : List Char) : Option (List Char) := do
  let rest ← dropPattern false false cs
  let flags := rest.takeWhile isFlagChar
  if flags.all (fun c => "dgimsuvy".toList.contains c) && decide flags.Nodup then
    some (rest.dropWhile isFlagChar)
  else none

/-! ### The next token -/

/-- Marks in the order in which they are tried, so that the longest one wins. `>` stands alone: the
grammar joins it to what follows where it is an operator. -/
def marks : List (List Char × String) :=
  ["&&=", "**=", "...", "<<=", "===", "!==", "??=", "||=", "!=", "%=", "&&", "&=", "**", "*=",
   "++", "+=", "--", "-=", "/=", "<<", "<=", "==", "=>", "?.", "??", "^=", "|=", "||", "!", "%",
   "&", "*", "+", ",", "-", ".", "/", ":", ";", "<", "=", ">", "?", "@", "^", "|", "~"].map
    fun m => (m.toList, m)

def bracket? (c : Char) : Option Token :=
  match c with
  | '(' => some (.opening .round)
  | ')' => some (.closing .round)
  | '[' => some (.opening .square)
  | ']' => some (.closing .square)
  | '\x7b' => some (.opening .curly)
  | '\x7d' => some (.closing .curly)
  | _ => none

def scanMark (cs : List Char) : Scan :=
  match cs with
  | [] => { token := .endOfText, rest := [] }
  | c :: after =>
    match bracket? c with
    | some token => { token, rest := after }
    | none =>
      match marks.find? (·.1.isPrefixOf cs) with
      | some (letters, "?.") =>
        let rest := cs.drop letters.length
        if (rest.head?.map Char.isDigit).getD false then { token := .mark "?", rest := after }
        else { token := .mark "?.", rest }
      | some (letters, spelling) => { token := .mark spelling, rest := cs.drop letters.length }
      | none => { token := .broken, rest := after, faults := 1, stray := true }

def scanWord (cs : List Char) : Scan :=
  let name := scanName none false [] cs
  if name.valid then
    { token := .word (String.ofList name.reversed.reverse), escaped := name.escaped
      rest := name.rest }
  else { token := .broken, rest := name.rest, faults := 1 }

def scanPrivateName (cs : List Char) : Scan :=
  match cs with
  | [] => { token := .broken, rest := [], faults := 1 }
  | c :: after =>
    if isNameStart c || c == '\x5c' then
      let word := scanWord cs
      match word.token with
      | .word spelling => { word with token := .privateName spelling }
      | _ => word
    else { token := .broken, rest := after, faults := 1, stray := true }

def scanString (quote : Char) (cs : List Char) : Scan :=
  match runQuote (some quote) {} cs with
  | .closed state rest => { token := .text state.value, rest, faults := state.faults }
  | _ => { token := .broken, rest := [], faults := 1 }

/-- A stretch of a template; `opensIt` tells whether the backtick was just read or a closing brace. -/
def scanTemplate (opensIt : Bool) (cs : List Char) : Scan :=
  let cooked := fun (state : QuoteState) => if state.faults == 0 then some state.value else none
  match runQuote none {} cs with
  | .closed state rest =>
    { token := .template (if opensIt then .whole else .tail) (cooked state), rest }
  | .substitution state rest =>
    { token := .template (if opensIt then .head else .middle) (cooked state), rest }
  | .unclosed => { token := .broken, rest := [], faults := 1 }

/-- The next token of a text in which no comment or space comes first. -/
def scanToken (cs : List Char) : Scan :=
  match cs with
  | [] => { token := .endOfText, rest := [] }
  | c :: after =>
    if isNameStart c || c == '\x5c' then scanWord cs
    else if c.isDigit then scanNumber cs
    else if c == '\x22' || c == '\x27' then scanString c after
    else if c == '\x60' then scanTemplate true after
    else if c == '#' then scanPrivateName after
    else if c == '.' && (after.head?.map Char.isDigit).getD false then scanNumber cs
    else scanMark cs

/-- The next token. `newline` tells whether the text before counts as the head of a line. -/
def scan (isModule newline : Bool) (cs : List Char) : Scan :=
  let trivia := skipTrivia isModule .code newline 0 none cs
  if trivia.unclosed then
    { token := .endOfText, newline := trivia.newline, rest := [], faults := trivia.faults
      comment := trivia.comment }
  else
    let next := scanToken trivia.rest
    { next with
      newline := trivia.newline, faults := next.faults + trivia.faults, comment := trivia.comment }

/-- The first token of a file, after a line that begins with `#!`. -/
def scanFirst (isModule : Bool) (cs : List Char) : Scan :=
  match cs with
  | '#' :: '!' :: after => scan isModule true (after.dropWhile fun c => !isLineEnd c)
  | _ => scan isModule true cs

/-! ### Markup -/

/-- The next token among the children of a markup element: text up to a brace or an angle. A closing
brace or angle in the text is a fault. -/
def scanMarkupChild (cs : List Char) : Scan :=
  match cs with
  | [] => { token := .endOfText, rest := [] }
  | '\x7b' :: after => { token := .opening .curly, rest := after }
  | '<' :: after => { token := .mark "<", rest := after }
  | _ =>
    let isText := fun c => c != '\x7b' && c != '<'
    { token := .markupText, rest := cs.dropWhile isText
      faults := (cs.takeWhile isText).countP fun c => c == '>' || c == '\x7d' }

/-- The value of a markup attribute: a string in it has no escapes and may span lines. -/
def scanMarkupValue (isModule : Bool) (cs : List Char) : Scan :=
  let trivia := skipTrivia isModule .code false 0 none cs
  match trivia.rest with
  | c :: after =>
    if c == '\x22' || c == '\x27' then
      match after.dropWhile (· != c) with
      | _ :: rest =>
        { token := .text (String.ofList (after.takeWhile (· != c))), newline := trivia.newline, rest
          comment := trivia.comment }
      | [] => { token := .broken, rest := [], faults := 1 }
    else scan isModule false cs
  | [] => scan isModule false cs

end WorkflowAnalysis.Syntax
