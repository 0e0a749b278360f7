import WorkflowAnalysis.Syntax.Grammar.Modules

/-! Reading a whole text. A text is read as a script first and, unless that leaves no error at all, as
a module; what is left of either reading counts as long as the reading did not break down. -/
namespace WorkflowAnalysis.Syntax

structure Reading where
  program : Program
  errors : Nat
  broken : Bool

namespace Reading

def isClean (reading : Reading) : Bool := !reading.broken && reading.errors == 0

/-- How deep the rules of the grammar may nest in a text of a given length. Every character opens a
bounded number of rules, so no text is too deep for it. -/
def depth (length : Nat) : Nat := 12 * length + 64

def parser (length : Nat) : Parser (List Node) :=
  (Rules.ofDepth (depth length)).statements (return false)

/-- Some characters stand next to each other in others. -/
def isWithin (part : List Char) : List Char → Bool
  | [] => part.isEmpty
  | c :: cs => part.isPrefixOf (c :: cs) || isWithin part cs

/-- The first comment of a text announces types that are written in another way than the grammar knows. -/
def announcesTypes (comment : Option (List Char)) : Bool :=
  (comment.map fun text => isWithin "@flow".toList (commentText text)).getD false

/-- Reads a text in one dialect. A reading breaks down when the grammar gives up, when a character
begins no token, and when errors leave no statement behind. In an untyped text that announces types,
all errors count as one, and a stray character is not told apart from the others. -/
def ofText (dialect : Dialect) (text : List Char) : Reading :=
  let length := text.length
  let first := scanFirst dialect.isModule text
  let setting : Setting := { dialect, bound := length, inAsync := dialect.isModule }
  let start : Cursor :=
    { token := first.token, newline := first.newline, escaped := first.escaped, rest := first.rest
      faults := first.faults, stray := first.stray, comment := first.comment }
  match parser length setting start with
  | .ok body last =>
    let errors := last.errors + last.faults + last.loose
    let isForgiven := !dialect.typescript && announcesTypes last.comment
    { program := ⟨body⟩, errors
      broken := (last.stray && !isForgiven) || (errors != 0 && body.isEmpty) }
  | .error _ _ => { program := ⟨[]⟩, errors := 1, broken := true }

end Reading

structure Language where
  typescript : Bool
  markup : Bool
deriving DecidableEq, Repr, Inhabited

def Language.dialect (language : Language) (isModule : Bool) : Dialect :=
  { typescript := language.typescript, markup := language.markup, isModule }

/-- The program of a text: its reading as a script if that is clean, else its reading as a module,
else what was left of the script. -/
def Program.ofText? (language : Language) (text : String) : Option Program :=
  let script := Reading.ofText (language.dialect false) text.toList
  if script.isClean then some script.program
  else
    let asModule := Reading.ofText (language.dialect true) text.toList
    if !asModule.broken then some asModule.program
    else if !script.broken then some script.program
    else none

end WorkflowAnalysis.Syntax
