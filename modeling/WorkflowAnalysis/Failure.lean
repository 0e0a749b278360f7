import WorkflowAnalysis.Files.Tree
import WorkflowAnalysis.Syntax.Source

/-! What can go wrong with the file an analysis starts from, or with the directory a registry is given.
Files that are only looked up on the way never fail an analysis: they add nothing. -/
namespace WorkflowAnalysis

open Syntax

structure ParseFailure where
  diagnostic : String
deriving DecidableEq, Repr

def ParseFailure.message (failure : ParseFailure) : String := failure.diagnostic

inductive Failure where
  | unreadable (path : Path) (fault : Fault)
  | unlistable (path : Path) (fault : Fault)
  | unparsable (path : Path) (cause : ParseFailure)
deriving DecidableEq, Repr

namespace Failure

def path : Failure → Path
  | unreadable path _ | unlistable path _ | unparsable path _ => path

def heading : Failure → String
  | unreadable path _ | unlistable path _ => "Failed to read workflow file at " ++ path.toString ++ ": "
  | unparsable path _ => "Failed to parse JavaScript workflow file at " ++ path.toString ++ ": "

def reason : Failure → String
  | unreadable _ fault => fault.message
  | unlistable path fault => "IO error for operation on " ++ path.toString ++ ": " ++ fault.message
  | unparsable _ cause => cause.message

def message (failure : Failure) : String := failure.heading ++ failure.reason

end Failure

def Syntax.Language.ofPath (path : Path) : Language :=
  let extension := path.extension?.getD ""
  { typescript := ["ts", "mts", "cts", "tsx"].contains extension
    markup := ["tsx", "jsx"].contains extension }

/-- Parses a text as if it stood in a file. The diagnostic only tells that there is one: which error of
which reading a parser names, and in what words, is left open. -/
def Syntax.Program.parse (path : Path) (text : String) : Except ParseFailure Program :=
  match Program.ofText? (Language.ofPath path) text with
  | some program => .ok program
  | none => .error ⟨"unrecoverable syntax error"⟩

namespace FileTree

/-- The text of a file that has to be there. -/
def load (tree : FileTree) (path : Path) : Except Failure String :=
  (tree.read path).mapError (.unreadable path)

def parseFile (tree : FileTree) (path : Path) : Except Failure Program := do
  let text ← tree.load path
  (Program.parse path text).mapError (.unparsable path)

/-- The program in a file that may be missing or broken. -/
def program? (tree : FileTree) (path : Path) : Option Program := (tree.parseFile path).toOption

end FileTree

end WorkflowAnalysis
