import WorkflowAnalysis.Syntax.Grammar.Goal
import WorkflowAnalysis.Syntax.Grammar.Types

/-! Markup elements. The tree holds the expressions in attributes and children and no names; a closing
tag that does not match its opening tag is an error that is let pass. -/
namespace WorkflowAnalysis.Syntax

open Syntax.Parser

namespace Rules

/-- Closes a tag or a container; inside another element, text comes next. -/
def closeMarkup (token : Token) (inside : Bool) : Parser Unit := do
  unless ← isToken token do giveUp
  if inside then place (scanMarkupChild (← get).rest) else advance

/-- A word that goes on over hyphens. -/
def markupWord : Parser String := do
  match ← peek with
  | .word start =>
    let isPart := fun c => c == '-' || Text.isNamePart c
    let rest := (← get).rest
    advanceFrom (rest.dropWhile isPart)
    return start ++ String.ofList (rest.takeWhile isPart)
  | _ => giveUp

/-- What a tag is called: nothing for a fragment, else a word, a pair joined by a colon, or a path of
words. -/
inductive TagName where
  | fragment
  | qualified (space name : String)
  | path (words : List String)
deriving DecidableEq

def markupName : Parser TagName := do
  let first ← markupWord
  if ← takeMark ":" then return .qualified first (← markupWord)
  iterate [first] fun words => do
    if ← takeMark "." then return .inl ((← markupWord) :: words)
    else return .inr (.path words.reverse)

def markupContainer (r : Rules) (inside : Bool) : Parser Node := do
  expectOpening .curly
  if ← isClosing .curly then
    closeMarkup (.closing .curly) inside
    return .group []
  else
    let _ ← takeMark "..."
    let inner ← allowIn r.expression
    let isSequence := match inner.node with
      | .sequence _ => true
      | _ => false
    recordIf isSequence
    closeMarkup (.closing .curly) inside
    return inner.node

def markupAttribute (r : Rules) : Parser Node := do
  if ← isOpening .curly then
    advance
    expectMark "..."
    let inner ← r.operand
    expectClosing .curly
    return inner
  let _ ← markupWord
  if ← takeMark ":" then
    let _ ← markupWord
  if ← isMark "=" then
    place (scanMarkupValue (← read).dialect.isModule (← get).rest)
    match ← peek with
    | .text value =>
      advance
      return .string value
    | .opening .curly => r.markupContainer false
    | .mark "<" => r.markup false
    | _ => giveUp
  else return .group []

def markupAttributes (r : Rules) : Parser (List Node) :=
  manyUntil (return (← isMark ">") || (← isMark "/")) r.markupAttribute

def closingTag (name : TagName) (inside : Bool) : Parser Unit := do
  expectMark "<"
  expectMark "/"
  let closing ← if ← isMark ">" then pure .fragment else markupName
  recordIf (closing != name)
  closeMarkup (.mark ">") inside

def markupChildren (r : Rules) : Parser (List Node) :=
  iterate [] fun found => do
    match ← peek with
    | .markupText =>
      place (scanMarkupChild (← get).rest)
      return .inl found
    | .opening .curly => return .inl ((← r.markupContainer true) :: found)
    | .mark "<" =>
      if ← nextIs (isMark "/") then return .inr found.reverse
      else return .inl ((← r.markup true) :: found)
    | _ => giveUp

def markupRule (r : Rules) (inside : Bool) : Parser Node := do
  expectMark "<"
  if ← isMark ">" then
    closeMarkup (.mark ">") true
    let children ← r.markupChildren
    closingTag .fragment inside
    return .group children
  let name ← markupName
  let types ← if ← isTypescript then r.typeArguments? else pure []
  let attributes ← r.markupAttributes
  if ← takeMark "/" then
    closeMarkup (.mark ">") inside
    return .group (types ++ attributes)
  else
    closeMarkup (.mark ">") true
    let children ← r.markupChildren
    closingTag name inside
    return .group (types ++ attributes ++ children)

end Rules

end WorkflowAnalysis.Syntax
