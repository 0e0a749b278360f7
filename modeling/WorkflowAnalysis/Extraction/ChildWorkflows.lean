import WorkflowAnalysis.Extraction.Site
import WorkflowAnalysis.Syntax.Walk

/-! Child workflows. A call starts one when it calls the start function itself, when it passes options
with a workflow type to a local function that does, or when it passes a type and a queue to any
method. What is not known from the text alone is left out rather than guessed. -/
namespace WorkflowAnalysis

open Syntax

/-- A call of the start function, but not of a method of that name on `this`. -/
def isDirectStart (vocabulary : Vocabulary) (callee : Node) : Bool :=
  (callee.targetName?.map vocabulary.isChildStart).getD false && !callee.isThisMember

def typedOptions? (arguments : List Node) : Option (List Node) := do
  let members ← (Node.argument? arguments 0).bind Node.members?
  if (Node.property? members "type").isSome then some members else none

def isStart (vocabulary : Vocabulary) (wrappers : List String) (callee : Node)
    (arguments : List Node) : Bool :=
  isDirectStart vocabulary callee ||
    match typedOptions? arguments with
    | none => false
    | some members =>
      (callee.plainName?.map wrappers.contains).getD false
        || (callee.isMember && (Node.property? members "taskQueue").isSome)

/-! ### Wrappers -/

def isDirectStartCall (vocabulary : Vocabulary) : Node → Bool
  | .call callee _ _ => isDirectStart vocabulary callee
  | _ => false

/-- A search for a start call. It goes past the parts of the first one that it finds, and from then on
past every call. -/
def seekStart (vocabulary : Vocabulary) (found : Bool) : Node → Node.Visit Bool
  | node@(.call _ _ _) =>
    if found || isDirectStartCall vocabulary node then .past true else .into false
  | _ => .into found

def startsChild (vocabulary : Vocabulary) (body : List Node) : Bool :=
  Node.walkList (seekStart vocabulary) false body

theorem seeks_seekStart (vocabulary : Vocabulary) :
    Node.Seeks (isDirectStartCall vocabulary) (seekStart vocabulary) := by
  intro found node below
  unfold seekStart
  split
  · cases found <;> cases isDirectStartCall vocabulary _ <;> rfl
  · next hother =>
    have hcall : isDirectStartCall vocabulary node = false := by
      unfold isDirectStartCall
      split
      · exact absurd rfl (hother _ _ _)
      · rfl
    rw [hcall]
    rfl

/-- What the search leaves out changes nothing: it finds what a search of all nodes finds. -/
theorem startsChild_eq_any (vocabulary : Vocabulary) (body : List Node) :
    startsChild vocabulary body =
      (Node.preorderList body).any (isDirectStartCall vocabulary) := by
  rw [startsChild, (seeks_seekStart vocabulary).walkList, Bool.false_or]

/-- A named function with its body: declared, a method, or bound to a variable. -/
def namedBody? : Node → Option (String × List Node)
  | .function .declaration (some name) _ body => some (name, body)
  | .method _ (some name) _ _ (.function _ _ _ body) => some (name, body)
  | .declarator (.binding name) _ (some (.arrow _ body)) => some (name, body)
  | .declarator (.binding name) _ (some (.function .expression _ _ body)) => some (name, body)
  | _ => none

def wrapperName? (vocabulary : Vocabulary) (node : Node) : Option String := do
  let (name, body) ← namedBody? node
  if startsChild vocabulary body then some name else none

/-- The names of local functions that start a child workflow, each once. -/
def Syntax.Program.wrappers (program : Program) (vocabulary : Vocabulary) : List String :=
  (program.nodes.filterMap (wrapperName? vocabulary)).eraseDups

/-! ### Start sites -/

namespace SourceFile

/-- The property that a member of a constant reads, one or two steps down. -/
def constantMember? (file : SourceFile) : Node → Option String
  | .member (.identifier root) property | .member (.member (.identifier root) _) property =>
    if isConstantName file.program file.imports root then some property else none
  | _ => none

/-- The workflow that a type option names; the `name` of a function is the function's. -/
def workflowType? (file : SourceFile) : Node → Option String
  | .string value => some value
  | .identifier name => some name
  | .member object property =>
    if property == "name" then
      match object with
      | .identifier name => some name
      | .member _ inner => some inner
      | _ => none
    else file.constantMember? (.member object property)
  | _ => none

end SourceFile

namespace Project

def optionsQueue? (project : Project) (file : SourceFile) (members : List Node) : Option String := do
  match ← Node.property? members "taskQueue" with
  | .string value => some value
  | .identifier name => some name
  | node => project.memberValue? file node

def secondQueue? (project : Project) (file : SourceFile) (arguments : List Node) : Option String := do
  project.optionsQueue? file (← (Node.argument? arguments 1).bind Node.members?)

/-- The workflow that the arguments of a start call name, and the queue if they give one. -/
def startInfo? (project : Project) (file : SourceFile) (isDirect : Bool) (arguments : List Node) :
    Option (String × Option String) := do
  match ← Node.argument? arguments 0 with
  | .string value => some (value, project.secondQueue? file arguments)
  | .identifier name => if isDirect then some (name, project.secondQueue? file arguments) else none
  | .member object property =>
    if isDirect then
      some (← file.constantMember? (.member object property), project.secondQueue? file arguments)
    else none
  | .object members =>
    some (← (Node.property? members "type").bind file.workflowType?, project.optionsQueue? file members)
  | _ => none

def childSite? (project : Project) (file : SourceFile) (wrappers : List String) : Node → Option Site
  | .call callee _ arguments =>
    if isStart project.vocabulary wrappers callee arguments then
      (project.startInfo? file (isDirectStart project.vocabulary callee) arguments).map
        fun (name, queue) => ⟨name, queue.getD file.fallback⟩
    else none
  | _ => none

def childSites (project : Project) (file : SourceFile) : List Site :=
  file.program.nodes.filterMap
    (project.childSite? file (file.program.wrappers project.vocabulary))

end Project

end WorkflowAnalysis
