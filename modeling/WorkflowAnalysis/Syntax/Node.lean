import WorkflowAnalysis.Syntax.Token

/-! The syntax tree of a source file. It keeps apart the forms that dependency extraction looks at
(names, strings, members, calls, object literals, functions, classes, declarations, imports and
exports); every other form is a `group` of its parts in source order, because all that is ever asked
of it is what stands inside. Types are erased down to the expressions written within them. -/
namespace WorkflowAnalysis.Syntax

/-- Whether a function stands as a declaration, as an expression, or has no body at all. -/
inductive FunctionRole where
  | declaration
  | expression
  | signature
deriving DecidableEq, Repr, Inhabited

inductive MethodRole where
  | constructor
  | ordinary
deriving DecidableEq, Repr, Inhabited

inductive ClassRole where
  | declaration
  | expression
deriving DecidableEq, Repr, Inhabited

inductive VariableKind where
  | constant
  | other
deriving DecidableEq, Repr, Inhabited

/-- A node of the tree. Where a member, property or method has a key, `name` is the key when it is
written as a bare name, and `key` holds the expressions of a key written any other way. -/
inductive Node where
  | identifier (name : String)
  | string (value : String)
  /-- `plain` is the text of a template without substitutions. -/
  | template (plain : Option String) (parts : List Node)
  | this
  | member (object : Node) (property : String)
  | index (object key : Node)
  | privateMember (object : Node) (property : String)
  /-- `types` is what remains of type arguments. -/
  | call (callee : Node) (types arguments : List Node)
  | construct (callee : Node) (types arguments : List Node)
  | spread (value : Node)
  | sequence (items : List Node)
  | object (members : List Node)
  | property (name : Option String) (key : List Node) (value : Node)
  | assign (operator : AssignOperator) (target value : Node)
  /-- The whole of a chain of optional accesses. -/
  | chain (inner : Node)
  /-- An expression under a type: a cast, a non-null mark, an instantiation. -/
  | typed (before : List Node) (inner : Node) (after : List Node)
  | arrow (params body : List Node)
  | function (role : FunctionRole) (name : Option String) (params body : List Node)
  | classDef (role : ClassRole) (name : Option String) (decorators : List Node)
      (base : Option Node) (members : List Node)
  | method (role : MethodRole) (name : Option String) (decorators key : List Node) (function : Node)
  | field (name : Option String) (decorators key : List Node) (value : Option Node)
  | binding (name : String)
  | objectPattern (properties : List Node)
  | patternProperty (name : Option String) (key : List Node) (target : Node)
  | expression (value : Node)
  | variableDeclaration (kind : VariableKind) (declarators : List Node)
  | declarator (target : Node) (ascription : List Node) (value : Option Node)
  | importFrom (locals : List String) (source : String)
  | exportDeclaration (declaration : Node)
  | exportDefault (value : Node)
  | exportAll (name : Option String) (source : String)
  | group (parts : List Node)
deriving Repr, Inhabited

namespace Node

/-- The direct parts of a node, in the order in which they are visited. -/
def children : Node → List Node
  | identifier _ | string _ | this | binding _ => []
  | importFrom _ _ | exportAll _ _ => []
  | template _ parts | sequence parts | object parts | group parts => parts
  | objectPattern parts | variableDeclaration _ parts => parts
  | member subject _ | privateMember subject _ => [subject]
  | index subject key => [subject, key]
  | call callee types arguments | construct callee types arguments => callee :: types ++ arguments
  | spread value | chain value | expression value => [value]
  | exportDeclaration value | exportDefault value => [value]
  | property _ key value | patternProperty _ key value => key ++ [value]
  | assign _ target value => [target, value]
  | typed before inner after => before ++ inner :: after
  | arrow params body | function _ _ params body => params ++ body
  | classDef _ _ decorators base members => decorators ++ base.toList ++ members
  | method _ _ decorators key func => decorators ++ key ++ [func]
  | field _ decorators key value => decorators ++ key ++ value.toList
  | declarator target ascription value => target :: ascription ++ value.toList

mutual

/-- A node and all nodes below it, each before its parts. -/
def preorder : Node → List Node
  | n@(identifier _) | n@(string _) | n@this | n@(binding _) => [n]
  | n@(importFrom _ _) | n@(exportAll _ _) => [n]
  | n@(template _ parts) | n@(sequence parts) | n@(object parts) | n@(group parts) =>
    n :: preorderList parts
  | n@(objectPattern parts) | n@(variableDeclaration _ parts) => n :: preorderList parts
  | n@(member subject _) | n@(privateMember subject _) => n :: preorder subject
  | n@(index subject key) => n :: (preorder subject ++ preorder key)
  | n@(call callee types arguments) | n@(construct callee types arguments) =>
    n :: (preorder callee ++ (preorderList types ++ preorderList arguments))
  | n@(spread value) | n@(chain value) | n@(expression value) => n :: preorder value
  | n@(exportDeclaration value) | n@(exportDefault value) => n :: preorder value
  | n@(property _ key value) | n@(patternProperty _ key value) =>
    n :: (preorderList key ++ preorder value)
  | n@(assign _ target value) => n :: (preorder target ++ preorder value)
  | n@(typed before inner after) =>
    n :: (preorderList before ++ (preorder inner ++ preorderList after))
  | n@(arrow params body) | n@(function _ _ params body) =>
    n :: (preorderList params ++ preorderList body)
  | n@(classDef _ _ decorators base members) =>
    n :: (preorderList decorators ++ (preorderOption base ++ preorderList members))
  | n@(method _ _ decorators key func) =>
    n :: (preorderList decorators ++ (preorderList key ++ preorder func))
  | n@(field _ decorators key value) =>
    n :: (preorderList decorators ++ (preorderList key ++ preorderOption value))
  | n@(declarator target ascription value) =>
    n :: (preorder target ++ (preorderList ascription ++ preorderOption value))

def preorderList : List Node → List Node
  | [] => []
  | n :: ns => preorder n ++ preorderList ns

def preorderOption : Option Node → List Node
  | none => []
  | some n => preorder n

end

theorem preorderList_eq_flatMap (ns : List Node) : preorderList ns = ns.flatMap preorder := by
  induction ns with
  | nil => simp [preorderList]
  | cons n ns ih => simp [preorderList, ih]

theorem preorderOption_eq_flatMap (n : Option Node) :
    preorderOption n = n.toList.flatMap preorder := by
  cases n <;> simp [preorderOption]

/-- The equation by which everything else about `preorder` is proved. -/
theorem preorder_eq (n : Node) : n.preorder = n :: n.children.flatMap preorder := by
  cases n <;>
    simp [preorder, children, preorderList_eq_flatMap, preorderOption_eq_flatMap]

theorem mem_preorder_self (n : Node) : n ∈ n.preorder := by
  rw [preorder_eq]; simp

theorem mem_preorder_of_child {n c m : Node} (hc : c ∈ n.children) (hm : m ∈ c.preorder) :
    m ∈ n.preorder := by
  rw [preorder_eq]
  exact List.mem_cons_of_mem _ (List.mem_flatMap.mpr ⟨c, hc, hm⟩)

/-! ### Induction over the parts -/

theorem sizeOf_lt_of_mem_children {n child : Node} (h : child ∈ n.children) :
    sizeOf child < sizeOf n := by
  have hlist {ns : List Node} (hm : child ∈ ns) : sizeOf child < sizeOf ns :=
    List.sizeOf_lt_of_mem hm
  have hoption {o : Option Node} (hm : child ∈ o.toList) : sizeOf child < sizeOf o := by
    cases o <;> simp_all
  cases n <;> simp only [children, List.mem_cons, List.mem_append, List.not_mem_nil, or_false] at h <;>
    grind

theorem induction_children {motive : Node → Prop}
    (step : ∀ n, (∀ child ∈ n.children, motive child) → motive n) (n : Node) : motive n :=
  step n fun child _ => induction_children step child
termination_by sizeOf n
decreasing_by exact sizeOf_lt_of_mem_children ‹_›

end Node

/-- A parsed file: its statements, directives left out. -/
structure Program where
  body : List Node
deriving Repr, Inhabited

/-- Every node of a program in visiting order. -/
def Program.nodes (program : Program) : List Node :=
  Node.preorderList program.body

end WorkflowAnalysis.Syntax
