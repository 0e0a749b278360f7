import WorkflowAnalysis.Syntax.Node

/-! Walks that carry a state through a tree. A walk meets a node before its parts and may leave the parts
out, so a search need not go on where it has nothing more to find. -/
namespace WorkflowAnalysis.Syntax.Node

/-- The state after a node itself, and whether the walk goes into the parts of the node or past them. -/
inductive Visit (σ : Type) where
  | into (state : σ)
  | past (state : σ)
deriving Repr

/-- Goes on with the parts of a node, unless they are left out. -/
def Visit.andThen {σ : Type} (parts : σ → σ) : Visit σ → σ
  | into state => parts state
  | past state => state

mutual

def walk {σ : Type} (visit : σ → Node → Visit σ) (state : σ) : Node → σ
  | n@(identifier _) | n@(string _) | n@this | n@(binding _) => (visit state n).andThen id
  | n@(importFrom _ _) | n@(exportAll _ _) => (visit state n).andThen id
  | n@(template _ parts) | n@(sequence parts) | n@(object parts) | n@(group parts) =>
    (visit state n).andThen fun state => walkList visit state parts
  | n@(objectPattern parts) | n@(variableDeclaration _ parts) =>
    (visit state n).andThen fun state => walkList visit state parts
  | n@(member subject _) | n@(privateMember subject _) =>
    (visit state n).andThen fun state => walk visit state subject
  | n@(index subject key) =>
    (visit state n).andThen fun state => walk visit (walk visit state subject) key
  | n@(call callee types arguments) | n@(construct callee types arguments) =>
    (visit state n).andThen fun state =>
      walkList visit (walkList visit (walk visit state callee) types) arguments
  | n@(spread value) | n@(chain value) | n@(expression value) =>
    (visit state n).andThen fun state => walk visit state value
  | n@(exportDeclaration value) | n@(exportDefault value) =>
    (visit state n).andThen fun state => walk visit state value
  | n@(property _ key value) | n@(patternProperty _ key value) =>
    (visit state n).andThen fun state => walk visit (walkList visit state key) value
  | n@(assign _ target value) =>
    (visit state n).andThen fun state => walk visit (walk visit state target) value
  | n@(typed before inner after) =>
    (visit state n).andThen fun state =>
      walkList visit (walk visit (walkList visit state before) inner) after
  | n@(arrow params body) | n@(function _ _ params body) =>
    (visit state n).andThen fun state => walkList visit (walkList visit state params) body
  | n@(classDef _ _ decorators base members) =>
    (visit state n).andThen fun state =>
      walkList visit (walkOption visit (walkList visit state decorators) base) members
  | n@(method _ _ decorators key func) =>
    (visit state n).andThen fun state =>
      walk visit (walkList visit (walkList visit state decorators) key) func
  | n@(field _ decorators key value) =>
    (visit state n).andThen fun state =>
      walkOption visit (walkList visit (walkList visit state decorators) key) value
  | n@(declarator target ascription value) =>
    (visit state n).andThen fun state =>
      walkOption visit (walkList visit (walk visit state target) ascription) value

def walkList {σ : Type} (visit : σ → Node → Visit σ) (state : σ) : List Node → σ
  | [] => state
  | n :: ns => walkList visit (walk visit state n) ns

def walkOption {σ : Type} (visit : σ → Node → Visit σ) (state : σ) : Option Node → σ
  | none => state
  | some n => walk visit state n

end

section

variable {σ : Type} (visit : σ → Node → Visit σ)

theorem walkList_eq_foldl (state : σ) (ns : List Node) :
    walkList visit state ns = ns.foldl (walk visit) state := by
  induction ns generalizing state with
  | nil => rfl
  | cons n ns ih => rw [walkList, ih, List.foldl_cons]

theorem walkOption_eq_foldl (state : σ) (n : Option Node) :
    walkOption visit state n = n.toList.foldl (walk visit) state := by
  cases n <;> rfl

/-- A walk takes the parts of a node one after the other. -/
theorem walk_eq (state : σ) (n : Node) :
    n.walk visit state = (visit state n).andThen (n.children.foldl (walk visit)) := by
  cases n <;>
    simp only [walk, children, walkList_eq_foldl, walkOption_eq_foldl, List.foldl_append,
      List.foldl_cons, List.foldl_nil, List.cons_append] <;> rfl

end

/-! ### Searches -/

/-- A walk looks for a node that passes a test. It may leave out the parts of a node once it has found
one, but not before. -/
def Seeks (test : Node → Bool) (visit : Bool → Node → Visit Bool) : Prop :=
  ∀ found n below, (visit found n).andThen (· || below) = (found || (test n || below))

section

variable {test : Node → Bool} {visit : Bool → Node → Visit Bool}

theorem foldl_walk_of_parts {ns : List Node}
    (h : ∀ n ∈ ns, ∀ found, n.walk visit found = (found || n.preorder.any test)) (found : Bool) :
    ns.foldl (walk visit) found = (found || (ns.flatMap preorder).any test) := by
  induction ns generalizing found with
  | nil => simp
  | cons n ns ih =>
    rw [List.foldl_cons, h n List.mem_cons_self, ih fun later hm => h later (List.mem_cons_of_mem _ hm),
      List.flatMap_cons, List.any_append, Bool.or_assoc]

theorem Seeks.walk (h : Seeks test visit) (n : Node) (found : Bool) :
    n.walk visit found = (found || n.preorder.any test) := by
  induction n using induction_children generalizing found with
  | step n ih =>
    rw [walk_eq, funext (foldl_walk_of_parts ih), h, preorder_eq, List.any_cons]

/-- Whatever a search leaves out, it finds what a search of all nodes finds. -/
theorem Seeks.walkList (h : Seeks test visit) (ns : List Node) (found : Bool) :
    walkList visit found ns = (found || (preorderList ns).any test) := by
  rw [walkList_eq_foldl, preorderList_eq_flatMap, foldl_walk_of_parts fun n _ => h.walk n]

end

end WorkflowAnalysis.Syntax.Node
