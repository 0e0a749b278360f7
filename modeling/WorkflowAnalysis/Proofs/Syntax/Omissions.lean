import WorkflowAnalysis.Proofs.Syntax.SourceOrder

/-! Statements left out. Leaving statements out of a program, at any depth, changes nothing of what a walk
finds in the rest, as long as nothing is found in the statements themselves. -/
namespace WorkflowAnalysis.Syntax

namespace Node

mutual

/-- A node without certain statements: none of them is left among the statements of a body, of a block,
or of any other form that only groups its parts. -/
@[simp] def without (drop : Node → Bool) : Node → Node
  | identifier name => identifier name
  | string value => string value
  | template plain parts => template plain (withoutEach drop parts)
  | this => this
  | member subject name => member (without drop subject) name
  | index subject key => index (without drop subject) (without drop key)
  | privateMember subject name => privateMember (without drop subject) name
  | call callee types arguments =>
    call (without drop callee) (withoutEach drop types) (withoutEach drop arguments)
  | construct callee types arguments =>
    construct (without drop callee) (withoutEach drop types) (withoutEach drop arguments)
  | spread value => spread (without drop value)
  | sequence items => sequence (withoutEach drop items)
  | object members => object (withoutEach drop members)
  | property name key value => property name (withoutEach drop key) (without drop value)
  | assign operator target value => assign operator (without drop target) (without drop value)
  | chain inner => chain (without drop inner)
  | typed before inner after =>
    typed (withoutEach drop before) (without drop inner) (withoutEach drop after)
  | arrow params body => arrow (withoutEach drop params) (kept drop body)
  | function role name params body =>
    function role name (withoutEach drop params) (kept drop body)
  | classDef role name decorators base members =>
    classDef role name (withoutEach drop decorators) (withoutOption drop base)
      (withoutEach drop members)
  | method role name decorators key func =>
    method role name (withoutEach drop decorators) (withoutEach drop key) (without drop func)
  | field name decorators key value =>
    field name (withoutEach drop decorators) (withoutEach drop key) (withoutOption drop value)
  | binding name => binding name
  | objectPattern properties => objectPattern (withoutEach drop properties)
  | patternProperty name key target =>
    patternProperty name (withoutEach drop key) (without drop target)
  | expression value => expression (without drop value)
  | variableDeclaration kind declarators =>
    variableDeclaration kind (withoutEach drop declarators)
  | declarator target ascription value =>
    declarator (without drop target) (withoutEach drop ascription) (withoutOption drop value)
  | importFrom locals source => importFrom locals source
  | exportDeclaration declaration => exportDeclaration (without drop declaration)
  | exportDefault value => exportDefault (without drop value)
  | exportAll name source => exportAll name source
  | group parts => group (kept drop parts)

def withoutEach (drop : Node → Bool) : List Node → List Node
  | [] => []
  | n :: ns => without drop n :: withoutEach drop ns

def withoutOption (drop : Node → Bool) : Option Node → Option Node
  | none => none
  | some n => some (without drop n)

def kept (drop : Node → Bool) : List Node → List Node
  | [] => []
  | n :: ns => if drop n then kept drop ns else without drop n :: kept drop ns

end

variable {drop : Node → Bool}

@[simp] theorem withoutEach_eq_map (ns : List Node) :
    withoutEach drop ns = ns.map (without drop) := by
  induction ns with
  | nil => rfl
  | cons n ns ih => rw [withoutEach, ih, List.map_cons]

@[simp] theorem withoutOption_eq_map (n : Option Node) :
    withoutOption drop n = n.map (without drop) := by
  cases n <;> rfl

theorem flatMap_kept {β : Type} {below : Node → List β} (ns : List Node)
    (h : ∀ n ∈ ns, drop n = true → below (n.without drop) = []) :
    (kept drop ns).flatMap below = ns.flatMap fun n => below (n.without drop) := by
  induction ns with
  | nil => rfl
  | cons n ns ih =>
    have hrest := ih fun later hm => h later (List.mem_cons_of_mem _ hm)
    rw [kept, List.flatMap_cons]
    split
    · next hdrop => rw [h n List.mem_cons_self hdrop, List.nil_append, hrest]
    · rw [List.flatMap_cons, hrest]

/-! ### Single forms -/

@[simp] theorem identifier?_without (n : Node) : (n.without drop).identifier? = n.identifier? := by
  cases n <;> rfl

theorem untyped_without (n : Node) : (n.without drop).untyped = n.untyped.without drop := by
  fun_induction untyped n with
  | case1 before inner after ih => rw [without, untyped, ih]
  | case2 n hn => cases n <;> first | rfl | exact absurd rfl (hn _ _ _)

@[simp] theorem isNamed_without (name : String) (n : Node) :
    (n.without drop).isNamed name = n.isNamed name := by
  unfold isNamed
  rw [untyped_without]
  cases n.untyped <;> rfl

/-! ### What a walk finds -/

theorem flatMap_children_without {β : Type} {below : Node → List β} (n : Node)
    (h : ∀ child ∈ n.children, drop child = true → below (child.without drop) = []) :
    (n.without drop).children.flatMap below =
      n.children.flatMap fun child => below (child.without drop) := by
  cases n with
  | group parts => exact flatMap_kept parts h
  | arrow params body =>
    have hbody := flatMap_kept body fun child hm => h child (by simp [children, hm])
    simp [children, List.flatMap_map, hbody]
  | function role name params body =>
    have hbody := flatMap_kept body fun child hm => h child (by simp [children, hm])
    simp [children, List.flatMap_map, hbody]
  | _ => simp [children, List.flatMap_map, Option.toList_map]

theorem flatMap_preorder_without {β : Type} {found : Node → List β}
    (hsame : ∀ n : Node, found (n.without drop) = found n)
    (hdrop : ∀ n, drop n = true → n.preorder.flatMap found = []) (n : Node) :
    (n.without drop).preorder.flatMap found = n.preorder.flatMap found := by
  induction n using induction_children with
  | step n ih =>
    have hdropped (child : Node) (hm : child ∈ n.children) (hd : drop child = true) :
        (child.without drop).preorder.flatMap found = [] := by
      rw [ih child hm, hdrop child hd]
    rw [preorder_eq, preorder_eq n, List.flatMap_cons, List.flatMap_cons, List.flatMap_assoc,
      List.flatMap_assoc, hsame, flatMap_children_without n hdropped, List.flatMap_congr ih]

end Node

namespace Program

/-- A program without certain statements, at the top level and at any depth below it. -/
def without (drop : Node → Bool) (program : Program) : Program := ⟨Node.kept drop program.body⟩

/-- A search of all nodes finds the same without statements in which it finds nothing. -/
theorem findSome?_nodes_without {β : Type} {drop : Node → Bool} {found : Node → Option β}
    (hsame : ∀ n : Node, found (n.without drop) = found n)
    (hdrop : ∀ n, drop n = true → ∀ node, n.Contains node → found node = none) (program : Program) :
    (program.without drop).nodes.findSome? found = program.nodes.findSome? found := by
  have hnothing (n : Node) (hd : drop n = true) :
      (n.preorder.flatMap fun node => (found node).toList) = [] := by
    rw [List.flatMap_eq_nil_iff]
    intro node hm
    rw [hdrop n hd node (Node.mem_preorder_iff.mp hm), Option.toList_none]
  have hbelow (n : Node) : ((n.without drop).preorder.flatMap fun node => (found node).toList) =
      n.preorder.flatMap fun node => (found node).toList :=
    Node.flatMap_preorder_without (fun node => by rw [hsame]) hnothing n
  have hdropped (n : Node) (hd : drop n = true) :
      ((n.without drop).preorder.flatMap fun node => (found node).toList) = [] := by
    rw [hbelow, hnothing n hd]
  rw [← List.head?_filterMap, ← List.head?_filterMap, List.filterMap_eq_flatMap_toList,
    List.filterMap_eq_flatMap_toList, nodes, nodes, without, Node.preorderList_eq_flatMap,
    Node.preorderList_eq_flatMap, List.flatMap_assoc, List.flatMap_assoc,
    Node.flatMap_kept program.body fun n _ => hdropped n, List.flatMap_congr fun n _ => hbelow n]

end Program

end WorkflowAnalysis.Syntax
