import Mathlib.Data.List.Basic
import WorkflowAnalysis.Syntax.Shape

/-! Calls as compiled code writes them. Where a program calls a name it imports, compiled code calls a
member of the module, taken out of a pair so that the module is not passed along: `f(x)` becomes
`(0, m.f)(x)`. The tree keeps its form everywhere else, so of the nodes that are ever asked what they
are none is added or lost. -/
namespace WorkflowAnalysis.Syntax

namespace Node

/-- A callee that is a name goes through the module that the name is linked to, if there is one. The
number in front is a node without parts. -/
def linkCallee (link : String → Option String) : Node → Node
  | identifier name =>
    match link name with
    | some owner => sequence [group [], member (identifier owner) name]
    | none => identifier name
  | callee => callee

mutual

/-- All calls of linked names go through their modules. -/
@[simp] def compiled (link : String → Option String) : Node → Node
  | identifier name => identifier name
  | string value => string value
  | template plain parts => template plain (compiledList link parts)
  | this => this
  | member subject name => member (compiled link subject) name
  | index subject key => index (compiled link subject) (compiled link key)
  | privateMember subject name => privateMember (compiled link subject) name
  | call callee types arguments =>
    call (linkCallee link (compiled link callee)) (compiledList link types)
      (compiledList link arguments)
  | construct callee types arguments =>
    construct (compiled link callee) (compiledList link types) (compiledList link arguments)
  | spread value => spread (compiled link value)
  | sequence items => sequence (compiledList link items)
  | object members => object (compiledList link members)
  | property name key value => property name (compiledList link key) (compiled link value)
  | assign operator target value => assign operator (compiled link target) (compiled link value)
  | chain inner => chain (compiled link inner)
  | typed before inner after =>
    typed (compiledList link before) (compiled link inner) (compiledList link after)
  | arrow params body => arrow (compiledList link params) (compiledList link body)
  | function role name params body =>
    function role name (compiledList link params) (compiledList link body)
  | classDef role name decorators base members =>
    classDef role name (compiledList link decorators) (compiledOption link base)
      (compiledList link members)
  | method role name decorators key func =>
    method role name (compiledList link decorators) (compiledList link key) (compiled link func)
  | field name decorators key value =>
    field name (compiledList link decorators) (compiledList link key) (compiledOption link value)
  | binding name => binding name
  | objectPattern properties => objectPattern (compiledList link properties)
  | patternProperty name key target =>
    patternProperty name (compiledList link key) (compiled link target)
  | expression value => expression (compiled link value)
  | variableDeclaration kind declarators =>
    variableDeclaration kind (compiledList link declarators)
  | declarator target ascription value =>
    declarator (compiled link target) (compiledList link ascription) (compiledOption link value)
  | importFrom locals source => importFrom locals source
  | exportDeclaration declaration => exportDeclaration (compiled link declaration)
  | exportDefault value => exportDefault (compiled link value)
  | exportAll name source => exportAll name source
  | group parts => group (compiledList link parts)

def compiledList (link : String → Option String) : List Node → List Node
  | [] => []
  | n :: ns => compiled link n :: compiledList link ns

def compiledOption (link : String → Option String) : Option Node → Option Node
  | none => none
  | some n => some (compiled link n)

end

variable {link : String → Option String}

@[simp] theorem compiledList_eq_map (ns : List Node) :
    compiledList link ns = ns.map (compiled link) := by
  induction ns with
  | nil => rfl
  | cons n ns ih => rw [compiledList, ih, List.map_cons]

@[simp] theorem compiledOption_eq_map (n : Option Node) :
    compiledOption link n = n.map (compiled link) := by
  cases n <;> rfl

/-! ### Nodes in visiting order -/

/-- What is found at a node does not come from the forms a callee is made of. -/
structure Overlooks {β : Type} (found : Node → List β) : Prop where
  identifier : ∀ name, found (.identifier name) = []
  member : ∀ subject name, found (.member subject name) = []
  sequence : ∀ items, found (.sequence items) = []
  group : ∀ parts, found (.group parts) = []

theorem Overlooks.flatMap_linkCallee {β : Type} {found : Node → List β} (h : Overlooks found)
    (callee : Node) :
    (linkCallee link callee).preorder.flatMap found = callee.preorder.flatMap found := by
  unfold linkCallee
  split
  · split
    · simp [preorder, preorderList, h.identifier, h.member, h.sequence, h.group]
    · rfl
  · rfl

theorem flatMap_children_compiled {β : Type} {below : Node → List β}
    (h : ∀ callee, below (linkCallee link callee) = below callee) (n : Node) :
    (n.compiled link).children.flatMap below =
      n.children.flatMap fun child => below (child.compiled link) := by
  cases n <;> simp [children, h, List.flatMap_map, Option.toList_map]

theorem flatMap_preorder_compiled {β : Type} {found found' : Node → List β}
    (hover : Overlooks found') (heq : ∀ n : Node, found' (n.compiled link) = found n) (n : Node) :
    (n.compiled link).preorder.flatMap found' = n.preorder.flatMap found := by
  induction n using induction_children with
  | step n ih =>
    rw [preorder_eq, preorder_eq n, List.flatMap_cons, List.flatMap_cons, List.flatMap_assoc,
      List.flatMap_assoc, heq, flatMap_children_compiled hover.flatMap_linkCallee,
      List.flatMap_congr ih]

theorem flatMap_preorderList_compiled {β : Type} {found found' : Node → List β}
    (hover : Overlooks found') (heq : ∀ n : Node, found' (n.compiled link) = found n)
    (ns : List Node) :
    (preorderList (ns.map (compiled link))).flatMap found' = (preorderList ns).flatMap found := by
  simp only [preorderList_eq_flatMap, List.flatMap_assoc, List.flatMap_map,
    flatMap_preorder_compiled hover heq]

theorem filterMap_preorderList_compiled {β : Type} {found found' : Node → Option β}
    (hover : Overlooks fun n => (found' n).toList)
    (heq : ∀ n : Node, found' (n.compiled link) = found n) (ns : List Node) :
    (preorderList (ns.map (compiled link))).filterMap found' =
      (preorderList ns).filterMap found := by
  rw [List.filterMap_eq_flatMap_toList, List.filterMap_eq_flatMap_toList]
  exact flatMap_preorderList_compiled hover (fun n => by rw [heq]) ns

theorem findSome?_preorderList_compiled {β : Type} {found : Node → Option β}
    (hover : Overlooks fun n => (found n).toList)
    (heq : ∀ n : Node, found (n.compiled link) = found n) (ns : List Node) :
    (preorderList (ns.map (compiled link))).findSome? found =
      (preorderList ns).findSome? found := by
  rw [← List.head?_filterMap, ← List.head?_filterMap, filterMap_preorderList_compiled hover heq]

theorem any_preorderList_compiled {test : Node → Bool}
    (hover : Overlooks fun n => if test n then [()] else [])
    (heq : ∀ n : Node, test (n.compiled link) = test n) (ns : List Node) :
    (preorderList (ns.map (compiled link))).any test = (preorderList ns).any test := by
  have hany (l : List Node) :
      l.any test = !(l.flatMap fun n => if test n then [()] else []).isEmpty := by
    induction l with
    | nil => rfl
    | cons n l ih => cases h : test n <;> simp [h, ih]
  rw [hany, hany, flatMap_preorderList_compiled hover fun n => by rw [heq]]

/-! ### Single forms -/

@[simp] theorem string?_compiled (n : Node) : (n.compiled link).string? = n.string? := by
  cases n <;> rfl

@[simp] theorem identifier?_compiled (n : Node) :
    (n.compiled link).identifier? = n.identifier? := by
  cases n <;> rfl

@[simp] theorem binding?_compiled (n : Node) : (n.compiled link).binding? = n.binding? := by
  cases n <;> rfl

theorem untyped_compiled (n : Node) : (n.compiled link).untyped = n.untyped.compiled link := by
  fun_induction untyped n with
  | case1 before inner after ih => rw [compiled, untyped, ih]
  | case2 n hn => cases n <;> first | rfl | exact absurd rfl (hn _ _ _)

@[simp] theorem isNamed_compiled (name : String) (n : Node) :
    (n.compiled link).isNamed name = n.isNamed name := by
  unfold isNamed
  rw [untyped_compiled]
  cases n.untyped <;> rfl

@[simp] theorem namedMember?_compiled (n : Node) :
    (n.compiled link).namedMember? = n.namedMember? := by
  cases n with
  | member subject name => cases subject <;> rfl
  | _ => rfl

@[simp] theorem thisMember?_compiled (n : Node) :
    (n.compiled link).thisMember? = n.thisMember? := by
  cases n with
  | member subject name => cases subject <;> rfl
  | _ => rfl

@[simp] theorem members?_compiled (n : Node) :
    (n.compiled link).members? = n.members?.map (List.map (compiled link)) := by
  cases n <;> simp [members?]

@[simp] theorem argument?_compiled (arguments : List Node) (place : Nat) :
    argument? (arguments.map (compiled link)) place =
      (argument? arguments place).map (compiled link) := by
  unfold argument?
  rw [List.getElem?_map]
  cases arguments[place]? with
  | none => rfl
  | some value => cases value <;> rfl

@[simp] theorem property?_compiled (members : List Node) (key : String) :
    property? (members.map (compiled link)) key =
      (property? members key).map (compiled link) := by
  unfold property?
  rw [List.findSome?_map, List.map_findSome?]
  congr 1
  funext n
  cases n with
  | property name _ value => 
    simp only [Function.comp_apply, compiled]
    split <;> rfl
  | _ => rfl

theorem destructuredName?_compiled (n : Node) :
    (n.compiled link).destructuredName? = n.destructuredName? := by
  cases n with
  | patternProperty name key target => cases target <;> rfl
  | _ => rfl

@[simp] theorem destructuredNames_compiled (properties : List Node) :
    destructuredNames (properties.map (compiled link)) = destructuredNames properties := by
  unfold destructuredNames
  rw [List.filterMap_map]
  exact List.filterMap_congr fun n _ => destructuredName?_compiled n

theorem variables?_compiled (n : Node) :
    (n.compiled link).variables? = n.variables?.map (Prod.map id (List.map (compiled link))) := by
  cases n with
  | variableDeclaration kind declarators => simp [variables?]
  | exportDeclaration declaration => cases declaration <;> simp [variables?]
  | _ => rfl

/-! ### Callees -/

theorem targetName?_callee (callee : Node) :
    (linkCallee link (callee.compiled link)).targetName? = callee.targetName? := by
  cases callee with
  | identifier name =>
    rw [compiled, linkCallee]
    split <;> rfl
  | sequence items =>
    rcases items with _ | ⟨first, _ | ⟨second, _ | _⟩⟩
    all_goals first | rfl | cases second <;> rfl
  | _ => rfl

theorem isThisMember_callee (callee : Node) :
    (linkCallee link (callee.compiled link)).isThisMember = callee.isThisMember := by
  cases callee with
  | identifier name =>
    rw [compiled, linkCallee]
    split <;> rfl
  | member subject name => cases subject <;> rfl
  | index subject key => cases subject <;> rfl
  | privateMember subject name => cases subject <;> rfl
  | _ => rfl

theorem isMember_callee (callee : Node) :
    (linkCallee link (callee.compiled link)).isMember = callee.isMember := by
  cases callee with
  | identifier name =>
    rw [compiled, linkCallee]
    split <;> rfl
  | _ => rfl

theorem isNamed_callee {name : String} (h : link name = none) (callee : Node) :
    (linkCallee link (callee.compiled link)).isNamed name = callee.isNamed name := by
  cases callee with
  | identifier called =>
    rw [compiled, linkCallee]
    split
    · have : called ≠ name := by grind
      simp [isNamed, untyped, this]
    · rfl
  | _ => exact isNamed_compiled name _

@[simp] theorem require?_compiled (h : link "require" = none) (n : Node) :
    (n.compiled link).require? = n.require? := by
  cases n with
  | call callee types arguments =>
    simp only [compiled, compiledList_eq_map, require?, isNamed_callee h, argument?_compiled,
      Option.bind_map, Function.comp_def, string?_compiled]
  | _ => rfl

/-! ### What the links are asked about -/

theorem compiled_congr_children {link' : String → Option String} {n : Node}
    (h : ∀ child ∈ n.children, child.compiled link = child.compiled link')
    (hcallee : ∀ callee types arguments, n = call callee types arguments →
      linkCallee link (callee.compiled link) = linkCallee link' (callee.compiled link')) :
    n.compiled link = n.compiled link' := by
  have hlist (ns : List Node) (hn : ∀ child ∈ ns, child.compiled link = child.compiled link') :
      ns.map (compiled link) = ns.map (compiled link') := List.map_congr_left hn
  have hoption (o : Option Node)
      (ho : ∀ child ∈ o.toList, child.compiled link = child.compiled link') :
      o.map (compiled link) = o.map (compiled link') := by
    cases o <;> simp_all
  cases n <;> simp only [children, List.mem_cons, List.mem_append, List.not_mem_nil, or_false] at h <;>
    simp only [compiled, compiledList_eq_map, compiledOption_eq_map] <;> grind

def calledName? : Node → Option String
  | call (identifier name) _ _ => some name
  | _ => none

theorem compiled_congr {link' : String → Option String} (n : Node)
    (h : ∀ name ∈ n.preorder.filterMap calledName?, link name = link' name) :
    n.compiled link = n.compiled link' := by
  induction n using induction_children with
  | step n ih =>
    have hchild : ∀ child ∈ n.children, child.compiled link = child.compiled link' := by
      intro child hc
      apply ih child hc
      intro name hname
      obtain ⟨m, hm, hcalled⟩ := List.mem_filterMap.mp hname
      exact h name (List.mem_filterMap.mpr ⟨m, mem_preorder_of_child hc hm, hcalled⟩)
    apply compiled_congr_children hchild
    rintro callee types arguments rfl
    cases callee with
    | identifier name =>
      have hname : link name = link' name :=
        h name (List.mem_filterMap.mpr ⟨_, mem_preorder_self _, rfl⟩)
      rw [compiled, compiled, linkCallee, linkCallee, hname]
    | _ => exact hchild _ (by simp [children])

end Node

namespace Program

def compiled (link : String → Option String) (program : Program) : Program :=
  ⟨program.body.map (Node.compiled link)⟩

def calledNames (program : Program) : List String := program.nodes.filterMap Node.calledName?

variable {link : String → Option String}

theorem compiled_congr {link' : String → Option String} {program : Program}
    (h : ∀ name ∈ program.calledNames, link name = link' name) :
    program.compiled link = program.compiled link' := by
  unfold compiled
  congr 1
  apply List.map_congr_left
  intro n hn
  apply Node.compiled_congr
  intro name hname
  apply h
  rw [calledNames, nodes, Node.preorderList_eq_flatMap, List.filterMap_flatMap]
  exact List.mem_flatMap.mpr ⟨n, hn, hname⟩

theorem flatMap_nodes_compiled {β : Type} {found found' : Node → List β}
    (hover : Node.Overlooks found') (heq : ∀ n : Node, found' (n.compiled link) = found n)
    (program : Program) :
    (program.compiled link).nodes.flatMap found' = program.nodes.flatMap found :=
  Node.flatMap_preorderList_compiled hover heq program.body

end Program

end WorkflowAnalysis.Syntax
