import WorkflowAnalysis.Proofs.Extraction.StartSites
import WorkflowAnalysis.Proofs.Records.FirstOccurrences

/-! Wrappers. A named function is a wrapper when a call of the start function stands somewhere in its body,
at any depth. The search of a body leaves out what it need not look at, and still it finds a call exactly
where there is one; so a function with a wrapper inside is a wrapper too. -/
namespace WorkflowAnalysis

open Syntax

/-- A node gives a name to a function with a body: it declares the function, it is a method with a bare
key, or it binds an arrow or a function expression to a variable. -/
inductive NamesBody : Node → String → List Node → Prop
  | declaration (name : String) (params body : List Node) :
      NamesBody (.function .declaration (some name) params body) name body
  | method (role : MethodRole) (name : String) (marks key : List Node) (kind : FunctionRole)
      (own : Option String) (params body : List Node) :
      NamesBody (.method role (some name) marks key (.function kind own params body)) name body
  | arrow (name : String) (ascription params body : List Node) :
      NamesBody (.declarator (.binding name) ascription (some (.arrow params body))) name body
  | expression (name : String) (ascription : List Node) (own : Option String)
      (params body : List Node) :
      NamesBody (.declarator (.binding name) ascription
        (some (.function .expression own params body))) name body

theorem namedBody?_eq_some {node : Node} {name : String} {body : List Node} :
    namedBody? node = some (name, body) ↔ NamesBody node name body := by
  constructor
  · intro h
    unfold namedBody? at h
    split at h <;> cases h
    · exact .declaration name _ body
    · exact .method _ name _ _ _ _ _ body
    · exact .arrow name _ _ body
    · exact .expression name _ _ _ body
  · intro h
    cases h <;> rfl

theorem NamesBody.contains {node statement : Node} {name : String} {body : List Node}
    (h : NamesBody node name body) (hm : statement ∈ body) : node.Contains statement := by
  cases h with
  | declaration => exact Node.contains_of_mem_children (by simp [Node.children, hm])
  | method role name marks key kind own params body =>
    have hfunction : (Node.function kind own params body).Contains statement :=
      Node.contains_of_mem_children (by simp [Node.children, hm])
    exact (Node.contains_of_mem_children (by simp [Node.children])).trans hfunction
  | arrow name ascription params body =>
    have harrow : (Node.arrow params body).Contains statement :=
      Node.contains_of_mem_children (by simp [Node.children, hm])
    exact (Node.contains_of_mem_children (by simp [Node.children])).trans harrow
  | expression name ascription own params body =>
    have hfunction : (Node.function .expression own params body).Contains statement :=
      Node.contains_of_mem_children (by simp [Node.children, hm])
    exact (Node.contains_of_mem_children (by simp [Node.children])).trans hfunction

/-! ### Searching a body -/

def StartsIn (vocabulary : Vocabulary) (body : List Node) : Prop :=
  ∃ statement ∈ body, ∃ callee types arguments,
    statement.Contains (.call callee types arguments) ∧ IsDirect vocabulary callee

theorem isDirectStartCall_iff {vocabulary : Vocabulary} {node : Node} :
    isDirectStartCall vocabulary node = true ↔
      ∃ callee types arguments, node = .call callee types arguments ∧ IsDirect vocabulary callee := by
  unfold isDirectStartCall
  split
  · next callee types arguments =>
    rw [isDirectStart_iff]
    constructor
    · intro h
      exact ⟨callee, types, arguments, rfl, h⟩
    · rintro ⟨_, _, _, ⟨⟩, h⟩
      exact h
  · next hother =>
    simp only [Bool.false_eq_true, false_iff]
    rintro ⟨callee, types, arguments, rfl, -⟩
    exact hother _ _ _ rfl

theorem startsChild_iff {vocabulary : Vocabulary} {body : List Node} :
    startsChild vocabulary body = true ↔ StartsIn vocabulary body := by
  simp only [startsChild_eq_any, Node.preorderList_eq_flatMap, List.any_eq_true, List.mem_flatMap,
    Node.mem_preorder_iff, isDirectStartCall_iff]
  constructor
  · rintro ⟨_, ⟨statement, hm, hinside⟩, callee, types, arguments, rfl, hdirect⟩
    exact ⟨statement, hm, callee, types, arguments, hinside, hdirect⟩
  · rintro ⟨statement, hm, callee, types, arguments, hinside, hdirect⟩
    exact ⟨_, ⟨statement, hm, hinside⟩, callee, types, arguments, rfl, hdirect⟩

def seekThrough (vocabulary : Vocabulary) (found : Bool) (node : Node) : Node.Visit Bool :=
  .into (found || isDirectStartCall vocabulary node)

theorem seeks_seekThrough (vocabulary : Vocabulary) :
    Node.Seeks (isDirectStartCall vocabulary) (seekThrough vocabulary) := by
  intro found node below
  exact Bool.or_assoc found _ below

theorem startsChild_eq_seekThrough (vocabulary : Vocabulary) (body : List Node) :
    startsChild vocabulary body = Node.walkList (seekThrough vocabulary) false body := by
  rw [startsChild_eq_any, (seeks_seekThrough vocabulary).walkList, Bool.false_or]

/-! ### Wrappers -/

theorem StartsIn.of_inside {vocabulary : Vocabulary} {body inside : List Node} {statement inner : Node}
    {name : String} (hm : statement ∈ body) (hinner : statement.Contains inner)
    (hnames : NamesBody inner name inside) (h : StartsIn vocabulary inside) :
    StartsIn vocabulary body := by
  obtain ⟨step, hstep, callee, types, arguments, hcall, hdirect⟩ := h
  exact ⟨statement, hm, callee, types, arguments,
    (hinner.trans (hnames.contains hstep)).trans hcall, hdirect⟩

theorem wrapperName?_eq_some {vocabulary : Vocabulary} {node : Node} {name : String} :
    wrapperName? vocabulary node = some name ↔
      ∃ body, NamesBody node name body ∧ StartsIn vocabulary body := by
  unfold wrapperName?
  rw [Option.bind_eq_bind, Option.bind_eq_some_iff]
  constructor
  · rintro ⟨⟨other, body⟩, hnamed, h⟩
    obtain ⟨hstarts, ⟨⟩⟩ := Option.ite_none_right_eq_some.mp h
    exact ⟨body, namedBody?_eq_some.mp hnamed, startsChild_iff.mp hstarts⟩
  · rintro ⟨body, hnames, hstarts⟩
    exact ⟨(name, body), namedBody?_eq_some.mpr hnames, if_pos (startsChild_iff.mpr hstarts)⟩

namespace Syntax.Program

theorem mem_wrappers {program : Program} {vocabulary : Vocabulary} {name : String} :
    name ∈ program.wrappers vocabulary ↔
      ∃ node body, program.Contains node ∧ NamesBody node name body ∧ StartsIn vocabulary body := by
  simp only [wrappers, List.mem_eraseDups, List.mem_filterMap, mem_nodes_iff, wrapperName?_eq_some]
  constructor
  · rintro ⟨node, hnode, body, hnames, hstarts⟩
    exact ⟨node, body, hnode, hnames, hstarts⟩
  · rintro ⟨node, body, hnode, hnames, hstarts⟩
    exact ⟨node, hnode, body, hnames, hstarts⟩

/-- The wrappers are exactly the names of functions, anywhere in the program, whose body holds a call of
the start function at any depth. What the search of a body leaves out never changes its answer. A
function whose body holds a wrapper is a wrapper. -/
theorem wrappers_exact (program : Program) (vocabulary : Vocabulary) :
    (∀ name, name ∈ program.wrappers vocabulary ↔
      ∃ node body, program.Contains node ∧ NamesBody node name body ∧ StartsIn vocabulary body) ∧
    (program.wrappers vocabulary).Nodup ∧
    (∀ body, (startsChild vocabulary body = true ↔ StartsIn vocabulary body) ∧
      startsChild vocabulary body = Node.walkList (seekThrough vocabulary) false body) ∧
    ∀ node name body statement inner other inside,
      program.Contains node → NamesBody node name body →
      statement ∈ body → statement.Contains inner →
      NamesBody inner other inside → StartsIn vocabulary inside →
      name ∈ program.wrappers vocabulary := by
  refine ⟨fun name => mem_wrappers, nodup_eraseDups _, ?_, ?_⟩
  · intro body
    exact ⟨startsChild_iff, startsChild_eq_seekThrough vocabulary body⟩
  · intro node name body statement inner other inside hnode hnames hm hinner hinside hstarts
    exact mem_wrappers.mpr ⟨node, body, hnode, hnames, .of_inside hm hinner hinside hstarts⟩

/-- A method that holds a local function, which starts a child workflow among the arguments of a call. -/
def layeredProgram : Program :=
  ⟨[.classDef .declaration (some "Main") [] none
    [.method .ordinary (some "outer") [] []
      (.function .expression none []
        [.variableDeclaration .constant
          [.declarator (.binding "inner") []
            (some (.arrow []
              [.expression (.call (.member (.identifier "Promise") "all") []
                [.call (.identifier "executeChild") [] [.string "child"]])]))]])]]⟩

theorem wrappers_exact_layered :
    "inner" ∈ layeredProgram.wrappers {} ∧ "outer" ∈ layeredProgram.wrappers {} := by
  obtain ⟨hexact, -, -, hclosed⟩ := wrappers_exact layeredProgram {}
  have hstarts : StartsIn {} [.expression (.call (.member (.identifier "Promise") "all") []
      [.call (.identifier "executeChild") [] [.string "child"]])] :=
    ⟨_, List.mem_singleton.mpr rfl, _, _, _, ⟨[0, 1], rfl⟩, .plain _, by simp⟩
  constructor
  · exact (hexact "inner").mpr
      ⟨_, _, ⟨[0, 0, 0, 0, 0], rfl⟩, .arrow "inner" [] [] _, hstarts⟩
  · exact hclosed _ "outer" _ _ _ "inner" _ ⟨[0, 0], rfl⟩ (.method _ _ _ _ _ _ _ _)
      (List.mem_singleton.mpr rfl) ⟨[0], rfl⟩ (.arrow "inner" [] [] _) hstarts

end Syntax.Program

end WorkflowAnalysis
