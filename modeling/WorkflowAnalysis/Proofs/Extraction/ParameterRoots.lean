import WorkflowAnalysis.Proofs.Extraction.StartSites

/-! Parameters under names that stay the same. Whether a member gives the name of a workflow is decided by
the spelling of its root alone: a parameter is passed over unless the file also imports its name, wherever
that may be, or declares a constant of that name at its top level. -/
namespace WorkflowAnalysis

open Syntax

/-! ### Names from other modules -/

theorem ImportMap.contains_foldl_insert (map : ImportMap) (bindings : List (String × String))
    (name : String) :
    (∃ specifier, (bindings.foldl (fun map binding => map.insert binding.1 binding.2) map).get? name =
        some specifier) ↔
      (∃ specifier, map.get? name = some specifier) ∨ ∃ specifier, (name, specifier) ∈ bindings := by
  induction bindings generalizing map with
  | nil => simp
  | cons binding rest ih =>
    obtain ⟨bound, specifier⟩ := binding
    rw [List.foldl_cons, ih]
    simp only [get?_insert, List.mem_cons, Prod.mk.injEq]
    by_cases h : name = bound
    · simp [h]
    · simp [h]

/-- A node binds a name to another module: as one of the names of an import, or as a variable that holds
what `require` gives. -/
inductive Syntax.Node.BringsIn (name : String) : Node → Prop
  | imported {locals : List String} (source : String) (h : name ∈ locals) :
      BringsIn name (.importFrom locals source)
  | required {value : Node} {source : String} (ascription : List Node)
      (h : requiredModule? value = some source) :
      BringsIn name (.declarator (.binding name) ascription (some value))

theorem mem_importBindings {node : Node} {name : String} :
    (∃ source, (name, source) ∈ importBindings node) ↔ node.BringsIn name := by
  constructor
  · rintro ⟨source, h⟩
    unfold importBindings at h
    split at h
    · obtain ⟨_, hname, ⟨⟩⟩ := List.mem_map.mp h
      exact .imported source hname
    · obtain ⟨_, hrequired, ⟨⟩⟩ := List.mem_map.mp h
      exact .required _ (Option.mem_toList.mp hrequired)
    · cases h
  · rintro (⟨source, h⟩ | ⟨_, h⟩)
    · exact ⟨source, List.mem_map.mpr ⟨name, h, rfl⟩⟩
    · exact ⟨_, List.mem_map.mpr ⟨_, Option.mem_toList.mpr h, rfl⟩⟩

/-- A name is bound to another module somewhere in a program, at any depth. -/
def Syntax.Program.BringsIn (program : Program) (name : String) : Prop :=
  ∃ node, program.Contains node ∧ node.BringsIn name

theorem fixes_ofProgram (path : Path) (fallback : String) {program : Program} {name : String} :
    (SourceFile.ofProgram path program fallback).Fixes name ↔
      program.BringsIn name ∨ program.DeclaresConstant name := by
  -- A later import of a name replaces the earlier one, but the name stays imported.
  apply or_congr_left
  rw [SourceFile.ofProgram, Program.imports, ImportMap.ofBindings, ImportMap.contains_foldl_insert]
  simp only [ImportMap.get?_empty, reduceCtorEq, exists_false, false_or, List.mem_flatMap]
  constructor
  · rintro ⟨source, node, hnode, hbinding⟩
    exact ⟨node, Program.mem_nodes_iff.mp hnode, mem_importBindings.mp ⟨source, hbinding⟩⟩
  · rintro ⟨node, hnode, hbrings⟩
    obtain ⟨source, hbinding⟩ := mem_importBindings.mpr hbrings
    exact ⟨source, node, Program.mem_nodes_iff.mpr hnode, hbinding⟩

/-! ### Starts named by a member -/

/-- The arguments of a start call name its workflow by a member of a root: in the first place, or as a
type option other than the `name` of a function. -/
inductive NamedByMember (root property : String) : List Node → Prop
  | first {first : Node} (rest : List Node) (member : first.MemberOf root property) :
      NamedByMember root property (first :: rest)
  | type {members : List Node} {value : Node} (rest : List Node)
      (type : Node.IsFirstProperty members "type" value) (member : value.MemberOf root property)
      (other : property ≠ "name") :
      NamedByMember root property (.object members :: rest)

theorem Syntax.Node.MemberOf.unique {node : Node} {root root' name name' : String}
    (h : node.MemberOf root name) (h' : node.MemberOf root' name') : root = root' ∧ name = name' := by
  cases h <;> cases h' <;> exact ⟨rfl, rfl⟩

namespace SourceFile

variable {file : SourceFile} {root property name : String}

theorem typeNames_member {value : Node} (member : value.MemberOf root property)
    (other : property ≠ "name") :
    file.TypeNames value name ↔ file.Fixes root ∧ name = property := by
  constructor
  · intro h
    cases h with
    | string | identifier => cases member
    | nameOf =>
      cases member
      exact absurd rfl other
    | nameOfMember =>
      cases member
      exact absurd rfl other
    | constant fixed member' =>
      obtain ⟨rfl, rfl⟩ := member.unique member'
      exact ⟨fixed, rfl⟩
  · rintro ⟨fixed, rfl⟩
    exact .constant fixed member other

theorem namesWorkflow_member {isDirect : Prop} {arguments : List Node} (direct : isDirect)
    (named : NamedByMember root property arguments) :
    file.NamesWorkflow isDirect arguments name ↔ file.Fixes root ∧ name = property := by
  constructor
  · intro h
    cases named with
    | first rest member =>
      cases h with
      | string | identifier | options => cases member
      | member _ _ fixed member' =>
        obtain ⟨rfl, rfl⟩ := member.unique member'
        exact ⟨fixed, rfl⟩
    | type rest type member other =>
      cases h with
      | member _ _ _ member' => cases member'
      | options _ type' names =>
        obtain rfl := type.unique type'
        exact (typeNames_member member other).mp names
  · rintro ⟨fixed, rfl⟩
    cases named with
    | first rest member => exact .member rest direct fixed member
    | type rest type member other => exact .options rest type (.constant fixed member other)

end SourceFile

/-! ### Parameters -/

/-- A function of either kind, with what stands in its head and in its body. -/
inductive Syntax.Node.IsFunction : Node → List Node → List Node → Prop
  | arrow (params body : List Node) : IsFunction (.arrow params body) params body
  | function (role : FunctionRole) (name : Option String) (params body : List Node) :
      IsFunction (.function role name params body) params body

def Syntax.Node.ownNames : Node → List String
  | .binding name => [name]
  | .function _ name _ _ | .classDef _ name _ _ _ => name.toList
  | _ => []

/-- A call of the start function that names its workflow by a member of a name, inside a function that takes
this name as a parameter. What lies between them may bind the name again. -/
structure ParameterStart (vocabulary : Vocabulary) (program : Program) where
  function : Node
  params : List Node
  body : List Node
  callee : Node
  types : List Node
  arguments : List Node
  root : String
  property : String
  isFunction : function.IsFunction params body
  takes : root ∈ Rules.allBoundNames params
  stands : program.Contains function
  inside : function.Contains (.call callee types arguments)
  direct : IsDirect vocabulary callee
  named : NamedByMember root property arguments

namespace ParameterStart

variable {vocabulary : Vocabulary} {program : Program}

def call (start : ParameterStart vocabulary program) : Node :=
  .call start.callee start.types start.arguments

/-- The call is in the body of the function, where nothing binds the name of the parameter again. So the
name stands for the parameter there. -/
def Unshadowed (start : ParameterStart vocabulary program) : Prop :=
  (∃ statement ∈ start.body, statement.Contains start.call) ∧
    ∀ statement ∈ start.body, ∀ node, statement.Contains node → start.root ∉ node.ownNames

theorem childSite?_eq_some {project : Project} {file : SourceFile} {wrappers : List String}
    (start : ParameterStart project.vocabulary program) {site : Site} :
    project.childSite? file wrappers start.call = some site ↔
      file.Fixes start.root ∧ site.name = start.property ∧
        project.RunsOn file start.arguments site.queue := by
  rw [Project.childSite?_eq_some]
  constructor
  · rintro ⟨_, _, _, ⟨⟩, -, hname, hqueue⟩
    obtain ⟨hfixed, hproperty⟩ := (SourceFile.namesWorkflow_member start.direct start.named).mp hname
    exact ⟨hfixed, hproperty, hqueue⟩
  · rintro ⟨hfixed, hproperty, hqueue⟩
    exact ⟨_, _, _, rfl, .direct _ start.direct,
      (SourceFile.namesWorkflow_member start.direct start.named).mpr ⟨hfixed, hproperty⟩, hqueue⟩

end ParameterStart

namespace Project

/-- A member of a parameter names no child workflow exactly when the file neither imports the name of the
parameter anywhere nor declares a constant of that name at its top level. Else the property is reported,
whether or not the name stands for the parameter there. -/
theorem parameterStart_skipped_iff (project : Project) (path : Path) (program : Program)
    (fallback : String) (start : ParameterStart project.vocabulary program) :
    (∀ wrappers, project.childSite? (.ofProgram path program fallback) wrappers start.call = none ↔
      ¬ program.BringsIn start.root ∧ ¬ program.DeclaresConstant start.root) ∧
    (program.BringsIn start.root ∨ program.DeclaresConstant start.root →
      ∃ queue, project.RunsOn (.ofProgram path program fallback) start.arguments queue ∧
        ⟨some start.property, some queue⟩ ∈
          project.childWorkflows (.ofProgram path program fallback)) := by
  constructor
  · intro wrappers
    rw [← not_or, ← fixes_ofProgram path fallback, Option.eq_none_iff_forall_ne_some]
    constructor
    · intro h hfixed
      exact h ⟨_, _⟩ (start.childSite?_eq_some.mpr ⟨hfixed, rfl, runsOn_iff.mpr rfl⟩)
    · intro h site hsite
      exact h (start.childSite?_eq_some.mp hsite).1
  · intro h
    have hfixed := (fixes_ofProgram path fallback).mpr h
    refine ⟨_, runsOn_iff.mpr rfl, ?_⟩
    apply mem_childWorkflowsBy.mpr
    exact ⟨_, _, _, _, _, start.stands.trans start.inside, .direct _ start.direct,
      (SourceFile.namesWorkflow_member start.direct start.named).mpr ⟨hfixed, rfl⟩,
      runsOn_iff.mpr rfl, rfl⟩

def inputBody : List Node :=
  [.expression (.group [.call (.identifier "executeChild") []
    [.member (.identifier "params") "type",
      .object [.property (some "taskQueue") [] (.string "q")]]])]

/-- The input has the name of an imported module. -/
def inputProgram : Program :=
  ⟨[.importFrom ["params"] "./types.js",
    .exportDeclaration (.function .declaration (some "run") [.binding "params"] inputBody)]⟩

def inputStart : ParameterStart {} inputProgram where
  function := .function .declaration (some "run") [.binding "params"] inputBody
  params := [.binding "params"]
  body := inputBody
  callee := .identifier "executeChild"
  types := []
  arguments := _
  root := "params"
  property := "type"
  isFunction := .function _ _ _ _
  takes := List.mem_cons_self
  stands := ⟨[1, 0], rfl⟩
  inside := ⟨[1, 0, 0], rfl⟩
  direct := ⟨.plain _, by simp⟩
  named := .first _ (.one "type")

theorem unshadowed_inputStart : inputStart.Unshadowed := by
  refine ⟨⟨_, List.mem_cons_self, [0, 0], rfl⟩, ?_⟩
  intro statement hstatement node hnode
  have hall : ∀ node ∈ Node.preorderList inputBody, "params" ∉ node.ownNames := by decide +kernel
  apply hall
  rw [Node.preorderList_eq_flatMap]
  exact List.mem_flatMap.mpr ⟨statement, hstatement, Node.mem_preorder_iff.mpr hnode⟩

theorem parameterStart_skipped_iff_input :
    let project : Project := ⟨.ofWorkingDirectory ["w"], {}⟩
    let file := SourceFile.ofProgram (Path.ofString "/w/main.js") inputProgram "main"
    (project.childSite? file [] inputStart.call = none ↔
      ¬ inputProgram.BringsIn "params" ∧ ¬ inputProgram.DeclaresConstant "params") ∧
    ⟨some "type", some "q"⟩ ∈ project.childWorkflows file := by
  intro project file
  have h := parameterStart_skipped_iff project (Path.ofString "/w/main.js") inputProgram "main"
    inputStart
  have hbrings : inputProgram.BringsIn "params" :=
    ⟨_, ⟨[0], rfl⟩, .imported "./types.js" List.mem_cons_self⟩
  obtain ⟨queue, hqueue, hchild⟩ := h.2 (.inl hbrings)
  obtain rfl : queue = "q" := (runsOn_iff.mp hqueue).trans rfl
  exact ⟨h.1 [], hchild⟩

/-- The name of a parameter is not always passed over, though nothing but the parameter has this name
inside the function. -/
theorem not_forall_parameterStart_skipped :
    ¬ ∀ (project : Project) (path : Path) (program : Program) (fallback : String)
        (start : ParameterStart project.vocabulary program), start.Unshadowed →
      project.childSite? (.ofProgram path program fallback) (program.wrappers project.vocabulary)
        start.call = none := by
  intro h
  have hnone := h ⟨.ofWorkingDirectory ["w"], {}⟩ (Path.ofString "/w/main.js") inputProgram "main"
    inputStart unshadowed_inputStart
  cases hnone

-- The same program as a text: its record has the member of the parameter.
example :
    let text := "import * as params from './types.js'; export async function run(params) \x7b
      await executeChild(params.type, \x7b taskQueue: 'q' \x7d); \x7d"
    let project : Project := ⟨.ofWorkingDirectory ["w"], {}⟩
    (project.analyzeSource text (Path.ofString "main.js") "main").toOption.map
        Workflow.childWorkflows = some [⟨some "type", some "q"⟩] := by
  decide +kernel

end Project

end WorkflowAnalysis
