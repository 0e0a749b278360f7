import WorkflowAnalysis.Analysis
import WorkflowAnalysis.Proofs.Syntax.Forms
import WorkflowAnalysis.Proofs.Syntax.SourceOrder

/-! Start sites. Which calls start a child workflow, under which name and on which queue, told by rules.
Extraction reports a child workflow for every call that the rules apply to, at any depth, and for no
other. -/
namespace WorkflowAnalysis

open Syntax

/-! ### Names that stay the same -/

/-- A declaration of constants at the top level, exported or not, binds a name. -/
def Syntax.Program.DeclaresConstant (program : Program) (name : String) : Prop :=
  ∃ declarators ascription value,
    (.variableDeclaration .constant declarators ∈ program.body ∨
      .exportDeclaration (.variableDeclaration .constant declarators) ∈ program.body) ∧
    .declarator (.binding name) ascription value ∈ declarators

namespace SourceFile

/-- A name is imported, or bound by a declaration of constants at the top level. -/
def Fixes (file : SourceFile) (name : String) : Prop :=
  (∃ specifier, file.imports.get? name = some specifier) ∨ file.program.DeclaresConstant name

end SourceFile

theorem boundBy_eq_some {node : Node} {name : String} :
    (node.declarator?.bind (·.target.binding?)) = some name ↔
      ∃ ascription value, node = .declarator (.binding name) ascription value := by
  constructor
  · intro h
    obtain ⟨declarator, hd, hb⟩ := Option.bind_eq_some_iff.mp h
    unfold Node.declarator? at hd
    split at hd <;> cases hd
    unfold Node.binding? at hb
    split at hb
    · next heq =>
      cases hb
      dsimp only at heq
      subst heq
      exact ⟨_, _, rfl⟩
    · cases hb
  · rintro ⟨ascription, value, rfl⟩
    rfl

theorem mem_topConstants {program : Program} {name : String} :
    name ∈ program.topConstants ↔ program.DeclaresConstant name := by
  simp only [Program.topConstants, Program.topVariables, List.mem_flatMap, List.mem_filterMap]
  constructor
  · rintro ⟨⟨kind, declarators⟩, ⟨statement, hstatement, hvariables⟩, hname⟩
    cases kind with
    | constant =>
      obtain ⟨node, hnode, hbound⟩ := List.mem_filterMap.mp hname
      obtain ⟨ascription, value, rfl⟩ := boundBy_eq_some.mp hbound
      refine ⟨declarators, ascription, value, ?_, hnode⟩
      obtain rfl | rfl := Node.variables?_eq_some.mp hvariables
      · exact .inl hstatement
      · exact .inr hstatement
    | other => cases hname
  · rintro ⟨declarators, ascription, value, hstatement, hnode⟩
    refine ⟨(.constant, declarators), ?_,
      List.mem_filterMap.mpr ⟨_, hnode, boundBy_eq_some.mpr ⟨_, _, rfl⟩⟩⟩
    obtain hstatement | hstatement := hstatement
    · exact ⟨_, hstatement, Node.variables?_eq_some.mpr (.inl rfl)⟩
    · exact ⟨_, hstatement, Node.variables?_eq_some.mpr (.inr rfl)⟩

theorem isConstantName_iff {file : SourceFile} {name : String} :
    isConstantName file.program file.imports name = true ↔ file.Fixes name := by
  rw [isConstantName, Bool.or_eq_true, List.contains_iff_mem, mem_topConstants, ImportMap.contains,
    Option.isSome_iff_exists]
  rfl

/-! ### Names of workflows -/

/-- A member reads a property of a root, one or two steps down. -/
inductive Syntax.Node.MemberOf (root : String) : Node → String → Prop
  | one (name : String) : MemberOf root (.member (.identifier root) name) name
  | two (between name : String) :
      MemberOf root (.member (.member (.identifier root) between) name) name

namespace SourceFile

variable {file : SourceFile}

theorem constantMember?_eq_some {node : Node} {name : String} :
    file.constantMember? node = some name ↔ ∃ root, file.Fixes root ∧ node.MemberOf root name := by
  unfold constantMember?
  split
  · next root property =>
    rw [Option.ite_none_right_eq_some, isConstantName_iff]
    constructor
    · rintro ⟨hfixed, ⟨⟩⟩
      exact ⟨root, hfixed, .one name⟩
    · rintro ⟨_, hfixed, ⟨⟩⟩
      exact ⟨hfixed, rfl⟩
  · next root between property =>
    rw [Option.ite_none_right_eq_some, isConstantName_iff]
    constructor
    · rintro ⟨hfixed, ⟨⟩⟩
      exact ⟨root, hfixed, .two between name⟩
    · rintro ⟨_, hfixed, ⟨⟩⟩
      exact ⟨hfixed, rfl⟩
  · next hone htwo =>
    simp only [reduceCtorEq, false_iff]
    rintro ⟨_, -, _ | _⟩
    · exact hone _ _ rfl
    · exact htwo _ _ _ rfl

/-- The value of a type option names a workflow: a string or a name itself, the `name` of a function the
function, alone or as a member, and any other member of a name that stays the same its own property. -/
inductive TypeNames (file : SourceFile) : Node → String → Prop
  | string (name : String) : TypeNames file (.string name) name
  | identifier (name : String) : TypeNames file (.identifier name) name
  | nameOf (name : String) : TypeNames file (.member (.identifier name) "name") name
  | nameOfMember (subject : Node) (name : String) :
      TypeNames file (.member (.member subject name) "name") name
  | constant {node : Node} {root name : String} (fixed : file.Fixes root)
      (member : node.MemberOf root name) (other : name ≠ "name") : TypeNames file node name

theorem workflowType?_eq_some {node : Node} {name : String} :
    file.workflowType? node = some name ↔ file.TypeNames node name := by
  constructor
  · intro h
    unfold workflowType? at h
    split at h
    · cases h
      exact .string name
    · cases h
      exact .identifier name
    · next object property =>
      split at h
      · next hname =>
        obtain rfl : property = "name" := eq_of_beq hname
        split at h <;> cases h
        · exact .nameOf name
        · exact .nameOfMember _ name
      · next hname =>
        obtain ⟨root, hfixed, hmember⟩ := constantMember?_eq_some.mp h
        have hother : name ≠ "name" := by
          rintro rfl
          cases hmember <;> exact hname rfl
        exact .constant hfixed hmember hother
    · cases h
  · intro h
    cases h with
    | string | identifier | nameOf | nameOfMember => rfl
    | constant fixed member other =>
      have hconstant := constantMember?_eq_some.mpr ⟨_, fixed, member⟩
      cases member <;> simpa [workflowType?, other] using hconstant

/-- The arguments of a start call name a workflow. Only a call of the start function itself may pass a
name, or a member of a name that stays the same; the string and the type option are for all. -/
inductive NamesWorkflow (file : SourceFile) (isDirect : Prop) : List Node → String → Prop
  | string (name : String) (rest : List Node) :
      NamesWorkflow file isDirect (.string name :: rest) name
  | identifier (name : String) (rest : List Node) (direct : isDirect) :
      NamesWorkflow file isDirect (.identifier name :: rest) name
  | member {first : Node} {root name : String} (rest : List Node) (direct : isDirect)
      (fixed : file.Fixes root) (member : first.MemberOf root name) :
      NamesWorkflow file isDirect (first :: rest) name
  | options {members : List Node} {value : Node} {name : String} (rest : List Node)
      (type : Node.IsFirstProperty members "type" value) (names : file.TypeNames value name) :
      NamesWorkflow file isDirect (.object members :: rest) name

def startName? (file : SourceFile) (isDirect : Bool) : List Node → Option String
  | .string value :: _ => some value
  | .identifier name :: _ => if isDirect then some name else none
  | .member object property :: _ =>
    if isDirect then file.constantMember? (.member object property) else none
  | .object members :: _ => (Node.property? members "type").bind file.workflowType?
  | _ => none

theorem startName?_eq_some {isDirect : Bool} {arguments : List Node} {name : String} :
    file.startName? isDirect arguments = some name ↔
      file.NamesWorkflow (isDirect = true) arguments name := by
  constructor
  · intro h
    unfold startName? at h
    split at h
    · cases h
      exact .string name _
    · obtain ⟨hdirect, ⟨⟩⟩ := Option.ite_none_right_eq_some.mp h
      exact .identifier name _ hdirect
    · obtain ⟨hdirect, hconstant⟩ := Option.ite_none_right_eq_some.mp h
      obtain ⟨root, hfixed, hmember⟩ := constantMember?_eq_some.mp hconstant
      exact .member _ hdirect hfixed hmember
    · obtain ⟨value, hproperty, htype⟩ := Option.bind_eq_some_iff.mp h
      exact .options _ (Node.property?_eq_some.mp hproperty) (workflowType?_eq_some.mp htype)
    · cases h
  · intro h
    cases h with
    | string => rfl
    | identifier _ _ direct => simp [startName?, direct]
    | member _ direct fixed member =>
      have hconstant := constantMember?_eq_some.mpr ⟨_, fixed, member⟩
      cases member <;> simpa [startName?, direct] using hconstant
    | options _ type names =>
      simp [startName?, Node.property?_eq_some.mpr type, workflowType?_eq_some.mpr names]

end SourceFile

/-! ### Queues -/

/-- The members of the options of a start call: of its first argument if that is an object literal, else
of its second. -/
def startOptions : List Node → List Node
  | .object members :: _ => members
  | _ :: .object members :: _ => members
  | _ => []

namespace Project

variable {project : Project} {file : SourceFile}

/-- The value of a queue option is a queue: a string or a name itself, and a member of an imported name
the constant that it stands for. -/
inductive QueueIs (project : Project) (file : SourceFile) : Node → String → Prop
  | string (queue : String) : QueueIs project file (.string queue) queue
  | identifier (name : String) : QueueIs project file (.identifier name) name
  | constant {object property specifier queue : String}
      (imported : file.imports.get? object = some specifier)
      (value : project.constant? specifier property file.path = some queue) :
      QueueIs project file (.member (.identifier object) property) queue

def GivesQueue (project : Project) (file : SourceFile) (members : List Node) (queue : String) : Prop :=
  ∃ value, Node.IsFirstProperty members "taskQueue" value ∧ project.QueueIs file value queue

/-- A start call runs its workflow on the queue that its options give, else on the fallback of its
file. -/
def RunsOn (project : Project) (file : SourceFile) (arguments : List Node) (queue : String) : Prop :=
  project.GivesQueue file (startOptions arguments) queue ∨
    (∀ other, ¬ project.GivesQueue file (startOptions arguments) other) ∧ queue = file.fallback

theorem memberValue?_eq_some {node : Node} {queue : String} :
    project.memberValue? file node = some queue ↔
      ∃ object property specifier, node = .member (.identifier object) property ∧
        file.imports.get? object = some specifier ∧
        project.constant? specifier property file.path = some queue := by
  constructor
  · intro h
    obtain ⟨⟨object, property⟩, hmember, h⟩ := Option.bind_eq_some_iff.mp h
    obtain ⟨specifier, himported, hvalue⟩ := Option.bind_eq_some_iff.mp h
    unfold Node.namedMember? at hmember
    split at hmember <;> cases hmember
    exact ⟨object, property, specifier, rfl, himported, hvalue⟩
  · rintro ⟨object, property, specifier, rfl, himported, h⟩
    simp [memberValue?, Node.namedMember?, himported, h]

theorem optionsQueue?_eq_some {members : List Node} {queue : String} :
    project.optionsQueue? file members = some queue ↔ project.GivesQueue file members queue := by
  unfold optionsQueue? GivesQueue
  rw [Option.bind_eq_bind, Option.bind_eq_some_iff]
  refine exists_congr fun value => and_congr Node.property?_eq_some ?_
  constructor
  · intro h
    split at h
    · cases h
      exact .string queue
    · cases h
      exact .identifier queue
    · obtain ⟨object, property, specifier, rfl, himported, hvalue⟩ := memberValue?_eq_some.mp h
      exact .constant himported hvalue
  · rintro (_ | _ | ⟨himported, hvalue⟩)
    · rfl
    · rfl
    · exact memberValue?_eq_some.mpr ⟨_, _, _, rfl, himported, hvalue⟩

theorem runsOn_iff {arguments : List Node} {queue : String} :
    project.RunsOn file arguments queue ↔
      queue = (project.optionsQueue? file (startOptions arguments)).getD file.fallback := by
  unfold RunsOn
  simp only [← optionsQueue?_eq_some]
  cases project.optionsQueue? file (startOptions arguments) with
  | none => simp
  | some given => simp [eq_comm]

theorem secondQueue?_eq {first : Node} (rest : List Node) (h : ∀ members, first ≠ .object members) :
    project.secondQueue? file (first :: rest) =
      project.optionsQueue? file (startOptions (first :: rest)) := by
  unfold startOptions
  split
  · next heq =>
    cases heq
    exact absurd rfl (h _)
  · next heq =>
    cases heq
    rfl
  · next hsecond =>
    have hnone : (Node.argument? (first :: rest) 1).bind Node.members? = none := by
      rw [Option.eq_none_iff_forall_ne_some]
      intro members hmembers
      obtain ⟨second, hargument, hobject⟩ := Option.bind_eq_some_iff.mp hmembers
      obtain ⟨hplace, -⟩ := Node.argument?_eq_some.mp hargument
      obtain rfl := Node.members?_eq_some.mp hobject
      cases rest with
      | nil => cases hplace
      | cons second rest =>
        cases hplace
        exact hsecond _ _ _ rfl
    rw [secondQueue?, hnone]
    rfl

theorem startInfo?_eq (isDirect : Bool) (arguments : List Node) :
    project.startInfo? file isDirect arguments =
      (file.startName? isDirect arguments).map
        (·, project.optionsQueue? file (startOptions arguments)) := by
  cases arguments with
  | nil => rfl
  | cons first rest =>
    cases first with
    | string value =>
      rw [← secondQueue?_eq rest (by simp)]
      rfl
    | identifier name =>
      rw [← secondQueue?_eq rest (by simp)]
      cases isDirect <;> rfl
    | member object property =>
      rw [← secondQueue?_eq rest (by simp)]
      cases isDirect with
      | false => rfl
      | true =>
        simp only [startInfo?, Node.argument?, SourceFile.startName?, List.getElem?_cons_zero,
          Option.bind_eq_bind, Option.bind_some, if_true]
        cases file.constantMember? (.member object property) <;> rfl
    | object members =>
      simp only [startInfo?, Node.argument?, SourceFile.startName?, startOptions,
        List.getElem?_cons_zero, Option.bind_eq_bind, Option.bind_some]
      cases (Node.property? members "type").bind file.workflowType? <;> rfl
    | _ => rfl

end Project

/-! ### Start calls -/

/-- A callee is the start function, in any spelling but as a method of `this`. -/
def IsDirect (vocabulary : Vocabulary) (callee : Node) : Prop :=
  callee.Targets vocabulary.childStart ∧ ∀ property, callee ≠ .member .this property

theorem isDirectStart_iff {vocabulary : Vocabulary} {callee : Node} :
    isDirectStart vocabulary callee = true ↔ IsDirect vocabulary callee := by
  unfold isDirectStart IsDirect
  rw [Bool.and_eq_true]
  constructor
  · rintro ⟨htarget, hthis⟩
    cases hname : callee.targetName? with
    | none => simp [hname] at htarget
    | some name =>
      obtain rfl : vocabulary.childStart = name := by
        simpa [hname, Vocabulary.isChildStart] using htarget
      refine ⟨Node.targetName?_eq_some.mp hname, ?_⟩
      rintro property rfl
      cases hthis
  · rintro ⟨htarget, hthis⟩
    constructor
    · simp [Node.targetName?_eq_some.mpr htarget, Vocabulary.isChildStart]
    · cases htarget with
      | plain | pair => rfl
      | member subject =>
        cases subject with
        | this => exact absurd rfl (hthis _)
        | _ => rfl

/-- A call starts a child workflow: it calls the start function itself, or it passes options with a type
to a wrapper, or options with a type and a queue to any method. -/
inductive Starts (vocabulary : Vocabulary) (wrappers : List String) (callee : Node) :
    List Node → Prop
  | direct (arguments : List Node) (h : IsDirect vocabulary callee) :
      Starts vocabulary wrappers callee arguments
  | wrapper {name : String} {members : List Node} (rest : List Node)
      (written : callee.WrittenAs name) (known : name ∈ wrappers)
      (type : Node.HasProperty members "type") :
      Starts vocabulary wrappers callee (.object members :: rest)
  | method {members : List Node} (rest : List Node) (member : callee.isMember = true)
      (type : Node.HasProperty members "type") (queue : Node.HasProperty members "taskQueue") :
      Starts vocabulary wrappers callee (.object members :: rest)

theorem typedOptions?_eq_some {arguments members : List Node} :
    typedOptions? arguments = some members ↔
      ∃ rest, arguments = .object members :: rest ∧ Node.HasProperty members "type" := by
  constructor
  · intro h
    obtain ⟨members', hmembers, h⟩ := Option.bind_eq_some_iff.mp h
    obtain ⟨first, hfirst, hobject⟩ := Option.bind_eq_some_iff.mp hmembers
    obtain ⟨htype, ⟨⟩⟩ := Option.ite_none_right_eq_some.mp h
    obtain rfl := Node.members?_eq_some.mp hobject
    obtain ⟨hplace, -⟩ := Node.argument?_eq_some.mp hfirst
    cases arguments with
    | nil => cases hplace
    | cons first rest =>
      cases hplace
      exact ⟨rest, rfl, Node.isSome_property?.mp htype⟩
  · rintro ⟨rest, rfl, htype⟩
    simp [typedOptions?, Node.argument?, Node.members?, Node.isSome_property?.mpr htype]

theorem isStart_iff {vocabulary : Vocabulary} {wrappers : List String} {callee : Node}
    {arguments : List Node} :
    isStart vocabulary wrappers callee arguments = true ↔
      Starts vocabulary wrappers callee arguments := by
  unfold isStart
  rw [Bool.or_eq_true, isDirectStart_iff]
  constructor
  · rintro (hdirect | h)
    · exact .direct arguments hdirect
    · split at h
      · cases h
      · next members hoptions =>
        obtain ⟨rest, rfl, htype⟩ := typedOptions?_eq_some.mp hoptions
        obtain hwrapper | hmethod := Bool.or_eq_true_iff.mp h
        · cases hname : callee.plainName? with
          | none => simp [hname] at hwrapper
          | some name =>
            exact .wrapper rest (Node.plainName?_eq_some.mp hname) (by simpa [hname] using hwrapper)
              htype
        · obtain ⟨hmember, hqueue⟩ := Bool.and_eq_true_iff.mp hmethod
          exact .method rest hmember htype (Node.isSome_property?.mp hqueue)
  · rintro (⟨_, hdirect⟩ | ⟨rest, written, known, type⟩ | ⟨rest, member, type, queue⟩)
    · exact .inl hdirect
    · right
      rw [typedOptions?_eq_some.mpr ⟨rest, rfl, type⟩]
      simp [Node.plainName?_eq_some.mpr written, known]
    · right
      rw [typedOptions?_eq_some.mpr ⟨rest, rfl, type⟩]
      simp [member, Node.isSome_property?.mpr queue]

namespace Project

variable {project : Project} {file : SourceFile}

theorem childSite?_eq_some {wrappers : List String} {node : Node} {site : Site} :
    project.childSite? file wrappers node = some site ↔
      ∃ callee types arguments, node = .call callee types arguments ∧
        Starts project.vocabulary wrappers callee arguments ∧
        file.NamesWorkflow (IsDirect project.vocabulary callee) arguments site.name ∧
        project.RunsOn file arguments site.queue := by
  unfold childSite?
  split
  · next callee types arguments =>
    rw [Option.ite_none_right_eq_some, isStart_iff, startInfo?_eq, Option.map_map,
      Option.map_eq_some_iff]
    simp only [SourceFile.startName?_eq_some, isDirectStart_iff, runsOn_iff]
    constructor
    · rintro ⟨hstarts, name, hname, rfl⟩
      exact ⟨callee, types, arguments, rfl, hstarts, hname, rfl⟩
    · rintro ⟨_, _, _, ⟨⟩, hstarts, hname, hqueue⟩
      exact ⟨hstarts, site.name, hname, congrArg (Site.mk site.name) hqueue.symm⟩
  · next hother =>
    simp only [reduceCtorEq, false_iff]
    rintro ⟨callee, types, arguments, rfl, -⟩
    exact hother _ _ _ rfl

def childWorkflowsBy (project : Project) (file : SourceFile) (wrappers : List String) :
    List ChildWorkflow :=
  ((file.program.nodes.filterMap (project.childSite? file wrappers)).map
    Site.childWorkflow).eraseDups

theorem mem_childWorkflowsBy {wrappers : List String} {child : ChildWorkflow} :
    child ∈ project.childWorkflowsBy file wrappers ↔
      ∃ callee types arguments name queue,
        file.program.Contains (.call callee types arguments) ∧
        Starts project.vocabulary wrappers callee arguments ∧
        file.NamesWorkflow (IsDirect project.vocabulary callee) arguments name ∧
        project.RunsOn file arguments queue ∧ child = ⟨some name, some queue⟩ := by
  simp only [childWorkflowsBy, List.mem_eraseDups, List.mem_map, List.mem_filterMap,
    Program.mem_nodes_iff, childSite?_eq_some]
  constructor
  · rintro ⟨⟨name, queue⟩, ⟨_, hinside, callee, types, arguments, rfl, hstarts, hname, hruns⟩, rfl⟩
    exact ⟨callee, types, arguments, name, queue, hinside, hstarts, hname, hruns, rfl⟩
  · rintro ⟨callee, types, arguments, name, queue, hinside, hstarts, hname, hruns, rfl⟩
    exact ⟨⟨name, queue⟩, ⟨_, hinside, callee, types, arguments, rfl, hstarts, hname, hruns⟩, rfl⟩

end Project

/-! ### Roots that may change -/

namespace Syntax.Node

/-- The name that a chain of members starts with, if it starts with one. -/
def root? : Node → Option String
  | .identifier name => some name
  | .member subject _ => subject.root?
  | _ => none

theorem MemberOf.root?_eq {node : Node} {root name : String} (h : node.MemberOf root name) :
    node.root? = some root := by
  cases h <;> rfl

end Syntax.Node

namespace SourceFile

variable {file : SourceFile} {isDirect : Prop} {subject : Node} {property name : String}

theorem not_namesWorkflow_member (rest : List Node)
    (h : ∀ root, subject.root? = some root → ¬ file.Fixes root) :
    ¬ file.NamesWorkflow isDirect (.member subject property :: rest) name := by
  rintro (_ | _ | ⟨-, -, fixed, member⟩)
  exact h _ member.root?_eq fixed

theorem not_typeNames_member (hproperty : property ≠ "name")
    (h : ∀ root, subject.root? = some root → ¬ file.Fixes root) :
    ¬ file.TypeNames (.member subject property) name := by
  rintro (_ | _ | _ | _ | ⟨fixed, member, -⟩)
  · exact hproperty rfl
  · exact hproperty rfl
  · exact h _ member.root?_eq fixed

theorem not_namesWorkflow_type {members : List Node} (rest : List Node)
    (htype : Node.IsFirstProperty members "type" (.member subject property))
    (hproperty : property ≠ "name") (h : ∀ root, subject.root? = some root → ¬ file.Fixes root) :
    ¬ file.NamesWorkflow isDirect (.object members :: rest) name := by
  rintro (_ | _ | ⟨-, -, -, ⟨⟩⟩ | ⟨-, type, names⟩)
  obtain rfl := type.unique htype
  exact not_typeNames_member hproperty h names

end SourceFile

namespace Project

variable {project : Project} {file : SourceFile}

/-- A start call by a member of a constant, among the arguments of another one. -/
def nestedProgram : Program :=
  ⟨[.variableDeclaration .constant [.declarator (.binding "TYPES") [] (some (.object []))],
    .expression (.call (.identifier "executeChild") []
      [.string "outer",
        .call (.identifier "executeChild") [] [.member (.identifier "TYPES") "inner"]])]⟩

end Project

end WorkflowAnalysis
