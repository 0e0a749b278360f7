import WorkflowAnalysis.Extraction.Activities
import WorkflowAnalysis.Proofs.Records.FirstOccurrences
import WorkflowAnalysis.Proofs.Syntax.Forms
import WorkflowAnalysis.Proofs.Syntax.SourceOrder

/-! Activity sites. Which activities a file takes from the sets that proxy calls bind, told by rules and
positions: a variable gives what its pattern takes out of the set or what is used of it anywhere, a field
of a class what is destructured from it inside the class. Extraction lists exactly these. -/
namespace WorkflowAnalysis

open Syntax

/-- A call of a proxy function, in any spelling, with its arguments. -/
inductive IsProxyCall (vocabulary : Vocabulary) : Node → List Node → Prop
  | call {callee : Node} {name : String} (types arguments : List Node) (target : callee.Targets name)
      (known : name ∈ vocabulary.proxyFunctions) :
      IsProxyCall vocabulary (.call callee types arguments) arguments

theorem proxyArguments?_eq_some {vocabulary : Vocabulary} {node : Node} {arguments : List Node} :
    proxyArguments? vocabulary node = some arguments ↔ IsProxyCall vocabulary node arguments := by
  constructor
  · intro h
    unfold proxyArguments? at h
    split at h
    · next callee types arguments' =>
      obtain ⟨hknown, h⟩ := Option.ite_none_right_eq_some.mp h
      cases h
      cases ht : callee.targetName? with
      | none => simp [ht] at hknown
      | some name =>
        exact .call types _ (Node.targetName?_eq_some.mp ht)
          (by simpa [ht, Vocabulary.isProxy] using hknown)
    · cases h
  · rintro ⟨types, _, target, known⟩
    simp [proxyArguments?, Node.targetName?_eq_some.mpr target, Vocabulary.isProxy, known]

/-- A pattern takes a name out of an object by the property at a place. -/
def TakesAt (properties : List Node) (place : Nat) (name : String) : Prop :=
  ∃ property, properties[place]? = some property ∧ property.Destructures name

theorem destructuredNames_inOrder (properties : List Node) :
    ListsInOrder (· < ·) (TakesAt properties) (Node.destructuredNames properties) :=
  (listsInOrder_getElem? properties).filterMap.congr fun place name => by
    simp only [TakesAt, Node.destructuredName?_eq_some]

/-! ### Sets bound to variables -/

/-- A node uses an activity of the set bound to a name: it calls it as a member, in dots or brackets, or
takes it out by the property at a place of a pattern. -/
inductive Uses (bound : String) : Node → Nat → String → Prop
  | member {object : Node} (types arguments : List Node) (name : String) (h : object.Named bound) :
      Uses bound (.call (.member object name) types arguments) 0 name
  | index {object : Node} (types arguments : List Node) (name : String) (h : object.Named bound) :
      Uses bound (.call (.index object (.string name)) types arguments) 0 name
  | pattern {properties : List Node} {value : Node} {place : Nat} {name : String}
      (ascription : List Node) (h : value.Named bound) (taken : TakesAt properties place name) :
      Uses bound (.declarator (.objectPattern properties) ascription (some value)) place name

theorem singleUse_inOrder {bound name : String} {node object : Node}
    (h : ∀ place other, Uses bound node place other ↔ object.Named bound ∧ place = 0 ∧ other = name) :
    ListsInOrder (· < ·) (Uses bound node) (if object.isNamed bound then [name] else []) := by
  apply listsInOrder_ite
  · intro hnamed
    refine (listsInOrder_singleton 0 name).congr fun place other => ?_
    simp [h, Node.isNamed_iff.mp hnamed]
  · intro place other huse
    exact Node.isNamed_iff.mpr ((h place other).mp huse).1

theorem usedNames_inOrder (bound : String) (node : Node) :
    ListsInOrder (· < ·) (Uses bound node) (usedNames bound node) := by
  unfold usedNames
  split
  · next object name types arguments =>
    apply singleUse_inOrder
    intro place other
    constructor
    · rintro ⟨⟩
      exact ⟨‹_›, rfl, rfl⟩
    · rintro ⟨h, rfl, rfl⟩
      exact .member types arguments _ h
  · next object name types arguments =>
    apply singleUse_inOrder
    intro place other
    constructor
    · rintro ⟨⟩
      exact ⟨‹_›, rfl, rfl⟩
    · rintro ⟨h, rfl, rfl⟩
      exact .index types arguments _ h
  · next properties ascription value =>
    apply listsInOrder_ite
    · intro h
      refine (destructuredNames_inOrder properties).congr fun place name => ⟨?_, ?_⟩
      · exact .pattern ascription (Node.isNamed_iff.mp h)
      · rintro ⟨⟩
        assumption
    · rintro place name ⟨⟩
      exact Node.isNamed_iff.mpr ‹_›
  · next hmember hindex hpattern =>
    apply listsInOrder_nil
    rintro place name (_ | _ | _)
    · exact hmember _ _ _ _ rfl
    · exact hindex _ _ _ _ rfl
    · exact hpattern _ _ _ rfl

namespace Syntax.Program

/-- An activity of the set bound to a name is used at a position, there by the property at a place. -/
def UsedAt (program : Program) (bound : String) (key : Position × Nat) (name : String) : Prop :=
  ∃ node, program.at? key.1 = some node ∧ Uses bound node key.2 name

theorem uses_inOrder (program : Program) (bound : String) :
    ListsInOrder (Prod.Lex (· < ·) (· < ·)) (program.UsedAt bound)
      (program.nodes.flatMap (usedNames bound)) :=
  program.nodes_inOrder.flatMap fun node _ => usedNames_inOrder bound node

theorem mem_usages {program : Program} {bound name : String} :
    name ∈ program.usages bound ↔
      ∃ node place, program.Contains node ∧ Uses bound node place name := by
  rw [usages, List.mem_eraseDups, (program.uses_inOrder bound).mem_iff]
  constructor
  · rintro ⟨⟨position, place⟩, node, hnode, huse⟩
    exact ⟨node, place, ⟨position, hnode⟩, huse⟩
  · rintro ⟨node, place, ⟨position, hnode⟩, huse⟩
    exact ⟨(position, place), node, hnode, huse⟩

/-- The target of a declaration gives an activity of the set it is bound to: a pattern what it takes out,
a name what is used of it anywhere in the program. -/
inductive Gives (program : Program) : Node → String → Prop
  | pattern {properties : List Node} {place : Nat} {name : String}
      (taken : TakesAt properties place name) : Gives program (.objectPattern properties) name
  | use {bound : String} {node : Node} {place : Nat} {name : String} (somewhere : program.Contains node)
      (used : Uses bound node place name) : Gives program (.binding bound) name

theorem mem_namesOfTarget {program : Program} {target : Node} {name : String} :
    name ∈ program.namesOfTarget target ↔ program.Gives target name := by
  unfold namesOfTarget
  split
  · next properties =>
    rw [(destructuredNames_inOrder properties).mem_iff]
    constructor
    · rintro ⟨place, taken⟩
      exact .pattern taken
    · rintro ⟨⟩
      exact ⟨_, ‹_›⟩
  · next bound =>
    rw [mem_usages]
    constructor
    · rintro ⟨node, place, somewhere, used⟩
      exact .use somewhere used
    · rintro ⟨⟩
      exact ⟨_, _, ‹_›, ‹_›⟩
  · next hpattern hbinding =>
    simp only [List.not_mem_nil, false_iff]
    rintro (_ | _)
    · exact hpattern _ rfl
    · exact hbinding _ rfl

end Syntax.Program

/-- The options of a proxy call settle its queue by themselves: the first property for it is a string, or
there is none and the fallback stands in. -/
inductive SettlesQueue (fallback : String) : List Node → String → Prop
  | stated {members : List Node} {queue : String} (rest : List Node)
      (h : Node.IsFirstProperty members "taskQueue" (.string queue)) :
      SettlesQueue fallback (.object members :: rest) queue
  | omitted {members : List Node} (rest : List Node) (h : ¬ Node.HasProperty members "taskQueue") :
      SettlesQueue fallback (.object members :: rest) fallback
  | noOptions : SettlesQueue fallback [] fallback

namespace Project

variable {project : Project} {file : SourceFile}

theorem proxyQueue_of_settlesQueue {arguments : List Node} {queue : String}
    (h : SettlesQueue file.fallback arguments queue) : project.proxyQueue file arguments = queue := by
  unfold proxyQueue proxyQueue?
  cases h with
  | stated rest h => simp [Node.argument?, Node.property?_eq_some.mpr h]
  | omitted rest h => simp [Node.argument?, Node.property?_eq_none.mpr h]
  | noOptions => simp [Node.argument?]

theorem mem_declaratorSites {node : Node} {site : Site} :
    site ∈ project.declaratorSites file node ↔
      ∃ target ascription call arguments, node = .declarator target ascription (some call) ∧
        IsProxyCall project.vocabulary call arguments ∧
        file.program.Gives target site.name ∧ site.queue = project.proxyQueue file arguments := by
  unfold declaratorSites
  split
  · next target ascription call =>
    split
    · next arguments harguments =>
      have hproxy := proxyArguments?_eq_some.mp harguments
      simp only [List.mem_map, Program.mem_namesOfTarget]
      constructor
      · rintro ⟨name, hname, rfl⟩
        exact ⟨target, ascription, call, arguments, rfl, hproxy, hname, rfl⟩
      · rintro ⟨_, _, _, arguments', ⟨⟩, hproxy', hname, hqueue⟩
        rw [← proxyArguments?_eq_some, harguments] at hproxy'
        cases hproxy'
        exact ⟨site.name, hname, by rw [← hqueue]⟩
    · next hnone =>
      simp only [List.not_mem_nil, false_iff]
      rintro ⟨_, _, _, arguments, ⟨⟩, hproxy, -⟩
      rw [← proxyArguments?_eq_some, hnone] at hproxy
      cases hproxy
  · next hother =>
    simp only [List.not_mem_nil, false_iff]
    rintro ⟨target, ascription, call, _, rfl, -⟩
    exact hother _ _ _ rfl

/-- The activities of variables are exactly those that the target of a declarator gives, at any depth,
where a proxy call is its value, on the queue of that call. Of a set that is bound to a name, each use
counts where it comes up first, whether it is called or destructured. Options that settle the queue by
themselves do so for every name that is destructured from their call. -/
theorem moduleActivities_exact (project : Project) (file : SourceFile) :
    (∀ activity, activity ∈ (project.moduleSites file).map Site.activity ↔
      ∃ target ascription call arguments name,
        file.program.Contains (.declarator target ascription (some call)) ∧
        IsProxyCall project.vocabulary call arguments ∧ file.program.Gives target name ∧
        activity = ⟨name, some (project.proxyQueue file arguments)⟩) ∧
    (∀ bound, (file.program.usages bound).Nodup ∧ ∃ uses,
      ListsInOrder (Prod.Lex (· < ·) (· < ·)) (file.program.UsedAt bound) uses ∧
      FirstOccurrences uses (file.program.usages bound)) ∧
    ∀ properties ascription call arguments place name queue,
      file.program.Contains (.declarator (.objectPattern properties) ascription (some call)) →
      IsProxyCall project.vocabulary call arguments → TakesAt properties place name →
      SettlesQueue file.fallback arguments queue →
      ⟨name, some queue⟩ ∈ (project.moduleSites file).map Site.activity := by
  have hmem (activity : Activity) :
      activity ∈ (project.moduleSites file).map Site.activity ↔
        ∃ target ascription call arguments name,
          file.program.Contains (.declarator target ascription (some call)) ∧
          IsProxyCall project.vocabulary call arguments ∧ file.program.Gives target name ∧
          activity = ⟨name, some (project.proxyQueue file arguments)⟩ := by
    simp only [moduleSites, List.mem_map, List.mem_flatMap, Program.mem_nodes_iff,
      mem_declaratorSites]
    constructor
    · rintro ⟨⟨name, _⟩, ⟨_, hnode, target, ascription, call, arguments, rfl, hproxy, hname, rfl⟩, rfl⟩
      exact ⟨target, ascription, call, arguments, name, hnode, hproxy, hname, rfl⟩
    · rintro ⟨target, ascription, call, arguments, name, hnode, hproxy, hname, rfl⟩
      exact ⟨⟨name, project.proxyQueue file arguments⟩,
        ⟨_, hnode, target, ascription, call, arguments, rfl, hproxy, hname, rfl⟩, rfl⟩
  refine ⟨hmem, ?_, ?_⟩
  · intro bound
    exact ⟨nodup_eraseDups _, _, file.program.uses_inOrder bound, firstOccurrences_iff.mpr rfl⟩
  · intro properties ascription call arguments place name queue hnode hproxy htaken hqueue
    refine (hmem _).mpr ⟨_, ascription, call, arguments, name, hnode, hproxy, .pattern htaken, ?_⟩
    rw [proxyQueue_of_settlesQueue hqueue]

/-- A workflow that destructures an activity from a proxy call inside a function. -/
def chargingProgram : Program :=
  ⟨[.function .declaration (some "run") []
    [.variableDeclaration .constant
      [.declarator (.objectPattern [.patternProperty (some "charge") [] (.binding "charge")]) []
        (some (.call (.identifier "proxyActivities") []
          [.object [.property (some "taskQueue") [] (.string "billing")]]))]]]⟩

theorem moduleActivities_exact_charging :
    let project : Project := ⟨.ofWorkingDirectory ["w"], {}⟩
    let file := SourceFile.ofProgram (Path.ofString "/w/main.js") chargingProgram "main"
    ⟨"charge", some "billing"⟩ ∈ (project.moduleSites file).map Site.activity := by
  intro project file
  have hproxy : IsProxyCall project.vocabulary _ _ :=
    .call [] [.object [.property (some "taskQueue") [] (.string "billing")]]
      (.plain "proxyActivities") (by decide)
  have hqueue : SettlesQueue "main"
      [.object [.property (some "taskQueue") [] (.string "billing")]] "billing" :=
    .stated [] ⟨[], [], [], rfl, by simp⟩
  exact (moduleActivities_exact project file).2.2 _ _ _ _ 0 "charge" "billing"
    ⟨[0, 0, 0], rfl⟩ hproxy ⟨_, rfl, .bound _ _ _⟩ hqueue

end Project

/-! ### Sets bound to fields -/

/-- A class binds a field to a proxy call: by the initial value of the member at a place, or by an
assignment to `this` with an admitted operator, the statement at a place among those directly in the body
of a constructor. -/
inductive BindsField (admits : AssignOperator → Prop) (vocabulary : Vocabulary) (members : List Node) :
    Nat ⊕ Nat × Nat → FieldProxy → Prop
  | initial {place : Nat} {field : String} {marks key arguments : List Node} {call : Node}
      (member : members[place]? = some (.field (some field) marks key (some call)))
      (proxy : IsProxyCall vocabulary call arguments) :
      BindsField admits vocabulary members (.inl place) (field, arguments)
  | assigned {place statement : Nat} {field : String} {name own : Option String} {role : FunctionRole}
      {marks key params body arguments : List Node} {operator : AssignOperator} {call : Node}
      (member : members[place]? =
        some (.method .constructor name marks key (.function role own params body)))
      (admitted : admits operator)
      (assignment : body[statement]? =
        some (.expression (.assign operator (.member .this field) call)))
      (proxy : IsProxyCall vocabulary call arguments) :
      BindsField admits vocabulary members (.inr (place, statement)) (field, arguments)

/-- Initial values come before assignments, and both in the order of their places. -/
abbrev BinderBefore : Nat ⊕ Nat × Nat → Nat ⊕ Nat × Nat → Prop :=
  Sum.Lex (· < ·) (Prod.Lex (· < ·) (· < ·))

theorem initializedField?_eq_some {vocabulary : Vocabulary} {node : Node} {proxy : FieldProxy} :
    initializedField? vocabulary node = some proxy ↔
      ∃ marks key call, node = .field (some proxy.1) marks key (some call) ∧
        IsProxyCall vocabulary call proxy.2 := by
  unfold initializedField?
  split
  · next field marks key call =>
    simp only [Option.map_eq_some_iff, proxyArguments?_eq_some]
    constructor
    · rintro ⟨arguments, hproxy, rfl⟩
      exact ⟨marks, key, call, rfl, hproxy⟩
    · rintro ⟨_, _, _, ⟨⟩, hproxy⟩
      exact ⟨proxy.2, hproxy, rfl⟩
  · next hother =>
    simp only [reduceCtorEq, false_iff]
    rintro ⟨marks, key, call, rfl, -⟩
    exact hother _ _ _ _ rfl

theorem assignedField?_eq_some {vocabulary : Vocabulary} {node : Node} {proxy : FieldProxy} :
    assignedField? vocabulary node = some proxy ↔
      ∃ operator call, node = .expression (.assign operator (.member .this proxy.1) call) ∧
        IsProxyCall vocabulary call proxy.2 := by
  unfold assignedField?
  split
  · next operator field call =>
    simp only [Option.map_eq_some_iff, proxyArguments?_eq_some]
    constructor
    · rintro ⟨arguments, hproxy, rfl⟩
      exact ⟨operator, call, rfl, hproxy⟩
    · rintro ⟨_, _, ⟨⟩, hproxy⟩
      exact ⟨proxy.2, hproxy, rfl⟩
  · next hother =>
    simp only [reduceCtorEq, false_iff]
    rintro ⟨operator, call, rfl, -⟩
    exact hother _ _ _ rfl

theorem getElem?_constructorBody {node statement : Node} {place : Nat} :
    (constructorBody node)[place]? = some statement ↔
      ∃ name marks key role own params body,
        node = .method .constructor name marks key (.function role own params body) ∧
        body[place]? = some statement := by
  unfold constructorBody
  split
  · next name marks key role own params body =>
    constructor
    · intro h
      exact ⟨name, marks, key, role, own, params, body, rfl, h⟩
    · rintro ⟨_, _, _, _, _, _, _, ⟨⟩, h⟩
      exact h
  · next hother =>
    simp only [List.getElem?_nil, reduceCtorEq, false_iff]
    rintro ⟨name, marks, key, role, own, params, body, rfl, -⟩
    exact hother _ _ _ _ _ _ _ rfl

theorem fieldProxies_inOrder (vocabulary : Vocabulary) (members : List Node) :
    ListsInOrder BinderBefore (BindsField (fun _ => True) vocabulary members)
      (fieldProxies vocabulary members) := by
  have hinitial := (listsInOrder_getElem? members).filterMap (f := initializedField? vocabulary)
  have hassigned := ((listsInOrder_getElem? members).flatMap
    fun member _ => listsInOrder_getElem? (constructorBody member)).filterMap
      (f := assignedField? vocabulary)
  refine (hinitial.append hassigned).congr ?_
  rintro (place | ⟨place, statement⟩) ⟨field, arguments⟩
  · simp only [Sum.elim_inl, initializedField?_eq_some]
    constructor
    · rintro ⟨_, hmember, marks, key, call, rfl, hproxy⟩
      exact .initial hmember hproxy
    · rintro ⟨⟩
      exact ⟨_, ‹_›, _, _, _, rfl, ‹_›⟩
  · simp only [Sum.elim_inr, assignedField?_eq_some, getElem?_constructorBody]
    constructor
    · rintro ⟨_, ⟨_, hmember, name, marks, key, role, own, params, body, rfl, hbody⟩, operator, call,
        rfl, hproxy⟩
      exact .assigned hmember trivial hbody hproxy
    · rintro ⟨⟩
      exact ⟨_, ⟨_, ‹_›, _, _, _, _, _, _, _, rfl, ‹_›⟩, _, _, rfl, ‹_›⟩

/-- A declarator takes a name out of a field of `this` by the property at a place. -/
inductive TakesFromThis (field : String) : Node → Nat → String → Prop
  | pattern {properties : List Node} {place : Nat} {name : String} (ascription : List Node)
      (taken : TakesAt properties place name) :
      TakesFromThis field
        (.declarator (.objectPattern properties) ascription (some (.member .this field))) place name

theorem thisMember?_eq_some {node : Node} {field : String} :
    node.thisMember? = some field ↔ node = .member .this field := by
  constructor
  · intro h
    unfold Node.thisMember? at h
    split at h <;> cases h
    rfl
  · rintro rfl
    rfl

theorem destructuredFrom_inOrder (field : String) (node : Node) :
    ListsInOrder (· < ·) (TakesFromThis field node) (destructuredFrom field node) := by
  unfold destructuredFrom
  split
  · next properties ascription value =>
    apply listsInOrder_ite
    · intro h
      obtain rfl := thisMember?_eq_some.mp h
      refine (destructuredNames_inOrder properties).congr fun place name => ⟨?_, ?_⟩
      · exact .pattern ascription
      · rintro ⟨⟩
        assumption
    · rintro place name ⟨⟩
      rfl
  · next hother =>
    apply listsInOrder_nil
    rintro place name ⟨⟩
    exact hother _ _ _ rfl

/-- Where an activity of a field comes from: the position of the class, what binds the field there, and
inside the class the position of a declarator and the place of a property in its pattern. -/
abbrev FieldOrigin := Position × (Nat ⊕ Nat × Nat) × Position × Nat

/-- By class, then by what binds the field, then by where the activity is taken out. -/
abbrev FieldOriginBefore : FieldOrigin → FieldOrigin → Prop :=
  Prod.Lex (· < ·) (Prod.Lex BinderBefore (Prod.Lex (· < ·) (· < ·)))

namespace Project

/-- A class binds a field to a proxy call and somewhere inside takes an activity out of the field. -/
inductive ClassTakes (project : Project) (file : SourceFile) :
    Node → (Nat ⊕ Nat × Nat) × Position × Nat → Site → Prop
  | taken {role : ClassRole} {name : Option String} {marks members arguments : List Node}
      {base : Option Node} {binder : Nat ⊕ Nat × Nat} {field activity : String} {position : Position}
      {declarator : Node} {place : Nat}
      (binds : BindsField (fun _ => True) project.vocabulary members binder (field, arguments))
      (inside : (Node.classDef role name marks base members).at? position = some declarator)
      (takes : TakesFromThis field declarator place activity) :
      ClassTakes project file (.classDef role name marks base members) (binder, position, place)
        ⟨activity, project.proxyQueue file arguments⟩

theorem classNodeSites_inOrder (project : Project) (file : SourceFile) (node : Node) :
    ListsInOrder (Prod.Lex BinderBefore (Prod.Lex (· < ·) (· < ·))) (project.ClassTakes file node)
      (project.classNodeSites file node) := by
  unfold classNodeSites
  split
  · next role name marks base members =>
    have hwalk := (Node.classDef role name marks base members).preorder_inOrder
    have hfield (proxy : FieldProxy) :=
      (hwalk.flatMap fun node _ => destructuredFrom_inOrder proxy.1 node).map
        (f := fun name => (⟨name, project.proxyQueue file proxy.2⟩ : Site))
    refine ((fieldProxies_inOrder project.vocabulary members).flatMap fun proxy _ =>
      hfield proxy).congr ?_
    rintro ⟨binder, position, place⟩ site
    constructor
    · rintro ⟨⟨field, arguments⟩, hbinds, activity, ⟨declarator, hinside, htakes⟩, rfl⟩
      exact .taken hbinds hinside htakes
    · rintro ⟨⟩
      exact ⟨_, ‹_›, _, ⟨_, ‹_›, ‹_›⟩, rfl⟩
  · next hother =>
    refine listsInOrder_nil ?_
    rintro key site ⟨⟩
    exact hother _ _ _ _ _ rfl

/-- Somewhere inside a class that binds a field to a proxy call, an activity is destructured from the field
of `this`; its queue is that of the call. -/
def TakesFromField (admits : AssignOperator → Prop) (project : Project) (file : SourceFile)
    (activity : Activity) : Prop :=
  ∃ role name marks base members binder field arguments declarator place taken,
    file.program.Contains (.classDef role name marks base members) ∧
    BindsField admits project.vocabulary members binder (field, arguments) ∧
    (Node.classDef role name marks base members).Contains declarator ∧
    TakesFromThis field declarator place taken ∧
    activity = ⟨taken, some (project.proxyQueue file arguments)⟩

/-- The activities of fields are exactly those destructured from a field of `this`, at any depth inside a
class that binds the field to a proxy call, on the queue of that call; a constructor may assign the field
by any operator. They stand class by class in source order; in a class those of initialized fields before
those of assigned ones, both in the order of their members and statements; and those of one field in the
order in which they are destructured. -/
theorem classActivities_exact (project : Project) (file : SourceFile) :
    (∀ activity, activity ∈ (project.classSites file).map Site.activity ↔
      project.TakesFromField (fun _ => True) file activity) ∧
    ListsInOrder FieldOriginBefore
      (fun origin activity => ∃ owner site, file.program.at? origin.1 = some owner ∧
        project.ClassTakes file owner origin.2 site ∧ site.activity = activity)
      ((project.classSites file).map Site.activity) := by
  have horder : ListsInOrder FieldOriginBefore
      (fun origin activity => ∃ owner site, file.program.at? origin.1 = some owner ∧
        project.ClassTakes file owner origin.2 site ∧ site.activity = activity)
      ((project.classSites file).map Site.activity) := by
    have hsites := file.program.nodes_inOrder.flatMap fun node _ =>
      project.classNodeSites_inOrder file node
    refine hsites.map.congr fun origin activity => ?_
    constructor
    · rintro ⟨site, ⟨owner, howner, htakes⟩, rfl⟩
      exact ⟨owner, site, howner, htakes, rfl⟩
    · rintro ⟨owner, site, howner, htakes, rfl⟩
      exact ⟨site, ⟨owner, howner, htakes⟩, rfl⟩
  refine ⟨fun activity => ?_, horder⟩
  rw [horder.mem_iff]
  constructor
  · rintro ⟨⟨position, key⟩, owner, site, howner, ⟨binds, inside, takes⟩, rfl⟩
    exact ⟨_, _, _, _, _, _, _, _, _, _, _, ⟨position, howner⟩, binds, ⟨_, inside⟩, takes, rfl⟩
  · rintro ⟨role, name, marks, base, members, binder, field, arguments, declarator, place, taken,
      ⟨position, howner⟩, binds, ⟨usedAt, inside⟩, takes, rfl⟩
    exact ⟨(position, binder, usedAt, place), _, _, howner, .taken binds inside takes, rfl⟩

/-- A class whose constructor binds a field only if it holds nothing yet. -/
def lazyFile : SourceFile :=
  let proxy : Node := .call (.identifier "proxyActivities") []
    [.object [.property (some "taskQueue") [] (.string "billing")]]
  let take : Node := .declarator
    (.objectPattern [.patternProperty (some "charge") [] (.binding "charge")]) []
    (some (.member .this "held"))
  .ofProgram (Path.ofString "/w/main.js")
    ⟨[.classDef .declaration (some "Main") [] none
      [.method .constructor (some "constructor") [] []
        (.function .expression none []
          [.expression (.assign .logicalOr (.member .this "held") proxy)]),
       .method .ordinary (some "run") [] []
        (.function .expression none [] [.variableDeclaration .constant [take]])]]⟩ "main"

/-- The operator makes no difference: `||=` binds a field as `=` does. -/
theorem not_forall_plain_assignments :
    ¬ ∀ (project : Project) (file : SourceFile) (activity : Activity),
      activity ∈ (project.classSites file).map Site.activity ↔
        project.TakesFromField (· = .plain) file activity := by
  intro h
  let project : Project := ⟨.ofWorkingDirectory ["w"], {}⟩
  have hcharge : ⟨"charge", some "billing"⟩ ∈ (project.classSites lazyFile).map Site.activity := by
    decide +kernel
  obtain ⟨role, name, marks, base, members, binder, field, arguments, declarator, place, taken,
    hclass, hbinds, -⟩ := (h project lazyFile _).mp hcharge
  rw [← Program.mem_nodes_iff] at hclass
  simp [lazyFile, SourceFile.ofProgram, Program.nodes, Node.preorderList, Node.preorder,
    Node.preorderOption] at hclass
  obtain ⟨-, -, -, -, rfl⟩ := hclass
  cases hbinds with
  | @initial place _ _ _ _ _ member => rcases place with _ | _ | place <;> simp at member
  | @assigned place statement _ _ _ _ _ _ _ _ _ _ _ member admitted assignment =>
    subst admitted
    rcases place with _ | _ | place
    · simp at member
      obtain ⟨-, -, -, -, -, -, rfl⟩ := member
      rcases statement with _ | statement <;> simp at assignment
    · simp at member
    · simp at member

-- The field that is initialized comes first, although the constructor stands before it; the assignment
-- inside a block of the constructor binds nothing.
example :
    let proxy (queue : String) : Node := .call (.identifier "proxyActivities") []
      [.object [.property (some "taskQueue") [] (.string queue)]]
    let assign (field queue : String) : Node :=
      .expression (.assign .plain (.member .this field) (proxy queue))
    let take (name field : String) : Node := .variableDeclaration .constant
      [.declarator (.objectPattern [.patternProperty (some name) [] (.binding name)]) []
        (some (.member .this field))]
    let main : Node := .classDef .declaration (some "Main") [] none
      [.method .constructor (some "constructor") [] []
        (.function .expression none [] [assign "late" "b", .group [assign "never" "c"]]),
      .field (some "early") [] [] (some (proxy "a")),
      .method .ordinary (some "run") [] []
        (.function .expression none []
          [take "second" "late", take "first" "early", take "none" "never"])]
    let project : Project := ⟨.ofWorkingDirectory ["w"], {}⟩
    project.classSites (.ofProgram (Path.ofString "/w/main.js") ⟨[main]⟩ "main") =
      [⟨"first", "a"⟩, ⟨"second", "b"⟩] := by
  decide +kernel

end Project

end WorkflowAnalysis
