import WorkflowAnalysis.Analysis
import WorkflowAnalysis.Proofs.Syntax.CompiledCalls

/-! Compiled code and code written by hand have the same record. Whatever looks at a callee knows both
spellings of it, or looks for something that neither is (a member, a member of `this`), or looks for one
of two kinds of plain names: `require`, and the local functions that start child workflows. Names of
these two kinds are not taken from modules. -/
namespace WorkflowAnalysis

open Syntax

variable {link : String → Option String}

/-! ### Imports and exports -/

theorem requiredModule?_compiled (hr : link "require" = none) (value : Node) :
    requiredModule? (value.compiled link) = requiredModule? value := by
  unfold requiredModule?
  rw [Node.require?_compiled hr]
  congr 1
  funext _
  cases value with
  | call callee types arguments =>
    simp only [Node.compiled, Node.compiledList_eq_map, Node.targetName?_callee,
      Node.argument?_compiled, Option.bind_map, Function.comp_def, Node.require?_compiled hr]
  | _ => rfl

theorem importBindings_compiled (hr : link "require" = none) (n : Node) :
    importBindings (n.compiled link) = importBindings n := by
  cases n with
  | declarator target ascription value =>
    cases value with
    | none => cases target <;> rfl
    | some value =>
      cases target with
      | binding name =>
        simp [importBindings, requiredModule?_compiled hr]
      | _ => rfl
  | _ => rfl

theorem imports_compiled (hr : link "require" = none) (program : Program) :
    (program.compiled link).imports = program.imports := by
  unfold Program.imports
  rw [Program.flatMap_nodes_compiled
    ⟨fun _ => rfl, fun _ _ => rfl, fun _ => rfl, fun _ => rfl⟩ (importBindings_compiled hr)]

theorem topVariables_compiled (program : Program) :
    (program.compiled link).topVariables =
      program.topVariables.map (Prod.map id (List.map (Node.compiled link))) := by
  unfold Program.topVariables Program.compiled
  rw [List.filterMap_map, List.map_filterMap]
  exact List.filterMap_congr fun n _ => Node.variables?_compiled n

theorem topConstants_compiled (program : Program) :
    (program.compiled link).topConstants = program.topConstants := by
  have hdeclarator (n : Node) : ((n.compiled link).declarator?.bind (·.target.binding?)) =
      n.declarator?.bind (·.target.binding?) := by
    cases n <;> simp [Node.declarator?]
  unfold Program.topConstants
  rw [topVariables_compiled, List.flatMap_map]
  congr 1
  funext ⟨kind, declarators⟩
  cases kind with
  | constant =>
    simp only [Prod.map, id, List.filterMap_map, Function.comp_def, hdeclarator]
  | other => rfl

theorem exportedName?_compiled (program : Program) :
    (program.compiled link).exportedName? = program.exportedName? := by
  have hnamed (n : Node) : namedExport? (n.compiled link) = namedExport? n := by
    cases n with
    | exportDeclaration declaration => cases declaration <;> rfl
    | _ => rfl
  have hdefault (n : Node) : defaultExport? (n.compiled link) = defaultExport? n := by
    cases n with
    | exportDefault value =>
      cases value with
      | function role name params body => cases role <;> rfl
      | classDef role name decorators base members => cases role <;> rfl
      | _ => rfl
    | _ => rfl
  have hassigned (n : Node) : assignedExport? (n.compiled link) = assignedExport? n := by
    cases n with
    | assign operator target value =>
      cases target with
      | member object property => simp [assignedExport?]
      | _ => rfl
    | _ => rfl
  simp only [Program.exportedName?_eq_searches, Program.nodes, Program.compiled]
  rw [Node.findSome?_preorderList_compiled
      ⟨fun _ => rfl, fun _ _ => rfl, fun _ => rfl, fun _ => rfl⟩ hnamed,
    Node.findSome?_preorderList_compiled
      ⟨fun _ => rfl, fun _ _ => rfl, fun _ => rfl, fun _ => rfl⟩ hdefault,
    Node.findSome?_preorderList_compiled
      ⟨fun _ => rfl, fun _ _ => rfl, fun _ => rfl, fun _ => rfl⟩ hassigned]

/-! ### Classes -/

theorem ofExpression?_compiled (n : Node) :
    ClassRef.ofExpression? (n.compiled link) = ClassRef.ofExpression? n := by
  cases n with
  | member subject name => cases subject <;> rfl
  | _ => rfl

theorem firstBase?_compiled (program : Program) :
    (program.compiled link).firstBase? = program.firstBase? := by
  apply Node.findSome?_preorderList_compiled
    ⟨fun _ => rfl, fun _ _ => rfl, fun _ => rfl, fun _ => rfl⟩
  intro n
  cases n with
  | classDef role name decorators base members =>
    cases base with
    | none => rfl
    | some base => exact ofExpression?_compiled base
  | _ => rfl

theorem tableClasses_compiled (table : String) (n : Node) :
    tableClasses table (n.compiled link) = tableClasses table n := by
  have hentry (n : Node) : tableEntry? (n.compiled link) = tableEntry? n := by
    cases n with
    | property name key value => exact ofExpression?_compiled value
    | _ => rfl
  cases n with
  | declarator target ascription value =>
    cases value with
    | none => cases target <;> rfl
    | some value =>
      cases target with
      | binding name =>
        simp only [Node.compiled, Node.compiledOption, tableClasses, Node.untyped_compiled]
        cases value.untyped with
        | object members => simp [List.filterMap_map, hentry]
        | _ => rfl
      | _ => rfl
  | _ => rfl

theorem lookupTable_compiled (program : Program) (table : String) :
    (program.compiled link).lookupTable table = program.lookupTable table := by
  change ((program.compiled link).topVariables.flatMap (·.2)).flatMap (tableClasses table) =
    (program.topVariables.flatMap (·.2)).flatMap (tableClasses table)
  simp [topVariables_compiled, List.flatMap_map, List.flatMap_assoc, tableClasses_compiled]

theorem created_compiled (program : Program) :
    (program.compiled link).created = program.created := by
  unfold Program.created
  congr 1
  apply Program.flatMap_nodes_compiled ⟨fun _ => rfl, fun _ _ => rfl, fun _ => rfl, fun _ => rfl⟩
  intro n
  cases n with
  | construct callee types arguments =>
    cases callee with
    | index subject key =>
      cases subject with
      | identifier table => exact lookupTable_compiled program table
      | _ => rfl
    | member subject name => cases subject <;> rfl
    | _ => rfl
  | _ => rfl

/-! ### Wrappers -/

theorem isDirectStart_callee (vocabulary : Vocabulary) (callee : Node) :
    isDirectStart vocabulary (Node.linkCallee link (callee.compiled link)) =
      isDirectStart vocabulary callee := by
  unfold isDirectStart
  rw [Node.targetName?_callee, Node.isThisMember_callee]

theorem startsChild_compiled (vocabulary : Vocabulary) (body : List Node) :
    startsChild vocabulary (body.map (Node.compiled link)) = startsChild vocabulary body := by
  rw [startsChild_eq_any, startsChild_eq_any]
  apply Node.any_preorderList_compiled ⟨fun _ => rfl, fun _ _ => rfl, fun _ => rfl, fun _ => rfl⟩
  intro n
  cases n with
  | call callee types arguments => exact isDirectStart_callee vocabulary callee
  | _ => rfl

theorem namedBody?_compiled (n : Node) :
    namedBody? (n.compiled link) =
      (namedBody? n).map (Prod.map id (List.map (Node.compiled link))) := by
  cases n with
  | function role name params body => cases role <;> cases name <;> simp [namedBody?]
  | method role name decorators key func =>
    cases name <;> cases func <;> simp [namedBody?]
  | declarator target ascription value =>
    cases value with
    | none => cases target <;> rfl
    | some value =>
      cases target with
      | binding name =>
        cases value with
        | arrow params body => simp [namedBody?]
        | function role name params body => cases role <;> simp [namedBody?]
        | _ => rfl
      | _ => rfl
  | _ => rfl

theorem wrappers_compiled (vocabulary : Vocabulary) (program : Program) :
    (program.compiled link).wrappers vocabulary = program.wrappers vocabulary := by
  unfold Program.wrappers
  congr 1
  apply Node.filterMap_preorderList_compiled
    ⟨fun _ => rfl, fun _ _ => rfl, fun _ => rfl, fun _ => rfl⟩
  intro n
  unfold wrapperName?
  rw [namedBody?_compiled]
  cases namedBody? n with
  | none => rfl
  | some named => simp [startsChild_compiled]

/-! ### Files -/

def SourceFile.compiled (link : String → Option String) (file : SourceFile) : SourceFile :=
  { file with program := file.program.compiled link }

theorem ofProgram_compiled (hr : link "require" = none) (path : Path) (program : Program)
    (fallback : String) :
    SourceFile.ofProgram path (program.compiled link) fallback =
      (SourceFile.ofProgram path program fallback).compiled link := by
  unfold SourceFile.ofProgram SourceFile.compiled
  rw [imports_compiled hr]

theorem memberValue?_compiled (project : Project) (file : SourceFile) (n : Node) :
    project.memberValue? (file.compiled link) (n.compiled link) = project.memberValue? file n := by
  unfold Project.memberValue?
  rw [Node.namedMember?_compiled]
  rfl

/-! ### Activities -/

theorem proxyArguments?_compiled (vocabulary : Vocabulary) (n : Node) :
    proxyArguments? vocabulary (n.compiled link) =
      (proxyArguments? vocabulary n).map (List.map (Node.compiled link)) := by
  cases n with
  | call callee types arguments =>
    simp only [Node.compiled, Node.compiledList_eq_map, proxyArguments?, Node.targetName?_callee]
    split <;> rfl
  | _ => rfl

theorem proxyQueue?_compiled (project : Project) (file : SourceFile) (arguments : List Node) :
    project.proxyQueue? (file.compiled link) (arguments.map (Node.compiled link)) =
      project.proxyQueue? file arguments := by
  unfold Project.proxyQueue?
  rw [Node.argument?_compiled]
  cases Node.argument? arguments 0 with
  | none => rfl
  | some value =>
    cases value with
    | object members =>
      simp only [Node.compiled, Node.compiledList_eq_map, Node.property?_compiled, Option.map_some,
        Option.bind_eq_bind, Option.bind_some]
      cases Node.property? members "taskQueue" with
      | none => rfl
      | some queue =>
        cases queue with
        | member object property =>
          exact congrArg (fun value : Option String => some (value.getD property))
            (memberValue?_compiled project file (.member object property))
        | _ => rfl
    | call callee types arguments =>
      simp only [Node.compiled, Node.compiledList_eq_map, Node.argument?_compiled, Option.map_some,
        Option.bind_eq_bind, Option.bind_some]
      cases Node.argument? arguments 0 with
      | none => rfl
      | some queue =>
        cases queue with
        | member object property => exact memberValue?_compiled project file (.member object property)
        | _ => rfl
    | _ => rfl

theorem proxyQueue_compiled (project : Project) (file : SourceFile) (arguments : List Node) :
    project.proxyQueue (file.compiled link) (arguments.map (Node.compiled link)) =
      project.proxyQueue file arguments := by
  rw [Project.proxyQueue, proxyQueue?_compiled]
  rfl

theorem usages_compiled (program : Program) (bound : String) :
    (program.compiled link).usages bound = program.usages bound := by
  unfold Program.usages
  congr 1
  apply Program.flatMap_nodes_compiled ⟨fun _ => rfl, fun _ _ => rfl, fun _ => rfl, fun _ => rfl⟩
  intro n
  cases n with
  | call callee types arguments =>
    cases callee with
    | identifier name =>
      simp only [Node.compiled, Node.linkCallee]
      split <;> rfl
    | member object property => simp [Node.linkCallee, usedNames]
    | index object key => cases key <;> simp [Node.linkCallee, usedNames]
    | _ => rfl
  | declarator target ascription value =>
    cases value with
    | none => cases target <;> rfl
    | some value => cases target <;> simp [usedNames]
  | _ => rfl

theorem namesOfTarget_compiled (program : Program) (target : Node) :
    (program.compiled link).namesOfTarget (target.compiled link) = program.namesOfTarget target := by
  cases target with
  | objectPattern properties => simp [Program.namesOfTarget]
  | binding name => exact usages_compiled program name
  | _ => rfl

theorem moduleSites_compiled (project : Project) (file : SourceFile) :
    project.moduleSites (file.compiled link) = project.moduleSites file := by
  apply Program.flatMap_nodes_compiled ⟨fun _ => rfl, fun _ _ => rfl, fun _ => rfl, fun _ => rfl⟩
  intro n
  cases n with
  | declarator target ascription value =>
    cases value with
    | none => rfl
    | some value =>
      simp only [Node.compiled, Node.compiledOption, Project.declaratorSites,
        proxyArguments?_compiled]
      cases proxyArguments? project.vocabulary value with
      | none => rfl
      | some arguments =>
        simp only [Option.map_some, proxyQueue_compiled]
        rw [SourceFile.compiled, namesOfTarget_compiled]
  | _ => rfl

theorem fieldProxies_compiled (vocabulary : Vocabulary) (members : List Node) :
    fieldProxies vocabulary (members.map (Node.compiled link)) =
      (fieldProxies vocabulary members).map (Prod.map id (List.map (Node.compiled link))) := by
  have hinitialized (n : Node) : initializedField? vocabulary (n.compiled link) =
      (initializedField? vocabulary n).map (Prod.map id (List.map (Node.compiled link))) := by
    cases n with
    | field name decorators key value =>
      cases name <;> cases value <;>
        simp [initializedField?, proxyArguments?_compiled, Function.comp_def]
    | _ => rfl
  have hassigned (n : Node) : assignedField? vocabulary (n.compiled link) =
      (assignedField? vocabulary n).map (Prod.map id (List.map (Node.compiled link))) := by
    cases n with
    | expression value =>
      cases value with
      | assign operator target value =>
        cases target with
        | member subject name =>
          cases subject <;>
            simp [assignedField?, proxyArguments?_compiled, Function.comp_def]
        | _ => rfl
      | _ => rfl
    | _ => rfl
  have hbody (n : Node) :
      constructorBody (n.compiled link) = (constructorBody n).map (Node.compiled link) := by
    cases n with
    | method role name decorators key func =>
      cases role <;> cases func <;> simp [constructorBody]
    | _ => rfl
  unfold fieldProxies
  rw [List.map_append, List.map_filterMap, List.map_filterMap, List.filterMap_map,
    List.flatMap_map, List.flatMap_congr fun n _ => hbody n, ← List.map_flatMap, List.filterMap_map]
  congr 1
  · exact List.filterMap_congr fun n _ => hinitialized n
  · exact List.filterMap_congr fun n _ => hassigned n

theorem destructuredFrom_compiled (field : String) (n : Node) :
    destructuredFrom field (n.compiled link) = destructuredFrom field n := by
  cases n with
  | declarator target ascription value =>
    cases value with
    | none => cases target <;> rfl
    | some value => cases target <;> simp [destructuredFrom]
  | _ => rfl

theorem classSites_compiled (project : Project) (file : SourceFile) :
    project.classSites (file.compiled link) = project.classSites file := by
  apply Program.flatMap_nodes_compiled ⟨fun _ => rfl, fun _ _ => rfl, fun _ => rfl, fun _ => rfl⟩
  intro n
  have hnames (field : String) : (n.compiled link).preorder.flatMap (destructuredFrom field) =
      n.preorder.flatMap (destructuredFrom field) :=
    Node.flatMap_preorder_compiled ⟨fun _ => rfl, fun _ _ => rfl, fun _ => rfl, fun _ => rfl⟩
      (destructuredFrom_compiled field) n
  cases n with
  | classDef role name decorators base members =>
    unfold Project.classNodeSites
    simp only [Node.compiled, Node.compiledList_eq_map, fieldProxies_compiled, List.flatMap_map,
      Prod.map, id, proxyQueue_compiled] at hnames ⊢
    simp only [hnames]
  | _ => rfl

/-! ### Child workflows -/

theorem typedOptions?_compiled (arguments : List Node) :
    typedOptions? (arguments.map (Node.compiled link)) =
      (typedOptions? arguments).map (List.map (Node.compiled link)) := by
  unfold typedOptions?
  rw [Node.argument?_compiled]
  cases Node.argument? arguments 0 with
  | none => rfl
  | some value =>
    simp only [Option.map_some, Option.bind_some, Node.members?_compiled]
    cases value.members? with
    | none => rfl
    | some members => simp

theorem isStart_compiled (vocabulary : Vocabulary) {wrappers : List String}
    (hw : ∀ name ∈ wrappers, link name = none) (callee : Node) (arguments : List Node) :
    isStart vocabulary wrappers (Node.linkCallee link (callee.compiled link))
        (arguments.map (Node.compiled link)) =
      isStart vocabulary wrappers callee arguments := by
  have hplain :
      ((Node.linkCallee link (callee.compiled link)).plainName?.map wrappers.contains).getD false =
        (callee.plainName?.map wrappers.contains).getD false := by
    cases callee with
    | identifier name =>
      simp only [Node.compiled, Node.linkCallee]
      split
      · have : name ∉ wrappers := by grind
        simp [Node.plainName?, this]
      · rfl
    | _ => rfl
  unfold isStart
  rw [isDirectStart_callee, typedOptions?_compiled]
  cases typedOptions? arguments with
  | none => rfl
  | some members => simp [hplain, Node.isMember_callee]

theorem constantMember?_compiled (file : SourceFile) (n : Node) :
    (file.compiled link).constantMember? (n.compiled link) = file.constantMember? n := by
  have hname (root : String) :
      isConstantName (file.compiled link).program (file.compiled link).imports root =
        isConstantName file.program file.imports root := by
    unfold isConstantName SourceFile.compiled
    rw [topConstants_compiled]
  cases n with
  | member subject name =>
    cases subject with
    | identifier root => simp [SourceFile.constantMember?, hname]
    | member inner middle => cases inner <;> simp [SourceFile.constantMember?, hname]
    | _ => rfl
  | _ => rfl

theorem workflowType?_compiled (file : SourceFile) (n : Node) :
    (file.compiled link).workflowType? (n.compiled link) = file.workflowType? n := by
  cases n with
  | member subject name =>
    have hconstant : (file.compiled link).constantMember? (.member (subject.compiled link) name) =
        file.constantMember? (.member subject name) :=
      constantMember?_compiled file (.member subject name)
    simp only [Node.compiled, SourceFile.workflowType?, hconstant]
    congr 1
    cases subject <;> rfl
  | _ => rfl

theorem optionsQueue?_compiled (project : Project) (file : SourceFile) (members : List Node) :
    project.optionsQueue? (file.compiled link) (members.map (Node.compiled link)) =
      project.optionsQueue? file members := by
  unfold Project.optionsQueue?
  rw [Node.property?_compiled]
  cases Node.property? members "taskQueue" with
  | none => rfl
  | some queue =>
    cases queue with
    | member subject name => exact memberValue?_compiled project file (.member subject name)
    | _ => rfl

theorem secondQueue?_compiled (project : Project) (file : SourceFile) (arguments : List Node) :
    project.secondQueue? (file.compiled link) (arguments.map (Node.compiled link)) =
      project.secondQueue? file arguments := by
  unfold Project.secondQueue?
  rw [Node.argument?_compiled]
  cases Node.argument? arguments 1 with
  | none => rfl
  | some value =>
    simp only [Option.map_some, Option.bind_some, Node.members?_compiled]
    cases value.members? with
    | none => rfl
    | some members => exact optionsQueue?_compiled project file members

theorem startInfo?_compiled (project : Project) (file : SourceFile) (isDirect : Bool)
    (arguments : List Node) :
    project.startInfo? (file.compiled link) isDirect (arguments.map (Node.compiled link)) =
      project.startInfo? file isDirect arguments := by
  unfold Project.startInfo?
  simp only [Node.argument?_compiled, secondQueue?_compiled]
  cases Node.argument? arguments 0 with
  | none => rfl
  | some value =>
    cases value with
    | member subject name =>
      have hconstant : (file.compiled link).constantMember? (.member (subject.compiled link) name) =
          file.constantMember? (.member subject name) :=
        constantMember?_compiled file (.member subject name)
      simp [hconstant]
    | object members =>
      simp only [Node.compiled, Node.compiledList_eq_map, Option.map_some, Option.bind_eq_bind,
        Option.bind_some, Node.property?_compiled, Option.bind_map, Function.comp_def,
        workflowType?_compiled, optionsQueue?_compiled]
    | _ => rfl

theorem childSites_compiled (project : Project) (file : SourceFile)
    (hw : ∀ name ∈ file.program.wrappers project.vocabulary, link name = none) :
    project.childSites (file.compiled link) = project.childSites file := by
  unfold Project.childSites
  apply Node.filterMap_preorderList_compiled
    ⟨fun _ => rfl, fun _ _ => rfl, fun _ => rfl, fun _ => rfl⟩
  intro n
  cases n with
  | call callee types arguments =>
    have hwrappers : (file.compiled link).program.wrappers project.vocabulary =
        file.program.wrappers project.vocabulary := wrappers_compiled _ _
    simp only [Node.compiled, Node.compiledList_eq_map, Project.childSite?, hwrappers,
      isStart_compiled _ hw, isDirectStart_callee, startInfo?_compiled]
    rfl
  | _ => rfl

/-! ### Other files -/

theorem baseChain_compiled (project : Project) (fuel : Nat) (visited : VisitedFiles)
    (file : SourceFile) (ref : Option ClassRef) :
    project.baseChain fuel visited (file.compiled link) ref =
      project.baseChain fuel visited file ref := by
  cases fuel <;> cases ref <;> rfl

theorem inheritedSites_compiled (project : Project) (file : SourceFile) :
    project.inheritedSites (file.compiled link) = project.inheritedSites file := by
  have hbase : (file.compiled link).program.firstBase? = file.program.firstBase? :=
    firstBase?_compiled file.program
  unfold Project.inheritedSites Project.ancestors
  rw [baseChain_compiled, hbase]
  rfl

theorem createdSites_compiled (project : Project) (file : SourceFile) :
    project.createdSites (file.compiled link) = project.createdSites file := by
  have hfiles (visited : VisitedFiles) (refs : List ClassRef) :
      project.createdFiles (file.compiled link) visited refs =
        project.createdFiles file visited refs := by
    induction refs generalizing visited with
    | nil => rfl
    | cons ref refs ih =>
      simp only [Project.createdFiles, ih]
      rfl
  have hcreated : (file.compiled link).program.created = file.program.created :=
    created_compiled file.program
  unfold Project.createdSites
  rw [hfiles, hcreated]
  rfl

/-! ### Records -/

theorem workflow_compiled (project : Project) (file : SourceFile)
    (hw : ∀ name ∈ file.program.wrappers project.vocabulary, link name = none) :
    project.workflow (file.compiled link) = project.workflow file := by
  have hname : (file.compiled link).program.exportedName? = file.program.exportedName? :=
    exportedName?_compiled file.program
  unfold Project.workflow Project.activitySites Project.childWorkflows
  rw [hname, inheritedSites_compiled, classSites_compiled, moduleSites_compiled,
    createdSites_compiled, childSites_compiled project file hw]

namespace Vocabulary

def knows (vocabulary : Vocabulary) (name : String) : Bool :=
  vocabulary.isProxy name || vocabulary.isChildStart name

def links (vocabulary : Vocabulary) (owner : String → String) (name : String) : Option String :=
  if vocabulary.knows name then some (owner name) else none

def linksBut (vocabulary : Vocabulary) (owner : String → String) (kept : List String)
    (name : String) : Option String :=
  if name ∈ kept then none else vocabulary.links owner name

end Vocabulary

/-- A program has the same record, imports and wrappers whether it calls the known names plainly or as
members of whichever modules, at any depth. None of those that it calls plainly may be `require`, which
imports are recognized by, or a wrapper, which is recognized under its plain name only. -/
theorem compiled_calls_same_record (project : Project) (fallback : String) (path : Path)
    (owner : String → String) (program : Program)
    (h : ∀ name ∈ program.calledNames, project.vocabulary.knows name = true →
      name ≠ "require" ∧ name ∉ program.wrappers project.vocabulary) :
    let compiled := program.compiled (project.vocabulary.links owner)
    project.workflow (.ofProgram path compiled fallback) =
        project.workflow (.ofProgram path program fallback) ∧
      compiled.imports = program.imports ∧
      compiled.wrappers project.vocabulary = program.wrappers project.vocabulary := by
  intro compiled
  -- No name that has to stay plain is called, so the links of these names make no difference; without
  -- them every recognizer is insensitive to the links by itself.
  let kept := "require" :: program.wrappers project.vocabulary
  have hcompiled : compiled = program.compiled (project.vocabulary.linksBut owner kept) := by
    apply Program.compiled_congr
    intro name hname
    by_cases hk : project.vocabulary.knows name
    · have hout : name ∉ kept := by simpa [kept] using h name hname hk
      rw [Vocabulary.linksBut, if_neg hout]
    · simp [Vocabulary.linksBut, Vocabulary.links, hk]
  have hkept : ∀ name ∈ kept, project.vocabulary.linksBut owner kept name = none :=
    fun name hname => if_pos hname
  have hr := hkept "require" (List.mem_cons_self ..)
  rw [hcompiled]
  refine ⟨?_, imports_compiled hr program, wrappers_compiled project.vocabulary program⟩
  rw [ofProgram_compiled hr]
  exact workflow_compiled project _ fun name hname =>
    hkept name (List.mem_cons_of_mem _ hname)

/-- A workflow that binds an activity and starts a child workflow through a function of its own. -/
def billingProgram : Program :=
  ⟨[.variableDeclaration .constant
      [.declarator (.objectPattern [.patternProperty (some "charge") [] (.binding "charge")]) []
        (some (.call (.identifier "proxyActivities") []
          [.object [.property (some "taskQueue") [] (.string "billing")]]))],
    .function .declaration (some "report") []
      [.expression (.call (.identifier "executeChild") [] [.string "monthly"])],
    .expression (.call (.identifier "report") []
      [.object [.property (some "type") [] (.string "yearly")]])]⟩

theorem compiled_calls_same_record_billing :
    let project : Project := ⟨.ofWorkingDirectory ["w"], {}⟩
    let compiled := billingProgram.compiled (project.vocabulary.links fun _ => "workflow_1")
    (∀ name ∈ billingProgram.calledNames, project.vocabulary.knows name = true →
      name ≠ "require" ∧ name ∉ billingProgram.wrappers project.vocabulary) ∧
    project.workflow (.ofProgram (Path.ofString "/w/main.js") compiled "main") =
      { name := none
        activities := [{ name := "charge", taskQueue := some "billing" }]
        childWorkflows := [{ name := some "monthly", taskQueue := some "main" },
          { name := some "yearly", taskQueue := some "main" }]
        taskQueue := none } := by
  intro project compiled
  have h : ∀ name ∈ billingProgram.calledNames, project.vocabulary.knows name = true →
      name ≠ "require" ∧ name ∉ billingProgram.wrappers project.vocabulary := by decide +kernel
  refine ⟨h, ?_⟩
  rw [(compiled_calls_same_record project "main" (Path.ofString "/w/main.js") (fun _ => "workflow_1")
    billingProgram h).1]
  decide +kernel

-- The compiled spelling is what a text in compiled form is read as.
example :
    (match Program.parse (Path.ofString "main.js") "(0, workflow_1.executeChild)('monthly');" with
      | .ok ⟨[.expression (.call (.sequence [.group [], .member (.identifier "workflow_1")
          "executeChild"]) [] [.string "monthly"])]⟩ => true
      | _ => false) = true := by
  decide +kernel

end WorkflowAnalysis
