import WorkflowAnalysis.Modules.Constants
import WorkflowAnalysis.Proofs.Syntax.Forms
import WorkflowAnalysis.Proofs.Syntax.SourceOrder

/-! Constants that a file offers. A name is given a string in one of three tiers: by a constant of the
file, by an exported variable, or by a chain of assignments that has the name among its targets as a
member of the exports. The constant is the first string that the highest tier gives. Whatever gives the
name something else than a string is passed over, and where a target stands in its chain is all the
same. -/
namespace WorkflowAnalysis

open Syntax

namespace Syntax.Node

/-! ### Chains -/

/-- A value that is assigned to all targets at once, the last one first and each by an operator of its
own: `a = b ||= value`. -/
def assignAll (targets : List (AssignOperator × Node)) (value : Node) : Node :=
  targets.foldr (fun target value => assign target.1 target.2 value) value

/-- A target is a member of what the file exports: of `exports` or of `module.exports`. -/
inductive ExportsMember (name : String) : Node → Prop
  | exports {object : Node} (named : object.Named "exports") :
      ExportsMember name (member object name)
  | module {object : Node} (reads : object.MemberOfNamed "module" "exports") :
      ExportsMember name (member object name)

variable {name : String} {n : Node}

theorem isExportTarget_iff : isExportTarget name n = true ↔ n.ExportsMember name := by
  constructor
  · intro h
    unfold isExportTarget at h
    split at h
    · next object property =>
      obtain ⟨hproperty, hobject⟩ := Bool.and_eq_true_iff.mp h
      obtain rfl : property = name := eq_of_beq hproperty
      rcases Bool.or_eq_true_iff.mp hobject with hobject | hobject
      · exact .exports (isNamed_iff.mp hobject)
      · exact .module (isMemberOf_iff.mp hobject)
    · cases h
  · rintro (hnamed | hreads)
    · simp [isExportTarget, isNamed_iff.mpr hnamed]
    · simp [isExportTarget, isMemberOf_iff.mpr hreads]

theorem exists_assignAll (n : Node) : ∃ targets, n = assignAll targets (chainValue n) := by
  cases n with
  | assign operator target value =>
    obtain ⟨targets, htargets⟩ := exists_assignAll value
    exact ⟨(operator, target) :: targets, congrArg (assign operator target) htargets⟩
  | _ => exact ⟨[], rfl⟩

theorem chainValue_chainValue (n : Node) : chainValue (chainValue n) = chainValue n := by
  cases n with
  | assign operator target value => exact chainValue_chainValue value
  | _ => rfl

theorem assignedLiteral?_chainValue (n : Node) : assignedLiteral? name (chainValue n) = none := by
  cases n with
  | assign operator target value => exact assignedLiteral?_chainValue value
  | _ => rfl

theorem chainValue_assignAll (targets : List (AssignOperator × Node)) (value : Node) :
    chainValue (assignAll targets value) = chainValue value := by
  induction targets with
  | nil => rfl
  | cons target targets ih => exact ih

/-- What a chain gives a name depends on the set of its targets alone. -/
theorem assignedLiteral?_assignAll (targets : List (AssignOperator × Node)) (value : Node) :
    assignedLiteral? name (assignAll targets value) =
      if (targets.map Prod.snd).any (isExportTarget name) then (chainValue value).string?
      else assignedLiteral? name value := by
  induction targets with
  | nil => rfl
  | cons target targets ih =>
    change (if isExportTarget name target.2 then (chainValue (assignAll targets value)).string?
      else assignedLiteral? name (assignAll targets value)) = _
    rw [chainValue_assignAll, ih, List.map_cons, List.any_cons]
    cases isExportTarget name target.2 <;> rfl

theorem assignedLiteral?_eq_some {value : String} :
    assignedLiteral? name n = some value ↔
      ∃ targets target, n = assignAll targets (string value) ∧ target ∈ targets.map Prod.snd ∧
        target.ExportsMember name := by
  constructor
  · intro h
    obtain ⟨targets, hn⟩ := exists_assignAll n
    rw [hn, assignedLiteral?_assignAll, chainValue_chainValue, assignedLiteral?_chainValue,
      Option.ite_none_right_eq_some] at h
    obtain ⟨hany, hvalue⟩ := h
    obtain ⟨target, hm, htarget⟩ := List.any_eq_true.mp hany
    rw [string?_eq_some.mp hvalue] at hn
    exact ⟨targets, target, hn, hm, isExportTarget_iff.mp htarget⟩
  · rintro ⟨targets, target, rfl, hm, htarget⟩
    have hany : (targets.map Prod.snd).any (isExportTarget name) = true :=
      List.any_eq_true.mpr ⟨target, hm, isExportTarget_iff.mpr htarget⟩
    rw [assignedLiteral?_assignAll, if_pos hany]
    rfl

/-! ### Declarators -/

def declaratorLiteral? (name : String) : Node → Option String
  | declarator (binding bound) _ (some (string value)) => if bound = name then some value else none
  | _ => none

theorem declaratorLiteral?_eq_some {value : String} :
    n.declaratorLiteral? name = some value ↔
      ∃ ascription, n = declarator (binding name) ascription (some (string value)) := by
  constructor
  · intro h
    unfold declaratorLiteral? at h
    split at h
    · obtain ⟨rfl, hvalue⟩ := Option.ite_none_right_eq_some.mp h
      cases hvalue
      exact ⟨_, rfl⟩
    · cases h
  · rintro ⟨ascription, rfl⟩
    simp [declaratorLiteral?]

theorem declaratorLiterals_inOrder (name : String) (declarators : List Node) :
    ListsInOrder (· < ·)
      (fun (place : Nat) value => ∃ ascription, declarators[place]? =
        some (declarator (binding name) ascription (some (string value))))
      (declarators.filterMap (declaratorLiteral? name)) := by
  refine (listsInOrder_getElem? declarators).filterMap.congr fun place value => ?_
  simp only [declaratorLiteral?_eq_some]
  constructor
  · rintro ⟨_, hplace, ascription, rfl⟩
    exact ⟨ascription, hplace⟩
  · rintro ⟨ascription, hplace⟩
    exact ⟨_, hplace, ascription, rfl⟩

end Syntax.Node

/-! ### Tiers -/

/-- The ways to give a name a string, the one that counts most first. -/
inductive ConstantTier where
  | declared
  | exported
  | assigned
deriving DecidableEq, Repr

namespace ConstantTier

def above : ConstantTier → List ConstantTier
  | declared => []
  | exported => [declared]
  | assigned => [declared, exported]

/-- A statement gives a name a string in a tier, at a place among its declarators. -/
inductive Gives (name : String) : ConstantTier → Node → Nat → String → Prop
  | constant {declarators ascription : List Node} {place : Nat} {value : String}
      (declarator : declarators[place]? =
        some (.declarator (.binding name) ascription (some (.string value)))) :
      Gives name declared (.variableDeclaration .constant declarators) place value
  | exportedVariable {kind : VariableKind} {declarators ascription : List Node} {place : Nat}
      {value : String}
      (declarator : declarators[place]? =
        some (.declarator (.binding name) ascription (some (.string value)))) :
      Gives name exported (.exportDeclaration (.variableDeclaration kind declarators)) place value
  | chain {targets : List (AssignOperator × Node)} {target : Node} {value : String}
      (mem : target ∈ targets.map Prod.snd) (exports : target.ExportsMember name) :
      Gives name assigned (.expression (.assignAll targets (.string value))) 0 value

def literals (name : String) : ConstantTier → Node → List String
  | declared, .variableDeclaration .constant declarators =>
    declarators.filterMap (Node.declaratorLiteral? name)
  | exported, .exportDeclaration (.variableDeclaration _ declarators) =>
    declarators.filterMap (Node.declaratorLiteral? name)
  | assigned, .expression value => (assignedLiteral? name value).toList
  | _, _ => []

theorem literals_inOrder (name : String) (tier : ConstantTier) (statement : Node) :
    ListsInOrder (· < ·) (tier.Gives name statement) (tier.literals name statement) := by
  unfold literals
  split
  · next declarators =>
    refine (Node.declaratorLiterals_inOrder name declarators).congr fun place value => ?_
    constructor
    · rintro ⟨ascription, hplace⟩
      exact .constant hplace
    · rintro ⟨hplace⟩
      exact ⟨_, hplace⟩
  · next kind declarators =>
    refine (Node.declaratorLiterals_inOrder name declarators).congr fun place value => ?_
    constructor
    · rintro ⟨ascription, hplace⟩
      exact .exportedVariable hplace
    · rintro (_ | hplace)
      exact ⟨_, hplace⟩
  · next expression =>
    refine (listsInOrder_toList 0 (assignedLiteral? name expression)).congr fun place value => ?_
    rw [Node.assignedLiteral?_eq_some]
    constructor
    · rintro ⟨rfl, targets, target, rfl, hm, htarget⟩
      exact .chain hm htarget
    · rintro (_ | _ | ⟨hm, htarget⟩)
      exact ⟨rfl, _, _, rfl, hm, htarget⟩
  · next hdeclared hexported hassigned =>
    refine listsInOrder_nil ?_
    rintro place value (hplace | hplace | _)
    · exact hdeclared _ rfl rfl
    · exact hexported _ _ rfl rfl
    · exact hassigned _ rfl rfl

end ConstantTier

namespace Syntax.Program

variable {program other : Program} {name : String} {tier : ConstantTier} {value : String}

/-- A program binds a name to a string in a tier, at the place of a statement and a place inside. -/
def Binds (program : Program) (name : String) (tier : ConstantTier) (place : Nat × Nat)
    (value : String) : Prop :=
  ∃ statement, program.body[place.1]? = some statement ∧ tier.Gives name statement place.2 value

def BindsNone (program : Program) (name : String) (tier : ConstantTier) : Prop :=
  ∀ place value, ¬ program.Binds name tier place value

/-- A string is the first in source order to which a name is bound in a tier. -/
def BindsFirst (program : Program) (name : String) (tier : ConstantTier) (value : String) : Prop :=
  ∃ place, program.Binds name tier place value ∧
    ∀ earlier other, Prod.Lex (· < ·) (· < ·) earlier place → ¬ program.Binds name tier earlier other

/-- A string is the first of its tier, and the tiers above give none. -/
def BindsIn (program : Program) (name : String) (tier : ConstantTier) (value : String) : Prop :=
  (∀ higher ∈ tier.above, program.BindsNone name higher) ∧ program.BindsFirst name tier value

def literals (program : Program) (name : String) (tier : ConstantTier) : List String :=
  program.body.flatMap (tier.literals name)

theorem literals_inOrder (program : Program) (name : String) (tier : ConstantTier) :
    ListsInOrder (Prod.Lex (· < ·) (· < ·)) (program.Binds name tier) (program.literals name tier) :=
  (listsInOrder_getElem? program.body).flatMap fun statement _ => tier.literals_inOrder name statement

theorem literals_eq_nil : program.literals name tier = [] ↔ program.BindsNone name tier :=
  (program.literals_inOrder name tier).eq_nil_iff

theorem head?_literals :
    (program.literals name tier).head? = some value ↔ program.BindsFirst name tier value := by
  refine (program.literals_inOrder name tier).head?_eq_some ?_
  intro place later h h'
  rw [Prod.lex_def] at h h'
  omega

theorem constant?_eq_heads (program : Program) (name : String) :
    program.constant? name =
      ((program.literals name .declared).head?.or (program.literals name .exported).head?).or
        (program.literals name .assigned).head? := by
  have hsearch (tier : ConstantTier) : (program.literals name tier).head? =
      program.body.findSome? fun statement => (tier.literals name statement).head? :=
    List.head?_flatMap
  rw [hsearch, hsearch, hsearch]
  refine congrArg₂ Option.or (congrArg₂ Option.or ?_ ?_) ?_
  · congr 1
    funext statement
    cases statement with
    | variableDeclaration kind declarators =>
      cases kind with
      | constant => exact List.head?_filterMap.symm
      | other => rfl
    | _ => rfl
  · congr 1
    funext statement
    cases statement with
    | exportDeclaration declaration =>
      cases declaration with
      | variableDeclaration kind declarators => exact List.head?_filterMap.symm
      | _ => rfl
    | _ => rfl
  · congr 1
    funext statement
    cases statement with
    | expression value => exact Option.head?_toList.symm
    | _ => rfl

theorem constant?_congr (h : ∀ tier, program.literals name tier = other.literals name tier) :
    program.constant? name = other.constant? name := by
  rw [constant?_eq_heads, constant?_eq_heads, h, h, h]

theorem bindsIn_iff :
    program.BindsIn name tier value ↔
      (∀ higher ∈ tier.above, program.literals name higher = []) ∧
        (program.literals name tier).head? = some value := by
  simp only [BindsIn, literals_eq_nil, head?_literals]

theorem constant?_eq_some :
    program.constant? name = some value ↔ ∃ tier, program.BindsIn name tier value := by
  rw [constant?_eq_heads, Option.or_eq_some_iff, Option.or_eq_some_iff, Option.or_eq_none_iff]
  simp only [List.head?_eq_none_iff]
  constructor
  · rintro ((hdeclared | ⟨hnone, hexported⟩) | ⟨⟨hnone, hnone'⟩, hassigned⟩)
    · exact ⟨.declared, bindsIn_iff.mpr ⟨List.forall_mem_nil _, hdeclared⟩⟩
    · exact ⟨.exported, bindsIn_iff.mpr ⟨List.forall_mem_singleton.mpr hnone, hexported⟩⟩
    · exact ⟨.assigned, bindsIn_iff.mpr
        ⟨List.forall_mem_cons.mpr ⟨hnone, List.forall_mem_singleton.mpr hnone'⟩, hassigned⟩⟩
  · rintro ⟨tier, h⟩
    obtain ⟨habove, hvalue⟩ := bindsIn_iff.mp h
    cases tier with
    | declared => exact .inl (.inl hvalue)
    | exported => exact .inl (.inr ⟨habove .declared List.mem_cons_self, hvalue⟩)
    | assigned =>
      have hexported := habove .exported (List.mem_cons_of_mem _ List.mem_cons_self)
      exact .inr ⟨⟨habove .declared List.mem_cons_self, hexported⟩, hvalue⟩

theorem constant?_eq_none :
    program.constant? name = none ↔ ∀ tier, program.BindsNone name tier := by
  rw [constant?_eq_heads, Option.or_eq_none_iff, Option.or_eq_none_iff]
  simp only [List.head?_eq_none_iff, literals_eq_nil]
  constructor
  · rintro ⟨⟨hdeclared, hexported⟩, hassigned⟩ tier
    cases tier with
    | declared => exact hdeclared
    | exported => exact hexported
    | assigned => exact hassigned
  · intro h
    exact ⟨⟨h .declared, h .exported⟩, h .assigned⟩

/-! ### Parts that give no string -/

/-- Some statements lose a part that gives a name no string: a statement, or a declarator of one. -/
inductive Loses (name : String) : List Node → List Node → Prop
  | statement (front back : List Node) {statement : Node}
      (gives : ∀ tier place value, ¬ ConstantTier.Gives name tier statement place value) :
      Loses name (front ++ statement :: back) (front ++ back)
  | declarator (front back : List Node) (kind : VariableKind) (earlier later : List Node) {part : Node}
      (gives : ∀ ascription value,
        part ≠ .declarator (.binding name) ascription (some (.string value))) :
      Loses name (front ++ .variableDeclaration kind (earlier ++ part :: later) :: back)
        (front ++ .variableDeclaration kind (earlier ++ later) :: back)
  | exportedDeclarator (front back : List Node) (kind : VariableKind) (earlier later : List Node)
      {part : Node} (gives : ∀ ascription value,
        part ≠ .declarator (.binding name) ascription (some (.string value))) :
      Loses name
        (front ++ .exportDeclaration (.variableDeclaration kind (earlier ++ part :: later)) :: back)
        (front ++ .exportDeclaration (.variableDeclaration kind (earlier ++ later)) :: back)

theorem literals_replace (front back : List Node) {statement replacement : Node}
    (h : tier.literals name statement = tier.literals name replacement) :
    (⟨front ++ statement :: back⟩ : Program).literals name tier =
      (⟨front ++ replacement :: back⟩ : Program).literals name tier := by
  unfold literals
  rw [List.flatMap_append, List.flatMap_append, List.flatMap_cons, List.flatMap_cons, h]

theorem Loses.literals_eq {body rest : List Node} (h : Loses name body rest) (tier : ConstantTier) :
    (⟨body⟩ : Program).literals name tier = (⟨rest⟩ : Program).literals name tier := by
  have hpart {part : Node} (hgives : ∀ ascription value,
      part ≠ .declarator (.binding name) ascription (some (.string value))) (earlier later : List Node) :
      (earlier ++ part :: later).filterMap (Node.declaratorLiteral? name) =
        (earlier ++ later).filterMap (Node.declaratorLiteral? name) := by
    have hnone : part.declaratorLiteral? name = none := by
      apply Option.eq_none_iff_forall_ne_some.mpr
      intro value hvalue
      obtain ⟨ascription, hdeclarator⟩ := Node.declaratorLiteral?_eq_some.mp hvalue
      exact hgives ascription value hdeclarator
    rw [List.filterMap_append, List.filterMap_cons_none hnone, List.filterMap_append]
  cases h with
  | @statement front back statement hgives =>
    have hnone := (tier.literals_inOrder name statement).eq_nil_iff.mpr (hgives tier)
    unfold literals
    rw [List.flatMap_append, List.flatMap_cons, hnone, List.nil_append, List.flatMap_append]
  | declarator front back kind earlier later hgives =>
    apply literals_replace
    cases tier with
    | declared =>
      cases kind with
      | constant => exact hpart hgives earlier later
      | other => rfl
    | exported | assigned => rfl
  | exportedDeclarator front back kind earlier later hgives =>
    apply literals_replace
    cases tier with
    | exported => exact hpart hgives earlier later
    | declared | assigned => rfl

theorem literals_assignAll {targets others : List (AssignOperator × Node)}
    (h : ∀ target, target ∈ targets.map Prod.snd ↔ target ∈ others.map Prod.snd) (assigned : Node)
    (tier : ConstantTier) :
    tier.literals name (.expression (.assignAll targets assigned)) =
      tier.literals name (.expression (.assignAll others assigned)) := by
  cases tier with
  | declared | exported => rfl
  | assigned =>
    have hany : (targets.map Prod.snd).any (isExportTarget name) =
        (others.map Prod.snd).any (isExportTarget name) := by
      rw [Bool.eq_iff_iff, List.any_eq_true, List.any_eq_true]
      simp only [h]
    change (assignedLiteral? name _).toList = (assignedLiteral? name _).toList
    rw [Node.assignedLiteral?_assignAll, Node.assignedLiteral?_assignAll, hany]

def exportsMember (name : String) : Node := .member (.identifier "exports") name

/-- A placeholder for an exported member, and then a chain that gives it a string. -/
def chainedProgram (targets : List (AssignOperator × Node)) : Program :=
  ⟨[.expression (.assign .plain (exportsMember "QUEUE") (.identifier "undefined")),
    .expression (.assignAll targets (.string "billing"))]⟩

-- The constant that is computed is passed over, and an assignment counts less than an exported variable.
example :
    let declare (value : Node) : Node := .declarator (.binding "QUEUE") [] (some value)
    let program : Program :=
      ⟨[.expression (.assign .plain (exportsMember "QUEUE") (.string "assigned")),
        .variableDeclaration .constant [declare (.call (.identifier "load") [] [])],
        .exportDeclaration (.variableDeclaration .other [declare (.string "exported")])]⟩
    program.constant? "QUEUE" = some "exported" := by
  decide

end Syntax.Program

end WorkflowAnalysis
