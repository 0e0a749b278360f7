import WorkflowAnalysis.Modules.Exports
import WorkflowAnalysis.Proofs.Syntax.Forms
import WorkflowAnalysis.Proofs.Syntax.Omissions

/-! Exported names. A file exports its workflow in one of three tiers: by a named declaration, by default,
or by an assignment. The name is the first that the highest tier gives. An export without a name counts
for nothing, and what a lower tier gives has no part in it, wherever it stands. -/
namespace WorkflowAnalysis

open Syntax

/-- The ways to export a workflow, the one that counts most first. -/
inductive ExportTier where
  | named
  | default
  | assigned
deriving DecidableEq, Repr

namespace ExportTier

def above : ExportTier → List ExportTier
  | named => []
  | default => [named]
  | assigned => [named, default]

/-- A node gives a name in a tier: a function or class declared by a named export; one declared by a
default export, or the name that is exported there; a member that is assigned to `exports`, or the name
that is assigned to `module.exports`, by any operator. -/
inductive Gives : ExportTier → Node → String → Prop
  | function (role : FunctionRole) (name : String) (params body : List Node) :
      Gives named (.exportDeclaration (.function role (some name) params body)) name
  | classDef (role : ClassRole) (name : String) (marks : List Node) (base : Option Node)
      (members : List Node) :
      Gives named (.exportDeclaration (.classDef role (some name) marks base members)) name
  | defaultFunction {role : FunctionRole} (name : String) (params body : List Node)
      (declared : role ≠ .expression) :
      Gives default (.exportDefault (.function role (some name) params body)) name
  | defaultClass (name : String) (marks : List Node) (base : Option Node) (members : List Node) :
      Gives default (.exportDefault (.classDef .declaration (some name) marks base members)) name
  | defaultName (name : String) : Gives default (.exportDefault (.identifier name)) name
  | member {operator : AssignOperator} {object : Node} (name : String) (value : Node)
      (exports : object.Named "exports") :
      Gives assigned (.assign operator (.member object name) value) name
  | whole {operator : AssignOperator} {object : Node} (name : String)
      (module : object.Named "module") :
      Gives assigned (.assign operator (.member object "exports") (.identifier name)) name

def name? : ExportTier → Node → Option String
  | named => namedExport?
  | default => defaultExport?
  | assigned => assignedExport?

theorem namedExport?_eq_some {node : Node} {given : String} :
    namedExport? node = some given ↔ Gives named node given := by
  constructor
  · intro h
    unfold namedExport? at h
    split at h
    · subst h
      exact .function _ given _ _
    · subst h
      exact .classDef _ given _ _ _
    · cases h
  · intro h
    cases h <;> rfl

theorem defaultExport?_eq_some {node : Node} {given : String} :
    defaultExport? node = some given ↔ Gives default node given := by
  constructor
  · intro h
    unfold defaultExport? at h
    split at h
    · cases h
    · next hdeclared =>
      subst h
      exact .defaultFunction given _ _ fun hrole => hdeclared (by rw [hrole])
    · subst h
      exact .defaultClass given _ _ _
    · cases h
      exact .defaultName given
    · cases h
  · intro h
    cases h with
    | @defaultFunction role given params body declared =>
      cases role with
      | expression => exact absurd rfl declared
      | declaration | signature => rfl
    | defaultClass | defaultName => rfl

theorem assignedExport?_eq_some {node : Node} {given : String} :
    assignedExport? node = some given ↔ Gives assigned node given := by
  constructor
  · intro h
    unfold assignedExport? at h
    split at h
    · next object property value =>
      split at h
      · next hexports =>
        cases h
        exact .member given value (Node.isNamed_iff.mp hexports)
      · obtain ⟨htarget, hvalue⟩ := Option.ite_none_right_eq_some.mp h
        obtain ⟨hmodule, hproperty⟩ := Bool.and_eq_true_iff.mp htarget
        obtain rfl : property = "exports" := eq_of_beq hproperty
        obtain rfl := Node.identifier?_eq_some.mp hvalue
        exact .whole given (Node.isNamed_iff.mp hmodule)
    · cases h
  · intro h
    cases h with
    | member given value exports => simp [assignedExport?, Node.isNamed_iff.mpr exports]
    | @whole operator object given module =>
      have hexports : object.isNamed "exports" = false := by
        induction module with
        | plain => rfl
        | typed before after _ ih => exact ih
      simp [assignedExport?, hexports, Node.isNamed_iff.mpr module, Node.identifier?]

theorem name?_eq_some {tier : ExportTier} {node : Node} {given : String} :
    tier.name? node = some given ↔ tier.Gives node given := by
  cases tier with
  | named => exact namedExport?_eq_some
  | default => exact defaultExport?_eq_some
  | assigned => exact assignedExport?_eq_some

theorem name?_eq_none {tier : ExportTier} {node : Node} :
    tier.name? node = none ↔ ∀ given, ¬ tier.Gives node given := by
  simp only [Option.eq_none_iff_forall_ne_some, ne_eq, name?_eq_some]

/-- The name that a node gives does not depend on the statements inside. -/
theorem name?_without (drop : Node → Bool) (tier : ExportTier) (node : Node) :
    tier.name? (node.without drop) = tier.name? node := by
  cases tier with
  | named =>
    cases node with
    | exportDeclaration declaration => cases declaration <;> rfl
    | _ => rfl
  | default =>
    cases node with
    | exportDefault value =>
      cases value with
      | function role name params body => cases role <;> rfl
      | classDef role name decorators base members => cases role <;> rfl
      | _ => rfl
    | _ => rfl
  | assigned =>
    cases node with
    | assign operator target value =>
      cases target with
      | member object property =>
        simp [name?, assignedExport?]
      | _ => rfl
    | _ => rfl

end ExportTier

/-! ### First names -/

namespace Syntax

def Node.GivesNone (n : Node) (tier : ExportTier) : Prop :=
  ∀ node, n.Contains node → ∀ name, ¬ tier.Gives node name

namespace Program

variable {program other : Program} {tier : ExportTier} {name : String}

def GivesNone (program : Program) (tier : ExportTier) : Prop :=
  ∀ node, program.Contains node → ∀ name, ¬ tier.Gives node name

/-- A name is the first in source order that a program gives in a tier. -/
def GivesFirst (program : Program) (tier : ExportTier) (name : String) : Prop :=
  ∃ position node, program.at? position = some node ∧ tier.Gives node name ∧
    ∀ earlier before, earlier < position → program.at? earlier = some before →
      ∀ given, ¬ tier.Gives before given

/-- A name is the first of its tier, and the tiers above give none. -/
def ExportsIn (program : Program) (tier : ExportTier) (name : String) : Prop :=
  (∀ higher ∈ tier.above, program.GivesNone higher) ∧ program.GivesFirst tier name

theorem findSome?_name?_eq_none :
    program.nodes.findSome? tier.name? = none ↔ program.GivesNone tier := by
  rw [program.nodes_inOrder.findSome?_eq_none]
  simp only [ExportTier.name?_eq_none]
  constructor
  · rintro h node ⟨position, hnode⟩
    exact h position node hnode
  · intro h position node hnode
    exact h node ⟨position, hnode⟩

theorem findSome?_name?_eq_some :
    program.nodes.findSome? tier.name? = some name ↔ program.GivesFirst tier name := by
  rw [program.nodes_inOrder.findSome?_eq_some fun _ _ => List.lt_asymm]
  simp only [ExportTier.name?_eq_some, ExportTier.name?_eq_none]
  rfl

theorem exportsIn_iff :
    program.ExportsIn tier name ↔
      (∀ higher ∈ tier.above, program.nodes.findSome? higher.name? = none) ∧
        program.nodes.findSome? tier.name? = some name := by
  simp only [ExportsIn, findSome?_name?_eq_none, findSome?_name?_eq_some]

theorem exportedName?_eq_some :
    program.exportedName? = some name ↔ ∃ tier, program.ExportsIn tier name := by
  have hexported : program.exportedName? =
      ((program.nodes.findSome? ExportTier.named.name?).or
        (program.nodes.findSome? ExportTier.default.name?)).or
          (program.nodes.findSome? ExportTier.assigned.name?) :=
    program.exportedName?_eq_searches
  rw [hexported, Option.or_eq_some_iff, Option.or_eq_some_iff, Option.or_eq_none_iff]
  constructor
  · rintro ((hnamed | ⟨hnone, hdefault⟩) | ⟨⟨hnone, hnone'⟩, hassigned⟩)
    · exact ⟨.named, exportsIn_iff.mpr ⟨List.forall_mem_nil _, hnamed⟩⟩
    · exact ⟨.default, exportsIn_iff.mpr ⟨List.forall_mem_singleton.mpr hnone, hdefault⟩⟩
    · exact ⟨.assigned, exportsIn_iff.mpr
        ⟨List.forall_mem_cons.mpr ⟨hnone, List.forall_mem_singleton.mpr hnone'⟩, hassigned⟩⟩
  · rintro ⟨tier, h⟩
    obtain ⟨habove, hname⟩ := exportsIn_iff.mp h
    cases tier with
    | named => exact .inl (.inl hname)
    | default => exact .inl (.inr ⟨habove .named List.mem_cons_self, hname⟩)
    | assigned =>
      have hdefault := habove .default (List.mem_cons_of_mem _ List.mem_cons_self)
      exact .inr ⟨⟨habove .named List.mem_cons_self, hdefault⟩, hname⟩

theorem exportedName?_eq_none :
    program.exportedName? = none ↔ ∀ tier, program.GivesNone tier := by
  rw [exportedName?_eq_searches, Option.or_eq_none_iff, Option.or_eq_none_iff]
  simp only [← findSome?_name?_eq_none]
  constructor
  · rintro ⟨⟨hnamed, hdefault⟩, hassigned⟩ tier
    cases tier with
    | named => exact hnamed
    | default => exact hdefault
    | assigned => exact hassigned
  · intro h
    exact ⟨⟨h .named, h .default⟩, h .assigned⟩

/-! ### Statements without a part in it -/

/-- Two programs are the same once statements are left out that give no name in a tier or above it. Then
they export the same name in this tier. -/
theorem exportsIn_of_without {drop : Node → Bool} (h : program.without drop = other.without drop)
    (hdrop : ∀ statement, drop statement = true →
      ∀ higher ∈ tier :: tier.above, statement.GivesNone higher) :
    program.ExportsIn tier name ↔ other.ExportsIn tier name := by
  have hsearch (higher : ExportTier) (hm : higher ∈ tier :: tier.above) :
      program.nodes.findSome? higher.name? = other.nodes.findSome? higher.name? := by
    have hkept (program : Program) := findSome?_nodes_without (higher.name?_without drop)
      (fun statement hd node hnode => ExportTier.name?_eq_none.mpr
        (hdrop statement hd higher hm node hnode)) program
    rw [← hkept program, h, hkept other]
  rw [exportsIn_iff, exportsIn_iff, hsearch tier List.mem_cons_self]
  refine and_congr_left fun _ => forall₂_congr fun higher hm => ?_
  rw [hsearch higher (List.mem_cons_of_mem _ hm)]

/-- A function that is exported by default, with some statements before it and in its body. -/
def defaultProgram (statements : List Node) : Program :=
  ⟨statements ++ [.function .declaration (some "run") [] statements,
    .exportDefault (.identifier "run")]⟩

def isPlainAssignment : Node → Bool
  | .expression (.assign _ (.member (.identifier _) _) (.identifier _)) => true
  | _ => false

-- The class without a name is passed over, and so is the function in parentheses.
example :
    let program : Program :=
      ⟨[.exportDefault (.classDef .declaration none [] none []),
        .exportDefault (.function .expression (some "local") [] []),
        .expression (.assign .plain (.member (.identifier "module") "exports") (.object [])),
        .expression (.assign .plain (.member (.identifier "module") "exports") (.identifier "run"))]⟩
    program.exportedName? = some "run" := by
  decide +kernel

end Program

end Syntax

end WorkflowAnalysis
