import WorkflowAnalysis.Syntax.Shape

/-! What a file exports: the name of its workflow, and the modules it exports wholesale. -/
namespace WorkflowAnalysis

open Syntax

def namedExport? : Node → Option String
  | .exportDeclaration (.function _ name _ _) => name
  | .exportDeclaration (.classDef _ name _ _ _) => name
  | _ => none

def defaultExport? : Node → Option String
  | .exportDefault (.function .expression _ _ _) => none
  | .exportDefault (.function _ name _ _) => name
  | .exportDefault (.classDef .declaration name _ _ _) => name
  | .exportDefault (.identifier name) => some name
  | _ => none

def assignedExport? : Node → Option String
  | .assign _ (.member object property) value =>
    if object.isNamed "exports" then some property
    else if object.isNamed "module" && property == "exports" then value.identifier?
    else none
  | _ => none

/-- The module that a node exports wholesale, by a statement or by a call of the helper. -/
def reExport? (helper : String) : Node → Option String
  | .exportAll none source => some source
  | .call callee _ arguments =>
    if callee.targetName? = some helper then (Node.argument? arguments 0).bind Node.require? else none
  | _ => none

structure ExportNames where
  named : Option String := none
  default : Option String := none
  assigned : Option String := none
deriving DecidableEq, Repr

namespace ExportNames

/-- Of each kind, the first name that comes up stays. -/
def note (names : ExportNames) (node : Node) : ExportNames where
  named := names.named.or (namedExport? node)
  default := names.default.or (defaultExport? node)
  assigned := names.assigned.or (assignedExport? node)

def best? (names : ExportNames) : Option String := (names.named.or names.default).or names.assigned

theorem foldl_note (nodes : List Node) (names : ExportNames) :
    nodes.foldl note names =
      { named := names.named.or (nodes.findSome? namedExport?)
        default := names.default.or (nodes.findSome? defaultExport?)
        assigned := names.assigned.or (nodes.findSome? assignedExport?) } := by
  have hslot (slot : Option String) (found : Node → Option String) (node : Node) (nodes : List Node) :
      (slot.or (found node)).or (nodes.findSome? found) =
        slot.or ((node :: nodes).findSome? found) := by
    rw [Option.or_assoc, List.findSome?_cons]
    cases found node <;> rfl
  induction nodes generalizing names with
  | nil => simp
  | cons node nodes ih => simp only [List.foldl_cons, ih, note, hslot]

end ExportNames

namespace Syntax.Program

/-- The name a workflow is exported under: a named export comes before a default one, and that before
an assignment. -/
def exportedName? (program : Program) : Option String :=
  (program.nodes.foldl ExportNames.note {}).best?

theorem exportedName?_eq_searches (program : Program) :
    program.exportedName? =
      ((program.nodes.findSome? namedExport?).or (program.nodes.findSome? defaultExport?)).or
        (program.nodes.findSome? assignedExport?) := by
  rw [exportedName?, ExportNames.foldl_note]
  simp only [ExportNames.best?, Option.none_or]

def reExports (program : Program) (helper : String) : List String :=
  program.nodes.filterMap (reExport? helper)

end Syntax.Program

end WorkflowAnalysis
