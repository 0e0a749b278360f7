import WorkflowAnalysis.Syntax.Shape

/-! Which classes a file extends and creates. -/
namespace WorkflowAnalysis

open Syntax

/-- A class as it is named in a file: alone, or as a member of a name. -/
structure ClassRef where
  className : String
  owner : Option String
deriving DecidableEq, Repr, Inhabited

def ClassRef.ofExpression? : Node → Option ClassRef
  | .identifier name => some ⟨name, none⟩
  | .member (.identifier owner) name => some ⟨name, some owner⟩
  | _ => none

/-! ### Bases -/

def baseOf? : Node → Option ClassRef
  | .classDef _ _ _ (some base) _ => ClassRef.ofExpression? base
  | _ => none

def isClassNamed (name : String) : Node → Bool
  | .classDef _ declared _ _ _ => declared == some name
  | _ => false

namespace Syntax.Program

/-- The base of the first class that extends a named one. -/
def firstBase? (program : Program) : Option ClassRef := program.nodes.findSome? baseOf?

def declaredBase? (program : Program) (name : String) : Option ClassRef :=
  (program.nodes.filter (isClassNamed name)).findSome? baseOf?

end Syntax.Program

/-! ### Creations -/

def tableEntry? : Node → Option ClassRef
  | .property _ _ value => ClassRef.ofExpression? value
  | _ => none

def tableClasses (table : String) : Node → List ClassRef
  | .declarator (.binding name) _ (some value) =>
    if name = table then
      match value.untyped with
      | .object members => members.filterMap tableEntry?
      | _ => []
    else []
  | _ => []

namespace Syntax.Program

def lookupTable (program : Program) (table : String) : List ClassRef :=
  ((program.body.filterMap Node.variables?).flatMap (·.2)).flatMap (tableClasses table)

end Syntax.Program

/-- The classes that a creation may create; which entry of a table is taken is not known, so all of
them may be. -/
def createdClasses (program : Program) : Node → List ClassRef
  | .construct (.index (.identifier table) _) _ _ => program.lookupTable table
  | .construct callee _ _ => (ClassRef.ofExpression? callee).toList
  | _ => []

/-- Classes under their names, in the order in which the names came up first, with the latest
reference to each. -/
structure ClassTable where
  entries : List (String × ClassRef)
deriving DecidableEq, Repr, Inhabited

namespace ClassTable

def insert (table : ClassTable) (ref : ClassRef) : ClassTable :=
  if table.entries.any (·.1 == ref.className) then
    ⟨table.entries.map fun entry => if entry.1 == ref.className then (entry.1, ref) else entry⟩
  else ⟨table.entries ++ [(ref.className, ref)]⟩

def ofRefs (refs : List ClassRef) : ClassTable := refs.foldl insert ⟨[]⟩

def refs (table : ClassTable) : List ClassRef := table.entries.map (·.2)

end ClassTable

def Syntax.Program.created (program : Program) : ClassTable :=
  ClassTable.ofRefs (program.nodes.flatMap (createdClasses program))

end WorkflowAnalysis
