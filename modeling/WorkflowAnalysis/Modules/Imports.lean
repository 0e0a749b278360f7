import WorkflowAnalysis.Syntax.Shape

/-! The names a file takes from other modules, and the names it fixes itself. -/
namespace WorkflowAnalysis

open Syntax

/-- Local names with the specifiers they were last bound to; no name stands in it twice. -/
structure ImportMap where
  bindings : List (String × String)
deriving DecidableEq, Repr, Inhabited

namespace ImportMap

def empty : ImportMap := ⟨[]⟩

/-- A later binding of a name replaces the earlier one. -/
def insert (map : ImportMap) (name specifier : String) : ImportMap :=
  ⟨(name, specifier) :: map.bindings.filter (·.1 != name)⟩

def get? (map : ImportMap) (name : String) : Option String := map.bindings.lookup name

def contains (map : ImportMap) (name : String) : Bool := (map.get? name).isSome

def size (map : ImportMap) : Nat := map.bindings.length

def isEmpty (map : ImportMap) : Bool := map.bindings.isEmpty

def ofBindings (bindings : List (String × String)) : ImportMap :=
  bindings.foldl (fun map binding => map.insert binding.1 binding.2) empty

@[simp] theorem get?_empty (name : String) : empty.get? name = none := rfl

theorem lookup_filter_ne {name other : String} (h : other ≠ name) (bindings : List (String × String)) :
    (bindings.filter (·.1 != name)).lookup other = bindings.lookup other := by
  induction bindings with
  | nil => rfl
  | cons binding rest ih =>
    obtain ⟨key, value⟩ := binding
    by_cases hk : key = name
    · have : (other == key) = false := by simpa [hk] using h
      simp only [List.filter_cons, hk, bne_self_eq_false, Bool.false_eq_true, if_false, ih]
      rw [← hk, List.lookup_cons, this]
    · have : (key != name) = true := by simpa using hk
      simp only [List.filter_cons, this, if_true, List.lookup_cons, ih]

theorem get?_insert (map : ImportMap) (name specifier other : String) :
    (map.insert name specifier).get? other =
      if other = name then some specifier else map.get? other := by
  unfold insert get?
  by_cases h : other = name
  · simp [h]
  · have : (other == name) = false := by simpa using h
    rw [List.lookup_cons, this, if_neg h]
    exact lookup_filter_ne h map.bindings

end ImportMap

/-- Calls that compiled code puts around `require` without changing what is bound. -/
def interopHelpers : List String := ["__importStar", "__importDefault"]

def requiredModule? (value : Node) : Option String :=
  value.require?.orElse fun _ =>
    match value with
    | .call callee _ arguments =>
      if (callee.targetName?.map interopHelpers.contains).getD false then
        (Node.argument? arguments 0).bind Node.require?
      else none
    | _ => none

def importBindings : Node → List (String × String)
  | .importFrom locals source => locals.map fun name => (name, source)
  | .declarator (.binding name) _ (some value) =>
    (requiredModule? value).toList.map fun source => (name, source)
  | _ => []

namespace Syntax.Program

def imports (program : Program) : ImportMap :=
  ImportMap.ofBindings (program.nodes.flatMap importBindings)

/-- The declarations of variables at the top level, exported ones included. -/
def topVariables (program : Program) : List (VariableKind × List Node) :=
  program.body.filterMap Node.variables?

def topConstants (program : Program) : List String :=
  program.topVariables.flatMap fun (kind, declarators) =>
    match kind with
    | .constant => declarators.filterMap fun node => node.declarator?.bind (·.target.binding?)
    | .other => []

end Syntax.Program

/-- A name that stands for the same thing throughout a file: imported, or a constant at the top
level. -/
def isConstantName (program : Program) (imports : ImportMap) (name : String) : Bool :=
  imports.contains name || program.topConstants.contains name

end WorkflowAnalysis
