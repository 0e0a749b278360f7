import Mathlib.Data.Set.Card
import WorkflowAnalysis.Modules.Imports
import WorkflowAnalysis.Proofs.Syntax.Forms
import WorkflowAnalysis.Proofs.Syntax.SourceOrder
import WorkflowAnalysis.Syntax.Source

/-! The bindings behind an import map. A program binds names to other modules by its imports and by
variables that hold what `require` gives, at any depth and any number of times. The map of its imports has
each of these names once, with the module of the last binding in source order. -/
namespace WorkflowAnalysis

open Syntax

/-! ### Maps -/

namespace ImportMap

theorem ofBindings_concat (bindings : List (String × String)) (binding : String × String) :
    ofBindings (bindings ++ [binding]) = (ofBindings bindings).insert binding.1 binding.2 := by
  rw [ofBindings, List.foldl_concat]
  rfl

def boundTo? (name : String) (binding : String × String) : Option String :=
  if binding.1 = name then some binding.2 else none

theorem boundTo?_eq_some {name specifier : String} {binding : String × String} :
    boundTo? name binding = some specifier ↔ binding = (name, specifier) := by
  obtain ⟨bound, source⟩ := binding
  simp [boundTo?]

/-- The last binding counts, so a name is looked up from the end. -/
theorem get?_ofBindings (bindings : List (String × String)) (name : String) :
    (ofBindings bindings).get? name = bindings.reverse.findSome? (boundTo? name) := by
  induction bindings using List.reverseRecOn with
  | nil => rfl
  | append_singleton bindings binding ih =>
    rw [ofBindings_concat, get?_insert, ih, List.reverse_concat, List.findSome?_cons]
    by_cases h : name = binding.1
    · simp [boundTo?, h]
    · simp [boundTo?, h, Ne.symm h]

theorem nodup_names_ofBindings (bindings : List (String × String)) :
    ((ofBindings bindings).bindings.map Prod.fst).Nodup := by
  induction bindings using List.reverseRecOn with
  | nil => exact List.nodup_nil
  | append_singleton bindings binding ih =>
    rw [ofBindings_concat, insert, List.map_cons, List.nodup_cons]
    constructor
    · simp
    · exact ih.sublist (List.filter_sublist.map Prod.fst)

theorem mem_names_ofBindings {bindings : List (String × String)} {name : String} :
    name ∈ (ofBindings bindings).bindings.map Prod.fst ↔ ∃ specifier, (name, specifier) ∈ bindings := by
  induction bindings using List.reverseRecOn with
  | nil => simp [ofBindings, empty]
  | append_singleton bindings binding ih =>
    obtain ⟨bound, source⟩ := binding
    have hkeys : name ∈ ((ofBindings bindings).bindings.filter (·.1 != bound)).map Prod.fst ↔
        name ∈ (ofBindings bindings).bindings.map Prod.fst ∧ name ≠ bound := by
      simp [List.mem_map, List.mem_filter]
    rw [ofBindings_concat, insert, List.map_cons, List.mem_cons, hkeys, ih]
    simp only [List.mem_append, List.mem_singleton, Prod.mk.injEq]
    by_cases h : name = bound
    · simp [h]
    · simp [h]

end ImportMap

/-! ### Binding sites -/

namespace Syntax.Node

inductive Requires (specifier : String) : Node → Prop
  | call {callee : Node} (types others : List Node) (named : callee.Named "require") :
      Requires specifier (.call callee types (.string specifier :: others))

/-- A value that brings in a module: what `require` gives, or what a helper of compiled code makes of it. -/
inductive Loads (specifier : String) : Node → Prop
  | plain {value : Node} (requires : value.Requires specifier) : Loads specifier value
  | wrapped {callee required : Node} {helper : String} (types others : List Node)
      (target : callee.Targets helper) (known : helper = "__importStar" ∨ helper = "__importDefault")
      (requires : required.Requires specifier) :
      Loads specifier (.call callee types (required :: others))

theorem first_eq_some {arguments : List Node} {value : Node} :
    arguments[0]? = some value ↔ ∃ others, arguments = value :: others := by
  cases arguments with
  | nil => simp
  | cons first others => simp [eq_comm]

theorem require?_eq_some {n : Node} {specifier : String} :
    n.require? = some specifier ↔ n.Requires specifier := by
  constructor
  · intro h
    unfold require? at h
    split at h
    · next callee types arguments =>
      split at h
      · next hnamed =>
        obtain ⟨first, hfirst, hstring⟩ := Option.bind_eq_some_iff.mp h
        obtain ⟨others, rfl⟩ := first_eq_some.mp (argument?_eq_some.mp hfirst).1
        obtain rfl := string?_eq_some.mp hstring
        exact .call types others (isNamed_iff.mp hnamed)
      · cases h
    · cases h
  · rintro ⟨types, others, hnamed⟩
    rw [require?, if_pos (isNamed_iff.mpr hnamed)]
    rfl

end Syntax.Node

theorem isInteropHelper_iff {callee : Node} :
    (callee.targetName?.map interopHelpers.contains).getD false = true ↔
      ∃ helper, callee.Targets helper ∧ (helper = "__importStar" ∨ helper = "__importDefault") := by
  cases hname : callee.targetName? with
  | none =>
    simp only [Option.map_none, Option.getD_none, Bool.false_eq_true, false_iff]
    rintro ⟨helper, htarget, -⟩
    rw [Node.targetName?_eq_some.mpr htarget] at hname
    cases hname
  | some name =>
    have hunique (helper : String) : callee.Targets helper ↔ helper = name := by
      rw [← Node.targetName?_eq_some, hname, Option.some.injEq, eq_comm]
    simp [hunique, interopHelpers]

/-- The helpers have other names than `require`. -/
theorem require?_of_helper {callee : Node} {helper : String} (htarget : callee.Targets helper)
    (hknown : helper = "__importStar" ∨ helper = "__importDefault") (types arguments : List Node) :
    (Node.call callee types arguments).require? = none := by
  rw [Node.require?, if_neg]
  rw [Node.isNamed_iff]
  intro hnamed
  cases hnamed with
  | plain =>
    cases htarget
    simp at hknown
  | typed => cases htarget

theorem requiredModule?_eq_some {value : Node} {specifier : String} :
    requiredModule? value = some specifier ↔ value.Loads specifier := by
  unfold requiredModule?
  constructor
  · intro hvalue
    rcases Option.or_eq_some_iff.mp (Option.or_eq_orElse.trans hvalue) with h | ⟨-, h⟩
    · exact .plain (Node.require?_eq_some.mp h)
    · split at h
      · next callee types arguments =>
        split at h
        · next hhelper =>
          obtain ⟨helper, htarget, hknown⟩ := isInteropHelper_iff.mp hhelper
          obtain ⟨required, hfirst, hrequire⟩ := Option.bind_eq_some_iff.mp h
          obtain ⟨others, rfl⟩ := Node.first_eq_some.mp (Node.argument?_eq_some.mp hfirst).1
          exact .wrapped types others htarget hknown (Node.require?_eq_some.mp hrequire)
        · cases h
      · cases h
  · intro h
    cases h with
    | plain hrequires =>
      rw [Node.require?_eq_some.mpr hrequires]
      rfl
    | @wrapped callee required _ types others htarget hknown hrequires =>
      have hfirst : Node.argument? (required :: others) 0 = some required := by
        cases hrequires
        rfl
      rw [require?_of_helper htarget hknown]
      dsimp only [Option.orElse]
      rw [if_pos (isInteropHelper_iff.mpr ⟨_, htarget, hknown⟩), hfirst, Option.bind_some,
        Node.require?_eq_some.mpr hrequires]

namespace Syntax.Node

/-- A node binds a name to a module: an import binds its names at their places, a variable the one that it
declares. -/
inductive BindsModule : Node → Nat → String × String → Prop
  | imported {locals : List String} {name : String} {place : Nat} (source : String)
      (listed : locals[place]? = some name) :
      BindsModule (.importFrom locals source) place (name, source)
  | required {value : Node} {source : String} (name : String) (ascription : List Node)
      (loads : value.Loads source) :
      BindsModule (.declarator (.binding name) ascription (some value)) 0 (name, source)

end Syntax.Node

theorem importBindings_inOrder (node : Node) :
    ListsInOrder (· < ·) node.BindsModule (importBindings node) := by
  unfold importBindings
  split
  · next locals source =>
    refine (listsInOrder_getElem? locals).map.congr fun place binding => ?_
    constructor
    · rintro ⟨name, hlisted, rfl⟩
      exact .imported source hlisted
    · rintro ⟨_, hlisted⟩
      exact ⟨_, hlisted, rfl⟩
  · next name ascription value =>
    cases hvalue : requiredModule? value with
    | none =>
      apply listsInOrder_nil
      rintro place binding (_ | ⟨_, _, hloads⟩)
      rw [requiredModule?_eq_some.mpr hloads] at hvalue
      cases hvalue
    | some source =>
      refine (listsInOrder_singleton 0 (name, source)).congr fun place binding => ?_
      constructor
      · rintro ⟨rfl, rfl⟩
        exact .required name ascription (requiredModule?_eq_some.mp hvalue)
      · rintro (_ | ⟨_, _, hloads⟩)
        rw [requiredModule?_eq_some.mpr hloads] at hvalue
        cases hvalue
        exact ⟨rfl, rfl⟩
  · next himport hdeclarator =>
    apply listsInOrder_nil
    rintro place binding (_ | _)
    · exact himport _ _ rfl
    · exact hdeclarator _ _ _ rfl

namespace Syntax.Program

/-- By the position of the node, then by the place of the name in an import. -/
abbrev SiteBefore : Position × Nat → Position × Nat → Prop := Prod.Lex (· < ·) (· < ·)

/-- A program binds a name to a module at a site, however deep that may be. -/
def BindsAt (program : Program) (site : Position × Nat) (binding : String × String) : Prop :=
  ∃ node, program.at? site.1 = some node ∧ node.BindsModule site.2 binding

theorem bindings_inOrder (program : Program) :
    ListsInOrder SiteBefore program.BindsAt (program.nodes.flatMap importBindings) :=
  program.nodes_inOrder.flatMap fun node _ => importBindings_inOrder node

-- All forms in one text; the variable in the function replaces the import of the same name.
example :
    let text := "import d, \x7b a as x \x7d from './m.js'; import * as ns from './n.js';
      function f() \x7b const x = (0, tslib.__importStar)(require('./k.js')); \x7d"
    ((Program.ofText? ⟨false, false⟩ text).map fun program =>
        ["d", "a", "x", "ns"].map program.imports.get?) =
      some [some "./m.js", none, some "./k.js", some "./n.js"] := by
  decide +kernel

end Syntax.Program

end WorkflowAnalysis
