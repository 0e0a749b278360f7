import WorkflowAnalysis.Proofs.Extraction.CreatedClasses
import WorkflowAnalysis.Proofs.Records.FirstOccurrences
import WorkflowAnalysis.Proofs.Syntax.Forms
import WorkflowAnalysis.Proofs.Syntax.SourceOrder

/-! The order of created classes. A program refers to the classes it creates in source order, and where it
creates out of a table, to all classes of the table in the order in which the top level lists them. The
table of created classes has the names in the order in which they come up first, each with the reference
that comes up last. -/
namespace WorkflowAnalysis

open Syntax

/-! ### Names and references -/

namespace ClassTable

theorem keys_insert (table : ClassTable) (ref : ClassRef) :
    (table.insert ref).entries.map Prod.fst =
      if ref.className ∈ table.entries.map Prod.fst then table.entries.map Prod.fst
      else table.entries.map Prod.fst ++ [ref.className] := by
  have hany : table.entries.any (·.1 == ref.className) = true ↔
      ref.className ∈ table.entries.map Prod.fst := by
    simp only [List.any_eq_true, List.mem_map, beq_iff_eq]
  unfold ClassTable.insert
  split
  · next hold =>
    rw [if_pos (hany.mp hold), List.map_map]
    apply List.map_congr_left
    intro entry _
    dsimp only [Function.comp]
    split <;> rfl
  · next hnew =>
    rw [if_neg (mt hany.mpr hnew), List.map_append, List.map_singleton]

theorem keys_ofRefs (refs : List ClassRef) :
    (ofRefs refs).entries.map Prod.fst = (refs.map ClassRef.className).eraseDups := by
  induction refs using List.reverseRecOn with
  | nil => rfl
  | append_singleton refs ref ih =>
    rw [ofRefs_concat, keys_insert, ih, List.map_append, List.map_singleton]
    simp only [List.mem_eraseDups]
    split
    · next hold => rw [eraseDups_concat_of_mem hold]
    · next hnew => rw [eraseDups_concat_of_not_mem hnew]

theorem mem_entries_ofRefs {refs : List ClassRef} {name : String} {ref : ClassRef} :
    (name, ref) ∈ (ofRefs refs).entries ↔ IsLast refs ref ∧ ref.className = name := by
  have hkeyed := isKeyed_ofRefs refs
  rw [← mem_refs_ofRefs, ClassTable.refs, List.mem_map]
  constructor
  · intro hm
    exact ⟨⟨(name, ref), hm, rfl⟩, (hkeyed.key_eq _ hm).symm⟩
  · rintro ⟨⟨⟨key, _⟩, hm, rfl⟩, rfl⟩
    rwa [← hkeyed.key_eq _ hm]

end ClassTable

/-! ### Lookup tables -/

inductive Syntax.Node.NamesClass : Node → ClassRef → Prop
  | alone (name : String) : NamesClass (.identifier name) ⟨name, none⟩
  | member (owner name : String) : NamesClass (.member (.identifier owner) name) ⟨name, some owner⟩

theorem ofExpression?_eq_some {node : Node} {ref : ClassRef} :
    ClassRef.ofExpression? node = some ref ↔ node.NamesClass ref := by
  constructor
  · intro h
    unfold ClassRef.ofExpression? at h
    split at h <;> cases h
    · exact .alone _
    · exact .member _ _
  · intro h
    cases h <;> rfl

/-- A declarator binds a table, and a property of the table at a place has a class for its value. -/
inductive BindsEntry (table : String) : Node → Nat → ClassRef → Prop
  | property {initial value : Node} {members key : List Node} {name : Option String} {place : Nat}
      {ref : ClassRef} (ascription : List Node) (literal : initial.IsLiteral members)
      (listed : members[place]? = some (.property name key value)) (names : value.NamesClass ref) :
      BindsEntry table (.declarator (.binding table) ascription (some initial)) place ref

theorem tableEntry?_eq_some {node : Node} {ref : ClassRef} :
    tableEntry? node = some ref ↔
      ∃ name key value, node = .property name key value ∧ value.NamesClass ref := by
  unfold tableEntry?
  split
  · next name key value =>
    rw [ofExpression?_eq_some]
    constructor
    · intro h
      exact ⟨name, key, value, rfl, h⟩
    · rintro ⟨_, _, _, ⟨⟩, h⟩
      exact h
  · next hother =>
    simp only [reduceCtorEq, false_iff]
    rintro ⟨name, key, value, rfl, -⟩
    exact hother _ _ _ rfl

theorem tableClasses_inOrder (table : String) (node : Node) :
    ListsInOrder (· < ·) (BindsEntry table node) (tableClasses table node) := by
  unfold tableClasses
  split
  · next name ascription initial =>
    apply listsInOrder_ite
    · rintro rfl
      split
      · next members hliteral =>
        rw [Node.untyped_eq_object] at hliteral
        refine (listsInOrder_getElem? members).filterMap.congr fun place ref => ?_
        simp only [tableEntry?_eq_some]
        constructor
        · rintro ⟨_, hlisted, _, _, _, rfl, hnames⟩
          exact .property ascription hliteral hlisted hnames
        · rintro ⟨_, hliteral', hlisted, hnames⟩
          rw [← Node.untyped_eq_object] at hliteral hliteral'
          cases hliteral.symm.trans hliteral'
          exact ⟨_, hlisted, _, _, _, rfl, hnames⟩
      · next hother =>
        apply listsInOrder_nil
        rintro place ref ⟨_, hliteral, -, -⟩
        exact hother _ (Node.untyped_eq_object.mpr hliteral)
    · rintro place ref ⟨⟩
      rfl
  · next hother =>
    apply listsInOrder_nil
    rintro place ref ⟨⟩
    exact hother _ _ _ rfl

/-- Where a table lists a class: the place of a statement in the program, of a declarator in the
statement, and of a property in the literal. -/
abbrev TablePlace := (Nat × Nat) × Nat

/-- By declaration, then by property. -/
abbrev TablePlaceBefore : TablePlace → TablePlace → Prop :=
  Prod.Lex (Prod.Lex (· < ·) (· < ·)) (· < ·)

namespace Syntax.Program

/-- The top level of a program lists a class in a table: a declaration of variables among its statements,
exported or not, binds the table. -/
inductive Lists (program : Program) (table : String) : TablePlace → ClassRef → Prop
  | entry {statement declarator place : Nat} {declaration node : Node} {kind : VariableKind}
      {declarators : List Node} {ref : ClassRef}
      (top : program.body[statement]? = some declaration)
      (declares : declaration = .variableDeclaration kind declarators ∨
        declaration = .exportDeclaration (.variableDeclaration kind declarators))
      (declared : declarators[declarator]? = some node) (binds : BindsEntry table node place ref) :
      Lists program table ((statement, declarator), place) ref

theorem lookupTable_inOrder (program : Program) (table : String) :
    ListsInOrder TablePlaceBefore (program.Lists table) (program.lookupTable table) := by
  have hdeclarations := (listsInOrder_getElem? program.body).filterMap (f := Node.variables?)
  have hdeclarators := hdeclarations.flatMap fun declaration _ => listsInOrder_getElem? declaration.2
  have hentries := hdeclarators.flatMap fun node _ => tableClasses_inOrder table node
  refine hentries.congr ?_
  rintro ⟨⟨statement, declarator⟩, place⟩ ref
  constructor
  · rintro ⟨node, ⟨⟨kind, declarators⟩, ⟨declaration, htop, hvariables⟩, hdeclared⟩, hbinds⟩
    exact .entry htop (Node.variables?_eq_some.mp hvariables) hdeclared hbinds
  · rintro ⟨htop, hdeclares, hdeclared, hbinds⟩
    exact ⟨_, ⟨_, ⟨_, htop, Node.variables?_eq_some.mpr hdeclares⟩, hdeclared⟩, hbinds⟩

/-! ### Creations -/

/-- A creation may create a class: the one that it names, or one that the top level lists in the table out
of which it creates. -/
inductive Creates (program : Program) : Node → TablePlace → ClassRef → Prop
  | named {callee : Node} {ref : ClassRef} (types arguments : List Node)
      (names : callee.NamesClass ref) :
      Creates program (.construct callee types arguments) ((0, 0), 0) ref
  | listed {table : String} {place : TablePlace} {ref : ClassRef} (key : Node)
      (types arguments : List Node) (lists : program.Lists table place ref) :
      Creates program (.construct (.index (.identifier table) key) types arguments) place ref

theorem createdClasses_inOrder (program : Program) (node : Node) :
    ListsInOrder TablePlaceBefore (program.Creates node) (createdClasses program node) := by
  unfold createdClasses
  split
  · next table key types arguments =>
    refine (program.lookupTable_inOrder table).congr fun place ref => ⟨?_, ?_⟩
    · exact .listed key types arguments
    · rintro (⟨-, -, ⟨⟩⟩ | ⟨-, -, -, hlists⟩)
      exact hlists
  · next callee types arguments hindex =>
    cases hcallee : ClassRef.ofExpression? callee with
    | none =>
      apply listsInOrder_nil
      rintro place ref (⟨-, -, hnames⟩ | _)
      · rw [ofExpression?_eq_some.mpr hnames] at hcallee
        cases hcallee
      · exact hindex _ _ rfl
    | some ref =>
      refine (listsInOrder_singleton ((0, 0), 0) ref).congr fun place other => ⟨?_, ?_⟩
      · rintro ⟨rfl, rfl⟩
        exact .named types arguments (ofExpression?_eq_some.mp hcallee)
      · rintro (⟨-, -, hnames⟩ | _)
        · rw [ofExpression?_eq_some.mpr hnames] at hcallee
          cases hcallee
          exact ⟨rfl, rfl⟩
        · exact absurd rfl (hindex _ _)
  · next hindex hother =>
    apply listsInOrder_nil
    rintro place ref (_ | _)
    · exact hother _ _ _ rfl
    · exact hindex _ _ _ _ rfl

/-- A class is referred to by the creation at a position, there at a place of its table. -/
def CreatesAt (program : Program) (key : Position × TablePlace) (ref : ClassRef) : Prop :=
  ∃ node, program.at? key.1 = some node ∧ program.Creates node key.2 ref

theorem creations_inOrder (program : Program) :
    ListsInOrder (Prod.Lex (· < ·) TablePlaceBefore) program.CreatesAt
      (Project.creations program) :=
  program.nodes_inOrder.flatMap fun node _ => program.createdClasses_inOrder node

def DeclaresTable (program : Program) (table : String) : Prop :=
  ∃ kind declarators ascription initial members,
    (.variableDeclaration kind declarators ∈ program.body ∨
      .exportDeclaration (.variableDeclaration kind declarators) ∈ program.body) ∧
    .declarator (.binding table) ascription (some initial) ∈ declarators ∧ initial.IsLiteral members

theorem Lists.declaresTable {program : Program} {table : String} {place : TablePlace} {ref : ClassRef}
    (h : program.Lists table place ref) : program.DeclaresTable table := by
  obtain ⟨htop, hdeclares, hdeclared, ⟨ascription, hliteral, -, -⟩⟩ := h
  have hbody := List.mem_of_getElem? htop
  have hdeclarator := List.mem_of_getElem? hdeclared
  obtain rfl | rfl := hdeclares
  · exact ⟨_, _, ascription, _, _, .inl hbody, hdeclarator, hliteral⟩
  · exact ⟨_, _, ascription, _, _, .inr hbody, hdeclarator, hliteral⟩

/-- The references by which a program creates classes stand in source order, and those out of a table in
the order in which the top level lists them. The table of created classes has their names in the order
of first occurrence, and under each name the last reference to a class of that name. A table that is
declared only inside of functions or blocks lists nothing. -/
theorem created_keeps_first_and_last (program : Program) :
    (∃ refs, ListsInOrder (Prod.Lex (· < ·) TablePlaceBefore) program.CreatesAt refs ∧
      FirstOccurrences (refs.map ClassRef.className) (program.created.entries.map Prod.fst) ∧
      ∀ name ref, (name, ref) ∈ program.created.entries ↔
        ClassTable.IsLast refs ref ∧ ref.className = name) ∧
    ∀ table, ¬ program.DeclaresTable table →
      ∀ key types arguments,
        createdClasses program (.construct (.index (.identifier table) key) types arguments) = [] := by
  constructor
  · refine ⟨Project.creations program, program.creations_inOrder, ?_, ?_⟩
    · exact firstOccurrences_iff.mpr (ClassTable.keys_ofRefs _)
    · intro name ref
      exact ClassTable.mem_entries_ofRefs
  · intro table htable key types arguments
    rw [List.eq_nil_iff_forall_not_mem]
    intro ref hm
    obtain ⟨place, hlists⟩ := (program.lookupTable_inOrder table).mem_iff.mp hm
    exact htable hlists.declaresTable

def tableOf (table name : String) : Node :=
  .variableDeclaration .constant
    [.declarator (.binding table) [] (some (.object [.property none [] (.identifier name)]))]

/-- A function that declares a table with one class and creates out of it. -/
def tableUser (table name : String) : Node :=
  .function .declaration none [.binding "kind"]
    [tableOf table name,
      .expression (.construct (.index (.identifier table) (.identifier "kind")) [] [])]

/-- A table at the top level that one function shadows, and a table of another function alone. -/
def scopedTables : Program :=
  ⟨[tableOf "handlers" "Handler", tableUser "handlers" "Shadow", tableUser "inner" "Inner"]⟩

theorem created_keeps_first_and_last_scoped :
    ¬ scopedTables.DeclaresTable "inner" ∧
    createdClasses scopedTables
      (.construct (.index (.identifier "inner") (.identifier "kind")) [] []) = [] := by
  have hundeclared : ¬ scopedTables.DeclaresTable "inner" := by
    rintro ⟨kind, declarators, ascription, initial, members, htop, hdeclared, -⟩
    simp only [scopedTables, tableOf, tableUser, List.mem_cons, List.not_mem_nil, or_false,
      Node.variableDeclaration.injEq, reduceCtorEq] at htop
    obtain ⟨-, rfl⟩ := htop
    simp at hdeclared
  exact ⟨hundeclared, (created_keeps_first_and_last scopedTables).2 "inner" hundeclared _ _ _⟩

example : scopedTables.created.entries = [("Handler", ⟨"Handler", none⟩)] := by decide +kernel

end Syntax.Program

end WorkflowAnalysis
