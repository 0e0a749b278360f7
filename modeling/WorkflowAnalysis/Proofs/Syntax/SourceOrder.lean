import WorkflowAnalysis.Proofs.Syntax.CompiledCalls

/-! Source order. A node has a position in its tree, the steps that lead down to it, and a walk of the
tree meets the nodes in the order of their positions. So what a search of a tree lists can be said by
positions alone: what is found where, all of it, and in this order. -/
namespace WorkflowAnalysis

/-! ### Lists in the order of keys -/

section Keys

variable {κ ι α β : Type} {before : κ → κ → Prop} {below : ι → ι → Prop}
  {found : κ → α → Prop} {list : List α}

/-- A list of all that is found under keys, by the order of the keys and once for each of them. -/
def ListsInOrder (before : κ → κ → Prop) (found : κ → α → Prop) (list : List α) : Prop :=
  ∃ entries : List (κ × α), entries.Pairwise (fun entry later => before entry.1 later.1) ∧
    (∀ key item, (key, item) ∈ entries ↔ found key item) ∧ entries.map Prod.snd = list

theorem listsInOrder_getElem? (list : List α) :
    ListsInOrder (· < ·) (fun (place : Nat) item => list[place]? = some item) list := by
  refine ⟨list.zipIdx.map Prod.swap, ?_, ?_, ?_⟩
  · have hplaces : (list.zipIdx.map Prod.snd).Pairwise (· < ·) := by
      rw [List.zipIdx_map_snd]
      exact List.pairwise_lt_range' 1
    exact List.pairwise_map.mpr (List.pairwise_map.mp hplaces)
  · simp [List.mem_zipIdx_iff_getElem?]
  · rw [List.map_map]
    exact List.zipIdx_map_fst 0 list

theorem listsInOrder_nil (h : ∀ key item, ¬ found key item) : ListsInOrder before found [] :=
  ⟨[], .nil, by simpa using h, rfl⟩

theorem listsInOrder_ite {p : Prop} [Decidable p] (h : p → ListsInOrder before found list)
    (hfound : ∀ key item, found key item → p) :
    ListsInOrder before found (if p then list else []) := by
  split
  · next hp => exact h hp
  · next hp => exact listsInOrder_nil fun key item hf => hp (hfound key item hf)

theorem listsInOrder_singleton (key : κ) (item : α) :
    ListsInOrder before (fun at' other => at' = key ∧ other = item) [item] :=
  ⟨[(key, item)], List.pairwise_singleton _ _, by simp, rfl⟩

theorem listsInOrder_toList (key : κ) (item? : Option α) :
    ListsInOrder before (fun at' item => at' = key ∧ item? = some item) item?.toList := by
  cases item? with
  | none => exact listsInOrder_nil fun at' item h => nomatch h.2
  | some item =>
    refine ⟨[(key, item)], List.pairwise_singleton _ _, ?_, rfl⟩
    intro at' other
    simp [eq_comm]

namespace ListsInOrder

theorem mem_iff (h : ListsInOrder before found list) {item : α} :
    item ∈ list ↔ ∃ key, found key item := by
  obtain ⟨entries, -, hmem, rfl⟩ := h
  simp [← hmem]

theorem congr {found' : κ → α → Prop} (h : ListsInOrder before found list)
    (hfound : ∀ key item, found key item ↔ found' key item) :
    ListsInOrder before found' list := by
  obtain ⟨entries, hsorted, hmem, hlist⟩ := h
  exact ⟨entries, hsorted, fun key item => (hmem key item).trans (hfound key item), hlist⟩

/-- Other keys in the same order. -/
theorem rekey (place : κ → ι) (hplace : ∀ key later, before key later → below (place key) (place later))
    (h : ListsInOrder before found list) :
    ListsInOrder below (fun at' item => ∃ key, place key = at' ∧ found key item) list := by
  obtain ⟨entries, hsorted, hmem, rfl⟩ := h
  refine ⟨entries.map fun entry => (place entry.1, entry.2), ?_, ?_, ?_⟩
  · rw [List.pairwise_map]
    exact hsorted.imp fun hlt => hplace _ _ hlt
  · intro at' item
    simp only [List.mem_map, Prod.exists, Prod.mk.injEq]
    constructor
    · rintro ⟨key, _, he, rfl, rfl⟩
      exact ⟨key, rfl, (hmem _ _).mp he⟩
    · rintro ⟨key, rfl, hf⟩
      exact ⟨key, item, (hmem _ _).mpr hf, rfl, rfl⟩
  · simp [Function.comp_def]

theorem cons (key : κ) (item : α) (h : ListsInOrder before found list)
    (hfirst : ∀ later other, found later other → before key later) :
    ListsInOrder before (fun at' other => (at' = key ∧ other = item) ∨ found at' other)
      (item :: list) := by
  obtain ⟨entries, hsorted, hmem, rfl⟩ := h
  refine ⟨(key, item) :: entries, ?_, ?_, rfl⟩
  · refine List.pairwise_cons.mpr ⟨?_, hsorted⟩
    rintro ⟨later, other⟩ he
    exact hfirst later other ((hmem later other).mp he)
  · intro at' other
    rw [List.mem_cons, Prod.mk.injEq, hmem]

theorem append {found' : ι → α → Prop} {rest : List α} (h : ListsInOrder before found list)
    (h' : ListsInOrder below found' rest) :
    ListsInOrder (Sum.Lex before below) (Sum.elim found found') (list ++ rest) := by
  obtain ⟨entries, hsorted, hmem, rfl⟩ := h
  obtain ⟨entries', hsorted', hmem', rfl⟩ := h'
  refine ⟨entries.map (Prod.map Sum.inl id) ++ entries'.map (Prod.map Sum.inr id), ?_, ?_, ?_⟩
  · rw [List.pairwise_append, List.pairwise_map, List.pairwise_map]
    refine ⟨hsorted.imp fun hlt => .inl hlt, hsorted'.imp fun hlt => .inr hlt, ?_⟩
    intro entry he later hl
    obtain ⟨_, -, rfl⟩ := List.mem_map.mp he
    obtain ⟨_, -, rfl⟩ := List.mem_map.mp hl
    exact .sep _ _
  · rintro (key | key) item <;> simp [← hmem, ← hmem']
  · simp [Function.comp_def]

theorem filterMap {f : α → Option β} (h : ListsInOrder before found list) :
    ListsInOrder before (fun key result => ∃ item, found key item ∧ f item = some result)
      (list.filterMap f) := by
  obtain ⟨entries, hsorted, hmem, rfl⟩ := h
  refine ⟨entries.filterMap fun entry => (f entry.2).map (entry.1, ·), ?_, ?_, ?_⟩
  · rw [List.pairwise_filterMap]
    refine hsorted.imp fun {entry later} hlt => ?_
    intro _ he _ hl
    obtain ⟨_, -, rfl⟩ := Option.map_eq_some_iff.mp he
    obtain ⟨_, -, rfl⟩ := Option.map_eq_some_iff.mp hl
    exact hlt
  · intro key result
    simp [List.mem_filterMap, ← hmem]
  · simp [List.map_filterMap, List.filterMap_map, Function.comp_def]

theorem map {f : α → β} (h : ListsInOrder before found list) :
    ListsInOrder before (fun key result => ∃ item, found key item ∧ f item = result)
      (list.map f) := by
  rw [← List.filterMap_eq_map]
  exact h.filterMap.congr fun key result => by simp

theorem reverse (h : ListsInOrder before found list) :
    ListsInOrder (fun key earlier => before earlier key) found list.reverse := by
  obtain ⟨entries, hsorted, hmem, rfl⟩ := h
  refine ⟨entries.reverse, List.pairwise_reverse.mpr hsorted, ?_, List.map_reverse⟩
  intro key item
  rw [List.mem_reverse, hmem]

theorem flatMap {found' : α → ι → β → Prop} {f : α → List β} (h : ListsInOrder before found list)
    (hf : ∀ item ∈ list, ListsInOrder below (found' item) (f item)) :
    ListsInOrder (Prod.Lex before below)
      (fun key result => ∃ item, found key.1 item ∧ found' item key.2 result)
      (list.flatMap f) := by
  obtain ⟨entries, hsorted, hmem, rfl⟩ := h
  -- Equal items under different keys share their inner list; the outer key keeps the copies apart.
  choose! inner hinner using hf
  have hin (entry : κ × α) (he : entry ∈ entries) := hinner entry.2 (List.mem_map_of_mem he)
  refine ⟨entries.flatMap fun entry =>
    (inner entry.2).map fun part => ((entry.1, part.1), part.2), ?_, ?_, ?_⟩
  · rw [List.pairwise_flatMap]
    constructor
    · intro entry he
      rw [List.pairwise_map]
      exact (hin entry he).1.imp fun hlt => .right _ hlt
    · refine hsorted.imp fun {entry later} hlt => ?_
      intro part hp other ho
      obtain ⟨_, -, rfl⟩ := List.mem_map.mp hp
      obtain ⟨_, -, rfl⟩ := List.mem_map.mp ho
      exact .left _ _ hlt
  · rintro ⟨key, place⟩ result
    simp only [List.mem_flatMap, List.mem_map, Prod.exists, Prod.mk.injEq]
    constructor
    · rintro ⟨_, item, he, _, _, hp, ⟨rfl, rfl⟩, rfl⟩
      exact ⟨item, (hmem _ _).mp he, ((hin _ he).2.1 _ _).mp hp⟩
    · rintro ⟨item, hk, hr⟩
      have he := (hmem _ _).mpr hk
      exact ⟨key, item, he, place, result, ((hin _ he).2.1 _ _).mpr hr, ⟨rfl, rfl⟩, rfl⟩
  · rw [List.map_flatMap, List.flatMap_map]
    refine List.flatMap_congr fun entry he => ?_
    rw [List.map_map, ← (hin entry he).2.2]
    rfl

/-- The first answer of a list is the answer at a key with no answer before it. -/
theorem findSome?_eq_some {f : α → Option β} {result : β} (h : ListsInOrder before found list)
    (hasymm : ∀ key later, before key later → ¬ before later key) :
    list.findSome? f = some result ↔
      ∃ key item, found key item ∧ f item = some result ∧
        ∀ earlier other, before earlier key → found earlier other → f other = none := by
  obtain ⟨entries, hsorted, hmem, rfl⟩ := h
  rw [List.findSome?_map, List.findSome?_eq_some_iff]
  constructor
  · rintro ⟨front, ⟨key, item⟩, back, rfl, hitem, hfront⟩
    refine ⟨key, item, (hmem key item).mp (by simp), hitem, ?_⟩
    intro earlier other hearlier hother
    obtain ⟨-, hback, -⟩ := List.pairwise_append.mp hsorted
    have hlater := (List.pairwise_cons.mp hback).1
    have hin := (hmem earlier other).mpr hother
    rw [List.mem_append, List.mem_cons] at hin
    rcases hin with hin | hsame | hin
    · exact hfront _ hin
    · cases hsame
      exact absurd hearlier (hasymm _ _ hearlier)
    · exact absurd hearlier (hasymm _ _ (hlater _ hin))
  · rintro ⟨key, item, hfound, hitem, hfirst⟩
    obtain ⟨front, back, rfl⟩ := List.append_of_mem ((hmem key item).mpr hfound)
    refine ⟨front, (key, item), back, rfl, hitem, ?_⟩
    rintro ⟨earlier, other⟩ hin
    have hearlier := (List.pairwise_append.mp hsorted).2.2 _ hin (key, item) List.mem_cons_self
    exact hfirst earlier other hearlier ((hmem earlier other).mp (List.mem_append_left _ hin))

theorem findSome?_eq_none {f : α → Option β} (h : ListsInOrder before found list) :
    list.findSome? f = none ↔ ∀ key item, found key item → f item = none := by
  rw [List.findSome?_eq_none_iff]
  constructor
  · intro hnone key item hfound
    exact hnone item (h.mem_iff.mpr ⟨key, hfound⟩)
  · intro hnone item hm
    obtain ⟨key, hfound⟩ := h.mem_iff.mp hm
    exact hnone key item hfound

/-- The head of a list stands at a key with nothing before it. -/
theorem head?_eq_some {item : α} (h : ListsInOrder before found list)
    (hasymm : ∀ key later, before key later → ¬ before later key) :
    list.head? = some item ↔
      ∃ key, found key item ∧ ∀ earlier other, before earlier key → ¬ found earlier other := by
  have hhead : list.findSome? some = list.head? := by cases list <;> rfl
  rw [← hhead, h.findSome?_eq_some hasymm]
  constructor
  · rintro ⟨key, first, hfound, hfirst, hnone⟩
    cases hfirst
    exact ⟨key, hfound, fun earlier other hlt hother => nomatch hnone earlier other hlt hother⟩
  · rintro ⟨key, hfound, hnone⟩
    exact ⟨key, item, hfound, rfl, fun earlier other hlt hother => absurd hother (hnone _ _ hlt)⟩

theorem eq_nil_iff (h : ListsInOrder before found list) :
    list = [] ↔ ∀ key item, ¬ found key item := by
  rw [List.eq_nil_iff_forall_not_mem]
  constructor
  · intro hnone key item hfound
    exact hnone item (h.mem_iff.mpr ⟨key, hfound⟩)
  · intro hnone item hm
    obtain ⟨key, hfound⟩ := h.mem_iff.mp hm
    exact hnone key item hfound

end ListsInOrder

end Keys

/-! ### Positions -/

namespace Syntax

/-- The steps from a node down to another, each the place of a part among the parts. A position comes
before those that lead on from it, and those through an earlier part come first. -/
abbrev Position := List Nat

namespace Node

def at? (n : Node) : Position → Option Node
  | [] => some n
  | place :: rest => n.children[place]?.bind (·.at? rest)

def Contains (n node : Node) : Prop := ∃ position, n.at? position = some node

theorem at?_append (n : Node) (outer inner : Position) :
    n.at? (outer ++ inner) = (n.at? outer).bind (·.at? inner) := by
  induction outer generalizing n with
  | nil => rfl
  | cons place rest ih =>
    simp only [List.cons_append, at?, Option.bind_assoc]
    exact Option.bind_congr fun part _ => ih part

/-- What stands in parts that are walked one after the other. -/
theorem flatMap_preorder_inOrder {parts : List Node}
    (h : ∀ part ∈ parts,
      ListsInOrder (· < ·) (fun position node => part.at? position = some node) part.preorder) :
    ListsInOrder (· < ·)
      (fun (position : Position) node => ∃ place rest, place :: rest = position ∧
        (parts[place]?.bind (·.at? rest)) = some node)
      (parts.flatMap preorder) := by
  refine (((listsInOrder_getElem? parts).flatMap h).rekey (fun key => key.1 :: key.2) ?_).congr ?_
  · rintro _ _ (⟨_, _, hlt⟩ | ⟨_, hlt⟩)
    · exact List.cons_lt_cons_iff.mpr (.inl hlt)
    · exact List.cons_lt_cons_iff.mpr (.inr ⟨rfl, hlt⟩)
  · intro position node
    simp [Option.bind_eq_some_iff]

/-- A walk meets the nodes in the order of their positions. -/
theorem preorder_inOrder (n : Node) :
    ListsInOrder (· < ·) (fun position node => n.at? position = some node) n.preorder := by
  induction n using induction_children with
  | step n ih =>
    -- The position of the node itself is empty, so it comes before all positions of its parts.
    rw [preorder_eq]
    refine ((flatMap_preorder_inOrder ih).cons [] n ?_).congr ?_
    · rintro _ _ ⟨place, rest, rfl, -⟩
      exact List.nil_lt_cons place rest
    · rintro (_ | ⟨place, rest⟩) node
      · simp [at?, eq_comm]
      · simp [at?]

theorem mem_preorder_iff {n node : Node} : node ∈ n.preorder ↔ n.Contains node :=
  n.preorder_inOrder.mem_iff

theorem Contains.trans {n middle node : Node} (h : n.Contains middle) (h' : middle.Contains node) :
    n.Contains node := by
  obtain ⟨outer, houter⟩ := h
  obtain ⟨inner, hinner⟩ := h'
  refine ⟨outer ++ inner, ?_⟩
  rw [at?_append, houter, Option.bind_some, hinner]

theorem contains_of_mem_children {n child : Node} (h : child ∈ n.children) : n.Contains child :=
  mem_preorder_iff.mp (mem_preorder_of_child h child.mem_preorder_self)

end Node

namespace Program

def at? (program : Program) : Position → Option Node
  | [] => none
  | place :: rest => program.body[place]?.bind (·.at? rest)

def Contains (program : Program) (node : Node) : Prop := ∃ position, program.at? position = some node

theorem Contains.trans {program : Program} {n node : Node} (h : program.Contains n)
    (h' : n.Contains node) : program.Contains node := by
  obtain ⟨outer, houter⟩ := h
  obtain ⟨inner, hinner⟩ := h'
  refine ⟨outer ++ inner, ?_⟩
  cases outer with
  | nil => cases houter
  | cons place rest =>
    obtain ⟨statement, hstatement, hn⟩ := Option.bind_eq_some_iff.mp houter
    simp [at?, hstatement, Node.at?_append, hn, hinner]

theorem nodes_inOrder (program : Program) :
    ListsInOrder (· < ·) (fun position node => program.at? position = some node)
      program.nodes := by
  rw [nodes, Node.preorderList_eq_flatMap]
  refine (Node.flatMap_preorder_inOrder fun part _ => part.preorder_inOrder).congr ?_
  rintro (_ | ⟨place, rest⟩) node <;> simp [at?]

theorem mem_nodes_iff {program : Program} {node : Node} :
    node ∈ program.nodes ↔ program.Contains node :=
  program.nodes_inOrder.mem_iff

end Program

end Syntax

end WorkflowAnalysis
