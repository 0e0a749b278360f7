import Mathlib.Data.Finset.Card
import WorkflowAnalysis.Proofs.Files.Spellings
import WorkflowAnalysis.Proofs.Modules.Preorder

/-! Histories of visited files. After any number of requests the visited files are the set of all paths
that were ever inserted, the start among them, where paths with the same components are one member. A
request is answered by this set, and none takes a path away. -/
namespace WorkflowAnalysis

open Relation

namespace VisitedFiles

variable {visited : VisitedFiles} {known : List Path}

/-! ### Requests -/

inductive Request where
  | insert (p : Path)
  | contains (p : Path)

def Request.inserted : Request → List Path
  | .insert p => [p]
  | .contains _ => []

def serve (visited : VisitedFiles) : Request → Bool × VisitedFiles
  | .insert p => visited.enter p
  | .contains p => (visited.contains p, visited)

def after (visited : VisitedFiles) (requests : List Request) : VisitedFiles :=
  requests.foldl (fun visited request => (visited.serve request).2) visited

def startingFrom : Option Path → VisitedFiles
  | none => empty
  | some p => startingAt p

def inserted (start : Option Path) (requests : List Request) : List Path :=
  start.toList ++ requests.flatMap Request.inserted

/-! ### The set behind a history -/

structure IsSetOf (visited : VisitedFiles) (known : List Path) : Prop where
  records : visited.Records known
  distinct : (visited.paths.map Path.components).Nodup

theorem isSetOf_empty : empty.IsSetOf [] where
  records := records_empty
  distinct := List.nodup_nil

theorem IsSetOf.insert (h : visited.IsSetOf known) (p : Path) :
    (visited.insert p).IsSetOf (known ++ [p]) where
  records := h.records.insert p
  distinct := by
    cases hp : visited.contains p with
    | false => exact nodup_insert h.distinct hp
    | true =>
      rw [VisitedFiles.insert, if_pos hp]
      exact h.distinct

theorem IsSetOf.serve (h : visited.IsSetOf known) (request : Request) :
    (visited.serve request).2.IsSetOf (known ++ request.inserted) := by
  cases request with
  | insert p => exact h.insert p
  | contains p =>
    rw [Request.inserted, List.append_nil]
    exact h

theorem IsSetOf.after (h : visited.IsSetOf known) (requests : List Request) :
    (visited.after requests).IsSetOf (known ++ requests.flatMap Request.inserted) := by
  induction requests generalizing visited known with
  | nil => simpa [VisitedFiles.after] using h
  | cons request requests ih =>
    rw [List.flatMap_cons, ← List.append_assoc]
    exact ih (h.serve request)

theorem isSetOf_after (start : Option Path) (requests : List Request) :
    ((startingFrom start).after requests).IsSetOf (inserted start requests) := by
  refine IsSetOf.after ?_ requests
  cases start with
  | none => exact isSetOf_empty
  | some p => exact isSetOf_empty.insert p

/-- Each member counts once, whatever its spellings. -/
theorem IsSetOf.size_eq (h : visited.IsSetOf known) :
    visited.size = (known.map Path.components).toFinset.card := by
  have hset : (visited.paths.map Path.components).toFinset = (known.map Path.components).toFinset := by
    ext c
    rw [List.mem_toFinset, List.mem_toFinset]
    constructor
    · intro hm
      obtain ⟨p, hp, rfl⟩ := List.mem_map.mp hm
      exact (h.records p).mp (List.any_eq_true.mpr ⟨p, hp, beq_self_eq_true _⟩)
    · intro hm
      obtain ⟨p, hp, rfl⟩ := List.mem_map.mp hm
      obtain ⟨member, hmember, he⟩ := List.any_eq_true.mp ((h.records p).mpr (.of_mem hp))
      rw [← eq_of_beq he]
      exact List.mem_map_of_mem hmember
  rw [← hset, List.toFinset_card_of_nodup h.distinct, List.length_map, size]

/-! ### Growth -/

theorem size_insert (visited : VisitedFiles) (p : Path) :
    (visited.insert p).size = visited.size + (!visited.contains p).toNat := by
  cases hp : visited.contains p with
  | true => simp [insert, hp]
  | false => simp [size, paths_insert hp]

theorem paths_suffix_serve (visited : VisitedFiles) (request : Request) :
    visited.paths <:+ (visited.serve request).2.paths := by
  cases request with
  | insert p =>
    change visited.paths <:+ (visited.insert p).paths
    unfold insert
    split
    · exact List.suffix_rfl
    · exact List.suffix_cons p visited.paths
  | contains p => exact List.suffix_rfl

theorem paths_suffix_after (visited : VisitedFiles) (requests : List Request) :
    visited.paths <:+ (visited.after requests).paths := by
  induction requests generalizing visited with
  | nil => exact List.suffix_rfl
  | cons request requests ih => exact (visited.paths_suffix_serve request).trans (ih _)

/-- The visited files are a finite set of paths up to slashes and dots that do not count. At any moment of
any history they hold what was inserted before and nothing else, as many members as these have
components; an insertion tells whether its path is new, and then adds one member; and whatever they hold
they go on to hold. -/
theorem after_holds_inserted (start : Option Path) (requests : List Request) :
    let visited := (startingFrom start).after requests
    (∀ p, (visited.serve (.contains p)).1 = true ↔
      ∃ q ∈ inserted start requests, q.components = p.components) ∧
    (∀ p, (visited.serve (.insert p)).1 = true ↔ (visited.serve (.contains p)).1 = false) ∧
    visited.size = ((inserted start requests).map Path.components).toFinset.card ∧
    (∀ p, (visited.serve (.insert p)).2.size =
      visited.size + (visited.serve (.insert p)).1.toNat) ∧
    (∀ p, (visited.serve (.contains p)).2 = visited) ∧
    (∀ later, visited.paths <:+ (visited.after later).paths) ∧
    ∀ text other, (Path.ofString text).components = (Path.ofString other).components ↔
      EqvGen Path.Respells text other := by
  intro visited
  have hset : visited.IsSetOf (inserted start requests) := isSetOf_after start requests
  refine ⟨?_, ?_, hset.size_eq, ?_, fun p => rfl, visited.paths_suffix_after, ?_⟩
  · intro p
    exact (hset.records p).trans List.mem_map
  · intro p
    change (!visited.contains p) = true ↔ visited.contains p = false
    rw [Bool.not_eq_true']
  · intro p
    exact visited.size_insert p
  · exact Path.components_eq_iff

-- Neither a dot in front nor a step up is overlooked.
example :
    let visited := (startingAt (Path.ofString "a//b/./")).insert (Path.ofString "a/b/.")
    visited.size = 1 ∧ visited.contains (Path.ofString "a/b") = true ∧
      visited.contains (Path.ofString "./a/b") = false ∧
      visited.contains (Path.ofString "a/x/../b") = false := by
  decide

end VisitedFiles

end WorkflowAnalysis
