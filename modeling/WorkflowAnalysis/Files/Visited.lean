import WorkflowAnalysis.Files.Path

/-! The files an analysis has entered already. Two spellings of a path are one member when their
components agree. -/
namespace WorkflowAnalysis

/-- Members in the order of their arrival, latest first; no two have the same components. -/
structure VisitedFiles where
  paths : List Path
deriving Repr, Inhabited

namespace VisitedFiles

def empty : VisitedFiles := ⟨[]⟩

def contains (visited : VisitedFiles) (p : Path) : Bool :=
  visited.paths.any fun member => member.components == p.components

def insert (visited : VisitedFiles) (p : Path) : VisitedFiles :=
  if visited.contains p then visited else ⟨p :: visited.paths⟩

def enter (visited : VisitedFiles) (p : Path) : Bool × VisitedFiles :=
  (!visited.contains p, visited.insert p)

def startingAt (p : Path) : VisitedFiles := empty.insert p

def size (visited : VisitedFiles) : Nat := visited.paths.length

def isEmpty (visited : VisitedFiles) : Bool := visited.paths.isEmpty

theorem contains_insert (visited : VisitedFiles) (p q : Path) :
    (visited.insert p).contains q = (p.components == q.components || visited.contains q) := by
  unfold insert
  split
  · rename_i h
    obtain ⟨member, hm, he⟩ := List.any_eq_true.mp h
    cases hq : p.components == q.components
    · simp
    · have : visited.contains q = true :=
        List.any_eq_true.mpr ⟨member, hm, by rw [beq_iff_eq] at *; exact he.trans hq⟩
      simp [this]
  · simp [contains]

end VisitedFiles

end WorkflowAnalysis
