import WorkflowAnalysis.Proofs.Files.Resolution

/-! Normal forms of paths. Every path has one normal spelling, from the root and without dots. It stays as
it is when it is normalized again, and a path may be normalized before another is joined to it as well as
after. From a normal form a name leads one down, and two dots lead one up as far as the root. -/
namespace WorkflowAnalysis

namespace Path

theorem names_absolute {names : List String} (h : Plain names) : (absolute names).names = names := by
  have hidle : names.filter (!isIdle ·) = names := by
    apply List.filter_eq_self.mpr
    intro name hm
    simp [isIdle_of_isPlain (h name hm)]
  obtain rfl | ⟨front, last, rfl⟩ := List.eq_nil_or_concat' names
  · rfl
  · rw [absolute_concat]
    exact hidle

theorem parent?_absolute_concat {names : List String} {last : String} (h : Plain (names ++ [last])) :
    (absolute (names ++ [last])).parent? = some (absolute names) := by
  have hnames : (names.reverse.dropWhile isIdle).reverse = names := by
    obtain rfl | ⟨front, name, rfl⟩ := List.eq_nil_or_concat' names
    · rfl
    · have hidle := isIdle_of_isPlain (h name (by simp))
      rw [List.reverse_concat, List.dropWhile_cons_of_neg (by simp [hidle]), List.reverse_cons,
        List.reverse_reverse]
  obtain ⟨rest, hi, hp⟩ := parent?_of_plain (isAbsolute_absolute (names ++ [last]))
    (by rw [absolute_concat]; exact h last (by simp))
  rw [absolute_concat] at hi
  cases hi
  rw [hp, hnames]

/-- The directory above, or the root again at the root. -/
theorem parent?_absolute {names : List String} (h : Plain names) :
    (absolute names).parent?.getD root = absolute names.dropLast := by
  obtain rfl | ⟨front, last, rfl⟩ := List.eq_nil_or_concat' names
  · rfl
  · rw [parent?_absolute_concat h, List.dropLast_concat, Option.getD_some]

/-- One spelling for every path, told by what it looks like and by how it goes along with joining. A path
that does not start at the root starts at the working directory. -/
structure NormalForm (working : Path) (normal : Path → Path) : Prop where
  absolute : ∀ p, (normal p).isAbsolute = true
  no_dots : ∀ p, ∀ name ∈ (normal p).names, name ≠ "." ∧ name ≠ ".."
  spelling : ∀ p q, p.components = q.components → normal p = normal q
  idempotent : ∀ p, normal (normal p) = normal p
  join : ∀ p r, normal (p.join r) = normal ((normal p).join r)
  start : ∀ p, normal p = normal (working.join p)
  down : ∀ p name, isPlain name = true → normal (p.join ⟨[], name⟩) = (normal p).join ⟨[], name⟩
  up : ∀ p, normal (p.join ⟨[], ".."⟩) = (normal p).parent?.getD root

end Path

namespace FileTree

open WorkflowAnalysis.Path

variable (tree : FileTree)

theorem place_normalize (p : Path) : (tree.normalize p).place tree.cwd = p.place tree.cwd :=
  place_absolute_plain (plain_place tree.cwd_plain p) tree.cwd

/-- What is reached by joining depends on the place of the left side alone. -/
theorem normalize_join_congr {p q : Path} (h : p.place tree.cwd = q.place tree.cwd) (r : Path) :
    tree.normalize (p.join r) = tree.normalize (q.join r) := by
  unfold normalize Path.normalize
  rw [place_join, place_join, h]

theorem normalize_join_segment (p : Path) (segment : String) :
    tree.normalize (p.join ⟨[], segment⟩) = absolute (step (p.place tree.cwd) segment) := by
  unfold normalize Path.normalize
  rw [place_join, if_neg (by simp [isAbsolute])]
  rfl

/-- Normalizing gives a normal form, wherever the working directory may be. -/
theorem normalize_normalForm : NormalForm (absolute tree.cwd) tree.normalize where
  absolute := by
    intro p
    exact (tree.isNormal_normalize p).isAbsolute
  no_dots := by
    intro p name hm
    have hplain := plain_place tree.cwd_plain p
    rw [normalize, Path.normalize, names_absolute hplain] at hm
    have hname := hplain name hm
    constructor
    · rintro rfl
      cases hname
    · rintro rfl
      cases hname
  spelling := by
    intro p q h
    unfold normalize Path.normalize
    rw [place_congr h]
  idempotent := by
    intro p
    exact congrArg Path.absolute (tree.place_normalize p)
  join := by
    intro p r
    exact tree.normalize_join_congr (tree.place_normalize p).symm r
  start := by
    intro p
    unfold normalize Path.normalize
    rw [place_join, place_absolute_plain tree.cwd_plain]
    split
    · rfl
    · rw [place, if_neg ‹_›]
  down := by
    intro p name hname
    rw [normalize_join_segment, step_plain hname]
    exact (join_absolute (plain_place tree.cwd_plain p) name).symm
  up := by
    intro p
    rw [normalize_join_segment]
    exact (parent?_absolute (plain_place tree.cwd_plain p)).symm

example : (ofWorkingDirectory ["w"]).normalize (ofString "a/.././../../b//") = ofString "/b" := by decide

end FileTree

end WorkflowAnalysis
