import Mathlib.Data.List.Nodup
import Mathlib.Logic.Relation
import WorkflowAnalysis.Files.Visited

/-! Depth-first preorder of a graph of files. Two spellings of a path are one vertex when their
components agree, and a vertex that was listed anywhere before, in the same branch or in one next to
it, is not entered again. The order still lists all that can be reached. -/
namespace WorkflowAnalysis

open Relation

def Path.IsAmong (p : Path) (paths : List Path) : Prop := p.components ∈ paths.map Path.components

namespace Path.IsAmong

variable {p : Path} {paths others : List Path}

theorem of_mem (h : p ∈ paths) : p.IsAmong paths := List.mem_map_of_mem h

theorem append_left (h : p.IsAmong paths) : p.IsAmong (paths ++ others) := by
  unfold IsAmong
  rw [List.map_append]
  exact List.mem_append_left _ h

theorem append_iff : p.IsAmong (paths ++ others) ↔ p.IsAmong paths ∨ p.IsAmong others := by
  unfold IsAmong
  rw [List.map_append, List.mem_append]

theorem singleton_iff {q : Path} : p.IsAmong [q] ↔ q.components = p.components := by
  unfold IsAmong
  rw [List.map_singleton, List.mem_singleton, eq_comm]

theorem exists_mem (h : p.IsAmong paths) : ∃ q ∈ paths, q.components = p.components :=
  List.mem_map.mp h

end Path.IsAmong

theorem Path.nodup_concat_iff {seen : List Path} {p : Path} :
    ((seen ++ [p]).map Path.components).Nodup ↔
      (seen.map Path.components).Nodup ∧ ¬ p.IsAmong seen := by
  rw [List.map_append, List.map_singleton, List.nodup_append_comm, List.singleton_append,
    List.nodup_cons, and_comm]
  rfl

namespace VisitedFiles

def Records (visited : VisitedFiles) (paths : List Path) : Prop :=
  ∀ p, visited.contains p = true ↔ p.IsAmong paths

theorem Records.insert {visited : VisitedFiles} {paths : List Path} (h : visited.Records paths)
    (p : Path) : (visited.insert p).Records (paths ++ [p]) := by
  intro q
  rw [contains_insert, Bool.or_eq_true, beq_iff_eq, h q, Path.IsAmong.append_iff,
    Path.IsAmong.singleton_iff, or_comm]

theorem records_empty : empty.Records [] := by
  intro p
  simp [contains, empty, Path.IsAmong]

theorem records_startingAt (p : Path) : (startingAt p).Records [p] := records_empty.insert p

theorem contains_congr {visited : VisitedFiles} {p q : Path} (h : p.components = q.components) :
    visited.contains p = visited.contains q := by
  unfold contains
  rw [h]

theorem paths_insert {visited : VisitedFiles} {p : Path} (h : visited.contains p = false) :
    (visited.insert p).paths = p :: visited.paths := by
  simp [insert, h]

theorem nodup_insert {visited : VisitedFiles} {p : Path} (hn : (visited.paths.map Path.components).Nodup)
    (h : visited.contains p = false) :
    ((visited.insert p).paths.map Path.components).Nodup := by
  rw [paths_insert h, List.map_cons, List.nodup_cons]
  refine ⟨?_, hn⟩
  intro hm
  obtain ⟨q, hq, he⟩ := List.mem_map.mp hm
  have : visited.contains p = true := List.any_eq_true.mpr ⟨q, hq, beq_iff_eq.mpr he⟩
  rw [h] at this
  cases this

end VisitedFiles

theorem countP_lt_countP {α : Type} {p q : α → Bool} {items : List α} {a : α} (hm : a ∈ items)
    (himp : ∀ b ∈ items, p b = true → q b = true) (hp : p a = false) (hq : q a = true) :
    items.countP p < items.countP q := by
  obtain ⟨before, after, rfl⟩ := List.append_of_mem hm
  have hb : before.countP p ≤ before.countP q :=
    List.countP_mono_left fun b hb => himp b (by simp [hb])
  have ha : after.countP p ≤ after.countP q :=
    List.countP_mono_left fun b hb => himp b (by simp [hb])
  rw [List.countP_append, List.countP_append, List.countP_cons_of_pos hq,
    List.countP_cons_of_neg (by simp [hp])]
  omega

/-- Every file that is entered leaves fewer to enter. -/
theorem VisitedFiles.countP_insert_lt {visited : VisitedFiles} {p : Path} {files : List Path}
    (hm : p ∈ files) (hn : visited.contains p = false) :
    files.countP (fun q => !(visited.insert p).contains q) <
      files.countP (fun q => !visited.contains q) := by
  apply countP_lt_countP hm
  · intro q _ hq
    rw [contains_insert] at hq
    simp_all
  · simp [contains_insert]
  · simp [hn]

/-- `DepthFirst next before pending order`: when the files `before` are listed already, walking from
the pending ones lists `order`. A file comes before all that it leads to, and what the first pending
file leads to comes before the other pending ones. -/
inductive DepthFirst (next : Path → List Path) : List Path → List Path → List Path → Prop
  | done {before : List Path} : DepthFirst next before [] []
  | again {before : List Path} {p : Path} {rest order : List Path} :
      p.IsAmong before → DepthFirst next before rest order → DepthFirst next before (p :: rest) order
  | enter {before : List Path} {p : Path} {rest below after : List Path} :
      ¬ p.IsAmong before → DepthFirst next (before ++ [p]) (next p) below →
      DepthFirst next (before ++ p :: below) rest after →
      DepthFirst next before (p :: rest) (p :: (below ++ after))

namespace DepthFirst

variable {next : Path → List Path} {before pending rest order : List Path}

/-- Pending files that were listed before make no difference. -/
theorem of_dropWhile {visited : VisitedFiles} (hv : visited.Records before)
    (h : DepthFirst next before (pending.dropWhile visited.contains) order) :
    DepthFirst next before pending order := by
  induction pending with
  | nil => exact h
  | cons p pending ih =>
    cases hp : visited.contains p with
    | true =>
      rw [List.dropWhile_cons_of_pos hp] at h
      exact .again ((hv p).mp hp) (ih h)
    | false => rwa [List.dropWhile_cons_of_neg (by simp [hp])] at h

/-- Some steps of a walk and then others, as a list of pending files takes them. -/
theorem split (h : DepthFirst next before (pending ++ rest) order) :
    ∃ first second, order = first ++ second ∧ DepthFirst next before pending first ∧
      DepthFirst next (before ++ first) rest second := by
  induction pending generalizing before order with
  | nil => exact ⟨[], order, rfl, .done, by simpa using h⟩
  | cons p pending ih =>
    cases h with
    | again hp h =>
      obtain ⟨first, second, rfl, hf, hs⟩ := ih h
      exact ⟨first, second, rfl, .again hp hf, hs⟩
    | @enter _ _ _ below after hp hb h =>
      obtain ⟨first, second, rfl, hf, hs⟩ := ih h
      refine ⟨p :: (below ++ first), second, by simp, .enter hp hb hf, ?_⟩
      simpa using hs

/-- The graph and the start settle the order. -/
theorem unique {other : List Path} (h : DepthFirst next before pending order)
    (h' : DepthFirst next before pending other) : order = other := by
  induction h generalizing other with
  | done => cases h'; rfl
  | again hp _ ih =>
    cases h' with
    | again _ h' => exact ih h'
    | enter hn => exact absurd hp hn
  | enter hp _ _ ihb ih =>
    cases h' with
    | again hn => exact absurd hn hp
    | enter _ hb h' =>
      cases ihb hb
      rw [ih h']

theorem iff_eq (h : DepthFirst next before pending order) (other : List Path) :
    DepthFirst next before pending other ↔ other = order := by
  constructor
  · intro ho
    exact ho.unique h
  · rintro rfl
    exact h

theorem reachable (h : DepthFirst next before pending order) :
    ∀ q ∈ order, ∃ p ∈ pending, ReflTransGen (fun a b => b ∈ next a) p q := by
  induction h with
  | done => simp
  | again _ _ ih =>
    intro q hq
    obtain ⟨p, hp, hr⟩ := ih q hq
    exact ⟨p, List.mem_cons_of_mem _ hp, hr⟩
  | @enter _ p _ below after _ _ _ ihb ih =>
    intro q hq
    rcases List.mem_cons.mp hq with rfl | hq
    · exact ⟨q, List.mem_cons_self, .refl⟩
    · rcases List.mem_append.mp hq with hq | hq
      · obtain ⟨child, hc, hr⟩ := ihb q hq
        exact ⟨p, List.mem_cons_self, .head hc hr⟩
      · obtain ⟨other, ho, hr⟩ := ih q hq
        exact ⟨other, List.mem_cons_of_mem _ ho, hr⟩

theorem pending_isAmong (h : DepthFirst next before pending order) :
    ∀ p ∈ pending, p.IsAmong (before ++ order) := by
  induction h with
  | done => simp
  | again hp _ ih =>
    intro q hq
    rcases List.mem_cons.mp hq with rfl | hq
    · exact hp.append_left
    · exact ih q hq
  | @enter before p _ below after _ _ _ _ ih =>
    intro q hq
    rcases List.mem_cons.mp hq with rfl | hq
    · exact .of_mem (by simp)
    · simpa using ih q hq

/-- Whatever a listed file leads to is listed too: a branch that is cut short was listed before. -/
theorem next_isAmong (h : DepthFirst next before pending order) :
    ∀ p ∈ order, ∀ q ∈ next p, q.IsAmong (before ++ order) := by
  induction h with
  | done => simp
  | again _ _ ih => exact ih
  | @enter before p _ below after _ hb _ ihb ih =>
    have happ : before ++ p :: (below ++ after) = before ++ [p] ++ below ++ after := by simp
    intro r hr q hq
    rw [happ]
    rcases List.mem_cons.mp hr with rfl | hr
    · exact (hb.pending_isAmong q hq).append_left
    · rcases List.mem_append.mp hr with hr | hr
      · exact (ihb r hr q hq).append_left
      · simpa using ih r hr q hq

theorem nodup (h : DepthFirst next before pending order)
    (hn : (before.map Path.components).Nodup) : ((before ++ order).map Path.components).Nodup := by
  induction h with
  | done => simpa using hn
  | again _ _ ih => exact ih hn
  | @enter before p _ below after hp _ _ ihb ih =>
    have hbelow := ihb (Path.nodup_concat_iff.mpr ⟨hn, hp⟩)
    rw [List.append_assoc, List.singleton_append] at hbelow
    simpa using ih hbelow

/-- All that can be reached is listed, under some spelling, as long as the spellings of one vertex
lead on to the same files. -/
theorem covers {start : Path} (h : DepthFirst next [] [start] order)
    (hsame : ∀ p q, ReflTransGen (fun a b => b ∈ next a) start p →
      ReflTransGen (fun a b => b ∈ next a) start q → p.components = q.components → next p = next q)
    {q : Path} (hq : ReflTransGen (fun a b => b ∈ next a) start q) : q.IsAmong order := by
  induction hq with
  | refl => simpa using h.pending_isAmong start (List.mem_singleton_self start)
  | @tail parent child hparent hchild ih =>
    obtain ⟨listed, hl, he⟩ := ih.exists_mem
    obtain ⟨root, hroot, hreach⟩ := h.reachable listed hl
    rw [List.mem_singleton.mp hroot] at hreach
    rw [← hsame listed parent hreach hparent he] at hchild
    simpa using h.next_isAmong listed hl child hchild

end DepthFirst

end WorkflowAnalysis
