import WorkflowAnalysis.Proofs.Files.Places
import WorkflowAnalysis.Proofs.Records.FirstOccurrences

/-! Directories of files. A path to a file that is spelled with a slash has a parent that can be listed,
and the listing holds the name of the file. A listing holds each name once, in the order of bytes. -/
namespace WorkflowAnalysis

namespace Path

theorem parent?_of_not_isIdle {p : Path} (h : isIdle p.last = false) :
    p.parent? = some (ofSegments (trimEnd p.init)) :=
  parent?_of_segments rfl h (List.forall_mem_nil _)

theorem fileName?_of_not_isIdle {p : Path} (h : isIdle p.last = false) {name : String}
    (hn : p.fileName? = some name) : name = p.last ∧ isPlain p.last = true := by
  obtain ⟨hlast, hplain⟩ := fileName?_eq_some.mp hn
  obtain rfl : p.last = name :=
    Option.some.inj ((getLast?_names rfl (List.forall_mem_nil _) h).symm.trans hlast)
  exact ⟨rfl, hplain⟩

theorem isAbsolute_join_name (p : Path) (name : String) :
    (p.join ⟨[], name⟩).isAbsolute = p.isAbsolute := by
  unfold join
  cases hl : p.last == "" with
  | true => simp [isAbsolute]
  | false => cases hi : p.init <;> simp_all [isAbsolute]

theorem place_join_name {name : String} (h : isPlain name = true) (cwd : List String) (p : Path) :
    (p.join ⟨[], name⟩).place cwd = p.place cwd ++ [name] := by
  rw [place_join, if_neg (by simp [isAbsolute])]
  simp [segments, step_plain h]

end Path

namespace FileTree

open WorkflowAnalysis.Path

variable {tree : FileTree} {p directory : Path} {bytes : ByteArray}

/-- A walk goes on from wherever a part of it leads, which has to be a directory. -/
theorem walk_append_cons {names front rest : List String} {segment : String} {entry : Entry} :
    tree.walk names (front ++ segment :: rest) = .ok entry ↔
      tree.walk names front = .ok .directory ∧
        tree.walk (front.foldl step names) (segment :: rest) = .ok entry := by
  induction front generalizing names with
  | nil =>
    rw [List.nil_append, List.foldl_nil, walk, walk]
    cases tree.find? names with
    | none => simp
    | some found => cases found <;> simp
  | cons first front ih =>
    rw [List.cons_append, List.foldl_cons, walk, walk.eq_2 tree names first front]
    cases tree.find? names with
    | none => simp
    | some found =>
      cases found with
      | directory => exact ih
      | file => simp

theorem walk_front {names front rest : List String}
    (h : tree.walk names (front ++ rest) = .ok .directory) : tree.walk names front = .ok .directory := by
  cases rest with
  | nil => rwa [List.append_nil] at h
  | cons segment rest => exact (walk_append_cons.mp h).1

theorem locate_of_walk (hp : p ≠ Path.empty) {entry : Entry}
    (h : tree.walk (if p.isAbsolute then [] else tree.cwd) p.segments = .ok entry) :
    tree.locate p = .ok entry := by
  rw [locate, if_neg hp, h]

theorem isIdle_last (h : tree.locate p = .ok (.file bytes)) : isIdle p.last = false := by
  obtain ⟨hd, hw⟩ := walk_append_cons.mp (walk_of_locate h)
  apply Bool.eq_false_iff.mpr
  intro hidle
  have hfound := find?_of_walk hw
  rw [List.foldl_cons, step_idle hidle, List.foldl_nil, find?_of_walk hd] at hfound
  cases hfound

theorem locate_ofSegments {first : String} {rest : List String}
    (h : tree.walk (if first == "" then [] else tree.cwd) (first :: rest) = .ok .directory) :
    tree.locate (ofSegments (first :: rest)) = .ok .directory := by
  obtain rfl | ⟨front, last, rfl⟩ := List.eq_nil_or_concat' rest
  · by_cases hroot : first = ""
    · subst hroot
      rfl
    · have he : ofSegments ([] ++ [first]) = ⟨[], first⟩ := ofSegments_concat (.inr hroot)
      rw [List.nil_append] at he
      rw [he]
      apply locate_of_walk
      · simp [Path.empty, hroot]
      · simpa [isAbsolute, segments, hroot] using h
  · rw [← List.cons_append, ofSegments_concat (.inl (by simp))]
    apply locate_of_walk
    · simp [Path.empty]
    · simpa [isAbsolute, segments] using h

/-- The parent of a path to a file is a path to the directory of the file, unless the path is a name
alone. -/
theorem exists_parent (h : tree.locate p = .ok (.file bytes)) (hi : p.init ≠ []) :
    ∃ parent, p.parent? = some parent ∧ tree.locate parent = .ok .directory ∧
      parent.place tree.cwd = p.init.foldl step (if p.isAbsolute then [] else tree.cwd) := by
  have hw := (walk_append_cons.mp (walk_of_locate h)).1
  rw [parent?_of_not_isIdle (isIdle_last h)]
  obtain ⟨first, rest, hinit⟩ := List.exists_cons_of_ne_nil hi
  have habs : p.isAbsolute = (first == "") := by simp [isAbsolute, hinit]
  rw [hinit, habs] at hw ⊢
  refine ⟨_, rfl, ?_⟩
  -- Segments at the end that lead nowhere are dropped; the walk over the rest is part of the walk.
  obtain ⟨idle, hidle⟩ : ∃ idle, rest = (rest.reverse.dropWhile isIdle).reverse ++ idle := by
    refine ⟨(rest.reverse.takeWhile isIdle).reverse, ?_⟩
    rw [← List.reverse_append, List.takeWhile_append_dropWhile, List.reverse_reverse]
  rw [hidle, ← List.cons_append] at hw
  refine ⟨locate_ofSegments (walk_front hw), ?_⟩
  rw [trimEnd, place_ofSegments, List.foldl_cons, List.foldl_cons, foldl_step_trim]

/-- A name joined to a directory leads to what stands in the directory under that name. -/
theorem locate_join_name (hd : tree.locate directory = .ok .directory) {name : String}
    (hn : isPlain name = true) {entry : Entry}
    (hf : tree.find? (directory.place tree.cwd ++ [name]) = some entry) :
    tree.locate (directory.join ⟨[], name⟩) = .ok entry := by
  have hw := walk_of_locate hd
  have hlast (front : List String)
      (hfront : tree.walk (if directory.isAbsolute then [] else tree.cwd) front = .ok .directory)
      (hplace : front.foldl step (if directory.isAbsolute then [] else tree.cwd) =
        directory.place tree.cwd) :
      tree.walk (if directory.isAbsolute then [] else tree.cwd) (front ++ [name]) = .ok entry := by
    refine walk_append_cons.mpr ⟨hfront, ?_⟩
    have hdir := find?_of_walk hfront
    rw [hplace] at hdir ⊢
    rw [walk, hdir, step_plain hn]
    simp only [walk, hf]
  have hne : directory.join ⟨[], name⟩ ≠ Path.empty := by
    have hidle := isIdle_of_isPlain hn
    intro he
    have hname : name = "" := by
      have := congrArg Path.last he
      unfold join at this
      split at this
      · exact this
      · split at this <;> exact this
    simp [hname, isIdle] at hidle
  apply locate_of_walk hne
  rw [isAbsolute_join_name]
  by_cases hl : directory.last = ""
  · have hs : (directory.join ⟨[], name⟩).segments = directory.init ++ [name] := by
      simp [join, isAbsolute, segments, hl]
    rw [hs]
    apply hlast _ (walk_front hw)
    simp [place, segments, hl, step_idle (show isIdle "" = true from rfl)]
  · have hs : (directory.join ⟨[], name⟩).segments = directory.segments ++ [name] := by
      simp [join, isAbsolute, segments, hl]
    rw [hs]
    exact hlast _ hw rfl

/-! ### Names in a directory -/

theorem childName?_eq_some {directory place : List FileName} {name : FileName} :
    childName? directory place = some name ↔ place = directory ++ [name] := by
  unfold childName?
  obtain rfl | ⟨front, last, rfl⟩ := List.eq_nil_or_concat' place
  · simp
  · rw [List.dropLast_concat]
    by_cases hf : front = directory
    · simp [hf]
    · simp [hf]

def HoldsFile (tree : FileTree) (directory : Path) (name : FileName) : Prop :=
  ∃ bytes,
    tree.entry? ((directory.place tree.cwd).map FileName.ofText ++ [name]) = some (.file bytes)

theorem holdsFile_ofText {name : String} : tree.HoldsFile directory (.ofText name) ↔
    ∃ bytes, tree.find? (directory.place tree.cwd ++ [name]) = some (.file bytes) := by
  simp only [HoldsFile, find?, List.map_append, List.map_cons, List.map_nil]

theorem exists_fileNames (hd : tree.locate directory = .ok .directory) :
    ∃ names, tree.fileNames directory = .ok names ∧
      ∀ name, name ∈ names ↔ tree.HoldsFile directory name := by
  unfold fileNames
  rw [hd]
  refine ⟨_, rfl, ?_⟩
  intro name
  rw [List.mem_mergeSort, List.mem_eraseDups, List.mem_filterMap]
  constructor
  · rintro ⟨⟨place, entry⟩, -, hs⟩
    dsimp only at hs
    split at hs
    · next bytes hfind =>
      obtain rfl := childName?_eq_some.mp hs
      exact ⟨bytes, hfind⟩
    · cases hs
  · rintro ⟨bytes, hfind⟩
    refine ⟨_, mem_entries_of_entry? hfind, ?_⟩
    dsimp only
    rw [hfind]
    exact childName?_eq_some.mpr rfl

/-- A listing is in strictly increasing order of bytes. -/
theorem pairwise_fileNames {names : List FileName} (h : tree.fileNames p = .ok names) :
    names.Pairwise fun a b => a.bytes < b.bytes := by
  unfold fileNames at h
  cases hl : tree.locate p with
  | error fault => simp [hl, bind, Except.bind] at h
  | ok entry =>
    cases entry with
    | file bytes =>
      obtain rfl : [] = names := by simpa [hl, bind, Except.bind, pure, Except.pure] using h
      exact .nil
    | directory =>
      rw [hl] at h
      obtain rfl := Except.ok.inj h
      have hsorted := @List.pairwise_mergeSort FileName (fun a b => decide (a.bytes ≤ b.bytes))
        (fun a b c hab hbc => by
          rw [decide_eq_true_eq] at *
          exact List.le_trans hab hbc)
        (fun a b => by simpa using List.le_total a.bytes b.bytes)
      refine ((hsorted _).and (List.nodup_mergeSort.mpr (nodup_eraseDups _))).imp ?_
      rintro a b ⟨hle, hne⟩
      rw [decide_eq_true_eq] at hle
      rw [← List.not_le]
      intro hge
      exact hne (congrArg FileName.mk (List.le_antisymm hle hge))

end FileTree

end WorkflowAnalysis
