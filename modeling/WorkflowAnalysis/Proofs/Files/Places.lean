import Mathlib.Data.List.Basic
import Mathlib.Data.List.Induction
import WorkflowAnalysis.Files.Tree

/-! Spellings and places. What a path leads to is settled by its place, the names on the way from the
root; an absolute path that leads to a file also shows the name of that file as its last segment. -/
namespace WorkflowAnalysis

namespace Path

@[simp] theorem isIdle_of_isPlain {segment : String} (h : isPlain segment = true) :
    isIdle segment = false := by
  unfold isPlain at h
  simp_all

theorem step_idle {segment : String} (h : isIdle segment = true) (names : List String) :
    step names segment = names := by
  simp [step, h]

theorem step_plain {segment : String} (h : isPlain segment = true) (names : List String) :
    step names segment = names ++ [segment] := by
  have hup : (segment == "..") = false := by
    unfold isPlain at h
    simp_all
  simp [step, isIdle_of_isPlain h, hup]

theorem foldl_step_plain {segments : List String} (h : Plain segments) (names : List String) :
    segments.foldl step names = names ++ segments := by
  induction segments generalizing names with
  | nil => simp
  | cons segment segments ih =>
    rw [List.foldl_cons, step_plain (h segment List.mem_cons_self),
      ih fun name hm => h name (List.mem_cons_of_mem _ hm)]
    simp

theorem foldl_step_filter (segments names : List String) :
    (segments.filter (!isIdle ·)).foldl step names = segments.foldl step names := by
  induction segments generalizing names with
  | nil => rfl
  | cons segment segments ih =>
    cases h : isIdle segment with
    | true => simp [h, ih, step_idle h]
    | false => simp [h, ih]

/-- The place of a path depends on its components only. -/
theorem place_eq_foldl_names (cwd : List String) (p : Path) :
    p.place cwd = p.names.foldl step (if p.isAbsolute then [] else cwd) := by
  unfold place
  generalize (if p.isAbsolute then [] else cwd) = start
  unfold names
  split
  · rename_i rest h
    rw [h, List.foldl_cons, List.foldl_cons, foldl_step_filter]
  · exact (foldl_step_filter _ _).symm

theorem components_inj {p q : Path} :
    p.components = q.components ↔ p.isAbsolute = q.isAbsolute ∧ p.names = q.names := by
  rw [components, components, Path.Components.mk.injEq]

theorem place_congr {p q : Path} (h : p.components = q.components) (cwd : List String) :
    p.place cwd = q.place cwd := by
  rw [components_inj] at h
  rw [place_eq_foldl_names, place_eq_foldl_names, h.1, h.2]

theorem plain_place {cwd : List String} (h : Plain cwd) (p : Path) : Plain (p.place cwd) := by
  apply Plain.foldl_step
  split
  · exact plain_nil
  · exact h

theorem place_eq_concat {p : Path} (h : isPlain p.last = true) (cwd : List String) :
    p.place cwd = p.init.foldl step (if p.isAbsolute then [] else cwd) ++ [p.last] := by
  unfold place segments
  rw [List.foldl_append, List.foldl_cons, List.foldl_nil, step_plain h]

/-! ### Absolute paths -/

theorem init_of_isAbsolute {p : Path} (h : p.isAbsolute = true) : ∃ rest, p.init = "" :: rest := by
  unfold isAbsolute at h
  cases hi : p.init with
  | nil => simp [hi] at h
  | cons first rest =>
    simp only [hi, List.head?_cons, beq_iff_eq, Option.some.injEq] at h
    exact ⟨rest, by rw [h]⟩

theorem absolute_concat (names : List String) (last : String) :
    absolute (names ++ [last]) = ⟨"" :: names, last⟩ := by
  cases names with
  | nil => rfl
  | cons name names =>
    change Path.mk (("" :: name :: names) ++ [last]).dropLast
      ((("" :: name :: names) ++ [last]).getLastD "") = _
    rw [List.dropLast_concat, List.getLastD_concat]

@[simp] theorem isAbsolute_absolute (names : List String) : (absolute names).isAbsolute = true := by
  obtain rfl | ⟨front, last, rfl⟩ := List.eq_nil_or_concat' names
  · rfl
  · rw [absolute_concat]
    rfl

theorem place_absolute (segments cwd : List String) :
    (absolute segments).place cwd = segments.foldl step [] := by
  unfold place
  rw [isAbsolute_absolute, if_pos rfl]
  obtain rfl | ⟨front, last, rfl⟩ := List.eq_nil_or_concat' segments
  · rfl
  · rw [absolute_concat, Path.segments, List.cons_append, List.foldl_cons, step_idle rfl]

@[simp] theorem place_absolute_plain {names : List String} (h : Plain names) (cwd : List String) :
    (absolute names).place cwd = names := by
  rw [place_absolute, foldl_step_plain h, List.nil_append]

theorem absolute_injective {names others : List String} (hn : Plain names) (ho : Plain others)
    (h : (absolute names).components = (absolute others).components) : names = others := by
  have hp := place_congr h []
  rwa [place_absolute_plain hn, place_absolute_plain ho] at hp

theorem isPlain_append_js (name : String) : isPlain (name ++ ".js") = true := by
  have hl : (name ++ ".js").length = name.length + 3 := by rw [String.length_append]; rfl
  have hne (short : String) (hs : short.length < 3) : (name ++ ".js" == short) = false := by
    apply beq_false_of_ne
    intro he
    rw [he] at hl
    omega
  simp [isPlain, isIdle, bne, hne "" (by decide), hne "." (by decide), hne ".." (by decide)]

/-- Adding an extension to the spelling of a place gives the spelling of a place again. -/
theorem append_js_absolute {names : List String} (h : Plain names) :
    ∃ others, Plain others ∧ (absolute names).append ".js" = absolute others := by
  obtain rfl | ⟨front, last, rfl⟩ := List.eq_nil_or_concat' names
  · refine ⟨[".js"], ?_, rfl⟩
    intro name hm
    rw [List.mem_singleton.mp hm]
    rfl
  · refine ⟨front ++ [last ++ ".js"], ?_, ?_⟩
    · intro name hm
      rcases List.mem_append.mp hm with hm | hm
      · exact h name (List.mem_append_left _ hm)
      · rw [List.mem_singleton.mp hm]
        exact isPlain_append_js last
    · rw [absolute_concat, absolute_concat]
      rfl

theorem join_absolute {names : List String} (h : Plain names) (last : String) :
    (absolute names).join ⟨[], last⟩ = absolute (names ++ [last]) := by
  obtain rfl | ⟨front, name, rfl⟩ := List.eq_nil_or_concat' names
  · rw [absolute_concat]
    rfl
  · have hn : (name == "") = false := by
      have := isIdle_of_isPlain (h name (by simp))
      unfold isIdle at this
      simp_all
    rw [absolute_concat, absolute_concat]
    simp [join, isAbsolute, hn]

/-! ### Directories -/

/-- Joining goes on from the place of the left side. -/
theorem place_join (cwd : List String) (p r : Path) :
    (p.join r).place cwd =
      if r.isAbsolute then r.place cwd else r.segments.foldl step (p.place cwd) := by
  unfold join
  split
  · rfl
  · rename_i hr
    have hh : (r.init.head? == some "") = false := by simpa [isAbsolute] using hr
    split
    · rename_i hl
      have ha : (⟨p.init ++ r.init, r.last⟩ : Path).isAbsolute = p.isAbsolute := by
        cases hi : p.init <;> simp [isAbsolute, hi, hh]
      unfold place
      rw [ha]
      simp [segments, beq_iff_eq.mp hl, step_idle (show isIdle "" = true from rfl)]
    · rename_i hl
      have ha : (⟨p.init ++ p.last :: r.init, r.last⟩ : Path).isAbsolute = p.isAbsolute := by
        cases hi : p.init <;> simp_all [isAbsolute]
      unfold place
      rw [ha]
      simp [segments]

theorem foldl_step_trim (segments names : List String) :
    (segments.reverse.dropWhile isIdle).reverse.foldl step names = segments.foldl step names := by
  induction segments using List.reverseRecOn with
  | nil => rfl
  | append_singleton segments last ih =>
    rw [List.reverse_concat]
    cases h : isIdle last with
    | true =>
      rw [List.dropWhile_cons_of_pos h, ih, List.foldl_concat, step_idle h]
    | false =>
      rw [List.dropWhile_cons_of_neg (by simp [h]), List.reverse_cons, List.reverse_reverse]

theorem trimEnd_append (front : List String) {last : String} {idle : List String}
    (hidle : ∀ segment ∈ idle, isIdle segment = true) (h : isIdle last = false ∨ front = []) :
    trimEnd (front ++ last :: idle) = front ++ [last] := by
  have hdrop (rest : List String) : (idle.reverse ++ rest).dropWhile isIdle = rest.dropWhile isIdle :=
    List.dropWhile_append_of_pos fun segment hm => hidle segment (List.mem_reverse.mp hm)
  cases front with
  | nil =>
    have hnone : idle.reverse.dropWhile isIdle = [] := by simpa using hdrop []
    simp [trimEnd, hnone]
  | cons first rest =>
    have hlast : isIdle last = false := h.resolve_right (List.cons_ne_nil first rest)
    simp [trimEnd, hdrop, hlast]

theorem ofSegments_concat {front : List String} {last : String} (h : front ≠ [] ∨ last ≠ "") :
    ofSegments (front ++ [last]) = ⟨front, last⟩ := by
  unfold ofSegments
  split
  · simp at *
  · rename_i he
    obtain ⟨rfl, he⟩ := List.append_eq_singleton_iff.mp he |>.resolve_right (by simp)
    simp_all
  · rw [List.dropLast_concat, List.getLastD_concat]

theorem place_ofSegments (first : String) (rest cwd : List String) :
    (ofSegments (first :: rest)).place cwd =
      (first :: rest).foldl step (if first == "" then [] else cwd) := by
  obtain rfl | ⟨front, last, rfl⟩ := List.eq_nil_or_concat' rest
  · by_cases hroot : first = ""
    · subst hroot
      rfl
    · have he : ofSegments ([] ++ [first]) = ⟨[], first⟩ := ofSegments_concat (.inr hroot)
      rw [List.nil_append] at he
      simp [he, place, isAbsolute, segments, hroot]
  · rw [← List.cons_append, ofSegments_concat (.inl (by simp))]
    simp [place, isAbsolute, segments]

theorem isAbsolute_of_segments {p : Path} {first : String} {rest : List String}
    (h : p.segments = first :: rest) : p.isAbsolute = (first == "" && !rest.isEmpty) := by
  unfold isAbsolute
  cases hi : p.init with
  | nil =>
    obtain ⟨-, rfl⟩ : p.last = first ∧ [] = rest := by simpa [segments, hi] using h
    simp
  | cons head tail =>
    obtain ⟨rfl, rfl⟩ : head = first ∧ tail ++ [p.last] = rest := by simpa [segments, hi] using h
    simp

theorem names_of_segments {p : Path} {first : String} {rest : List String}
    (h : p.segments = first :: rest) :
    p.names = [first].filter (· != "") ++ rest.filter (!isIdle ·) := by
  unfold names
  rw [h]
  split
  · next heq =>
    cases heq
    rfl
  · next hdot =>
    have hfirst : (first != "") = !isIdle first := by
      have hne : first ≠ "." := by
        rintro rfl
        exact hdot _ rfl
      simp [isIdle, hne, bne]
    rw [← List.singleton_append, List.filter_append, List.filter_singleton, List.filter_singleton,
      hfirst]

/-- The parent of a path is what stands before its last segment that is not idle. -/
theorem parent?_of_segments {p : Path} {front idle : List String} {last : String}
    (h : p.segments = front ++ last :: idle) (hlast : isIdle last = false)
    (hidle : ∀ segment ∈ idle, isIdle segment = true) :
    p.parent? = some (ofSegments (trimEnd front)) := by
  unfold parent?
  rw [h, trimEnd_append front hidle (.inl hlast)]
  split
  · next heq =>
    obtain ⟨-, hempty⟩ := List.append_eq_singleton_iff.mp heq |>.resolve_right (by simp)
    obtain rfl : last = "" := by simpa using hempty
    cases hlast
  · rw [List.dropLast_concat]

theorem parent?_of_plain {p : Path} (ha : p.isAbsolute = true) (hl : isPlain p.last = true) :
    ∃ rest, p.init = "" :: rest ∧
      p.parent? = some (absolute (rest.reverse.dropWhile isIdle).reverse) := by
  obtain ⟨rest, hi⟩ := init_of_isAbsolute ha
  have hp := parent?_of_segments (p := p) rfl (isIdle_of_isPlain hl) (List.forall_mem_nil _)
  rw [hi] at hp
  exact ⟨rest, hi, hp⟩

/-! ### Last components -/

/-- Behind the last segment that is not idle stand idle ones only. Where all are idle, it is the first. -/
theorem exists_last_segment (p : Path) : ∃ front last idle, p.segments = front ++ last :: idle ∧
    (∀ segment ∈ idle, isIdle segment = true) ∧ (isIdle last = false ∨ front = []) := by
  obtain ⟨init, last⟩ := p
  induction init using List.reverseRecOn generalizing last with
  | nil => exact ⟨[], last, [], rfl, List.forall_mem_nil _, .inr rfl⟩
  | append_singleton init middle ih =>
    cases hlast : isIdle last with
    | false => exact ⟨init ++ [middle], last, [], rfl, List.forall_mem_nil _, .inl hlast⟩
    | true =>
      obtain ⟨front, final, idle, hsegments, hidle, hfinal⟩ := ih middle
      refine ⟨front, final, idle ++ [last], ?_, ?_, hfinal⟩
      · have happend : init ++ [middle] = front ++ final :: idle := hsegments
        simp [segments, happend]
      · exact List.forall_mem_append.mpr ⟨hidle, List.forall_mem_singleton.mpr hlast⟩

theorem getLast?_names {p : Path} {front idle : List String} {last : String}
    (h : p.segments = front ++ last :: idle) (hidle : ∀ segment ∈ idle, isIdle segment = true)
    (hlast : isIdle last = false) : p.names.getLast? = some last := by
  have hnone : idle.filter (!isIdle ·) = [] := by simpa [List.filter_eq_nil_iff] using hidle
  cases front with
  | nil =>
    have hne : last ≠ "" := by
      rintro rfl
      cases hlast
    simp [names_of_segments h, hnone, hne]
  | cons first rest => simp [names_of_segments h, hnone, hlast]

def EndsIn (p : Path) (name : String) : Prop :=
  p.components.names.getLast? = some name ∧ isPlain name = true

theorem EndsIn.segments_eq {p : Path} {name : String} (h : p.EndsIn name) :
    ∃ front idle, p.segments = front ++ name :: idle ∧ ∀ segment ∈ idle, isIdle segment = true := by
  obtain ⟨hname, hplain⟩ := h
  obtain ⟨front, last, idle, hsegments, hidle, hlast⟩ := p.exists_last_segment
  have hsame : last = name := by
    cases hl : isIdle last with
    | false => exact Option.some.inj ((getLast?_names hsegments hidle hl).symm.trans hname)
    | true =>
      -- All segments are idle, and a path of these has no component but a dot.
      obtain rfl : front = [] := hlast.resolve_left (by simp [hl])
      have hnone : idle.filter (!isIdle ·) = [] := by simpa [List.filter_eq_nil_iff] using hidle
      rw [components, names_of_segments hsegments, hnone] at hname
      by_cases hne : last = ""
      · simp [hne] at hname
      · simpa [hne] using hname
  subst hsame
  exact ⟨front, idle, hsegments, hidle⟩

theorem endsIn_last {p : Path} (h : isPlain p.last = true) : p.EndsIn p.last :=
  ⟨getLast?_names rfl (List.forall_mem_nil _) (isIdle_of_isPlain h), h⟩

theorem fileName?_eq_some {p : Path} {name : String} : p.fileName? = some name ↔ p.EndsIn name := by
  constructor
  · intro h
    obtain ⟨front, last, idle, hsegments, hidle, hlast⟩ := p.exists_last_segment
    unfold fileName? at h
    rw [hsegments, trimEnd_append front hidle hlast, List.getLastD_concat] at h
    split at h
    · cases h
    · cases h
    · cases h
    · next hempty hdot hup =>
      cases h
      have hplain : isPlain name = true := by
        simpa [isPlain, isIdle] using ⟨⟨hempty, hdot⟩, hup⟩
      exact ⟨getLast?_names hsegments hidle (isIdle_of_isPlain hplain), hplain⟩
  · intro h
    obtain ⟨front, idle, hsegments, hidle⟩ := h.segments_eq
    have hplain := h.2
    unfold fileName?
    rw [hsegments, trimEnd_append front hidle (.inl (isIdle_of_isPlain hplain)),
      List.getLastD_concat]
    split
    · cases hplain
    · cases hplain
    · cases hplain
    · rfl

/-- A path that ends in a name leads to that name in the place of its parent, whatever dots and slashes
it is spelled with. -/
theorem EndsIn.place_eq {p : Path} {name : String} (h : p.EndsIn name) (cwd : List String) :
    p.place cwd = (p.parent?.getD root).place cwd ++ [name] := by
  obtain ⟨front, idle, hsegments, hidle⟩ := h.segments_eq
  have hname := isIdle_of_isPlain h.2
  have hstay (names : List String) : idle.foldl step names = names := by
    have hnone : idle.filter (!isIdle ·) = [] := by simpa [List.filter_eq_nil_iff] using hidle
    rw [← foldl_step_filter, hnone, List.foldl_nil]
  have hplace : p.place cwd = front.foldl step (if p.isAbsolute then [] else cwd) ++ [name] := by
    unfold place
    rw [hsegments, List.foldl_append, List.foldl_cons, hstay, step_plain h.2]
  rw [hplace, parent?_of_segments hsegments hname hidle, Option.getD_some]
  cases front with
  | nil =>
    -- A name alone is relative, and the empty path is above it.
    have hrelative : p.isAbsolute = false := by
      rw [isAbsolute_of_segments hsegments]
      have hne : name ≠ "" := by
        rintro rfl
        cases hname
      simp [hne]
    rw [hrelative]
    rfl
  | cons first rest =>
    have habs : p.isAbsolute = (first == "") := by
      rw [isAbsolute_of_segments hsegments]
      simp
    rw [trimEnd, place_ofSegments, habs, List.foldl_cons, List.foldl_cons, foldl_step_trim]

theorem EndsIn.place_parent? {p : Path} {name : String} (h : p.EndsIn name) (cwd : List String) :
    (p.parent?.getD root).place cwd = (p.place cwd).dropLast := by
  rw [h.place_eq cwd, List.dropLast_concat]

theorem fileName?_of_plain {p : Path} (hl : isPlain p.last = true) : p.fileName? = some p.last :=
  fileName?_eq_some.mpr (endsIn_last hl)

end Path

namespace FileTree

open WorkflowAnalysis.Path

/-! ### Following segments -/

theorem isFile_iff {tree : FileTree} {p : Path} :
    tree.isFile p = true ↔ ∃ bytes, tree.locate p = .ok (.file bytes) := by
  unfold isFile
  split
  · rename_i bytes h
    simp [h]
  · rename_i h
    simpa using h

/-- A walk ends at the place that its segments lead to. -/
theorem find?_of_walk {tree : FileTree} {names segments : List String} {entry : Entry}
    (h : tree.walk names segments = .ok entry) :
    tree.find? (segments.foldl step names) = some entry := by
  fun_induction walk tree names segments with
  | case1 names found hf => cases h; exact hf
  | case2 => cases h
  | case3 names segment rest hf ih => exact ih h
  | case4 => cases h
  | case5 => cases h

def ClearAbove (tree : FileTree) (names : List String) : Prop :=
  ∀ above name below, names = above ++ name :: below → tree.find? above = some .directory

theorem ClearAbove.step {tree : FileTree} {names : List String} (h : tree.ClearAbove names)
    (hd : tree.find? names = some .directory) (segment : String) :
    tree.ClearAbove (Path.step names segment) := by
  unfold Path.step
  split
  · exact h
  · split
    · intro above name below he
      obtain rfl | ⟨front, last, rfl⟩ := List.eq_nil_or_concat' names
      · simp at he
      · rw [List.dropLast_concat] at he
        exact h above name (below ++ [last]) (by rw [he]; simp)
    · intro above name below he
      obtain rfl | ⟨front, last, rfl⟩ := List.eq_nil_or_concat' below
      · rw [(List.append_inj' he rfl).1.symm]
        exact hd
      · rw [← List.cons_append, ← List.append_assoc] at he
        exact h above name front (List.append_inj' he rfl).1

/-- A walk takes its last step from a directory below directories. -/
theorem ClearAbove.before_last {tree : FileTree} {names front : List String} {last : String}
    {entry : Entry} (h : tree.ClearAbove names) (hw : tree.walk names (front ++ [last]) = .ok entry) :
    tree.find? (front.foldl Path.step names) = some .directory ∧
      tree.ClearAbove (front.foldl Path.step names) := by
  induction front generalizing names with
  | nil =>
    rw [List.nil_append, walk] at hw
    split at hw
    · rename_i hd
      exact ⟨hd, h⟩
    · cases hw
    · cases hw
  | cons segment front ih =>
    rw [List.cons_append, walk] at hw
    split at hw
    · rename_i hd
      exact ih (h.step hd segment) hw
    · cases hw
    · cases hw

theorem clearAbove_root (tree : FileTree) : tree.ClearAbove [] := by
  intro above name below he
  simp at he

/-- Below directories, plain names lead to what stands under them. -/
theorem walk_of_clearAbove {tree : FileTree} {names rest : List String} {entry : Entry}
    (hp : Plain rest) (hc : tree.ClearAbove (names ++ rest))
    (h : tree.find? (names ++ rest) = some entry) : tree.walk names rest = .ok entry := by
  induction rest generalizing names with
  | nil =>
    rw [List.append_nil] at h
    rw [walk, h]
  | cons name rest ih =>
    have hd : tree.find? names = some .directory := hc names name rest rfl
    have hassoc : names ++ name :: rest = names ++ [name] ++ rest := by simp
    rw [walk, hd, step_plain (hp name List.mem_cons_self)]
    rw [hassoc] at hc h
    exact ih (fun other hm => hp other (List.mem_cons_of_mem _ hm)) hc h

theorem walk_of_locate {tree : FileTree} {p : Path} {entry : Entry} (h : tree.locate p = .ok entry) :
    tree.walk (if p.isAbsolute then [] else tree.cwd) p.segments = .ok entry := by
  unfold locate at h
  split at h
  · cases h
  · exact h

theorem find?_place {tree : FileTree} {p : Path} {entry : Entry} (h : tree.locate p = .ok entry) :
    tree.find? (p.place tree.cwd) = some entry :=
  find?_of_walk (walk_of_locate h)

/-- An absolute path to a file ends in the name of the file: neither an idle segment nor a step up
leads from a directory to a file. -/
theorem isPlain_last {tree : FileTree} {p : Path} (ha : p.isAbsolute = true)
    (hf : tree.isFile p = true) : isPlain p.last = true := by
  obtain ⟨bytes, hl⟩ := isFile_iff.mp hf
  have hw := walk_of_locate hl
  rw [if_pos ha] at hw
  obtain ⟨hd, hc⟩ := tree.clearAbove_root.before_last hw
  have hlast := find?_of_walk hw
  rw [segments, List.foldl_concat] at hlast
  generalize p.init.foldl Path.step [] = place at hd hc hlast
  by_contra hn
  have hcases : isIdle p.last = true ∨ p.last = ".." := by
    simpa [isPlain, imp_iff_not_or] using hn
  rcases hcases with hidle | hup
  · rw [step_idle hidle, hd] at hlast
    cases hlast
  · have hs : Path.step place p.last = place.dropLast := by
      rw [hup]
      rfl
    rw [hs] at hlast
    obtain rfl | ⟨above, name, rfl⟩ := List.eq_nil_or_concat' place
    · rw [List.dropLast_nil, hd] at hlast
      cases hlast
    · rw [List.dropLast_concat, hc above name [] rfl] at hlast
      cases hlast

/-- A file is found under the normal spelling of its place too. -/
theorem isFile_absolute_place {tree : FileTree} {p : Path} (ha : p.isAbsolute = true)
    (hf : tree.isFile p = true) : tree.isFile (absolute (p.place tree.cwd)) = true := by
  obtain ⟨bytes, hl⟩ := isFile_iff.mp hf
  have hw := walk_of_locate hl
  rw [if_pos ha] at hw
  obtain ⟨hd, hc⟩ := tree.clearAbove_root.before_last hw
  have hlast := isPlain_last ha hf
  have hplace := place_eq_concat hlast tree.cwd
  rw [if_pos ha] at hplace
  have hclear := hc.step hd p.last
  rw [step_plain hlast, ← hplace] at hclear
  have hwalk : tree.walk [] (p.place tree.cwd) = .ok (.file bytes) :=
    walk_of_clearAbove (plain_place tree.cwd_plain p) hclear (find?_place hl)
  rw [isFile_iff]
  refine ⟨bytes, ?_⟩
  rw [hplace] at hwalk
  rw [hplace, absolute_concat]
  -- The first step, over the empty segment in front, stays at the root.
  exact hwalk

theorem mem_entries_of_entry? {tree : FileTree} {place : List FileName} {bytes : ByteArray}
    (h : tree.entry? place = some (.file bytes)) : (place, Entry.file bytes) ∈ tree.entries := by
  unfold entry? at h
  split at h
  · cases h
  · obtain ⟨before, after, he, -⟩ := List.lookup_eq_some_iff.mp h
    simp [he]

/-- The places that a path can lead to. -/
def textPlaces (tree : FileTree) : List (List String) :=
  tree.entries.filterMap fun entry => entry.1.mapM FileName.text?

theorem length_textPlaces_le (tree : FileTree) : tree.textPlaces.length ≤ tree.size :=
  List.length_filterMap_le _ _

theorem place_mem_textPlaces {tree : FileTree} {p : Path} (hf : tree.isFile p = true) :
    p.place tree.cwd ∈ tree.textPlaces := by
  obtain ⟨bytes, hl⟩ := isFile_iff.mp hf
  exact List.mem_filterMap.mpr
    ⟨_, mem_entries_of_entry? (find?_place hl), FileName.mapM_text?_map_ofText _⟩

end FileTree

end WorkflowAnalysis
