import Mathlib.Logic.Relation
import WorkflowAnalysis.Proofs.Files.Places

/-! Which spellings are one path when paths are compared. A slash may be repeated or stand at the end, and
so may a dot between slashes or at the end; every text has one spelling without them, and two texts are
the same path exactly when these agree. So a dot in front of a relative path counts, and so does every step
up. -/
namespace WorkflowAnalysis

open Relation

namespace Path

/-- A slash or a dot less in the text of a path, where it does not count. -/
inductive Respells : String → String → Prop
  | slash (front back : String) : Respells (front ++ "//" ++ back) (front ++ "/" ++ back)
  | dot (front back : String) : Respells (front ++ "/./" ++ back) (front ++ "/" ++ back)
  | lastSlash (front : String) (nonempty : front ≠ "") : Respells (front ++ "/") front
  | lastDot (front : String) : Respells (front ++ "/.") (front ++ "/")

/-! ### Segments of a text -/

theorem segments_cut (word cs ds : List Char) :
    (cut word (cs ++ '/' :: ds)).segments = (cut word cs).segments ++ (cut [] ds).segments := by
  induction cs generalizing word with
  | nil => rfl
  | cons c cs ih =>
    by_cases hc : c = '/'
    · subst hc
      simpa [cut, segments] using ih []
    · simpa [cut, hc] using ih (c :: word)

theorem segments_slash (front back : String) :
    (ofString (front ++ "/" ++ back)).segments =
      (ofString front).segments ++ (ofString back).segments := by
  have htext : (front ++ "/" ++ back).toList = front.toList ++ '/' :: back.toList := by
    simp [String.toList_append]
  unfold ofString
  rw [htext, segments_cut]

theorem intercalate_segments_cut (word cs : List Char) :
    "/".intercalate (cut word cs).segments = String.ofList (word.reverse ++ cs) := by
  induction cs generalizing word with
  | nil => simp [cut, segments]
  | cons c cs ih =>
    by_cases hc : c = '/'
    · subst hc
      have hne : (cut [] cs).segments ≠ [] := by simp [segments]
      change "/".intercalate (String.ofList word.reverse :: (cut [] cs).segments) = _
      rw [String.intercalate_cons_of_ne_nil hne, ih, ← String.toList_inj]
      simp [String.toList_append]
    · have hcut : cut word (c :: cs) = cut (c :: word) cs := by simp [cut]
      rw [hcut, ih]
      simp

/-- A text is put together from its segments. -/
theorem intercalate_segments (text : String) : "/".intercalate (ofString text).segments = text := by
  unfold ofString
  rw [intercalate_segments_cut]
  simp

/-! ### Changes that do not count -/

theorem segments_of_isIdle {segment : String} (h : isIdle segment = true) :
    (ofString segment).segments = [segment] := by
  obtain rfl | rfl : segment = "" ∨ segment = "." := by simpa [isIdle] using h
  · rfl
  · rfl

theorem components_of_segments {p : Path} {first : String} {rest : List String}
    (h : p.segments = first :: rest) : p.components =
      ⟨first == "" && !rest.isEmpty, [first].filter (· != "") ++ rest.filter (!isIdle ·)⟩ := by
  rw [components, isAbsolute_of_segments h, names_of_segments h]

theorem components_of_idle {p q : Path} {first segment : String} {front back : List String}
    (hp : p.segments = first :: (front ++ segment :: back)) (hq : q.segments = first :: (front ++ back))
    (h : isIdle segment = true) (hroot : front ++ back = [] → first ≠ "") :
    p.components = q.components := by
  rw [components_of_segments hp, components_of_segments hq, Components.mk.injEq]
  constructor
  · cases hrest : front ++ back with
    | nil => simp [hroot hrest]
    | cons second rest => simp
  · simp [h]

theorem components_inner (front back : String) {segment : String} (h : isIdle segment = true) :
    (ofString (front ++ "/" ++ segment ++ "/" ++ back)).components =
      (ofString (front ++ "/" ++ back)).components := by
  obtain ⟨first, rest, hfront⟩ : ∃ first rest, (ofString front).segments = first :: rest :=
    List.exists_cons_of_ne_nil (by simp [segments])
  have hlong : (ofString (front ++ "/" ++ segment ++ "/" ++ back)).segments =
      first :: (rest ++ segment :: (ofString back).segments) := by
    rw [segments_slash, segments_slash, segments_of_isIdle h, hfront]
    simp
  have hshort : (ofString (front ++ "/" ++ back)).segments =
      first :: (rest ++ (ofString back).segments) := by
    rw [segments_slash, hfront, List.cons_append]
  exact components_of_idle hlong hshort h (by simp [segments])

theorem components_last {front segment : String} (hne : front ≠ "") (h : isIdle segment = true) :
    (ofString (front ++ "/" ++ segment)).components = (ofString front).components := by
  obtain ⟨first, rest, hfront⟩ : ∃ first rest, (ofString front).segments = first :: rest :=
    List.exists_cons_of_ne_nil (by simp [segments])
  have hlong : (ofString (front ++ "/" ++ segment)).segments = first :: (rest ++ [segment]) := by
    rw [segments_slash, segments_of_isIdle h, hfront, List.cons_append]
  refine components_of_idle hlong (by simpa using hfront) h ?_
  rintro hrest rfl
  obtain ⟨rfl, -⟩ := List.append_eq_nil_iff.mp hrest
  apply hne
  rw [← intercalate_segments front, hfront]
  rfl

theorem Respells.components_eq {text other : String} (h : Respells text other) :
    (ofString text).components = (ofString other).components := by
  cases h with
  | slash front back =>
    have htext : front ++ "//" ++ back = front ++ "/" ++ "" ++ "/" ++ back := by
      simp [← String.toList_inj]
    rw [htext]
    exact components_inner front back rfl
  | dot front back =>
    have htext : front ++ "/./" ++ back = front ++ "/" ++ "." ++ "/" ++ back := by
      simp [← String.toList_inj]
    rw [htext]
    exact components_inner front back rfl
  | lastSlash _ hne =>
    have h : (ofString (other ++ "/" ++ "")).components = (ofString other).components :=
      components_last hne rfl
    rwa [String.append_empty] at h
  | lastDot front =>
    by_cases hne : front = ""
    · subst hne
      rfl
    · have hdot : front ++ "/." = front ++ "/" ++ "." := by simp [← String.toList_inj]
      have hslash : front ++ "/" = front ++ "/" ++ "" := String.append_empty.symm
      rw [hdot, components_last hne rfl, hslash, components_last hne rfl]

/-! ### Plain spellings -/

/-- The shortest text of a path. -/
def Components.text (c : Components) : String :=
  (if c.isAbsolute then "/" else "") ++ "/".intercalate c.names

theorem Respells.append_segment {text other : String} (h : Respells text other) (segment : String) :
    EqvGen Respells (text ++ "/" ++ segment) (other ++ "/" ++ segment) := by
  have hassoc (front middle back : String) :
      front ++ middle ++ back ++ "/" ++ segment = front ++ middle ++ (back ++ "/" ++ segment) := by
    simp only [String.append_assoc]
  have hslashes (front : String) : EqvGen Respells (front ++ "/" ++ "/" ++ segment)
      (front ++ "/" ++ segment) := by
    have htext : front ++ "/" ++ "/" ++ segment = front ++ "//" ++ segment := by
      simp [← String.toList_inj]
    rw [htext]
    exact .rel _ _ (.slash front segment)
  cases h with
  | slash front back =>
    rw [hassoc, hassoc]
    exact .rel _ _ (.slash front _)
  | dot front back =>
    rw [hassoc, hassoc]
    exact .rel _ _ (.dot front _)
  | lastSlash _ _ => exact hslashes other
  | lastDot front =>
    have htext : front ++ "/." ++ "/" ++ segment = front ++ "/./" ++ segment := by
      simp [← String.toList_inj]
    rw [htext]
    exact (EqvGen.rel _ _ (.dot front segment)).trans _ _ _ (hslashes front).symm

theorem eqvGen_append_segment {text other : String} (h : EqvGen Respells text other)
    (segment : String) : EqvGen Respells (text ++ "/" ++ segment) (other ++ "/" ++ segment) := by
  induction h with
  | rel _ _ h => exact h.append_segment segment
  | refl => exact .refl _
  | symm _ _ _ ih => exact ih.symm
  | trans _ _ _ _ _ ih ih' => exact ih.trans _ _ _ ih'

theorem intercalate_cons_ne_empty {first : String} (h : first ≠ "") (rest : List String) :
    "/".intercalate (first :: rest) ≠ "" := by
  cases rest with
  | nil => rwa [String.intercalate_singleton]
  | cons second rest =>
    rw [String.intercalate_cons_cons]
    simp [String.append_eq_empty_iff, h]

/-- One more segment of a text that is not empty: an idle one goes, and another one stays. -/
theorem Components.eqvGen_text_concat {c : Components} (hne : c.text ≠ "") (segment : String) :
    EqvGen Respells (c.text ++ "/" ++ segment)
      (Components.mk c.isAbsolute (c.names ++ [segment].filter (!isIdle ·))).text := by
  cases hidle : isIdle segment with
  | true =>
    have hsame : [segment].filter (!isIdle ·) = [] := by simp [hidle]
    rw [hsame, List.append_nil]
    have hslash : EqvGen Respells (c.text ++ "/") c.text := .rel _ _ (.lastSlash _ hne)
    obtain rfl | rfl : segment = "" ∨ segment = "." := by simpa [isIdle] using hidle
    · rwa [String.append_empty]
    · have hdot : c.text ++ "/" ++ "." = c.text ++ "/." := by simp [← String.toList_inj]
      rw [hdot]
      exact (EqvGen.rel _ _ (.lastDot c.text)).trans _ _ _ hslash
  | false =>
    have hmore : [segment].filter (!isIdle ·) = [segment] := by simp [hidle]
    rw [hmore]
    unfold text
    cases hnames : c.names with
    | nil =>
      -- Nothing but the root, whose slash is there already.
      have habs : c.isAbsolute = true := by
        by_contra habs
        exact hne (by simp [text, habs, hnames])
      have htext : "/" ++ "/" ++ segment = "" ++ "//" ++ segment := by simp
      simpa [habs, htext] using EqvGen.rel _ _ (Respells.slash "" segment)
    | cons first rest =>
      rw [String.intercalate_append_of_ne_nil (by simp) (by simp)]
      simp only [String.append_assoc, String.intercalate_singleton]
      exact .refl _

theorem exists_segments {p : Path} (h : p ≠ empty) :
    ∃ first rest, p.segments = first :: rest ∧ (rest = [] → first ≠ "") := by
  obtain ⟨init, last⟩ := p
  cases init with
  | nil =>
    refine ⟨last, [], rfl, ?_⟩
    rintro - rfl
    exact h rfl
  | cons first rest => exact ⟨first, rest ++ [last], rfl, by simp⟩

theorem Components.text_ne_empty {p : Path} (h : p ≠ empty) : p.components.text ≠ "" := by
  obtain ⟨first, rest, hsegments, hroot⟩ := exists_segments h
  rw [components_of_segments hsegments]
  by_cases hfirst : first = ""
  · have hrest : rest ≠ [] := fun hnil => hroot hnil hfirst
    simp [text, String.append_eq_empty_iff, hfirst, hrest]
  · have hname : [first].filter (· != "") = [first] := by simp [hfirst]
    rw [text, hname, List.singleton_append]
    simp [String.append_eq_empty_iff, intercalate_cons_ne_empty hfirst]

theorem components_concat {init : List String} {middle : String} (h : Path.mk init middle ≠ empty)
    (last : String) : (Path.mk (init ++ [middle]) last).components =
      ⟨(Path.mk init middle).components.isAbsolute,
        (Path.mk init middle).components.names ++ [last].filter (!isIdle ·)⟩ := by
  obtain ⟨first, rest, hfront, hroot⟩ := exists_segments h
  have hsegments : (Path.mk (init ++ [middle]) last).segments = first :: (rest ++ [last]) := by
    rw [← List.cons_append, ← hfront]
    rfl
  rw [components_of_segments hfront, components_of_segments hsegments, List.filter_append,
    List.append_assoc]
  congr 1
  cases rest with
  | nil => simp [hroot rfl]
  | cons second rest => rfl

/-- Every text has a spelling that depends on the components alone. -/
theorem eqvGen_text (p : Path) :
    EqvGen Respells ("/".intercalate p.segments) p.components.text := by
  obtain ⟨init, last⟩ := p
  induction init using List.reverseRecOn generalizing last with
  | nil =>
    have htext : (Path.mk [] last).components.text = last := by
      rw [components_of_segments (p := ⟨[], last⟩) rfl]
      by_cases hlast : last = "" <;> simp [Components.text, hlast]
    rw [htext]
    exact .refl _
  | append_singleton init middle ih =>
    have hwhole : "/".intercalate (Path.mk (init ++ [middle]) last).segments =
        "/".intercalate (Path.mk init middle).segments ++ "/" ++ last := by
      rw [← String.intercalate_singleton (s := "/") (t := last),
        ← String.intercalate_append_of_ne_nil (by simp [segments]) (by simp)]
      rfl
    rw [hwhole]
    refine (eqvGen_append_segment (ih middle) last).trans _ _ _ ?_
    by_cases hempty : Path.mk init middle = empty
    · -- The empty text is relative, but with a slash behind it the root.
      cases hempty
      cases hidle : isIdle last with
      | true =>
        obtain rfl | rfl : last = "" ∨ last = "." := by simpa [isIdle] using hidle
        · exact .refl _
        · exact .rel _ _ (.lastDot "")
      | false =>
        have htext : (Path.mk [""] last).components.text = "/" ++ last := by
          rw [components_of_segments (p := ⟨[""], last⟩) rfl]
          simp [Components.text, hidle]
        rw [List.nil_append, htext]
        exact .refl _
    · rw [components_concat hempty]
      exact Components.eqvGen_text_concat (Components.text_ne_empty hempty) last

/-- Two texts are the same path exactly when they differ by slashes and dots that do not count. -/
theorem components_eq_iff (text other : String) :
    (ofString text).components = (ofString other).components ↔ EqvGen Respells text other := by
  constructor
  · intro h
    have htext := eqvGen_text (ofString text)
    have hother := eqvGen_text (ofString other)
    rw [intercalate_segments] at htext hother
    rw [h] at htext
    exact htext.trans _ _ _ hother.symm
  · intro h
    induction h with
    | rel _ _ h => exact h.components_eq
    | refl => rfl
    | symm _ _ _ ih => exact ih.symm
    | trans _ _ _ _ _ ih ih' => exact ih.trans ih'

end Path

end WorkflowAnalysis
