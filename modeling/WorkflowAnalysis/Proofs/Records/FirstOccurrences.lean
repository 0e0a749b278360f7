import Mathlib.Data.List.Induction
import Mathlib.Data.List.Sort

/-! First occurrences in a list. Records list every dependency once, where it comes up first; this says
what that means by the places of the list alone, and that dropping repetitions does it. -/
namespace WorkflowAnalysis

variable {α β : Type}

/-- `kept` is the part of `all` that stands at the places with nothing equal before them. -/
def FirstOccurrences (all kept : List α) : Prop :=
  ∃ places : List Nat, places.Pairwise (· < ·) ∧ places.map (all[·]?) = kept.map some ∧
    ∀ place item, all[place]? = some item → (place ∈ places ↔ item ∉ all.take place)

theorem getElem?_of_mem_places {all kept : List α} {places : List Nat}
    (h : places.map (all[·]?) = kept.map some) {place : Nat} (hm : place ∈ places) :
    ∃ item ∈ kept, all[place]? = some item := by
  have hmap : all[place]? ∈ kept.map some := by
    rw [← h]
    exact List.mem_map.mpr ⟨place, hm, rfl⟩
  obtain ⟨item, hitem, he⟩ := List.mem_map.mp hmap
  exact ⟨item, hitem, he.symm⟩

namespace FirstOccurrences

theorem nil : FirstOccurrences ([] : List α) [] :=
  ⟨[], List.Pairwise.nil, rfl, by simp⟩

/-- The places of a list go on to be those of a longer one. -/
theorem places_concat {all kept : List α} {places : List Nat} (item : α)
    (h : places.map (all[·]?) = kept.map some) :
    (∀ place ∈ places, place < all.length) ∧
      places.map ((all ++ [item])[·]?) = kept.map some := by
  have hlt (place : Nat) (hm : place ∈ places) : place < all.length := by
    obtain ⟨_, -, he⟩ := getElem?_of_mem_places h hm
    exact (List.getElem?_eq_some_iff.mp he).1
  refine ⟨hlt, ?_⟩
  rw [← h]
  apply List.map_congr_left
  intro place hm
  exact List.getElem?_append_left (hlt place hm)

theorem place_cases {all : List α} {item other : α} {place : Nat}
    (h : (all ++ [item])[place]? = some other) :
    (place < all.length ∧ all[place]? = some other ∧ (all ++ [item]).take place = all.take place) ∨
      place = all.length ∧ other = item ∧ (all ++ [item]).take place = all := by
  obtain hp | rfl | hp := Nat.lt_trichotomy place all.length
  · rw [List.getElem?_append_left hp] at h
    exact .inl ⟨hp, h, List.take_append_of_le_length hp.le⟩
  · rw [List.getElem?_concat_length] at h
    exact .inr ⟨rfl, (Option.some.inj h).symm, List.take_left⟩
  · have hnone : (all ++ [item])[place]? = none := by simp; omega
    rw [hnone] at h
    cases h

theorem concat_of_mem {all kept : List α} {item : α} (h : FirstOccurrences all kept)
    (hm : item ∈ all) : FirstOccurrences (all ++ [item]) kept := by
  obtain ⟨places, hsorted, hmap, hiff⟩ := h
  obtain ⟨hlt, hmap'⟩ := places_concat item hmap
  refine ⟨places, hsorted, hmap', ?_⟩
  intro place other he
  obtain ⟨-, he, ht⟩ | ⟨rfl, rfl, ht⟩ := place_cases he
  · rw [ht]
    exact hiff place other he
  · have hout : all.length ∉ places := fun hin => (hlt _ hin).false
    rw [ht]
    simp [hout, hm]

theorem concat_of_not_mem {all kept : List α} {item : α} (h : FirstOccurrences all kept)
    (hm : item ∉ all) : FirstOccurrences (all ++ [item]) (kept ++ [item]) := by
  obtain ⟨places, hsorted, hmap, hiff⟩ := h
  obtain ⟨hlt, hmap'⟩ := places_concat item hmap
  refine ⟨places ++ [all.length], ?_, ?_, ?_⟩
  · rw [List.pairwise_append]
    refine ⟨hsorted, List.pairwise_singleton _ _, ?_⟩
    intro place hp last hlast
    rw [List.mem_singleton.mp hlast]
    exact hlt place hp
  · simp [hmap']
  · intro place other he
    obtain ⟨hp, he, ht⟩ | ⟨rfl, rfl, ht⟩ := place_cases he
    · rw [ht, ← hiff place other he]
      simp [hp.ne]
    · rw [ht]
      simp [hm]

theorem unique {all kept other : List α} (h : FirstOccurrences all kept)
    (h' : FirstOccurrences all other) : kept = other := by
  obtain ⟨places, hsorted, hmap, hiff⟩ := h
  obtain ⟨places', hsorted', hmap', hiff'⟩ := h'
  have hplaces : places = places' := by
    apply hsorted.eq_of_mem_iff hsorted'
    intro place
    constructor
    · intro hm
      obtain ⟨item, -, he⟩ := getElem?_of_mem_places hmap hm
      exact (hiff' place item he).mpr ((hiff place item he).mp hm)
    · intro hm
      obtain ⟨item, -, he⟩ := getElem?_of_mem_places hmap' hm
      exact (hiff place item he).mpr ((hiff' place item he).mp hm)
  subst hplaces
  rw [hmap] at hmap'
  exact List.map_injective_iff.mpr (Option.some_injective α) hmap'

end FirstOccurrences

/-- Two lists in which the same items come up, for the first time in the same order. -/
def SameOrder (items others : List α) : Prop :=
  ∃ kept, FirstOccurrences items kept ∧ FirstOccurrences others kept

/-! ### Dropping repetitions -/

variable [BEq α] [LawfulBEq α] [BEq β] [LawfulBEq β]

theorem eraseDups_concat_of_mem {all : List α} {item : α} (h : item ∈ all) :
    (all ++ [item]).eraseDups = all.eraseDups := by
  simp [List.eraseDups_append, List.removeAll, h]

theorem eraseDups_concat_of_not_mem {all : List α} {item : α} (h : item ∉ all) :
    (all ++ [item]).eraseDups = all.eraseDups ++ [item] := by
  simp [List.eraseDups_append, List.removeAll, h, List.eraseDups_cons]

/-- Dropping repetitions keeps the first occurrences and nothing else. -/
theorem firstOccurrences_iff {all kept : List α} :
    FirstOccurrences all kept ↔ kept = all.eraseDups := by
  have hfirst : FirstOccurrences all all.eraseDups := by
    induction all using List.reverseRecOn with
    | nil => exact .nil
    | append_singleton all item ih =>
      by_cases hm : item ∈ all
      · rw [eraseDups_concat_of_mem hm]
        exact ih.concat_of_mem hm
      · rw [eraseDups_concat_of_not_mem hm]
        exact ih.concat_of_not_mem hm
  constructor
  · intro h
    exact h.unique hfirst
  · rintro rfl
    exact hfirst

theorem nodup_eraseDups (all : List α) : all.eraseDups.Nodup := by
  induction all using List.reverseRecOn with
  | nil => exact List.nodup_nil
  | append_singleton all item ih =>
    by_cases hm : item ∈ all
    · rwa [eraseDups_concat_of_mem hm]
    · rw [eraseDups_concat_of_not_mem hm, List.nodup_append]
      refine ⟨ih, by simp, ?_⟩
      rintro other ho _ hlast rfl
      rw [List.mem_singleton.mp hlast] at ho
      exact hm (List.mem_eraseDups.mp ho)

/-- What a function shows of a list comes up in the same order once repetitions are dropped. -/
theorem eraseDups_map_eraseDups (f : α → β) (all : List α) :
    (all.eraseDups.map f).eraseDups = (all.map f).eraseDups := by
  induction all using List.reverseRecOn with
  | nil => rfl
  | append_singleton all item ih =>
    by_cases hm : item ∈ all
    · rw [eraseDups_concat_of_mem hm, ih, List.map_append, List.map_singleton,
        eraseDups_concat_of_mem (List.mem_map_of_mem hm)]
    · rw [eraseDups_concat_of_not_mem hm, List.map_append, List.map_append, List.map_singleton]
      have hmem : f item ∈ all.eraseDups.map f ↔ f item ∈ all.map f := by simp
      by_cases hf : f item ∈ all.map f
      · rw [eraseDups_concat_of_mem hf, eraseDups_concat_of_mem (hmem.mpr hf), ih]
      · rw [eraseDups_concat_of_not_mem hf, eraseDups_concat_of_not_mem (mt hmem.mp hf), ih]

theorem SameOrder.of_map_eq {f : α → β} {items others : List α}
    (h : items.map f = others.map f) :
    SameOrder (items.eraseDups.map f) (others.eraseDups.map f) := by
  have hothers : (others.eraseDups.map f).eraseDups = (items.eraseDups.map f).eraseDups := by
    rw [eraseDups_map_eraseDups, eraseDups_map_eraseDups, h]
  exact ⟨_, firstOccurrences_iff.mpr rfl, firstOccurrences_iff.mpr hothers.symm⟩

end WorkflowAnalysis
