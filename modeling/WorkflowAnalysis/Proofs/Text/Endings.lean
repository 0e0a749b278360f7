import Mathlib.Data.List.Basic
import Mathlib.Data.List.Induction
import WorkflowAnalysis.Files.Tree

/-! The ends of texts and of their bytes. A byte below 128 is a character by itself and a part of no other,
so a text ends in such characters exactly when its bytes end in theirs. -/
namespace WorkflowAnalysis

/-! ### One character -/

theorem eq_nil_of_utf8EncodeChar_eq_concat {c : Char} {front : List UInt8} {byte : UInt8}
    (h : String.utf8EncodeChar c = front ++ [byte]) (hb : byte < 128) : front = [] := by
  have hlast : (String.utf8EncodeChar c).getLast? = some byte := by rw [h, List.getLast?_concat]
  -- What follows the leading byte carries six bits and the mark 128.
  have hfollows (n : Nat) : ¬ UInt8.ofNat (n % 64 + 128) < 128 := by
    rw [UInt8.not_lt, UInt8.le_iff_toNat_le, UInt8.toNat_ofNat_of_lt' (by change _ < 256; omega)]
    exact Nat.le_add_left 128 _
  unfold String.utf8EncodeChar at h hlast
  dsimp only at h hlast
  split_ifs at h hlast
  · exact List.eq_nil_of_length_eq_zero (by simpa using (congrArg List.length h).symm)
  all_goals
    rw [← Option.some.inj hlast] at hb
    exact absurd hb (hfollows _)

theorem utf8EncodeChar_of_lt {c : Char} (h : c.toNat < 128) :
    String.utf8EncodeChar c = [c.val.toUInt8] ∧ c.val.toUInt8 < 128 := by
  constructor
  · apply String.utf8EncodeChar_eq_singleton
    rw [Char.utf8Size_eq_one_iff, UInt32.le_iff_toNat_le]
    exact Nat.le_of_lt_succ h
  · rw [UInt8.lt_iff_toNat_lt, UInt32.toNat_toUInt8]
    exact Nat.lt_of_le_of_lt (Nat.mod_le _ _) h

/-! ### Texts -/

theorem utf8Bytes_eq_flatMap (text : String) :
    utf8Bytes text = text.toList.flatMap String.utf8EncodeChar := by
  have h : text.toUTF8 = text.toList.utf8Encode := by
    rw [String.toUTF8_eq_toByteArray, ← String.toByteArray_ofList, String.ofList_toList]
  rw [utf8Bytes, h, List.utf8Encode]
  simp

theorem FileName.ofText_injective : Function.Injective ofText := by
  intro text other h
  have hsome := congrArg text? h
  rw [text?_ofText, text?_ofText] at hsome
  exact Option.some.inj hsome

theorem utf8EncodeChar_injective : Function.Injective String.utf8EncodeChar := by
  intro c d h
  have hbytes : utf8Bytes (String.ofList [c]) = utf8Bytes (String.ofList [d]) := by
    simpa [utf8Bytes_eq_flatMap] using h
  have htext := FileName.ofText_injective (congrArg FileName.mk hbytes)
  exact List.singleton_inj.mp (String.ofList_injective htext)

theorem suffix_of_flatMap_utf8EncodeChar {cs ending : List Char} {stem : List UInt8}
    (hplain : ∀ c ∈ ending, c.toNat < 128)
    (h : cs.flatMap String.utf8EncodeChar = stem ++ ending.flatMap String.utf8EncodeChar) :
    ending <:+ cs := by
  induction ending using List.reverseRecOn generalizing cs stem with
  | nil => exact List.nil_suffix
  | append_singleton ending last ih =>
    obtain ⟨hlast, hbyte⟩ := utf8EncodeChar_of_lt (hplain last (by simp))
    rw [List.flatMap_append, List.flatMap_singleton, ← List.append_assoc] at h
    obtain rfl | ⟨cs, c, rfl⟩ := List.eq_nil_or_concat' cs
    · simp [hlast] at h
    · rw [List.flatMap_append, List.flatMap_singleton] at h
      -- The last characters have one last byte, so both are this byte.
      obtain hnil | ⟨front, byte, hc⟩ := List.eq_nil_or_concat' (String.utf8EncodeChar c)
      · exact absurd hnil String.utf8EncodeChar_ne_nil
      · have hfront : front = [] := by
          rw [hlast, hc, ← List.append_assoc] at h
          obtain rfl := List.singleton_inj.mp (List.append_inj' h rfl).2
          exact eq_nil_of_utf8EncodeChar_eq_concat hc hbyte
        rw [hfront, List.nil_append] at hc
        obtain ⟨hrest, hsame⟩ := List.append_inj' h (by rw [hc, hlast]; rfl)
        obtain rfl := utf8EncodeChar_injective hsame
        obtain ⟨before, rfl⟩ := ih (fun d hd => hplain d (by simp [hd])) hrest
        exact ⟨before, by simp⟩

theorem suffix_utf8Bytes_iff {name ending : String} (hplain : ∀ c ∈ ending.toList, c.toNat < 128) :
    utf8Bytes ending <:+ utf8Bytes name ↔ ending.toList <:+ name.toList := by
  rw [utf8Bytes_eq_flatMap, utf8Bytes_eq_flatMap]
  constructor
  · rintro ⟨stem, h⟩
    exact suffix_of_flatMap_utf8EncodeChar hplain h.symm
  · rintro ⟨stem, h⟩
    rw [← h, List.flatMap_append]
    exact List.suffix_append _ _

end WorkflowAnalysis
