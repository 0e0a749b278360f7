import WorkflowAnalysis.Files.Resolution
import WorkflowAnalysis.Proofs.Records.MemberOrder

/-! What a manifest says of its package: of all its members only the one named `main` is read. It comes at
most once and holds a text or nothing; the others may hold anything. -/
namespace WorkflowAnalysis

open Json RecordShape

/-- What may stand for a main file: a text, or nothing at all. -/
inductive StandsForMain : Json → Option String → Prop
  | null : StandsForMain .null none
  | text (main : String) : StandsForMain (.text (some main)) (some main)

/-- A member has a name, and it is not `main`. -/
def Json.Member.IsBesideMain (member : Member) : Prop :=
  ∃ name, nameOf member.key = some name ∧ name ≠ "main"

/-- What the text of a manifest says of the main file. A manifest may also be an array with that as its
only item. -/
inductive ManifestMain (text : String) : Option String → Prop
  | unnamed {members : List Member} (object : ObjectText text.toList members)
      (others : ∀ member ∈ members, member.IsBesideMain) : ManifestMain text none
  | named {before after : List Member} {member : Member} {main : Option String}
      (object : ObjectText text.toList (before ++ member :: after))
      (key : nameOf member.key = some "main")
      (value : StandsForMain (valueOf member.value) main)
      (others : ∀ other ∈ before ++ after, other.IsBesideMain) : ManifestMain text main
  | empty (array : ArrayText text.toList []) : ManifestMain text none
  | item {piece : List Char} {main : Option String} (array : ArrayText text.toList [piece])
      (value : StandsForMain (valueOf piece) main) : ManifestMain text main

theorem standsForMain_iff {value : Json} {main : Option String} :
    optionalString value = .ok main ↔ StandsForMain value main := by
  constructor
  · intro h
    unfold optionalString Decoder.optional at h
    split at h
    · cases h
      exact .null
    · obtain ⟨name, hname, hmain⟩ := (bind_eq_ok (f := fun name => .ok (some name))).mp h
      unfold Decoder.string at hname
      split at hname <;> cases hname
      cases hmain
      exact .text _
  · rintro (_ | _) <;> rfl

/-! ### Members -/

theorem packageShape_follows : packageShape.Follows [("main", .leaf)] where
  fits := .cons ⟨rfl, Field.fits_slot Decoder.fits_optionalString⟩ .nil
  keeps := by simp [packageShape, Field.keeps_slot]
  apart := by simp [packageShape]

/-- A member under the name `main` is taken, once; any other one is passed over. -/
theorem addMember_package_iff {draft after : PackageDraft} {member : Member}
    (hv : IsValue member.value) :
    packageShape.addMember draft member.entry = .ok after ↔
      (nameOf member.key = some "main" ∧ draft.main = none ∧
        ∃ main, StandsForMain (valueOf member.value) main ∧ after = ⟨some main⟩) ∨
      member.IsBesideMain ∧ after = draft := by
  rw [addMember_eq_ok]
  constructor
  · rintro ⟨name, hname, ⟨field, hfield, hset, hfill⟩ | ⟨hnone, -, rfl⟩⟩
    · obtain rfl := List.mem_singleton.mp (List.mem_of_find?_eq_some hfield)
      obtain rfl : "main" = name := by simpa [Field.slot] using List.find?_some hfield
      obtain ⟨main, hmain, rfl⟩ := Field.slot_fill_eq_ok.mp hfill
      exact .inl ⟨hname, by simpa [Field.slot] using hset, main, standsForMain_iff.mp hmain, rfl⟩
    · have hne : ¬ "main" = name := by simpa [packageShape, Field.slot] using hnone
      exact .inr ⟨⟨name, hname, Ne.symm hne⟩, rfl⟩
  · rintro (⟨hname, hfree, main, hmain, rfl⟩ | ⟨⟨name, hname, hne⟩, rfl⟩)
    · refine ⟨"main", hname, .inl ⟨_, rfl, by simp [Field.slot, hfree], ?_⟩⟩
      exact Field.slot_fill_eq_ok.mpr ⟨main, standsForMain_iff.mpr hmain, rfl⟩
    · refine ⟨name, hname, .inr ⟨?_, (isValue_iff.mp hv).2, rfl⟩⟩
      simp [packageShape, Field.slot, hne.symm]

section Gathers

variable {draft after : PackageDraft} {members : List Member}

theorem gathers_beside (hv : ∀ member ∈ members, IsValue member.value)
    (hb : ∀ member ∈ members, member.IsBesideMain) :
    packageShape.Gathers draft (members.map Member.entry) draft := by
  induction members with
  | nil => exact gathers_nil.mpr rfl
  | cons member members ih =>
    rw [List.forall_mem_cons] at hv hb
    exact gathers_cons.mpr
      ⟨draft, (addMember_package_iff hv.1).mpr (.inr ⟨hb.1, rfl⟩), ih hv.2 hb.2⟩

/-- Once a main file is known, a second member of that name is refused. -/
theorem beside_of_gathers (hv : ∀ member ∈ members, IsValue member.value) (hd : draft.main ≠ none)
    (h : packageShape.Gathers draft (members.map Member.entry) after) :
    (∀ member ∈ members, member.IsBesideMain) ∧ after = draft := by
  induction members with
  | nil => exact ⟨List.forall_mem_nil _, (gathers_nil.mp h).symm⟩
  | cons member members ih =>
    rw [List.forall_mem_cons] at hv
    obtain ⟨next, hadd, hrest⟩ := gathers_cons.mp h
    obtain ⟨-, hfree, -⟩ | ⟨hbeside, rfl⟩ := (addMember_package_iff hv.1).mp hadd
    · exact absurd hfree hd
    · obtain ⟨hothers, rfl⟩ := ih hv.2 hrest
      exact ⟨List.forall_mem_cons.mpr ⟨hbeside, hothers⟩, rfl⟩

theorem manifestMain_of_gathers {text : String} (before : List Member)
    (object : ObjectText text.toList (before ++ members))
    (hb : ∀ member ∈ before, member.IsBesideMain)
    (h : packageShape.Gathers {} (members.map Member.entry) after) :
    ManifestMain text after.main.join := by
  induction members generalizing before with
  | nil =>
    obtain rfl := gathers_nil.mp h
    exact .unnamed object (by simpa using hb)
  | cons member members ih =>
    have hv := fun other ho => object.values other (List.mem_append_right before ho)
    rw [List.forall_mem_cons] at hv
    obtain ⟨next, hadd, hrest⟩ := gathers_cons.mp h
    obtain ⟨hname, -, main, hmain, rfl⟩ | ⟨hbeside, rfl⟩ := (addMember_package_iff hv.1).mp hadd
    · obtain ⟨hothers, rfl⟩ := beside_of_gathers hv.2 (by simp) hrest
      exact .named object hname hmain (List.forall_mem_append.mpr ⟨hb, hothers⟩)
    · refine ih (before ++ [member]) (by simpa using object) ?_ hrest
      simpa [or_imp, forall_and] using ⟨hb, hbeside⟩

end Gathers

/-! ### Texts -/

variable {text : String} {main : Option String}

theorem decode_package_object {members : List Member} (object : ObjectText text.toList members) :
    packageShape.decode.ofText text = .ok main ↔
      ∃ draft, packageShape.Gathers {} (members.map Member.entry) draft ∧ draft.main.join = main := by
  rw [Decoder.ofText_of_isValue object.isValue, object.valueOf_eq, decode_object_eq_ok]
  simp [packageShape]

theorem decode_package_array {pieces : List (List Char)} (array : ArrayText text.toList pieces) :
    packageShape.decode.ofText text = .ok main ↔
      ∃ draft, addItems {} packageShape.fields (pieces.map valueOf) = .ok draft ∧
        draft.main.join = main := by
  rw [Decoder.ofText_of_isValue array.isValue, array.valueOf_eq, decode_array_eq_ok]
  simp [packageShape]

theorem decode_package_iff :
    packageShape.decode.ofText text = .ok main ↔ ManifestMain text main := by
  constructor
  · intro h
    obtain ⟨members, object⟩ | ⟨pieces, array⟩ :=
      packageShape_follows.ignoresEdits.parts text main h
    · obtain ⟨draft, hg, rfl⟩ := (decode_package_object object).mp h
      exact manifestMain_of_gathers [] object (List.forall_mem_nil _) hg
    · obtain ⟨draft, hitems, rfl⟩ := (decode_package_array array).mp h
      match pieces with
      | [] =>
        cases hitems
        exact .empty array
      | [piece] =>
        obtain ⟨next, hfill, hnext⟩ := bind_eq_ok.mp hitems
        cases hnext
        obtain ⟨main, hmain, rfl⟩ := Field.slot_fill_eq_ok.mp hfill
        exact .item array (standsForMain_iff.mp hmain)
      | _ :: _ :: _ =>
        obtain ⟨next, -, hnext⟩ := bind_eq_ok.mp hitems
        cases hnext
  · intro h
    cases h with
    | unnamed object others =>
      exact (decode_package_object object).mpr ⟨{}, gathers_beside object.values others, rfl⟩
    | @named before after member _ object key value others =>
      have hvalues := object.values
      rw [List.forall_mem_append, List.forall_mem_cons] at hvalues
      rw [List.forall_mem_append] at others
      refine (decode_package_object object).mpr ⟨⟨some main⟩, ?_, rfl⟩
      rw [List.map_append, List.map_cons]
      refine gathers_append.mpr ⟨{}, gathers_beside hvalues.1 others.1, gathers_cons.mpr ?_⟩
      exact ⟨⟨some main⟩,
        (addMember_package_iff hvalues.2.1).mpr (.inl ⟨key, rfl, main, value, rfl⟩),
        gathers_beside hvalues.2.2 others.2⟩
    | empty array => exact (decode_package_array array).mpr ⟨{}, rfl, rfl⟩
    | item array value =>
      refine (decode_package_array array).mpr ⟨⟨some main⟩, ?_, rfl⟩
      exact bind_eq_ok.mpr ⟨_, Field.slot_fill_eq_ok.mpr ⟨main, standsForMain_iff.mpr value, rfl⟩, rfl⟩

theorem ManifestMain.unique {other : Option String} (h : ManifestMain text main)
    (h' : ManifestMain text other) : main = other :=
  Except.ok.inj ((decode_package_iff.mpr h).symm.trans (decode_package_iff.mpr h'))

def mainMember : Member := ⟨"\"main\"".toList, "\"lib/entry\"".toList⟩

def mainManifest : String := "\x7b\"main\":\"lib/entry\"\x7d"

theorem manifestMain_mainManifest : ManifestMain mainManifest (some "lib/entry") := by
  have key : IsKey mainMember.key :=
    .quoted blank_nil (isText_of_plain "main".toList (by simp)) blank_nil
  have text : IsValue mainMember.value := .text (isText_of_plain "lib/entry".toList (by simp))
  have object : ObjectText mainManifest.toList ([] ++ mainMember :: []) :=
    objectText_singleton key text
  have value : optionalString (valueOf mainMember.value) = .ok (some "lib/entry") := by
    decide +kernel
  exact .named object (by decide +kernel) (standsForMain_iff.mp value) (List.forall_mem_nil _)

end WorkflowAnalysis
