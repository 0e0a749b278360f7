import Mathlib.Data.List.Forall2
import Mathlib.Data.List.Pairwise
import Mathlib.Logic.Relation
import WorkflowAnalysis.Proofs.Json.Spelling
import WorkflowAnalysis.Records.Component
import WorkflowAnalysis.Records.Vocabulary

/-! What of a text does not matter to the record it stands for: the order of the members, and members that
the record has no field for, in every record inside it. Fields are gathered into slots that do not overlap,
so two members that come one after the other may change places; everything else follows from that. -/
namespace WorkflowAnalysis

open Json

theorem bind_eq_ok {ε α β : Type} {x : Except ε α} {f : α → Except ε β} {b : β} :
    x >>= f = .ok b ↔ ∃ a, x = .ok a ∧ f a = .ok b := by
  cases x with
  | error problem => simp [bind, Except.bind]
  | ok a => simp [bind, Except.bind]

/-! ### Edits -/

/-- What a decoder looks for: where there are records, and under which keys they have which parts. -/
inductive Layout where
  | leaf
  | list (items : Layout)
  | record (fields : List (String × Layout))

/-- A key does not spell the name of a field. It may spell no name at all. -/
def NamesNoField (fields : List (String × Layout)) (key : List Char) : Prop :=
  ∀ name, nameOf key = some name → fields.lookup name = none

def NamesOther (fields : List (String × Layout)) (key : List Char) : Prop :=
  ∃ name, nameOf key = some name ∧ fields.lookup name = none

/-- One change of a text in a record of its layout: members change places, or they come and go under keys
that are admitted beside its fields. -/
inductive Edit (Admits : List (String × Layout) → List Char → Prop) :
    Layout → List Char → List Char → Prop
  | permute {fields : List (String × Layout)} {cs cs' : List Char} {members members' : List Member}
      (h : ObjectText cs members) (h' : ObjectText cs' members') (hp : members.Perm members') :
      Edit Admits (.record fields) cs cs'
  /-- A member is added under an admitted key, whatever its value. -/
  | insert {fields : List (String × Layout)} {cs cs' : List Char} {before after : List Member}
      {member : Member} (h : ObjectText cs (before ++ after))
      (h' : ObjectText cs' (before ++ member :: after)) (hk : Admits fields member.key) :
      Edit Admits (.record fields) cs cs'
  | delete {fields : List (String × Layout)} {cs cs' : List Char} {before after : List Member}
      {member : Member} (h : ObjectText cs (before ++ member :: after))
      (h' : ObjectText cs' (before ++ after)) (hk : Admits fields member.key) :
      Edit Admits (.record fields) cs cs'
  | value {fields : List (String × Layout)} {cs cs' : List Char} {before after : List Member}
      {key part part' : List Char} {name : String} {layout : Layout}
      (h : ObjectText cs (before ++ ⟨key, part⟩ :: after))
      (h' : ObjectText cs' (before ++ ⟨key, part'⟩ :: after)) (hn : nameOf key = some name)
      (hf : fields.lookup name = some layout) (he : Edit Admits layout part part') :
      Edit Admits (.record fields) cs cs'
  | item {layout : Layout} {cs cs' : List Char} {before after : List (List Char)}
      {piece piece' : List Char} (h : ArrayText cs (before ++ piece :: after))
      (h' : ArrayText cs' (before ++ piece' :: after)) (he : Edit Admits layout piece piece') :
      Edit Admits (.list layout) cs cs'
  /-- The value of a field is edited in a record that is given as an array of its fields. -/
  | position {fields : List (String × Layout)} {cs cs' : List Char} {before after : List (List Char)}
      {piece piece' : List Char} {name : String} {layout : Layout}
      (h : ArrayText cs (before ++ piece :: after)) (h' : ArrayText cs' (before ++ piece' :: after))
      (hf : fields[before.length]? = some (name, layout)) (he : Edit Admits layout piece piece') :
      Edit Admits (.record fields) cs cs'

section Edit

variable {Admits : List (String × Layout) → List Char → Prop} {layout : Layout} {cs cs' : List Char}

theorem Edit.isValue_left (h : Edit Admits layout cs cs') : IsValue cs := by
  cases h with
  | permute h | insert h | delete h | value h => exact h.isValue
  | item h | position h => exact h.isValue

theorem Edit.isValue_right (h : Edit Admits layout cs cs') : IsValue cs' := by
  cases h with
  | permute _ h | insert _ h | delete _ h | value _ h => exact h.isValue
  | item _ h | position _ h => exact h.isValue

end Edit

/-! ### Decoders -/

/-- A decoder accepts only what is well formed, and makes the same of a text after an edit. -/
structure Decoder.Fits {α : Type} (decode : Decoder α) (layout : Layout) : Prop where
  strict : ∀ {value a}, decode value = .ok a → value.skip = none
  same : ∀ {cs cs' a}, Edit NamesOther layout cs cs' → decode (valueOf cs) = .ok a →
    decode (valueOf cs') = .ok a

namespace Decoder

theorem fits_string : string.Fits .leaf where
  strict := by
    intro value a h
    unfold string at h
    split at h
    · rfl
    · cases h
  same := by
    intro cs cs' a he
    cases he

theorem fits_optionalString : optionalString.Fits .leaf where
  strict := by
    intro value a h
    unfold optionalString optional at h
    split at h
    · rfl
    · obtain ⟨name, hname, -⟩ := (bind_eq_ok (f := fun name => .ok (some name))).mp h
      exact fits_string.strict hname
  same := by
    intro cs cs' a he
    cases he

variable {α : Type} {decode : Decoder α}

theorem skipItems_of_mapM (hs : ∀ {value a}, decode value = .ok a → value.skip = none)
    {items : List Json} {values : List α} (h : items.mapM decode = .ok values) :
    skipItems items = none := by
  induction items generalizing values with
  | nil => rfl
  | cons item items ih =>
    rw [List.mapM_cons] at h
    obtain ⟨a, ha, h⟩ := bind_eq_ok.mp h
    obtain ⟨as, has, -⟩ := bind_eq_ok.mp h
    rw [skipItems, hs ha, ih has]
    rfl

theorem mapM_replace {before after : List Json} {item item' : Json} {values : List α}
    (hi : ∀ {a}, decode item = .ok a → decode item' = .ok a)
    (h : (before ++ item :: after).mapM decode = .ok values) :
    (before ++ item' :: after).mapM decode = .ok values := by
  induction before generalizing values with
  | nil =>
    rw [List.nil_append, List.mapM_cons] at h ⊢
    obtain ⟨a, ha, h⟩ := bind_eq_ok.mp h
    exact bind_eq_ok.mpr ⟨a, hi ha, h⟩
  | cons first before ih =>
    rw [List.cons_append, List.mapM_cons] at h ⊢
    obtain ⟨a, ha, h⟩ := bind_eq_ok.mp h
    obtain ⟨as, has, h⟩ := bind_eq_ok.mp h
    exact bind_eq_ok.mpr ⟨a, ha, bind_eq_ok.mpr ⟨as, ih has, h⟩⟩

theorem list_array_eq_ok {items : List Json} {ending : Option Problem} {values : List α} :
    list decode (.array items ending) = .ok values ↔
      items.mapM decode = .ok values ∧ ending = none := by
  rw [list, bind_eq_ok]
  cases ending <;> simp

theorem Fits.list {layout : Layout} (h : decode.Fits layout) :
    (Decoder.list decode).Fits (.list layout) where
  strict := by
    intro value values hv
    unfold Decoder.list at hv
    split at hv
    · next items ending =>
      obtain ⟨hitems, rfl⟩ := list_array_eq_ok.mp hv
      rw [skip, skipItems_of_mapM h.strict hitems]
      rfl
    · cases hv
  same := by
    intro cs cs' values he hv
    cases he with
    | item ht ht' he =>
      rw [ht.valueOf_eq, List.map_append, List.map_cons, list_array_eq_ok] at hv
      rw [ht'.valueOf_eq, List.map_append, List.map_cons, list_array_eq_ok]
      exact ⟨mapM_replace (h.same he) hv.1, rfl⟩

end Decoder

/-! ### Fields -/

namespace Field

variable {δ α β : Type}

/-- What a decoder is to a value, a field is to the draft it fills. -/
structure Fits (field : Field δ) (layout : Layout) : Prop where
  strict : ∀ {draft value after}, field.fill draft value = .ok after → value.skip = none
  same : ∀ {cs cs' draft after}, Edit NamesOther layout cs cs' →
    field.fill draft (valueOf cs) = .ok after → field.fill draft (valueOf cs') = .ok after

def Keeps (field : Field δ) : Prop :=
  ∀ {draft value after}, field.fill draft value = .ok after → field.isSet after = true

structure Avoids (field other : Field δ) : Prop where
  isSet : ∀ {draft value after}, field.fill draft value = .ok after →
    other.isSet after = other.isSet draft
  swap : ∀ {draft value otherValue next after}, field.fill draft value = .ok next →
    other.fill next otherValue = .ok after →
    ∃ first, other.fill draft otherValue = .ok first ∧ field.fill first value = .ok after

def Apart (field other : Field δ) : Prop := field.Avoids other ∧ other.Avoids field

instance : Std.Symm (α := Field δ) Apart := ⟨fun _ _ h => ⟨h.2, h.1⟩⟩

theorem slot_fill_eq_ok {key : String} {get : δ → Option α} {set : δ → α → δ} {decode : Decoder α}
    {draft after : δ} {value : Json} :
    (slot key get set decode).fill draft value = .ok after ↔
      ∃ a, decode value = .ok a ∧ set draft a = after := by
  simp only [slot]
  cases decode value with
  | error problem => simp [Functor.map, Except.map]
  | ok a => simp [Functor.map, Except.map]

theorem fits_slot {key : String} {get : δ → Option α} {set : δ → α → δ} {decode : Decoder α}
    {layout : Layout} (h : decode.Fits layout) : (slot key get set decode).Fits layout where
  strict := by
    intro draft value after hfill
    obtain ⟨a, ha, -⟩ := slot_fill_eq_ok.mp hfill
    exact h.strict ha
  same := by
    intro cs cs' draft after he hfill
    obtain ⟨a, ha, hset⟩ := slot_fill_eq_ok.mp hfill
    exact slot_fill_eq_ok.mpr ⟨a, h.same he ha, hset⟩

theorem keeps_slot {key : String} {get : δ → Option α} {set : δ → α → δ} {decode : Decoder α}
    (h : ∀ draft a, (get (set draft a)).isSome) : (slot key get set decode).Keeps := by
  intro draft value after hfill
  obtain ⟨a, -, rfl⟩ := slot_fill_eq_ok.mp hfill
  exact h draft a

theorem avoids_slot {key otherKey : String} {get : δ → Option α} {set : δ → α → δ}
    {decode : Decoder α} {otherGet : δ → Option β} {otherSet : δ → β → δ} {otherDecode : Decoder β}
    (hg : ∀ draft a, otherGet (set draft a) = otherGet draft)
    (hs : ∀ draft a b, otherSet (set draft a) b = set (otherSet draft b) a) :
    (slot key get set decode).Avoids (slot otherKey otherGet otherSet otherDecode) where
  isSet := by
    intro draft value after hfill
    obtain ⟨a, -, rfl⟩ := slot_fill_eq_ok.mp hfill
    simp only [slot, hg]
  swap := by
    intro draft value otherValue next after hfill hother
    obtain ⟨a, ha, rfl⟩ := slot_fill_eq_ok.mp hfill
    obtain ⟨b, hb, rfl⟩ := slot_fill_eq_ok.mp hother
    exact ⟨otherSet draft b, slot_fill_eq_ok.mpr ⟨b, hb, rfl⟩,
      slot_fill_eq_ok.mpr ⟨a, ha, (hs draft a b).symm⟩⟩

end Field

/-! ### Records -/

/-- The fields of a record are those of a layout, and they do not overlap. -/
structure RecordShape.Follows {δ α : Type} (shape : RecordShape δ α)
    (fields : List (String × Layout)) : Prop where
  fits : List.Forall₂ (fun field entry => field.key = entry.1 ∧ field.Fits entry.2) shape.fields fields
  keeps : ∀ field ∈ shape.fields, field.Keeps
  apart : shape.fields.Pairwise Field.Apart

namespace RecordShape

variable {δ α : Type} {shape : RecordShape δ α}

theorem addMember_eq_ok {draft after : δ} {entry : Option String × Json} :
    shape.addMember draft entry = .ok after ↔ ∃ name, entry.1 = some name ∧
      ((∃ field, shape.fields.find? (·.key == name) = some field ∧ field.isSet draft = false ∧
          field.fill draft entry.2 = .ok after) ∨
        shape.fields.find? (·.key == name) = none ∧ entry.2.skip = none ∧ after = draft) := by
  obtain ⟨_ | name, value⟩ := entry
  · simp [addMember]
  · simp only [addMember, Option.some.injEq, exists_eq_left']
    cases shape.fields.find? (·.key == name) with
    | none =>
      cases value.skip with
      | none => simpa using eq_comm
      | some problem => simp
    | some field => cases hset : field.isSet draft <;> simp [hset]

/-- Members that are added one after the other turn one draft into another. -/
def Gathers (shape : RecordShape δ α) (draft : δ) (entries : List (Option String × Json))
    (after : δ) : Prop :=
  entries.foldlM shape.addMember draft = .ok after

@[simp] theorem gathers_nil {draft after : δ} : shape.Gathers draft [] after ↔ draft = after := by
  simp [Gathers, pure, Except.pure]

theorem gathers_cons {draft after : δ} {entry : Option String × Json}
    {entries : List (Option String × Json)} :
    shape.Gathers draft (entry :: entries) after ↔
      ∃ next, shape.addMember draft entry = .ok next ∧ shape.Gathers next entries after := by
  rw [Gathers, List.foldlM_cons, bind_eq_ok]
  rfl

theorem gathers_append {draft after : δ} {entries others : List (Option String × Json)} :
    shape.Gathers draft (entries ++ others) after ↔
      ∃ next, shape.Gathers draft entries next ∧ shape.Gathers next others after := by
  rw [Gathers, List.foldlM_append, bind_eq_ok]
  rfl

theorem close_eq_ok {ending : Option Problem} {draft : δ} {record : α} :
    shape.close ending draft = .ok record ↔ ending = none ∧ shape.finish draft = some record := by
  unfold close
  split <;> simp_all

theorem decode_object_eq_ok {entries : List (Option String × Json)} {ending : Option Problem}
    {record : α} :
    shape.decode (.object entries ending) = .ok record ↔
      ∃ draft, shape.Gathers shape.start entries draft ∧ ending = none ∧
        shape.finish draft = some record := by
  rw [decode, bind_eq_ok]
  simp only [close_eq_ok, Gathers]

theorem decode_array_eq_ok {items : List Json} {ending : Option Problem} {record : α} :
    shape.decode (.array items ending) = .ok record ↔
      ∃ draft, addItems shape.start shape.fields items = .ok draft ∧ ending = none ∧
        shape.finish draft = some record := by
  rw [decode, bind_eq_ok]
  simp only [close_eq_ok]

namespace Follows

variable {fields : List (String × Layout)}

/-- A key is found among the fields if it is in the layout, and the field is laid out so. -/
theorem find?_lookup (h : shape.Follows fields) (name : String) :
    Option.Rel Field.Fits (shape.fields.find? (·.key == name)) (fields.lookup name) := by
  have hfits := h.fits
  generalize shape.fields = own at hfits
  clear h
  induction hfits with
  | nil => exact .none
  | @cons field entry own fields hentry _ ih =>
    obtain ⟨key, layout⟩ := entry
    obtain ⟨rfl, hfield⟩ := hentry
    rw [List.lookup_cons, List.find?_cons, Bool.beq_comm]
    split
    · exact .some hfield
    · exact ih

/-- Two members that come one after the other may change places. -/
theorem addMember_swap (h : shape.Follows fields) {draft next after : δ}
    {entry other : Option String × Json} (he : shape.addMember draft entry = .ok next)
    (ho : shape.addMember next other = .ok after) :
    ∃ first, shape.addMember draft other = .ok first ∧ shape.addMember first entry = .ok after := by
  simp only [addMember_eq_ok] at *
  obtain ⟨name, hname, ⟨field, hfield, hset, hfill⟩ | ⟨hnone, hskip, rfl⟩⟩ := he
  · obtain ⟨otherName, hotherName, ⟨second, hsecond, hotherSet, hotherFill⟩ | ⟨hnone, hskip, rfl⟩⟩ := ho
    · have hmem := List.mem_of_find?_eq_some hfield
      have hne : field ≠ second := by
        rintro rfl
        rw [h.keeps field hmem hfill] at hotherSet
        cases hotherSet
      obtain ⟨havoids, hother⟩ :=
        h.apart.forall hmem (List.mem_of_find?_eq_some hsecond) hne
      obtain ⟨first, hfirst, hlast⟩ := havoids.swap hfill hotherFill
      refine ⟨first, ⟨otherName, hotherName, .inl ⟨second, hsecond, ?_, hfirst⟩⟩,
        name, hname, .inl ⟨field, hfield, ?_, hlast⟩⟩
      · rw [← havoids.isSet hfill, hotherSet]
      · rw [hother.isSet hfirst, hset]
    · exact ⟨draft, ⟨otherName, hotherName, .inr ⟨hnone, hskip, rfl⟩⟩, name, hname,
        .inl ⟨field, hfield, hset, hfill⟩⟩
  · exact ⟨after, ho, name, hname, .inr ⟨hnone, hskip, rfl⟩⟩

theorem gathers_perm (h : shape.Follows fields) {entries others : List (Option String × Json)}
    (hp : entries.Perm others) {draft after : δ} (hg : shape.Gathers draft entries after) :
    shape.Gathers draft others after := by
  induction hp generalizing draft with
  | nil => exact hg
  | cons entry _ ih =>
    obtain ⟨next, hentry, hrest⟩ := gathers_cons.mp hg
    exact gathers_cons.mpr ⟨next, hentry, ih hrest⟩
  | swap entry other entries =>
    obtain ⟨next, hother, hrest⟩ := gathers_cons.mp hg
    obtain ⟨last, hentry, hrest⟩ := gathers_cons.mp hrest
    obtain ⟨first, hfirst, hlast⟩ := h.addMember_swap hother hentry
    exact gathers_cons.mpr ⟨first, hfirst, gathers_cons.mpr ⟨last, hlast, hrest⟩⟩
  | trans _ _ ih ih' => exact ih' (ih hg)

/-- A field is set only by the member that has its name. -/
theorem isSet_of_gathers (h : shape.Follows fields) {field : Field δ} (hf : field ∈ shape.fields)
    {entries : List (Option String × Json)} (hn : ∀ entry ∈ entries, entry.1 ≠ some field.key)
    {draft after : δ} (hg : shape.Gathers draft entries after) :
    field.isSet after = field.isSet draft := by
  induction entries generalizing draft with
  | nil => rw [gathers_nil.mp hg]
  | cons entry entries ih =>
    obtain ⟨next, hentry, hrest⟩ := gathers_cons.mp hg
    rw [ih (fun other ho => hn other (List.mem_cons_of_mem _ ho)) hrest]
    obtain ⟨name, hname, ⟨filled, hfilled, -, hfill⟩ | ⟨-, -, rfl⟩⟩ := addMember_eq_ok.mp hentry
    · have hne : filled ≠ field := by
        rintro rfl
        have hkey : filled.key = name := by simpa using List.find?_some hfilled
        exact hn entry List.mem_cons_self (by rw [hname, hkey])
      exact (h.apart.forall (List.mem_of_find?_eq_some hfilled) hf hne).1.isSet hfill
    · rfl

theorem skip_of_addMember (h : shape.Follows fields) {draft after : δ} {entry : Option String × Json}
    (he : shape.addMember draft entry = .ok after) : entry.2.skip = none := by
  obtain ⟨name, -, ⟨field, hfield, -, hfill⟩ | ⟨-, hskip, -⟩⟩ := addMember_eq_ok.mp he
  · have hfits := h.find?_lookup name
    rw [hfield] at hfits
    generalize fields.lookup name = layout at hfits
    cases hfits with
    | some hfits => exact hfits.strict hfill
  · exact hskip

theorem skipMembers_of_gathers (h : shape.Follows fields) {draft after : δ}
    {entries : List (Option String × Json)} (hg : shape.Gathers draft entries after) :
    skipMembers entries = none := by
  induction entries generalizing draft with
  | nil => rfl
  | cons entry entries ih =>
    obtain ⟨next, hentry, hrest⟩ := gathers_cons.mp hg
    rw [skipMembers, h.skip_of_addMember hentry, ih hrest]
    rfl

theorem gathers_insert (h : shape.Follows fields) {draft after : δ}
    {before others : List (Option String × Json)} {name : String} {value : Json}
    (hf : fields.lookup name = none) (hv : value.skip = none) :
    shape.Gathers draft (before ++ (some name, value) :: others) after ↔
      shape.Gathers draft (before ++ others) after := by
  have hfind := h.find?_lookup name
  rw [hf] at hfind
  generalize hfound : shape.fields.find? (·.key == name) = found at hfind
  cases hfind
  have hadd (draft after : δ) :
      shape.addMember draft (some name, value) = .ok after ↔ after = draft := by
    simp only [addMember_eq_ok, Option.some.injEq, exists_eq_left', hfound, hv, reduceCtorEq,
      false_and, exists_false, true_and, false_or]
  simp [gathers_append, gathers_cons, hadd]

theorem gathers_replace (h : shape.Follows fields) {draft after : δ}
    {before others : List (Option String × Json)} {name : String} {layout : Layout}
    {cs cs' : List Char} (hf : fields.lookup name = some layout) (he : Edit NamesOther layout cs cs')
    (hg : shape.Gathers draft (before ++ (some name, valueOf cs) :: others) after) :
    shape.Gathers draft (before ++ (some name, valueOf cs') :: others) after := by
  have hfind := h.find?_lookup name
  rw [hf] at hfind
  generalize hfound : shape.fields.find? (·.key == name) = found at hfind
  cases hfind with
  | @some field _ hfits =>
    obtain ⟨middle, hbefore, hrest⟩ := gathers_append.mp hg
    obtain ⟨next, hentry, hothers⟩ := gathers_cons.mp hrest
    refine gathers_append.mpr ⟨middle, hbefore, gathers_cons.mpr ⟨next, ?_, hothers⟩⟩
    simp only [addMember_eq_ok, hfound, Option.some.injEq, exists_eq_left', reduceCtorEq, false_and,
      or_false] at hentry ⊢
    exact ⟨hentry.1, hfits.same he hentry.2⟩

end Follows

/-! ### Records that are given as arrays -/

theorem skipItems_of_addItems {own : List (Field δ)} {fields : List (String × Layout)}
    (h : List.Forall₂ (fun field entry => field.key = entry.1 ∧ field.Fits entry.2) own fields)
    {draft after : δ} {items : List Json} (ha : addItems draft own items = .ok after) :
    skipItems items = none := by
  induction items generalizing draft own fields with
  | nil => rfl
  | cons item items ih =>
    cases h with
    | nil => cases ha
    | cons hfield hfields =>
      rw [addItems] at ha
      obtain ⟨next, hitem, hrest⟩ := bind_eq_ok.mp ha
      rw [skipItems, hfield.2.strict hitem, ih hfields hrest]
      rfl

theorem addItems_replace {own : List (Field δ)} {fields : List (String × Layout)}
    (h : List.Forall₂ (fun field entry => field.key = entry.1 ∧ field.Fits entry.2) own fields)
    {draft after : δ} {before others : List Json} {name : String} {layout : Layout}
    {cs cs' : List Char} (hf : fields[before.length]? = some (name, layout))
    (he : Edit NamesOther layout cs cs')
    (ha : addItems draft own (before ++ valueOf cs :: others) = .ok after) :
    addItems draft own (before ++ valueOf cs' :: others) = .ok after := by
  induction before generalizing draft own fields with
  | nil =>
    cases h with
    | nil => cases hf
    | cons hfield hfields =>
      cases hf
      rw [List.nil_append, addItems] at ha ⊢
      obtain ⟨next, hitem, hrest⟩ := bind_eq_ok.mp ha
      exact bind_eq_ok.mpr ⟨next, hfield.2.same he hitem, hrest⟩
  | cons item before ih =>
    cases h with
    | nil => cases hf
    | cons hfield hfields =>
      rw [List.cons_append, addItems] at ha ⊢
      obtain ⟨next, hitem, hrest⟩ := bind_eq_ok.mp ha
      exact bind_eq_ok.mpr ⟨next, hitem, ih hfields hf hrest⟩

/-- Texts of objects are told apart only by what is gathered from them. -/
theorem decode_of_gathers {cs cs' : List Char} {members members' : List Member}
    (ht : ObjectText cs members) (ht' : ObjectText cs' members')
    (hg : ∀ {draft}, shape.Gathers shape.start (members.map Member.entry) draft →
      shape.Gathers shape.start (members'.map Member.entry) draft) {record : α}
    (h : shape.decode (valueOf cs) = .ok record) : shape.decode (valueOf cs') = .ok record := by
  rw [ht.valueOf_eq, decode_object_eq_ok] at h
  rw [ht'.valueOf_eq, decode_object_eq_ok]
  obtain ⟨draft, hgathers, hfinish⟩ := h
  exact ⟨draft, hg hgathers, hfinish⟩

theorem Follows.fits_decode {fields : List (String × Layout)} (h : shape.Follows fields) :
    shape.decode.Fits (.record fields) where
  strict := by
    intro value record hv
    unfold decode at hv
    split at hv
    · next entries ending =>
      obtain ⟨draft, hg, rfl, -⟩ := decode_object_eq_ok.mp hv
      rw [skip, h.skipMembers_of_gathers hg]
      rfl
    · next items ending =>
      obtain ⟨draft, ha, rfl, -⟩ := decode_array_eq_ok.mp hv
      rw [skip, skipItems_of_addItems h.fits ha]
      rfl
    · cases hv
  same := by
    intro cs cs' record he
    cases he with
    | permute ht ht' hp =>
      apply decode_of_gathers ht ht'
      intro draft hg
      exact h.gathers_perm (hp.map Member.entry) hg
    | insert ht ht' hk =>
      obtain ⟨name, hn, hf⟩ := hk
      have hvalue := isValue_iff.mp (ht'.values _ (List.mem_append_right _ List.mem_cons_self))
      apply decode_of_gathers ht ht'
      intro draft hg
      rw [List.map_append] at hg
      rw [List.map_append, List.map_cons, Member.entry, hn]
      exact (h.gathers_insert hf hvalue.2).mpr hg
    | delete ht ht' hk =>
      obtain ⟨name, hn, hf⟩ := hk
      have hvalue := isValue_iff.mp (ht.values _ (List.mem_append_right _ List.mem_cons_self))
      apply decode_of_gathers ht ht'
      intro draft hg
      rw [List.map_append, List.map_cons, Member.entry, hn] at hg
      rw [List.map_append]
      exact (h.gathers_insert hf hvalue.2).mp hg
    | value ht ht' hn hf he =>
      apply decode_of_gathers ht ht'
      intro draft hg
      rw [List.map_append, List.map_cons, Member.entry, hn] at hg ⊢
      exact h.gathers_replace hf he hg
    | position ht ht' hf he =>
      intro hv
      rw [ht.valueOf_eq, List.map_append, List.map_cons, decode_array_eq_ok] at hv
      rw [ht'.valueOf_eq, List.map_append, List.map_cons, decode_array_eq_ok]
      obtain ⟨draft, ha, hfinish⟩ := hv
      exact ⟨draft, addItems_replace h.fits (by simpa using hf) he ha, hfinish⟩

end RecordShape

/-! ### Kinds of records -/

open Decoder

def Activity.fields : List (String × Layout) := [("name", .leaf), ("taskQueue", .leaf)]

def ChildWorkflow.fields : List (String × Layout) := [("name", .leaf), ("taskQueue", .leaf)]

def Workflow.fields : List (String × Layout) :=
  [("name", .leaf), ("activities", .list (.record Activity.fields)),
   ("childWorkflows", .list (.record ChildWorkflow.fields)), ("taskQueue", .leaf)]

def Components.fields : List (String × Layout) :=
  [("activities", .list (.record Activity.fields)), ("workflows", .list (.record Workflow.fields))]

def Manifest.fields : List (String × Layout) :=
  [("serviceName", .leaf), ("registryVersion", .leaf), ("components", .record Components.fields)]

def Vocabulary.fields : List (String × Layout) :=
  [("proxyFunctions", .list .leaf), ("childStartFunction", .leaf), ("reExportHelper", .leaf)]

theorem Activity.follows : Activity.shape.Follows Activity.fields where
  fits := .cons ⟨rfl, Field.fits_slot fits_string⟩ (.cons ⟨rfl, Field.fits_slot fits_optionalString⟩ .nil)
  keeps := by simp [Activity.shape, Field.keeps_slot]
  apart := by simp [Activity.shape, Field.Apart, Field.avoids_slot]

theorem ChildWorkflow.follows : ChildWorkflow.shape.Follows ChildWorkflow.fields where
  fits := .cons ⟨rfl, Field.fits_slot fits_optionalString⟩
    (.cons ⟨rfl, Field.fits_slot fits_optionalString⟩ .nil)
  keeps := by simp [ChildWorkflow.shape, Field.keeps_slot]
  apart := by simp [ChildWorkflow.shape, Field.Apart, Field.avoids_slot]

theorem Workflow.follows : Workflow.shape.Follows Workflow.fields where
  fits := .cons ⟨rfl, Field.fits_slot fits_optionalString⟩
    (.cons ⟨rfl, Field.fits_slot Activity.follows.fits_decode.list⟩
      (.cons ⟨rfl, Field.fits_slot ChildWorkflow.follows.fits_decode.list⟩
        (.cons ⟨rfl, Field.fits_slot fits_optionalString⟩ .nil)))
  keeps := by simp [Workflow.shape, Field.keeps_slot]
  apart := by simp [Workflow.shape, Field.Apart, Field.avoids_slot]

theorem Components.follows : Components.shape.Follows Components.fields where
  fits := .cons ⟨rfl, Field.fits_slot Activity.follows.fits_decode.list⟩
    (.cons ⟨rfl, Field.fits_slot Workflow.follows.fits_decode.list⟩ .nil)
  keeps := by simp [Components.shape, Field.keeps_slot]
  apart := by simp [Components.shape, Field.Apart, Field.avoids_slot]

theorem Manifest.follows : Manifest.shape.Follows Manifest.fields where
  fits := .cons ⟨rfl, Field.fits_slot fits_string⟩
    (.cons ⟨rfl, Field.fits_slot fits_string⟩
      (.cons ⟨rfl, Field.fits_slot Components.follows.fits_decode⟩ .nil))
  keeps := by simp [Manifest.shape, Field.keeps_slot]
  apart := by simp [Manifest.shape, Field.Apart, Field.avoids_slot]

theorem Vocabulary.follows : Vocabulary.shape.Follows Vocabulary.fields where
  fits := .cons ⟨rfl, Field.fits_slot fits_string.list⟩
    (.cons ⟨rfl, Field.fits_slot fits_string⟩ (.cons ⟨rfl, Field.fits_slot fits_string⟩ .nil))
  keeps := by simp [Vocabulary.shape, Field.keeps_slot]
  apart := by simp [Vocabulary.shape, Field.Apart, Field.avoids_slot]

/-! ### Texts -/

/-- A text that is accepted falls into the members of an object, or into the fields of a record in their
order. However it is edited, with members coming and going under admitted keys, it stands for the same
record. -/
structure IgnoresEdits {α : Type} (Admits : List (String × Layout) → List Char → Prop)
    (ofText : String → Except Problem α) (fields : List (String × Layout)) : Prop where
  parts : ∀ text record, ofText text = .ok record →
    (∃ members, ObjectText text.toList members) ∨ ∃ pieces, ArrayText text.toList pieces
  same : ∀ text edited record,
    Relation.ReflTransGen (Edit Admits (.record fields)) text.toList edited.toList →
      ofText text = .ok record → ofText edited = .ok record

theorem Decoder.ofText_eq_ok {α : Type} {decode : Decoder α} {text : String} {a : α} :
    decode.ofText text = .ok a ↔
      decode (valueOf text.toList) = .ok a ∧ (Json.ofText text).hasMore = false := by
  rw [Decoder.ofText, bind_eq_ok, valueOf, String.ofList_toList]
  cases (Json.ofText text).hasMore <;> simp

theorem Decoder.ofText_of_isValue {α : Type} {decode : Decoder α} {text : String} {a : α}
    (h : IsValue text.toList) : decode.ofText text = .ok a ↔ decode (valueOf text.toList) = .ok a := by
  have hmore := (isValue_iff.mp h).1
  rw [String.ofList_toList] at hmore
  rw [Decoder.ofText_eq_ok, hmore]
  simp

theorem RecordShape.decode_ne_ok {δ α : Type} {shape : RecordShape δ α} {value : Json}
    (h : IsScalar value) (record : α) : shape.decode value ≠ .ok record := by
  cases value with
  | null | bool | number | text => simp [decode]
  | array | object | broken => cases h

theorem RecordShape.Follows.ignoresEdits {δ α : Type} {shape : RecordShape δ α}
    {fields : List (String × Layout)} (h : shape.Follows fields) :
    IgnoresEdits NamesOther shape.decode.ofText fields where
  parts := by
    intro text record hr
    obtain ⟨hd, hmore⟩ := Decoder.ofText_eq_ok.mp hr
    have hvalue : IsValue text.toList :=
      isValue_iff.mpr ⟨by rwa [String.ofList_toList], h.fits_decode.strict hd⟩
    obtain hm | hp | hs := hvalue.exists_parts
    · exact .inl hm
    · exact .inr hp
    · exact absurd hd (RecordShape.decode_ne_ok hs record)
  same := by
    intro text edited record he hr
    generalize hcs : edited.toList = cs at he
    induction he generalizing edited with
    | refl => rwa [String.toList_inj.mp hcs]
    | @tail middle last hfirst hlast ih =>
      have hmiddle := ih (String.ofList middle) (by simp)
      subst hcs
      rw [Decoder.ofText_of_isValue (by simpa using hlast.isValue_left)] at hmiddle
      rw [Decoder.ofText_of_isValue hlast.isValue_right]
      exact h.fits_decode.same hlast (by simpa using hmiddle)

/-! ### Vocabularies -/

namespace Vocabulary

open RecordShape

/-- The vocabulary with the part that a key stands for as it is by default. -/
def withDefault (vocabulary : Vocabulary) (key : String) : Vocabulary :=
  let default : Vocabulary := {}
  if key = "proxyFunctions" then { vocabulary with proxyFunctions := default.proxyFunctions }
  else if key = "childStartFunction" then { vocabulary with childStart := default.childStart }
  else if key = "reExportHelper" then { vocabulary with reExportHelper := default.reExportHelper }
  else vocabulary

/-- Nothing at all stands for the defaults. A part whose member is missing is the default, whatever other
members there are, and leaving a member out changes no other part. -/
structure FillsIn : Prop where
  empty : ∀ text, ObjectText text.toList [] → ofText text = .ok {}
  absent : ∀ text members key vocabulary, ObjectText text.toList members →
    (∀ member ∈ members, nameOf member.key ≠ some key) → ofText text = .ok vocabulary →
      vocabulary.withDefault key = vocabulary
  omitted : ∀ text shortened before member after key vocabulary,
    ObjectText text.toList (before ++ member :: after) →
    ObjectText shortened.toList (before ++ after) → nameOf member.key = some key →
      ofText text = .ok vocabulary → ofText shortened = .ok (vocabulary.withDefault key)

theorem withDefault_of_free {draft : Draft} {key : String} {vocabulary : Vocabulary}
    (hf : ∀ field ∈ shape.fields, field.key = key → field.isSet draft = false)
    (h : shape.finish draft = some vocabulary) : vocabulary.withDefault key = vocabulary := by
  have hfree : ("proxyFunctions" = key → draft.proxyFunctions = none) ∧
      ("childStartFunction" = key → draft.childStart = none) ∧
      ("reExportHelper" = key → draft.reExportHelper = none) := by
    simpa [shape, Field.slot] using hf
  cases h
  unfold withDefault
  split
  · next hkey => simp [hfree.1 hkey.symm]
  · split
    · next hkey => simp [hfree.2.1 hkey.symm]
    · split
      · next hkey => simp [hfree.2.2 hkey.symm]
      · rfl

theorem finish_of_addMember {draft after : Draft} {key : String} {value : Json}
    {vocabulary : Vocabulary} (ha : shape.addMember draft (some key, value) = .ok after)
    (h : shape.finish after = some vocabulary) :
    shape.finish draft = some (vocabulary.withDefault key) := by
  obtain ⟨name, hname, ⟨field, hfield, hset, hfill⟩ | ⟨hnone, -, rfl⟩⟩ := addMember_eq_ok.mp ha
  · have hmem := List.mem_of_find?_eq_some hfield
    have hkey : field.key = name := by simpa using List.find?_some hfield
    cases hname
    cases hkey
    simp only [shape, List.mem_cons, List.not_mem_nil, or_false] at hmem
    rcases hmem with rfl | rfl | rfl
    all_goals
      obtain ⟨part, -, rfl⟩ := Field.slot_fill_eq_ok.mp hfill
      cases h
      have hfree := Option.not_isSome_iff_eq_none.mp (Bool.eq_false_iff.mp hset)
      simp [shape, Field.slot, withDefault, hfree]
  · cases hname
    rw [withDefault_of_free _ h, h]
    intro field hf hkey
    exact absurd (beq_iff_eq.mpr hkey) (List.find?_eq_none.mp hnone field hf)

theorem fillsIn : FillsIn where
  empty := by
    intro text ht
    rw [ofText, Decoder.ofText_of_isValue ht.isValue, ht.valueOf_eq, decode_object_eq_ok]
    exact ⟨{}, gathers_nil.mpr rfl, rfl, rfl⟩
  absent := by
    intro text members key vocabulary ht hn hv
    rw [ofText, Decoder.ofText_of_isValue ht.isValue, ht.valueOf_eq, decode_object_eq_ok] at hv
    obtain ⟨draft, hg, -, hfinish⟩ := hv
    refine withDefault_of_free ?_ hfinish
    rintro field hf rfl
    have hentries : ∀ entry ∈ members.map Member.entry, entry.1 ≠ some field.key := by
      simpa [Member.entry] using hn
    have hstart : ∀ field ∈ shape.fields, field.isSet shape.start = false := by simp [shape, Field.slot]
    rw [follows.isSet_of_gathers hf hentries hg, hstart field hf]
  omitted := by
    intro text shortened before member after key vocabulary ht hs hn hv
    rw [ofText, Decoder.ofText_of_isValue ht.isValue, ht.valueOf_eq, decode_object_eq_ok] at hv
    obtain ⟨draft, hg, -, hfinish⟩ := hv
    have hp : (before ++ member :: after).Perm (before ++ after ++ [member]) :=
      List.perm_middle.trans (List.perm_append_singleton _ _).symm
    have hlast := follows.gathers_perm (hp.map Member.entry) hg
    rw [List.map_append, gathers_append] at hlast
    obtain ⟨shorter, hshorter, hmember⟩ := hlast
    obtain ⟨next, hadd, hnil⟩ := gathers_cons.mp hmember
    cases gathers_nil.mp hnil
    rw [Member.entry, hn] at hadd
    rw [ofText, Decoder.ofText_of_isValue hs.isValue, hs.valueOf_eq, decode_object_eq_ok]
    exact ⟨shorter, hshorter, rfl, finish_of_addMember hadd hfinish⟩

end Vocabulary

/-- Every kind of record ignores the order of members, and members under names that it has no field for, at
every level, and a vocabulary fills in what is left out. -/
theorem records_ignore_edits :
    IgnoresEdits NamesOther Vocabulary.ofText Vocabulary.fields ∧ Vocabulary.FillsIn ∧
    IgnoresEdits NamesOther Activity.ofText Activity.fields ∧
    IgnoresEdits NamesOther ChildWorkflow.ofText ChildWorkflow.fields ∧
    IgnoresEdits NamesOther Workflow.ofText Workflow.fields ∧
    IgnoresEdits NamesOther Components.ofText Components.fields ∧
    IgnoresEdits NamesOther Manifest.ofText Manifest.fields :=
  ⟨Vocabulary.follows.ignoresEdits, Vocabulary.fillsIn, Activity.follows.ignoresEdits,
    ChildWorkflow.follows.ignoresEdits, Workflow.follows.ignoresEdits,
    Components.follows.ignoresEdits, Manifest.follows.ignoresEdits⟩

/-! ### Keys that spell no name -/

/-- A record has no members but those whose keys spell names. -/
theorem RecordShape.exists_nameOf {δ α : Type} {shape : RecordShape δ α} {cs : List Char}
    {members : List Member} {record : α} (ht : ObjectText cs members)
    (h : shape.decode (valueOf cs) = .ok record) {member : Member} (hm : member ∈ members) :
    ∃ name, nameOf member.key = some name := by
  rw [ht.valueOf_eq, decode_object_eq_ok] at h
  obtain ⟨draft, hg, -⟩ := h
  obtain ⟨before, after, rfl⟩ := List.append_of_mem hm
  rw [List.map_append, List.map_cons, gathers_append] at hg
  obtain ⟨_, -, hg⟩ := hg
  obtain ⟨_, hadd, -⟩ := gathers_cons.mp hg
  obtain ⟨name, hname, -⟩ := addMember_eq_ok.mp hadd
  exact ⟨name, hname⟩

def nameMember : Member := ⟨"\"name\"".toList, "\"a\"".toList⟩

/-- A member whose key is the first half of a surrogate pair. -/
def loneMember : Member := ⟨"\"\\ud800\"".toList, "0".toList⟩

def nameText : String := "\x7b\"name\":\"a\"\x7d"

/-- The same activity with the other member after its name. -/
def loneText : String := "\x7b\"name\":\"a\",\"\\ud800\":0\x7d"

theorem isKey_nameMember : IsKey nameMember.key :=
  .quoted blank_nil (isText_of_plain "name".toList (by simp)) blank_nil

theorem isValue_nameMember : IsValue nameMember.value :=
  .text (isText_of_plain "a".toList (by simp))

theorem isKey_loneMember : IsKey loneMember.key := by
  have hdigits : ∀ c ∈ "d800".toList, IsHexDigit c := by
    simp [IsHexDigit]
  exact .quoted blank_nil (.unit rfl hdigits .nil) blank_nil

theorem isValue_loneMember : IsValue loneMember.value :=
  .number (.whole ⟨by simp, by simp⟩ (fun _ => rfl) (.absent .absent))

theorem objectText_nameText : ObjectText nameText.toList ([nameMember] ++ []) :=
  objectText_singleton isKey_nameMember isValue_nameMember

theorem objectText_loneText : ObjectText loneText.toList ([nameMember] ++ [loneMember]) where
  brackets := ⟨[], nameMember.text ++ ',' :: loneMember.text, [], rfl, blank_nil, blank_nil,
    .inr ⟨by simp, rfl⟩⟩
  keys := by simpa using ⟨isKey_nameMember, isKey_loneMember⟩
  values := by simpa using ⟨isValue_nameMember, isValue_loneMember⟩

theorem nameOf_loneMember : nameOf loneMember.key = none := by decide +kernel

/-- Not every member that an activity has no field for is ignored: a key with half a surrogate pair in it
spells no name, and the activity is refused. -/
theorem not_ignoresEdits_lone : ¬ IgnoresEdits NamesNoField Activity.ofText Activity.fields := by
  intro h
  have hedit : Edit NamesNoField (.record Activity.fields) nameText.toList loneText.toList := by
    refine .insert objectText_nameText objectText_loneText ?_
    intro name hname
    rw [nameOf_loneMember] at hname
    cases hname
  have hplain : Activity.ofText nameText = .ok ⟨"a", none⟩ := by decide +kernel
  have hedited := h.same nameText loneText _ (.single hedit) hplain
  obtain ⟨name, hname⟩ := RecordShape.exists_nameOf objectText_loneText
    (Decoder.ofText_eq_ok.mp hedited).1 (List.mem_append_right _ (List.mem_singleton_self loneMember))
  rw [nameOf_loneMember] at hname
  cases hname

end WorkflowAnalysis
