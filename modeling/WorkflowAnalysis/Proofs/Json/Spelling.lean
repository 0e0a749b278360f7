import WorkflowAnalysis.Proofs.Json.Grammar

/-! How values are spelled. What is read falls into well-formed parts, and well-formed parts are read, each
by itself, wherever they stand. So the text of an array or an object is made of the texts of its parts, and
these can be put together again in any order. -/
namespace WorkflowAnalysis.Json

/-! ### Space -/

theorem isSpace_iff {c : Char} : isSpace c = true ↔ c = ' ' ∨ c = '\n' ∨ c = '\t' ∨ c = '\r' := by
  simp [isSpace, or_assoc]

theorem dropSpace_append {space : List Char} (h : Blank space) (cs : List Char) :
    dropSpace (space ++ cs) = dropSpace cs :=
  List.dropWhile_append_of_pos h

theorem dropSpace_eq_nil_iff {cs : List Char} : dropSpace cs = [] ↔ Blank cs :=
  List.dropWhile_eq_nil_iff

theorem exists_blank (cs : List Char) : ∃ space, Blank space ∧ cs = space ++ dropSpace cs := by
  refine ⟨cs.takeWhile isSpace, ?_, List.takeWhile_append_dropWhile.symm⟩
  intro c hc
  exact List.mem_takeWhile_imp hc

theorem dropSpace_cons {c : Char} (h : isSpace c = false) (cs : List Char) :
    dropSpace (c :: cs) = c :: cs :=
  List.dropWhile_cons_of_neg (by simp [h])

theorem dropSpace_dropSpace (cs : List Char) : dropSpace (dropSpace cs) = dropSpace cs :=
  List.dropWhile_idempotent _ _

theorem readValue_dropSpace (fuel : Nat) (cs : List Char) :
    readValue fuel (dropSpace cs) = readValue fuel cs := by
  cases fuel with
  | zero => simp only [readValue]
  | succ fuel => simp only [readValue, dropSpace_dropSpace]

/-! ### Values -/

/-- Some characters are read as a value, whatever follows them. The fuel for a whole text of this length is
enough for that. -/
def Reads (front : List Char) (value : Json) : Prop :=
  ∀ fuel, 2 * front.length ≤ fuel → Takes (readValue fuel) front value

theorem ends_nil : Ends [] := by simp [Ends]

theorem ends_blank {space : List Char} (hs : Blank space) {rest : List Char} (hr : Ends rest) :
    Ends (space ++ rest) := by
  cases space with
  | nil => exact hr
  | cons c space =>
    have hc := isSpace_iff.mp (hs c List.mem_cons_self)
    simp only [Ends, List.cons_append, List.head?_cons, Option.mem_some_iff, forall_eq']
    rcases hc with rfl | rfl | rfl | rfl <;> decide

theorem Reads.spaced {space front : List Char} {value : Json} (hs : Blank space)
    (h : Reads front value) : Reads (space ++ front) value := by
  intro fuel hf rest hr
  rw [List.length_append] at hf
  rw [← readValue_dropSpace, List.append_assoc, dropSpace_append hs, readValue_dropSpace]
  exact h fuel (by omega) rest hr

/-- The first character of a value is not a bracket that closes. -/
theorem Reads.head {front : List Char} {value : Json} (h : Reads front value) {rest : List Char}
    (hr : Ends rest) : ∃ c cs, dropSpace (front ++ rest) = c :: cs ∧ c ≠ ']' := by
  have hread := h (2 * front.length + 1) (by omega) rest hr
  rw [readValue] at hread
  cases hd : dropSpace (front ++ rest) with
  | nil =>
    rw [hd] at hread
    cases hread
  | cons c cs =>
    refine ⟨c, cs, rfl, ?_⟩
    rintro rfl
    rw [hd] at hread
    cases hread

theorem reads_of_succ {front : List Char} {value : Json} (hne : front ≠ [])
    (h : ∀ fuel, Takes (readValue (fuel + 1)) front value) : Reads front value := by
  intro fuel hf
  obtain ⟨fuel, rfl⟩ : ∃ n, fuel = n + 1 := ⟨fuel - 1, by have := List.length_pos_iff.mpr hne; omega⟩
  exact h fuel

/-! ### Problems stay in place -/

inductive GivesNumber : Json × Option (List Char) → Prop
  | number (tooLarge : Bool) (rest : List Char) : GivesNumber (number tooLarge, some rest)
  | broken (asked skipped : Problem) : GivesNumber (broken asked skipped, none)

theorem givesNumber_missingDigit (cs : List Char) : GivesNumber (missingDigit cs) := by
  unfold missingDigit
  split <;> exact .broken _ _

theorem givesNumber_readExponentDigits (significand : Nat) (exponent : Int) (isNegative : Bool)
    (cs : List Char) : GivesNumber (readExponentDigits significand exponent isNegative cs) := by
  unfold readExponentDigits
  split
  · exact givesNumber_missingDigit cs
  · exact .number _ _

theorem givesNumber_readExponent (significand : Nat) (exponent : Int) (cs : List Char) :
    GivesNumber (readExponent significand exponent cs) := by
  unfold readExponent
  split
  · split
    · split <;> exact givesNumber_readExponentDigits ..
    · exact .number _ _
  · exact .number _ _

theorem givesNumber_readFraction (significand dropped : Nat) (cs : List Char) :
    GivesNumber (readFraction significand dropped cs) := by
  unfold readFraction
  split
  · split
    · exact givesNumber_readExponent ..
    · exact givesNumber_missingDigit _
  · exact givesNumber_readExponent ..

theorem givesNumber_readNumber (cs : List Char) : GivesNumber (readNumber cs) := by
  cases cs with
  | nil => exact .broken _ _
  | cons first after =>
    rw [readNumber_cons]
    split
    · exact givesNumber_missingDigit _
    · split
      · exact .broken _ _
      · exact givesNumber_readFraction ..

/-- What is read has a problem in it exactly if reading stops there. -/
def Marks (result : Json × Option (List Char)) : Prop := result.1.skip.isNone = result.2.isSome

theorem GivesNumber.marks {result : Json × Option (List Char)} (h : GivesNumber result) :
    Marks result := by
  cases h <;> rfl

theorem marks_readWord {value : Json} (hv : value.skip = none) (letters cs : List Char) :
    Marks (readWord value letters cs) := by
  induction letters generalizing cs with
  | nil => simp [Marks, readWord, hv]
  | cons letter letters ih =>
    cases cs with
    | nil => rfl
    | cons c cs =>
      rw [readWord]
      split
      · exact ih cs
      · rfl

def MarksItems (result : List Json × Option Problem × Option (List Char)) : Prop :=
  Marks (array result.1 result.2.1, result.2.2)

def MarksMembers (result : List (Option String × Json) × Option Problem × Option (List Char)) : Prop :=
  Marks (object result.1 result.2.1, result.2.2)

structure MarksAll (fuel : Nat) : Prop where
  value : ∀ cs, Marks (readValue fuel cs)
  items : ∀ cs, MarksItems (readItems fuel cs)
  members : ∀ cs, MarksMembers (readMembers fuel cs)

namespace MarksAll

variable {fuel : Nat}

theorem value_succ (h : MarksAll fuel) (cs : List Char) : Marks (readValue (fuel + 1) cs) := by
  rw [readValue]
  split
  · rfl
  · exact marks_readWord rfl _ _
  · exact marks_readWord rfl _ _
  · exact marks_readWord rfl _ _
  · exact (givesNumber_readNumber _).marks
  · split <;> rfl
  · split
    · rfl
    · rfl
    · exact h.items _
  · split
    · rfl
    · rfl
    · exact h.members _
  · split
    · exact (givesNumber_readNumber _).marks
    · rfl

theorem items_succ (h : MarksAll fuel) (cs : List Char) : MarksItems (readItems (fuel + 1) cs) := by
  rw [readItems]
  cases hread : readValue fuel cs with
  | mk item rest =>
    have hitem := h.value cs
    rw [hread, Marks] at hitem
    cases rest with
    | none => simpa [MarksItems, Marks, skip, skipItems] using hitem
    | some rest =>
      have hclean : item.skip = none := by simpa using hitem
      dsimp only
      split
      · simp [MarksItems, Marks, skip, skipItems, hclean]
      · split
        · simp [MarksItems, Marks, skip, skipItems, hclean]
        · simpa [MarksItems, Marks, skip, skipItems, hclean] using h.items _
      · simp [MarksItems, Marks, skip, skipItems, hclean]
      · simp [MarksItems, Marks, skip, skipItems, hclean]

theorem members_succ (h : MarksAll fuel) (cs : List Char) :
    MarksMembers (readMembers (fuel + 1) cs) := by
  rw [readMembers]
  split
  · rfl
  · split
    · split <;> rfl
    · split
      · rfl
      · next rest _ =>
        cases hread : readValue fuel rest with
        | mk value rest' =>
          have hvalue := h.value rest
          rw [hread, Marks] at hvalue
          cases rest' with
          | none => simpa [MarksMembers, Marks, skip, skipMembers] using hvalue
          | some rest' =>
            have hclean : value.skip = none := by simpa using hvalue
            dsimp only
            split
            · simp [MarksMembers, Marks, skip, skipMembers, hclean]
            · simpa [MarksMembers, Marks, skip, skipMembers, hclean] using h.members _
            · simp [MarksMembers, Marks, skip, skipMembers, hclean]
            · simp [MarksMembers, Marks, skip, skipMembers, hclean]
      · rfl
  · rfl

end MarksAll

theorem marksAll (fuel : Nat) : MarksAll fuel := by
  induction fuel with
  | zero =>
    refine ⟨?_, ?_, ?_⟩
    · intro cs
      simp [readValue, Marks, skip]
    · intro cs
      simp [readItems, MarksItems, Marks, skip, skipItems]
    · intro cs
      simp [readMembers, MarksMembers, Marks, skip, skipMembers]
  | succ fuel ih => exact ⟨ih.value_succ, ih.items_succ, ih.members_succ⟩

/-! ### Texts of values -/

def valueOf (cs : List Char) : Json := (ofText (String.ofList cs)).value

/-- Some characters are read as a value, with space after it. -/
structure Spelled (cs : List Char) (value : Json) : Prop where
  isValue : IsValue cs
  reads : ∃ front after, cs = front ++ after ∧ Blank after ∧ Reads front value

namespace Spelled

variable {cs : List Char} {value : Json}

theorem readValue (h : Spelled cs value) :
    ∃ after, Blank after ∧ ∀ fuel rest, 2 * cs.length ≤ fuel → Ends rest →
      Json.readValue fuel (cs ++ rest) = (value, some (after ++ rest)) := by
  obtain ⟨front, after, rfl, ha, hreads⟩ := h.reads
  refine ⟨after, ha, fun fuel rest hf hr => ?_⟩
  rw [List.length_append] at hf
  rw [List.append_assoc]
  exact hreads fuel (by omega) _ (ends_blank ha hr)

theorem head (h : Spelled cs value) {rest : List Char} (hr : Ends rest) :
    ∃ c tail, dropSpace (cs ++ rest) = c :: tail ∧ c ≠ ']' := by
  obtain ⟨front, after, rfl, ha, hreads⟩ := h.reads
  rw [List.append_assoc]
  exact hreads.head (ends_blank ha hr)

theorem spaced {before after : List Char} (hb : Blank before) (h : Spelled cs value)
    (ha : Blank after) : Spelled (before ++ cs ++ after) value := by
  obtain ⟨front, space, rfl, hs, hreads⟩ := h.reads
  refine ⟨.spaced hb h.isValue ha, before ++ front, space ++ after, by simp, ?_, hreads.spaced hb⟩
  exact List.forall_mem_append.mpr ⟨hs, ha⟩

theorem of_reads (hv : IsValue cs) (hr : Reads cs value) : Spelled cs value :=
  ⟨hv, cs, [], by simp, blank_nil, hr⟩

theorem ofText (h : Spelled cs value) : Json.ofText (String.ofList cs) = ⟨value, false⟩ := by
  obtain ⟨after, ha, hread⟩ := h.readValue
  have hwhole := hread (2 * cs.length + 2) [] (by omega) ends_nil
  simp only [List.append_nil] at hwhole
  simp only [Json.ofText, String.toList_ofList, hwhole, dropSpace_eq_nil_iff.mpr ha,
    List.isEmpty_nil, Bool.not_true]

theorem valueOf_eq (h : Spelled cs value) : valueOf cs = value := by
  rw [valueOf, h.ofText]

/-- A part is read as the value it is by itself. -/
theorem self (h : Spelled cs value) : Spelled cs (valueOf cs) := by
  rw [h.valueOf_eq]
  exact h

end Spelled

/-- The name that a key stands for, unless there is half a surrogate pair in it. -/
def nameOf (key : List Char) : Option String :=
  match readText {} ((dropSpace key).drop 1) with
  | .closed name _ => name
  | .broken _ _ => none

theorem nameOf_quoted {before inner : List Char} {name : Option String} (hb : Blank before)
    (h : ∀ rest, readText {} (inner ++ '\x22' :: rest) = .closed name rest) (after : List Char) :
    nameOf (before ++ '\x22' :: (inner ++ '\x22' :: after)) = name := by
  rw [nameOf, dropSpace_append hb, dropSpace_cons rfl, List.drop_one, List.tail_cons, h]

theorem IsKey.readText {key : List Char} (h : IsKey key) (rest : List Char) :
    ∃ inner after, dropSpace (key ++ ':' :: rest) = '\x22' :: inner ∧ Blank after ∧
      Json.readText {} inner = .closed (nameOf key) (after ++ ':' :: rest) := by
  obtain @⟨before, inner, after, hb, hi, ha⟩ := h
  obtain ⟨name, hname⟩ := hi.exists_readText {}
  refine ⟨inner ++ '\x22' :: (after ++ ':' :: rest), after, ?_, ha, ?_⟩
  · rw [List.append_assoc, dropSpace_append hb, List.cons_append, dropSpace_cons rfl]
    simp
  · rw [nameOf_quoted hb hname, hname]

def Member.entry (member : Member) : Option String × Json := (nameOf member.key, valueOf member.value)

/-! ### Parts put together -/

section Steps

variable {fuel : Nat} {cs rest after : List Char}

theorem readItems_of_close {item : Json} (ha : Blank after)
    (h : readValue fuel cs = (item, some (after ++ ']' :: rest))) :
    readItems (fuel + 1) cs = ([item], none, some rest) := by
  simp [readItems, h, dropSpace_append ha, dropSpace_cons, isSpace]

theorem readItems_of_comma {item : Json} (ha : Blank after)
    (h : readValue fuel cs = (item, some (after ++ ',' :: rest))) {c : Char} {tail : List Char}
    (hhead : dropSpace rest = c :: tail) (hc : c ≠ ']') :
    readItems (fuel + 1) cs = (item :: (readItems fuel rest).1, (readItems fuel rest).2) := by
  simp [readItems, h, dropSpace_append ha, dropSpace_cons, isSpace, hhead, hc]

variable {member : Member} {value : Json}

theorem readMembers_of_close (hk : IsKey member.key) (ha : Blank after)
    (h : readValue fuel (member.value ++ rest) = (value, some (after ++ '\x7d' :: cs))) :
    readMembers (fuel + 1) (member.text ++ rest) = ([(nameOf member.key, value)], none, some cs) := by
  obtain ⟨inner, space, hinner, hs, htext⟩ := hk.readText (member.value ++ rest)
  simp [readMembers, Member.text, hinner, htext, h, dropSpace_append ha, dropSpace_append hs,
    dropSpace_cons, isSpace]

theorem readMembers_of_comma (hk : IsKey member.key) (ha : Blank after)
    (h : readValue fuel (member.value ++ rest) = (value, some (after ++ ',' :: cs))) :
    readMembers (fuel + 1) (member.text ++ rest) =
      ((nameOf member.key, value) :: (readMembers fuel cs).1, (readMembers fuel cs).2) := by
  obtain ⟨inner, space, hinner, hs, htext⟩ := hk.readText (member.value ++ rest)
  simp [readMembers, Member.text, hinner, htext, h, dropSpace_append ha, dropSpace_append hs,
    dropSpace_cons, isSpace]

end Steps

theorem intercalate_append (part next : List Char) (parts : List (List Char)) (rest : List Char) :
    [','].intercalate (part :: next :: parts) ++ rest =
      part ++ ',' :: ([','].intercalate (next :: parts) ++ rest) := by
  simp [List.intercalate_cons_cons]

theorem length_intercalate (part next : List Char) (parts : List (List Char)) :
    ([','].intercalate (part :: next :: parts)).length =
      part.length + 1 + ([','].intercalate (next :: parts)).length := by
  simp [List.intercalate_cons_cons]
  omega

/-- What follows the first part of several does not go on with it. -/
theorem exists_intercalate_eq (part : List Char) (parts : List (List Char)) (rest : List Char)
    (hr : Ends rest) : ∃ more, [','].intercalate (part :: parts) ++ rest = part ++ more ∧ Ends more := by
  cases parts with
  | nil => exact ⟨rest, by rw [List.intercalate_singleton], hr⟩
  | cons next parts => exact ⟨_, intercalate_append .., by simp [Ends]⟩

theorem readItems_intercalate {piece : List Char} {pieces : List (List Char)}
    (h : ∀ part ∈ piece :: pieces, Spelled part (valueOf part)) {fuel : Nat}
    (hf : 2 * ([','].intercalate (piece :: pieces)).length ≤ fuel) (rest : List Char) :
    readItems (fuel + 1) ([','].intercalate (piece :: pieces) ++ ']' :: rest) =
      ((piece :: pieces).map valueOf, none, some rest) := by
  induction pieces generalizing piece fuel with
  | nil =>
    obtain ⟨after, ha, hread⟩ := (h piece List.mem_cons_self).readValue
    rw [List.intercalate_singleton] at hf ⊢
    exact readItems_of_close ha (hread fuel (']' :: rest) hf (by simp [Ends]))
  | cons next pieces ih =>
    obtain ⟨after, ha, hread⟩ := (h piece List.mem_cons_self).readValue
    have hpieces : ∀ part ∈ next :: pieces, Spelled part (valueOf part) :=
      fun part hp => h part (List.mem_cons_of_mem _ hp)
    obtain ⟨more, hmore, hends⟩ :=
      exists_intercalate_eq next pieces (']' :: rest) (by simp [Ends])
    obtain ⟨c, tail, hhead, hc⟩ := (hpieces next List.mem_cons_self).head hends
    rw [← hmore] at hhead
    rw [length_intercalate] at hf
    rw [intercalate_append]
    have hvalue := hread fuel (',' :: ([','].intercalate (next :: pieces) ++ ']' :: rest)) (by omega)
      (by simp [Ends])
    obtain ⟨fuel, rfl⟩ : ∃ n, fuel = n + 1 := ⟨fuel - 1, by omega⟩
    rw [readItems_of_comma ha hvalue hhead hc, ih hpieces (by omega)]
    rfl

theorem readMembers_intercalate {member : Member} {members : List Member}
    (hk : ∀ each ∈ member :: members, IsKey each.key)
    (hv : ∀ each ∈ member :: members, Spelled each.value (valueOf each.value)) {fuel : Nat}
    (hf : 2 * ([','].intercalate ((member :: members).map Member.text)).length ≤ fuel)
    (rest : List Char) :
    readMembers (fuel + 1) ([','].intercalate ((member :: members).map Member.text) ++ '\x7d' :: rest) =
      ((member :: members).map Member.entry, none, some rest) := by
  have hlength (member : Member) : member.value.length ≤ member.text.length := by
    simp [Member.text]
    omega
  induction members generalizing member fuel with
  | nil =>
    obtain ⟨after, ha, hread⟩ := (hv member List.mem_cons_self).readValue
    rw [List.map_singleton, List.intercalate_singleton] at hf ⊢
    have hvalue := hread fuel ('\x7d' :: rest) (by have := hlength member; omega) (by simp [Ends])
    exact readMembers_of_close (hk member List.mem_cons_self) ha hvalue
  | cons next members ih =>
    obtain ⟨after, ha, hread⟩ := (hv member List.mem_cons_self).readValue
    rw [List.map_cons, List.map_cons, length_intercalate, ← List.map_cons] at hf
    rw [List.map_cons, List.map_cons, intercalate_append, ← List.map_cons]
    have hvalue := hread fuel
      (',' :: ([','].intercalate ((next :: members).map Member.text) ++ '\x7d' :: rest))
      (by have := hlength member; omega) (by simp [Ends])
    obtain ⟨fuel, rfl⟩ : ∃ n, fuel = n + 1 := ⟨fuel - 1, by omega⟩
    rw [readMembers_of_comma (hk member List.mem_cons_self) ha hvalue,
      ih (fun each he => hk each (List.mem_cons_of_mem _ he))
        (fun each he => hv each (List.mem_cons_of_mem _ he)) (by omega)]
    rfl

/-! ### Brackets -/

/-- The fuel that the parts between brackets need is left when the bracket has been read. -/
theorem reads_of_brackets {opening closing : Char} {body : List Char} {value : Json}
    (h : ∀ fuel, 2 * body.length + 1 ≤ fuel →
      Takes (readValue (fuel + 1)) (opening :: (body ++ [closing])) value) :
    Reads (opening :: (body ++ [closing])) value := by
  intro fuel hf
  simp only [List.length_cons, List.length_append, List.length_nil] at hf
  obtain ⟨fuel, rfl⟩ : ∃ n, fuel = n + 1 := ⟨fuel - 1, by omega⟩
  exact h fuel (by omega)

theorem reads_array {body : List Char} {pieces : List (List Char)} (hb : Separated body pieces)
    (hp : ∀ piece ∈ pieces, Spelled piece (valueOf piece)) :
    Reads ('[' :: (body ++ [']'])) (array (pieces.map valueOf) none) := by
  apply reads_of_brackets
  intro fuel hf rest hr
  obtain ⟨rfl, hblank⟩ | ⟨hne, rfl⟩ := hb
  · simp [readValue, dropSpace_cons, dropSpace_append hblank, isSpace]
  · obtain ⟨piece, pieces, rfl⟩ := List.exists_cons_of_ne_nil hne
    obtain ⟨more, hmore, hends⟩ :=
      exists_intercalate_eq piece pieces (']' :: rest) (by simp [Ends])
    obtain ⟨c, tail, hhead, hc⟩ := (hp piece List.mem_cons_self).head hends
    rw [← hmore] at hhead
    obtain ⟨fuel, rfl⟩ : ∃ n, fuel = n + 1 := ⟨fuel - 1, by omega⟩
    simp [readValue, dropSpace_cons, isSpace, hhead, hc,
      readItems_intercalate hp (show _ ≤ fuel by omega) rest]

theorem reads_object {body : List Char} {members : List Member}
    (hb : Separated body (members.map Member.text)) (hk : ∀ member ∈ members, IsKey member.key)
    (hv : ∀ member ∈ members, Spelled member.value (valueOf member.value)) :
    Reads ('\x7b' :: (body ++ ['\x7d'])) (object (members.map Member.entry) none) := by
  apply reads_of_brackets
  intro fuel hf rest hr
  obtain ⟨hnil, hblank⟩ | ⟨hne, rfl⟩ := hb
  · cases List.map_eq_nil_iff.mp hnil
    simp [readValue, dropSpace_cons, dropSpace_append hblank, isSpace]
  · obtain ⟨member, members, rfl⟩ := List.exists_cons_of_ne_nil (mt (congrArg (List.map Member.text)) hne)
    obtain ⟨more, hmore, -⟩ :=
      exists_intercalate_eq member.text (members.map Member.text) ('\x7d' :: rest) (by simp [Ends])
    obtain ⟨inner, after, hhead, -⟩ := (hk member List.mem_cons_self).readText (member.value ++ more)
    have hfirst : dropSpace ([','].intercalate ((member :: members).map Member.text) ++ '\x7d' :: rest) =
        '\x22' :: inner := by
      rw [← hhead, List.map_cons, hmore, Member.text]
      simp
    obtain ⟨fuel, rfl⟩ : ∃ n, fuel = n + 1 := ⟨fuel - 1, by omega⟩
    have hmembers := readMembers_intercalate hk hv (show _ ≤ fuel by omega) rest
    simp only [List.cons_append, List.append_assoc, List.nil_append, readValue,
      dropSpace_cons (show isSpace '\x7b' = false from rfl), hfirst, hmembers]
    rfl

/-! ### Well-formed texts are read -/

theorem reads_word {first : Char} {letters : List Char} {value : Json}
    (h : ∀ fuel rest, readValue (fuel + 1) (first :: rest) = readWord value letters rest) :
    Reads (first :: letters) value := by
  apply reads_of_succ (by simp)
  intro fuel rest _
  rw [List.cons_append, h, readWord_eq]
  simp

theorem reads_null : Reads ['n', 'u', 'l', 'l'] null :=
  reads_word fun _ _ => by simp [readValue, dropSpace_cons, isSpace]

theorem reads_true : Reads ['t', 'r', 'u', 'e'] (bool true) :=
  reads_word fun _ _ => by simp [readValue, dropSpace_cons, isSpace]

theorem reads_false : Reads ['f', 'a', 'l', 's', 'e'] (bool false) :=
  reads_word fun _ _ => by simp [readValue, dropSpace_cons, isSpace]

theorem readValue_digit {c : Char} (hc : c.isDigit = true) (fuel : Nat) (cs : List Char) :
    readValue (fuel + 1) (c :: cs) = readNumber (c :: cs) := by
  have hs : isSpace c = false := by
    rw [← Bool.not_eq_true, isSpace_iff]
    rintro (rfl | rfl | rfl | rfl) <;> cases hc
  rw [readValue, dropSpace_cons hs]
  split <;> simp_all

theorem IsNumber.exists_cons {cs : List Char} (h : IsNumber cs) :
    ∃ first tail, cs = first :: tail ∧ first.isDigit = true := by
  obtain @⟨digits, fraction, hd, -, -⟩ := h
  obtain ⟨first, digits, rfl⟩ := List.exists_cons_of_ne_nil hd.ne_nil
  exact ⟨first, digits ++ fraction, rfl, hd.all first List.mem_cons_self⟩

theorem reads_number {cs : List Char} {value : Json} (h : IsNumber cs)
    (hv : Takes readNumber cs value) : Reads cs value := by
  obtain ⟨first, tail, rfl, hfirst⟩ := h.exists_cons
  apply reads_of_succ (by simp)
  intro fuel rest hr
  rw [List.cons_append, readValue_digit hfirst]
  exact hv rest hr

theorem reads_negative {cs : List Char} {value : Json} (hv : Takes readNumber cs value) :
    Reads ('-' :: cs) value := by
  apply reads_of_succ (by simp)
  intro fuel rest hr
  simpa [readValue, dropSpace_cons, isSpace] using hv rest hr

theorem reads_text {inner : List Char} {name : Option String}
    (h : ∀ rest, readText {} (inner ++ '\x22' :: rest) = .closed name rest) :
    Reads ('\x22' :: (inner ++ ['\x22'])) (text name) := by
  apply reads_of_succ (by simp)
  intro fuel rest _
  simp [readValue, dropSpace_cons, isSpace, h]

theorem Bracketed.spelled {opening closing : Char} {cs : List Char} {parts : List (List Char)}
    {value : Json} (h : Bracketed opening closing cs parts) (hv : IsValue cs)
    (hr : ∀ body, Separated body parts → Reads (opening :: (body ++ [closing])) value) :
    Spelled cs value := by
  obtain ⟨before, body, after, rfl, hb, ha, hs⟩ := h
  exact ⟨hv, before ++ opening :: (body ++ [closing]), after, by simp, ha, (hr body hs).spaced hb⟩

theorem bracketed_of_separated {body : List Char} {parts : List (List Char)}
    (h : Separated body parts) (opening closing : Char) :
    Bracketed opening closing (opening :: (body ++ [closing])) parts :=
  ⟨[], body, [], by simp, blank_nil, blank_nil, h⟩

theorem IsValue.exists_spelled {cs : List Char} (h : IsValue cs) : ∃ value, Spelled cs value := by
  induction h with
  | null => exact ⟨_, .of_reads .null reads_null⟩
  | true => exact ⟨_, .of_reads .true reads_true⟩
  | false => exact ⟨_, .of_reads .false reads_false⟩
  | number h =>
    obtain ⟨value, hvalue⟩ := recognizes_readNumber.takes _ h
    exact ⟨value, .of_reads (.number h) (reads_number h hvalue)⟩
  | negative h =>
    obtain ⟨value, hvalue⟩ := recognizes_readNumber.takes _ h
    exact ⟨value, .of_reads (.negative h) (reads_negative hvalue)⟩
  | text h =>
    obtain ⟨name, hname⟩ := h.exists_readText {}
    exact ⟨_, .of_reads (.text h) (reads_text hname)⟩
  | array h hp ih =>
    refine ⟨_, h.spelled (.array h hp) fun body hs => reads_array hs fun piece hm => ?_⟩
    obtain ⟨value, hvalue⟩ := ih piece hm
    exact hvalue.self
  | object h hk hv ih =>
    refine ⟨_, h.spelled (.object h hk hv) fun body hs => reads_object hs hk fun member hm => ?_⟩
    obtain ⟨value, hvalue⟩ := ih member hm
    exact hvalue.self
  | spaced hb _ ha ih =>
    obtain ⟨value, hvalue⟩ := ih
    exact ⟨value, hvalue.spaced hb ha⟩

theorem IsValue.spelled {cs : List Char} (h : IsValue cs) : Spelled cs (valueOf cs) := by
  obtain ⟨value, hvalue⟩ := h.exists_spelled
  exact hvalue.self

theorem ArrayText.isValue {cs : List Char} {pieces : List (List Char)} (h : ArrayText cs pieces) :
    IsValue cs :=
  .array h.brackets h.items

theorem ArrayText.valueOf_eq {cs : List Char} {pieces : List (List Char)} (h : ArrayText cs pieces) :
    valueOf cs = array (pieces.map valueOf) none := by
  apply Spelled.valueOf_eq
  exact h.brackets.spelled h.isValue fun body hs =>
    reads_array hs fun piece hm => (h.items piece hm).spelled

theorem ObjectText.isValue {cs : List Char} {members : List Member} (h : ObjectText cs members) :
    IsValue cs :=
  .object h.brackets h.keys h.values

theorem ObjectText.valueOf_eq {cs : List Char} {members : List Member} (h : ObjectText cs members) :
    valueOf cs = object (members.map Member.entry) none := by
  apply Spelled.valueOf_eq
  exact h.brackets.spelled h.isValue fun body hs =>
    reads_object hs h.keys fun member hm => (h.values member hm).spelled

/-! ### What is read is well formed -/

theorem exists_key {cs quoted after tail : List Char} {name : Option String}
    (hquote : dropSpace cs = '\x22' :: quoted) (hname : readText {} quoted = .closed name after)
    (hcolon : dropSpace after = ':' :: tail) :
    ∃ key, cs = key ++ ':' :: tail ∧ IsKey key ∧ nameOf key = name := by
  obtain ⟨before, hb, hcs⟩ := exists_blank cs
  obtain ⟨inner, rfl, hi, htakes⟩ := exists_of_readText hname
  obtain ⟨space, hs, hafter⟩ := exists_blank after
  refine ⟨_, ?_, .quoted hb hi hs, nameOf_quoted hb htakes space⟩
  rw [hcs, hquote, hafter, hcolon]
  simp

/-- What is read with some fuel falls into well-formed parts. -/
structure Splits (fuel : Nat) : Prop where
  value : ∀ cs value rest, readValue fuel cs = (value, some rest) →
    ∃ front, cs = front ++ rest ∧ IsValue front ∧ Reads front value
  items : ∀ cs items ending rest, readItems fuel cs = (items, ending, some rest) →
    ∃ pieces, pieces ≠ [] ∧ cs = [','].intercalate pieces ++ ']' :: rest ∧
      (∀ piece ∈ pieces, IsValue piece) ∧ items = pieces.map valueOf ∧ ending = none
  members : ∀ cs entries ending rest, readMembers fuel cs = (entries, ending, some rest) →
    ∃ members, members ≠ [] ∧ cs = [','].intercalate (members.map Member.text) ++ '\x7d' :: rest ∧
      (∀ member ∈ members, IsKey member.key) ∧ (∀ member ∈ members, IsValue member.value) ∧
      entries = members.map Member.entry ∧ ending = none

namespace Splits

variable {fuel : Nat}

theorem value_succ (h : Splits fuel) (cs : List Char) (value : Json) (rest : List Char)
    (hread : readValue (fuel + 1) cs = (value, some rest)) :
    ∃ front, cs = front ++ rest ∧ IsValue front ∧ Reads front value := by
  -- The space in front goes to the value.
  suffices hfront : ∃ front, dropSpace cs = front ++ rest ∧ IsValue front ∧ Reads front value by
    obtain ⟨space, hs, hcs⟩ := exists_blank cs
    obtain ⟨front, hfront, hv, hr⟩ := hfront
    exact ⟨space ++ front, by rw [hcs, hfront, List.append_assoc], .blank_append hs hv, hr.spaced hs⟩
  rw [readValue] at hread
  split at hread
  · cases hread
  · next tail heq =>
    obtain ⟨rfl, rfl⟩ := readWord_eq.mp hread
    exact ⟨_, heq, .null, reads_null⟩
  · next tail heq =>
    obtain ⟨rfl, rfl⟩ := readWord_eq.mp hread
    exact ⟨_, heq, .true, reads_true⟩
  · next tail heq =>
    obtain ⟨rfl, rfl⟩ := readWord_eq.mp hread
    exact ⟨_, heq, .false, reads_false⟩
  · next tail heq =>
    obtain ⟨front, rfl, hn, htakes⟩ := recognizes_readNumber.splits _ _ _ hread
    exact ⟨_, heq, .negative hn, reads_negative htakes⟩
  · next tail heq =>
    split at hread
    · next name tail hname =>
      cases hread
      obtain ⟨inner, rfl, hi, htakes⟩ := exists_of_readText hname
      exact ⟨'\x22' :: (inner ++ ['\x22']), by simp [heq], .text hi, reads_text htakes⟩
    · cases hread
  · next tail heq =>
    suffices hparts : ∃ body pieces, tail = body ++ ']' :: rest ∧ Separated body pieces ∧
        (∀ piece ∈ pieces, IsValue piece) ∧ value = array (pieces.map valueOf) none by
      obtain ⟨body, pieces, rfl, hb, hp, rfl⟩ := hparts
      exact ⟨'[' :: (body ++ [']']), by simp [heq], .array (bracketed_of_separated hb '[' ']') hp,
        reads_array hb fun piece hm => (hp piece hm).spelled⟩
    split at hread
    · next hclose =>
      cases hread
      obtain ⟨space, hs, htail⟩ := exists_blank tail
      exact ⟨space, [], by rw [htail, hclose], .inl ⟨rfl, hs⟩, by simp, rfl⟩
    · cases hread
    · rcases hitems : readItems fuel tail with ⟨items, ending, result⟩
      rw [hitems] at hread
      cases hread
      obtain ⟨pieces, hne, htail, hp, rfl, rfl⟩ := h.items _ _ _ _ hitems
      exact ⟨_, pieces, htail, .inr ⟨hne, rfl⟩, hp, rfl⟩
  · next tail heq =>
    suffices hparts : ∃ body, ∃ members : List Member, tail = body ++ '\x7d' :: rest ∧
        Separated body (members.map Member.text) ∧ (∀ member ∈ members, IsKey member.key) ∧
        (∀ member ∈ members, IsValue member.value) ∧ value = object (members.map Member.entry) none by
      obtain ⟨body, members, rfl, hb, hk, hv, rfl⟩ := hparts
      exact ⟨'\x7b' :: (body ++ ['\x7d']), by simp [heq],
        .object (bracketed_of_separated hb '\x7b' '\x7d') hk hv,
        reads_object hb hk fun member hm => (hv member hm).spelled⟩
    split at hread
    · next hclose =>
      cases hread
      obtain ⟨space, hs, htail⟩ := exists_blank tail
      exact ⟨space, [], by rw [htail, hclose], .inl ⟨rfl, hs⟩, by simp, by simp, rfl⟩
    · cases hread
    · rcases hmembers : readMembers fuel tail with ⟨entries, ending, result⟩
      rw [hmembers] at hread
      cases hread
      obtain ⟨members, hne, htail, hk, hv, rfl, rfl⟩ := h.members _ _ _ _ hmembers
      exact ⟨_, members, htail, .inr ⟨mt List.map_eq_nil_iff.mp hne, rfl⟩, hk, hv, rfl⟩
  · next c tail _ _ _ _ _ _ _ heq =>
    split at hread
    · next hdigit =>
      rw [heq]
      obtain ⟨front, hcs, hn, htakes⟩ := recognizes_readNumber.splits _ _ _ hread
      exact ⟨front, hcs, .number hn, reads_number hn htakes⟩
    · cases hread

/-- The space up to a comma or a bracket goes to the part before it. -/
theorem exists_part (h : Splits fuel) {cs tail : List Char} {value : Json}
    (hread : readValue fuel cs = (value, some tail)) :
    ∃ part, cs = part ++ dropSpace tail ∧ IsValue part ∧ valueOf part = value := by
  obtain ⟨front, rfl, hv, hr⟩ := h.value _ _ _ hread
  obtain ⟨space, hs, htail⟩ := exists_blank tail
  have hpart : Spelled (front ++ space) value := ⟨hv.append_blank hs, front, space, rfl, hs, hr⟩
  exact ⟨front ++ space, by rw [List.append_assoc, ← htail], hpart.isValue, hpart.valueOf_eq⟩

theorem items_succ (h : Splits fuel) (cs : List Char) (items : List Json) (ending : Option Problem)
    (rest : List Char) (hread : readItems (fuel + 1) cs = (items, ending, some rest)) :
    ∃ pieces, pieces ≠ [] ∧ cs = [','].intercalate pieces ++ ']' :: rest ∧
      (∀ piece ∈ pieces, IsValue piece) ∧ items = pieces.map valueOf ∧ ending = none := by
  rw [readItems] at hread
  rcases hitem : readValue fuel cs with ⟨item, _ | tail⟩
  · rw [hitem] at hread
    cases hread
  · rw [hitem] at hread
    dsimp only at hread
    obtain ⟨piece, hcs, hpiece, hvalue⟩ := h.exists_part hitem
    split at hread
    · next hclose =>
      cases hread
      refine ⟨[piece], by simp, ?_, by simp [hpiece], by simp [hvalue], rfl⟩
      rw [List.intercalate_singleton, hcs, hclose]
    · next more hcomma =>
      split at hread
      · cases hread
      · rcases hmore : readItems fuel more with ⟨others, ending, result⟩
        rw [hmore] at hread
        cases hread
        obtain ⟨pieces, hne, rfl, hp, rfl, rfl⟩ := h.items _ _ _ _ hmore
        obtain ⟨next, pieces, rfl⟩ := List.exists_cons_of_ne_nil hne
        refine ⟨piece :: next :: pieces, by simp, ?_, List.forall_mem_cons.mpr ⟨hpiece, hp⟩,
          by simp [hvalue], rfl⟩
        rw [intercalate_append, hcs, hcomma]
    · cases hread
    · cases hread

theorem members_succ (h : Splits fuel) (cs : List Char) (entries : List (Option String × Json))
    (ending : Option Problem) (rest : List Char)
    (hread : readMembers (fuel + 1) cs = (entries, ending, some rest)) :
    ∃ members, members ≠ [] ∧ cs = [','].intercalate (members.map Member.text) ++ '\x7d' :: rest ∧
      (∀ member ∈ members, IsKey member.key) ∧ (∀ member ∈ members, IsValue member.value) ∧
      entries = members.map Member.entry ∧ ending = none := by
  rw [readMembers] at hread
  split at hread
  · cases hread
  · next quoted hquote =>
    split at hread
    · split at hread <;> cases hread
    · next name after hname =>
      split at hread
      · cases hread
      · next tail hcolon =>
        obtain ⟨key, hcs, hk, rfl⟩ := exists_key hquote hname hcolon
        rcases hvalue : readValue fuel tail with ⟨value, _ | tail⟩
        · rw [hvalue] at hread
          cases hread
        · rw [hvalue] at hread
          dsimp only at hread
          obtain ⟨part, rfl, hv, rfl⟩ := h.exists_part hvalue
          have hmember : cs = Member.text ⟨key, part⟩ ++ dropSpace tail := by
            rw [hcs, Member.text]
            simp
          split at hread
          · next hclose =>
            cases hread
            refine ⟨[⟨key, part⟩], by simp, ?_, by simp [hk], by simp [hv], rfl, rfl⟩
            rw [List.map_singleton, List.intercalate_singleton, hmember, hclose]
          · next more hcomma =>
            rcases hmore : readMembers fuel more with ⟨others, ending, result⟩
            rw [hmore] at hread
            cases hread
            obtain ⟨members, hne, rfl, hks, hvs, rfl, rfl⟩ := h.members _ _ _ _ hmore
            obtain ⟨next, members, rfl⟩ := List.exists_cons_of_ne_nil hne
            refine ⟨⟨key, part⟩ :: next :: members, by simp, ?_, List.forall_mem_cons.mpr ⟨hk, hks⟩,
              List.forall_mem_cons.mpr ⟨hv, hvs⟩, rfl, rfl⟩
            rw [List.map_cons, List.map_cons, intercalate_append, hmember, hcomma, List.map_cons]
          · cases hread
          · cases hread
      · cases hread
  · cases hread

end Splits

theorem splits (fuel : Nat) : Splits fuel := by
  induction fuel with
  | zero =>
    refine ⟨?_, ?_, ?_⟩
    · intro cs value rest h
      cases h
    · intro cs items ending rest h
      cases h
    · intro cs entries ending rest h
      cases h
  | succ fuel ih => exact ⟨ih.value_succ, ih.items_succ, ih.members_succ⟩

/-! ### Whole texts -/

/-- A text is well-formed exactly if it is read to its end without a problem. -/
theorem isValue_iff {cs : List Char} :
    IsValue cs ↔ (ofText (String.ofList cs)).hasMore = false ∧ (valueOf cs).skip = none := by
  have hmarks := (marksAll (2 * cs.length + 2)).value cs
  constructor
  · intro h
    have hspelled := h.spelled
    refine ⟨by rw [hspelled.ofText], ?_⟩
    obtain ⟨after, -, hread⟩ := hspelled.readValue
    have hwhole := hread (2 * cs.length + 2) [] (by omega) ends_nil
    rw [List.append_nil] at hwhole
    simpa [hwhole, Marks] using hmarks
  · rintro ⟨hmore, hskip⟩
    rw [valueOf] at hskip
    simp only [ofText, String.toList_ofList] at hmore hskip
    rcases hread : readValue (2 * cs.length + 2) cs with ⟨value, _ | rest⟩
    · simp [hread, Marks] at hskip hmarks
      simp [hskip] at hmarks
    · obtain ⟨front, rfl, hv, -⟩ := (splits _).value _ _ _ hread
      simp only [hread, Bool.not_eq_false', List.isEmpty_iff] at hmore
      exact hv.append_blank (dropSpace_eq_nil_iff.mp hmore)

/-! ### Texts fall into parts -/

def IsScalar : Json → Prop
  | null | bool _ | number _ | text _ => True
  | _ => False

theorem isScalar_of_takes {cs : List Char} {value : Json} (h : Takes readNumber cs value) :
    IsScalar value := by
  have hgives := givesNumber_readNumber (cs ++ [])
  rw [h [] ends_nil] at hgives
  cases hgives
  trivial

theorem Bracketed.spaced {opening closing : Char} {cs before after : List Char}
    {parts : List (List Char)} (hb : Blank before) (h : Bracketed opening closing cs parts)
    (ha : Blank after) : Bracketed opening closing (before ++ cs ++ after) parts := by
  obtain ⟨left, body, right, rfl, hl, hr, hs⟩ := h
  exact ⟨before ++ left, body, right ++ after, by simp, List.forall_mem_append.mpr ⟨hb, hl⟩,
    List.forall_mem_append.mpr ⟨hr, ha⟩, hs⟩

/-- A text that is not that of a string, a number or a word falls into items or members. -/
theorem IsValue.exists_parts {cs : List Char} (h : IsValue cs) :
    (∃ members, ObjectText cs members) ∨ (∃ pieces, ArrayText cs pieces) ∨ IsScalar (valueOf cs) := by
  induction h with
  | null =>
    rw [(Spelled.of_reads .null reads_null).valueOf_eq]
    exact .inr (.inr trivial)
  | true =>
    rw [(Spelled.of_reads .true reads_true).valueOf_eq]
    exact .inr (.inr trivial)
  | false =>
    rw [(Spelled.of_reads .false reads_false).valueOf_eq]
    exact .inr (.inr trivial)
  | number h =>
    obtain ⟨value, hvalue⟩ := recognizes_readNumber.takes _ h
    rw [(Spelled.of_reads (.number h) (reads_number h hvalue)).valueOf_eq]
    exact .inr (.inr (isScalar_of_takes hvalue))
  | negative h =>
    obtain ⟨value, hvalue⟩ := recognizes_readNumber.takes _ h
    rw [(Spelled.of_reads (.negative h) (reads_negative hvalue)).valueOf_eq]
    exact .inr (.inr (isScalar_of_takes hvalue))
  | text h =>
    obtain ⟨name, hname⟩ := h.exists_readText {}
    rw [(Spelled.of_reads (.text h) (reads_text hname)).valueOf_eq]
    exact .inr (.inr trivial)
  | array h hp => exact .inr (.inl ⟨_, h, hp⟩)
  | object h hk hv => exact .inl ⟨_, h, hk, hv⟩
  | spaced hb h ha ih =>
    rw [(h.spelled.spaced hb ha).valueOf_eq]
    obtain ⟨members, hm⟩ | ⟨pieces, hp⟩ | hs := ih
    · exact .inl ⟨members, hm.brackets.spaced hb ha, hm.keys, hm.values⟩
    · exact .inr (.inl ⟨pieces, hp.brackets.spaced hb ha, hp.items⟩)
    · exact .inr (.inr hs)

end WorkflowAnalysis.Json
