import Mathlib.Data.List.DropRight
import Mathlib.Data.List.TakeWhile
import WorkflowAnalysis.Json.Reader

/-! What a text of a value looks like, said without reading it. Of the readers, those of numbers, words and
strings take exactly the characters of their form, whatever follows these, as long as that does not go on
with a number. -/
namespace WorkflowAnalysis.Json

/-! ### Forms -/

def Blank (cs : List Char) : Prop := ∀ c ∈ cs, isSpace c = true

structure IsDigits (cs : List Char) : Prop where
  ne_nil : cs ≠ []
  all : ∀ c ∈ cs, c.isDigit = true

inductive IsExponent : List Char → Prop
  | absent : IsExponent []
  | present {mark : Char} {sign digits : List Char} (hm : mark = 'e' ∨ mark = 'E')
      (hs : sign = [] ∨ sign = ['+'] ∨ sign = ['-']) (hd : IsDigits digits) :
      IsExponent (mark :: (sign ++ digits))

inductive IsFraction : List Char → Prop
  | absent {exponent : List Char} (he : IsExponent exponent) : IsFraction exponent
  | present {digits exponent : List Char} (hd : IsDigits digits) (he : IsExponent exponent) :
      IsFraction ('.' :: (digits ++ exponent))

/-- A number without its sign. No zero comes in front of other digits. -/
inductive IsNumber : List Char → Prop
  | whole {digits fraction : List Char} (hd : IsDigits digits)
      (hz : digits.head? = some '0' → digits = ['0']) (hf : IsFraction fraction) :
      IsNumber (digits ++ fraction)

def IsHexDigit (c : Char) : Prop := c.isDigit = true ∨ 'a' ≤ c ∧ c ≤ 'f' ∨ 'A' ≤ c ∧ c ≤ 'F'

inductive IsText : List Char → Prop
  | nil : IsText []
  | plain {c : Char} {cs : List Char} (hq : c ≠ '\x22') (hb : c ≠ '\x5c') (hc : 0x20 ≤ c.toNat)
      (h : IsText cs) : IsText (c :: cs)
  | escape {c : Char} {cs : List Char} (hc : c ∈ ['\x22', '\x5c', '/', 'b', 'f', 'n', 'r', 't'])
      (h : IsText cs) : IsText ('\x5c' :: c :: cs)
  | unit {digits cs : List Char} (hn : digits.length = 4) (hd : ∀ c ∈ digits, IsHexDigit c)
      (h : IsText cs) : IsText ('\x5c' :: 'u' :: (digits ++ cs))

theorem isText_of_plain (cs : List Char)
    (h : ∀ c ∈ cs, c ≠ '\x22' ∧ c ≠ '\x5c' ∧ 0x20 ≤ c.toNat) : IsText cs := by
  induction cs with
  | nil => exact .nil
  | cons c cs ih =>
    obtain ⟨⟨hq, hb, hc⟩, hcs⟩ := List.forall_mem_cons.mp h
    exact .plain hq hb hc (ih hcs)

inductive IsKey : List Char → Prop
  | quoted {before inner after : List Char} (hb : Blank before) (hi : IsText inner) (ha : Blank after) :
      IsKey (before ++ '\x22' :: (inner ++ '\x22' :: after))

/-- A member of an object as it is spelled: what stands before the colon and what stands after it. -/
structure Member where
  key : List Char
  value : List Char

def Member.text (member : Member) : List Char := member.key ++ ':' :: member.value

/-- Parts with commas between them. -/
def Separated (cs : List Char) (parts : List (List Char)) : Prop :=
  parts = [] ∧ Blank cs ∨ parts ≠ [] ∧ cs = [','].intercalate parts

/-- Such parts between brackets, with space around. -/
def Bracketed (opening closing : Char) (cs : List Char) (parts : List (List Char)) : Prop :=
  ∃ before body after, cs = before ++ opening :: (body ++ closing :: after) ∧ Blank before ∧
    Blank after ∧ Separated body parts

/-- Well-formed JSON, with space around. -/
inductive IsValue : List Char → Prop
  | null : IsValue ['n', 'u', 'l', 'l']
  | true : IsValue ['t', 'r', 'u', 'e']
  | false : IsValue ['f', 'a', 'l', 's', 'e']
  | number {cs : List Char} (h : IsNumber cs) : IsValue cs
  | negative {cs : List Char} (h : IsNumber cs) : IsValue ('-' :: cs)
  | text {inner : List Char} (h : IsText inner) : IsValue ('\x22' :: (inner ++ ['\x22']))
  | array {cs : List Char} {pieces : List (List Char)} (h : Bracketed '[' ']' cs pieces)
      (hp : ∀ piece ∈ pieces, IsValue piece) : IsValue cs
  | object {cs : List Char} {members : List Member}
      (h : Bracketed '\x7b' '\x7d' cs (members.map Member.text))
      (hk : ∀ member ∈ members, IsKey member.key)
      (hv : ∀ member ∈ members, IsValue member.value) : IsValue cs
  | spaced {before cs after : List Char} (hb : Blank before) (h : IsValue cs) (ha : Blank after) :
      IsValue (before ++ cs ++ after)

theorem blank_nil : Blank [] := by simp [Blank]

theorem IsValue.blank_append {before cs : List Char} (hb : Blank before) (h : IsValue cs) :
    IsValue (before ++ cs) := by
  have hspaced := IsValue.spaced hb h blank_nil
  rwa [List.append_nil] at hspaced

theorem IsValue.append_blank {cs after : List Char} (h : IsValue cs) (ha : Blank after) :
    IsValue (cs ++ after) :=
  .spaced blank_nil h ha

structure ArrayText (cs : List Char) (pieces : List (List Char)) : Prop where
  brackets : Bracketed '[' ']' cs pieces
  items : ∀ piece ∈ pieces, IsValue piece

structure ObjectText (cs : List Char) (members : List Member) : Prop where
  brackets : Bracketed '\x7b' '\x7d' cs (members.map Member.text)
  keys : ∀ member ∈ members, IsKey member.key
  values : ∀ member ∈ members, IsValue member.value

theorem objectText_singleton {member : Member} (hk : IsKey member.key) (hv : IsValue member.value) :
    ObjectText ('\x7b' :: (member.text ++ ['\x7d'])) [member] where
  brackets := ⟨[], member.text, [], rfl, blank_nil, blank_nil, .inr ⟨by simp, by simp⟩⟩
  keys := List.forall_mem_singleton.mpr hk
  values := List.forall_mem_singleton.mpr hv

/-! ### Readers that leave the rest alone -/

def NoDigit (cs : List Char) : Prop := ∀ c ∈ cs.head?, c.isDigit = false

/-- What may follow a value: nothing that would go on with a number. -/
def Ends (cs : List Char) : Prop :=
  ∀ c ∈ cs.head?, c.isDigit = false ∧ c ≠ '.' ∧ c ≠ 'e' ∧ c ≠ 'E'

theorem Ends.noDigit {cs : List Char} (h : Ends cs) : NoDigit cs := fun c hc => (h c hc).1

/-- A reader takes some characters for a value, whatever follows them. -/
def Takes (read : List Char → Json × Option (List Char)) (front : List Char) (value : Json) : Prop :=
  ∀ rest, Ends rest → read (front ++ rest) = (value, some rest)

/-- A reader takes exactly the characters of a form. What it makes of them does not depend on what it
leaves. -/
structure Recognizes (read : List Char → Json × Option (List Char)) (form : List Char → Prop) :
    Prop where
  splits : ∀ cs value rest, read cs = (value, some rest) →
    ∃ front, cs = front ++ rest ∧ form front ∧ Takes read front value
  takes : ∀ front, form front → ∃ value, Takes read front value

/-! ### Digits -/

theorem exists_digits (cs : List Char) :
    ∃ digits rest, cs = digits ++ rest ∧ (∀ c ∈ digits, c.isDigit = true) ∧ NoDigit rest := by
  refine ⟨cs.takeWhile Char.isDigit, cs.dropWhile Char.isDigit,
    List.takeWhile_append_dropWhile.symm, fun c hc => List.mem_takeWhile_imp hc, ?_⟩
  intro c hc
  have := List.head?_dropWhile_not Char.isDigit cs
  simp_all

section Digits

variable {digits rest : List Char} (hd : ∀ c ∈ digits, c.isDigit = true) (hr : NoDigit rest)

include hd hr

theorem wholeDigits_append (significand dropped : Nat) :
    wholeDigits significand dropped (digits ++ rest) =
      ((wholeDigits significand dropped digits).1, (wholeDigits significand dropped digits).2.1,
        rest) := by
  induction digits generalizing significand dropped with
  | nil =>
    cases rest with
    | nil => rfl
    | cons c rest => simp [wholeDigits, hr c rfl]
  | cons c digits ih =>
    have hc := hd c List.mem_cons_self
    have hall := fun c hm => hd c (List.mem_cons_of_mem _ hm)
    simp only [List.cons_append, wholeDigits, hc]
    split
    · contradiction
    · split
      · exact ih hall _ _
      · exact ih hall _ _

theorem fractionDigits_append (significand used : Nat) (isFull : Bool) :
    fractionDigits significand used isFull (digits ++ rest) =
      ((fractionDigits significand used isFull digits).1,
        (fractionDigits significand used isFull digits).2.1, rest) := by
  induction digits generalizing significand used isFull with
  | nil =>
    cases rest with
    | nil => rfl
    | cons c rest => simp [fractionDigits, hr c rfl]
  | cons c digits ih =>
    have hc := hd c List.mem_cons_self
    have hall := fun c hm => hd c (List.mem_cons_of_mem _ hm)
    simp only [List.cons_append, fractionDigits, hc]
    split
    · contradiction
    · split
      · exact ih hall _ _ _
      · exact ih hall _ _ _

theorem takeWhile_digits : (digits ++ rest).takeWhile Char.isDigit = digits := by
  rw [List.takeWhile_append_of_pos hd]
  cases rest with
  | nil => simp
  | cons c rest => simp [hr c rfl]

theorem dropWhile_digits : (digits ++ rest).dropWhile Char.isDigit = rest := by
  rw [List.dropWhile_append_of_pos hd]
  cases rest with
  | nil => rfl
  | cons c rest => simp [hr c rfl]

theorem head?_digits : ((digits ++ rest).head?.map Char.isDigit).getD false = !digits.isEmpty := by
  cases digits with
  | nil =>
    cases rest with
    | nil => rfl
    | cons c rest => simp [hr c rfl]
  | cons c digits => simp [hd c List.mem_cons_self]

end Digits

theorem missingDigit_ne {cs rest : List Char} {value : Json} :
    missingDigit cs ≠ (value, some rest) := by
  unfold missingDigit
  split <;> simp

/-! ### Exponents -/

theorem readExponentDigits_append {digits rest : List Char} (hd : IsDigits digits) (hr : NoDigit rest)
    (significand : Nat) (exponent : Int) (isNegative : Bool) :
    readExponentDigits significand exponent isNegative (digits ++ rest) =
      ((readExponentDigits significand exponent isNegative digits).1, some rest) := by
  obtain ⟨c, digits, rfl⟩ := List.exists_cons_of_ne_nil hd.ne_nil
  simp only [readExponentDigits, takeWhile_digits hd.all hr, dropWhile_digits hd.all hr,
    List.takeWhile_eq_self_iff.mpr hd.all]

theorem recognizes_readExponentDigits (significand : Nat) (exponent : Int) (isNegative : Bool) :
    Recognizes (readExponentDigits significand exponent isNegative) IsDigits where
  splits := by
    intro cs value rest h
    obtain ⟨digits, tail, rfl, hall, hr⟩ := exists_digits cs
    by_cases hne : digits = []
    · subst hne
      rw [readExponentDigits, takeWhile_digits hall hr] at h
      exact absurd h missingDigit_ne
    · have hd : IsDigits digits := ⟨hne, hall⟩
      rw [readExponentDigits_append hd hr] at h
      cases h
      exact ⟨digits, rfl, hd, fun other ho => readExponentDigits_append hd ho.noDigit _ _ _⟩
  takes := fun _ hd => ⟨_, fun _ ho => readExponentDigits_append hd ho.noDigit _ _ _⟩

theorem takes_readExponent {significand : Nat} {exponent : Int} {mark : Char}
    {sign digits : List Char} {value : Json} (hm : mark = 'e' ∨ mark = 'E')
    (hs : sign = [] ∨ sign = ['+'] ∨ sign = ['-']) (hd : IsDigits digits)
    (h : Takes (readExponentDigits significand exponent (sign == ['-'])) digits value) :
    Takes (readExponent significand exponent) (mark :: (sign ++ digits)) value := by
  intro rest hr
  have hmark : (mark == 'e' || mark == 'E') = true := by simpa using hm
  rw [← h rest hr]
  rcases hs with rfl | rfl | rfl
  · obtain ⟨c, digits, rfl⟩ := List.exists_cons_of_ne_nil hd.ne_nil
    have hc := hd.all c List.mem_cons_self
    simp only [readExponent, List.cons_append, List.nil_append, hmark, if_true]
    split
    · next heq =>
      cases heq
      cases hc
    · next heq =>
      cases heq
      cases hc
    · rfl
  · simp [readExponent, hmark]
  · simp [readExponent, hmark]

theorem takes_readExponent_nil (significand : Nat) (exponent : Int) :
    Takes (readExponent significand exponent) [] (number (isTooLarge significand exponent)) := by
  intro rest h
  cases rest with
  | nil => rfl
  | cons c rest =>
    have hc := h c rfl
    simp [readExponent, hc]

theorem recognizes_readExponent (significand : Nat) (exponent : Int) :
    Recognizes (readExponent significand exponent) IsExponent where
  splits := by
    intro cs value rest h
    cases cs with
    | nil =>
      cases h
      exact ⟨[], rfl, .absent, takes_readExponent_nil _ _⟩
    | cons c cs =>
      unfold readExponent at h
      by_cases hc : (c == 'e' || c == 'E') = true
      · have hmark : c = 'e' ∨ c = 'E' := by simpa using hc
        simp only [hc, if_true] at h
        split at h
        · obtain ⟨digits, rfl, hd, htakes⟩ := (recognizes_readExponentDigits ..).splits _ _ _ h
          have hs : ['-'] = [] ∨ ['-'] = ['+'] ∨ ['-'] = ['-'] := by simp
          exact ⟨_, rfl, .present hmark hs hd, takes_readExponent hmark hs hd htakes⟩
        · obtain ⟨digits, rfl, hd, htakes⟩ := (recognizes_readExponentDigits ..).splits _ _ _ h
          have hs : ['+'] = [] ∨ ['+'] = ['+'] ∨ ['+'] = ['-'] := by simp
          exact ⟨_, rfl, .present hmark hs hd, takes_readExponent hmark hs hd htakes⟩
        · obtain ⟨digits, rfl, hd, htakes⟩ := (recognizes_readExponentDigits ..).splits _ _ _ h
          exact ⟨_, rfl, .present hmark (.inl rfl) hd, takes_readExponent hmark (.inl rfl) hd htakes⟩
      · simp only [hc] at h
        cases h
        exact ⟨[], rfl, .absent, takes_readExponent_nil _ _⟩
  takes := by
    intro front h
    cases h with
    | absent => exact ⟨_, takes_readExponent_nil _ _⟩
    | @present _ sign _ hm hs hd =>
      obtain ⟨value, hvalue⟩ :=
        (recognizes_readExponentDigits significand exponent (sign == ['-'])).takes _ hd
      exact ⟨value, takes_readExponent hm hs hd hvalue⟩

/-! ### Numbers -/

/-- An exponent, or what follows it, does not go on with the digits before it. -/
theorem IsExponent.head {exponent rest : List Char} (h : IsExponent exponent) (hr : Ends rest) :
    ∀ c ∈ (exponent ++ rest).head?, c.isDigit = false ∧ c ≠ '.' := by
  cases h with
  | absent => exact fun c hc => ⟨(hr c hc).1, (hr c hc).2.1⟩
  | present hm =>
    rintro c hc
    cases hc
    rcases hm with rfl | rfl <;> decide

def readFraction (significand dropped : Nat) (cs : List Char) : Json × Option (List Char) :=
  match cs with
  | '.' :: digits =>
    if (digits.head?.map Char.isDigit).getD false then
      let (all, used, rest) := fractionDigits significand 0 false digits
      readExponent all (Int.ofNat dropped - Int.ofNat used) rest
    else missingDigit digits
  | _ => readExponent significand dropped cs

theorem takes_readFraction_absent {significand dropped : Nat} {exponent : List Char} {value : Json}
    (he : IsExponent exponent) (h : Takes (readExponent significand dropped) exponent value) :
    Takes (readFraction significand dropped) exponent value := by
  intro rest hr
  rw [← h rest hr, readFraction]
  intro digits heq
  exact (he.head hr '.' (by rw [heq]; rfl)).2 rfl

theorem takes_readFraction_present {significand dropped : Nat} {digits exponent : List Char}
    {value : Json} (hd : IsDigits digits) (he : IsExponent exponent)
    (h : Takes (readExponent (fractionDigits significand 0 false digits).1
      (Int.ofNat dropped - Int.ofNat (fractionDigits significand 0 false digits).2.1)) exponent value) :
    Takes (readFraction significand dropped) ('.' :: (digits ++ exponent)) value := by
  intro rest hr
  have hnone : NoDigit (exponent ++ rest) := fun c hc => (he.head hr c hc).1
  have hsome : digits.isEmpty = false := by simpa using hd.ne_nil
  rw [List.cons_append, List.append_assoc, readFraction, head?_digits hd.all hnone,
    fractionDigits_append hd.all hnone, hsome, Bool.not_false, if_pos rfl]
  exact h rest hr

theorem recognizes_readFraction (significand dropped : Nat) :
    Recognizes (readFraction significand dropped) IsFraction where
  splits := by
    intro cs value rest h
    unfold readFraction at h
    split at h
    · next tail =>
      obtain ⟨digits, tail, rfl, hd, hr⟩ := exists_digits tail
      rw [head?_digits hd hr, fractionDigits_append hd hr] at h
      by_cases hne : digits = []
      · subst hne
        exact absurd h missingDigit_ne
      · rw [if_pos (by simpa using hne)] at h
        obtain ⟨exponent, rfl, he, htakes⟩ := (recognizes_readExponent ..).splits _ _ _ h
        exact ⟨_, by simp, .present ⟨hne, hd⟩ he, takes_readFraction_present ⟨hne, hd⟩ he htakes⟩
    · obtain ⟨exponent, rfl, he, htakes⟩ := (recognizes_readExponent ..).splits _ _ _ h
      exact ⟨_, rfl, .absent he, takes_readFraction_absent he htakes⟩
  takes := by
    intro front h
    cases h with
    | absent he =>
      obtain ⟨value, hvalue⟩ := (recognizes_readExponent significand dropped).takes _ he
      exact ⟨value, takes_readFraction_absent he hvalue⟩
    | present hd he =>
      obtain ⟨value, hvalue⟩ := (recognizes_readExponent _ _).takes _ he
      exact ⟨value, takes_readFraction_present hd he hvalue⟩

theorem readNumber_cons (first : Char) (after : List Char) :
    readNumber (first :: after) =
      if !first.isDigit then missingDigit (first :: after)
      else if first = '0' && (after.head?.map Char.isDigit).getD false then
        (broken .malformed .malformed, none)
      else
        readFraction (wholeDigits 0 0 (first :: after)).1 (wholeDigits 0 0 (first :: after)).2.1
          (wholeDigits 0 0 (first :: after)).2.2 :=
  rfl

/-- The digits of a number end where its fraction begins. -/
theorem IsFraction.noDigit {fraction rest : List Char} (h : IsFraction fraction) (hr : Ends rest) :
    NoDigit (fraction ++ rest) := by
  cases h with
  | absent he => exact fun c hc => (he.head hr c hc).1
  | present =>
    rintro c hc
    cases hc
    rfl

theorem readNumber_append {first : Char} {digits tail : List Char}
    (hd : ∀ c ∈ first :: digits, c.isDigit = true) (ht : NoDigit tail) :
    readNumber (first :: digits ++ tail) =
      if first = '0' && !digits.isEmpty then (broken .malformed .malformed, none)
      else
        readFraction (wholeDigits 0 0 (first :: digits)).1 (wholeDigits 0 0 (first :: digits)).2.1
          tail := by
  have hfirst := hd first List.mem_cons_self
  have hdigits : ∀ c ∈ digits, c.isDigit = true := fun c hm => hd c (List.mem_cons_of_mem _ hm)
  rw [List.cons_append, readNumber_cons, head?_digits hdigits ht, ← List.cons_append,
    wholeDigits_append hd ht, if_neg (by simp [hfirst])]

theorem takes_readNumber {digits fraction : List Char} {value : Json} (hd : IsDigits digits)
    (hz : digits.head? = some '0' → digits = ['0']) (hf : IsFraction fraction)
    (h : Takes (readFraction (wholeDigits 0 0 digits).1 (wholeDigits 0 0 digits).2.1) fraction value) :
    Takes readNumber (digits ++ fraction) value := by
  obtain ⟨first, digits, rfl⟩ := List.exists_cons_of_ne_nil hd.ne_nil
  intro rest hr
  rw [List.append_assoc, readNumber_append hd.all (hf.noDigit hr), if_neg, h rest hr]
  intro hzero
  simp_all

theorem recognizes_readNumber : Recognizes readNumber IsNumber where
  splits := by
    intro cs value rest h
    obtain ⟨digits, tail, rfl, hd, hr⟩ := exists_digits cs
    cases digits with
    | nil =>
      cases tail with
      | nil => cases h
      | cons c tail =>
        rw [List.nil_append, readNumber_cons, hr c rfl, Bool.not_false, if_pos rfl] at h
        exact absurd h missingDigit_ne
    | cons first digits =>
      rw [readNumber_append hd hr] at h
      split at h
      · cases h
      · next hzero =>
        obtain ⟨fraction, rfl, hf, htakes⟩ := (recognizes_readFraction ..).splits _ _ _ h
        have hdigits : IsDigits (first :: digits) := ⟨by simp, hd⟩
        have hz : (first :: digits).head? = some '0' → first :: digits = ['0'] := by
          intro hfirst
          simp_all
        exact ⟨_, by simp, .whole hdigits hz hf, takes_readNumber hdigits hz hf htakes⟩
  takes := by
    rintro front ⟨hd, hz, hf⟩
    obtain ⟨value, hvalue⟩ := (recognizes_readFraction _ _).takes _ hf
    exact ⟨value, takes_readNumber hd hz hf hvalue⟩

/-! ### Words and strings -/

theorem readWord_eq {value found : Json} {letters cs rest : List Char} :
    readWord value letters cs = (found, some rest) ↔ cs = letters ++ rest ∧ found = value := by
  induction letters generalizing cs with
  | nil => simp [readWord, and_comm, eq_comm]
  | cons letter letters ih =>
    cases cs with
    | nil => simp [readWord]
    | cons c cs =>
      by_cases hc : c = letter
      · simp [readWord, hc, ih]
      · simp [readWord, hc]

theorem isSome_hexValue? {c : Char} : (hexValue? c).isSome ↔ IsHexDigit c := by
  unfold hexValue? IsHexDigit
  split
  · simp_all
  · split
    · simp_all
    · split <;> simp_all

theorem isSome_hexUnit? {a b c d : Char} :
    (hexUnit? a b c d).isSome ↔ ∀ digit ∈ [a, b, c, d], IsHexDigit digit := by
  simp only [← isSome_hexValue?, List.forall_mem_cons, List.not_mem_nil, false_imp_iff, implies_true]
  unfold hexUnit?
  cases hexValue? a <;> cases hexValue? b <;> cases hexValue? c <;> cases hexValue? d <;> simp

theorem isSome_simpleEscape? {c : Char} :
    (simpleEscape? c).isSome ↔ c ∈ ['\x22', '\x5c', '/', 'b', 'f', 'n', 'r', 't'] := by
  unfold simpleEscape?
  split <;> simp_all

theorem exists_of_readText {f : Fragment} {cs rest : List Char} {value : Option String}
    (h : readText f cs = .closed value rest) :
    ∃ inner, cs = inner ++ '\x22' :: rest ∧ IsText inner ∧
      ∀ other, readText f (inner ++ '\x22' :: other) = .closed value other := by
  fun_induction readText f cs with
  | case2 f cs =>
    cases h
    exact ⟨[], rfl, .nil, fun other => rfl⟩
  | case4 f a b c d cs unit hunit ih =>
    obtain ⟨inner, rfl, hi, htakes⟩ := ih h
    have hdigits : ∀ digit ∈ [a, b, c, d], IsHexDigit digit := isSome_hexUnit?.mp (by simp [hunit])
    refine ⟨'\x5c' :: 'u' :: ([a, b, c, d] ++ inner), rfl, .unit rfl hdigits hi, fun other => ?_⟩
    simp only [List.cons_append, List.nil_append, readText, hunit, htakes other]
  | case7 f c cs _ hu plain hplain ih =>
    obtain ⟨inner, rfl, hi, htakes⟩ := ih h
    have hc := isSome_simpleEscape?.mp (show (simpleEscape? c).isSome by simp [hplain])
    refine ⟨'\x5c' :: c :: inner, rfl, .escape hc hi, fun other => ?_⟩
    rw [List.cons_append, List.cons_append, readText, if_neg hu, hplain]
    · exact htakes other
    · intro a b c d cs hc
      exact absurd hc hu
  | case10 f c cs hquote hlone hunit hescape hcontrol ih =>
    have hback : c ≠ '\x5c' := by
      intro hc
      cases hcs : cs with
      | nil => exact hlone hc hcs
      | cons d ds => exact hescape d ds hc hcs
    obtain ⟨inner, rfl, hi, htakes⟩ := ih h
    refine ⟨c :: inner, rfl, .plain hquote hback (by omega) hi, fun other => ?_⟩
    rw [List.cons_append, readText, if_neg hcontrol]
    · exact htakes other
    · exact hquote
    all_goals
      intros
      contradiction
  | case1 | case3 | case5 | case6 | case8 | case9 => cases h

theorem IsText.exists_readText {inner : List Char} (h : IsText inner) (f : Fragment) :
    ∃ value, ∀ rest, readText f (inner ++ '\x22' :: rest) = .closed value rest := by
  induction h generalizing f with
  | nil => exact ⟨_, fun rest => rfl⟩
  | @plain c cs hq hb hc _ ih =>
    obtain ⟨value, hvalue⟩ := ih (f.push c)
    refine ⟨value, fun rest => ?_⟩
    rw [List.cons_append, readText, if_neg (by omega), hvalue]
    · exact hq
    all_goals
      intros
      contradiction
  | @escape c cs hc _ ih =>
    obtain ⟨plain, hplain⟩ := Option.isSome_iff_exists.mp (isSome_simpleEscape?.mpr hc)
    have hu : c ≠ 'u' := by
      rintro rfl
      simp at hc
    obtain ⟨value, hvalue⟩ := ih (f.push plain)
    refine ⟨value, fun rest => ?_⟩
    rw [List.cons_append, List.cons_append, readText, if_neg hu, hplain]
    · exact hvalue rest
    · intro a b c d cs hc
      exact absurd hc hu
  | @unit digits cs hn hd _ ih =>
    obtain ⟨a, b, c, d, rfl⟩ := List.length_eq_four.mp hn
    obtain ⟨unit, hunit⟩ := Option.isSome_iff_exists.mp (isSome_hexUnit?.mpr hd)
    obtain ⟨value, hvalue⟩ := ih (f.pushUnit unit)
    refine ⟨value, fun rest => ?_⟩
    simp only [List.cons_append, List.nil_append, readText, hunit, hvalue rest]

end WorkflowAnalysis.Json
