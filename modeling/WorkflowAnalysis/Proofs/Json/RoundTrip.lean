import WorkflowAnalysis.Json.Reader
import WorkflowAnalysis.Json.Writer

/-! Reading what was written. A document is rendered without space and its strings hold no half of a
surrogate pair, so the reader takes exactly the rendered characters and finds nothing wrong in them. -/
namespace WorkflowAnalysis.Document

open Json

/-! ### Strings -/

theorem hexUnit?_hexChar :
    ∀ n < 0x20, hexUnit? '0' '0' (hexChar (n / 16)) (hexChar (n % 16)) = some n := by
  decide

theorem readText_escape (reversed rest : List Char) (c : Char) :
    readText { reversed } (escape c ++ rest) = readText { reversed := c :: reversed } rest := by
  unfold escape
  split
  case h_8 =>
    split
    · rename_i hcontrol
      have hhigh : isHigh c.toNat = false := by
        simp only [isHigh, Bool.and_eq_false_iff, decide_eq_false_iff_not]
        omega
      have hlow : isLow c.toNat = false := by
        simp only [isLow, Bool.and_eq_false_iff, decide_eq_false_iff_not]
        omega
      simp only [List.cons_append, List.nil_append, readText, hexUnit?_hexChar _ hcontrol]
      simp [Fragment.pushUnit, hhigh, hlow, Fragment.push, Fragment.settle]
    · rename_i hplain
      rw [List.singleton_append, readText]
      · simp [hplain, Fragment.push, Fragment.settle]
      all_goals simp_all
  all_goals simp [readText, simpleEscape?, Fragment.push, Fragment.settle]

theorem readText_flatMap_escape (reversed cs rest : List Char) :
    readText { reversed } (cs.flatMap escape ++ '\x22' :: rest) =
      .closed (some (String.ofList (reversed.reverse ++ cs))) rest := by
  induction cs generalizing reversed with
  | nil => simp [readText, Fragment.settle, Fragment.value]
  | cons c cs ih => rw [List.flatMap_cons, List.append_assoc, readText_escape, ih]; simp

@[simp] theorem readText_quote (text : String) (rest : List Char) :
    readText {} (text.toList.flatMap escape ++ '\x22' :: rest) = .closed (some text) rest := by
  simp [readText_flatMap_escape]

/-! ### Values -/

mutual

def json : Document → Json
  | text value => .text (some value)
  | list items => .array (jsonItems items) none
  | record members => .object (jsonMembers members) none

def jsonItems : List Document → List Json
  | [] => []
  | item :: items => json item :: jsonItems items

def jsonMembers : List (String × Document) → List (Option String × Json)
  | [] => []
  | (key, value) :: members => (some key, json value) :: jsonMembers members

end

theorem jsonItems_eq_map (items : List Document) : jsonItems items = items.map json := by
  induction items with
  | nil => rfl
  | cons item items ih => rw [jsonItems, ih, List.map_cons]

theorem jsonMembers_eq_map (members : List (String × Document)) :
    jsonMembers members = members.map fun member => (some member.1, member.2.json) := by
  induction members with
  | nil => rfl
  | cons member members ih => rw [jsonMembers, ih, List.map_cons]

/-- The first character of a document, after which the reader tells its forms apart. -/
def head : Document → Char
  | text _ => '\x22'
  | list _ => '['
  | record _ => '\x7b'

theorem render_eq_cons (document : Document) : ∃ rest, document.render = document.head :: rest := by
  cases document <;> exact ⟨_, rfl⟩

theorem length_render_pos (document : Document) : 0 < document.render.length := by
  obtain ⟨rest, hr⟩ := document.render_eq_cons
  simp [hr]

theorem head_ne_close (document : Document) : document.head ≠ ']' := by
  cases document <;> simp [head]

theorem head_not_space (document : Document) : isSpace document.head = false := by
  cases document <;> rfl

theorem renderItems_cons_cons (item next : Document) (items : List Document) :
    renderItems (item :: next :: items) = item.render ++ ',' :: renderItems (next :: items) := by
  rw [renderItems]
  simp

theorem renderMembers_cons_cons (key : String) (value : Document) (next : String × Document)
    (members : List (String × Document)) :
    renderMembers ((key, value) :: next :: members) =
      quote key ++ ':' :: value.render ++ ',' :: renderMembers (next :: members) := by
  rw [renderMembers]
  simp

theorem renderItems_eq_cons (item : Document) (items : List Document) :
    ∃ rest, renderItems (item :: items) = item.head :: rest := by
  obtain ⟨rest, hr⟩ := item.render_eq_cons
  cases items with
  | nil => exact ⟨rest, hr⟩
  | cons next items =>
    rw [renderItems_cons_cons, hr]
    exact ⟨_, rfl⟩

theorem renderMembers_eq_cons (member : String × Document) (members : List (String × Document)) :
    ∃ rest, renderMembers (member :: members) = '\x22' :: rest := by
  obtain ⟨key, value⟩ := member
  cases members with
  | nil => exact ⟨_, rfl⟩
  | cons next members =>
    rw [renderMembers_cons_cons]
    exact ⟨_, rfl⟩

/-! ### Steps of the reader -/

variable {fuel : Nat}

theorem readValue_open_list {c : Char} (hs : isSpace c = false) (hc : c ≠ ']') (cs : List Char) :
    readValue (fuel + 1) ('[' :: c :: cs) =
      (.array (readItems fuel (c :: cs)).1 (readItems fuel (c :: cs)).2.1,
        (readItems fuel (c :: cs)).2.2) := by
  simp [readValue, dropSpace, hs, hc, show isSpace '[' = false from rfl]

theorem readValue_open_record (cs : List Char) :
    readValue (fuel + 1) ('\x7b' :: '\x22' :: cs) =
      (.object (readMembers fuel ('\x22' :: cs)).1 (readMembers fuel ('\x22' :: cs)).2.1,
        (readMembers fuel ('\x22' :: cs)).2.2) := by
  simp [readValue, dropSpace, isSpace]

theorem readItems_last {cs rest : List Char} {item : Json}
    (h : readValue fuel cs = (item, some (']' :: rest))) :
    readItems (fuel + 1) cs = ([item], none, some rest) := by
  simp [readItems, h, dropSpace, isSpace]

theorem readItems_comma {cs rest : List Char} {item : Json} {c : Char} (hs : isSpace c = false)
    (hc : c ≠ ']') (h : readValue fuel cs = (item, some (',' :: c :: rest))) :
    readItems (fuel + 1) cs =
      (item :: (readItems fuel (c :: rest)).1, (readItems fuel (c :: rest)).2) := by
  simp [readItems, h, dropSpace, hs, hc, show isSpace ',' = false from rfl]

theorem readMembers_last {key : String} {cs rest : List Char} {value : Json}
    (h : readValue fuel cs = (value, some ('\x7d' :: rest))) :
    readMembers (fuel + 1) (quote key ++ ':' :: cs) = ([(some key, value)], none, some rest) := by
  simp [readMembers, quote, h, dropSpace, isSpace]

theorem readMembers_comma {key : String} {cs rest : List Char} {value : Json}
    (h : readValue fuel cs = (value, some (',' :: rest))) :
    readMembers (fuel + 1) (quote key ++ ':' :: cs) =
      ((some key, value) :: (readMembers fuel rest).1, (readMembers fuel rest).2) := by
  simp [readMembers, quote, h, dropSpace, isSpace]

/-! ### Documents -/

/-- What is rendered in at most `fuel` characters is read back with that fuel. Items and members are
followed by the bracket that closes them, which costs them one more. -/
structure ReadsBack (fuel : Nat) : Prop where
  value : ∀ (document : Document) (rest : List Char), document.render.length ≤ fuel →
    readValue fuel (document.render ++ rest) = (document.json, some rest)
  items : ∀ (item : Document) (items : List Document) (rest : List Char),
    (renderItems (item :: items)).length < fuel →
    readItems fuel (renderItems (item :: items) ++ ']' :: rest) =
      (jsonItems (item :: items), none, some rest)
  members : ∀ (member : String × Document) (members : List (String × Document)) (rest : List Char),
    (renderMembers (member :: members)).length < fuel →
    readMembers fuel (renderMembers (member :: members) ++ '\x7d' :: rest) =
      (jsonMembers (member :: members), none, some rest)

namespace ReadsBack

theorem value_succ (h : ReadsBack fuel) (document : Document) (rest : List Char)
    (hl : document.render.length ≤ fuel + 1) :
    readValue (fuel + 1) (document.render ++ rest) = (document.json, some rest) := by
  cases document with
  | text value => simp [render, quote, readValue, dropSpace, isSpace, json]
  | list items =>
    cases items with
    | nil => simp [render, renderItems, readValue, dropSpace, isSpace, json, jsonItems]
    | cons item items =>
      have hitems := h.items item items rest (by simp [render] at hl; omega)
      have hopen : (list (item :: items)).render ++ rest =
          '[' :: (renderItems (item :: items) ++ ']' :: rest) := by
        simp [render]
      obtain ⟨tail, ht⟩ := renderItems_eq_cons item items
      rw [ht, List.cons_append] at hitems hopen
      rw [hopen, readValue_open_list item.head_not_space item.head_ne_close, hitems, json]
  | record members =>
    cases members with
    | nil => simp [render, renderMembers, readValue, dropSpace, isSpace, json, jsonMembers]
    | cons member members =>
      have hmembers := h.members member members rest (by simp [render] at hl; omega)
      have hopen : (record (member :: members)).render ++ rest =
          '\x7b' :: (renderMembers (member :: members) ++ '\x7d' :: rest) := by
        simp [render]
      obtain ⟨tail, ht⟩ := renderMembers_eq_cons member members
      rw [ht, List.cons_append] at hmembers hopen
      rw [hopen, readValue_open_record, hmembers, json]

theorem items_succ (h : ReadsBack fuel) (item : Document) (items : List Document) (rest : List Char)
    (hl : (renderItems (item :: items)).length < fuel + 1) :
    readItems (fuel + 1) (renderItems (item :: items) ++ ']' :: rest) =
      (jsonItems (item :: items), none, some rest) := by
  cases items with
  | nil =>
    rw [renderItems] at hl ⊢
    rw [readItems_last (h.value item _ (by omega))]
    rfl
  | cons next items =>
    rw [renderItems_cons_cons, List.length_append, List.length_cons] at hl
    rw [renderItems_cons_cons, List.append_assoc, List.cons_append]
    have hitem := h.value item (',' :: (renderItems (next :: items) ++ ']' :: rest)) (by omega)
    have hrest := h.items next items rest (by have := item.length_render_pos; omega)
    obtain ⟨tail, ht⟩ := renderItems_eq_cons next items
    rw [ht, List.cons_append] at hitem hrest ⊢
    rw [readItems_comma next.head_not_space next.head_ne_close hitem, hrest]
    rfl

theorem members_succ (h : ReadsBack fuel) (member : String × Document)
    (members : List (String × Document)) (rest : List Char)
    (hl : (renderMembers (member :: members)).length < fuel + 1) :
    readMembers (fuel + 1) (renderMembers (member :: members) ++ '\x7d' :: rest) =
      (jsonMembers (member :: members), none, some rest) := by
  obtain ⟨key, value⟩ := member
  cases members with
  | nil =>
    rw [renderMembers, List.length_append, List.length_cons] at hl
    rw [renderMembers, List.append_assoc, List.cons_append,
      readMembers_last (h.value value _ (by omega))]
    rfl
  | cons next members =>
    simp only [renderMembers_cons_cons, List.length_append, List.length_cons] at hl
    have hvalue := h.value value (',' :: (renderMembers (next :: members) ++ '\x7d' :: rest)) (by omega)
    have hrest := h.members next members rest (by have := value.length_render_pos; omega)
    simp only [renderMembers_cons_cons, List.append_assoc, List.cons_append]
    rw [readMembers_comma hvalue, hrest]
    rfl

end ReadsBack

theorem readsBack (fuel : Nat) : ReadsBack fuel := by
  induction fuel with
  | zero =>
    refine ⟨?_, ?_, ?_⟩
    · intro document rest hl
      have := document.length_render_pos
      omega
    · intro item items rest hl
      omega
    · intro member members rest hl
      omega
  | succ fuel ih => exact ⟨ih.value_succ, ih.items_succ, ih.members_succ⟩

/-- A rendered document is read as its value, with nothing after it. -/
theorem ofText_toText (document : Document) : Json.ofText document.toText = ⟨document.json, false⟩ := by
  have hread := (readsBack (2 * document.render.length + 2)).value document [] (by omega)
  rw [List.append_nil] at hread
  simp [Json.ofText, toText, hread, dropSpace]

end WorkflowAnalysis.Document
