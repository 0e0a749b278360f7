import WorkflowAnalysis.Json.Reader

/-! Decoding values into records. A record is written as an object, whose members may come in any
order and among others, or as an array of its fields in their order. Fields are gathered in a draft
first, so that what a missing field means is decided in one place. -/
namespace WorkflowAnalysis

abbrev Decoder (α : Type) := Json → Except Problem α

namespace Decoder

open Json

/-- The problem of a value that is not of the kind that was asked for. Brackets are told apart by
their first character; anything else has to be well formed to be of the wrong kind. -/
def refuse : Json → Problem
  | broken asked _ => asked
  | text none | number true => .malformed
  | _ => .mismatch

def string : Decoder String
  | .text (some value) => .ok value
  | value => .error (refuse value)

def optional {α : Type} (decode : Decoder α) : Decoder (Option α)
  | .null => .ok none
  | value => some <$> decode value

def list {α : Type} (decode : Decoder α) : Decoder (List α)
  | .array items ending => do
    let decoded ← items.mapM decode
    match ending with
    | some problem => .error problem
    | none => .ok decoded
  | value => .error (refuse value)

end Decoder

structure Field (δ : Type) where
  key : String
  isSet : δ → Bool
  fill : δ → Decoder δ

def Field.slot {δ α : Type} (key : String) (get : δ → Option α) (set : δ → α → δ)
    (decode : Decoder α) : Field δ where
  key := key
  isSet := fun draft => (get draft).isSome
  fill := fun draft value => set draft <$> decode value

structure RecordShape (δ α : Type) where
  fields : List (Field δ)
  start : δ
  /-- The record of a draft, unless a field that has no default is missing. -/
  finish : δ → Option α

namespace RecordShape

variable {δ α : Type}

/-- One member of an object. A key that comes twice is refused before its value is looked at. -/
def addMember (shape : RecordShape δ α) (draft : δ) :
    Option String × Json → Except Problem δ
  | (none, _) => .error .malformed
  | (some key, value) =>
    match shape.fields.find? (·.key == key) with
    | some field => if field.isSet draft then .error .mismatch else field.fill draft value
    | none =>
      match value.skip with
      | some problem => .error problem
      | none => .ok draft

def addItems (draft : δ) : List (Field δ) → List Json → Except Problem δ
  | _, [] => .ok draft
  | [], _ :: _ => .error .malformed
  | field :: fields, item :: items => do addItems (← field.fill draft item) fields items

def close (shape : RecordShape δ α) (ending : Option Problem) (draft : δ) : Except Problem α :=
  match ending, shape.finish draft with
  | some problem, _ => .error problem
  | none, some record => .ok record
  | none, none => .error .mismatch

def decode (shape : RecordShape δ α) : Decoder α
  | .object members ending => do
    shape.close ending (← members.foldlM shape.addMember shape.start)
  | .array items ending => do
    shape.close ending (← addItems shape.start shape.fields items)
  | value => .error (Decoder.refuse value)

end RecordShape

/-- Decodes a whole text, after which only space may follow. -/
def Decoder.ofText {α : Type} (decode : Decoder α) (text : String) : Except Problem α := do
  let whole := Json.ofText text
  let value ← decode whole.value
  if whole.hasMore then .error .malformed else .ok value

end WorkflowAnalysis
