/-! Writing documents. What is written is made of strings, lists and records, without any space, and
only the characters that JSON does not allow inside a string are escaped. -/
namespace WorkflowAnalysis

inductive Document where
  | text (value : String)
  | list (items : List Document)
  | record (members : List (String × Document))
deriving Inhabited

namespace Document

def hexChar (digit : Nat) : Char := Nat.digitChar digit

def escape (c : Char) : List Char :=
  match c with
  | '\x22' => ['\x5c', '\x22']
  | '\x5c' => ['\x5c', '\x5c']
  | '\x08' => ['\x5c', 'b']
  | '\x0c' => ['\x5c', 'f']
  | '\n' => ['\x5c', 'n']
  | '\r' => ['\x5c', 'r']
  | '\t' => ['\x5c', 't']
  | c =>
    if c.toNat < 0x20 then
      ['\x5c', 'u', '0', '0', hexChar (c.toNat / 16), hexChar (c.toNat % 16)]
    else [c]

def quote (text : String) : List Char := '\x22' :: text.toList.flatMap escape ++ ['\x22']

mutual

def render : Document → List Char
  | text value => quote value
  | list items => '[' :: renderItems items ++ [']']
  | record members => '\x7b' :: renderMembers members ++ ['\x7d']

def renderItems : List Document → List Char
  | [] => []
  | [item] => render item
  | item :: items => render item ++ ',' :: renderItems items

def renderMembers : List (String × Document) → List Char
  | [] => []
  | [(key, value)] => quote key ++ ':' :: render value
  | (key, value) :: members => quote key ++ ':' :: render value ++ ',' :: renderMembers members

end

def toText (document : Document) : String := String.ofList document.render

/-- A member that is left out when there is nothing to write. -/
def optionalText (key : String) (value : Option String) : List (String × Document) :=
  value.toList.map fun value => (key, text value)

end Document

end WorkflowAnalysis
