import WorkflowAnalysis.Json.Value

/-! Reading a value from a text. Each reader returns the characters after what it read, or nothing
when reading stops there. -/
namespace WorkflowAnalysis.Json

def isSpace (c : Char) : Bool := c == ' ' || c == '\n' || c == '\t' || c == '\r'

def dropSpace (cs : List Char) : List Char := cs.dropWhile isSpace

/-! ### Words -/

def readWord (value : Json) : List Char → List Char → Json × Option (List Char)
  | [], cs => (value, some cs)
  | _ :: _, [] => (broken .truncated .truncated, none)
  | letter :: letters, c :: cs =>
    if c = letter then readWord value letters cs else (broken .malformed .malformed, none)

/-! ### Numbers

A number is kept only as far as a double can hold it, because all that is ever asked is whether it is
too large for one. -/

/-- The largest whole number that is accumulated exactly; further digits only count as an exponent. -/
def maxSignificand : Nat := Nat.pow 2 64 - 1

def digitValue (c : Char) : Nat := c.toNat - 48

/-- A whole number rounded to 53 significant bits, a half going to the even neighbour. -/
def roundToDouble (n : Nat) : Nat :=
  let unit := Nat.pow 2 (Nat.log2 n + 1 - 53)
  let quotient := n / unit
  let remainder := n % unit
  if 2 * remainder > unit || (2 * remainder = unit && quotient % 2 = 1) then (quotient + 1) * unit
  else quotient * unit

/-- A significand and a power of ten whose product is beyond every double. -/
def isTooLarge (significand : Nat) (exponent : Int) : Bool :=
  match exponent with
  | .negSucc _ => false
  | .ofNat e =>
    if significand = 0 then false
    else if 308 < e then true
    else
      decide (Nat.pow 2 1024 ≤
        roundToDouble (roundToDouble significand * roundToDouble (Nat.pow 10 e)))

/-- Whole digits: the significand, how many digits did not fit into it, and the rest. -/
def wholeDigits (significand dropped : Nat) : List Char → Nat × Nat × List Char
  | [] => (significand, dropped, [])
  | c :: cs =>
    if !c.isDigit then (significand, dropped, c :: cs)
    else
      let next := significand * 10 + digitValue c
      if dropped = 0 && next ≤ maxSignificand then wholeDigits next 0 cs
      else wholeDigits significand (dropped + 1) cs

/-- Digits after the point: the significand, how many of them went into it, and the rest. From the
first digit that does not fit on, all are ignored. -/
def fractionDigits (significand used : Nat) (isFull : Bool) : List Char → Nat × Nat × List Char
  | [] => (significand, used, [])
  | c :: cs =>
    if !c.isDigit then (significand, used, c :: cs)
    else
      let next := significand * 10 + digitValue c
      if !isFull && next ≤ maxSignificand then fractionDigits next (used + 1) false cs
      else fractionDigits significand used true cs

/-- A digit is missing here. A reader that wants the number and one that passes over it disagree on
what is wrong when the text ends. -/
def missingDigit (cs : List Char) : Json × Option (List Char) :=
  match cs with
  | [] => (broken .truncated .malformed, none)
  | _ => (broken .malformed .malformed, none)

def readExponentDigits (significand : Nat) (exponent : Int) (isNegative : Bool) (cs : List Char) :
    Json × Option (List Char) :=
  match cs.takeWhile Char.isDigit with
  | [] => missingDigit cs
  | digits =>
    let size : Int := digits.foldl (fun value c => value * 10 + digitValue c) 0
    let total := if isNegative then exponent - size else exponent + size
    (number (isTooLarge significand total), some (cs.dropWhile Char.isDigit))

def readExponent (significand : Nat) (exponent : Int) (cs : List Char) : Json × Option (List Char) :=
  match cs with
  | c :: rest =>
    if c == 'e' || c == 'E' then
      match rest with
      | '-' :: digits => readExponentDigits significand exponent true digits
      | '+' :: digits => readExponentDigits significand exponent false digits
      | digits => readExponentDigits significand exponent false digits
    else (number (isTooLarge significand exponent), some cs)
  | [] => (number (isTooLarge significand exponent), some [])

def readNumber (cs : List Char) : Json × Option (List Char) :=
  match cs with
  | [] => missingDigit []
  | first :: after =>
    if !first.isDigit then missingDigit cs
    else if first = '0' && (after.head?.map Char.isDigit).getD false then
      (broken .malformed .malformed, none)
    else
      let (significand, dropped, rest) := wholeDigits 0 0 cs
      match rest with
      | '.' :: digits =>
        if (digits.head?.map Char.isDigit).getD false then
          let (all, used, rest) := fractionDigits significand 0 false digits
          readExponent all (Int.ofNat dropped - Int.ofNat used) rest
        else missingDigit digits
      | _ => readExponent significand dropped rest

/-! ### Strings -/

def hexValue? (c : Char) : Option Nat :=
  if c.isDigit then some (c.toNat - 48)
  else if 'a' ≤ c && c ≤ 'f' then some (c.toNat - 87)
  else if 'A' ≤ c && c ≤ 'F' then some (c.toNat - 55)
  else none

def hexUnit? (a b c d : Char) : Option Nat := do
  return (((← hexValue? a) * 16 + (← hexValue? b)) * 16 + (← hexValue? c)) * 16 + (← hexValue? d)

def simpleEscape? (c : Char) : Option Char :=
  match c with
  | '\x22' | '\x5c' | '/' => some c
  | 'b' => some '\x08'
  | 'f' => some '\x0c'
  | 'n' => some '\n'
  | 'r' => some '\r'
  | 't' => some '\t'
  | _ => none

def isHigh (unit : Nat) : Bool := 0xd800 ≤ unit && unit ≤ 0xdbff

def isLow (unit : Nat) : Bool := 0xdc00 ≤ unit && unit ≤ 0xdfff

def byteCount (cs : List Char) : Nat := cs.foldl (fun total c => total + c.utf8Size) 0

structure Fragment where
  /-- Latest character first. -/
  reversed : List Char := []
  /-- The first half of a surrogate pair whose other half has to come next. -/
  high : Option Nat := none
  /-- Half of a surrogate pair was met without its other half. -/
  isLone : Bool := false

namespace Fragment

/-- Anything but the other half of a pair comes next. -/
def settle (f : Fragment) : Fragment :=
  { f with high := none, isLone := f.isLone || f.high.isSome }

def push (f : Fragment) (c : Char) : Fragment :=
  { f.settle with reversed := c :: f.reversed }

def pushUnit (f : Fragment) (unit : Nat) : Fragment :=
  match f.high with
  | some high =>
    if isLow unit then
      { f with
        high := none
        reversed := Char.ofNat (0x10000 + (high - 0xd800) * 0x400 + (unit - 0xdc00)) :: f.reversed }
    else { f.settle with isLone := true }
  | none =>
    if isHigh unit then { f with high := some unit }
    else if isLow unit then { f with isLone := true }
    else f.push (Char.ofNat unit)

def value (f : Fragment) : Option String :=
  if f.isLone then none else some (String.ofList f.reversed.reverse)

end Fragment

inductive TextEnd where
  | closed (value : Option String) (rest : List Char)
  | broken (asked skipped : Problem)

/-- A problem in the middle of a string; a reader that wants the string stopped at a lone half of a
pair before. -/
def Fragment.broken (f : Fragment) (problem : Problem) : TextEnd :=
  .broken (if f.isLone then .malformed else problem) problem

/-- Reads a string after its opening quote. An escape in hex takes four bytes, whatever they are. -/
def readText (f : Fragment) : List Char → TextEnd
  | [] => f.broken .truncated
  | '\x22' :: cs => .closed f.settle.value cs
  | ['\x5c'] => f.broken .truncated
  | '\x5c' :: 'u' :: a :: b :: c :: d :: cs =>
    match hexUnit? a b c d with
    | some unit => readText (f.pushUnit unit) cs
    | none => f.broken .malformed
  | '\x5c' :: c :: cs =>
    if c = 'u' then f.broken (if byteCount cs < 4 then .truncated else .malformed)
    else
      match simpleEscape? c with
      | some plain => readText (f.push plain) cs
      | none => f.broken .malformed
  | c :: cs => if c.toNat < 0x20 then f.broken .malformed else readText (f.push c) cs

/-! ### Values -/

mutual

/-- Reads a value. The fuel bounds how many values, items and members may be begun on the way. -/
def readValue : Nat → List Char → Json × Option (List Char)
  | 0, _ => (broken .truncated .truncated, none)
  | fuel + 1, cs =>
    match dropSpace cs with
    | [] => (broken .truncated .truncated, none)
    | 'n' :: rest => readWord null ['u', 'l', 'l'] rest
    | 't' :: rest => readWord (bool true) ['r', 'u', 'e'] rest
    | 'f' :: rest => readWord (bool false) ['a', 'l', 's', 'e'] rest
    | '-' :: rest => readNumber rest
    | '\x22' :: rest =>
      match readText {} rest with
      | .closed value rest => (text value, some rest)
      | .broken asked skipped => (broken asked skipped, none)
    | '[' :: rest =>
      match dropSpace rest with
      | ']' :: rest => (array [] none, some rest)
      | [] => (array [] (some .truncated), none)
      | _ =>
        let (items, ending, rest) := readItems fuel rest
        (array items ending, rest)
    | '\x7b' :: rest =>
      match dropSpace rest with
      | '\x7d' :: rest => (object [] none, some rest)
      | [] => (object [] (some .truncated), none)
      | _ =>
        let (members, ending, rest) := readMembers fuel rest
        (object members ending, rest)
    | c :: rest =>
      if c.isDigit then readNumber (c :: rest) else (broken .malformed .malformed, none)

def readItems : Nat → List Char → List Json × Option Problem × Option (List Char)
  | 0, _ => ([], some .truncated, none)
  | fuel + 1, cs =>
    match readValue fuel cs with
    | (item, none) => ([item], none, none)
    | (item, some rest) =>
      match dropSpace rest with
      | ']' :: rest => ([item], none, some rest)
      | ',' :: rest =>
        match dropSpace rest with
        | ']' :: _ => ([item], some .malformed, none)
        | _ =>
          let (items, ending, rest) := readItems fuel rest
          (item :: items, ending, rest)
      | _ :: _ => ([item], some .malformed, none)
      | [] => ([item], some .truncated, none)

def readMembers : Nat → List Char → List (Option String × Json) × Option Problem × Option (List Char)
  | 0, _ => ([], some .truncated, none)
  | fuel + 1, cs =>
    match dropSpace cs with
    | [] => ([], some .truncated, none)
    | '\x22' :: rest =>
      match readText {} rest with
      | .broken asked skipped =>
        if asked = skipped then ([], some asked, none)
        else ([(none, broken asked skipped)], none, none)
      | .closed key rest =>
        match dropSpace rest with
        | [] => ([(key, broken .truncated .truncated)], none, none)
        | ':' :: rest =>
          match readValue fuel rest with
          | (value, none) => ([(key, value)], none, none)
          | (value, some rest) =>
            match dropSpace rest with
            | '\x7d' :: rest => ([(key, value)], none, some rest)
            | ',' :: rest =>
              let (members, ending, rest) := readMembers fuel rest
              ((key, value) :: members, ending, rest)
            | _ :: _ => ([(key, value)], some .malformed, none)
            | [] => ([(key, value)], some .truncated, none)
        | _ :: _ => ([(key, broken .malformed .malformed)], none, none)
    | _ :: _ => ([], some .malformed, none)

end

/-- A whole text: its value, and whether anything but space follows it. -/
structure Text where
  value : Json
  hasMore : Bool

def ofText (text : String) : Text :=
  let cs := text.toList
  match readValue (2 * cs.length + 2) cs with
  | (value, some rest) => ⟨value, !(dropSpace rest).isEmpty⟩
  | (value, none) => ⟨value, false⟩

end WorkflowAnalysis.Json
