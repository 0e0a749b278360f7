/-! JSON values as far as a text spells them. Reading never fails: where the text breaks off or goes
wrong, the value says so in place. Whether that matters is for the decoder to find out, since the
first problem on its way through the value decides, and a member that nobody asks for is held to
looser rules than one that is decoded. -/
namespace WorkflowAnalysis

inductive Problem where
  | malformed
  | truncated
  /-- JSON, but not of the shape that was asked for. -/
  | mismatch
deriving DecidableEq, Repr, Inhabited

/-- `text none` is a string with half a surrogate pair in it, which is wrong only for a reader that
wants the string. `ending` is the problem met where the next item or the closing bracket was due. -/
inductive Json where
  | null
  | bool (value : Bool)
  | number (tooLarge : Bool)
  | text (value : Option String)
  | array (items : List Json) (ending : Option Problem)
  | object (members : List (Option String × Json)) (ending : Option Problem)
  /-- No value at all: the problem for a reader that wants it, and for one that passes over it. -/
  | broken (asked skipped : Problem)
deriving Inhabited

namespace Json

mutual

/-- The problem in a value for a reader that passes over it. -/
def skip : Json → Option Problem
  | null | bool _ | number _ | text _ => none
  | array items ending => (skipItems items).or ending
  | object members ending => (skipMembers members).or ending
  | broken _ skipped => some skipped

def skipItems : List Json → Option Problem
  | [] => none
  | item :: items => (skip item).or (skipItems items)

def skipMembers : List (Option String × Json) → Option Problem
  | [] => none
  | (_, value) :: members => (skip value).or (skipMembers members)

end

end Json

end WorkflowAnalysis
