/-! Paths as they are spelled. A path keeps every slash and dot it was written with; comparing,
splitting and normalizing look at its components, so two spellings of one path can still be told
apart when they are printed. -/
namespace WorkflowAnalysis

/-- A text cut at its slashes: `last` stands after the last one and `init` before it. -/
structure Path where
  init : List String
  last : String
deriving DecidableEq, Repr, Inhabited

namespace Path

/-! ### Spelling -/

/-- Cuts a text at its slashes; `word` holds the characters since the last one, latest first. -/
def cut (word : List Char) : List Char → Path
  | [] => ⟨[], String.ofList word.reverse⟩
  | '/' :: cs =>
    let tail := cut [] cs
    ⟨String.ofList word.reverse :: tail.init, tail.last⟩
  | c :: cs => cut (c :: word) cs

def ofString (text : String) : Path := cut [] text.toList

def segments (p : Path) : List String := p.init ++ [p.last]

def toString (p : Path) : String := p.init.foldr (fun segment text => segment ++ "/" ++ text) p.last

def empty : Path := ⟨[], ""⟩

def root : Path := ⟨[""], ""⟩

/-- The path with given segments; a lone empty segment is what is left of a root. -/
def ofSegments : List String → Path
  | [] => empty
  | [""] => root
  | segments => ⟨segments.dropLast, segments.getLastD ""⟩

def absolute (names : List String) : Path := ofSegments ("" :: names)

def isAbsolute (p : Path) : Bool := p.init.head? == some ""

/-- An absolute path replaces what it is joined to. -/
def join (p r : Path) : Path :=
  if r.isAbsolute then r
  else if p.last == "" then ⟨p.init ++ r.init, r.last⟩
  else ⟨p.init ++ p.last :: r.init, r.last⟩

/-- Adds to the spelling, not to the components: what follows a trailing slash becomes a name. -/
def append (p : Path) (text : String) : Path := { p with last := p.last ++ text }

/-! ### Components -/

def isIdle (segment : String) : Bool := segment == "" || segment == "."

/-- The segments that count when paths are compared. A dot counts only at the head of a relative
path. -/
def names (p : Path) : List String :=
  match p.segments with
  | "." :: rest => "." :: rest.filter (!isIdle ·)
  | all => all.filter (!isIdle ·)

structure Components where
  isAbsolute : Bool
  names : List String
deriving DecidableEq, Repr

/-- What two spellings of one path have in common. -/
def components (p : Path) : Components := ⟨p.isAbsolute, p.names⟩

/-- Drops idle segments from the end, the first segment apart. -/
def trimEnd : List String → List String
  | [] => []
  | first :: rest => first :: (rest.reverse.dropWhile isIdle).reverse

/-- The path without its last component; a root and the empty path have none. -/
def parent? (p : Path) : Option Path :=
  match trimEnd p.segments with
  | [""] => none
  | body => some (ofSegments (trimEnd body.dropLast))

def fileName? (p : Path) : Option String :=
  match (trimEnd p.segments).getLastD "" with
  | "" | "." | ".." => none
  | name => some name

/-- What follows the last dot of a name; a dot in front of the name does not count. -/
def extensionOf? (name : String) : Option String :=
  let reversed := name.toList.reverse
  match reversed.dropWhile (· != '.') with
  | _ :: _ :: _ => some (String.ofList (reversed.takeWhile (· != '.')).reverse)
  | _ => none

def extension? (p : Path) : Option String := p.fileName?.bind extensionOf?

/-! ### Normal form -/

def isPlain (segment : String) : Bool := !isIdle segment && segment != ".."

def Plain (names : List String) : Prop := ∀ name ∈ names, isPlain name = true

def step (names : List String) (segment : String) : List String :=
  if isIdle segment then names
  else if segment == ".." then names.dropLast
  else names ++ [segment]

/-- The place a path leads to from a working directory, as the names on the way from the root. -/
def place (cwd : List String) (p : Path) : List String :=
  p.segments.foldl step (if p.isAbsolute then [] else cwd)

/-- The absolute path without dots. Links are not followed. -/
def normalize (cwd : List String) (p : Path) : Path := absolute (place cwd p)

theorem Plain.step {names : List String} (h : Plain names) (segment : String) :
    Plain (step names segment) := by
  intro name hm
  unfold Path.step at hm
  split at hm
  · exact h name hm
  · rename_i hidle
    split at hm
    · exact h name (List.dropLast_subset names hm)
    · rename_i hup
      rcases List.mem_append.mp hm with hm | hm
      · exact h name hm
      · rw [List.mem_singleton.mp hm]
        simpa [isPlain, hidle] using hup

theorem Plain.foldl_step {names : List String} (h : Plain names) (segments : List String) :
    Plain (segments.foldl Path.step names) := by
  induction segments generalizing names with
  | nil => exact h
  | cons segment segments ih => exact ih (h.step segment)

theorem plain_nil : Plain [] := fun _ hm => nomatch hm

end Path

instance : ToString Path := ⟨Path.toString⟩

end WorkflowAnalysis
