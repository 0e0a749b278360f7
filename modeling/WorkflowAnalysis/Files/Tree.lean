import WorkflowAnalysis.Files.Path

/-! The files an analysis can see: a snapshot of a disk without links, and the working directory. Names
on the disk are bytes; a path leads only where all names on the way are text. -/
namespace WorkflowAnalysis

def utf8Bytes (text : String) : List UInt8 := text.toUTF8.data.toList

structure FileName where
  bytes : List UInt8
deriving DecidableEq, Repr, Inhabited

namespace FileName

def ofText (text : String) : FileName := ⟨utf8Bytes text⟩

/-- The text of a name, if its bytes are the encoding of one. -/
def text? (name : FileName) : Option String := String.fromUTF8? ⟨name.bytes.toArray⟩

theorem text?_ofText (text : String) : (ofText text).text? = some text := by
  change String.fromUTF8? text.toByteArray = some text
  rw [String.fromUTF8?, dif_pos text.isValidUTF8]
  rfl

theorem text?_eq_some {name : FileName} {text : String} :
    name.text? = some text ↔ name = ofText text := by
  constructor
  · intro h
    unfold text? String.fromUTF8? at h
    split at h
    · cases h
      rfl
    · cases h
  · rintro rfl
    exact text?_ofText text

theorem mapM_text?_map_ofText (names : List String) :
    (names.map ofText).mapM text? = some names := by
  induction names with
  | nil => rfl
  | cons name names ih => simp [text?_ofText, ih]

end FileName

inductive Entry where
  | directory
  | file (bytes : ByteArray)
deriving Inhabited

inductive Fault where
  | missing
  | notDirectory
  | isDirectory
  | notText
  /-- A fault that is known only by its text. -/
  | reported (text : String)
deriving DecidableEq, Repr

def Fault.message : Fault → String
  | missing => "No such file or directory (os error 2)"
  | notDirectory => "Not a directory (os error 20)"
  | isDirectory => "Is a directory (os error 21)"
  | notText => "stream did not contain valid UTF-8"
  | reported text => text

/-- Entries stand under the names that lead to them from the root. -/
structure FileTree where
  cwd : List String
  entries : List (List FileName × Entry)
  /-- The working directory is spelled from the root without dots. -/
  cwd_plain : Path.Plain cwd

namespace FileTree

/-- The root is there even if nothing else is. -/
def entry? (tree : FileTree) (place : List FileName) : Option Entry :=
  if place.isEmpty then some .directory else tree.entries.lookup place

def find? (tree : FileTree) (names : List String) : Option Entry :=
  tree.entry? (names.map .ofText)

/-- Follows segments from a place; each one needs a directory to start from, even one that leads
nowhere. -/
def walk (tree : FileTree) : List String → List String → Except Fault Entry
  | names, [] =>
    match tree.find? names with
    | some entry => .ok entry
    | none => .error .missing
  | names, segment :: rest =>
    match tree.find? names with
    | some .directory => tree.walk (Path.step names segment) rest
    | some (.file _) => .error .notDirectory
    | none => .error .missing

/-- What a path leads to. The empty path leads nowhere. -/
def locate (tree : FileTree) (p : Path) : Except Fault Entry :=
  if p = Path.empty then .error .missing
  else tree.walk (if p.isAbsolute then [] else tree.cwd) p.segments

def isFile (tree : FileTree) (p : Path) : Bool :=
  match tree.locate p with
  | .ok (.file _) => true
  | _ => false

def isDirectory (tree : FileTree) (p : Path) : Bool :=
  match tree.locate p with
  | .ok .directory => true
  | _ => false

def read (tree : FileTree) (p : Path) : Except Fault String := do
  match ← tree.locate p with
  | .directory => .error .isDirectory
  | .file bytes =>
    match String.fromUTF8? bytes with
    | some text => .ok text
    | none => .error .notText

/-- How many files there are at most. -/
def size (tree : FileTree) : Nat := tree.entries.length

def normalize (tree : FileTree) (p : Path) : Path := p.normalize tree.cwd

def childName? (directory place : List FileName) : Option FileName :=
  if place.dropLast = directory then place.getLast? else none

/-- The names of the files directly in a directory, sorted, each once. A path to a file lists
nothing. -/
def fileNames (tree : FileTree) (p : Path) : Except Fault (List FileName) := do
  match ← tree.locate p with
  | .file _ => return []
  | .directory =>
    let directory := (p.place tree.cwd).map .ofText
    let names := tree.entries.filterMap fun (place, _) =>
      match tree.entry? place with
      | some (.file _) => childName? directory place
      | _ => none
    return names.eraseDups.mergeSort (fun a b => decide (a.bytes ≤ b.bytes))

/-! ### Changes -/

def insert (tree : FileTree) (names : List String) (entry : Entry) : FileTree :=
  let place := names.map FileName.ofText
  { tree with entries := (place, entry) :: tree.entries.filter (·.1 ≠ place) }

def ancestors (names : List String) : List (List String) :=
  (List.range names.length).tail.map names.take

def makeDirectory (tree : FileTree) (names : List String) : FileTree :=
  (ancestors names ++ [names]).foldl
    (fun tree place => if (tree.find? place).isSome then tree else tree.insert place .directory) tree

/-- Writes a file and makes the directories above it. A path that ends in a slash makes a directory. -/
def write (tree : FileTree) (p : Path) (bytes : ByteArray) : FileTree :=
  let names := p.place tree.cwd
  if p.last == "" then tree.makeDirectory names
  else (tree.makeDirectory names.dropLast).insert names (.file bytes)

def remove (tree : FileTree) (p : Path) : FileTree :=
  let place := (p.place tree.cwd).map FileName.ofText
  { tree with entries := tree.entries.filter fun entry => !place.isPrefixOf entry.1 }

/-- A tree that holds an empty working directory, the one where some segments lead from the root. -/
def ofWorkingDirectory (segments : List String) : FileTree :=
  let cwd := segments.foldl Path.step []
  makeDirectory { cwd, entries := [], cwd_plain := Path.plain_nil.foldl_step segments } cwd

end FileTree

end WorkflowAnalysis
