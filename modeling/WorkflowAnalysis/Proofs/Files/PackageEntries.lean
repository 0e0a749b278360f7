import WorkflowAnalysis.Proofs.Files.Manifests
import WorkflowAnalysis.Proofs.Files.Resolution
import WorkflowAnalysis.Proofs.Syntax.SourceOrder

/-! Which file a package specifier stands for. Each stage of the lookup is described by a relation of its
own: a script, a script or an index file, the main file of a package directory, a package. The entry of
a package is that of the nearest directory above the importer under which the package has one. -/
namespace WorkflowAnalysis

open WorkflowAnalysis.Path

/-- A specifier that is relative to the importer, or absolute. -/
inductive NamesFile : String → Prop
  | here : NamesFile "."
  | above : NamesFile ".."
  | fromHere (rest : String) : NamesFile ("./" ++ rest)
  | fromAbove (rest : String) : NamesFile ("../" ++ rest)
  | fromRoot (rest : String) : NamesFile ("/" ++ rest)

theorem isRelativeSpecifier_iff {specifier : String} :
    isRelativeSpecifier specifier = true ↔ NamesFile specifier := by
  constructor
  · intro h
    rw [← String.ofList_toList (s := specifier)]
    unfold isRelativeSpecifier at h
    split at h
    · next hs => rw [hs]; exact .here
    · next hs => rw [hs]; exact .above
    · next rest hs =>
      rw [hs, show '.' :: '/' :: rest = ['.', '/'] ++ rest from rfl, String.ofList_append]
      exact .fromHere _
    · next rest hs =>
      rw [hs, show '.' :: '.' :: '/' :: rest = ['.', '.', '/'] ++ rest from rfl,
        String.ofList_append]
      exact .fromAbove _
    · next rest hs =>
      rw [hs, show '/' :: rest = ['/'] ++ rest from rfl, String.ofList_append]
      exact .fromRoot _
    · cases h
  · rintro (_ | _ | rest | rest | rest)
    · rfl
    · rfl
    all_goals simp [isRelativeSpecifier, String.toList_append]

namespace FileTree

variable {tree : FileTree} {target directory candidate found : Path}

/-! ### Stages -/

/-- The script at a target: the file as it is spelled, else with `.js` after it. -/
inductive IsScript (tree : FileTree) (target : Path) : Path → Prop
  | exact (isFile : tree.isFile target = true) : IsScript tree target target
  | extended (absent : tree.isFile target = false)
      (isFile : tree.isFile (target.append ".js") = true) :
      IsScript tree target (target.append ".js")

theorem scriptFile?_iff : tree.scriptFile? target = some found ↔ tree.IsScript target found := by
  unfold scriptFile? existing?
  rw [← Option.or_eq_orElse, Option.or_eq_some_iff]
  simp only [Option.ite_none_right_eq_some, Option.some.injEq, ite_eq_right_iff, reduceCtorEq,
    imp_false, Bool.not_eq_true]
  constructor
  · rintro (⟨hexact, rfl⟩ | ⟨habsent, hextended, rfl⟩)
    · exact .exact hexact
    · exact .extended habsent hextended
  · rintro (hexact | ⟨habsent, hextended⟩)
    · exact .inl ⟨hexact, rfl⟩
    · exact .inr ⟨habsent, hextended, rfl⟩

theorem scriptFile?_eq_none : tree.scriptFile? target = none ↔ ∀ found, ¬ tree.IsScript target found := by
  simp only [Option.eq_none_iff_forall_ne_some, ne_eq, scriptFile?_iff]

/-- The script at a target, else the index file of the target as a directory. -/
inductive IsModule (tree : FileTree) (target : Path) : Path → Prop
  | script {found : Path} (script : tree.IsScript target found) : IsModule tree target found
  | index (unscripted : ∀ found, ¬ tree.IsScript target found)
      (isFile : tree.isFile (target.join (ofString "index.js")) = true) :
      IsModule tree target (target.join (ofString "index.js"))

theorem indexFile?_iff : tree.indexFile? directory = some found ↔
    tree.isFile (directory.join (ofString "index.js")) = true ∧
      directory.join (ofString "index.js") = found := by
  unfold indexFile? existing?
  rw [Option.ite_none_right_eq_some, Option.some.injEq]

theorem scriptOrIndex?_iff :
    tree.scriptOrIndex? target = some found ↔ tree.IsModule target found := by
  unfold scriptOrIndex?
  rw [← Option.or_eq_orElse, Option.or_eq_some_iff, scriptFile?_iff, scriptFile?_eq_none,
    indexFile?_iff]
  constructor
  · rintro (hscript | ⟨hunscripted, hindex, rfl⟩)
    · exact .script hscript
    · exact .index hunscripted hindex
  · rintro (hscript | ⟨hunscripted, hindex⟩)
    · exact .inl hscript
    · exact .inr ⟨hunscripted, hindex, rfl⟩

def HasManifest (tree : FileTree) (directory : Path) (text : String) : Prop :=
  tree.read (directory.join (ofString "package.json")) = .ok text

theorem hasManifest_iff {text : String} : tree.HasManifest directory text ↔
    (tree.read (directory.join (ofString "package.json"))).toOption = some text := by
  unfold HasManifest
  cases tree.read (directory.join (ofString "package.json")) <;> simp [Except.toOption]

/-- The main file of a package directory: its manifest names one, and the name stands for a file. -/
inductive IsMain (tree : FileTree) (directory found : Path) : Prop
  | named (text main : String) (manifest : tree.HasManifest directory text)
      (names : ManifestMain text (some main)) (nonempty : main ≠ "")
      (resolved : tree.IsModule (tree.normalize (directory.join (ofString main))) found)

inductive LacksMain (tree : FileTree) (directory : Path) : Prop
  | unreadable (fault : Fault)
      (h : tree.read (directory.join (ofString "package.json")) = .error fault)
  | malformed (text : String) (manifest : tree.HasManifest directory text)
      (malformed : ∀ main, ¬ ManifestMain text main)
  | absent (text : String) (manifest : tree.HasManifest directory text)
      (names : ManifestMain text none)
  | empty (text : String) (manifest : tree.HasManifest directory text)
      (names : ManifestMain text (some ""))
  | unresolved (text main : String) (manifest : tree.HasManifest directory text)
      (names : ManifestMain text (some main))
      (missing : ∀ found, ¬ tree.IsModule (tree.normalize (directory.join (ofString main))) found)

theorem lacksMain_iff : tree.LacksMain directory ↔ ¬ ∃ found, tree.IsMain directory found := by
  constructor
  · rintro hlacks ⟨found, text, main, hmanifest, hnames, hnonempty, hresolved⟩
    unfold HasManifest at hmanifest
    obtain ⟨_, h⟩ | ⟨_, h, hn⟩ | ⟨_, h, hn⟩ | ⟨_, h, hn⟩ | ⟨_, _, h, hn, hmissing⟩ := hlacks
    all_goals
      rw [h] at hmanifest
      cases hmanifest
    · exact hn _ hnames
    · cases hn.unique hnames
    · cases hn.unique hnames
      exact hnonempty rfl
    · cases hn.unique hnames
      exact hmissing found hresolved
  · intro hmain
    cases hread : tree.read (directory.join (ofString "package.json")) with
    | error fault => exact .unreadable fault hread
    | ok text =>
      by_cases hnames : ∃ main, ManifestMain text main
      · obtain ⟨_ | main, hnames⟩ := hnames
        · exact .absent text hread hnames
        · by_cases hempty : main = ""
          · subst hempty
            exact .empty text hread hnames
          · refine .unresolved text main hread hnames fun found hresolved => ?_
            exact hmain ⟨found, text, main, hread, hnames, hempty, hresolved⟩
      · exact .malformed text hread (not_exists.mp hnames)

theorem packageMain?_iff {text main : String} :
    packageMain? text = some main ↔ ManifestMain text (some main) ∧ main ≠ "" := by
  rw [← decode_package_iff]
  unfold packageMain?
  split
  · next named hdecoded =>
    simp only [hdecoded, Except.ok.injEq, Option.some.injEq, beq_iff_eq,
      Option.ite_none_left_eq_some]
    constructor
    · rintro ⟨hnonempty, rfl⟩
      exact ⟨rfl, hnonempty⟩
    · rintro ⟨rfl, hnonempty⟩
      exact ⟨hnonempty, rfl⟩
  · next hother =>
    simp only [reduceCtorEq, false_iff]
    rintro ⟨hdecoded, -⟩
    exact hother main hdecoded

theorem packageEntry?_iff : tree.packageEntry? directory = some found ↔
    tree.IsMain directory found ∨
      tree.LacksMain directory ∧ tree.isFile (directory.join (ofString "index.js")) = true ∧
        directory.join (ofString "index.js") = found := by
  have hmain (found : Path) : (do
      let text ← (tree.read (directory.join (ofString "package.json"))).toOption
      let main ← packageMain? text
      tree.scriptOrIndex? (tree.normalize (directory.join (ofString main)))) = some found ↔
        tree.IsMain directory found := by
    simp only [Option.bind_eq_bind, Option.bind_eq_some_iff, packageMain?_iff, scriptOrIndex?_iff,
      ← hasManifest_iff]
    constructor
    · rintro ⟨text, hread, main, ⟨hnames, hnonempty⟩, hresolved⟩
      exact ⟨text, main, hread, hnames, hnonempty, hresolved⟩
    · rintro ⟨text, main, hread, hnames, hnonempty, hresolved⟩
      exact ⟨text, hread, main, ⟨hnames, hnonempty⟩, hresolved⟩
  unfold packageEntry?
  rw [← Option.or_eq_orElse, Option.or_eq_some_iff, hmain, indexFile?_iff, lacksMain_iff, not_exists,
    Option.eq_none_iff_forall_ne_some]
  simp only [ne_eq, hmain]

/-- What a candidate stands for: a script, else the main file of a package directory, else its index
file. -/
inductive IsPackage (tree : FileTree) (candidate : Path) : Path → Prop
  | script {found : Path} (script : tree.IsScript candidate found) : IsPackage tree candidate found
  | main {found : Path} (unscripted : ∀ other, ¬ tree.IsScript candidate other)
      (isDirectory : tree.isDirectory candidate = true) (main : tree.IsMain candidate found) :
      IsPackage tree candidate found
  | index (unscripted : ∀ other, ¬ tree.IsScript candidate other)
      (isDirectory : tree.isDirectory candidate = true) (lacksMain : tree.LacksMain candidate)
      (isFile : tree.isFile (candidate.join (ofString "index.js")) = true) :
      IsPackage tree candidate (candidate.join (ofString "index.js"))

def packagePath (specifier : String) (place : List String) : Path :=
  ((absolute place).join (ofString "node_modules")).join (ofString specifier)

variable {specifier : String} {place : List String} {importer : Path}

theorem packageAt?_iff : tree.packageAt? specifier place = some found ↔
    place.getLast? ≠ some "node_modules" ∧ tree.IsPackage (packagePath specifier place) found := by
  unfold packageAt?
  rw [Option.ite_none_left_eq_some]
  apply and_congr_right
  intro _
  change ((tree.scriptFile? (packagePath specifier place)).orElse fun _ =>
    if tree.isDirectory (packagePath specifier place) then
      tree.packageEntry? (packagePath specifier place) else none) = some found ↔ _
  rw [← Option.or_eq_orElse, Option.or_eq_some_iff, scriptFile?_iff, scriptFile?_eq_none,
    Option.ite_none_right_eq_some, packageEntry?_iff]
  constructor
  · rintro (hscript | ⟨hunscripted, hdirectory, hmain | ⟨hlacks, hindex, rfl⟩⟩)
    · exact .script hscript
    · exact .main hunscripted hdirectory hmain
    · exact .index hunscripted hdirectory hlacks hindex
  · rintro (hscript | ⟨hunscripted, hdirectory, hmain⟩ | ⟨hunscripted, hdirectory, hlacks, hindex⟩)
    · exact .inl hscript
    · exact .inr ⟨hunscripted, hdirectory, .inl hmain⟩
    · exact .inr ⟨hunscripted, hdirectory, .inr ⟨hlacks, hindex, rfl⟩⟩

/-! ### Places above an importer -/

/-- Packages are looked for at the place of the importer's directory and at those above it, unless the
place is itself one where packages stand. -/
structure LooksIn (tree : FileTree) (importer : Path) (place : List String) : Prop where
  above : ∃ name below, importer.place tree.cwd = place ++ name :: below
  unpackaged : place.getLast? ≠ some "node_modules"

/-- The places above a place come by falling length. -/
theorem placesUp_inOrder (place : List String) :
    ListsInOrder (· > ·) (fun length up => up <+: place ∧ up.length = length) (placesUp place) := by
  refine ⟨(List.range (place.length + 1)).reverse.map fun length => (length, place.take length),
    ?_, ?_, ?_⟩
  · rw [List.pairwise_map, List.pairwise_reverse]
    exact List.pairwise_lt_range
  · intro length up
    simp only [List.mem_map, List.mem_reverse, List.mem_range, Prod.mk.injEq]
    constructor
    · rintro ⟨_, hlength, rfl, rfl⟩
      exact ⟨List.take_prefix _ _, by rw [List.length_take]; omega⟩
    · rintro ⟨hup, rfl⟩
      exact ⟨_, Nat.lt_succ_of_le hup.length_le, rfl, (List.prefix_iff_eq_take.mp hup).symm⟩
  · rw [List.map_map]
    rfl

theorem prefix_dropLast_iff {names : List String} (h : names ≠ []) :
    place <+: names.dropLast ↔ ∃ name below, names = place ++ name :: below := by
  constructor
  · rintro ⟨rest, hrest⟩
    have hnames := List.dropLast_append_getLast h
    rw [← hrest, List.append_assoc] at hnames
    cases rest with
    | nil => exact ⟨_, [], hnames.symm⟩
    | cons name below => exact ⟨name, _, hnames.symm⟩
  · rintro ⟨name, below, rfl⟩
    rw [List.dropLast_append_of_ne_nil (by simp)]
    exact List.prefix_append _ _

/-- The entry of the nearest package: at no place nearer to the importer is there one. -/
structure IsNearestEntry (tree : FileTree) (specifier : String) (importer : Path)
    (place : List String) (found : Path) : Prop where
  looks : tree.LooksIn importer place
  entry : tree.IsPackage (packagePath specifier place) found
  nearest : ∀ nearer other, tree.LooksIn importer nearer → place.length < nearer.length →
    ¬ tree.IsPackage (packagePath specifier nearer) other

theorem resolvePackage?_iff (hnonempty : specifier ≠ "") (hpackage : ¬ NamesFile specifier) :
    tree.resolvePackage? specifier importer = some found ↔
      ∃ place, tree.IsNearestEntry specifier importer place found := by
  rw [← isRelativeSpecifier_iff, Bool.not_eq_true] at hpackage
  unfold resolvePackage?
  simp only [hpackage, beq_eq_false_iff_ne.mpr hnonempty, Bool.or_self, Bool.false_eq_true, if_false]
  split
  · next hroot =>
    simp only [reduceCtorEq, false_iff]
    rintro ⟨place, ⟨⟨name, below, habove⟩, -⟩, -, -⟩
    rw [hroot] at habove
    simp at habove
  · next names hnames =>
    have hlooks (place : List String) (found : Path) :
        place <+: (importer.place tree.cwd).dropLast ∧ tree.packageAt? specifier place = some found ↔
          tree.LooksIn importer place ∧ tree.IsPackage (packagePath specifier place) found := by
      rw [prefix_dropLast_iff hnames, packageAt?_iff, ← and_assoc]
      exact and_congr_left' ⟨fun ⟨h, h'⟩ => ⟨h, h'⟩, fun h => ⟨h.above, h.unpackaged⟩⟩
    rw [(placesUp_inOrder _).findSome?_eq_some fun _ _ => Nat.lt_asymm]
    constructor
    · rintro ⟨_, place, ⟨hplace, rfl⟩, hfound, hfirst⟩
      obtain ⟨hin, hentry⟩ := (hlooks place found).mp ⟨hplace, hfound⟩
      refine ⟨place, hin, hentry, fun nearer other hnearer hlength hother => ?_⟩
      obtain ⟨habove, hsome⟩ := (hlooks nearer other).mpr ⟨hnearer, hother⟩
      rw [hfirst _ nearer hlength ⟨habove, rfl⟩] at hsome
      cases hsome
    · rintro ⟨place, hin, hentry, hnearest⟩
      obtain ⟨hplace, hfound⟩ := (hlooks place found).mpr ⟨hin, hentry⟩
      refine ⟨_, place, ⟨hplace, rfl⟩, hfound, ?_⟩
      rintro _ nearer hlength ⟨habove, rfl⟩
      rw [Option.eq_none_iff_forall_ne_some]
      intro other hsome
      obtain ⟨hnearer, hother⟩ := (hlooks nearer other).mp ⟨habove, hsome⟩
      exact hnearest nearer other hnearer hlength hother

theorem LooksIn.length_lt (h : tree.LooksIn importer place) :
    place.length < (importer.place tree.cwd).length := by
  obtain ⟨⟨name, below, habove⟩, -⟩ := h
  rw [habove, List.length_append, List.length_cons]
  omega

/-- If a package has an entry at some place, then it has one at a nearest place: the length of the places
is bounded by the importer. -/
theorem exists_isNearestEntry {place : List String} {found : Path} (hin : tree.LooksIn importer place)
    (hentry : tree.IsPackage (packagePath specifier place) found) :
    ∃ place found, tree.IsNearestEntry specifier importer place found := by
  by_cases hnearer : ∃ nearer other, tree.LooksIn importer nearer ∧ place.length < nearer.length ∧
      tree.IsPackage (packagePath specifier nearer) other
  · obtain ⟨nearer, other, hin', hlength, hother⟩ := hnearer
    have hbound := hin'.length_lt
    exact exists_isNearestEntry hin' hother
  · refine ⟨place, found, hin, hentry, fun nearer other hin' hlength hother => ?_⟩
    exact hnearer ⟨nearer, other, hin', hlength, hother⟩
termination_by (importer.place tree.cwd).length - place.length

/-- A package specifier is resolved to the entry of the nearest package, and to nothing only if there is no
package with an entry at any place above the importer. The entry is an existing file. A package
directory has no main file exactly for one of the listed reasons. Other specifiers are not resolved. -/
theorem resolvePackage?_nearest (tree : FileTree) (specifier : String) (importer : Path) :
    (specifier ≠ "" → ¬ NamesFile specifier →
      (∀ found, tree.resolvePackage? specifier importer = some found ↔
        ∃ place, tree.IsNearestEntry specifier importer place found) ∧
      ((tree.resolvePackage? specifier importer).isSome = true ↔
        ∃ place found, tree.LooksIn importer place ∧
          tree.IsPackage (packagePath specifier place) found)) ∧
    (∀ found, tree.resolvePackage? specifier importer = some found → tree.isFile found = true) ∧
    (∀ directory, tree.LacksMain directory ↔ ¬ ∃ found, tree.IsMain directory found) ∧
    (NamesFile specifier → tree.resolvePackage? specifier importer = none) := by
  refine ⟨fun hnonempty hpackage => ⟨fun found => resolvePackage?_iff hnonempty hpackage, ?_⟩,
    fun found hfound => (resolvePackage?_eq_some hfound).2, fun directory => lacksMain_iff, ?_⟩
  · rw [Option.isSome_iff_exists]
    simp only [resolvePackage?_iff hnonempty hpackage]
    constructor
    · rintro ⟨found, place, hin, hentry, -⟩
      exact ⟨place, found, hin, hentry⟩
    · rintro ⟨_, _, hin, hentry⟩
      obtain ⟨place, found, hnearest⟩ := exists_isNearestEntry hin hentry
      exact ⟨found, place, hnearest⟩
  · intro hfile
    unfold resolvePackage?
    rw [isRelativeSpecifier_iff.mpr hfile, Bool.or_true, if_pos rfl]

/-- An empty package directory, and further up one whose manifest names a main file beside an index
file. -/
def mainTree : FileTree :=
  let directories :=
    [["w"], ["w", "src"], ["w", "src", "node_modules"], ["w", "src", "node_modules", "kit"],
      ["w", "node_modules"], ["w", "node_modules", "kit"], ["w", "node_modules", "kit", "lib"]]
  let files :=
    [(["w", "node_modules", "kit", "package.json"], mainManifest),
      (["w", "node_modules", "kit", "lib", "entry.js"], ""),
      (["w", "node_modules", "kit", "index.js"], "")]
  { FileTree.ofWorkingDirectory ["w"] with
    entries :=
      directories.map (fun names => (names.map .ofText, .directory)) ++
        files.map fun (names, text) => (names.map .ofText, .file text.toUTF8) }

def mainEntry : Path := ofString "/w/node_modules/kit/lib/entry.js"

theorem isMain_mainEntry : mainTree.IsMain (packagePath "kit" ["w"]) mainEntry := by
  have htarget : mainTree.normalize ((packagePath "kit" ["w"]).join (ofString "lib/entry")) =
      ofString "/w/node_modules/kit/lib/entry" := by decide +kernel
  have hentry : mainEntry = (ofString "/w/node_modules/kit/lib/entry").append ".js" := by decide +kernel
  have hmanifest : mainTree.HasManifest (packagePath "kit" ["w"]) mainManifest := by
    unfold HasManifest
    decide +kernel
  refine .named mainManifest "lib/entry" hmanifest manifestMain_mainManifest (by decide) ?_
  rw [htarget, hentry]
  exact .script (.extended (by decide +kernel) (by decide +kernel))

theorem isNearestEntry_mainEntry :
    mainTree.IsNearestEntry "kit" (ofString "src/main.js") ["w"] mainEntry where
  looks := ⟨⟨"src", ["main.js"], by decide +kernel⟩, by decide⟩
  entry := by
    refine .main ?_ (by decide +kernel) isMain_mainEntry
    rw [← scriptFile?_eq_none]
    decide +kernel
  nearest := by
    rintro nearer other ⟨⟨name, below, habove⟩, -⟩ hlength hother
    have hplace : (ofString "src/main.js").place mainTree.cwd = ["w", "src", "main.js"] := by
      decide +kernel
    -- Only the directory of the importer is nearer, and the package there is hollow.
    obtain rfl : nearer = ["w", "src"] := by
      rw [hplace] at habove
      match nearer with
      | [] | [_] => simp at hlength
      | [_, _] => simp_all
      | _ :: _ :: _ :: _ => simp at habove
    have hhollow : mainTree.packageAt? "kit" ["w", "src"] = none := by decide +kernel
    rw [packageAt?_iff.mpr ⟨by decide, hother⟩] at hhollow
    cases hhollow

theorem resolvePackage?_nearest_main :
    "kit" ≠ "" ∧ ¬ NamesFile "kit" ∧ NamesFile "./kit" ∧
    mainTree.resolvePackage? "kit" (ofString "src/main.js") = some mainEntry ∧
    mainTree.isFile mainEntry = true ∧
    mainTree.resolvePackage? "./kit" (ofString "src/main.js") = none := by
  have hkit : ¬ NamesFile "kit" := by
    rw [← isRelativeSpecifier_iff]
    decide
  have hfile : NamesFile "./kit" := .fromHere "kit"
  obtain ⟨hpackage, hexists, -, -⟩ := resolvePackage?_nearest mainTree "kit" (ofString "src/main.js")
  obtain ⟨-, -, -, hnone⟩ := resolvePackage?_nearest mainTree "./kit" (ofString "src/main.js")
  have hresolved := ((hpackage (by decide) hkit).1 _).mpr ⟨_, isNearestEntry_mainEntry⟩
  exact ⟨by decide, hkit, hfile, hresolved, hexists _ hresolved, hnone hfile⟩

end FileTree

end WorkflowAnalysis
