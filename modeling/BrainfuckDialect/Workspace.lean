import BrainfuckDialect.Host

/-!
# Workspaces

A workspace is a directory tree held as a value: every file and directory under the
root, each under its path (the list of names from the root). Paths are text with `/`
between names, resolved as a file system does: an empty name and `.` stay where they
are, `..` goes up, and each name on the way must be a directory. A path that starts
with `/`, or climbs above the root, leaves the workspace for the system around it,
which is known only in outline: the standard directories under its root, and the null
device, which reads as empty and swallows what is written to it. A file written
outside the workspace is not kept.

A path may not hold a NUL character, must be shorter than 4096 bytes, and each name
looked up in a directory must be at most 255 bytes long. Reading fails on a missing
name, on a file used as a directory, on a directory, and on bytes that are not UTF-8.
Writing fails on a missing or non-directory parent, on a trailing `/` or a last name `.`
or `..`, and on a directory; otherwise it replaces or creates the file and changes
nothing else, or changes nothing when the file is a device or outside.
-/

namespace BrainfuckDialect

/-- What a path of a workspace holds. -/
inductive Node where
  | file (bytes : ByteArray)
  | dir
  /-- A device that reads as empty and swallows what is written to it. -/
  | sink

/-- A directory tree: every entry under its path from the root. The root itself is not
an entry. -/
structure Workspace where
  entries : List (List String × Node)

namespace Workspace

/-- The workspace with nothing in it. -/
def empty : Workspace := ⟨[]⟩

/-- What the path holds; the root is a directory. -/
def find? (ws : Workspace) (p : List String) : Option Node :=
  if p = [] then some .dir
  else (ws.entries.find? (fun e => e.1 == p)).map Prod.snd

/-- The directories under the root of a standard system. -/
def standardDirs : List String :=
  ["bin", "boot", "dev", "etc", "home", "lib", "media", "mnt", "opt", "proc", "root",
    "run", "sbin", "srv", "sys", "tmp", "usr", "var"]

/-- The system around a workspace, as far as it is known: the standard directories
under its root, and the null device in `dev`. -/
def system : Workspace :=
  ⟨standardDirs.map (fun d => ([d], .dir)) ++ [(["dev", "null"], .sink)]⟩

/-- A place a path can lead to. -/
inductive Place where
  /-- The entry under this path from the workspace's root. -/
  | inside (p : List String)
  /-- The entry under this path from the system's root. -/
  | outside (p : List String)

/-- The place one level up; above the workspace's root is the system's root, and the
system's root is its own parent. -/
def Place.up : Place → Place
  | .inside [] => .outside []
  | .inside p => .inside p.dropLast
  | .outside p => .outside p.dropLast

/-- The place of the name `c` in the directory at `cur`. -/
def Place.child (cur : Place) (c : String) : Place :=
  match cur with
  | .inside p => .inside (p ++ [c])
  | .outside p => .outside (p ++ [c])

/-- Where a path starts: the system's root for a path that starts with `/`, else the
workspace's root. -/
def Place.start (path : String) : Place :=
  if path.startsWith "/" then .outside [] else .inside []

/-- What a place holds. -/
def nodeAt? (ws : Workspace) : Place → Option Node
  | .inside p => ws.find? p
  | .outside p => system.find? p

/-- The longest name a directory can hold, in bytes. -/
def nameMax : Nat := 255

/-- The length from which a path is refused, in bytes. -/
def pathMax : Nat := 4096

/-- Follow the names from the place `cur`: each step starts at a directory, and a name
looked up there must not be too long. -/
def walk (ws : Workspace) (cur : Place) : List String → Except IoError Place
  | [] => .ok cur
  | c :: rest =>
    match ws.nodeAt? cur with
    | none => .error .notFound
    | some .dir =>
      if c = "" ∨ c = "." then ws.walk cur rest
      else if c = ".." then ws.walk cur.up rest
      else if c.utf8ByteSize > nameMax then .error .nameTooLong
      else ws.walk (cur.child c) rest
    | some _ => .error .notDirectory

/-- Why a path cannot be given to the file system at all, if it cannot. -/
def pathProblem? (path : String) : Option IoError :=
  if path.any (· == '\x00') then some .nulInPath
  else if path = "" then some .notFound
  else if path.utf8ByteSize ≥ pathMax then some .nameTooLong
  else none

/-- The directory the names lead to from `start`. -/
def dirAt (ws : Workspace) (start : Place) (names : List String) : Except IoError Place :=
  match ws.walk start names with
  | .error e => .error e
  | .ok p =>
    match ws.nodeAt? p with
    | some .dir => .ok p
    | some _ => .error .notDirectory
    | none => .error .notFound

/-- The place a path leads to, following its names from where it starts. -/
def locate (ws : Workspace) (path : String) : Except IoError Place :=
  ws.walk (Place.start path) (path.splitOn "/")

/-- The text of the file at `path`. -/
def read (ws : Workspace) (path : String) : Except IoError String :=
  match pathProblem? path with
  | some e => .error e
  | none =>
    match ws.locate path with
    | .error e => .error e
    | .ok p =>
      match ws.nodeAt? p with
      | none => .error .notFound
      | some .dir => .error .isDirectory
      | some .sink => .ok ""
      | some (.file bytes) =>
        match String.fromUTF8? bytes with
        | some text => .ok text
        | none => .error .invalidUtf8

/-- A path refused before any lookup is refused by reading, with that error. -/
theorem read_of_pathProblem {ws : Workspace} {path : String} {e : IoError}
    (h : pathProblem? path = some e) : ws.read path = .error e := by
  simp [read, h]

/-- Put the bytes at `p`, replacing the entry there or adding one at the end. -/
def setFile (ws : Workspace) (p : List String) (bytes : ByteArray) : Workspace :=
  if ws.entries.any (fun e => e.1 == p) then
    ⟨ws.entries.map (fun e => if e.1 == p then (p, .file bytes) else e)⟩
  else ⟨ws.entries ++ [(p, .file bytes)]⟩

/-- Write `text` to the file at `path`. -/
def write (ws : Workspace) (path : String) (text : String) : Except IoError Workspace :=
  match pathProblem? path with
  | some e => .error e
  | none =>
    let names := path.splitOn "/"
    let kept := (names.reverse.dropWhile (· = "")).reverse
    let trailing := kept.length < names.length
    match kept.getLast? with
    | none => .error .isDirectory
    | some last =>
      if last = "." ∨ last = ".." then
        match ws.dirAt (Place.start path) kept with
        | .error e => .error e
        | .ok _ => .error .isDirectory
      else
        match ws.dirAt (Place.start path) kept.dropLast with
        | .error e => .error e
        | .ok parent =>
          if trailing then .error .isDirectory
          else if last.utf8ByteSize > nameMax then .error .nameTooLong
          else
            match ws.nodeAt? (parent.child last), parent with
            | some .dir, _ => .error .isDirectory
            | some .sink, _ => .ok ws
            | _, .outside _ => .ok ws
            | _, .inside dir => .ok (ws.setFile (dir ++ [last]) text.toUTF8)

/-- A path refused before any lookup is refused by writing, with that error. -/
theorem write_of_pathProblem {ws : Workspace} {path text : String} {e : IoError}
    (h : pathProblem? path = some e) : ws.write path text = .error e := by
  simp [write, h]

/-- Make `p` and every directory above it exist; a name already taken is left as it is. -/
def makeDirs (ws : Workspace) (p : List String) : Workspace :=
  (List.range p.length).foldl
    (fun acc k =>
      let q := p.take (k + 1)
      if (acc.find? q).isSome then acc else ⟨acc.entries ++ [(q, .dir)]⟩)
    ws

/-- Add a file, making the directories above it. -/
def addFile (ws : Workspace) (p : List String) (bytes : ByteArray) : Workspace :=
  (ws.makeDirs p.dropLast).setFile p bytes

/-- Whether path `p` comes before or equals `q`: name by name, each compared by code
point, which is the order of their UTF-8 bytes; a path comes right before the paths
below it. -/
def pathLe : List String → List String → Bool
  | [], _ => true
  | _ :: _, [] => false
  | a :: as, b :: bs => a < b || (a == b && pathLe as bs)

/-- Every entry, depth first, the names of each directory sorted. -/
def listing (ws : Workspace) : List (List String × Node) :=
  ws.entries.mergeSort (fun a b => pathLe a.1 b.1)

end Workspace
end BrainfuckDialect
