/-!
Paths of files, with slashes between their segments, what commands need of a file system, and file
systems that are mere values.
-/
set_option autoImplicit false

/-! ## Paths -/

namespace Weaver.Path

/-- The path starts at the root. -/
def isRooted (path : String) : Bool := path.startsWith "/"

/-- Follows one more segment. `done` holds the segments so far, the last one first. -/
def follow (rooted : Bool) (done : List String) (segment : String) : List String :=
  if segment.isEmpty || segment == "." then done
  else if segment != ".." then segment :: done
  else match done with
    | [] => if rooted then [] else [".."]
    | last :: rest => if last == ".." then ".." :: done else rest

/-- The segments of a path without dots: `..` stands at most at the beginning. -/
def segments (path : String) : List String :=
  ((path.splitOn "/").foldl (follow (isRooted path)) []).reverse

/-- The shortest path to the same place. -/
def clean (path : String) : String :=
  let text := "/".intercalate (segments path)
  if isRooted path then "/" ++ text
  else if text.isEmpty then "." else text

/-- A path followed by another one. -/
def join (base path : String) : String :=
  if base.isEmpty then clean path
  else if path.isEmpty then clean base
  else clean (base ++ "/" ++ path)

/-- The beginnings of a list that are not empty, the longest first. -/
def leads {α : Type} (l : List α) : List (List α) :=
  ((List.range l.length).map fun n => l.take (n + 1)).reverse

/-- A directory and all directories around it, from the inside out. -/
def ancestors (path : String) : List String :=
  let inside := (leads (segments path)).map ("/".intercalate ·)
  if isRooted path then inside.map ("/" ++ ·) ++ ["/"] else inside

end Weaver.Path

/-! ## File systems -/

namespace Weaver

/-- What a path can lead to. -/
inductive EntryKind where
  | file
  | directory
deriving Repr, DecidableEq, Inhabited

/-- Why there is nothing to be had at a path. -/
inductive FileFault where
  | notFound
  | notDirectory
  | isDirectory
  /-- The path or a name in it is too long. -/
  | tooLong
  /-- The path has a character that no path has. -/
  | invalid
  | other (reason : String)
deriving Repr, DecidableEq, Inhabited

/-- The wording of a fault. -/
def FileFault.message : FileFault → String
  | notFound => "no such file or directory"
  | notDirectory => "not a directory"
  | isDirectory => "is a directory"
  | tooLong => "file name too long"
  | invalid => "invalid argument"
  | other reason => reason

/-- Access to files. -/
class FileSystem (m : Type → Type) where
  /-- What a path leads to. -/
  look : String → m (Except FileFault EntryKind)
  /-- The content of a file. -/
  read : String → m (Except FileFault String)
  /-- Gives a file another content. -/
  write : String → String → m (Except FileFault Unit)
  /-- The paths of all files below a directory, as seen from there. -/
  below : String → m (List String)

/-- Files with their paths, which start in the working directory. -/
structure Files where
  /-- The name of the working directory. -/
  root : String
  entries : List (String × String)
deriving Repr, DecidableEq, Inhabited

namespace Files

/-- Files with paths of any form. -/
def of (root : String) (entries : List (String × String)) : Files :=
  ⟨root, entries.map fun (p, c) => (Path.clean p, c)⟩

/-- The file at a clean path. -/
def content? (fs : Files) (path : List String) : Option String :=
  fs.entries.lookup ("/".intercalate path)

/-- There are files below the directory with a clean path. -/
def hasBelow (fs : Files) (path : List String) : Bool :=
  path.isEmpty || fs.entries.any fun (p, _) => p.startsWith ("/".intercalate path ++ "/")

/-- How many bytes a name can have. -/
def nameLimit : Nat := 255

/-- How many bytes a path can have. -/
def pathLimit : Nat := 4095

/-- Follows the segments of a path from a directory. -/
def walk (fs : Files) : List String → List String → Except FileFault (List String)
  | at', [] => .ok at'
  | at', s :: ss =>
    if (fs.content? at').isSome then .error .notDirectory
    else if s.isEmpty || s == "." then fs.walk at' ss
    else if s == ".." then
      if at'.isEmpty then .error .notFound else fs.walk at'.dropLast ss
    else if nameLimit < s.utf8ByteSize then .error .tooLong
    else
      let next := at' ++ [s]
      if (fs.content? next).isSome || fs.hasBelow next then fs.walk next ss else .error .notFound

/-- The place of a path in the working directory. -/
def locate (fs : Files) (path : String) : Except FileFault (List String) :=
  if path.toList.contains '\x00' then .error .invalid
  else if path.isEmpty then .error .notFound
  else if pathLimit < path.utf8ByteSize then .error .tooLong
  else if path == fs.root then .ok []
  else if path.startsWith (fs.root ++ "/") then
    fs.walk [] ((path.drop (fs.root.length + 1)).toString.splitOn "/")
  else if Path.isRooted path then
    .error (if (Path.segments path).head?.any (nameLimit < ·.utf8ByteSize) then .tooLong
      else .notFound)
  else fs.walk [] (path.splitOn "/")

/-- What a path leads to. -/
def look (fs : Files) (path : String) : Except FileFault EntryKind :=
  (fs.locate path).map fun p => if (fs.content? p).isSome then .file else .directory

/-- The content of a file. -/
def read (fs : Files) (path : String) : Except FileFault String :=
  (fs.locate path).bind fun p =>
    match fs.content? p with
    | some c => .ok c
    | none => .error .isDirectory

/-- The files with another content at a path. -/
def write (fs : Files) (path content : String) : Except FileFault Files :=
  (fs.locate path).bind fun p =>
    if (fs.content? p).isNone then .error .isDirectory
    else
      let name := "/".intercalate p
      .ok { fs with entries := fs.entries.map fun e => if e.1 == name then (name, content) else e }

/-- The paths of all files below a directory, as seen from there. -/
def below (fs : Files) (path : String) : List String :=
  match fs.locate path with
  | .error _ => []
  | .ok [] => fs.entries.map (·.1)
  | .ok p =>
    let lead := "/".intercalate p ++ "/"
    fs.entries.filterMap fun (q, _) =>
      if q.startsWith lead then some (q.drop lead.length).toString else none

/-- The files that differ from those of another state, by path. -/
def changed (fs before : Files) : List (String × String) :=
  (fs.entries.filter fun e => !before.entries.contains e).mergeSort fun a b => a.1 ≤ b.1

end Files

instance : FileSystem (StateM Files) where
  look path := do return (← get).look path
  read path := do return (← get).read path
  write path content := do
    match (← get).write path content with
    | .ok fs => set fs; return .ok ()
    | .error e => return .error e
  below path := do return (← get).below path

end Weaver
