import Weaver.Command.FileSystem
import Weaver.Command.Glob
import Weaver.Command.Row
/-!
The files that a pattern stands for.

A pattern is taken apart from its end: its last segment is matched with the names in the directories
that stand for the segments before it. The segment `**` stands for a directory and all that are in
it. Alternatives are tried one after the other, each with the text around the braces.

A pattern is deep if two stars are written before its last two bytes. In other patterns the segment
`**` with more segments after it can arise from alternatives only, and then it stands for no
directory. There the directories for the segments before the last one are added to the row of what
is found so far: so what one alternative finds is looked into by the next one as well, and what is
found can replace directories that are not yet looked into.
-/
set_option autoImplicit false

namespace Weaver.Glob

/-! ## Parts of patterns -/

/-- Cuts a text at the last character of a kind that has no backslash before it. -/
def cutLast? (isCut : Char → Bool) : (escaped : Bool) → List Char →
    Option (List Char × Char × List Char)
  | _, [] => none
  | escaped, c :: cs =>
    match cutLast? isCut (c == '\\') cs with
    | some (before, x, after) => some (c :: before, x, after)
    | none => if isCut c && !escaped then some ([], c, cs) else none

/-- Cuts a text at the brace that opens the alternatives closed at its end. The text is given
backwards, with what was passed over. -/
def opening? : (depth : Nat) → (passed : List Char) → List Char → Option (List Char × List Char)
  | _, _, [] => none
  | depth, passed, c :: cs =>
    let escaped := cs.head? == some '\\'
    if c == '\x7b' && !escaped then
      if depth == 0 then some (cs.reverse, passed) else opening? (depth - 1) (c :: passed) cs
    else opening? (if c == '\x7d' && !escaped then depth + 1 else depth) (c :: passed) cs

/-- How a pattern with special characters ends. -/
inductive Ending where
  /-- A segment in a directory. -/
  | segment (directory name : List Char)
  /-- Alternatives with what stands before and after them, where there is no slash. -/
  | choice (before inside after : List Char)

/-- The end of a pattern. -/
def Ending.of (p : List Char) : Ending :=
  let segmented : Ending :=
    match cutLast? (· == '/') false p with
    | some (directory, _, name) => segment directory name
    | none => segment ['.'] p
  match cutLast? (fun c => c == '/' || c == '\x7d') false p with
  | some (before, '\x7d', after) =>
    match opening? 0 [] before.reverse with
    | some (before, inside) => choice before inside after
    | none => segmented
  | _ => segmented

/-- Two stars stand next to each other, with two bytes or more after them. -/
def isDeep : List Char → Bool
  | '\\' :: _ :: cs => isDeep cs
  | c :: cs =>
    (c == '*' && cs.head? == some '*' && 2 ≤ (String.ofList (cs.drop 1)).utf8ByteSize) || isDeep cs
  | [] => false

/-! ## Places -/

/-- The files that are searched, by the paths to them. The start is `.`. -/
structure Scope where
  files : List String
deriving Repr, DecidableEq, Inhabited

namespace Scope

/-- The first names on a path stand before those on another one, or are the same. -/
def leNames : List String → List String → Bool
  | [], _ => true
  | _ :: _, [] => false
  | a :: as, b :: bs => a < b || (a == b && leNames as bs)

/-- Some files, in the order of the names on their paths. -/
def of (files : List String) : Scope :=
  ⟨files.mergeSort fun a b => leNames (a.splitOn "/") (b.splitOn "/")⟩

/-- How the paths of what is in a directory begin. -/
def lead (directory : String) : String := if directory == "." then "" else directory ++ "/"

/-- The files in a directory, as seen from there. -/
def below (s : Scope) (directory : String) : List String :=
  s.files.filterMap fun f =>
    if f.startsWith (lead directory) then some (f.drop (lead directory).length).toString else none

/-- What a path leads to. -/
def look? (s : Scope) (path : String) : Option EntryKind :=
  if s.files.contains path then some .file
  else if path == "." || !(s.below path).isEmpty then some .directory
  else none

/-- The names in a directory, with what they belong to. -/
def names (s : Scope) (directory : String) : List (String × EntryKind) :=
  ((s.below directory).filterMap fun f =>
    match f.splitOn "/" with
    | [name] => some (name, .file)
    | name :: _ => some (name, .directory)
    | [] => none).eraseDups

/-- A directory, if there is one at a path, and all directories in it. -/
def directories (s : Scope) (directory : String) : List String :=
  if s.look? directory != some .directory then []
  else directory :: ((s.below directory).flatMap fun f =>
    (Path.leads (f.splitOn "/").dropLast).map fun d =>
      lead directory ++ "/".intercalate d).eraseDups

/-- The files in a directory with names that a pattern matches; directories if more segments
follow. -/
def segment (s : Scope) (deep last : Bool) (name : List Char) (directory : String) :
    Option (List String) :=
  if name.isEmpty then
    some (if !last && s.look? directory == some .directory then [directory] else [])
  else if name == ['*', '*'] then
    some (if last then (s.below directory).map (lead directory ++ ·)
      else if deep then s.directories directory else [])
  else do
    let found ← (s.names directory).filterM fun (n, _) => matches? name n
    return (found.filter fun (_, k) => k == if last then .file else .directory).map
      fun (n, _) => lead directory ++ n

/-- What a literal text leads to; a slash at its end does not matter. -/
def literal (s : Scope) (last : Bool) (p : List Char) : List String :=
  let path := String.ofList (unescape p)
  let bare := if 1 < path.length && path.endsWith "/" then (path.dropEnd 1).toString else path
  match s.look? bare with
  | some .file => [path]
  | some .directory => if last then [] else [path]
  | none => []

/-! ## Searching -/

/-- Adds the paths that a pattern stands for to those in a row; directories if more segments follow.
Gives the places of the row as they are then, and the row in which the paths are. There is no answer
if something wrong in the pattern is reached. -/
def search (s : Scope) (deep : Bool) : Nat → (last : Bool) → Row → List Char →
    Option (List String × Row)
  | 0, _, r, _ => some (r.places, r)
  | fuel + 1, last, r, p =>
    let directories (d : List Char) : Option Work :=
      if deep then
        (search s deep fuel false .empty d).map fun (_, ds) =>
          ⟨r.places, r, .ofPaths ds.paths.eraseDups, true⟩
      else
        (search s deep fuel false r d).map fun (first, ds) =>
          ⟨first, ⟨first, r.size⟩, ds, ds.room != r.room⟩
    let fixed (d : String) : Work := ⟨r.places, r, .ofPaths [d], true⟩
    if !hasSpecial p then
      let w := (fixed "").addAll (s.literal last p)
      some (w.first, w.found)
    else match Ending.of p with
      | .segment d name => do
        let w ← if hasSpecial d then directories d else some (fixed (String.ofList (unescape d)))
        let w ← (List.range w.directories.size).foldlM (fun w i => do
          return w.addAll (← s.segment deep last name (w.directory i))) w
        return (w.first, w.found)
      | .choice before inside after => do
        let (w, before) ← match cutLast? (fun c => c == '/' || c == '\x7d') false before with
          | some (d, '/', rest) => (directories d).map (·, rest)
          | _ => some (fixed "", before)
        let all := alternatives 0 inside
        let written := if all.getLast? == some [] then all.dropLast else all
        let w ← (List.range w.directories.size).foldlM (fun w i => do
          let d := w.directory i
          let lead := if d.isEmpty || d == "." then [] else d.toList ++ ['/']
          let start := w.found.size
          let (w, _) ← written.foldlM (fun (w, mid) a => do
            let (places, found) ← search s deep fuel last w.found (lead ++ before ++ a ++ after)
            let w := (w.update places found).merge start mid
            return (w, w.found.size)) (w, start)
          return w) w
        return (w.first, w.found)

/-- The files that a pattern stands for. There are none if it is not well formed. -/
def find? (s : Scope) (pattern : String) : Option (List String) :=
  let p := pattern.toList
  let longest := (s.files.map String.length).foldl max 0
  if isValid pattern then
    (s.search (isDeep p) ((p.length + 1) * (longest + 2)) true .empty p).map fun (_, r) => r.paths
  else none

end Scope

/-! ## Where to search -/

/-- The length of the part of a pattern before the last slash that no special character precedes. -/
def baseLength? : Nat → Option Nat → List Char → Option Nat
  | _, best, [] => best
  | n, best, '\\' :: _ :: cs => baseLength? (n + 2) best cs
  | n, best, c :: cs =>
    if c == '/' then baseLength? (n + 1) (some n) cs
    else if isSpecial c then best
    else baseLength? (n + 1) best cs

/-- The directory in which a pattern looks, and the pattern for paths from there. -/
def split (pattern : String) : String × String :=
  let cs := pattern.toList
  match baseLength? 0 none cs with
  | none => (".", pattern)
  | some 0 => ("/", String.ofList (cs.drop 1))
  | some n => (String.ofList (unescape (cs.take n)), String.ofList (cs.drop (n + 1)))

end Weaver.Glob
