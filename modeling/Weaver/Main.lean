import Weaver.Command.Run
/-!
The program: a command line on the files of the machine.

Directories are not listed here. If an operand is not the path of a file, the paths of the files
that there are come from the standard input, one on each line.
-/
set_option autoImplicit false

namespace Weaver

/-- Work on the files of the machine, some of which are listed by their paths. -/
abbrev Machine := ReaderT (List String) IO

namespace Machine

/-- Does something with a file, or says why it cannot be done. -/
def attempt {α : Type} (x : IO α) : Machine (Except FileFault α) := do
  try return .ok (← x)
  catch e => return .error (match e with
    | .noFileOrDirectory .. => .notFound
    | e => .other (toString e))

/-- The listed files below a directory, as seen from there. -/
def listed (files : List String) (directory : String) : List String :=
  let lead := if Path.clean directory == "." then "" else Path.clean directory ++ "/"
  (files.map Path.clean).filterMap fun f =>
    if f.startsWith lead then some (f.drop lead.length).toString else none

instance : FileSystem Machine where
  look path := do
    match ← attempt (IO.FS.readFile path) with
    | .ok _ => return .ok .file
    | .error e => return if (listed (← read) path).isEmpty then .error e else .ok .directory
  read path := attempt (IO.FS.readFile path)
  write path content := attempt (IO.FS.writeFile path content)
  below directory := do return listed (← read) directory

/-- A path leads to a file. -/
def isFile (path : String) : IO Bool := do
  try let _ ← IO.FS.readFile path; return true
  catch _ => return false

/-- The paths on the standard input, if an argument is not the path of a file. -/
def listing (args : List String) : IO (List String) := do
  let mut complete := true
  for a in (Command.words Command.commonOptions args).drop 1 do
    complete := complete && (← isFile a)
  if complete then return []
  let input ← (← IO.getStdin).readToEnd
  return (input.splitOn "\n").filter (!·.isEmpty)

end Machine

end Weaver

/-- Runs a command line; the result is zero if it succeeds. -/
def main (args : List String) : IO UInt32 := do
  let mut found : List (String × String) := []
  for key in Weaver.Command.settingKeys do
    let name := Weaver.Command.variableName key
    if let some v ← IO.getEnv name then found := (name, v) :: found
  let values := found
  let around : Weaver.Command.Surroundings :=
    ⟨(← IO.getEnv "PWD").getD ".", fun name => values.lookup name, 1, "unknown"⟩
  let listing ← Weaver.Machine.listing args
  let work : Weaver.Machine _ := Weaver.Command.run around args
  match ← work.run listing with
  | .error _ =>
    IO.eprintln "the source cannot be worked on"
    return 2
  | .ok o =>
    IO.print o.out
    IO.eprint o.err
    return if o.failure.isSome then 1 else 0
