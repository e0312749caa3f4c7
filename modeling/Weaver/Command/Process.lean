import Weaver.Command.Help
import Weaver.Command.Input
import Weaver.Command.Setting
import Weaver.Diff.Unified
import Weaver.Handler.Standard
import Weaver.Parse.Unit
import Weaver.Yaml.Document
/-!
The command that processes source files.

All files are processed before anything is shown. Then each file has its diagnostics shown and,
unless it failed, its new text: it is printed, written back or compared with the old one.
-/
set_option autoImplicit false

namespace Weaver.Command

/-- What a command has shown on its two channels, and what is said if it failed. -/
structure Outcome where
  out : String
  err : String
  failure : Option String
deriving Repr, DecidableEq, Inhabited

namespace Outcome

/-- Nothing was shown. -/
def silent : Outcome := ⟨"", "", none⟩

/-- A command that failed at once. -/
def failed (message : String) : Outcome := ⟨"", "", some message⟩

/-- Two outcomes one after the other; the later failure counts. -/
def append (a b : Outcome) : Outcome := ⟨a.out ++ b.out, a.err ++ b.err, b.failure⟩

end Outcome

/-- What becomes of new texts. -/
inductive Delivery where
  | print
  | write
  | compare
deriving Repr, DecidableEq, Inhabited

/-- The result for a file. -/
inductive FileResult where
  /-- The file could not be read or parsed. -/
  | rejected (message : String)
  | processed (before after : String) (collector : Collector)
deriving Inhabited

/-- The file failed. -/
def FileResult.isFailure : FileResult → Bool
  | rejected _ => true
  | processed _ _ c => c.errorCount != 0

/-- Processes the text of a file. -/
def transform (config : Config) (path text : String) : Except Abort FileResult := do
  match Parse.unit path (Text.Glyph.ofString text) with
  | .error (.malformed e) => return .rejected e.message
  | .error .broken => throw .hole
  | .ok tree =>
    let (u, c, _) ← (SourceUnit.ofTree tree).process config (.empty config.warningsAsErrors)
    return .processed text u.tree.print c

variable {m : Type → Type} [Monad m] [FileSystem m]

/-- Processes a file. -/
def transformFile (config : Config) (path : String) : m (Except Abort FileResult) := do
  match ← FileSystem.read path with
  | .ok text => return transform config path text
  | .error fault =>
    let verb := if fault == .isDirectory then "read " else "open "
    return .ok (.rejected ("reading source: " ++ verb ++ path ++ ": " ++ fault.message))

/-- Shows the text of a file; a title is needed if there are several files. -/
def printed (several : Bool) (path text : String) : String :=
  (if several then "// " ++ path ++ "\n" else "") ++ text ++
    (if text.endsWith "\n" then "" else "\n")

/-- Delivers the new text of a file. -/
def deliver (d : Delivery) (several : Bool) (path before after : String) : m Outcome := do
  match d with
  | .print => return ⟨printed several path after, "", none⟩
  | .compare => return ⟨Diff.unified path before after, "", none⟩
  | .write =>
    if before == after then return .silent
    match ← FileSystem.write path after with
    | .ok () => return .silent
    | .error fault =>
      return .failed ("writing " ++ path ++ ": open " ++ path ++ ": " ++ fault.message)

/-- Shows the result for a file. -/
def report (d : Delivery) (several : Bool) (path : String) (r : FileResult) : m Outcome := do
  match r with
  | .rejected message => return ⟨"", path ++ ": " ++ message ++ "\n", none⟩
  | .processed before after c =>
    let shown : Outcome := ⟨"", String.join (c.diagnostics.map (·.text ++ "\n")), none⟩
    if r.isFailure then return shown
    return shown.append (← deliver d several path before after)

/-- Shows the results, up to the first one that cannot be delivered. -/
def reportAll (d : Delivery) (several : Bool) : List (String × FileResult) → m Outcome
  | [] => return .silent
  | (path, r) :: rest => do
    let o ← report d several path r
    if o.failure.isSome then return o
    return o.append (← reportAll d several rest)

/-- Processes files. -/
def transformAll (config : Config) :
    List String → m (Except Abort (List (String × FileResult)))
  | [] => return .ok []
  | f :: fs => do
    match ← transformFile config f with
    | .error e => return .error e
    | .ok r => return (← transformAll config fs).map ((f, r) :: ·)

/-- Processes files and shows the results. -/
def processFiles (config : Config) (d : Delivery) (files : List String) :
    m (Except Abort Outcome) := do
  match ← transformAll config files with
  | .error e => return .error e
  | .ok results =>
    let o ← reportAll d (1 < files.length) results
    let failed := results.countP (·.2.isFailure)
    if o.failure.isSome || failed == 0 then return .ok o
    return .ok { o with
      failure := some (toString failed ++ " of " ++ toString files.length ++ " files failed") }

/-! ## Configuration -/

/-- The first of some directories that has a file with settings. -/
def findSettings? : List String → m (Option String)
  | [] => return none
  | d :: ds => do
    let path := Path.join d settingsName
    match ← FileSystem.look path with
    | .ok _ => return some path
    | .error _ => findSettings? ds

/-- The entries of a file with settings. -/
def readSettings (path : String) :
    m (Except Abort (Except String (List (String × Yaml.Value)))) := do
  match ← FileSystem.read path with
  | .error fault =>
    let verb := if fault == .isDirectory then "read " else "open "
    return .ok (.error ("reading " ++ path ++ ": " ++ verb ++ path ++ ": " ++ fault.message))
  | .ok text =>
    match Yaml.entries text with
    | .ok entries => return .ok (.ok entries)
    | .error .unhashable => return .error .hole
    | .error f =>
      return .ok (.error ("reading " ++ path ++ ": While parsing config: " ++ f.message))

/-- What surrounds a command. -/
structure Surroundings where
  /-- The working directory. -/
  directory : String
  /-- The value of a variable of the environment. -/
  environment : String → Option String
  /-- How many processors there are. -/
  processors : Nat
  /-- What the program was built with. -/
  toolchain : String

/-- The configuration for a command, or what is wrong with it. -/
def configuration (w : Surroundings) (a : Arguments) :
    m (Except Abort (Except String Config)) := do
  let path ← match a.text "config" with
    | "" => findSettings? (Path.ancestors w.directory)
    | path => pure (some path)
  let file ← match path with
    | some path => readSettings path
    | none => pure (.ok (.ok []))
  match file with
  | .error e => return .error e
  | .ok (.error e) => return .ok (.error e)
  | .ok (.ok entries) =>
    match Sources.config ⟨a, w.environment, entries⟩ with
    | .error e => return .ok (.error ("decoding configuration: " ++ e))
    | .ok c =>
      match c.standardFault? with
      | some f => return .ok (.error ("invalid configuration: " ++ f.message))
      | none => return .ok (.ok c)

/-- The command: the operands are the files to process. -/
def process (w : Surroundings) (a : Arguments) : m (Except Abort Outcome) := do
  match ← configuration w a with
  | .error e => return .error e
  | .ok (.error e) => return .ok (.failed e)
  | .ok (.ok config) =>
    match ← inputs a.operands with
    | .error e => return .ok (.failed e)
    | .ok files =>
      let d := if a.isOn "write" then Delivery.write else if a.isOn "diff" then .compare else .print
      processFiles config d files

end Weaver.Command
