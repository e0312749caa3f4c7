import Weaver.Command.Option
/-!
The commands of the program with their options, and how help shows them.

Help for a command says what it does and how it is called, lists the commands in it, and lists its
own options and those of all commands. Options are in the order of their names.
-/
set_option autoImplicit false

namespace Weaver.Command

/-- A command. -/
structure CommandSpec where
  name : String
  /-- How it is called. A command that consists of others cannot be called on its own. -/
  call : Option String
  /-- What it does, in a line and at length. -/
  summary : String
  description : String
  options : List OptionSpec
  /-- The commands in it with their summaries. -/
  parts : List (String × String)
deriving Repr, DecidableEq, Inhabited

/-- The name of the program. -/
def program : String := "lombokgo"

/-! ## Commands -/

/-- The options of all commands. -/
def commonOptions : List OptionSpec :=
  [⟨"log-json", none, .switch, "Write logs as JSON"⟩,
   ⟨"verbose", some 'v', .counter, "Increase log verbosity (-v, -vv)"⟩]

/-- The option that asks for help. -/
def helpOption (command : String) : OptionSpec :=
  ⟨"help", some 'h', .switch, "help for " ++ command⟩

/-- The name of the file with settings. -/
def settingsName : String := "lombok.yaml"

/-- The options for processing. By default as many files are processed at a time as there are
processors. -/
def processOptions (processors : Nat) : List OptionSpec :=
  [⟨"config", none, .text, "Configuration file (default: " ++ settingsName ++
      " in the working directory or a parent)"⟩,
   ⟨"diff", some 'd', .switch, "Print unified diffs instead of the transformed sources"⟩,
   ⟨"disable", none, .texts, "Never run these handlers"⟩,
   ⟨"enable", none, .texts, "Run only these handlers"⟩,
   ⟨"jobs", some 'j', .number, "Number of files processed concurrently (default " ++
      toString processors ++ ")"⟩,
   ⟨"release", none, .number, "Host release, 6 or 7"⟩,
   ⟨"warnings-as-errors", none, .switch, "Fail on warnings"⟩,
   ⟨"watch", none, .switch, "Keep running and process files again when they change"⟩,
   ⟨"write", some 'w', .switch, "Write the transformed sources back to their files"⟩]

/-- The command that processes sources. -/
def processCommand (processors : Nat) : CommandSpec where
  name := "process"
  call := some "process [flags] <file|dir|glob>..."
  summary := "Run the handlers over Java sources"
  description := "Run the handlers over Java sources.

Arguments are files, directories (searched for *.java recursively) or
doublestar globs such as 'src/**/*.java'. By default the transformed sources
are printed; --write replaces the files and --diff prints unified diffs.
Files with errors are left alone, and the command fails."
  options := processOptions processors
  parts := []

/-- The command that lists handlers. -/
def handlersCommand : CommandSpec :=
  let summary := "List the registered handlers in the order they run"
  ⟨"handlers", some "handlers [flags]", summary, summary, [], []⟩

/-- The command that tells the version. -/
def versionCommand : CommandSpec :=
  let summary := "Print the version of " ++ program
  ⟨"version", some "version [flags]", summary, summary, [], []⟩

/-- The command for help. -/
def helpCommand : CommandSpec where
  name := "help"
  call := some "help [command] [flags]"
  summary := "Help about any command"
  description := "Help provides help for any command in the application.\nSimply type " ++
    program ++ " help [path to command] for full details."
  options := []
  parts := []

/-- The command for scripts that complete command lines. -/
def completionCommand : CommandSpec where
  name := "completion"
  call := none
  summary := "Generate the autocompletion script for the specified shell"
  description := "Generate the autocompletion script for " ++ program ++
    " for the specified shell.\n" ++
    "See each sub-command's help for details on how to use the generated script."
  options := []
  parts := ["bash", "fish", "powershell", "zsh"].map fun shell =>
    (shell, "Generate the autocompletion script for " ++ shell)

/-- The commands there are, in the order in which they are suggested. -/
def commands (processors : Nat) : List CommandSpec :=
  [processCommand processors, handlersCommand, versionCommand, completionCommand]

/-- The program as a command that consists of the others. -/
def programCommand (processors : Nat) : CommandSpec where
  name := program
  call := none
  summary := "Expand lombok annotations in Java sources"
  description := "lombokgo expands lombok annotations in Java sources.

Every registered handler runs over each source file, in priority order, and
the annotations it handled are removed from the output.

Examples:
  lombokgo process 'src/**/*.java'          # print transformed sources
  lombokgo process --diff 'src/**/*.java'   # show what would change
  lombokgo process --write --watch src      # rewrite files as they change
  lombokgo handlers                         # list registered handlers"
  options := commonOptions
  parts := ((helpCommand :: commands processors).map fun c => (c.name, c.summary)).mergeSort
    fun a b => a.1 ≤ b.1

/-! ## Help -/

/-- A text made as long as a column is wide. -/
def padded (width : Nat) (s : String) : String :=
  s ++ String.ofList (List.replicate (width - s.length) ' ')

namespace OptionSpec

/-- What stands for the value of an option. -/
def placeholder (o : OptionSpec) : String :=
  match o.kind with
  | .switch => ""
  | .counter => " count"
  | .number => " int"
  | .text => " string"
  | .texts => " strings"

/-- How an option is written. -/
def heading (o : OptionSpec) : String :=
  (match o.letter with
    | some c => "  -" ++ c.toString ++ ", --"
    | none => "      --") ++ o.name ++ o.placeholder

/-- Lines for options, in the order of their names. -/
def table (os : List OptionSpec) : String :=
  let width := (os.map (·.heading.length)).foldl max 0 + 3
  "\n".intercalate ((os.mergeSort fun a b => a.name ≤ b.name).map fun o =>
    padded width o.heading ++ o.about)

end OptionSpec

namespace CommandSpec

/-- A command is the program itself. -/
def isProgram (c : CommandSpec) : Bool := c.name == program

/-- How a command is named on a command line. -/
def path (c : CommandSpec) : String :=
  if c.isProgram then program else program ++ " " ++ c.name

/-- How a command is called, and which commands and options there are. -/
def usage (c : CommandSpec) (options : List OptionSpec) : String :=
  "Usage:" ++
  (match c.call with
    | some s => "\n  " ++ program ++ " " ++ s
    | none => "") ++
  (if c.parts.isEmpty then ""
    else "\n  " ++ c.path ++ " [command]\n\nAvailable Commands:" ++
      String.join (c.parts.map fun (name, summary) =>
        "\n  " ++ padded 11 name ++ " " ++ summary)) ++
  "\n\nFlags:\n" ++ OptionSpec.table options ++
  (if c.isProgram then "" else "\n\nGlobal Flags:\n" ++ OptionSpec.table commonOptions) ++
  (if c.parts.isEmpty then ""
    else "\n\nUse \"" ++ c.path ++ " [command] --help\" for more information about a command.") ++
  "\n"

/-- The help for a command. -/
def help (c : CommandSpec) : String :=
  c.description ++ "\n\n" ++ c.usage (helpOption c.name :: c.options)

end CommandSpec

end Weaver.Command
