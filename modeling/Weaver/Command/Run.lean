import Weaver.Command.Process
/-!
Command lines.

The first word of a command line says which command it is. What is left are its options and
operands.
-/
set_option autoImplicit false

namespace Weaver.Command

/-! ## Suggestions -/

/-- The distances of a list to all beginnings of another one, when a byte is added to the first. -/
def nextDistances (x : UInt8) : (corner left : Nat) → List UInt8 → List Nat → List Nat
  | corner, left, y :: ys, above :: row =>
    let d := if x == y then corner else min (min left above) corner + 1
    d :: nextDistances x above d ys row
  | _, _, _, _ => []

/-- How many bytes have to be put in, taken out or changed to make one list of another. -/
def distance (xs ys : List UInt8) : Nat :=
  let start := List.range (ys.length + 1)
  let row := xs.foldl (fun row x =>
    let first := row.headD 0
    (first + 1) :: nextDistances x first (first + 1) ys (row.drop 1)) start
  row.getLastD 0

/-- The names of the commands there are. -/
def commandNames : List String := (commands 0).map (·.name)

/-- The commands that a word may have been meant for: it is close to them or begins them. -/
def suggestions (word : String) : List String :=
  commandNames.filter fun c =>
    distance (Text.small word).toUTF8.toList c.toUTF8.toList ≤ 2 || c.startsWith (Text.small word)

/-- What is said about an unknown command. -/
def unknownCommand (word : String) : String :=
  let meant := suggestions word
  "unknown command " ++ Text.quote word ++ " for " ++ Text.quote program ++
    if meant.isEmpty then ""
    else "\n\nDid you mean this?\n" ++ String.join (meant.map ("\t" ++ · ++ "\n"))

/-! ## Handlers -/

/-- Lines of cells with two blanks between the columns; the last column is as wide as it is. -/
def table (rows : List (String × String × String)) : String :=
  let width (f : String × String × String → String) : Nat :=
    (rows.map fun r => (f r).length).foldl max 0 + 2
  String.join (rows.map fun r =>
    padded (width (·.1)) r.1 ++ padded (width (·.2.1)) r.2.1 ++ r.2.2 ++ "\n")

/-- The list of all handlers. -/
def handlerTable : String :=
  table (("PRIORITY", "TRIGGER", "NAME") ::
    Handler.standard.map fun h => (toString h.priority, h.trigger.name, h.name))

/-! ## Running -/

/-- What is wrong with the number of operands or with options that exclude each other. -/
def processFault? (a : Arguments) : Option String :=
  if a.operands.isEmpty then some "requires at least 1 arg(s), only received 0"
  else if (a.value? "write").isSome && (a.value? "diff").isSome then
    some ("if any flags in the group [write diff] are set none of the others can be; " ++
      "[diff write] were all set")
  else none

/-- Shows a failure. -/
def Outcome.shown (o : Outcome) : Outcome :=
  match o.failure with
  | some e => { o with err := o.err ++ "Error: " ++ e ++ "\n" }
  | none => o

variable {m : Type → Type} [Monad m] [FileSystem m]

/-- A command that takes no operands says something, or refuses the first operand. -/
def alone (c : CommandSpec) (a : Arguments) (text : String) : Outcome :=
  match a.operands with
  | [] => ⟨text, "", none⟩
  | x :: _ => .failed ("unknown command " ++ Text.quote x ++ " for " ++ Text.quote c.path)

/-- A word in a list of unknown topics. -/
def topic (s : String) : String :=
  if s.toList.all fun c => c == '\t' || (0x20 ≤ c.toNat && c.toNat != 0x7f && c != '\x60' &&
      c != '\ufeff') then "`" ++ s ++ "`"
  else Text.quote s

/-- The help for the command that words name. -/
def helpFor (w : Surroundings) (names : List String) : String :=
  let all := programCommand w.processors
  match names with
  | [] => all.help
  | name :: _ =>
    match (helpCommand :: commands w.processors).find? (·.name == name) with
    | some c => c.help
    | none => "Unknown help topic [" ++ " ".intercalate (names.map topic) ++ "]\n" ++
        all.usage all.options

/-- Runs a command with its arguments. -/
def runCommand (w : Surroundings) (c : CommandSpec) (args : List String) :
    m (Except Abort Outcome) := do
  match Arguments.of (helpOption c.name :: c.options ++ commonOptions) args with
  | .error f => return .ok (.failed f.message)
  | .ok a =>
    if a.isOn "help" || c.call.isNone then return .ok ⟨c.help, "", none⟩
    else if c.name == "process" then
      match processFault? a with
      | some e => return .ok (.failed e)
      | none => process w a
    else if c.name == "handlers" then return .ok (alone c a handlerTable)
    else if c.name == "version" then
      return .ok (alone c a (program ++ " (devel) " ++ w.toolchain ++ "\n"))
    else return .ok ⟨helpFor w a.operands, "", none⟩

/-- Runs a command line. -/
def run (w : Surroundings) (args : List String) : m (Except Abort Outcome) := do
  match words commonOptions args with
  | [] => return (← runCommand w (programCommand w.processors) args).map Outcome.shown
  | word :: _ =>
    match (helpCommand :: commands w.processors).find? (·.name == word) with
    | some c =>
      return (← runCommand w c (withoutWord commonOptions word args)).map Outcome.shown
    | none =>
      let o := (Outcome.failed (unknownCommand word)).shown
      return .ok { o with err := o.err ++ "Run '" ++ program ++ " --help' for usage.\n" }

end Weaver.Command
