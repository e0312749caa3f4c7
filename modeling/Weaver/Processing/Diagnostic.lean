import Weaver.Source.Position
/-!
Diagnostics and their collection.
-/
set_option autoImplicit false

namespace Weaver

open Weaver.Source (Position)

/-- How grave a diagnostic is. -/
inductive Severity where
  | error
  | warning
  /-- A gravity without a name, by its number. -/
  | other (n : Int)
deriving Repr, DecidableEq, Inhabited

namespace Severity

/-- The gravity with a number. -/
def ofNumber (n : Int) : Severity :=
  if n == 0 then error else if n == 1 then warning else other n

/-- The name of a gravity. -/
def name : Severity → String
  | error => "error"
  | warning => "warning"
  | other n => "?" ++ toString n ++ "?"

end Severity

/-- An error or warning about a place in a source text. -/
structure Diagnostic where
  severity : Severity
  message : String
  file : String
  pos : Position
  /-- The name of the handler that reported it; empty if none did. -/
  handler : String
deriving Repr, DecidableEq, Inhabited

/-- The diagnostic on one line, after its place. -/
def Diagnostic.text (d : Diagnostic) : String :=
  (if d.file.isEmpty then "" else d.file ++ ":") ++ d.pos.text ++ ": " ++
    (if d.severity == .warning then "warning: " else "") ++ d.message

/-- Diagnostics in the order in which they were reported. -/
structure Collector where
  /-- Warnings fail the processing, too. -/
  warningsAsErrors : Bool
  diagnostics : List Diagnostic
deriving Repr, DecidableEq, Inhabited

/-- What is said when a diagnostic has failed the processing. -/
def invalidSource : String := "processing reported errors"

namespace Collector

/-- No diagnostics. -/
def empty (warningsAsErrors : Bool) : Collector := ⟨warningsAsErrors, []⟩

/-- Adds a diagnostic. -/
def report (c : Collector) (d : Diagnostic) : Collector :=
  { c with diagnostics := c.diagnostics ++ [d] }

/-- The diagnostic fails the processing. -/
def fails (c : Collector) (d : Diagnostic) : Bool :=
  d.severity == .error || c.warningsAsErrors

/-- The number of diagnostics that fail the processing. -/
def errorCount (c : Collector) : Nat :=
  c.diagnostics.countP c.fails

/-- What is said if a diagnostic has failed the processing. -/
def error? (c : Collector) : Option String :=
  if c.errorCount == 0 then none else some invalidSource

end Collector

end Weaver
