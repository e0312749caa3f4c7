import Weaver.Command.Search
import Weaver.Text.Quoted
/-!
The source files that operands name.

An operand is a file, a directory, which stands for all sources below it, or a pattern.
-/
set_option autoImplicit false

namespace Weaver.Command

variable {m : Type → Type} [Monad m] [FileSystem m]

/-- The files that a pattern stands for; nothing if something is wrong with it. -/
def matching (pattern : String) : m (Option (List String)) := do
  let pattern := Path.clean pattern
  let (base, inner) := Glob.split pattern
  if inner.isEmpty || inner == "." || inner == ".." then
    if !Glob.isValid pattern then return none
    let path := String.ofList (Glob.unescape pattern.toList)
    match ← FileSystem.look path with
    | .ok _ => return some [path]
    | .error _ => return some []
  else
    let scope := Glob.Scope.of (← FileSystem.below base)
    return (scope.find? inner).map fun found => found.map (Path.join base)

/-- The files that an operand names, or what is wrong with it. -/
def filesOf (operand : String) : m (Except String (List String)) := do
  let found (pattern : String) : m (Except String (List String)) := do
    match ← matching pattern with
    | some files => return .ok files
    | none => return .error ("bad pattern " ++ Text.quote operand ++ ": syntax error in pattern")
  match ← FileSystem.look operand with
  | .ok .file => return .ok [operand]
  | .ok .directory => found (Path.join operand "**/*.java")
  | .error fault =>
    if Glob.isPattern operand then found operand
    else return .error ("reading " ++ operand ++ ": stat " ++ operand ++ ": " ++ fault.message)

/-- The files that operands name, up to the first one with something wrong. -/
def filesOfAll : List String → m (Except String (List String))
  | [] => return .ok []
  | o :: os => do
    match ← filesOf o with
    | .error e => return .error e
    | .ok files => return (← filesOfAll os).map (files ++ ·)

/-- The files that operands name, each once, in order. There must be one. -/
def inputs (operands : List String) : m (Except String (List String)) := do
  match ← filesOfAll operands with
  | .error e => return .error e
  | .ok [] => return .error ("no Java sources match " ++ " ".intercalate operands)
  | .ok files => return .ok ((files.map Path.clean).eraseDups.mergeSort (· ≤ ·))

end Weaver.Command
