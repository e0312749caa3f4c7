import Weaver.Command.Option
import Weaver.Processing.Config
import Weaver.Text.Case
import Weaver.Yaml.Show
/-!
Settings and where they come from.

A setting is taken from the command line, else from the environment, else from a file, else it has a
default. What is found there need not have the form that the setting has: texts are read as numbers,
single values as lists, and so on, as far as they make sense.
-/
set_option autoImplicit false

namespace Weaver.Command

open Weaver.Yaml (Value)
open Weaver.Number (Floating)

/-! ## Sources -/

/-- Where settings come from. -/
structure Sources where
  arguments : Arguments
  /-- The value of a variable of the environment. -/
  environment : String → Option String
  file : List (String × Value)

/-- The value of an option as that of a setting. A list is taken from the line that its values make,
so a line break in a value is plain, and an empty value on its own is none. -/
def OptionValue.setting : OptionValue → Value
  | switch b => .flag b
  | number n => .integer n
  | text s => .text s
  | texts ss => .list (((Record.values (Record.line ss)).toOption.getD []).map .text)

/-- The settings there are. -/
def settingKeys : List String := ["enabled", "disabled", "release", "warnings-as-errors"]

/-- The variable for a setting. -/
def variableName (key : String) : String :=
  "LOMBOK_" ++ String.ofList (key.toList.map fun c => if c == '-' then '_' else c.toUpper)

/-- A key of a map as text. -/
def keyText : Value → String
  | .null => ""
  | .floating x => x.plainText .double
  | k => k.shown

mutual

/-- The value with texts in small letters for the keys of maps; what is in a list stays. -/
def smallKeys : Value → Value
  | .map _ ks vs => .map false (ks.map fun k => .text (Text.small (keyText k))) (smallKeysAll vs)
  | v => v

/-- The values with texts in small letters for the keys of maps. -/
def smallKeysAll : List Value → List Value
  | [] => []
  | v :: vs => smallKeys v :: smallKeysAll vs

end

mutual

/-- The value of an entry of a file: in its maps, and in those of a list, keys have no capitals. -/
def entryValue : Value → Value
  | .list vs => .list (entryValues vs)
  | v => smallKeys v

/-- The values in a list that is an entry of a file. -/
def entryValues : List Value → List Value
  | [] => []
  | v :: vs => entryValue v :: entryValues vs

end

namespace Sources

/-- What the file says; capitals do not matter in its keys. -/
def inFile? (s : Sources) (key : String) : Option Value :=
  match s.file.find? fun e => Text.small e.1 == key with
  | some (_, .null) | none => none
  | some (_, v) => some (entryValue v)

/-- The value of a setting, with the option that sets it, if there is any. -/
def value? (s : Sources) (key option : String) : Option Value :=
  match s.arguments.value? option with
  | some v => some v.setting
  | none =>
    match s.environment (variableName key) with
    | some v => if v.isEmpty then s.inFile? key else some (.text v)
    | none => s.inFile? key

end Sources

/-! ## Forms -/

/-- The least integer of 64 bits. -/
def leastInteger : Int := -0x8000000000000000

/-- The whole part of a number, if it has 64 bits; otherwise the least integer. -/
def truncate : Floating → Int
  | .finite negative m e =>
    let n : Nat := if 0 ≤ e then m * Nat.pow 2 e.toNat else m / Nat.pow 2 (-e).toNat
    let k : Int := if negative then -n else n
    if leastInteger ≤ k && k < -leastInteger then k else leastInteger
  | _ => leastInteger

/-- Says that a value has no form that a setting can have. -/
def unfit (name type : String) (v : Value) : String :=
  "'" ++ name ++ "' expected type '" ++ type ++ "', got unconvertible type '" ++ v.typeName ++
    "', value: '" ++ v.shown ++ "'"

/-- The text that a value stands for in a list. -/
def asText (name : String) : Value → Except String String
  | .null => .ok ""
  | .flag b => .ok (if b then "1" else "0")
  | .integer n => .ok (toString n)
  | .floating x => .ok (x.plainText .double)
  | .text s => .ok s
  | v => .error (unfit name "string" v)

/-- The list that values stand for, from the `i`-th on; all problems if there are any. -/
def asTextsFrom (name : String) (i : Nat) : List Value → Except (List String) (List String)
  | [] => .ok []
  | v :: vs =>
    match asText (name ++ "[" ++ toString i ++ "]") v, asTextsFrom name (i + 1) vs with
    | .ok s, .ok ss => .ok (s :: ss)
    | .ok _, .error ps => .error ps
    | .error p, .ok _ => .error [p]
    | .error p, .error ps => .error (p :: ps)

/-- The list that a value stands for. A text is cut at commas. -/
def asTexts (name : String) : Value → Except (List String) (List String)
  | .null => .ok []
  | .text s => .ok (if s.isEmpty then [] else s.splitOn ",")
  | .list vs => asTextsFrom name 0 vs
  | .map _ [] _ => .ok []
  | v => asTextsFrom name 0 [v]

/-- The integer that a value stands for. One that needs all 64 bits for its value is taken for a
negative one. -/
def asInteger (name : String) : Value → Except (List String) Int
  | .null => .ok 0
  | .flag b => .ok (if b then 1 else 0)
  | .integer n => .ok (n.bmod 0x10000000000000000)
  | .floating x => .ok (truncate x)
  | .text s =>
    if s.isEmpty then .ok 0
    else (Scalar.integer s).mapError fun e => ["cannot parse '" ++ name ++ "' as int: " ++ e]
  | v => .error [unfit name "int" v]

/-- The truth value that a value stands for. A message shows expressions instead of types. -/
def asFlag (name : String) : Value → Except (List String) Bool
  | .null => .ok false
  | .flag b => .ok b
  | .integer n => .ok (n != 0)
  | .floating x => .ok (x != .finite false 0 0 && x != .finite true 0 0)
  | .text s =>
    if s.isEmpty then .ok false
    else (Scalar.flag s).mapError fun e => ["cannot parse '" ++ name ++ "' as bool: " ++ e]
  | v =>
    .error ["'" ++ name ++ "' expected type '%!s(bool=false)', got unconvertible type '" ++
      v.expression ++ "', value: '" ++ v.expression ++ "'"]

/-! ## The configuration -/

/-- The problems of a setting. -/
def problems {α : Type} : Except (List String) α → List String
  | .ok _ => []
  | .error ps => ps

/-- The configuration that settings make, or what is wrong with their forms. -/
def Sources.config (s : Sources) : Except String Config :=
  let field {α : Type} (key option : String) (default : α)
      (read : String → Value → Except (List String) α) : Except (List String) α :=
    match s.value? key option with
    | some v => read key v
    | none => .ok default
  let std := Config.standard
  let enabled := field "enabled" "enable" std.enabled asTexts
  let disabled := field "disabled" "disable" std.disabled asTexts
  let release := field "release" "release" std.release asInteger
  let warnings :=
    field "warnings-as-errors" "warnings-as-errors" std.warningsAsErrors asFlag
  match enabled, disabled, release, warnings with
  | .ok e, .ok d, .ok r, .ok w => .ok ⟨e, d, r, w⟩
  | _, _, _, _ =>
    .error ("decoding failed due to the following error(s):\n\n" ++ "\n".intercalate
      (problems enabled ++ problems disabled ++ problems release ++ problems warnings))

end Weaver.Command
