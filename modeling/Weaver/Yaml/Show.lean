import Weaver.Text.Quoted
import Weaver.Yaml.Value
/-!
How values are shown in messages: plainly, or as the expressions that make them.
-/
set_option autoImplicit false

namespace Weaver.Yaml.Value

/-- The integer needs all 64 bits for its value. -/
def isWide (n : Int) : Bool := 0x7fffffffffffffff < n

/-- The name of the type of a value. -/
def typeName : Value → String
  | null => "<nil>"
  | flag _ => "bool"
  | integer n => if isWide n then "uint64" else "int"
  | floating _ => "float64"
  | text _ => "string"
  | time _ => "time.Time"
  | list _ => "[]interface \x7b\x7d"
  | map general .. =>
    if general then "map[interface \x7b\x7d]interface \x7b\x7d"
    else "map[string]interface \x7b\x7d"

/-- Where keys of a kind stand among keys of other kinds. -/
def rank : Value → Nat
  | null => 0
  | flag _ => 1
  | integer n => if isWide n then 3 else 2
  | floating _ => 4
  | text _ => 5
  | _ => 6

/-- A key stands before another one or is the same. -/
def leKey : Value → Value → Bool
  | flag a, flag b => !a || b
  | integer a, integer b => a ≤ b
  | text a, text b => a ≤ b
  | floating a, floating b => a.text .double ≤ b.text .double
  | a, b => a.rank ≤ b.rank

/-- Keys with something that belongs to them, in order. -/
def sorted {α : Type} (ks : List Value) (xs : List α) : List (Value × α) :=
  (ks.zip xs).mergeSort fun a b => leKey a.1 b.1

mutual

/-- How a value is shown. -/
def shown : Value → String
  | null => "<nil>"
  | flag b => toString b
  | integer n => toString n
  | floating x => x.text .double
  | text s => s
  | time t => t.text
  | list vs => "[" ++ " ".intercalate (shownAll vs) ++ "]"
  | map _ ks vs =>
    "map[" ++ " ".intercalate ((sorted ks ((shownAll ks).zip (shownAll vs))).map
      fun (_, k, v) => k ++ ":" ++ v) ++ "]"

/-- How values are shown. -/
def shownAll : List Value → List String
  | [] => []
  | v :: vs => shown v :: shownAll vs

end

mutual

/-- The expression that makes a value. -/
def expression : Value → String
  | null => "interface \x7b\x7d(nil)"
  | flag b => toString b
  | integer n =>
    if isWide n then "0x" ++ String.ofList (Nat.toDigits 16 n.toNat) else toString n
  | floating x => x.text .double
  | text s => Text.quote s
  | time t => t.expression
  | list vs =>
    typeName (list vs) ++ "\x7b" ++ ", ".intercalate (expressions vs) ++ "\x7d"
  | map general ks vs =>
    typeName (map general ks vs) ++ "\x7b" ++
      ", ".intercalate ((sorted ks ((expressions ks).zip (expressions vs))).map
        fun (_, k, v) => k ++ ":" ++ v) ++ "\x7d"

/-- The expressions that make values. -/
def expressions : List Value → List String
  | [] => []
  | v :: vs => expression v :: expressions vs

end

end Weaver.Yaml.Value
