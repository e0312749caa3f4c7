import Weaver.Command.Record
import Weaver.Command.Scalar
/-!
Options on a command line.

An option is written with two dashes and its name, or with a dash and its letter; letters can be put
together. A value follows after an equals sign, as the next argument, or, after a letter, at once.
Switches and counters need no value. Other arguments are operands, as is everything after a double
dash.
-/
set_option autoImplicit false

namespace Weaver.Command

/-- What values an option takes. -/
inductive OptionKind where
  | switch
  | counter
  | number
  | text
  /-- Lists with commas; those of several options are put together. -/
  | texts
deriving Repr, DecidableEq, Inhabited

/-- An option. -/
structure OptionSpec where
  name : String
  letter : Option Char
  kind : OptionKind
  /-- What it is for. -/
  about : String
deriving Repr, DecidableEq, Inhabited

/-- The value of an option. -/
inductive OptionValue where
  | switch (b : Bool)
  | number (n : Int)
  | text (s : String)
  | texts (ss : List String)
deriving Repr, DecidableEq, Inhabited

namespace OptionSpec

/-- The value that an option has if none is written. -/
def bare? (o : OptionSpec) : Option String :=
  match o.kind with
  | .switch => some "true"
  | .counter => some "+1"
  | _ => none

/-- How an option is named in messages. -/
def shown (o : OptionSpec) : String :=
  match o.letter with
  | some c => "-" ++ c.toString ++ ", --" ++ o.name
  | none => "--" ++ o.name

/-- The value of an option that has the value `old` after another text is given for it. -/
def value (o : OptionSpec) (old : Option OptionValue) (text : String) :
    Except String OptionValue :=
  match o.kind with
  | .switch => (Scalar.flag text).map .switch
  | .number => (Scalar.integer text).map .number
  | .text => .ok (.text text)
  | .counter =>
    if text == "+1" then
      match old with
      | some (.number n) => .ok (.number (n + 1))
      | _ => .ok (.number 1)
    else (Scalar.integer text).map .number
  | .texts =>
    match Record.values text with
    | .error f => .error f.message
    | .ok new =>
      match old with
      | some (.texts ss) => .ok (.texts (ss ++ new))
      | _ => .ok (.texts new)

end OptionSpec

/-- What is wrong with an option. -/
inductive OptionFault where
  | form (argument : String)
  | unknown (name : String)
  | unknownLetter (letter : Char) (letters : String)
  | noValue (name : String)
  | noValueLetter (letter : Char) (letters : String)
  | badValue (option : OptionSpec) (text cause : String)
deriving Repr, DecidableEq

/-- The wording of a fault. Of a letter beyond the first 128 characters only its first byte is
looked at. -/
def OptionFault.message : OptionFault → String
  | form a => "bad flag syntax: " ++ a
  | unknown n => "unknown flag: --" ++ n
  | unknownLetter c cs =>
    let first := (c.toString.toUTF8.toList.map fun b => Char.ofNat b.toNat).headD c
    "unknown shorthand flag: " ++ Text.quoteChar first ++ " in -" ++ cs
  | noValue n => "flag needs an argument: --" ++ n
  | noValueLetter c cs => "flag needs an argument: " ++ Text.quoteChar c ++ " in -" ++ cs
  | badValue o text cause =>
    "invalid argument " ++ Text.quote text ++ " for " ++ Text.quote o.shown ++ " flag: " ++ cause

/-- Options with their values, and operands. -/
structure Arguments where
  options : List (String × OptionValue)
  operands : List String
deriving Repr, DecidableEq, Inhabited

namespace Arguments

/-- The value of an option, if it is given. -/
def value? (a : Arguments) (name : String) : Option OptionValue :=
  a.options.lookup name

/-- A switch is on. -/
def isOn (a : Arguments) (name : String) : Bool :=
  a.value? name == some (.switch true)

/-- The value of an option for a text; empty if it is not given. -/
def text (a : Arguments) (name : String) : String :=
  match a.value? name with
  | some (.text s) => s
  | _ => ""

/-- Gives an option a value. -/
def give (a : Arguments) (o : OptionSpec) (text : String) : Except OptionFault Arguments :=
  match o.value (a.value? o.name) text with
  | .error cause => .error (.badValue o text cause)
  | .ok v => .ok { a with options := (o.name, v) :: a.options.filter (·.1 != o.name) }

/-- Adds an operand. -/
def operand (a : Arguments) (s : String) : Arguments := { a with operands := a.operands ++ [s] }

/-- Reads options given by letters. If the last one needs the next argument, it is returned with its
letters. -/
def letters (specs : List OptionSpec) (a : Arguments) :
    List Char → Except OptionFault (Arguments × Option (OptionSpec × String))
  | [] => .ok (a, none)
  | c :: cs =>
    match specs.find? (·.letter == some c) with
    | none => .error (.unknownLetter c (String.ofList (c :: cs)))
    | some o =>
      match cs, o.bare? with
      | '=' :: d :: rest, _ => (a.give o (String.ofList (d :: rest))).map (·, none)
      | _, some v => do letters specs (← a.give o v) cs
      | [], none => .ok (a, some (o, c.toString))
      | _, none => (a.give o (String.ofList cs)).map (·, none)

/-- Reads an option given by its name, without the dashes. If it needs the next argument, it is
returned. -/
def long (specs : List OptionSpec) (a : Arguments) (text : String) :
    Except OptionFault (Arguments × Option OptionSpec) :=
  let cs := text.toList
  let name := String.ofList (cs.takeWhile (· != '='))
  match cs with
  | [] | '-' :: _ | '=' :: _ => .error (.form ("--" ++ text))
  | _ =>
    match specs.find? (·.name == name), cs.dropWhile (· != '=') with
    | none, _ => .error (.unknown name)
    | some o, _ :: v => (a.give o (String.ofList v)).map (·, none)
    | some o, [] =>
      match o.bare? with
      | some v => (a.give o v).map (·, none)
      | none => .ok (a, some o)

/-- Reads arguments. -/
def read (specs : List OptionSpec) (a : Arguments) : List String → Except OptionFault Arguments
  | [] => .ok a
  | s :: rest =>
    match s.toList with
    | ['-', '-'] => .ok { a with operands := a.operands ++ rest }
    | '-' :: '-' :: cs => do
      match ← a.long specs (String.ofList cs), rest with
      | (a, none), rest => read specs a rest
      | (_, some o), [] => .error (.noValue o.name)
      | (a, some o), v :: rest => read specs (← a.give o v) rest
    | '-' :: c :: cs => do
      match ← a.letters specs (c :: cs), rest with
      | (a, none), rest => read specs a rest
      | (_, some (_, l)), [] => .error (.noValueLetter (l.toList.headD c) l)
      | (a, some (o, _)), v :: rest => read specs (← a.give o v) rest
    | _ => read specs (a.operand s) rest

/-- The options and operands of arguments. -/
def of (specs : List OptionSpec) (args : List String) : Except OptionFault Arguments :=
  read specs ⟨[], []⟩ args

end Arguments

/-! ## Words -/

/-- An argument is an option whose value is the next argument, or is taken for one. -/
def takesNext (specs : List OptionSpec) (s : String) : Bool :=
  let isBare (o : OptionSpec) : Bool := o.bare?.isSome
  match s.toList with
  | '-' :: '-' :: name =>
    !name.contains '=' && !(specs.find? (·.name == String.ofList name)).any isBare
  | ['-', c] => c != '=' && c.toNat < 128 && !(specs.find? (·.letter == some c)).any isBare
  | _ => false

/-- The arguments that are neither options nor their values. -/
def words (specs : List OptionSpec) : List String → List String
  | [] => []
  | s :: rest =>
    if s == "--" then []
    else if takesNext specs s then
      match rest with
      | _ :: v :: rest => words specs (v :: rest)
      | _ => []
    else if s.isEmpty || s.startsWith "-" then words specs rest
    else s :: words specs rest

/-- The arguments without the first word that is `x`. -/
def withoutWord (specs : List OptionSpec) (x : String) : List String → List String
  | [] => []
  | s :: rest =>
    if s == "--" then s :: rest
    else if takesNext specs s then
      match rest with
      | v :: rest => s :: v :: withoutWord specs x rest
      | [] => [s]
    else if s == x then rest
    else s :: withoutWord specs x rest

end Weaver.Command
