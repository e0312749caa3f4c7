import Weaver.Anno.Value
import Weaver.Text.Quoted
/-!
Members of annotations read as values of a wanted type.
-/
set_option autoImplicit false

namespace Weaver

open Weaver.Number (Floating Format)

/-- What a member is wanted as. -/
inductive Slot where
  | text
  | flag
  /-- A whole number of so many bits; none stands for the widest, under its plain name. -/
  | integer (bits : Option Nat)
  | floating (bits : Nat)
  | access
  | side
  | use
  | list (elem : Slot)
deriving Repr, DecidableEq, Inhabited

/-- The name of what is wanted. -/
def Slot.name : Slot → String
  | text => "string"
  | flag => "bool"
  | integer none => "int"
  | integer (some n) => "int" ++ toString n
  | floating n => "float" ++ toString n
  | access => "lombok.AccessLevel"
  | side => "lombok.Position"
  | use => "*processor.AnnotationMirror"
  | list s => "[]" ++ s.name

/-- A member that was read. -/
inductive Reading where
  | text (s : String)
  | flag (b : Bool)
  | integer (n : Int)
  | floating (f : Format) (x : Floating)
  | access (l : AccessLevel)
  | side (s : Side)
  | use (u : Option AnnoUse)
  | list (rs : List Reading)
deriving Inhabited

/-- Why a value is not what is wanted. -/
inductive ReadingFault where
  | wrongKind (kind : String) (wanted : Slot)
  | overflow (n : Int) (wanted : Slot)
  | noAccess (text : String)
  | noSide (text : String)
deriving Repr, DecidableEq

/-- The wording of a fault. -/
def ReadingFault.message : ReadingFault → String
  | wrongKind k s => k ++ " value cannot be assigned to " ++ s.name
  | overflow n s => "value " ++ toString n ++ " overflows " ++ s.name
  | noAccess t => Text.quote t ++ " is not an access level"
  | noSide t => Text.quote t ++ " is not a position"

/-- What is read where nothing is given. -/
def Slot.zero : Slot → Reading
  | text => .text ""
  | flag => .flag false
  | integer _ => .integer 0
  | floating 32 => .floating .single .zero
  | floating _ => .floating .double .zero
  | access => .access .everyone
  | side => .side .before
  | use => .use none
  | list _ => .list []

namespace Datum

mutual

/-- The text of a constant or a text, or of the single element of an array of them; else empty. -/
def scalar : Datum → String
  | array _ es => scalarOf es
  | d => d.rawText?.getD ""

/-- The text of the single element of a list; else empty. -/
def scalarOf : List Datum → String
  | [d] => scalar d
  | _ => ""

end

/-- The numbers of so many bits hold a number. -/
def fitsIn (bits : Option Nat) (n : Int) : Bool :=
  let limit : Int := Nat.pow 2 (bits.getD 64 - 1)
  decide (-limit ≤ n) && decide (n < limit)

/-- The number of so many bits that a number comes down to when higher bits are dropped. -/
def wrapTo (bits : Option Nat) (n : Int) : Int :=
  n.bmod (Nat.pow 2 (bits.getD 64))

/-- The format of floating point numbers of so many bits. -/
def formatOf (bits : Nat) : Format :=
  if bits == 32 then .single else .double

/-- A value read as what is wanted. -/
def read (d : Datum) : Slot → Except ReadingFault Reading
  | .use =>
    match d.use? with
    | some u => return .use (some u)
    | none => throw (.wrongKind d.kind .use)
  | .access =>
    match AccessLevel.ofName? d.scalar with
    | some l => return .access l
    | none => throw (.noAccess d.scalar)
  | .side =>
    match Side.ofName? d.scalar with
    | some s => return .side s
    | none => throw (.noSide d.scalar)
  | .text =>
    match d with
    | text _ s | className _ s | constant _ s => return .text s
    | _ => throw (.wrongKind d.kind .text)
  | .flag =>
    match d with
    | flag _ b => return .flag b
    | _ => throw (.wrongKind d.kind .flag)
  | .integer bits =>
    match d with
    | integer _ n =>
      if fitsIn bits n then return .integer n else throw (.overflow n (.integer bits))
    | char _ c => return .integer (wrapTo bits c)
    | _ => throw (.wrongKind d.kind (.integer bits))
  | .floating bits =>
    match d with
    | floating _ x => return .floating (formatOf bits) (x.convert (formatOf bits))
    | integer _ n =>
      return .floating (formatOf bits) ((Floating.ofInt .double n).convert (formatOf bits))
    | _ => throw (.wrongKind d.kind (.floating bits))
  | .list s => do return .list (← d.elements.mapM fun e => read e s)

end Datum

namespace AnnoUse

/-- A member read as what is wanted. The message of a fault names the member. -/
def read (u : AnnoUse) (member : String) (wanted : Slot) : Except String Reading :=
  match u.value? member with
  | none => return wanted.zero
  | some d =>
    match d.read wanted with
    | .ok r => return r
    | .error f => throw ("@" ++ u.type.simpleName ++ " member '" ++ member ++ "': " ++ f.message)

/-- A member read as a text. -/
def readText (u : AnnoUse) (member : String) : Except String String := do
  match ← u.read member .text with
  | .text s => return s
  | _ => return ""

/-- A member read as a truth value. -/
def readFlag (u : AnnoUse) (member : String) : Except String Bool := do
  match ← u.read member .flag with
  | .flag b => return b
  | _ => return false

/-- A member read as a list of texts. -/
def readTexts (u : AnnoUse) (member : String) : Except String (List String) := do
  match ← u.read member (.list .text) with
  | .list rs => return rs.filterMap fun r => match r with
    | .text s => some s
    | _ => none
  | _ => return []

/-- A member read as an access level. -/
def readAccess (u : AnnoUse) (member : String) : Except String AccessLevel := do
  match ← u.read member .access with
  | .access l => return l
  | _ => return .everyone

/-- A member read as a side. -/
def readSide (u : AnnoUse) (member : String) : Except String Side := do
  match ← u.read member .side with
  | .side s => return s
  | _ => return .before

end AnnoUse

end Weaver
