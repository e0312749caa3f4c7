import Weaver.Text.Case
import Weaver.Text.Letter
/-!
Dotted names and their segments, names of generated members, derived from the names they are about,
and references to names in a message.

A reference is a dollar sign followed by a name of letters, digits and underscores of ASCII that
does not begin with a digit; it is as long as it can be.
-/
set_option autoImplicit false

namespace Weaver.Text

/-- The parts of a name between its dots. -/
def segments (name : String) : List String :=
  (name.toList.splitOn '.').map String.ofList

/-- The part of a dotted name after its last dot. -/
def lastSegment (name : String) : String :=
  (segments name).getLastD name

/-- The part of a dotted name before its last dot, if it has a dot. -/
def qualifier? (name : String) : Option String :=
  match (segments name).dropLast with
  | [] => none
  | parts => some (".".intercalate parts)

/-- The first part of a dotted name, and the rest with its dot. -/
def splitFirst (name : String) : String × String :=
  match segments name with
  | [] => (name, "")
  | first :: rest => (first, String.join (rest.map ("." ++ ·)))

/-- The text without a beginning, if it has it. -/
def withoutLead (lead s : String) : String :=
  if s.startsWith lead then (s.drop lead.length).toString else s

/-- The text with its first character in upper case. -/
def capitalize (s : String) : String :=
  match s.toList with
  | [] => ""
  | c :: cs => String.ofList (upper c :: cs)

/-- The text with its first character in lower case. -/
def decapitalize (s : String) : String :=
  match s.toList with
  | [] => ""
  | c :: cs => String.ofList (lower c :: cs)

/-- A beginning followed by capitalized parts. -/
def camelCase (first : String) (parts : List String) : String :=
  first ++ String.join (parts.map capitalize)

/-- The characters in upper case, with an underscore where a capital follows a small letter or a
digit. -/
def constantChars : Bool → List Char → List Char
  | _, [] => []
  | afterSmall, c :: cs =>
    let rest := upper c :: constantChars (isLower c || isDigit c) cs
    if isUpper c && afterSmall then '_' :: rest else rest

/-- The name of a constant for a name in camel case. -/
def constantCase (s : String) : String :=
  String.ofList (constantChars false s.toList)

/-- The singular of an English plural. Other words stay as they are. -/
def singular (s : String) : String :=
  let cut (n : Nat) : String := (s.dropEnd n).toString
  if s.endsWith "ies" && 3 < s.utf8ByteSize then cut 3 ++ "y"
  else if s.endsWith "sses" || s.endsWith "xes" || s.endsWith "ches" || s.endsWith "shes" then cut 2
  else if s.endsWith "ss" then s
  else if s.endsWith "s" && 1 < s.utf8ByteSize then cut 1
  else s

end Weaver.Text

/-! ## References -/

namespace Weaver.Text.Reference

/-- A character that a name can begin with. -/
def isStart (c : Char) : Bool := c.isAlpha || c == '_'

/-- A character of a name. -/
def isPart (c : Char) : Bool := c.isAlphanum || c == '_'

/-- The text with references to the given names replaced by placeholders, and those names in their
order. Characters to be skipped belong to the reference before. -/
def extractFrom (names : List String) : Nat → List Char → List Char × List String
  | _, [] => ([], [])
  | skip + 1, _ :: cs => extractFrom names skip cs
  | 0, c :: cs =>
    let name := cs.takeWhile isPart
    let isReference := c == '$' && cs.head?.any isStart && names.contains (String.ofList name)
    if isReference then
      let (text, found) := extractFrom names name.length cs
      ('%' :: 's' :: text, String.ofList name :: found)
    else
      let (text, found) := extractFrom names 0 cs
      (c :: text, found)

/-- The text with references to the given names replaced by placeholders, and those names. -/
def extract (names : List String) (text : String) : String × List String :=
  let (text, found) := extractFrom names 0 text.toList
  (String.ofList text, found)

end Weaver.Text.Reference
