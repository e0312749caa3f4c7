/-!
Patterns for names.

In a pattern `*` stands for any characters, `?` for one, and brackets for one out of a class. Braces
list alternatives, and a backslash takes the next character literally.

Whether a pattern is well formed is checked as a whole. A part of it, such as a segment between
slashes, need not be; then there is an answer only if the part that is wrong is not reached.
-/
set_option autoImplicit false

namespace Weaver.Glob

/-! ## Form -/

/-- The rest after a closing bracket. -/
def afterBracket? : List Char → Option (List Char)
  | [] => none
  | ']' :: r => some r
  | '\\' :: _ :: r => afterBracket? r
  | _ :: r => afterBracket? r

/-- A class is negated by its first character. Gives what follows that, too. -/
def negation : List Char → Bool × List Char
  | '^' :: r | '!' :: r => (true, r)
  | cs => (false, cs)

/-- The rest after a class of characters, its opening bracket being read; nothing if it has no end
or is empty. -/
def classRest? (cs : List Char) : Option (List Char) :=
  match (negation cs).2 with
  | [] | ']' :: _ => none
  | cs => afterBracket? cs

/-- The pattern is well formed, with `depth` braces open. -/
def isValidFrom : Nat → Nat → List Char → Bool
  | _, depth, [] => depth == 0
  | 0, _, _ => false
  | fuel + 1, depth, c :: cs =>
    if c == '\\' then !cs.isEmpty && isValidFrom fuel depth (cs.drop 1)
    else if c == '[' then
      match classRest? cs with
      | none => false
      | some r => isValidFrom fuel depth r
    else if c == '\x7b' then isValidFrom fuel (depth + 1) cs
    else if c == '\x7d' then depth != 0 && isValidFrom fuel (depth - 1) cs
    else isValidFrom fuel depth cs

/-- The pattern is well formed: classes and braces are closed, and something follows a backslash. -/
def isValid (pattern : String) : Bool :=
  isValidFrom pattern.length 0 pattern.toList

/-- A character with which something else than a literal text begins. -/
def isSpecial (c : Char) : Bool := c == '*' || c == '?' || c == '[' || c == '\x7b'

/-- The text has a character that makes it a pattern. -/
def isPattern (text : String) : Bool := text.toList.any isSpecial

/-- The text has a special character that is not taken literally. -/
def hasSpecial : List Char → Bool
  | '\\' :: _ :: cs => hasSpecial cs
  | c :: cs => isSpecial c || hasSpecial cs
  | [] => false

/-- The text without the backslashes before special characters and closing brackets and braces. -/
def unescape : List Char → List Char
  | '\\' :: c :: cs =>
    if isSpecial c || c == ']' || c == '\x7d' then c :: unescape cs else '\\' :: unescape (c :: cs)
  | c :: cs => c :: unescape cs
  | [] => []

/-! ## Alternatives -/

/-- What stands before the brace that closes those that are open, and what stands after it. The
characters of classes count as well. -/
def closing? : Nat → List Char → Option (List Char × List Char)
  | _, [] => none
  | depth, '\\' :: c :: cs => (closing? depth cs).map fun (a, b) => ('\\' :: c :: a, b)
  | depth, c :: cs =>
    if c == '\x7d' && depth == 0 then some ([], cs)
    else
      let depth := if c == '\x7b' then depth + 1 else if c == '\x7d' then depth - 1 else depth
      (closing? depth cs).map fun (a, b) => (c :: a, b)

/-- What stands between braces, cut at the commas outside of further braces. -/
def alternatives : Int → List Char → List (List Char)
  | _, [] => [[]]
  | depth, '\\' :: c :: cs =>
    match alternatives depth cs with
    | a :: as => ('\\' :: c :: a) :: as
    | [] => []
  | depth, c :: cs =>
    if c == ',' && depth == 0 then [] :: alternatives 0 cs
    else
      let depth := if c == '\x7b' then depth + 1 else if c == '\x7d' then depth - 1 else depth
      match alternatives depth cs with
      | a :: as => (c :: a) :: as
      | [] => []

/-! ## Classes -/

/-- Looks for a character in a class from some place on, up to the first part that has it. `last` is
the character before, if a range can start with it. Gives the rest of the class, too. -/
def inClass (x : Char) : Nat → Option Char → List Char → Bool × List Char
  | 0, _, cs => (false, cs)
  | _, _, [] => (false, [])
  | fuel + 1, last, c :: cs =>
    if c == ']' then (false, c :: cs)
    else
      let unescaped : List Char → Char × List Char
        | '\\' :: d :: r => (d, r)
        | '\\' :: r => ('\ufffd', r)
        | d :: r => (d, r)
        | [] => ('\ufffd', [])
      match last, c == '-' && !cs.isEmpty && cs.head? != some ']' with
      | some lo, true =>
        let (hi, r) := unescaped cs
        if lo ≤ x && x ≤ hi then (true, r) else inClass x fuel none r
      | _, _ =>
        let (d, r) := unescaped (c :: cs)
        if d == x then (true, r) else inClass x fuel (some d) r

/-- What follows a class whose opening bracket is read, if a character is one of the class. Nothing
at all if the class has no end or is empty. -/
def afterClass? (x : Char) (cs : List Char) : Option (Option (List Char)) :=
  let (negated, cs) := negation cs
  match cs with
  | [] | ']' :: _ => none
  | cs =>
    let (found, rest) := inClass x cs.length none cs
    if found != negated then (afterBracket? rest).map some
    else if rest.isEmpty then none
    else some none

/-! ## Names -/

/-- All ends of a list, the list itself first. -/
def ends {α : Type} : List α → List (List α)
  | [] => [[]]
  | x :: xs => (x :: xs) :: ends xs

/-- A pattern matches the empty text. Stars stand alone or are alternatives. -/
def matchesNothing? : Nat → List Char → Option Bool
  | 0, _ => some false
  | fuel + 1, p =>
    if ["", "*", "**", "/**"].contains (String.ofList p) then some true
    else match p with
      | '\x7b' :: r => do
        let (inside, after) ← closing? 0 r
        (alternatives 0 inside).anyM fun a => matchesNothing? fuel (a ++ after)
      | _ => some false

/-- A pattern matches a name, unless something wrong is reached in it. -/
def matchesFrom? : Nat → List Char → List Char → Option Bool
  | 0, _, _ => some false
  | fuel + 1, p, [] => matchesNothing? (fuel + 1) p
  | _ + 1, [], _ :: _ => some false
  | fuel + 1, c :: p, x :: xs =>
    if c == '*' then
      let p := match p with
        | '*' :: r => r
        | r => r
      (ends (x :: xs)).anyM (matchesFrom? fuel p)
    else if c == '?' then matchesFrom? fuel p xs
    else if c == '[' then
      match afterClass? x p with
      | none => none
      | some none => some false
      | some (some r) => matchesFrom? fuel r xs
    else if c == '\x7b' then do
      let (inside, after) ← closing? 0 p
      (alternatives 0 inside).anyM fun a => matchesFrom? fuel (a ++ after) (x :: xs)
    else if c == '\\' then
      match p with
      | [] => none
      | d :: p => if d == x then matchesFrom? fuel p xs else some false
    else if c == x then matchesFrom? fuel p xs
    else some false

/-- A pattern matches a name, unless something wrong is reached in it. -/
def matches? (pattern : List Char) (name : String) : Option Bool :=
  matchesFrom? (pattern.length + 1) pattern name.toList

end Weaver.Glob
