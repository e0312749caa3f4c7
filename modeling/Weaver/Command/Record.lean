import Weaver.Text.Ranges
/-!
Lists written as a line of values with commas between them.

A value in double quotes may hold commas and line breaks, and a quote in it is written twice. Only
the first line that is not empty counts.
-/
set_option autoImplicit false

namespace Weaver.Record

/-- What is wrong with a list. -/
inductive Fault where
  /-- There is no line. -/
  | empty
  /-- A quote stands in a value without quotes. -/
  | bareQuote (start line col : Nat)
  /-- A quoted value does not end where a quote ends it. -/
  | openQuote (start line col : Nat)
deriving Repr, DecidableEq

namespace Fault

/-- Where in the text a fault is. -/
def place (start line col : Nat) : String :=
  (if start == line then "" else "record on line " ++ toString start ++ "; ") ++
    "parse error on line " ++ toString line ++ ", column " ++ toString col ++ ": "

/-- The wording of a fault. -/
def message : Fault → String
  | empty => "EOF"
  | bareQuote s l c => place s l c ++ "bare \" in non-quoted-field"
  | openQuote s l c => place s l c ++ "extraneous or missing \" in quoted-field"

end Fault

/-- Where the reader is: in the first character of a value, in a value without quotes, in one with
quotes, or after a quote in such a value. -/
inductive Mode where
  | start
  | bare
  | quoted
  | closing
deriving Repr, DecidableEq

/-- Reads a line from some place on. `value` has the characters of the current value, the last
first. Columns count bytes. -/
def fields (first : Nat) : (line col : Nat) → Mode → (value : List Char) → List Char →
    Except Fault (List String)
  | line, col, mode, value, [] =>
    if mode == .quoted then .error (.openQuote first line col)
    else .ok [String.ofList value.reverse]
  | line, col, mode, value, c :: cs =>
    let next := col + c.utf8Size
    let done := String.ofList value.reverse
    match mode with
    | .quoted =>
      if c == '"' then fields first line next .closing value cs
      else if c == '\n' && !cs.isEmpty then fields first (line + 1) 1 .quoted (c :: value) cs
      else fields first line next .quoted (c :: value) cs
    | .closing =>
      if c == '"' then fields first line next .quoted (c :: value) cs
      else if c == ',' then (fields first line next .start [] cs).map (done :: ·)
      else if c == '\n' then .ok [done]
      else .error (.openQuote first line (col - 1))
    | .start | .bare =>
      if c == ',' then (fields first line next .start [] cs).map (done :: ·)
      else if c == '\n' then .ok [done]
      else if c == '"' then
        if mode == .start then fields first line next .quoted [] cs
        else .error (.bareQuote first line col)
      else fields first line next .bare (c :: value) cs

/-- The text with plain line breaks. -/
def plainBreaks : List Char → List Char
  | '\r' :: '\n' :: cs => '\n' :: plainBreaks cs
  | ['\r'] => []
  | c :: cs => c :: plainBreaks cs
  | [] => []

/-- The values of the first line. -/
def first (text : String) : Except Fault (List String) :=
  let cs := plainBreaks text.toList
  let blank := cs.takeWhile (· == '\n')
  match cs.dropWhile (· == '\n') with
  | [] => .error .empty
  | cs => fields (blank.length + 1) (blank.length + 1) 1 .start [] cs

/-- The values in a text; an empty text has none. -/
def values (text : String) : Except Fault (List String) :=
  if text.isEmpty then .ok [] else first text

/-! ## Writing -/

/-- A value has to be quoted: it has a character that means something, begins with white space or
looks like the end of all values. -/
def needsQuotes (value : String) : Bool :=
  value == "\\." || value.toList.head?.any Text.isBlank ||
    value.toList.any fun c => c == ',' || c == '"' || c == '\n' || c == '\r'

/-- A value between quotes. -/
def quoted (value : String) : String :=
  String.ofList ('"' :: value.toList.flatMap (fun c => if c == '"' then [c, c] else [c]) ++ ['"'])

/-- A line of values. -/
def line (values : List String) : String :=
  ",".intercalate (values.map fun v => if needsQuotes v then quoted v else v)

end Weaver.Record
