/-!
Character classes given by ranges of code points, and the class of white space.

A class of the character standard is a list of closed ranges in ascending order. Membership is a
plain search, so that a fact about a class is a fact about its ranges.
-/
set_option autoImplicit false

namespace Weaver.Text

/-- The closed range of code points `lo … hi`. -/
abbrev Range := Nat × Nat

/-- The code point lies in one of the ranges. -/
def inRanges (table : List Range) (code : Nat) : Bool :=
  table.any fun r => r.1 ≤ code && code ≤ r.2

theorem inRanges_iff (table : List Range) (code : Nat) :
    inRanges table code = true ↔ ∃ r ∈ table, r.1 ≤ code ∧ code ≤ r.2 := by
  simp [inRanges]

/-! ## White space -/

/-- The code points with the property White_Space. -/
def blankRanges : List Range :=
  [(0x9, 0xd), (0x20, 0x20), (0x85, 0x85), (0xa0, 0xa0), (0x1680, 0x1680), (0x2000, 0x200a),
   (0x2028, 0x2029), (0x202f, 0x202f), (0x205f, 0x205f), (0x3000, 0x3000)]

/-- A white space character. -/
def isBlank (c : Char) : Bool :=
  inRanges blankRanges c.toNat

/-- The characters without the white space at both ends. -/
def trimChars (cs : List Char) : List Char :=
  ((cs.dropWhile isBlank).reverse.dropWhile isBlank).reverse

/-- The text without the white space at both ends. -/
def trim (s : String) : String :=
  String.ofList (trimChars s.toList)

end Weaver.Text
