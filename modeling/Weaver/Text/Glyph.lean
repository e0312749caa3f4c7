/-!
Source text as it comes from a file: a sequence of glyphs.

A file is a sequence of bytes. Read from the left, each step either takes the bytes of one encoded
character or, where no character is encoded, a single stray byte. Text that is already decoded has
no stray bytes.
-/
set_option autoImplicit false

namespace Weaver.Text

/-- One step of reading encoded text: a character, or a byte that encodes none. -/
inductive Glyph where
  | char (c : Char)
  | stray (b : UInt8)
deriving Repr, DecidableEq, Inhabited

/-- The character that stands for whatever cannot be decoded. -/
def replacement : Char := '\uFFFD'

namespace Glyph

/-- The number of bytes the glyph takes in its file. -/
def width : Glyph → Nat
  | char c => c.utf8Size
  | stray _ => 1

/-- The character shown for the glyph. -/
def shown : Glyph → Char
  | char c => c
  | stray _ => replacement

/-- Decoded text has one glyph for each character. -/
def ofString (s : String) : List Glyph :=
  s.toList.map char

/-- The glyphs as text, with the replacement character for each stray byte. -/
def toText (gs : List Glyph) : String :=
  String.ofList (gs.map shown)

/-- A byte that continues an encoded character. -/
def continues (b : UInt8) : Bool :=
  0x80 ≤ b && b ≤ 0xBF

/-- The six low bits of a continuing byte. -/
def low (b : UInt8) : Nat :=
  b.toNat % 64

/-- The second byte that may follow a first byte of a three byte character: overlong forms and
surrogates are excluded. -/
def secondOfThree (b0 b1 : UInt8) : Bool :=
  if b0 == 0xE0 then 0xA0 ≤ b1 && b1 ≤ 0xBF
  else if b0 == 0xED then 0x80 ≤ b1 && b1 ≤ 0x9F
  else continues b1

/-- The second byte that may follow a first byte of a four byte character: overlong forms and
points above the last one are excluded. -/
def secondOfFour (b0 b1 : UInt8) : Bool :=
  if b0 == 0xF0 then 0x90 ≤ b1 && b1 ≤ 0xBF
  else if b0 == 0xF4 then 0x80 ≤ b1 && b1 ≤ 0x8F
  else continues b1

/-- The first glyph of nonempty input, as the code point it encodes and the number of bytes after
the first one that it takes. -/
def first? (b0 : UInt8) (rest : List UInt8) : Option (Nat × Nat) :=
  if b0 < 0x80 then some (b0.toNat, 0)
  else match rest with
    | b1 :: more =>
      if 0xC2 ≤ b0 && b0 ≤ 0xDF then
        if continues b1 then some (b0.toNat % 32 * 64 + low b1, 1) else none
      else match more with
        | b2 :: more =>
          if 0xE0 ≤ b0 && b0 ≤ 0xEF then
            if secondOfThree b0 b1 && continues b2 then
              some (b0.toNat % 16 * 4096 + low b1 * 64 + low b2, 2)
            else none
          else match more with
            | b3 :: _ =>
              if 0xF0 ≤ b0 && b0 ≤ 0xF4 && secondOfFour b0 b1 && continues b2 && continues b3 then
                some (b0.toNat % 8 * 262144 + low b1 * 4096 + low b2 * 64 + low b3, 3)
              else none
            | [] => none
        | [] => none
    | [] => none

/-- Reads bytes from the left. The first argument counts the bytes of the last character that are
still to be passed over. -/
def decodeFrom : Nat → List UInt8 → List Glyph
  | _, [] => []
  | skip + 1, _ :: rest => decodeFrom skip rest
  | 0, b :: rest =>
    match first? b rest with
    | some (code, more) => char (Char.ofNat code) :: decodeFrom more rest
    | none => stray b :: decodeFrom 0 rest

/-- The glyphs of a file. -/
def decode (bytes : List UInt8) : List Glyph :=
  decodeFrom 0 bytes

end Glyph

end Weaver.Text
