/-!
Modifiers of declarations as sets of bits.

The bits are those of the class file format. The set of a declaration also says whether it is an
interface, an annotation type, an enumeration or one of its constants, or a variable arity
parameter; these have no keyword.
-/
set_option autoImplicit false

namespace Weaver.Syntax

/-- A set of modifiers. -/
structure Flags where
  bits : Nat
deriving Repr, DecidableEq, Inhabited

namespace Flags

/-- The empty set. -/
def empty : Flags := ⟨0⟩

def publicFlag : Flags := ⟨0x1⟩
def privateFlag : Flags := ⟨0x2⟩
def protectedFlag : Flags := ⟨0x4⟩
def staticFlag : Flags := ⟨0x8⟩
def finalFlag : Flags := ⟨0x10⟩
def synchronizedFlag : Flags := ⟨0x20⟩
def volatileFlag : Flags := ⟨0x40⟩
def transientFlag : Flags := ⟨0x80⟩
def nativeFlag : Flags := ⟨0x100⟩
def interfaceFlag : Flags := ⟨0x200⟩
def abstractFlag : Flags := ⟨0x400⟩
def strictfpFlag : Flags := ⟨0x800⟩
def annotationFlag : Flags := ⟨0x2000⟩
def enumFlag : Flags := ⟨0x4000⟩

/-- Marks the last parameter of a variable arity method; its type is an array type. -/
def varargsFlag : Flags := ⟨0x400000000⟩

/-- The two sets have a modifier in common. -/
def meets (f g : Flags) : Bool :=
  f.bits &&& g.bits != 0

/-- The union of two sets. -/
def union (f g : Flags) : Flags :=
  ⟨f.bits ||| g.bits⟩

/-- The modifiers of the first set that are not in the second. -/
def without (f g : Flags) : Flags :=
  ⟨f.bits ^^^ (f.bits &&& g.bits)⟩

/-- The modifiers that set the visibility of a declaration. -/
def access : Flags :=
  (publicFlag.union protectedFlag).union privateFlag

/-- The set with the visibility of another one. -/
def withAccess (f g : Flags) : Flags :=
  (f.without access).union ⟨g.bits &&& access.bits⟩

/-- The modifiers with a keyword, in the order in which they are written. -/
def keywords : List (Flags × String) :=
  [(publicFlag, "public"), (protectedFlag, "protected"), (privateFlag, "private"),
   (abstractFlag, "abstract"), (staticFlag, "static"), (finalFlag, "final"),
   (transientFlag, "transient"), (volatileFlag, "volatile"),
   (synchronizedFlag, "synchronized"), (nativeFlag, "native"), (strictfpFlag, "strictfp")]

/-- The modifier with a keyword. -/
def ofKeyword? (word : String) : Option Flags :=
  (keywords.find? (·.2 == word)).map (·.1)

/-- The modifiers that generated code can have. -/
def inCode : Flags :=
  [publicFlag, protectedFlag, privateFlag, abstractFlag, staticFlag, finalFlag, transientFlag,
   volatileFlag, synchronizedFlag].foldl union empty

/-- The modifiers of a set that generated code can have. -/
def forCode (f : Flags) : Flags :=
  ⟨f.bits &&& inCode.bits⟩

/-- The set of the keywords in a text; other words do not count. -/
def ofText (words : String) : Flags :=
  ((words.splitOn " ").filterMap ofKeyword?).foldl union empty

/-- The keywords of a set, in canonical order. -/
def words (f : Flags) : List String :=
  (keywords.filter fun k => f.meets k.1).map (·.2)

/-- The keywords of a set, separated by blanks. -/
def text (f : Flags) : String :=
  " ".intercalate f.words

end Flags

end Weaver.Syntax
