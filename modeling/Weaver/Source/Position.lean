/-!
Places in a source text.

Lines and columns count from one, and a column counts characters. The position `0:0` stands for
"no place in a source text".
-/
set_option autoImplicit false

namespace Weaver.Source

/-- A line and a column. -/
structure Position where
  line : Nat
  col : Nat
deriving Repr, DecidableEq, Inhabited

namespace Position

/-- No place in a source text. -/
def none : Position := ⟨0, 0⟩

/-- The position as `line:column`. -/
def text (p : Position) : String :=
  toString p.line ++ ":" ++ toString p.col

end Position

end Weaver.Source
