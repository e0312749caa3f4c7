/-!
Differences of texts in unified form.

First the blocks of lines are found that two texts have in common: the longest one, the leftmost if
there are several, and then the common blocks before it and after it. So the blocks stand in the same
order in both texts. In a long text a line that occurs very often says little: it does not make a
block, though it can stand at the ends of one.

A difference is a list of segments: lines that both texts have, and lines of the old text with those
of the new text in their place. It is shown in hunks. A hunk has up to three common lines around
what differs; where there are more than twice as many in between, the next hunk begins.
-/
set_option autoImplicit false

namespace Weaver.Diff

/-! ## Common blocks -/

/-- A common block: how many lines stand before it in either text, and how many it has. -/
structure Block where
  left : Nat
  right : Nat
  size : Nat
deriving Repr, DecidableEq, Inhabited

/-- The lines that occur too often in a text to make a block. A text of less than two hundred lines
has none. -/
def popular (b : List String) : List String :=
  if b.length < 200 then []
  else b.eraseDups.filter fun y => b.length / 100 + 1 < b.count y

/-- How many lines two lists have in common at their beginning. -/
def commonLead : List String → List String → Nat
  | x :: xs, y :: ys => if x == y then commonLead xs ys + 1 else 0
  | _, _ => 0

/-- For each line of the right text, how many lines up to it are the lines up to `x` in the left
text. `above` says so for the line before `x`. -/
def runs (skip : List String) (x : String) (b : List String) (above : List Nat) : List Nat :=
  List.zipWith (fun y k => if x == y && !skip.contains y then k + 1 else 0) b (0 :: above)

namespace Block

/-- The longest of a block and of the runs that end at line `i` of the left text; the first of
several. -/
def longer (best : Block) (i : Nat) (row : List Nat) : Block :=
  (row.zipIdx).foldl
    (fun best (k, j) => if best.size < k then ⟨i + 1 - k, j + 1 - k, k⟩ else best) best

/-- The longest block without lines to skip, given what was found before line `i` of the left
text. -/
def search (skip b : List String) : Block → Nat → List Nat → List String → Block
  | best, _, _, [] => best
  | best, i, above, x :: xs =>
    let row := runs skip x b above
    search skip b (best.longer i row) (i + 1) row xs

/-- The block with all common lines before and after it. -/
def extend (c : Block) (a b : List String) : Block :=
  let before := commonLead (a.take c.left).reverse (b.take c.right).reverse
  let after := commonLead (a.drop (c.left + c.size)) (b.drop (c.right + c.size))
  ⟨c.left - before, c.right - before, before + c.size + after⟩

/-- The longest block of two texts. -/
def longest (skip a b : List String) : Block :=
  (search skip b ⟨0, 0, 0⟩ 0 (b.map fun _ => 0) a).extend a b

/-- The block when lines are put before both texts. -/
def shift (c : Block) (i j : Nat) : Block := ⟨c.left + i, c.right + j, c.size⟩

end Block

/-- The common blocks of two texts that have `i` and `j` lines before them. -/
def blocks (skip : List String) (i j : Nat) (a b : List String) : List Block :=
  let c := Block.longest skip a b
  if _h : c.left < a.length ∧ 0 < c.size then
    blocks skip i j (a.take c.left) (b.take c.right) ++
      c.shift i j ::
        blocks skip (i + c.left + c.size) (j + c.right + c.size) (a.drop (c.left + c.size))
          (b.drop (c.right + c.size))
  else []
termination_by a.length
decreasing_by
  · rw [List.length_take]; simp only [c] at _h; omega
  · rw [List.length_drop]; simp only [c] at _h; omega

/-! ## Differences -/

/-- A part of a difference. -/
inductive Segment where
  | same (lines : List String)
  | change (old new : List String)
deriving Repr, DecidableEq, Inhabited

namespace Segment

/-- The lines in the old text. -/
def old : Segment → List String
  | same ls => ls
  | change o _ => o

/-- The lines in the new text. -/
def new : Segment → List String
  | same ls => ls
  | change _ n => n

/-- The lines differ. -/
def differs : Segment → Bool
  | same _ => false
  | change .. => true

/-- A change, if there is any. -/
def changes (old new : List String) : List Segment :=
  if old.isEmpty && new.isEmpty then [] else [change old new]

/-- The lines with their marks. -/
def marked : Segment → List String
  | same ls => ls.map (" " ++ ·)
  | change o n => o.map ("-" ++ ·) ++ n.map ("+" ++ ·)

end Segment

/-- The segments of two texts of which `i` and `j` lines are done, by their common blocks. Blocks
next to each other make one segment: `run` has the common lines just before. -/
def segments (run : List String) (i j : Nat) (a b : List String) : List Block → List Segment
  | [] => same run ++ Segment.changes a b
  | c :: cs =>
    let old := a.take (c.left - i)
    let new := b.take (c.right - j)
    let block := (a.drop (c.left - i)).take c.size
    let rest (run : List String) : List Segment :=
      segments run (c.left + c.size) (c.right + c.size) (a.drop (c.left - i + c.size))
        (b.drop (c.right - j + c.size)) cs
    if old.isEmpty && new.isEmpty then rest (run ++ block)
    else same run ++ .change old new :: rest block
where
  /-- Common lines, if there are any. -/
  same (ls : List String) : List Segment := if ls.isEmpty then [] else [.same ls]

/-- The difference of two texts. -/
def difference (a b : List String) : List Segment :=
  segments [] 0 0 a b (blocks (popular b) 0 0 a b)

/-- A part of a difference that is shown, and how many lines stand before it in either text. -/
structure Hunk where
  left : Nat
  right : Nat
  segments : List Segment
deriving Repr, DecidableEq, Inhabited

namespace Hunk

/-- The number of lines in the old text. -/
def oldSize (h : Hunk) : Nat := h.segments.foldl (· + ·.old.length) 0

/-- The number of lines in the new text. -/
def newSize (h : Hunk) : Nat := h.segments.foldl (· + ·.new.length) 0

/-- The hunk with another segment. -/
def add (h : Hunk) (s : Segment) : Hunk := { h with segments := h.segments ++ [s] }

/-- The place of lines: the number of the first, and how many there are unless it is one. No lines
are placed after the line before them. -/
def range (before size : Nat) : String :=
  if size == 1 then toString (before + 1)
  else toString (if size == 0 then before else before + 1) ++ "," ++ toString size

/-- The lines of a hunk, with its head. -/
def lines (h : Hunk) : List String :=
  ("@@ -" ++ range h.left h.oldSize ++ " +" ++ range h.right h.newSize ++ " @@") ::
    h.segments.flatMap Segment.marked

end Hunk

/-- The segments after the last change cut to `n` lines. -/
def trimEnd (n : Nat) : List Segment → List Segment
  | [] => []
  | [.same ls] => [.same (ls.take n)]
  | s :: ss => s :: trimEnd n ss

/-- Hunks with `n` lines around what differs; the first one has been begun. -/
def hunksFrom (n : Nat) : Hunk → List Segment → List Hunk
  | h, [] => [h]
  | h, .same ls :: ss =>
    if 2 * n < ls.length then
      let cut := ls.length - n
      h.add (.same (ls.take n)) ::
        hunksFrom n ⟨h.left + h.oldSize + cut, h.right + h.newSize + cut, [.same (ls.drop cut)]⟩ ss
    else hunksFrom n (h.add (.same ls)) ss
  | h, s :: ss => hunksFrom n (h.add s) ss

/-- The hunks of a difference. -/
def hunks (n : Nat) (ss : List Segment) : List Hunk :=
  let all := match trimEnd n ss with
    | .same ls :: ss =>
      let cut := ls.length - n
      hunksFrom n ⟨cut, cut, [.same (ls.drop cut)]⟩ ss
    | ss => hunksFrom n ⟨0, 0, []⟩ ss
  all.filter (·.segments.any Segment.differs)

/-- The difference of two texts of a file in unified form; empty if they are equal. -/
def unified (path before after : String) : String :=
  if before == after then ""
  else
    let hs := hunks 3 (difference (before.splitOn "\n") (after.splitOn "\n"))
    let lines := ("--- a/" ++ path) :: ("+++ b/" ++ path) :: hs.flatMap Hunk.lines
    String.join (lines.map (· ++ "\n"))

end Weaver.Diff
