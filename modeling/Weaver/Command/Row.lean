/-!
Rows of paths.

A row has places. The first ones are taken by paths; in the others stands what was left there
before. A path is added in the first place that is not taken. A row without such a place is
continued in a new one, which has twice as many places.

So two lists of paths can stand in one row, one of them reaching farther than the other. What is
added to the shorter one then replaces what the longer one has in the same places, until the shorter
one is continued in a new row.
-/
set_option autoImplicit false

namespace Weaver.Glob

/-- Paths in the first places of a row. -/
structure Row where
  places : List String
  size : Nat
deriving Repr, DecidableEq, Inhabited

namespace Row

/-- A row without places. -/
def empty : Row := ⟨[], 0⟩

/-- The number of places. -/
def room (r : Row) : Nat := r.places.length

/-- The paths in a row. -/
def paths (r : Row) : List String := r.places.take r.size

/-- A row that is full of paths. -/
def ofPaths (ps : List String) : Row := ⟨ps, ps.length⟩

/-- Adds a path, in a new row if there is no place. -/
def add (r : Row) (path : String) : Row :=
  if r.size < r.room then ⟨r.places.set r.size path, r.size + 1⟩
  else ⟨r.places ++ path :: List.replicate (r.size - 1) "", r.size + 1⟩

/-- Adds paths one after the other. -/
def addAll (r : Row) (ps : List String) : Row := ps.foldl add r

/-- Sorts the paths from the one with the number `mid` on, which are in order, into those from the
one with the number `i` up to there. Of equal paths the later one is left out. -/
def sortInto (mid : Nat) : (rounds i : Nat) → Row → Row
  | 0, _, r => r
  | rounds + 1, i, r =>
    match r.places[i]?, r.paths.drop mid with
    | some a, b :: bs =>
      let before := r.places.take mid
      let behind := r.places.drop r.size
      if a < b then sortInto mid rounds (i + 1) r
      else if b < a then
        let later := bs.takeWhile (· < a) ++ a :: bs.dropWhile (· < a)
        sortInto mid rounds (i + 1) ⟨before.set i b ++ later ++ behind, r.size⟩
      else
        let shorter : Row := ⟨before ++ bs ++ bs.getLastD b :: behind, r.size - 1⟩
        if bs.isEmpty then shorter else sortInto mid rounds (i + 1) shorter
    | _, _ => r

/-- Sorts the paths from the one with the number `mid` on into those from the one with the number
`start` up to there, if there are any of both. -/
def merge (r : Row) (start mid : Nat) : Row :=
  if start == mid || mid == r.size then r else sortInto mid (mid - start) start r

end Row

/-- Directories that are worked through, while what is found in them is added to a row. -/
structure Work where
  /-- The row to which paths were added at first, with what stands in it now. -/
  first : List String
  /-- What is found. -/
  found : Row
  directories : Row
  /-- The directories stand in a row of their own, and not in the first one. -/
  apart : Bool
deriving Repr, DecidableEq, Inhabited

namespace Work

/-- The directory with a number. -/
def directory (w : Work) (i : Nat) : String :=
  (if w.apart then w.directories.places else w.first).getD i ""

/-- What is found has changed, and so have the places where it stood before. They are in the first
row as long as that has not been continued, since only another row has another number of places. -/
def update (w : Work) (places : List String) (found : Row) : Work :=
  { w with
    first := if w.found.room == w.first.length then places else w.first
    found := found }

/-- Adds paths to what is found. -/
def addAll (w : Work) (ps : List String) : Work :=
  let found := w.found.addAll ps
  w.update (found.places.take w.found.room) found

/-- Sorts the paths from the one with the number `mid` on into those before. -/
def merge (w : Work) (start mid : Nat) : Work :=
  let found := w.found.merge start mid
  w.update found.places found

end Work

end Weaver.Glob
