import Weaver.Yaml.Node
import Weaver.Yaml.Show
/-!
What a YAML document says.

The document as a whole is a mapping with texts for keys, and in a mapping all keys differ. The
value of the key `<<` is a mapping, or several ones, whose entries are put into the mapping around
it, unless that has entries with the same keys.

Values that do not fit are listed, each with its line. Other faults end the reading at once.
-/
set_option autoImplicit false

namespace Weaver.Yaml

/-- Why a document has no value that fits. -/
inductive DocumentFault where
  | malformed (f : Fault)
  /-- Values do not fit; one line for each. -/
  | unfit (problems : List String)
  /-- A collection stands for a key where only other keys can be compared. -/
  | unhashable
deriving Repr, DecidableEq

/-- The wording of a fault. -/
def DocumentFault.message : DocumentFault → String
  | malformed f => f.message
  | unfit problems => "yaml: unmarshal errors:\n  " ++ "\n  ".intercalate problems
  | unhashable => "runtime error"

/-! ## Counting -/

/-- What is known while the values of nodes are found. -/
structure Finding where
  /-- What does not fit, the last one first. -/
  problems : List String
  /-- How many nodes were looked at, and how many of them on behalf of a name. -/
  nodes : Nat
  aliased : Nat
  /-- How many names are being followed. -/
  depth : Nat
deriving Repr, DecidableEq, Inhabited

/-- Finds a value, or fails. -/
abbrev Find := StateT Finding (Except DocumentFault)

namespace Find

/-- Too many nodes are looked at on behalf of names. Of a few nodes nearly all can be, of many only
one in ten, and between that the part falls evenly. -/
def isExcessive (nodes aliased : Nat) : Bool :=
  let low := 400000
  let high := 4000000
  let range := high - low
  let share :=
    if nodes ≤ low then 99 * range
    else if high ≤ nodes then 10 * range
    else 99 * range - 89 * (nodes - low)
  100 < aliased && 1000 < nodes && nodes * share < aliased * 100 * range

/-- Fails. -/
def fail {α : Type} (problem : String) : Find α := throw (.malformed (.general problem))

/-- Looks at a node. -/
def count : Find Unit := do
  modify fun f =>
    { f with nodes := f.nodes + 1, aliased := if f.depth == 0 then f.aliased else f.aliased + 1 }
  let f ← get
  if isExcessive f.nodes f.aliased then fail "document contains excessive aliasing"

/-- Follows a name. -/
def follow {α : Type} (x : Find α) : Find α := do
  modify fun f => { f with depth := f.depth + 1 }
  let v ← x
  modify fun f => { f with depth := f.depth - 1 }
  return v

/-- Something does not fit at a line. -/
def complain (line : Nat) (text : String) : Find Unit :=
  modify fun f => { f with problems := ("line " ++ toString line ++ ": " ++ text) :: f.problems }

/-- A node does not fit. Of a long text only the beginning is said. -/
def misfit (line : Nat) (tag text type : String) : Find Unit :=
  let cut := if 10 < text.utf8ByteSize then
      String.ofList (octetText ((text.toUTF8.toList.take 7).map (·.toNat))) ++ "..."
    else text
  let said := if tag == "!!seq" || tag == "!!map" then text else " `" ++ cut ++ "`"
  complain line ("cannot unmarshal " ++ tag ++ said ++ " into " ++ type)

end Find

/-! ## Keys -/

namespace Node

/-- What keys are compared by: what sort of node they are, and their texts. -/
def identity : Node → Nat × String
  | scalar _ _ text => (0, text)
  | sequence .. => (1, "")
  | mapping .. => (2, "")
  | named _ name _ => (3, name)
  | loop _ name _ => (3, name)

/-- The keys of a mapping. -/
def keysOf : List Node → List Node
  | k :: _ :: rest => k :: keysOf rest
  | _ => []

/-- The pairs of equal keys, earlier ones first. -/
def repeated : List Node → List (Node × Node)
  | [] => []
  | k :: ks => ((ks.filter fun l => l.identity == k.identity).map fun l => (k, l)) ++ repeated ks

/-- The keys of a mapping differ, or there are complaints. -/
def distinct (items : List Node) : Find Bool := do
  let pairs := repeated (keysOf items)
  for (k, l) in pairs do
    Find.complain l.line ("mapping key " ++ Text.quote l.identity.2 ++
      " already defined at line " ++ toString k.line)
  return pairs.isEmpty

/-- The keys of a mapping are all texts. -/
def isTextual (items : List Node) : Bool :=
  (keysOf items).all fun k => k.tag == "!!str" || k.tag == "!!merge"

/-- The value of a scalar. -/
def scalarValue (tag text : String) : Find Value :=
  match Value.ofScalar tag text with
  | .ok v => return v
  | .error f => throw (.malformed f)

/-- The text that a node is as a key, if it is one. -/
def keyText : Node → Find (Option String)
  | scalar _ tag text => do
    Find.count
    match ← scalarValue tag text with
    | .null => return none
    | .text s => return some s
    | _ => return some text
  | sequence line tag _ => do
    Find.count
    Find.misfit line tag "" "string"
    return none
  | mapping line tag items => do
    Find.count
    if ← distinct items then Find.misfit line tag "" "string"
    return none
  | named _ _ n => do
    Find.count
    Find.follow n.keyText
  | loop _ _ f => do
    Find.count
    Find.misfit f.line f.tag "" "string"
    return none

end Node

/-! ## Values -/

/-- Entries of a mapping, each key once. -/
abbrev Entries := List (Value × Value)

namespace Entries

/-- The entries with another value for a key. -/
def put (es : Entries) (k v : Value) : Entries :=
  if es.any (·.1 == k) then es.map fun e => if e.1 == k then (k, v) else e else es ++ [(k, v)]

/-- The mapping that has the entries. -/
def value (es : Entries) (general : Bool) : Value :=
  .map general (es.map (·.1)) (es.map (·.2))

end Entries

/-- A value that is no key. -/
def Value.isCollection : Value → Bool
  | list _ | map .. => true
  | _ => false

/-- Adds entries to some. If keys are given, entries with those keys are left out, and the keys of
the others are added to them. -/
abbrev Addition := Option (List Value) → Entries → Find (Option (List Value) × Entries)

/-- Puts entries into a mapping that has some keys, and adds the new keys to them. -/
abbrev Merging := List Value → Entries → Find (List Value × Entries)

/-- What is said if something cannot be put into a mapping. -/
def unmergeable : String := "map merge requires map or sequence of maps as the value"

namespace Node

/-- Puts the entries of a mapping into another one, first its own and then those put into it. -/
def insertion (items : List Node) (own : Addition) (others : Option Merging) : Merging :=
  fun seen es => do
    Find.count
    if !(← distinct items) then return (seen, es)
    let (more, es) ← own (some seen) es
    match others with
    | none => return (more.getD seen, es)
    | some step => step (more.getD seen) es

mutual

/-- The value of a node, if it has one. -/
def value : Node → Find (Option Value)
  | scalar _ tag text => do
    Find.count
    return some (← scalarValue tag text)
  | sequence _ _ items => do
    Find.count
    return some (.list (← values items))
  | mapping _ _ items => do
    Find.count
    if !(← distinct items) then return none
    let general := !isTextual items
    let (_, es) ← entries general items none []
    match merging general items with
    | none => return some (es.value general)
    | some step =>
      let (_, es) ← step (← keys items) es
      return some (es.value general)
  | named _ _ n => do
    Find.count
    Find.follow n.value
  | loop _ name _ => Find.fail ("anchor '" ++ name ++ "' value contains itself")

/-- The values of nodes, as far as they have any. -/
def values : List Node → Find (List Value)
  | [] => return []
  | n :: ns => do
    let v ← n.value
    return v.toList ++ (← values ns)

/-- The values of the keys of a mapping, which can be compared. -/
def keys : List Node → Find (List Value)
  | k :: _ :: rest => do
    match ← k.value with
    | none => keys rest
    | some v => if v.isCollection then throw .unhashable else return v :: (← keys rest)
  | _ => return []

/-- Adds the entries of a mapping to others. -/
def entries (general : Bool) : List Node → Addition
  | k :: v :: rest, seen, es => do
    if k.isMerge then entries general rest seen es
    else
      let key ← if general then k.value else Option.map Value.text <$> k.keyText
      match key with
      | none => entries general rest seen es
      | some key =>
        if seen.isSome && key.isCollection then throw .unhashable
        else if (seen.getD []).contains key then entries general rest seen es
        else if key.isCollection then Find.fail ("invalid map key: " ++ key.expression)
        else
          match ← v.value with
          | none => entries general rest (seen.map (key :: ·)) es
          | some x => entries general rest (seen.map (key :: ·)) (es.put key x)
  | _, seen, es => return (seen, es)

/-- How entries are put into a mapping by the key for that, if it is there. -/
def merging (general : Bool) : List Node → Option Merging
  | k :: v :: rest =>
    if k.isMerge then some (v.merge general true) else merging general rest
  | _ => none

/-- Puts the entries of a node into a mapping, or, if several ones can stand there, those of the
nodes of a sequence. -/
def merge (general several : Bool) : Node → Merging
  | sequence _ _ items, seen, es =>
    if several then mergeAll general items seen es else Find.fail unmergeable
  | mapping _ _ items, seen, es =>
    insertion items (entries general items) (merging general items) seen es
  | named _ _ (mapping _ _ items), seen, es => do
    Find.count
    Find.follow (insertion items (entries general items) (merging general items) seen es)
  | loop _ name f, _, _ =>
    if f.isMapping then Find.fail ("anchor '" ++ name ++ "' value contains itself")
    else Find.fail unmergeable
  | _, _, _ => Find.fail unmergeable

/-- Puts the entries of several nodes into a mapping. -/
def mergeAll (general : Bool) : List Node → Merging
  | [], seen, es => return (seen, es)
  | n :: ns, seen, es => do
    let (seen, es) ← n.merge general false seen es
    mergeAll general ns seen es

end

/-- The entries of the mapping that a document is. -/
def topEntries (n : Node) : Find Entries := do
  let type := "map[string]interface \x7b\x7d"
  Find.count
  match n with
  | scalar line tag text =>
    Find.count
    match ← scalarValue tag text with
    | .null => return []
    | _ =>
      Find.misfit line tag text type
      return []
  | sequence line tag _ =>
    Find.count
    Find.misfit line tag "" type
    return []
  | mapping _ _ items =>
    Find.count
    if !(← distinct items) then return []
    let (_, es) ← entries false items none []
    match merging false items with
    | none => return es
    | some step => return (← step (← keys items) es).2
  | named .. | loop .. => return []

end Node

/-- The entries of the mapping that a document is. -/
def entries (text : String) : Except DocumentFault (List (String × Value)) :=
  match document text with
  | .error f => .error (.malformed f)
  | .ok none => .ok []
  | .ok (some n) =>
    match n.topEntries.run ⟨[], 0, 0, 0⟩ with
    | .error f => .error f
    | .ok (es, found) =>
      if found.problems.isEmpty then
        .ok (es.filterMap fun (k, v) => match k with
          | .text s => some (s, v)
          | _ => none)
      else .error (.unfit found.problems.reverse)

end Weaver.Yaml
