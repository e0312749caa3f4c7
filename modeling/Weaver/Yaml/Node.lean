import Weaver.Yaml.Scanner
import Weaver.Yaml.Value
/-!
The structure of YAML documents.

A node can have a name, and another place can stand for it by that name. A name that is used inside
of its own node leads back to what is still being read; such a node has no value.
-/
set_option autoImplicit false

namespace Weaver.Yaml

/-- What is known of a collection before its end is read. -/
structure Frame where
  line : Nat
  tag : String
  isMapping : Bool
deriving Repr, DecidableEq, Inhabited

/-- A node of a document with the number of its line. The tag of a scalar says what it stands for,
also if none is written. -/
inductive Node where
  | scalar (line : Nat) (tag text : String)
  | sequence (line : Nat) (tag : String) (items : List Node)
  /-- Keys and values follow one another in turn. -/
  | mapping (line : Nat) (tag : String) (items : List Node)
  /-- A name with the node it belongs to. -/
  | named (line : Nat) (name : String) (target : Node)
  /-- A name with the collection around it that it belongs to. -/
  | loop (line : Nat) (name : String) (around : Frame)
deriving Inhabited

namespace Node

/-- The line of a node. -/
def line : Node → Nat
  | scalar l .. => l
  | sequence l .. => l
  | mapping l .. => l
  | named l .. => l
  | loop l .. => l

/-- The tag of a node, or of the one that a name belongs to. -/
def tag : Node → String
  | scalar _ t _ => t
  | sequence _ t _ => t
  | mapping _ t _ => t
  | named _ _ n => n.tag
  | loop _ _ f => f.tag

/-- The node is the key whose value is put into the mapping around it. -/
def isMerge : Node → Bool
  | scalar _ t text => t == "!!merge" && text == "<<"
  | _ => false

end Node

/-- What a name belongs to: a collection that is still being read, known by where it began, or a
node. -/
inductive Anchor where
  | opened (start : Nat) (frame : Frame)
  | closed (node : Node)
deriving Inhabited

/-- What the reader of a document knows. -/
structure Reading where
  scanner : Scanner
  /-- What handles stand for. -/
  handles : List (String × String)
  /-- What names belong to, the last one first. -/
  anchors : List (String × Anchor)
deriving Inhabited

/-- Reads tokens, or fails. -/
abbrev Read := StateT Reading (Except Fault)

namespace Read

/-- The next token. -/
def peek : Read Token := do
  let r ← get
  let (t, s) ← (r.scanner.next : Except Fault _)
  set { r with scanner := s }
  return t

/-- Passes over the next token. -/
def skip : Read Unit := modify fun r => { r with scanner := r.scanner.take }

/-- The next token is one of some kinds. -/
def looking (ks : List TokenKind) : Read Bool := do
  return ks.contains (← peek).kind

/-- Fails at the next token. -/
def fail {α : Type} (start : Mark) (problem : String) : Read α := do
  throw (.structural start (← peek).mark problem)

/-- An empty scalar at a place. -/
def nothing (m : Mark) : Node := .scalar (m.line + 1) "!!null" ""

/-- An empty scalar at the next token. -/
def nothingHere : Read Node := do return nothing (← peek).mark

/-! ## Names and tags -/

/-- Gives a node a name. -/
def bind (name : Option String) (a : Anchor) : Read Unit :=
  match name with
  | some n => modify fun r => { r with anchors := (n, a) :: r.anchors }
  | none => return ()

/-- The collection that began at a place is read. -/
def close (start : Nat) (n : Node) : Read Unit :=
  modify fun r => { r with anchors := r.anchors.map fun (name, a) => match a with
    | .opened s _ => if s == start then (name, .closed n) else (name, a)
    | .closed _ => (name, a) }

/-- The node that a name at a place stands for. -/
def named (m : Mark) (name : String) : Read Node := do
  match (← get).anchors.lookup name with
  | some (.closed n) => return .named (m.line + 1) name n
  | some (.opened _ f) => return .loop (m.line + 1) name f
  | none => throw (.general ("unknown anchor '" ++ name ++ "' referenced"))

/-- What stands before a node: its name, and its tag with the place of that. -/
structure Properties where
  start : Mark
  name : Option String
  tag : Option (String × String × Mark)

/-- Reads what stands before a node. A name and a tag can stand in any order. -/
def properties : Read Properties := do
  let t ← peek
  match t.kind with
  | .anchor a =>
    skip
    let u ← peek
    match u.kind with
    | .tag h s =>
      skip
      return ⟨t.mark, some a, some (h, s, u.mark)⟩
    | _ => return ⟨t.mark, some a, none⟩
  | .tag h s =>
    skip
    match (← peek).kind with
    | .anchor a =>
      skip
      return ⟨t.mark, some a, some (h, s, t.mark)⟩
    | _ => return ⟨t.mark, none, some (h, s, t.mark)⟩
  | _ => return ⟨t.mark, none, none⟩

/-- The tag in full, empty if there is none. A handle must have been declared. -/
def fullTag (p : Properties) : Read String := do
  match p.tag with
  | none => return ""
  | some (handle, suffix, m) =>
    if handle.isEmpty then return suffix
    match (← get).handles.lookup handle with
    | some lead => return lead ++ suffix
    | none => throw (.structural p.start m "found undefined tag handle")

/-- The tag that a node gets if `written` is written and `usual` is what it has without. -/
def tagOr (written usual : String) : String :=
  if written.isEmpty || written == "!" then usual else shortTag written

/-- The tag of a scalar without a tag. -/
def usualTag (text : String) (plain : Bool) : String :=
  if !plain then "!!str"
  else if text == "<<" then "!!merge"
  else (Value.ofPlain true text).1

/-! ## Nodes -/

/-- What is said when a node was needed. -/
def noContent : String := "did not find expected node content"

/-- Reads a collection by `body`, with a name for it while it is read. -/
def collection (p : Properties) (tag : String) (isMapping : Bool) (body : Read (List Node)) :
    Read Node := do
  let line := p.start.line + 1
  bind p.name (.opened p.start.index ⟨line, tag, isMapping⟩)
  let items ← body
  let n := if isMapping then .mapping line tag items else .sequence line tag items
  if p.name.isSome then close p.start.index n
  return n

/-- A scalar. -/
def scalar (p : Properties) (tag text : String) : Read Node := do
  let n : Node := .scalar (p.start.line + 1) tag text
  bind p.name (.closed n)
  return n

mutual

/-- A node. In a block, collections can be written in blocks, too; `loose` allows a sequence that is
not indented. -/
def node : Nat → (block loose : Bool) → Read Node
  | 0, _, _ => nothingHere
  | fuel + 1, block, loose => do
    let t ← peek
    match t.kind with
    | .named name =>
      skip
      named t.mark name
    | _ =>
      let p ← properties
      let t ← peek
      let tag ← fullTag p
      match t.kind with
      | .scalar text isPlain =>
        skip
        scalar p (tagOr tag (usualTag text isPlain)) text
      | .flowSequenceStart =>
        collection p (tagOr tag "!!seq") false (do skip; flowItems fuel t.mark true)
      | .flowMappingStart =>
        collection p (tagOr tag "!!map") true (do skip; flowPairs fuel t.mark true)
      | k =>
        if loose && k == .blockEntry then
          collection p (tagOr tag "!!seq") false (looseItems fuel)
        else if block && k == .blockSequenceStart then
          collection p (tagOr tag "!!seq") false (do skip; blockItems fuel t.mark)
        else if block && k == .blockMappingStart then
          collection p (tagOr tag "!!map") true (do skip; blockPairs fuel t.mark)
        else if p.name.isSome || !tag.isEmpty then scalar p (tagOr tag "!!null") ""
        else fail p.start noContent
termination_by fuel _ _ => (fuel, 0)

/-- A node in a block after the token at a place, unless one of some tokens shows that there is
none. -/
def blockNode (fuel : Nat) (loose : Bool) (m : Mark) (ends : List TokenKind) : Read Node := do
  if ← looking ends then return nothing m else node fuel true loose
termination_by (fuel, 1)

/-- A node in brackets, unless one of some tokens shows that there is none. -/
def flowNode (fuel : Nat) (ends : List TokenKind) : Read Node := do
  if ← looking ends then nothingHere else node fuel false false
termination_by (fuel, 1)

/-- The rest of a block sequence. -/
def blockItems : Nat → Mark → Read (List Node)
  | 0, _ => return []
  | fuel + 1, start => do
    let t ← peek
    match t.kind with
    | .blockEntry =>
      skip
      let n ← blockNode fuel false t.mark [.blockEntry, .blockEnd]
      return n :: (← blockItems fuel start)
    | .blockEnd =>
      skip
      return []
    | _ => fail start "did not find expected '-' indicator"
termination_by fuel _ => (fuel, 0)

/-- The rest of a block sequence that is not indented. -/
def looseItems : Nat → Read (List Node)
  | 0 => return []
  | fuel + 1 => do
    let t ← peek
    if t.kind == .blockEntry then
      skip
      let n ← blockNode fuel false t.mark [.blockEntry, .key, .value, .blockEnd]
      return n :: (← looseItems fuel)
    else return []
termination_by fuel => (fuel, 0)

/-- The rest of a block mapping. -/
def blockPairs : Nat → Mark → Read (List Node)
  | 0, _ => return []
  | fuel + 1, start => do
    let t ← peek
    if t.kind == .blockEnd then
      skip
      return []
    if t.kind != .key then fail start "did not find expected key"
    skip
    let k ← blockNode fuel true t.mark [.key, .value, .blockEnd]
    let u ← peek
    let v ← if u.kind == .value then do
        skip
        blockNode fuel true u.mark [.key, .value, .blockEnd]
      else pure (nothing u.mark)
    return k :: v :: (← blockPairs fuel start)
termination_by fuel _ => (fuel, 0)

/-- The rest of a sequence in brackets. A key in it makes a mapping of its own; a key that is not
there takes the token in its place with it. -/
def flowItems : Nat → Mark → (first : Bool) → Read (List Node)
  | 0, _, _ => return []
  | fuel + 1, start, first => do
    if ← looking [.flowSequenceEnd] then
      skip
      return []
    if !first then
      if ← looking [.flowEntry] then skip else fail start "did not find expected ',' or ']'"
    let t ← peek
    if t.kind == .flowSequenceEnd then
      skip
      return []
    let n ← if t.kind == .key then do
        skip
        let k ← if ← looking [.value, .flowEntry, .flowSequenceEnd] then do
            let k ← nothingHere
            skip
            pure k
          else node fuel false false
        let v ← if ← looking [.value] then do
            skip
            flowNode fuel [.flowEntry, .flowSequenceEnd]
          else nothingHere
        pure (.mapping (t.mark.line + 1) "!!map" [k, v])
      else node fuel false false
    return n :: (← flowItems fuel start false)
termination_by fuel _ _ => (fuel, 0)

/-- The rest of a mapping in brackets. -/
def flowPairs : Nat → Mark → (first : Bool) → Read (List Node)
  | 0, _, _ => return []
  | fuel + 1, start, first => do
    if ← looking [.flowMappingEnd] then
      skip
      return []
    if !first then
      if ← looking [.flowEntry] then skip else fail start "did not find expected ',' or '\x7d'"
    let t ← peek
    if t.kind == .flowMappingEnd then
      skip
      return []
    if t.kind == .key then skip
    let k ← if t.kind == .key then flowNode fuel [.value, .flowEntry, .flowMappingEnd]
      else node fuel false false
    let v ← if t.kind == .key && (← looking [.value]) then do
        skip
        flowNode fuel [.flowEntry, .flowMappingEnd]
      else nothingHere
    return k :: v :: (← flowPairs fuel start false)
termination_by fuel _ _ => (fuel, 0)

end

/-! ## Documents -/

/-- The handles that are always known. -/
def standardHandles : List (String × String) := [("!", "!"), ("!!", longTag)]

/-- Reads the directives before a document. Handles that are not declared keep their meaning. -/
def directives : Nat → (versioned : Bool) → Read Unit
  | 0, _ => return ()
  | fuel + 1, versioned => do
    let t ← peek
    match t.kind with
    | .versionDirective major minor =>
      if versioned then throw (.structural default t.mark "found duplicate %YAML directive")
      if major != 1 || minor != 1 then
        throw (.structural default t.mark "found incompatible YAML document")
      skip
      directives fuel true
    | .tagDirective handle lead =>
      if ((← get).handles.lookup handle).isSome then
        throw (.structural default t.mark "found duplicate %TAG directive")
      modify fun r => { r with handles := r.handles ++ [(handle, lead)] }
      skip
      directives fuel versioned
    | _ => modify fun r => { r with handles := r.handles ++ standardHandles }

/-- The first document of a stream, if there is any. It goes up to the token that follows it. -/
def document (fuel : Nat) : Read (Option Node) := do
  let _ ← peek
  skip
  match (← peek).kind with
  | .streamEnd => return none
  | .versionDirective .. | .tagDirective .. | .documentStart =>
    directives fuel false
    let t ← peek
    if t.kind != .documentStart then
      throw (.structural default t.mark "did not find expected <document start>")
    skip
    let u ← peek
    let n ← match u.kind with
      | .versionDirective .. | .tagDirective .. | .documentStart | .documentEnd | .streamEnd =>
        pure (nothing u.mark)
      | _ => node fuel true false
    let _ ← peek
    return some n
  | _ =>
    directives fuel false
    let n ← node fuel true false
    let _ ← peek
    return some n

end Read

/-- The first document in a text. A mark of the encoding before the text is passed over. -/
def document (text : String) : Except Fault (Option Node) :=
  let cs := match text.toList with
    | '\ufeff' :: r => r
    | r => r
  if !cs.all isAllowed then .error (.general "control characters are not allowed")
  else ((Read.document (4 * cs.length + 8)).run ⟨.of cs, [], []⟩).map (·.1)

end Weaver.Yaml
