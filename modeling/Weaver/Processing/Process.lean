import Weaver.Processing.Weave
/-!
Processing a unit.

First everything that triggers a handler is found, type by type: the annotations of the type, the
interfaces it implements, the annotations of its fields, then for each method its annotations, those
of its parameters, and the methods it calls. An annotation with a fault, or on an element where it
is not allowed, is reported instead. Then the handlers run, by priority and in the order in which
they were found. Last, the annotations and interfaces that were found are removed, and with them the
imports of their names that nothing refers to any more.
-/
set_option autoImplicit false

namespace Weaver

open Weaver.Source (Position)

/-- The handlers that run under a configuration. Of two for one trigger the later one counts. -/
def Config.choose (c : Config) : List Handler → List Handler
  | [] => []
  | h :: hs =>
    let rest := c.choose hs
    if c.runs h.name && !rest.any fun g => g.trigger == h.trigger && g.name == h.name then
      h :: rest
    else rest

/-- Something that triggers a handler. -/
inductive Finding where
  /-- The handler has to run. -/
  | ready (h : Handler) (i : Invocation)
  /-- The annotation cannot stand there like that. -/
  | faulty (h : Handler) (element : Key) (anno : AnnoUse) (message : String)

namespace Finding

/-- The element and the annotation that triggers a handler, if an annotation does. -/
def use? : Finding → Option (Key × AnnoUse)
  | ready _ i => i.anno.map fun a => (i.element, a)
  | faulty _ e a _ => some (e, a)

/-- What an annotation on an element triggers. -/
def ofAnno (u : SourceUnit) (h : Handler) (e : Key) (a : AnnoUse) : Finding :=
  match a.fault? with
  | some f => faulty h e a f.message
  | none =>
    if a.type.isAllowedOn (u.elementKind e) then ready h ⟨h.name, some a, e⟩
    else faulty h e a
      ("@" ++ a.type.simpleName ++ " is not allowed on a " ++ (u.elementKind e).name)

/-- What the annotations on an element trigger. -/
def onElement (u : SourceUnit) (hs : List Handler) (e : Key) : List Finding :=
  (u.annotations e).filterMap fun a =>
    (hs.find? fun h => h.trigger == .annotated && h.name == a.name).map fun h => ofAnno u h e a

/-- What the interfaces that a type implements trigger. -/
def onInterfaces (u : SourceUnit) (hs : List Handler) (t : Key) : List Finding :=
  (hs.filter fun h => h.trigger == .implementing && u.implements t h.name).map fun h =>
    ready h ⟨h.name, none, t⟩

/-- What the calls in a method trigger. -/
def onCalls (u : SourceUnit) (hs : List Handler) (m : Key) : List Finding :=
  (hs.filter fun h => h.trigger == .calling && u.calls m h.name).map fun h =>
    ready h ⟨h.name, none, m⟩

/-- What a method with its parameters triggers. -/
def onMethod (u : SourceUnit) (hs : List Handler) (m : Key) : List Finding :=
  onElement u hs m ++ (u.params m).flatMap (onElement u hs) ++ onCalls u hs m

/-- What a type with its members triggers. -/
def onType (u : SourceUnit) (hs : List Handler) (t : Key) : List Finding :=
  onElement u hs t ++ onInterfaces u hs t ++ (u.fields t).flatMap (onElement u hs) ++
    (u.methods t).flatMap (onMethod u hs)

/-- Everything that triggers a handler. -/
def all (u : SourceUnit) (hs : List Handler) : List Finding :=
  u.types.flatMap (onType u hs)

/-- Reports a finding that is at fault. -/
def reportFault : Finding → Weave Unit
  | ready .. => return
  | faulty h _ a message => Weave.report h.name .error a.pos message

/-- The handlers to run with their invocations, by priority. -/
def schedule (fs : List Finding) : List (Handler × Invocation) :=
  let runs := fs.filterMap fun f => match f with
    | ready h i => some (h, i)
    | faulty .. => none
  runs.mergeSort fun a b => a.1.priority ≤ b.1.priority

end Finding

/-! ## Pruning -/

namespace Prune

/-- A name with all names it is nested in. -/
def enclosing (name : String) : List String :=
  let parts := Text.segments name
  (List.range parts.length).map fun n => ".".intercalate (parts.take (n + 1))

/-- The names of annotations and methods that the unit still refers to, with the names they are
nested in. -/
def live (u : SourceUnit) (hs : List Handler) : List String :=
  let annos (e : Key) : List String := (u.annotations e).map (·.name)
  let calls (m : Key) : List String :=
    (hs.filter fun h => h.trigger == .calling && u.calls m h.name).map (·.name)
  let names := u.types.flatMap fun t =>
    annos t ++ (u.fields t).flatMap annos ++
      (u.methods t).flatMap fun m => annos m ++ (u.params m).flatMap annos ++ calls m
  names.flatMap enclosing

/-- The names to look for in imports when names were removed: a nested annotation is imported with
what it is nested in. -/
def importNames (removed : List String) : List String :=
  (removed.flatMap fun n => match Text.qualifier? n with
    | some q => if q.isEmpty || q.endsWith "lombok" then [n] else [n, q]
    | none => [n]).mergeSort (· ≤ ·)

/-- The types that implement an interface that triggers a handler, each with that interface. -/
def implementers (u : SourceUnit) (hs : List Handler) : List (Key × String) :=
  (hs.filter (·.trigger == .implementing)).flatMap fun h =>
    (u.types.filter fun t => u.implements t h.name).map fun t => (t, h.name)

/-- Removes what has triggered handlers, and the imports that are not needed any more. -/
def run (hs : List Handler) (used : List (Key × AnnoUse)) : Weave Unit := do
  for (e, a) in used do
    Weave.editing (.removeAnno e a)
  let types := implementers (← Weave.unit) hs
  for (t, name) in types do
    Weave.editing (.removeInterface t name)
  let removed := used.map (·.2.name) ++ types.map (·.2) ++
    (hs.filter (·.trigger == .calling)).map (·.name)
  let keep := live (← Weave.unit) hs
  for name in importNames removed do
    if !keep.contains name then Weave.editing (.removeImport name)
  for (t, _) in types do
    Weave.editing (.rebuild t)

end Prune

/-! ## All together -/

/-- Processes the unit with handlers; what is said at the end if it failed. -/
def processWith (c : Config) (handlers : List Handler) : Weave (Option String) := do
  modify fun b => { b with errors := 0, done := [] }
  let hs := c.choose handlers
  let findings := Finding.all (← Weave.unit) hs
  for f in findings do
    f.reportFault
  for (h, i) in Finding.schedule findings do
    i.run h
  Prune.run hs (findings.filterMap (·.use?))
  return if (← get).errors == 0 then none else some invalidSource

/-- A bench with a unit. -/
def Bench.of (u : SourceUnit) (c : Collector) : Bench := ⟨u, c, 0, [], false, []⟩

end Weaver
