import Weaver.Handler.Basic
/-!
Methods that check and clean their arguments.

Checks stand before the body, in the order of the parameters. A sanitized parameter gets a cleaned
copy that the body uses in its place. Both are done once for a method, however many annotations ask
for it.
-/
set_option autoImplicit false

namespace Weaver.Handler

/-! ## Validation -/

/-- Throws an exception with a message if a condition holds. -/
def throwIf (cond : Code) (exception : String) (message : Code) : Code :=
  .ifThen cond (.block [.throwing (.new (.type exception) [message])]) .missing

/-- A parameter as checks see it. -/
structure Checked where
  name : String
  /-- Its position, counted from one. -/
  position : Int

namespace Checked

/-- A message that names the parameter and its position. -/
def message (c : Checked) (form : String) : Code :=
  .format form [.text c.name, .int c.position]

/-- Refuses null. -/
def notNull (c : Checked) : Code :=
  throwIf (.equal (.named c.name) .null false) "java.lang.NullPointerException"
    (c.message "The validated object '%s' (argument #%s) is null")

/-- Refuses what is empty. -/
def notEmpty (c : Checked) : Code :=
  throwIf (.invoke (.named c.name) "isEmpty" []) "java.lang.IllegalArgumentException"
    (c.message "The validated object '%s' (argument #%s) is empty")

/-- Refuses what a function does not accept. -/
def accepted (c : Checked) (function : String) : Code :=
  throwIf (.unary "!" (.invoke .missing function [.named c.name]))
    "java.lang.IllegalArgumentException"
    (c.message "The object '%s' (argument #%s) is invalid")

end Checked

/-- The checks of a parameter that need no function. Primitive values are neither null nor
empty. -/
def plainChecks (u : SourceUnit) (p : Key) (c : Checked) : List Code :=
  if (u.varType p).isPrimitive then []
  else
    (if (u.annotated? p Known.validateNotNull).isSome then [c.notNull] else []) ++
      if (u.annotated? p Known.validateNotEmpty).isSome then [c.notNull, c.notEmpty] else []

/-- The checks of parameters; what is misconfigured is reported. -/
def checksOf (i : Invocation) : List Key → Weave (List Code)
  | [] => return []
  | p :: ps => do
    let u ← Weave.unit
    let c : Checked := ⟨u.name p, u.paramIndex p + 1⟩
    let plain := plainChecks u p c
    match u.annotated? p Known.validateWith with
    | none => return plain ++ (← checksOf i ps)
    | some a =>
      let f := Text.trim (← memberText a "value")
      if f.isEmpty then
        i.error (Complaint.emptyMember Known.validateWith "value").message
        return plain ++ (← checksOf i ps)
      else return plain ++ c.accepted f :: (← checksOf i ps)

/-- A handler that checks the arguments of a method. -/
def validating (name : String) : Handler :=
  .onAnno name Priority.validate fun i _ => do
    match ← i.concreteMethod with
    | none => return none
    | some m =>
      if !(← Weave.once "validate" m) then return none
      let checks ← checksOf i ((← Weave.unit).params m)
      if !(← Invocation.sound) then return none
      return some do
        if checks.isEmpty then return .ok (return [])
        return replacingBody m (checks ++ (← Weave.unit).statements m .none)

def validate : Handler := validating Known.validate
def validateNotNull : Handler := validating Known.validateNotNull
def validateNotEmpty : Handler := validating Known.validateNotEmpty
def validateWith : Handler := validating Known.validateWith

/-! ## Sanitation -/

/-- The normal forms of text that there are. -/
def normalForms : List String := ["NFD", "NFC", "NFKD", "NFKC"]

/-- A cleaned copy of a parameter. -/
structure Sanitized where
  param : String
  type : Code
  value : Code

namespace Sanitized

/-- The name of the copy. -/
def copy (s : Sanitized) : String := Text.camelCase "sanitized" [s.param]

/-- The declaration of the copy. -/
def declaration (s : Sanitized) : Code := .constant s.type s.copy s.value

end Sanitized

/-- The value of the copy of a parameter; nothing if it has none or is misconfigured, which is
reported. -/
def sanitizedValue (i : Invocation) (u : SourceUnit) (p : Key) : Weave (Option Code) := do
  let name := u.name p
  match u.annotated? p Known.sanitizeWith, u.annotated? p Known.sanitizeNormalize with
  | some _, some _ =>
    i.stop ("@Sanitize.With and @Sanitize.Normalize may not be used together on parameter '" ++
      name ++ "'")
  | some a, none =>
    let f := Text.trim (← memberText a "value")
    if f.isEmpty then i.refuse (.emptyMember Known.sanitizeWith "value")
    else return some (.invoke .missing f [.named name])
  | none, some a =>
    let form := Text.lastSegment (← memberText a "value")
    if normalForms.contains form then
      return some (.invoke (.named "java.text.Normalizer") "normalize"
        [.named name, .named ("java.text.Normalizer.Form." ++ form)])
    else i.stop ("@Sanitize.Normalize unknown normalizer form '" ++ form ++ "'")
  | none, none => return none

/-- The cleaned copies of parameters. -/
def copiesOf (i : Invocation) : List Key → Weave (List Sanitized)
  | [] => return []
  | p :: ps => do
    let u ← Weave.unit
    match ← sanitizedValue i u p with
    | some v => return ⟨u.name p, u.varType p, v⟩ :: (← copiesOf i ps)
    | none => copiesOf i ps

/-- A handler that cleans the arguments of a method. -/
def sanitizing (name : String) : Handler :=
  .onAnno name Priority.sanitize fun i _ => do
    match ← i.concreteMethod with
    | none => return none
    | some m =>
      if !(← Weave.once "sanitize" m) then return none
      let copies ← copiesOf i ((← Weave.unit).params m)
      if !(← Invocation.sound) then return none
      return some do
        if copies.isEmpty then return .ok (return [])
        let renames := copies.map fun s => (s.param, s.copy)
        let body := (← Weave.unit).statements m ⟨renames, none⟩
        return replacingBody m (copies.map (·.declaration) ++ body)

def sanitize : Handler := sanitizing Known.sanitize
def sanitizeWith : Handler := sanitizing Known.sanitizeWith
def sanitizeNormalize : Handler := sanitizing Known.sanitizeNormalize

end Weaver.Handler
