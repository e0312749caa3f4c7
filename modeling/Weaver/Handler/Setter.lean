import Weaver.Handler.Basic
import Weaver.Anno.Reading
/-!
Setters for fields, and support for listeners to changes of properties.
-/
set_option autoImplicit false

namespace Weaver.Handler

open Weaver.Syntax (Flags)

/-! ## Listeners -/

def supportField : String := "$propertyChangeSupport"
def supportLockField : String := "$propertyChangeSupportLock"
def supportGetter : String := "getPropertyChangeSupport"

/-- A member with its name. -/
structure Named where
  name : String
  code : Code

/-- A field with its name. -/
def Named.field (type : Code) (name : String) (mods : Flags) (init : Code) : Named :=
  ⟨name, .fieldOf type name mods init⟩

/-- A method with its name. -/
def Named.method (result : Code) (name : String) (mods : Flags) (args stmts : List Code) : Named :=
  ⟨name, .methodDecl mods [.suppressAll] [] result name args [] stmts false false⟩

/-- The type of the object that knows the listeners. -/
def supportType : Code := .type "java.beans.PropertyChangeSupport"

/-- The fields behind listeners: the object that knows them, and the lock under which it is
made. -/
def supportFields : List Named :=
  [.field supportType supportField
    ((Flags.privateFlag.union .volatileFlag).union .transientFlag) .missing,
   .field (.typeRef "java.lang.Object" [] 1) supportLockField
    (Flags.privateFlag.union .finalFlag)
    (.newArray (.type "java.lang.Object") [.int 0] false [])]

/-- The method that gives the object that knows the listeners and makes it when it is asked for
first. -/
def supportMethod : Named :=
  let support := Code.ownField supportField
  let isNull := Code.equal support .null false
  .method supportType supportGetter .privateFlag []
    [.ifThen isNull (.block
      [.synchronizedOn (.ownField supportLockField) (.block
        [.ifThen isNull (.block [.assign support (.new supportType [.self])]) .missing])]) .missing,
     .returning support]

/-- A method that passes its arguments on to the object that knows the listeners. -/
def delegate (name : String) (args : List (String × String)) : Named :=
  .method (.type "void") name .publicFlag (args.map fun (t, n) => .param (.type t) n)
    [.invoke (.invoke .missing supportGetter []) name (args.map fun (_, n) => .named n)]

/-- The methods behind listeners. -/
def supportMethods : List Named :=
  [supportMethod,
   delegate "addPropertyChangeListener" [("java.beans.PropertyChangeListener", "listener")],
   delegate "removePropertyChangeListener" [("java.beans.PropertyChangeListener", "listener")],
   delegate "firePropertyChange"
    [("java.lang.String", "propertyName"), ("java.lang.Object", "oldValue"),
     ("java.lang.Object", "newValue")]]

/-- Members to be added to a type. -/
structure Additions where
  fields : List Code
  methods : List Code

namespace Additions

/-- The members behind listeners that a type does not have. -/
def support (u : SourceUnit) (t : Key) : Additions :=
  ⟨(supportFields.filter fun f => u.fieldExistence t f.name == .absent).map (·.code),
   (supportMethods.filter fun m => u.methodExistence t m.name == .absent).map (·.code)⟩

/-- No members. -/
def none : Additions := ⟨[], []⟩

/-- Adds the members to a type. -/
def inject (a : Additions) (t : Key) : Weave Unit := do
  for f in a.fields do
    Weave.editing (.injectField t f)
  for m in a.methods do
    Weave.editing (.injectMethod t m)

end Additions

/-- Classes whose properties can be listened to. -/
def boundPropertySupport : Handler :=
  .onAnno Known.boundPropertySupport Priority.types fun i _ => do
    let u ← Weave.unit
    let t := i.type u
    if !u.isClass t then i.refuse (.classesOnly i.handler)
    else return some do
      let additions := Additions.support (← Weave.unit) t
      return .ok do
        additions.inject t
        return [t]

/-! ## Setters -/

/-- A way to make setters. -/
structure SetterStyle where
  handler : String
  /-- The name of the setter of a field. -/
  name : String → String
  /-- The setter of a field: the type it belongs to, the name and the type of the field, and its
  modifiers. -/
  setter : Code → String → Code → Flags → Code
  /-- Listeners are told, so there has to be a constant for each property and the support. -/
  isBound : Bool

/-- The constant with the name of a property. -/
def propertyConstant (field : String) : Named :=
  .field (.type "java.lang.String") ("PROP_" ++ Text.constantCase field)
    (publicConstant) (.text field)
where
  /-- The modifiers of a constant that everyone can use. -/
  publicConstant : Flags := (Flags.publicFlag.union .staticFlag).union .finalFlag

/-- Setters that give back their object. -/
def fluentStyle : SetterStyle where
  handler := Known.fluentSetter
  name := fun n => n
  setter := fun self n t mods =>
    .methodDecl mods [.suppressAll] [] self n [.param t n] []
      [.assign (.ownField n) (.named n), .returning .self] false false
  isBound := false

/-- Setters that tell listeners. -/
def boundStyle : SetterStyle where
  handler := Known.boundSetter
  name := fun n => Text.camelCase "set" [n]
  setter := fun _ n t mods =>
    .methodDecl mods [.suppressAll] [] (.type "void") (Text.camelCase "set" [n]) [.param t n] []
      [.constant t "$old" (.ownField n),
       .assign (.ownField n) (.named n),
       .invoke .missing "firePropertyChange"
        [.named (propertyConstant n).name, .named "$old", .named n]] false false
  isBound := true

/-- The fields of a type that get a setter by an annotation of the type: those that can be set, are
not generated, have no annotation of their own, and have no setter yet. -/
def settable (s : SetterStyle) (u : SourceUnit) (t : Key) : List Key :=
  (u.fields t).filter fun f =>
    !(u.name f).startsWith "$" &&
      !(u.modifiers f).meets (Flags.staticFlag.union .finalFlag) &&
      (u.annotated? f s.handler).isNone && u.methodExistence t (s.name (u.name f)) == .absent

/-- The fields that get a setter by an annotation; nothing if the annotation cannot be served. -/
def setterFields (s : SetterStyle) (i : Invocation) (t : Key) : Weave (Option (List Key)) := do
  let u ← Weave.unit
  match u.nodeKind i.element with
  | .field =>
    let name := s.name (u.name i.element)
    if u.methodExistence t name == .absent then return some [i.element]
    else
      i.warn (methodExists name [(u.varType i.element).typeText])
      return none
  | .type =>
    if u.isClass i.element then return some (settable s u i.element)
    else i.refuse (.classesAndFieldsOnly i.handler)
  | _ => i.refuse (.classesAndFieldsOnly i.handler)

/-- What is added to a type for setters of some of its fields. -/
def setterAdditions (s : SetterStyle) (u : SourceUnit) (t : Key) (fields : List Key)
    (level : AccessLevel) : List Additions :=
  let self := Code.selfType (u.name t) (u.typeParams t)
  let setters := fields.map fun f => s.setter self (u.name f) (u.varType f) level.flags
  if s.isBound then
    let constants := (fields.map fun f => propertyConstant (u.name f)).filter fun c =>
      u.fieldExistence t c.name == .absent
    [.support u t, ⟨constants.map (·.code), setters⟩]
  else [⟨[], setters⟩]

/-- A handler that makes setters. -/
def setting (s : SetterStyle) : Handler :=
  .onAnno s.handler Priority.types fun i a => do
    match a.readAccess "value" with
    | .error message => i.stop message
    | .ok level =>
      if level == .absent then return none
      let t := i.type (← Weave.unit)
      match ← setterFields s i t with
      | none => return none
      | some fields => return some do
        let additions := setterAdditions s (← Weave.unit) t fields level
        return .ok do
          for a in additions do
            a.inject t
          return [t]

def fluentSetter : Handler := setting fluentStyle

def boundSetter : Handler := setting boundStyle

end Weaver.Handler
