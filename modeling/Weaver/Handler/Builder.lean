import Weaver.Handler.Basic
import Weaver.Anno.Reading
/-!
Staged builders.

For each required field there is an interface with one method that sets it and gives the interface
of the next one. After the last comes an interface with the methods for the optional fields and the
method that builds. One private class implements them all, and a private constructor takes over its
fields. A method of the type can be made a further method of the builder.
-/
set_option autoImplicit false

namespace Weaver.Handler

open Weaver.Syntax (Flags)

/-- The name of the class that implements a builder. -/
def builderClass : String := "$Builder"

/-- The name of the interface with the methods for optional fields. -/
def optionalDef : String := "$OptionalDef"

/-- The name of the interface that sets a required field. -/
def requiredDef (field : String) : String := Text.camelCase "$" [field, "def"]

/-- How a builder is to be made. -/
structure BuilderOptions where
  level : AccessLevel
  lead : String
  exclude : List String
  convenientMethods : Bool
  callMethods : List String

/-- What an annotation says about the builder. -/
def BuilderOptions.of (a : AnnoUse) : Except String BuilderOptions := do
  let level ← a.readAccess "value"
  let lead ← a.readText "prefix"
  let exclude ← a.readTexts "exclude"
  let convenient ← a.readFlag "convenientMethods"
  return ⟨level, lead, exclude, convenient, ← a.readTexts "callMethods"⟩

/-- The name of the method that sets a field. -/
def BuilderOptions.setterName (o : BuilderOptions) (field : String) : String :=
  if o.lead.isEmpty then field else o.lead ++ Text.capitalize field

/-- How a builder treats a field. -/
inductive FieldRole where
  /-- It has to be set. -/
  | required
  /-- It can be set. -/
  | optional
  /-- Elements can be added to the collection it holds. -/
  | collection
  /-- Entries can be put into the map it holds. -/
  | mapping
deriving Repr, DecidableEq

/-- A field of a builder. -/
structure BuilderField where
  key : Key
  name : String
  type : Code
  /-- Its value at the start; `missing` if it has none. -/
  init : Code
  role : FieldRole

/-- The simple names of collection types. -/
def collectionTypes : List String :=
  ["Collection", "List", "Set", "SortedSet", "NavigableSet", "Queue", "Deque"]

/-- The simple names of map types. -/
def mapTypes : List String := ["Map", "SortedMap", "NavigableMap"]

/-- The role of a field with modifiers, a value and a type; none if the builder leaves it alone. -/
def roleOf? (convenient : Bool) (mods : Flags) (hasInit : Bool) (type : Code) : Option FieldRole :=
  if !mods.meets .finalFlag then some .optional
  else if !hasInit then some .required
  else if convenient && collectionTypes.contains type.simpleName then some .collection
  else if convenient && mapTypes.contains type.simpleName then some .mapping
  else none

/-- The fields of a builder for a type, in the order of their declaration. -/
def builderFields (u : SourceUnit) (t : Key) (o : BuilderOptions) : List BuilderField :=
  (u.fields t).filterMap fun f =>
    let name := u.name f
    let mods := u.modifiers f
    if mods.meets .staticFlag || name.startsWith "$" || o.exclude.contains name then none
    else
      let init := u.initializer? f
      (roleOf? o.convenientMethods mods init.isSome (u.varType f)).map fun r =>
        ⟨f, name, u.varType f, init.getD .missing, r⟩

/-- The type argument of a type at a position; any object if it has none or it is no type. -/
def typeArg (t : Code) (n : Nat) : Code :=
  match t with
  | .typeRef _ as _ =>
    match as[n]? with
    | some a => if a.isType then a else .objectType
    | none => .objectType
  | _ => .objectType

/-- A method of a builder: what its interface declares and what its class does. -/
structure BuilderMethod where
  result : Code
  name : String
  params : List Code
  stmts : List Code

namespace BuilderMethod

/-- The declaration in the interface. -/
def declared (m : BuilderMethod) : Code :=
  .methodDecl .empty [] [] m.result m.name m.params [] [] true false

/-- The method of the class. -/
def implemented (m : BuilderMethod) : Code :=
  .methodDecl .publicFlag [] [] m.result m.name m.params [] m.stmts false true

end BuilderMethod

/-- The interface of the methods for optional fields. -/
def optionalType : Code := .type optionalDef

/-- A method that does something and goes on with the builder. -/
def stepMethod (result : Code) (name : String) (params : List Code) (stmt : Code) :
    BuilderMethod :=
  ⟨result, name, params, [stmt, .returning .self]⟩

/-- The method that sets a field. -/
def setMethod (o : BuilderOptions) (result : Code) (f : BuilderField) : BuilderMethod :=
  stepMethod result (o.setterName f.name) [.param f.type f.name]
    (.assign (.ownField f.name) (.named f.name))

/-- The methods for a field that need not be set. -/
def optionalMethods (o : BuilderOptions) (f : BuilderField) : List BuilderMethod :=
  let single := Text.singular f.name
  let onField (method : String) (args : List String) : Code :=
    .invoke (.ownField f.name) method (args.map .named)
  let some (t : Code) : Code := .wildcard .extending t
  match f.role with
  | .collection =>
    let elem := typeArg f.type 0
    [stepMethod optionalType (Text.camelCase "add" [single]) [.param elem single]
      (onField "add" [single]),
     stepMethod optionalType (Text.camelCase "addAll" [f.name])
      [.param (.typeOf "java.util.Collection" [some elem]) f.name] (onField "addAll" [f.name])]
  | .mapping =>
    let key := typeArg f.type 0
    let value := typeArg f.type 1
    [stepMethod optionalType (Text.camelCase "put" [single])
      [.param key "key", .param value "value"] (onField "put" ["key", "value"]),
     stepMethod optionalType (Text.camelCase "putAll" [f.name])
      [.param (.typeOf "java.util.Map" [some key, some value]) f.name]
      (onField "putAll" [f.name])]
  | _ => [setMethod o optionalType f]

/-- The interfaces that required fields lead to: each to that of the next one, the last to that of
the optional fields. -/
def stages (required : List BuilderField) : List Code :=
  required.map (fun f => .type (requiredDef f.name)) ++ [optionalType]

/-- The method that builds the object and calls methods of it. -/
def buildMethod (o : BuilderOptions) (self : Code) : BuilderMethod :=
  let made := Code.new self [.self]
  let stmts := if o.callMethods.isEmpty then [Code.returning made]
    else Code.constant self "$result" made ::
      o.callMethods.map (fun c => .invoke (.named "$result") c []) ++
      [.returning (.named "$result")]
  ⟨self, "build", [], stmts⟩

/-- An interface of a builder. -/
def stageInterface (name : String) (methods : List BuilderMethod) : Code :=
  .classDecl Code.interfaceClass (Flags.publicFlag.union .staticFlag) [] name [] .missing [] [] []
    (methods.map (·.declared)) []

/-- Everything that makes up a builder. -/
structure BuilderParts where
  entry : Code
  constructor : Code
  interfaces : List Code
  implementation : Code

/-- The parts of a builder for a type with some fields. -/
def builderParts (o : BuilderOptions) (typeName : String) (fields : List BuilderField) :
    BuilderParts :=
  let self := Code.type typeName
  let required := fields.filter (·.role == .required)
  let optional := fields.filter (·.role != .required)
  let setters := List.zipWith (setMethod o) (stages required).tail required
  let others := optional.flatMap (optionalMethods o) ++ [buildMethod o self]
  let names := required.map (fun f => requiredDef f.name) ++ [optionalDef]
  let interfaces := List.zipWith stageInterface names (setters.map ([·]) ++ [others])
  let all := required ++ optional
  { entry := .methodDecl (Flags.staticFlag.withAccess o.level.flags) [.suppressAll] []
      ((stages required).headD optionalType) (Text.decapitalize typeName) [] []
      [.returning (.new (.type builderClass) [])] false false
    constructor := .constructorDecl .privateFlag [.suppressAll] [] typeName
      [.param (.type builderClass) "builder"] []
      (all.map fun f => .assign (.ownField f.name) (.field (.named "builder") f.name)) true
    interfaces := interfaces
    implementation := .classDecl Code.plainClass (Flags.privateFlag.union .staticFlag) []
      builderClass [] .missing (names.map .type) []
      (all.map fun f => .fieldOf f.type f.name .privateFlag f.init)
      (.constructorDecl .privateFlag [] [] builderClass [] [] [] false ::
        (setters ++ others).map (·.implemented)) [] }

/-- Classes with a staged builder. -/
def builder : Handler :=
  .onAnno Known.builder Priority.types fun i a => do
    let u ← Weave.unit
    let t := i.type u
    if !u.isClass t then i.refuse (.classesOnly i.handler)
    else if !(u.typeParams t).isEmpty then i.stop "@Builder is not supported on generic types"
    else match BuilderOptions.of a with
      | .error message => i.stop message
      | .ok o =>
        let entry := Text.decapitalize (u.name t)
        if u.methodExistence t entry == .written then
          i.warn (methodExists entry [])
          return none
        let fields := builderFields u t o
        return some do
          let parts := builderParts o ((← Weave.unit).name t) fields
          return .ok do
            for f in fields do
              if f.role == .collection || f.role == .mapping then
                Weave.editing (.removeInitializer f.key)
            Weave.editing (.injectMethod t parts.entry)
            Weave.editing (.injectMethod t parts.constructor)
            for d in parts.interfaces do
              Weave.editing (.injectType t d)
            Weave.editing (.injectType t parts.implementation)
            return [t]

/-! ## Extensions -/

/-- A required field with the interface that sets it. -/
structure RequiredField where
  name : String
  interfaceType : Key

/-- The types directly in a type. -/
def memberTypes (u : SourceUnit) (t : Key) : List Key :=
  u.types.filter fun k => (u.outer? k).any fun o => u.qualifiedName o == u.qualifiedName t

/-- The name of an interface that sets a required field. -/
def isRequiredDef (name : String) : Bool :=
  name != optionalDef && name.startsWith "$" && name.endsWith "Def"

/-- The required fields of a type with a builder, read from the interfaces of the builder. -/
def requiredFields (u : SourceUnit) (t : Key) : List RequiredField :=
  (memberTypes u t).filterMap fun k =>
    if isRequiredDef (u.name k) then
      (u.methods k).findSome? fun m => match u.params m with
        | [p] => some ⟨u.name p, k⟩
        | _ => none
    else none

/-- The name that an assignment assigns to, alone or as a field of the object itself. -/
def assignedName? : Code → Option String
  | .assign (.named n) _ => some n
  | .assign (.field (.this .missing) n) _ => some n
  | _ => none

/-- The names that statements assign to, classes in them left out. -/
def assignedNames (stmts : List Code) : List String :=
  stmts.flatMap fun s => (s.visit fun c => c.kind == "ClassDecl").filterMap assignedName?

/-- The interface that an extension belongs to. -/
inductive Extended where
  | interface (k : Option Key)
  | incomplete

/-- An extension that sets no required field is optional; one that sets them all is an alternative
to the first of them. -/
def extendedBy (u : SourceUnit) (t : Key) (stmts : List Code) : Extended :=
  let required := requiredFields u t
  let assigned := assignedNames stmts
  let covered := required.filter fun r => assigned.contains r.name
  if covered.isEmpty then .interface (u.memberType? t optionalDef)
  else if covered.length == required.length then
    .interface (required.head?.map (·.interfaceType))
  else .incomplete

/-- Methods that extend a builder. -/
def builderExtension : Handler :=
  .onAnno Known.builderExtension Priority.extension fun i _ => do
    match ← i.concreteMethod with
    | none => return none
    | some m =>
      let u ← Weave.unit
      let t := i.type u
      let noBuilder := "@Builder.Extension requires the builder of " ++ u.name t ++
        ", which was not generated"
      if (u.annotated? t Known.builder).isNone then
        i.stop "@Builder.Extension is only allowed in types annotated with @Builder"
      else match u.memberType? t builderClass with
        | none => i.stop noBuilder
        | some b =>
          if !(u.modifiers m).meets .privateFlag || !(u.returnType m).isVoid then
            i.warn ("@Builder.Extension: The method '" ++ u.name m ++
              "' is not a valid extension and was skipped.")
            return none
          match extendedBy u t (u.statements m .none) with
          | .incomplete =>
            i.stop ("@Builder.Extension: The method '" ++ u.name m ++
              "' does not contain all required fields and was skipped.")
          | .interface none => i.stop noBuilder
          | .interface (some d) => return some do
            let u ← Weave.unit
            let method : BuilderMethod := ⟨optionalType, u.name m, u.paramCodes m,
              u.statements m .none ++ [.returning .self]⟩
            return .ok do
              Weave.editing (.injectMethod d method.declared)
              Weave.editing (.injectMethod b method.implemented)
              Weave.editing (.removeMethod t m)
              return [t]

end Weaver.Handler
