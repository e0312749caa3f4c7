import Weaver.Text.Name
import Weaver.Syntax.Flags
/-!
The annotations that are understood.

Every annotation type has a qualified name, a list of the elements it may stand on, and its members
with their defaults. A member without a default has to be given. The names of the marker interfaces
and of the marker method are here as well: they trigger generation like annotations do.
-/
set_option autoImplicit false

namespace Weaver

open Weaver.Syntax (Flags)

/-- The kinds of elements that can be annotated. -/
inductive ElementKind where
  | type
  | field
  | method
  | constructor
  | parameter
  | localVariable
deriving Repr, DecidableEq, Inhabited

namespace ElementKind

/-- All kinds, in the order of their numbers. -/
def all : List ElementKind :=
  [type, field, method, constructor, parameter, localVariable]

/-- The name of a kind. -/
def name : ElementKind → String
  | type => "type"
  | field => "field"
  | method => "method"
  | constructor => "constructor"
  | parameter => "parameter"
  | localVariable => "local variable"

end ElementKind

/-- How visible a generated member is. With `absent` it is not generated at all. -/
inductive AccessLevel where
  | everyone
  | module
  | subclasses
  | package
  | own
  | absent
deriving Repr, DecidableEq, Inhabited

namespace AccessLevel

/-- All levels, in the order of their numbers. -/
def all : List AccessLevel :=
  [everyone, module, subclasses, package, own, absent]

/-- The name of the constant that stands for a level. -/
def name : AccessLevel → String
  | everyone => "PUBLIC"
  | module => "MODULE"
  | subclasses => "PROTECTED"
  | package => "PACKAGE"
  | own => "PRIVATE"
  | absent => "NONE"

/-- The level with a constant of the given name, which may be qualified. -/
def ofName? (name : String) : Option AccessLevel :=
  all.find? (·.name == Text.lastSegment name)

/-- The modifier that sets a level. -/
def flags : AccessLevel → Flags
  | everyone => .publicFlag
  | subclasses => .protectedFlag
  | own => .privateFlag
  | _ => .empty

/-- The level that modifiers set. -/
def ofFlags (f : Flags) : AccessLevel :=
  if f.meets .publicFlag then everyone
  else if f.meets .protectedFlag then subclasses
  else if f.meets .privateFlag then own
  else package

end AccessLevel

/-- Where generated statements go, relative to the body of a method. -/
inductive Side where
  | before
  | after
deriving Repr, DecidableEq, Inhabited

namespace Side

/-- Both sides, in the order of their numbers. -/
def all : List Side := [before, after]

/-- The name of the constant that stands for a side. -/
def name : Side → String
  | before => "BEFORE"
  | after => "AFTER"

/-- The side with a constant of the given name, which may be qualified. -/
def ofName? (name : String) : Option Side :=
  all.find? (·.name == Text.lastSegment name)

end Side

/-- The name of the number of an item in a list of names; other numbers show in question marks. -/
def nameAt (names : List String) (n : Int) : String :=
  let unnamed := "?" ++ toString n ++ "?"
  if n < 0 then unnamed else (names[n.toNat]?).getD unnamed

/-- The value of a member that is not given. -/
inductive DefaultValue where
  | text (s : String)
  | flag (b : Bool)
  | texts (ss : List String)
deriving Repr, DecidableEq, Inhabited

/-- A member of an annotation type. Without a default it is required. -/
structure AnnoMember where
  name : String
  default : Option DefaultValue
deriving Repr, DecidableEq, Inhabited

/-- An annotation type. -/
structure AnnoType where
  name : String
  /-- The kinds of elements it may stand on. -/
  allowed : List ElementKind
  members : List AnnoMember
deriving Repr, DecidableEq, Inhabited

namespace AnnoType

/-- The name without its package and outer types. -/
def simpleName (t : AnnoType) : String :=
  Text.lastSegment t.name

/-- The annotation may stand on a kind of element. -/
def isAllowedOn (t : AnnoType) (e : ElementKind) : Bool :=
  t.allowed.isEmpty || t.allowed.contains e

/-- The member with a name. -/
def member? (t : AnnoType) (name : String) : Option AnnoMember :=
  t.members.find? (·.name == name)

end AnnoType

namespace Known

def rethrow : String := "lombok.Rethrow"
def rethrows : String := "lombok.Rethrows"
def function : String := "lombok.Function"
def doPrivileged : String := "lombok.DoPrivileged"
def doPrivilegedSanitizeWith : String := "lombok.DoPrivileged.SanitizeWith"
def readLock : String := "lombok.ReadLock"
def writeLock : String := "lombok.WriteLock"
def signal : String := "lombok.Signal"
def await : String := "lombok.Await"
def awaitBeforeAndSignalAfter : String := "lombok.AwaitBeforeAndSignalAfter"
def fluentSetter : String := "lombok.FluentSetter"
def boundSetter : String := "lombok.BoundSetter"
def boundPropertySupport : String := "lombok.BoundPropertySupport"
def builder : String := "lombok.Builder"
def builderExtension : String := "lombok.Builder.Extension"
def sanitize : String := "lombok.Sanitize"
def sanitizeWith : String := "lombok.Sanitize.With"
def sanitizeNormalize : String := "lombok.Sanitize.Normalize"
def validate : String := "lombok.Validate"
def validateNotNull : String := "lombok.Validate.NotNull"
def validateNotEmpty : String := "lombok.Validate.NotEmpty"
def validateWith : String := "lombok.Validate.With"
def singleton : String := "lombok.Singleton"
def swingInvokeLater : String := "lombok.SwingInvokeLater"
def swingInvokeAndWait : String := "lombok.SwingInvokeAndWait"
def visibleForTesting : String := "lombok.VisibleForTesting"
def autoGenMethodStub : String := "lombok.AutoGenMethodStub"

/-- The interface of programs that can be started. -/
def application : String := "lombok.Application"

/-- The interface of agents that can be loaded. -/
def jvmAgent : String := "lombok.JvmAgent"

/-- The class with the method that generators call. -/
def yieldClass : String := "lombok.Yield"

/-- The method that generators call. -/
def yieldMethod : String := yieldClass ++ ".yield"

end Known

namespace AnnoType

/-- A member that has to be given. -/
def required (name : String) : AnnoMember := ⟨name, none⟩

/-- A member with a text as default. -/
def optional (name default : String) : AnnoMember := ⟨name, some (.text default)⟩

/-- A member with an empty list as default. -/
def optionalList (name : String) : AnnoMember := ⟨name, some (.texts [])⟩

/-- The elements with a body. -/
def bodies : List ElementKind := [.method, .constructor]

/-- All annotation types, in the order of their names. -/
def all : List AnnoType :=
  [⟨Known.autoGenMethodStub, [.type], []⟩,
   ⟨Known.await, [.method],
    [required "value", required "conditionMethod", optional "pos" "BEFORE",
     optional "lockName" ""]⟩,
   ⟨Known.awaitBeforeAndSignalAfter, [.method],
    [required "awaitConditionName", required "awaitConditionMethod",
     required "signalConditionName", optional "lockName" ""]⟩,
   ⟨Known.boundPropertySupport, [.type], []⟩,
   ⟨Known.boundSetter, [.type, .field], [optional "value" "PUBLIC"]⟩,
   ⟨Known.builder, [.type],
    [optional "value" "PUBLIC", optional "prefix" "", optionalList "exclude",
     ⟨"convenientMethods", some (.flag true)⟩, optionalList "callMethods"]⟩,
   ⟨Known.builderExtension, [.method], []⟩,
   ⟨Known.doPrivileged, [.method], []⟩,
   ⟨Known.doPrivilegedSanitizeWith, [.parameter], [required "value"]⟩,
   ⟨Known.fluentSetter, [.type, .field], [optional "value" "PUBLIC"]⟩,
   ⟨Known.function, [.method], [optional "template" "lombok.Functions"]⟩,
   ⟨Known.readLock, [.method], [optional "value" ""]⟩,
   ⟨Known.rethrow, bodies,
    [optionalList "value", optional "as" "java.lang.RuntimeException", optional "message" ""]⟩,
   ⟨Known.rethrows, bodies, [required "value"]⟩,
   ⟨Known.sanitize, bodies, []⟩,
   ⟨Known.sanitizeNormalize, [.parameter], [optional "value" "NFKC"]⟩,
   ⟨Known.sanitizeWith, [.parameter], [required "value"]⟩,
   ⟨Known.signal, [.method],
    [required "value", optional "pos" "AFTER", optional "lockName" ""]⟩,
   ⟨Known.singleton, [.type], []⟩,
   ⟨Known.swingInvokeAndWait, [.method], []⟩,
   ⟨Known.swingInvokeLater, [.method], []⟩,
   ⟨Known.validate, bodies, []⟩,
   ⟨Known.validateNotEmpty, [.parameter], []⟩,
   ⟨Known.validateNotNull, [.parameter], []⟩,
   ⟨Known.validateWith, [.parameter], [required "value"]⟩,
   ⟨Known.visibleForTesting, [.type, .field, .method, .constructor], []⟩,
   ⟨Known.writeLock, [.method], [optional "value" ""]⟩]

/-- The annotation type with a qualified name. -/
def ofName? (name : String) : Option AnnoType :=
  all.find? (·.name == name)

end AnnoType

end Weaver
