import Weaver.Handler.Basic
import Weaver.Handler.Builder
import Weaver.Handler.Check
import Weaver.Handler.Function
import Weaver.Handler.Generator
import Weaver.Handler.Lock
import Weaver.Handler.Rethrow
import Weaver.Handler.Setter
import Weaver.Handler.Thread
import Weaver.Handler.Type
import Weaver.Processing.Process
/-!
The handlers there are, those for annotations that only have to stand in the right place among them.
-/
set_option autoImplicit false

namespace Weaver

namespace Handler

/-! ## Annotations in the right place -/

/-- What follows a check after which nothing has to be done. -/
def nothingToDo : Build := return .ok (return [])

/-- Methods that are visible for tests have to be concrete. -/
def visibleForTesting : Handler :=
  .onAnno Known.visibleForTesting Priority.types fun i _ => do
    let u ← Weave.unit
    if u.nodeKind i.element == .method && u.isAbstract i.element then
      i.refuse (.concreteMethodsOnly i.handler)
    else return some nothingToDo

/-- Only classes and enumerations can have stubs of methods. -/
def autoGenMethodStub : Handler :=
  .onAnno Known.autoGenMethodStub Priority.types fun i _ => do
    let u ← Weave.unit
    let t := i.type u
    if u.isInterface t || u.isAnnoType t then
      i.stop "@AutoGenMethodStub is legal only on classes and enums."
    else return some nothingToDo

/-! ## All handlers -/

/-- All handlers, by priority and name. -/
def standard : List Handler :=
  ordered
    [autoGenMethodStub, visibleForTesting, application, jvmAgent, singleton, builder,
     boundPropertySupport, boundSetter, fluentSetter, generator, readLock, writeLock, signal, await,
     awaitBeforeAndSignalAfter, swingInvokeLater, swingInvokeAndWait, doPrivileged,
     doPrivilegedSanitizeWith, sanitize, sanitizeWith, sanitizeNormalize, validate,
     validateNotNull, validateNotEmpty, validateWith, rethrow, rethrows, function,
     builderExtension]

/-- The handler with a qualified name. -/
def ofName? (name : String) : Option Handler :=
  standard.find? (·.name == name)

end Handler

/-- The first fault of a configuration. -/
def Config.standardFault? (c : Config) : Option ConfigFault :=
  c.fault? (Handler.standard.map (·.name))

/-- Processes a unit with all handlers: the unit afterwards, what was reported before and now, and
what is said if it failed. -/
def SourceUnit.process (u : SourceUnit) (config : Config) (c : Collector) :
    Except Abort (SourceUnit × Collector × Option String) :=
  let (r, b) := ((processWith config Handler.standard).run).run (.of u c)
  r.map fun failure => (b.unit, b.collector, failure)

end Weaver
