import Weaver.Text.Quoted
import Weaver.Text.Name
/-!
Which handlers run.
-/
set_option autoImplicit false

namespace Weaver

/-- A configuration. Handlers are named with or without their package. -/
structure Config where
  /-- The handlers that run; all if the list is empty. -/
  enabled : List String
  /-- The handlers that never run. -/
  disabled : List String
  /-- The release of the language that trees are made for; zero stands for the latest. -/
  release : Int
  /-- Warnings fail the processing. -/
  warningsAsErrors : Bool
deriving Repr, DecidableEq, Inhabited

/-- What is wrong with a configuration. -/
inductive ConfigFault where
  | unsupportedRelease (n : Int)
  | unknownHandler (name : String)
deriving Repr, DecidableEq

namespace ConfigFault

/-- The wording of a fault. -/
def message : ConfigFault → String
  | unsupportedRelease n => "unsupported release " ++ toString n
  | unknownHandler n => "unknown handler " ++ Text.quote n

/-- What to do about a fault. -/
def hint : ConfigFault → String
  | unsupportedRelease _ => "release must be 6 or 7"
  | unknownHandler _ => "run 'lombokgo handlers' for the list of handlers"

end ConfigFault

namespace Config

/-- All handlers run. -/
def standard : Config := ⟨[], [], 7, false⟩

/-- A list names a handler. -/
def names (list : List String) (handler : String) : Bool :=
  list.any fun n => n == handler || "lombok." ++ n == handler

/-- The handler with a qualified name runs. -/
def runs (c : Config) (handler : String) : Bool :=
  !names c.disabled handler && (c.enabled.isEmpty || names c.enabled handler)

/-- The releases that trees can be made for. -/
def isSupported (release : Int) : Bool :=
  release == 0 || release == 6 || release == 7

/-- The first fault of a configuration, for the handlers there are. -/
def fault? (c : Config) (handlers : List String) : Option ConfigFault :=
  if !isSupported c.release then some (.unsupportedRelease c.release)
  else
    let known := handlers ++ handlers.map (Text.withoutLead "lombok.")
    ((c.enabled ++ c.disabled).find? fun n => !known.contains n).map .unknownHandler

end Config

end Weaver
