import Mathlib.Data.List.Basic
import Weaver.Main
/-!
What triggers handlers in a unit, and the order in which the handlers run.

An occurrence is a place in the unit with the handler that it triggers: an annotation on an element,
an interface of a type, a call in a method. Each occurrence is either refused with a message or
accepted, and the accepted ones are sorted by the priorities of their handlers. Everything is said in
terms of the handlers that a configuration lets run, without the choice between handlers that
processing makes; where no two handlers have the same trigger and name, there is nothing to choose.
-/
set_option autoImplicit false

namespace Weaver

/-- The handlers with a trigger that run under a configuration. -/
def Config.active (c : Config) (handlers : List Handler) (t : Trigger) : List Handler :=
  handlers.filter fun h => c.runs h.name && h.trigger == t

/-- A place in a unit with the handler that it triggers. -/
inductive Occurrence where
  | anno (h : Handler) (element : Key) (anno : AnnoUse)
  | interface (h : Handler) (type : Key)
  | call (h : Handler) (method : Key)

namespace Occurrence

/-! ## Where handlers are triggered -/

section Places

variable (c : Config) (handlers : List Handler) (u : SourceUnit)

/-- Annotations on an element for which there is a handler. -/
def onElement (e : Key) : List Occurrence :=
  (u.annotations e).flatMap fun a =>
    ((c.active handlers .annotated).filter fun h => h.name == a.name).map fun h =>
      anno h e a

/-- Interfaces of a type for which there is a handler. -/
def onInterfaces (t : Key) : List Occurrence :=
  ((c.active handlers .implementing).filter fun h => u.implements t h.name).map fun h =>
    interface h t

/-- Calls in a method for which there is a handler. -/
def onCalls (m : Key) : List Occurrence :=
  ((c.active handlers .calling).filter fun h => u.calls m h.name).map fun h => call h m

/-- A method: its annotations, those of its parameters, its calls. -/
def onMethod (m : Key) : List Occurrence :=
  onElement c handlers u m ++ (u.params m).flatMap (onElement c handlers u) ++ onCalls c handlers u m

/-- A type: its annotations, its interfaces, its fields, its methods. -/
def onType (t : Key) : List Occurrence :=
  onElement c handlers u t ++ onInterfaces c handlers u t ++
    (u.fields t).flatMap (onElement c handlers u) ++ (u.methods t).flatMap (onMethod c handlers u)

/-- All occurrences in a unit, type by type. -/
def all : List Occurrence := u.types.flatMap (onType c handlers u)

end Places

/-! ## What an occurrence leads to -/

def handler : Occurrence → Handler
  | anno h .. | interface h _ | call h _ => h

/-- Why an annotation cannot stand where it stands: a member that its type does not allow, or an
element that its type does not allow. -/
def refusal? (u : SourceUnit) : Occurrence → Option String
  | anno _ e a =>
    match a.fault? with
    | some f => some f.message
    | none =>
      if a.type.isAllowedOn (u.elementKind e) then none
      else some ("@" ++ a.type.simpleName ++ " is not allowed on a " ++ (u.elementKind e).name)
  | interface .. | call .. => none

/-- The element and the annotation, if it is an annotation. -/
def use? : Occurrence → Option (Key × AnnoUse)
  | anno _ e a => some (e, a)
  | interface .. | call .. => none

/-- The error that is reported for a refused occurrence: by the handler, at the annotation. -/
def diagnostic? (u : SourceUnit) (o : Occurrence) : Option Diagnostic :=
  match o, o.refusal? u with
  | anno h _ a, some message => some ⟨.error, message, u.file, a.pos, h.name⟩
  | _, _ => none

/-- The run that an occurrence asks for. -/
def invocation : Occurrence → Invocation
  | anno h e a => ⟨h.name, some a, e⟩
  | interface h t => ⟨h.name, none, t⟩
  | call h m => ⟨h.name, none, m⟩

/-- An accepted occurrence asks for a run. -/
def run? (u : SourceUnit) (o : Occurrence) : Option (Handler × Invocation) :=
  if (o.refusal? u).isNone then some (o.handler, o.invocation) else none

/-- The runs that the accepted occurrences ask for, in the order of the occurrences. -/
def runs (u : SourceUnit) (os : List Occurrence) : List (Handler × Invocation) :=
  os.filterMap (run? u)

/-- The errors that are reported for the refused occurrences. -/
def diagnostics (u : SourceUnit) (os : List Occurrence) : List Diagnostic :=
  os.filterMap (diagnostic? u)

/-- What processing makes of an occurrence. -/
def finding (u : SourceUnit) (o : Occurrence) : Finding :=
  match o.refusal? u, o with
  | some message, anno h e a => .faulty h e a message
  | _, o => .ready o.handler o.invocation

end Occurrence

/-! ## The enumeration -/

section Choice

variable {c : Config} {handlers : List Handler}

/-- No two handlers have the same trigger and name. -/
def Handler.Distinct (handlers : List Handler) : Prop :=
  (handlers.map fun h => (h.trigger, h.name)).Nodup

/-- There is nothing to choose between handlers that are distinct. -/
theorem Config.choose_eq (distinct : Handler.Distinct handlers) :
    c.choose handlers = handlers.filter fun h => c.runs h.name := by
  induction handlers with
  | nil => rfl
  | cons h hs ih =>
    obtain ⟨fresh, distinct⟩ := List.nodup_cons.mp distinct
    rw [Config.choose, ih distinct]
    have unique : (hs.filter fun h => c.runs h.name).any
        (fun g => g.trigger == h.trigger && g.name == h.name) = false := by
      refine List.any_eq_false.mpr fun g hg same => fresh ?_
      obtain ⟨trigger, name⟩ := Bool.and_eq_true_iff.mp same
      refine List.mem_map.mpr ⟨g, List.mem_of_mem_filter hg, ?_⟩
      rw [eq_of_beq trigger, eq_of_beq name]
    by_cases runs : c.runs h.name
    · simp [runs, unique]
    · simp [runs]

/-- Of distinct handlers, at most one has a trigger and a name. -/
theorem Handler.Distinct.filter_eq (distinct : Handler.Distinct handlers) (t : Trigger)
    (name : String) (p : Handler → Bool) :
    handlers.filter (fun h => h.name == name && (p h && h.trigger == t)) =
      ((handlers.filter p).find? fun h => h.trigger == t && h.name == name).toList := by
  induction handlers with
  | nil => rfl
  | cons h hs ih =>
    obtain ⟨fresh, distinct⟩ := List.nodup_cons.mp distinct
    have rest := ih distinct
    by_cases hp : p h
    · by_cases key : h.trigger = t ∧ h.name = name
      · obtain ⟨rfl, rfl⟩ := key
        have none_left : hs.filter (fun g => g.name == h.name && (p g && g.trigger == h.trigger)) =
            [] := by
          refine List.filter_eq_nil_iff.mpr fun g hg same => fresh ?_
          simp only [Bool.and_eq_true, beq_iff_eq] at same
          exact List.mem_map.mpr ⟨g, hg, by rw [same.1, same.2.2]⟩
        simp [hp, none_left]
      · have other : (h.trigger == t && h.name == name) = false := by
          simpa using key
        have other' : (h.name == name && (p h && h.trigger == t)) = false := by
          rw [hp, Bool.true_and, Bool.and_comm]
          exact other
        rw [List.filter_cons_of_neg (by simp [other']), List.filter_cons_of_pos hp,
          List.find?_cons_of_neg (by simp [other]), rest]
    · rw [List.filter_cons_of_neg (by simp [hp]), List.filter_cons_of_neg hp, rest]

end Choice

namespace Occurrence

section Enumeration

variable {c : Config} {handlers : List Handler} {u : SourceUnit}

theorem finding_anno (h : Handler) (e : Key) (a : AnnoUse) :
    (anno h e a).finding u = Finding.ofAnno u h e a := by
  cases hf : a.fault? with
  | some f => simp only [finding, refusal?, Finding.ofAnno, hf]
  | none =>
    by_cases allowed : a.type.isAllowedOn (u.elementKind e)
    · simp only [finding, refusal?, Finding.ofAnno, hf, allowed, if_true]
      rfl
    · simp only [finding, refusal?, Finding.ofAnno, hf, allowed, if_false, Bool.false_eq_true]

theorem map_onElement (distinct : Handler.Distinct handlers) (e : Key) :
    (onElement c handlers u e).map (finding u) =
      Finding.onElement u (c.choose handlers) e := by
  rw [onElement, Finding.onElement, Config.choose_eq distinct, List.map_flatMap,
    List.filterMap_eq_flatMap_toList]
  refine List.flatMap_congr fun a _ => ?_
  rw [Config.active, List.filter_filter, distinct.filter_eq, List.map_map]
  cases ((handlers.filter fun h => c.runs h.name).find? fun h =>
      h.trigger == .annotated && h.name == a.name) with
  | none => rfl
  | some h => exact congrArg ([·]) (finding_anno h e a)

theorem map_onInterfaces (distinct : Handler.Distinct handlers) (t : Key) :
    (onInterfaces c handlers u t).map (finding u) =
      Finding.onInterfaces u (c.choose handlers) t := by
  rw [onInterfaces, Finding.onInterfaces, Config.choose_eq distinct, List.map_map, Config.active,
    List.filter_filter, List.filter_filter]
  have same (h : Handler) : (u.implements t h.name && (c.runs h.name && h.trigger == .implementing))
      = (h.trigger == .implementing && u.implements t h.name && c.runs h.name) := by
    grind
  simp only [same]
  rfl

theorem map_onCalls (distinct : Handler.Distinct handlers) (m : Key) :
    (onCalls c handlers u m).map (finding u) = Finding.onCalls u (c.choose handlers) m := by
  rw [onCalls, Finding.onCalls, Config.choose_eq distinct, List.map_map, Config.active,
    List.filter_filter, List.filter_filter]
  have same (h : Handler) : (u.calls m h.name && (c.runs h.name && h.trigger == .calling))
      = (h.trigger == .calling && u.calls m h.name && c.runs h.name) := by
    grind
  simp only [same]
  rfl

/-- Processing finds exactly the occurrences, in their order. -/
theorem map_all (distinct : Handler.Distinct handlers) :
    (all c handlers u).map (finding u) = Finding.all u (c.choose handlers) := by
  have onElements (es : List Key) : (es.flatMap (onElement c handlers u)).map (finding u) =
      es.flatMap (Finding.onElement u (c.choose handlers)) := by
    rw [List.map_flatMap]
    exact List.flatMap_congr fun e _ => map_onElement distinct e
  rw [all, Finding.all, List.map_flatMap]
  refine List.flatMap_congr fun t _ => ?_
  rw [onType, Finding.onType, List.map_append, List.map_append, List.map_append, onElements,
    map_onElement distinct, map_onInterfaces distinct, List.map_flatMap]
  refine congrArg _ (List.flatMap_congr fun m _ => ?_)
  rw [onMethod, Finding.onMethod, List.map_append, List.map_append, onElements,
    map_onElement distinct, map_onCalls distinct]

theorem finding_of_refusal {o : Occurrence} {message : String}
    (h : o.refusal? u = some message) :
    ∃ g e a, o = anno g e a ∧ o.finding u = .faulty g e a message := by
  cases o with
  | anno g e a => exact ⟨g, e, a, rfl, by unfold finding; rw [h]⟩
  | interface | call => exact absurd h (by simp [refusal?])

theorem finding_of_accepted {o : Occurrence} (h : o.refusal? u = none) :
    o.finding u = .ready o.handler o.invocation := by
  unfold finding
  rw [h]

/-- An occurrence is refused, with an error of its handler and no run, or it is accepted, with its
run and no error. -/
def Decided (u : SourceUnit) (o : Occurrence) : Prop :=
  (∃ message pos, o.refusal? u = some message ∧
      o.diagnostic? u = some ⟨.error, message, u.file, pos, o.handler.name⟩ ∧ o.run? u = none) ∨
    (o.diagnostic? u = none ∧ o.run? u = some (o.handler, o.invocation))

theorem decided (o : Occurrence) : o.Decided u := by
  cases h : o.refusal? u with
  | some message =>
    obtain ⟨g, e, a, rfl, -⟩ := finding_of_refusal h
    refine .inl ⟨message, a.pos, h, ?_, ?_⟩
    · simp only [diagnostic?, h]
      rfl
    · rw [run?, h]
      rfl
  | none =>
    refine .inr ⟨?_, ?_⟩
    · cases o <;> simp only [diagnostic?, h]
    · rw [run?, h]
      rfl

end Enumeration

end Occurrence

/-! ## The order of the runs -/

namespace Finding

/-- The runs that findings ask for, in the order of the findings. -/
def asked (fs : List Finding) : List (Handler × Invocation) :=
  fs.filterMap fun f => match f with
    | ready h i => some (h, i)
    | faulty .. => none

/-- The accepted occurrences ask for the runs. -/
theorem asked_map (u : SourceUnit) (os : List Occurrence) :
    asked (os.map (Occurrence.finding u)) = Occurrence.runs u os := by
  rw [asked, Occurrence.runs, List.filterMap_map]
  refine congrArg (List.filterMap · os) (funext fun o => ?_)
  rw [Function.comp_apply, Occurrence.run?]
  cases h : o.refusal? u with
  | some message =>
    obtain ⟨g, e, a, -, same⟩ := Occurrence.finding_of_refusal h
    rw [same]
    rfl
  | none =>
    rw [Occurrence.finding_of_accepted h]
    rfl

/-- One run comes before another by the priorities of their handlers. -/
def before (a b : Handler × Invocation) : Bool := a.1.priority ≤ b.1.priority

theorem before_trans (a b c : Handler × Invocation) (h₁ : before a b) (h₂ : before b c) :
    before a c := by
  simp only [before, decide_eq_true_eq] at *
  omega

theorem before_total (a b : Handler × Invocation) : (before a b || before b a) = true := by
  simp only [before, Bool.or_eq_true, decide_eq_true_eq]
  omega

/-- Every run that is asked for is scheduled, as often as it is asked for. -/
theorem schedule_perm (fs : List Finding) : (schedule fs).Perm (asked fs) :=
  List.mergeSort_perm _ _

/-- Handlers with a lower number run first. -/
theorem schedule_sorted (fs : List Finding) :
    (schedule fs).Pairwise fun a b => a.1.priority ≤ b.1.priority :=
  (List.pairwise_mergeSort before_trans before_total (asked fs)).imp of_decide_eq_true

end Finding

end Weaver
