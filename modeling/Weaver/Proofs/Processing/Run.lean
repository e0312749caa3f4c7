import Weaver.Proofs.Processing.Occurrence
/-!
Runs of handlers.

A run of a handler goes through its phases (`Handler.Ran`): checking may stop it and building may
fail, and in both cases the bench is left for the next run; only a phase that breaks off ends the
processing. Runs are performed one after the other (`Performed`). Processing a unit is then to report
the refused occurrences, to perform the runs, and to prune.
-/
set_option autoImplicit false

namespace Weaver

/-! ## Work on a bench -/

namespace Weave

section Steps

variable {α β : Type} {w : Weave α} {f : α → Weave β} {a : α} {x : Abort} {b b' : Bench}

theorem bind_ok (h : w b = (.ok a, b')) : (w >>= f) b = f a b' := by
  change ExceptT.bindCont f (w b).1 (w b).2 = _
  rw [h]
  rfl

theorem bind_error (h : w b = (.error x, b')) : (w >>= f) b = (.error x, b') := by
  change ExceptT.bindCont f (w b).1 (w b).2 = _
  rw [h]
  rfl

theorem editing_apply (e : Edit α) (b : Bench) :
    editing e b = ((e b.unit).1, { b with unit := (e b.unit).2 }) := by
  rcases done : e b.unit with ⟨r, u⟩
  have entered : (get : Weave Bench) b = (.ok b, b) := rfl
  unfold editing
  rw [bind_ok entered, show ExceptT.run e b.unit = (r, u) from done]
  cases r <;> rfl

/-- Does something for each element of a list. -/
def each (f : α → Weave Unit) : List α → Weave Unit
  | [] => return ()
  | a :: as => do
    f a
    each f as

/-- A loop over a list. -/
theorem forIn_eq_each (f : α → Weave Unit) (as : List α) :
    (forIn as PUnit.unit fun a _ => do f a; return ForInStep.yield PUnit.unit) = each f as := by
  induction as with
  | nil => rfl
  | cons a as ih =>
    rw [List.forIn_cons, bind_assoc, each]
    refine congrArg (f a >>= ·) (funext fun _ => ?_)
    rw [pure_bind, ← ih]

/-- A loop whose rounds never break off. -/
theorem each_ok {f : α → Weave Unit} {step : Bench → α → Bench}
    (h : ∀ a b, f a b = (.ok (), step b a)) (as : List α) (b : Bench) :
    each f as b = (.ok (), as.foldl step b) := by
  induction as generalizing b with
  | nil => rfl
  | cons a as ih => rw [each, bind_ok (h a b), ih, List.foldl_cons]

end Steps

end Weave

namespace Bench

/-- The bench behind a diagnostic. -/
def reported (b : Bench) (d : Diagnostic) : Bench :=
  { b with
    collector := b.collector.report d
    errors := b.errors + if b.collector.fails d then 1 else 0 }

/-- The bench behind a change to the unit. -/
def edited (b : Bench) (f : SourceUnit → SourceUnit) : Bench := { b with unit := f b.unit }

/-- The bench at the beginning of a processing. -/
def begun (b : Bench) : Bench := { b with errors := 0, done := [] }

/-- The bench at the beginning of a run. -/
def entered (b : Bench) : Bench := { b with failed := false }

/-- The bench behind an error of an invocation. -/
def blamed (b : Bench) (i : Invocation) (message : String) : Bench :=
  { b with failed := true }.reported ⟨.error, message, b.unit.file, i.pos b.unit, i.handler⟩

/-- Generated code is attributed to what triggered the invocation. -/
def attributed (b : Bench) (i : Invocation) : Bench :=
  b.edited fun u => { u with source := match i.anno with
    | some a => some a.pos
    | none => some (u.pos i.element) }

/-- An element is registered anew. -/
def rebuilt (b : Bench) (k : Key) : Bench :=
  b.edited fun u => { u with registry := u.registry.rebuild k (u.decl k) }

end Bench

theorem Weave.report_apply (handler message : String) (s : Severity) (pos : Source.Position)
    (b : Bench) :
    Weave.report handler s pos message b =
      (.ok (), b.reported ⟨s, message, b.unit.file, pos, handler⟩) := rfl

theorem Invocation.error_apply (i : Invocation) (message : String) (b : Bench) :
    i.error message b = (.ok (), b.blamed i message) := rfl

theorem Weave.editing_modify (f : SourceUnit → SourceUnit) (b : Bench) :
    Weave.editing (modify f) b = (.ok (), b.edited f) := rfl

theorem Weave.attribute_apply (i : Invocation) (b : Bench) :
    Weave.editing (.attributeTo i.anno (some i.element)) b = (.ok (), b.attributed i) := by
  rw [Edit.attributeTo, editing_modify, Bench.attributed]
  cases i.anno <;> rfl

theorem Weave.rebuild_apply (k : Key) (b : Bench) :
    Weave.editing (.rebuild k) b = (.ok (), b.rebuilt k) := rfl

/-! ## The phases of a run -/

/-- A run of a handler on a bench, what comes of it and the bench behind it. -/
inductive Handler.Ran (h : Handler) (i : Invocation) (b : Bench) :
    Except Abort Unit → Bench → Prop where
  /-- The check stops the run. -/
  | stopped {b₁ : Bench} (check : h.check i b.entered = (.ok none, b₁)) : Ran h i b (.ok ()) b₁
  /-- Building fails, which is reported. -/
  | failed {build : Build} {message : String} {b₁ b₂ : Bench}
      (check : h.check i b.entered = (.ok (some build), b₁))
      (built : build b₁ = (.ok (.error message), b₂)) : Ran h i b (.ok ()) (b₂.blamed i message)
  /-- The unit is changed, and what has changed is registered anew. -/
  | spliced {build : Build} {splice : Splice} {keys : List Key} {b₁ b₂ b₃ : Bench}
      (check : h.check i b.entered = (.ok (some build), b₁))
      (built : build b₁ = (.ok (.ok splice), b₂))
      (changed : splice (b₂.attributed i) = (.ok keys, b₃)) :
      Ran h i b (.ok ()) (keys.foldl Bench.rebuilt b₃)
  /-- A phase breaks off. -/
  | brokenCheck {x : Abort} {b₁ : Bench} (check : h.check i b.entered = (.error x, b₁)) :
      Ran h i b (.error x) b₁
  | brokenBuild {build : Build} {x : Abort} {b₁ b₂ : Bench}
      (check : h.check i b.entered = (.ok (some build), b₁)) (built : build b₁ = (.error x, b₂)) :
      Ran h i b (.error x) b₂
  | brokenSplice {build : Build} {splice : Splice} {x : Abort} {b₁ b₂ b₃ : Bench}
      (check : h.check i b.entered = (.ok (some build), b₁))
      (built : build b₁ = (.ok (.ok splice), b₂))
      (changed : splice (b₂.attributed i) = (.error x, b₃)) : Ran h i b (.error x) b₃

/-- A run goes through the phases of its handler. -/
theorem Invocation.ran (i : Invocation) (h : Handler) (b : Bench) :
    h.Ran i b (i.run h b).1 (i.run h b).2 := by
  have enter : (modify fun b => { b with failed := false } : Weave Unit) b = (.ok (), b.entered) :=
    rfl
  rw [Invocation.run, Weave.bind_ok enter]
  rcases check : h.check i b.entered with ⟨r₁, b₁⟩
  match r₁ with
  | .error x =>
    rw [Weave.bind_error check]
    exact .brokenCheck check
  | .ok none =>
    rw [Weave.bind_ok check]
    exact .stopped check
  | .ok (some build) =>
    rw [Weave.bind_ok check]
    rcases built : build b₁ with ⟨r₂, b₂⟩
    match r₂ with
    | .error x =>
      simp only [Weave.bind_error built]
      exact .brokenBuild check built
    | .ok (.error message) =>
      simp only [Weave.bind_ok built, Invocation.error_apply]
      exact .failed check built
    | .ok (.ok splice) =>
      simp only [Weave.bind_ok built, Weave.bind_ok (Weave.attribute_apply i b₂)]
      rcases changed : splice (b₂.attributed i) with ⟨r₃, b₃⟩
      match r₃ with
      | .error x =>
        rw [Weave.bind_error changed]
        exact .brokenSplice check built changed
      | .ok keys =>
        rw [Weave.bind_ok changed, Weave.forIn_eq_each,
          Weave.bind_ok (Weave.each_ok Weave.rebuild_apply keys b₃)]
        exact .spliced check built changed

/-- Runs that are performed one after the other, what comes of them and the bench behind them. Only a
run that breaks off keeps the later ones from being performed. -/
inductive Performed : List (Handler × Invocation) → Bench → Except Abort Unit → Bench → Prop where
  | none (b : Bench) : Performed [] b (.ok ()) b
  | next {h : Handler} {i : Invocation} {runs : List (Handler × Invocation)}
      {r : Except Abort Unit} {b b₁ b₂ : Bench} (ran : h.Ran i b (.ok ()) b₁)
      (others : Performed runs b₁ r b₂) : Performed ((h, i) :: runs) b r b₂
  | broken {h : Handler} {i : Invocation} {runs : List (Handler × Invocation)} {x : Abort}
      {b b₁ : Bench} (ran : h.Ran i b (.error x) b₁) : Performed ((h, i) :: runs) b (.error x) b₁

/-- The runs of a list in its order. -/
def performAll (runs : List (Handler × Invocation)) : Weave Unit :=
  Weave.each (fun run => run.2.run run.1) runs

theorem performAll_performed (runs : List (Handler × Invocation)) (b : Bench) :
    Performed runs b (performAll runs b).1 (performAll runs b).2 := by
  induction runs generalizing b with
  | nil => exact .none b
  | cons run runs ih =>
    obtain ⟨h, i⟩ := run
    have split : performAll ((h, i) :: runs) = (i.run h >>= fun _ => performAll runs) := rfl
    have ran := i.ran h b
    rcases same : i.run h b with ⟨r, b₁⟩
    rw [same] at ran
    match r with
    | .error x =>
      rw [split, Weave.bind_error same]
      exact .broken ran
    | .ok () =>
      rw [split, Weave.bind_ok same]
      exact .next ran (ih b₁)

/-! ## Processing -/

/-- What is done when all runs are performed. -/
def finish (hs : List Handler) (used : List (Key × AnnoUse)) : Weave (Option String) := do
  Prune.run hs used
  return if (← get).errors == 0 then none else some invalidSource

/-- The bench behind the enumeration: the findings at fault are reported. -/
def Bench.enumerated (b : Bench) (ds : List Diagnostic) : Bench :=
  ds.foldl Bench.reported b.begun

theorem processWith_eq (c : Config) (handlers : List Handler) (b : Bench) :
    processWith c handlers b =
      (Weave.each Finding.reportFault (Finding.all b.unit (c.choose handlers)) >>= fun _ =>
        performAll (Finding.schedule (Finding.all b.unit (c.choose handlers))) >>= fun _ =>
          finish (c.choose handlers)
            ((Finding.all b.unit (c.choose handlers)).filterMap (·.use?))) b.begun := by
  rw [performAll, ← Weave.forIn_eq_each, ← Weave.forIn_eq_each]
  rfl

end Weaver
