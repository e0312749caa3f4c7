import Weaver.Proofs.Code.Flow
import Weaver.Proofs.Handler.Moved
/-!
What control comes to in bodies that move.

An action with privileges and a function object return an object, so the body of a method without a
result gets a `return null` at its end when it moves there. Such a body never completes. But the last
statement is not reached if the body could not complete before: the moved body is one that a compiler
takes if and only if the body was one, and could complete.
-/
set_option autoImplicit false

namespace Weaver

open Weaver.Syntax (Tree Mark)
open Weaver.Syntax.Tree
open Weaver.Relocation (IsClassName)

/-- Nothing else is caught where null is returned rather than nothing. -/
def Facts.IgnoresNull (F : Facts) : Prop :=
  ∀ (s : Code.Scope) (c : Code) (b b' : Tree), c.lower s .part = .ok b →
    (Code.returnNull c).lower s .part = .ok b' → ∀ ps, F.caught b' ps = F.caught b ps

namespace Code

variable {F : Facts} {s : Scope}

/-! ## Returns without a value -/

/-- The flow of a tree, as a statement and as one of the cases or clauses of a statement. -/
def outline (F : Facts) (t : Tree) : (List String → Flow) × List (Bool × Flow) × List (Tree × Flow) :=
  (fun ls => flow F ls t, flowCases F [t], flowCatches F [t])

/-- The flows of the trees of a list. -/
def outlines (F : Facts) (ts : List Tree) : List Flow × List (Bool × Flow) × List (Tree × Flow) :=
  (flows F ts, flowCases F ts, flowCatches F ts)

theorem flow_of_outline {a b : Tree} (h : outline F b = outline F a) (ls : List String) :
    flow F ls b = flow F ls a :=
  congrFun (congrArg Prod.fst h) ls

theorem flows_of_outlines {as bs : List Tree} (h : outlines F bs = outlines F as) :
    flows F bs = flows F as ∧ flowCases F bs = flowCases F as ∧ flowCatches F bs = flowCatches F as :=
  ⟨congrArg Prod.fst h, congrArg (·.2.1) h, congrArg (·.2.2) h⟩

theorem outline_eq {a b : Tree} (h : ∀ ls, flow F ls b = flow F ls a)
    (cases_ : flowCases F [b] = flowCases F [a]) (catches : flowCatches F [b] = flowCatches F [a]) :
    outline F b = outline F a := by
  rw [outline, outline, cases_, catches, funext h]

/-- Returns that get a value leave the flow as it is. -/
theorem outline_returnNull (ignores : F.IgnoresNull) :
    (∀ c p, Alike (outline F) (c.lower s p) ((returnNull c).lower s p)) ∧
      ∀ cs p, Alike (outlines F) (lowerAll s p cs) (lowerAll s p (returnNullAll cs)) := by
  apply returnNull.mutual_induct
    (fun c => ∀ p, Alike (outline F) (c.lower s p) ((returnNull c).lower s p))
    (fun cs => ∀ p, Alike (outlines F) (lowerAll s p cs) (lowerAll s p (returnNullAll cs)))
  case case1 => exact fun p => .pure rfl
  case case2 =>
    intro e some_ p
    rw [returnNull.eq_2 e some_]
    exact .refl _
  case case3 =>
    exact fun ss body p => (body .statement).bind fun _ _ same =>
      .pure (outline_eq (fun ls => by rw [flow, flow, (flows_of_outlines same).1]) rfl rfl)
  case case4 =>
    intro c y n yes no p
    rw [returnNull, lower_ifThen, lower_ifThen]
    refine .optional (returnNull_missing n) (no .statement) fun n n' same => .after fun c' => ?_
    refine (yes .statement).bind fun y y' same' => .pure (outline_eq (fun ls => ?_) rfl rfl)
    rw [flow, flow, flow_of_outline same, flow_of_outline same']
  case case5 =>
    exact fun c b body p => .after fun c' => (body .statement).bind fun b b' same =>
      .pure (outline_eq (fun ls => by rw [flow, flow, flow_of_outline same]) rfl rfl)
  case case6 =>
    exact fun b c body p => (body .statement).bind fun b b' same => .after fun c' =>
      .pure (outline_eq (fun ls => by rw [flow, flow, flow_of_outline same]) rfl rfl)
  case case7 =>
    intro i c u b body p
    rw [returnNull, lower_forLoop, lower_forLoop]
    refine .optional (f := fun t => t) Iff.rfl (.refl _) fun c c' same =>
      .after fun u' => .after fun i' => ?_
    refine (body .statement).bind fun b b' same' => .pure (outline_eq (fun ls => ?_) rfl rfl)
    rw [flow, flow, same, flow_of_outline same']
  case case8 =>
    exact fun v e b body p => .after fun v' => .after fun e' =>
      (body .statement).bind fun b b' same =>
        .pure (outline_eq (fun ls => by rw [flow, flow, flow_of_outline same]) rfl rfl)
  case case9 =>
    exact fun l b body p => (body .statement).bind fun b b' same =>
      .pure (outline_eq (fun ls => by rw [flow, flow, flow_of_outline same]) rfl rfl)
  case case10 =>
    exact fun e b body p => .after fun e' => (body .part).bind fun b b' same =>
      .pure (outline_eq (fun ls => by rw [flow, flow, flow_of_outline same]) rfl rfl)
  case case11 =>
    exact fun e cs cases_ p => (cases_ .part).bind fun cs cs' same => .after fun e' =>
      .pure (outline_eq (fun ls => by rw [flow, flow, (flows_of_outlines same).2.1]) rfl rfl)
  case case12 =>
    intro e ss body p
    rw [returnNull, lower_switchCase, lower_switchCase]
    refine .optional (f := fun t => t) Iff.rfl (.refl _) fun e e' same => ?_
    refine (body .statement).bind fun ss ss' same' => .pure (outline_eq (fun ls => rfl) ?_ rfl)
    rw [flowCases, flowCases, same, (flows_of_outlines same').1]
    rfl
  case case13 =>
    intro b cs f body catches last p
    rw [returnNull, lower_tryCatch, lower_tryCatch]
    refine (catches .part).bind fun cs cs' same => ?_
    refine .optional (returnNull_missing f) (last .part) fun f f' same' => ?_
    -- which clauses the block gets to needs both blocks, not only their flows
    refine (body .part).bind_of fun t t' lowered lowered' same'' =>
      .pure (outline_eq (fun ls => ?_) rfl rfl)
    rw [flow, flow, (flows_of_outlines same).2.2, flow_of_outline same', flow_of_outline same'',
      ignores s b t t' lowered lowered']
  case case14 =>
    intro v b body p
    refine .after fun v' => (body .part).bind fun b b' same =>
      .pure (outline_eq (fun ls => rfl) rfl ?_)
    rw [flowCatches, flowCatches, flow_of_outline same]
    rfl
  case case15 =>
    intro c h₁ h₂ h₃ h₄ h₅ h₆ h₇ h₈ h₉ h₁₀ h₁₁ h₁₂ h₁₃ p
    rw [returnNull.eq_15 c h₁ h₂ h₃ h₄ h₅ h₆ h₇ h₈ h₉ h₁₀ h₁₁ h₁₂ h₁₃]
    exact .refl _
  case case16 => exact fun p => .refl _
  case case17 =>
    refine fun c cs here others p => (here p).bind fun t t' same =>
      (others p).bind fun ts ts' same' => .pure ?_
    obtain ⟨rest, cases_, catches⟩ := flows_of_outlines same'
    rw [outlines, outlines, flows, flows, flow_of_outline same, rest, flowCases_cons,
      flowCatches_cons, cases_, catches, flowCases_cons t ts, flowCatches_cons t ts,
      show flowCases F [t'] = flowCases F [t] from congrArg (·.2.1) same,
      show flowCatches F [t'] = flowCatches F [t] from congrArg (·.2.2) same]

/-- The body of a method without a result, when it returns an object: it does not complete, and
control comes to all of it if the body was like this and could complete. -/
theorem objectBody_flow (ignores : F.IgnoresNull) {cs : List Code} {ts : List Tree}
    (lowered : lowerAll s .statement cs = .ok ts) :
    ∃ ts', lowerAll s .statement (objectBody cs) = .ok ts' ∧ (bodyFlow F ts').completes = false ∧
      (bodyFlow F ts').reached = ((bodyFlow F ts).reached && (bodyFlow F ts).completes) := by
  obtain ⟨ts', lowered', same⟩ := (outline_returnNull ignores).2 cs .statement ts lowered
  have last : lowerAll s .statement [returning null] =
      .ok [.returning s.mark (.literal s.mark .null)] := rfl
  obtain ⟨completes, reached⟩ := Flow.row_concat (flows F ts) (.stop [])
  refine ⟨_, lowerAll_append lowered' last, ?_, ?_⟩
  · rw [bodyFlow, flows_append, (flows_of_outlines same).1]
    exact completes.trans (Bool.and_false _)
  · rw [bodyFlow, flows_append, (flows_of_outlines same).1]
    exact reached.trans (by rw [Flow.stop, Bool.and_true, bodyFlow])

end Code

namespace Handler

open Code

/-! ## Moved bodies -/

/-- The statements do not complete, and control comes to all of them just if it came to all of the
body, and the body could complete. -/
def EndsBehind (F : Facts) (body ss : List Tree) : Prop :=
  (bodyFlow F ss).completes = false ∧
    ((bodyFlow F ss).reached = true ↔
      (bodyFlow F body).reached = true ∧ (bodyFlow F body).completes = true)

variable {F : Facts} {u : SourceUnit} {m : Key} {s : Scope} {ts : List Tree}

/-- The statements of a method without a result, where they become those of one that returns an
object. -/
theorem endsBehind_of_becomes {r : Relocation} {body : List Tree} (steady : F.Steady r)
    (ignores : F.IgnoresNull) (named : r.WellNamed) (proper : ProperAll body)
    (becomes : Becomes (objectBody (liftStmts r body)) ts) :
    ∃ inner ss, MoveTo ts ss ∧
      lowerAll inner .statement (objectBody (liftStmts r body)) = .ok ss ∧
        EndsBehind F body ss := by
  obtain ⟨inner, ss, moved, lowered⟩ := becomes
  obtain ⟨us, back, same⟩ := exists_flows steady named inner proper
  obtain ⟨ss', lowered', ends, reached⟩ := objectBody_flow ignores back
  obtain rfl := Except.ok.inj (lowered.symm.trans lowered')
  refine ⟨inner, ss, moved, lowered, ends, ?_⟩
  rw [reached, bodyFlow, bodyFlow, same, Bool.and_eq_true]

/-- **The end of a moved body.** In actions with privileges and in function objects, the body of a
method without a result never completes. Control comes to all of its statements if and only if it
came to all of them in the method, and the end of the method could be reached. -/
theorem moved_endsBehind (u : SourceUnit) (m : Key) (s : Scope) (F : Facts) {c : String}
    (proper : (u.decl m).Proper) (enclosed : (u.registry.parent? m).map u.name = some c)
    (name : IsClassName c) (void : (u.returnType m).isVoid = true) (steady : F.Steady (.inside c))
    (ignores : F.IgnoresNull) :
    (∀ sanitized ts, lowerAll s .statement (privilegedBody u m sanitized) = .ok ts →
      ∃ inner ss, MoveTo ts ss ∧
        lowerAll inner .statement (objectBody (movedBody u m)) = .ok ss ∧
          EndsBehind F (SourceUnit.bodyParts (u.decl m)).2 ss) ∧
    ∀ template t, (functionDecl u m template).lower s .part = .ok t →
      ∃ inner ss, MoveTo [t] ss ∧
        lowerAll inner .statement (objectBody (u.statements m .none)) = .ok ss ∧
          EndsBehind F (SourceUnit.bodyParts (u.decl m)).2 ss := by
  have body := proper_bodyParts proper
  refine ⟨fun sanitized ts lowered => ?_, fun template t lowered => ?_⟩
  · have becomes := privilegedBody_becomes lowered
    rw [if_pos void] at becomes
    rw [movedBody, enclosed] at becomes ⊢
    exact endsBehind_of_becomes steady ignores (Relocation.plain_inside name).wellNamed body becomes
  · have becomes := functionDecl_becomes lowered
    rw [if_pos void] at becomes
    exact endsBehind_of_becomes steady.stay ignores Relocation.plain_none.wellNamed body becomes

/-! ## Two bodies -/

/-- Only literals are known to be constants, and control comes to every clause. -/
def literalFacts : Facts where
  truth e :=
    match e.unparen with
    | .literal _ (.boolean b) => some b
    | _ => none
  caught _ _ _ := true

theorem literalFacts_ignoresNull : literalFacts.IgnoresNull :=
  fun _ _ _ _ _ _ _ => rfl

theorem literalFacts_steady (r : Relocation) : literalFacts.Steady r where
  truth_shape e := by
    induction e using unparen.induct with
    | case1 m e ih => exact ih
    | case2 e other =>
      cases e
      case parens => exact (other _ _ rfl).elim
      case literal m v => cases v <;> rfl
      all_goals rfl
  truth_normal e := by
    unfold normalExpr
    split
    · next m b constant =>
      change some b = (match e.unparen with | .literal _ (.boolean b) => some b | _ => none)
      rw [constant]
    · rfl
  truth_apply e := by
    induction e using unparen.induct with
    | case1 m e ih =>
      rw [Relocation.apply]
      exact ih
    | case2 e other =>
      cases e
      case parens => exact (other _ _ rfl).elim
      case ident m n =>
        rw [Relocation.apply]
        obtain ⟨_, _, is_⟩ | ⟨_, _, _, is_⟩ := ident_cases r m n <;> rw [is_] <;> rfl
      all_goals
        unfold Relocation.apply
        try split
        all_goals rfl
  caught_shape _ _ := rfl
  caught_normal _ _ _ := rfl
  caught_apply _ _ := rfl

/-- A class with the methods `void m() { if (b) return; x(); }` and
`void n() { while (true) x(); }`. -/
def waiter : SourceUnit :=
  let mods : Tree := .modifiers default .empty []
  let method (n : String) (body : List Tree) : Tree :=
    .methodDecl default n mods [] (.primitive default .void) [] [] (.block default .empty body)
  let call : Tree := .exec default (.call default [] (.ident default "x") [])
  .ofTree (.unit default "" .missing [] [.classDecl default "T" mods [] .missing []
    [method "m" [.ifThen default (.ident default "b") (.returning default .missing) .missing, call],
      method "n" [.whileLoop default (.literal default (.boolean true)) call]]])

theorem waiter_void : waiter.returnType 2 = type "void" ∧ waiter.returnType 3 = type "void" := by
  have lifted (m : Mark) : liftType (.primitive m .void) = type "void" := by
    rw [liftType]
    rfl
  exact ⟨lifted _, lifted _⟩

theorem waiter_lowers (m : Key) (which : m = 2 ∨ m = 3) : ∃ ts,
    lowerAll ⟨default, none, none⟩ .statement (privilegedBody waiter m []) = .ok ts := by
  unfold privilegedBody
  obtain rfl | rfl := which
  · rw [waiter_void.1]
    exact exists_of_isSome (by decide)
  · rw [waiter_void.2]
    exact exists_of_isSome (by decide)

/-- A body that returns early, or after a call: all of it is reached where it has moved. -/
theorem moved_endsBehind_early : ∃ ts ss,
    lowerAll ⟨default, none, none⟩ .statement (privilegedBody waiter 2 []) = .ok ts ∧
      MoveTo ts ss ∧ (bodyFlow literalFacts ss).completes = false ∧
        (bodyFlow literalFacts ss).reached = true := by
  obtain ⟨ts, lowered⟩ := waiter_lowers 2 (.inl rfl)
  have name : IsClassName "T" := ⟨⟨by decide, by decide⟩, by decide, by decide⟩
  have void : (waiter.returnType 2).isVoid = true := by
    rw [waiter_void.1]
    rfl
  have proper : (waiter.decl 2).Proper :=
    ⟨nofun, ⟨nofun, trivial⟩, trivial, trivial, trivial, trivial,
      ⟨⟨by decide, by decide⟩, trivial, trivial⟩,
      ⟨trivial, trivial, ⟨by decide, by decide⟩, trivial⟩, trivial⟩
  have enclosed : (waiter.registry.parent? 2).map waiter.name = some "T" := by decide
  obtain ⟨_, ss, moved, -, ends, reached⟩ := (moved_endsBehind waiter 2 ⟨default, none, none⟩
    literalFacts proper enclosed name void (literalFacts_steady _)
    literalFacts_ignoresNull).1 [] ts lowered
  exact ⟨ts, ss, lowered, moved, ends, reached.mpr ⟨by decide, by decide +kernel⟩⟩

/-- A loop without an end: the last statement is not reached where the body has moved. -/
theorem moved_endless_unreached : ∃ ts ss,
    lowerAll ⟨default, none, none⟩ .statement (privilegedBody waiter 3 []) = .ok ts ∧
      MoveTo ts ss ∧ (waiter.returnType 3).isVoid = true ∧
        (bodyFlow literalFacts (SourceUnit.bodyParts (waiter.decl 3)).2).reached = true ∧
          (bodyFlow literalFacts ss).reached = false := by
  obtain ⟨ts, lowered⟩ := waiter_lowers 3 (.inr rfl)
  have name : IsClassName "T" := ⟨⟨by decide, by decide⟩, by decide, by decide⟩
  have void : (waiter.returnType 3).isVoid = true := by
    rw [waiter_void.2]
    rfl
  have enclosed : (waiter.registry.parent? 3).map waiter.name = some "T" := by decide
  have becomes := privilegedBody_becomes lowered
  rw [if_pos void, movedBody, enclosed] at becomes
  have proper : ProperAll (SourceUnit.bodyParts (waiter.decl 3)).2 :=
    ⟨⟨trivial, trivial, trivial, ⟨by decide, by decide⟩, trivial⟩, trivial⟩
  obtain ⟨_, ss, moved, -, -, reached⟩ := endsBehind_of_becomes (literalFacts_steady _)
    literalFacts_ignoresNull (Relocation.plain_inside name).wellNamed proper becomes
  refine ⟨ts, ss, lowered, moved, void, by decide, ?_⟩
  rw [← Bool.not_eq_true, reached]
  decide

end Handler

end Weaver
