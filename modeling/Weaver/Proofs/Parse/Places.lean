import Weaver.Proofs.Parse.Members
import Weaver.Proofs.Parse.Total
import Weaver.Proofs.Source.Order
/-!
The places of methods.

A method begins at its name. The names of the methods of a unit are tokens of its text, each a token
of its own, so no two methods of a unit have the same place (`SourceUnit.methodsApart_of_read`).
`Lays n p P` says that a parser takes tokens among which places stand in this order; only the rules
for declarations are followed, and of the others it matters only that they leave some of the tokens.
-/
set_option autoImplicit false

namespace Weaver.Syntax.Tree

open Weaver.Source (Position)

variable {d : Tree} {ds es : List Tree} {m : Mark}

/-- The places of the methods among the declarations of a list, in their order. -/
def methodPlaces (ds : List Tree) : List Position := ((numberedAll ds).filter isMethod).map pos

theorem methodPlaces_append : methodPlaces (ds ++ es) = methodPlaces ds ++ methodPlaces es := by
  rw [methodPlaces, numberedAll_append, List.filter_append, List.map_append]
  rfl

theorem methodPlaces_variables (vars : ∀ d ∈ ds, d.isVariable) : methodPlaces ds = [] := by
  rw [methodPlaces, List.map_eq_nil_iff, List.filter_eq_nil_iff]
  intro d hd
  obtain ⟨v, hv, inside⟩ := mem_numberedAll.mp hd
  have var := vars v hv
  cases v
  case varDecl =>
    obtain rfl := List.mem_singleton.mp inside
    exact Bool.false_ne_true
  all_goals exact absurd var Bool.false_ne_true

theorem methodPlaces_method (method : IsMethodAt m d) : methodPlaces [d] = [m.pos] := by
  obtain ⟨params⟩ := method
  have none_ := List.map_eq_nil_iff.mp (methodPlaces_variables params)
  rw [methodPlaces, numberedAll, numbered, numberedAll, List.append_nil,
    List.filter_cons_of_pos rfl, none_]
  rfl

theorem methodPlaces_class {n : String} {ms e : Tree} {tps is : List Tree} :
    methodPlaces [classDecl m n ms tps e is ds] = methodPlaces ds := by
  rw [methodPlaces, numberedAll, numbered, numberedAll, List.append_nil,
    List.filter_cons_of_neg Bool.false_ne_true]
  rfl

/-- Methods keep their places when they get numbers. -/
theorem methodPlaces_number :
    (∀ next t, ((numbered (number next t).1).filter isMethod).map pos =
      ((numbered t).filter isMethod).map pos) ∧
    ∀ next ts, methodPlaces (numberAll next ts).1 = methodPlaces ts := by
  refine number.mutual_induct
    (fun next t => ((numbered (number next t).1).filter isMethod).map pos =
      ((numbered t).filter isMethod).map pos)
    (fun next ts => methodPlaces (numberAll next ts).1 = methodPlaces ts)
    ?unit ?type ?method ?var ?other ?nil ?cons
  case unit =>
    intro next m f p is ds rest after same ih
    rw [same] at ih
    rw [number, same]
    exact ih
  case type =>
    intro next m n ms tps e is ds ms' after mods rest after' same ih
    rw [same] at ih
    simp only [number, mods, same]
    exact ih
  case method =>
    intro next m n ms tps r ps ts b ms' after mods rest after' same ih
    rw [same] at ih
    simp only [number, mods, same]
    exact congrArg (m.pos :: ·) ih
  case var =>
    intro next m n ms t i ms' after mods
    simp only [number, mods]
    rfl
  case other =>
    intro next t h₁ h₂ h₃ h₄
    rw [number.eq_5 next t h₁ h₂ h₃ h₄]
  case nil => exact fun next => rfl
  case cons =>
    intro next t ts t' after one rest after' others here there
    rw [one] at here
    rw [others] at there
    simp only [numberAll, one, others]
    rw [methodPlaces, methodPlaces, numberedAll, numberedAll, List.filter_append, List.map_append,
      List.filter_append, List.map_append, here]
    exact congrArg _ there

end Weaver.Syntax.Tree

namespace Weaver.Parse

open Weaver.Source (Token Position LexFailure)
open Weaver.Syntax (Tree Flags Mark)
open Weaver.Syntax.Tree
open Weaver.Text (Glyph)

/-! ## The judgement -/

/-- The places of the tokens ahead. -/
def Input.places (s : Input) : List Position := s.ahead.map (·.pos)

theorem Input.Worded.left {s s' : Input} (words : s.Worded) (left : s.Left s') : s'.Worded :=
  ⟨fun t member => words.ahead t (left.ahead.subset member), left.last ▸ words.last⟩

/-- What a parser leaves, and places of tokens that it took. -/
def LaysAt {α : Type} (n : Nat) (p : Parser α) (P : α → List Position → Prop) (s : Input) : Prop :=
  s.Worded → s.Closed → s.ahead.length < n → ∀ a s', p s = .ok (a, s') →
    s.Left s' ∧ ∃ ps, (ps ++ s'.places).Sublist s.places ∧ P a ps

/-- Wherever fewer than `n` tokens are ahead, a parser that gives a value takes tokens at places for
which a condition holds. -/
def Lays {α : Type} (n : Nat) (p : Parser α) (P : α → List Position → Prop) : Prop :=
  ∀ s, LaysAt n p P s

section

variable {α β : Type} {n m : Nat} {b : Bool} {p q : Parser α} {f : α → Parser β} {s : Input} {a : α}
  {P : α → List Position → Prop} {R : β → List Position → Prop}

namespace LaysAt

theorem pure (h : P a []) : LaysAt n (Pure.pure a) P s := by
  intro _ _ _ a' s' done
  obtain ⟨rfl, rfl⟩ := Prod.mk.inj (Except.ok.inj done)
  exact ⟨.refl s, [], List.Sublist.refl _, h⟩

theorem fail {t : Token} {x : Source.Fault} : LaysAt n (failAt t x) P s :=
  fun _ _ _ _ _ => nofun

theorem ite {x : Prop} [Decidable x] (yes : x → LaysAt n p P s) (no : ¬x → LaysAt n q P s) :
    LaysAt n (if x then p else q) P s := by
  by_cases h : x
  · rw [if_pos h]
    exact yes h
  · rw [if_neg h]
    exact no h

/-- Two parsers one after the other. -/
theorem bind (first : LaysAt n p P s)
    (then_ : ∀ a ps, P a ps → Lays n (f a) fun x qs => R x (ps ++ qs)) : LaysAt n (p >>= f) R s := by
  intro words closed few x s'' done
  obtain ⟨a, s', here, rest⟩ := bind_eq_ok.mp done
  obtain ⟨left, ps, taken, holds⟩ := first words closed few a s' here
  obtain ⟨left', qs, taken', holds'⟩ := then_ a ps holds s' (words.left left) (closed.left left)
    (Nat.lt_of_le_of_lt left.length_le few) x s'' rest
  refine ⟨left.trans left', ps ++ qs, ?_, holds'⟩
  rw [List.append_assoc]
  exact (taken'.append_left ps).trans taken

/-- Of two parsers the first one takes a token; its place does not matter. -/
theorem seq (first : ReadsAt (n + 1) true p s) (then_ : ∀ a, Lays n (f a) R) :
    LaysAt (n + 1) (p >>= f) R s := by
  intro words closed few x s'' done
  obtain ⟨a, s', here, rest⟩ := bind_eq_ok.mp done
  have gets := first closed few
  rw [here] at gets
  obtain ⟨left, less⟩ := gets
  obtain ⟨left', qs, taken, holds⟩ := then_ a s' (words.left left) (closed.left left)
    (Nat.lt_of_lt_of_le (less rfl) (Nat.le_of_lt_succ few)) x s'' rest
  exact ⟨left.trans left', qs, taken.trans (left.ahead.sublist.map _), holds⟩

theorem current {g : Token → Parser α} (h : LaysAt n (g s.next) P s) :
    LaysAt n (Parse.current >>= g) P s := by
  intro words closed few x s' done
  rw [bind_ok current_apply] at done
  exact h words closed few x s' done

theorem isAhead {i : Nat} {text : String} {k : Bool → Parser α} (h : ∀ y, LaysAt n (k y) P s) :
    LaysAt n (Parse.isAhead i text >>= k) P s := by
  intro words closed few x s' done
  rw [bind_ok (isAhead_apply i)] at done
  exact h _ words closed few x s' done

/-- The next token is taken. -/
theorem take (hn : s.next.isEnd = false) : LaysAt n Parse.take (fun _ ps => ps = [s.next.pos]) s := by
  intro _ closed _ t s' done
  obtain ⟨took, rfl⟩ := took_of_take hn closed.last done
  refine ⟨⟨⟨[s.next], took.ahead.symm⟩, took.last⟩, _, ?_, rfl⟩
  rw [Input.places, Input.places, took.ahead]
  exact List.Sublist.refl _

end LaysAt

namespace Lays

theorem pure (h : P a []) : Lays n (Pure.pure a) P := fun _ => .pure h

theorem le (h : Lays n p P) (hm : m ≤ n) : Lays m p P :=
  fun s words closed few => h s words closed (Nat.lt_of_lt_of_le few hm)

theorem ite {x : Prop} [Decidable x] (yes : x → Lays n p P) (no : ¬x → Lays n q P) :
    Lays n (if x then p else q) P :=
  fun s => .ite (fun h => yes h s) fun h => no h s

theorem bind (first : Lays n p P)
    (then_ : ∀ a ps, P a ps → Lays n (f a) fun x qs => R x (ps ++ qs)) :
    Lays n (p >>= f) R :=
  fun s => .bind (first s) then_

theorem seq (first : Reads (n + 1) true p) (then_ : ∀ a, Lays n (f a) R) :
    Lays (n + 1) (p >>= f) R :=
  fun s => .seq (first s) then_

/-- A parser that gets on, with what it yields. -/
theorem of_reads {Q : α → Prop} (gets : Reads n false p) (yields : Yields p Q) :
    Lays n p fun a ps => ps = [] ∧ Q a := by
  intro s words closed few a s' done
  have left := gets s closed few
  rw [done] at left
  exact ⟨left.1, [], left.1.ahead.sublist.map _, rfl, (yields s a s' words done).1⟩

/-- What the first parser yields matters, and not where its tokens are. -/
theorem know {Q : α → Prop} (gets : Reads n false p) (yields : Yields p Q)
    (then_ : ∀ a, Q a → Lays n (f a) R) : Lays n (p >>= f) R :=
  (of_reads gets yields).bind fun a _ ⟨none_, holds⟩ => none_ ▸ then_ a holds

/-- What the first parser does does not matter. -/
theorem skip (gets : Reads n false p) (then_ : ∀ a, Lays n (f a) R) : Lays n (p >>= f) R := by
  intro s words closed few x s'' done
  obtain ⟨a, s', here, rest⟩ := bind_eq_ok.mp done
  have left := gets s closed few
  rw [here] at left
  obtain ⟨left', qs, taken, holds⟩ := then_ a s' (words.left left.1) (closed.left left.1)
    (Nat.lt_of_le_of_lt left.1.length_le few) x s'' rest
  exact ⟨left.1.trans left', qs, taken.trans (left.1.ahead.sublist.map _), holds⟩

theorem join {x : Prop} [Decidable x] (yes : Reads n false p) (no : Reads n false q)
    (then_ : ∀ a, Lays n (f a) R) : Lays n (if x then p >>= f else q >>= f) R :=
  ite (fun _ => skip yes then_) fun _ => skip no then_

/-- Two branches go on in the same way with what they lay. -/
theorem branch {x : Prop} [Decidable x] (yes : Lays n p P) (no : Lays n q P)
    (then_ : ∀ a ps, P a ps → Lays n (f a) fun x qs => R x (ps ++ qs)) :
    Lays n (if x then p >>= f else q >>= f) R :=
  ite (fun _ => yes.bind then_) fun _ => no.bind then_

theorem rounds {loop : Nat → Parser α} (h : ∀ k, Lays n (loop k) P) : Lays n (Parse.rounds loop) P :=
  fun s => h (s.ahead.length + 1) s

end Lays

theorem lays_name : Lays n name fun t ps => ps = [t.pos] := by
  intro s _ closed _ t s' done
  obtain ⟨took, -⟩ := name_eq_ok closed.last done
  refine ⟨⟨⟨[t], took.ahead.symm⟩, took.last⟩, _, ?_, rfl⟩
  rw [Input.places, Input.places, took.ahead]
  exact List.Sublist.refl _

theorem lays_outOfRounds : Lays n outOfRounds P := fun _ => .current .fail

end

/-! ## Members -/

/-- The methods among declarations stand at some of the places that were passed, in this order. -/
def Holds (ds : List Tree) (ps : List Position) : Prop := (methodPlaces ds).Sublist ps

theorem Holds.append {ds es : List Tree} {ps qs : List Position} (h : Holds ds ps) (h' : Holds es qs) :
    Holds (ds ++ es) (ps ++ qs) := by
  rw [Holds, methodPlaces_append]
  exact List.Sublist.append h h'

theorem holds_variables {ds : List Tree} (vars : ∀ d ∈ ds, d.isVariable) (ps : List Position) :
    Holds ds ps := by
  rw [Holds, methodPlaces_variables vars]
  exact List.nil_sublist ps

/-- The rule for members lays its members. -/
def MembersLaid (n : Nat) (r : Rules) : Prop := ∀ className, Lays n (r.member className) Holds

section Rules

variable {n k : Nat} {r : Rules}

/-- A method stands at its name. -/
theorem lays_methodRest (g : Progressive n r) (h : Sound r) (mods : Tree) (params : List Tree)
    {result : Tree} (hr : result = .missing ∨ TypeForm .type result) (name : String) (start : Token) :
    Lays (n + 1) (do return [← methodRest r mods params result name start])
      fun ds ps => Holds ds ([start.pos] ++ ps) := by
  refine .know (reads_methodRest g _ _ _ _ _) (yields_methodRest_form h hr name start) ?_
  intro d method
  refine .pure ?_
  rw [Holds, methodPlaces_method method]
  exact List.Sublist.refl _

theorem lays_methodOrFields (g : Progressive n r) (h : Sound r) {mods : Tree}
    (hm : Phrase .modifiers mods) (className : String) :
    Lays (n + 1) (methodOrFields r className mods) Holds := by
  have after (params : List Tree) (result : Tree) (form : TypeForm .type result) : Lays (n + 1) (do
      let t ← name
      if ← isNext "(" then return [← methodRest r mods params result t.text t]
      else if !params.isEmpty then
        failAt t (.unexpected (← current).shown "\"(\"")
      else
        let vars ← declarators r mods result t
        let _ ← expect ";"
        return vars) Holds := by
    refine lays_name.bind fun t ps place => ?_
    subst place
    refine .skip reads_isNext fun _ => .ite (fun _ => ?_) fun _ => .ite (fun _ => ?_) fun _ => ?_
    · exact lays_methodRest g h mods params (.inr form) _ t
    · exact .skip reads_current fun _ _ => .fail
    · refine .know (reads_declarators g _ _ _) (yields_declarators h hm form t) fun vars all => ?_
      refine .skip (reads_expect) fun _ => .pure (holds_variables (fun v hv => ?_) _)
      cases all v hv
      rfl
  refine .skip (reads_typeParameters g) fun params s => .current (.isAhead fun _ => ?_)
  refine .ite (fun constructor_ => ?_) fun _ => .ite (fun _ => ?_) fun _ => ?_
  · have named : s.next.isEnd = false := by
      rw [Bool.and_assoc] at constructor_
      exact isEnd_of_isName (Bool.and_eq_true_iff.mp constructor_).1
    refine .bind (LaysAt.take named) fun _ _ place => ?_
    subst place
    exact lays_methodRest g h mods params (.inl rfl) _ _
  · exact (Lays.skip reads_take fun _ => .know reads_pure (.pure (.primitive (by decide))) (after params)) s
  · exact (Lays.know (reads_type g) (yields_type h) (after params)) s

/-! ## Types -/

theorem lays_membersFrom {item : Parser (List Tree)} (hi : Lays n item Holds) (k : Nat) :
    Lays n (membersFrom item k) Holds := by
  induction k with
  | zero => exact lays_outOfRounds
  | succ k ih =>
    refine .skip reads_isNext fun _ => .skip reads_atEnd fun _ => .ite (fun _ => ?_) fun _ => ?_
    · exact .pure (List.Sublist.refl _)
    refine .skip reads_accept fun _ => .ite (fun _ => ih) fun _ => ?_
    refine hi.bind fun ds ps here => ih.bind fun es qs others => .pure ?_
    rw [List.append_nil]
    exact here.append others

theorem lays_classBody (hm : MembersLaid n r) (className : String) :
    Lays (n + 1) (classBody r className) Holds := by
  refine .seq reads_expect fun _ => (Lays.rounds (lays_membersFrom (hm className))).bind fun ds ps here => ?_
  refine .skip (reads_expect) fun _ => .pure ?_
  rwa [List.append_nil]

section Annotated

variable {m : Mark} {flags : Flags} {annos : List Tree}

theorem holds_class {n : String} {ms e : Tree} {tps is ds : List Tree} {ps : List Position}
    (h : Holds ds ps) : Holds [classDecl m n ms tps e is ds] (ps ++ []) := by
  rwa [List.append_nil, Holds, methodPlaces_class]

theorem lays_classDeclaration (g : Progressive n r) (hm : MembersLaid n r) :
    Lays (n + 1) (classDeclaration r m flags annos) fun d ps => Holds [d] ps := by
  refine .seq reads_expect fun kw => .skip (reads_name) fun t => ?_
  refine .skip (reads_typeParameters g).low fun _ => .skip reads_accept fun _ => ?_
  refine .join (reads_type g).low reads_pure fun _ => .skip reads_accept fun _ => ?_
  refine .join (reads_typeList g).low reads_pure fun _ => ?_
  exact ((lays_classBody hm t.text).le (Nat.le_succ n)).bind fun ds ps here => .pure (holds_class here)

theorem lays_interfaceDeclaration (g : Progressive n r) (hm : MembersLaid n r) :
    Lays (n + 1) (interfaceDeclaration r m flags annos) fun d ps => Holds [d] ps := by
  refine .seq reads_expect fun kw => .skip (reads_name) fun t => ?_
  refine .skip (reads_typeParameters g).low fun _ => .skip reads_accept fun _ => ?_
  refine .join (reads_typeList g).low reads_pure fun _ => ?_
  exact ((lays_classBody hm t.text).le (Nat.le_succ n)).bind fun ds ps here => .pure (holds_class here)

theorem lays_enumDeclaration (g : Progressive n r) (h : Sound r) (hm : MembersLaid n r) :
    Lays (n + 1) (enumDeclaration r m flags annos) fun d ps => Holds [d] ps := by
  refine .seq reads_expect fun kw => .skip (reads_name) fun t => ?_
  refine .skip reads_accept fun _ => .join (reads_typeList g).low reads_pure fun _ => ?_
  refine .skip (reads_expect) fun _ => ?_
  have closes : Reads n false (do
      let t ← current
      return t.isText ";" || t.isText "\x7d") := reads_current.bind fun _ => reads_pure
  have closes' : Yields (do
      let t ← current
      return t.isText ";" || t.isText "\x7d") fun _ => True :=
    yields_current.bind fun _ _ => .pure trivial
  refine .know (reads_before closes (reads_enumConstant g t.text).low)
    (yields_rounds (yields_listBefore closes' (yields_enumConstant_orderly h t.text)))
    fun constants hc => .skip reads_accept fun _ => ?_
  refine .branch (P := Holds) (.rounds (lays_membersFrom (hm t.text))) (.pure (List.Sublist.refl _))
    fun others ps here => .skip (reads_expect) fun _ => .pure (holds_class ?_)
  refine Holds.append (holds_variables (fun c listed => ?_) []) here
  have constant := (hc c listed).1
  cases c
  case varDecl => rfl
  all_goals exact absurd constant Bool.false_ne_true

theorem lays_typeDeclaration (g : Progressive n r) (h : Sound r) (hm : MembersLaid n r) :
    Lays (n + 1) (typeDeclaration r m flags annos) fun d ps => Holds [d] ps := by
  refine .skip reads_current fun t => .ite (fun _ => lays_classDeclaration g hm) fun _ => ?_
  refine .ite (fun _ => lays_interfaceDeclaration g hm) fun _ => ?_
  refine .ite (fun _ => lays_enumDeclaration g h hm) fun _ => .skip reads_isAhead fun _ => ?_
  refine .ite (fun _ => ?_) fun _ _ => .fail
  -- the members of an annotation type are not kept
  refine .skip (reads_expect) fun _ => .skip (reads_expect) fun _ => ?_
  refine .skip (reads_name) fun t => .skip (reads_expect) fun _ => ?_
  refine .skip (reads_rounds fun k _ => reads_skipBraces t.text k 1) fun _ => .pure ?_
  exact holds_class (show Holds [] [] from List.Sublist.refl _)

end Annotated

theorem lays_member (g : Progressive n r) (h : Sound r) (hm : MembersLaid n r) (className : String) :
    Lays (n + 1) (member r className) Holds := by
  have initBlock (flags : Flags) : Lays (n + 1) (do return [← blockWith r flags]) Holds := by
    refine .know (reads_blockWith g flags) (yields_blockWith h flags) ?_
    rintro _ ⟨m, ss, rfl, -⟩
    exact .pure (List.Sublist.refl _)
  refine .skip reads_isNext fun _ => .ite (fun _ => initBlock _) fun _ => ?_
  refine .skip reads_isNext fun _ => .skip reads_isAhead fun _ => .ite (fun _ => ?_) fun _ => ?_
  · exact .skip reads_take fun _ => initBlock _
  refine .know (reads_modifiers g) (yields_modifiers h) fun x annos => ?_
  refine .skip reads_isTypeDeclaration fun _ => .ite (fun _ => ?_) fun _ => ?_
  · refine (lays_typeDeclaration g h hm).bind fun d ps here => .pure ?_
    rwa [List.append_nil]
  · exact lays_methodOrFields g h (.modifiers annos) className

theorem membersLaid_rules (n : Nat) : MembersLaid n (rules n) := by
  induction n with
  | zero => exact fun _ _ _ _ few => absurd few (Nat.not_lt_zero _)
  | succ n ih => exact lays_member (progressive_rules n) (sound_rules n) ih

/-! ## Units -/

theorem lays_declarationsFrom (g : Progressive n r) (h : Sound r) (hm : MembersLaid n r) (k : Nat) :
    Lays (n + 1) (declarationsFrom r k) Holds := by
  induction k with
  | zero => exact lays_outOfRounds
  | succ k ih =>
    refine .skip reads_atEnd fun _ => .ite (fun _ => .pure (List.Sublist.refl _)) fun _ => ?_
    refine .skip reads_accept fun _ => .ite (fun _ => ih) fun _ => .skip (reads_modifiers g) fun x => ?_
    refine (lays_typeDeclaration g h hm).bind fun d ps here => ih.bind fun ds qs others => .pure ?_
    rw [List.append_nil]
    exact here.append others

theorem lays_compilationUnit (g : Progressive n r) (h : Sound r) (hm : MembersLaid n r)
    (file : String) : Lays (n + 1) (compilationUnit r file) fun t ps =>
      ∃ m p is ds, t = .unit m file p is ds ∧ Holds ds ps := by
  have rest (start : Token) (package : Tree) : Lays (n + 1) (do
      let imports ← rounds importsFrom
      let defs ← rounds (declarationsFrom r)
      return Tree.unit (markOf start) file package imports defs) fun t ps =>
        ∃ m p is ds, t = .unit m file p is ds ∧ Holds ds ps := by
    refine .skip (reads_rounds fun k _ => reads_importsFrom k) fun imports => ?_
    refine (Lays.rounds (lays_declarationsFrom g h hm)).bind fun ds ps here => .pure ?_
    exact ⟨_, _, _, ds, rfl, by rwa [List.append_nil]⟩
  refine .skip reads_current fun start => .skip reads_accept fun _ => .ite (fun _ => ?_) fun _ => ?_
  · refine .skip (reads_qualifiedName) fun q => .skip (reads_expect) fun _ => ?_
    exact .skip reads_pure (rest start)
  · exact .skip reads_pure (rest start)

end Rules

/-- No two methods of a unit that is read have the same place. -/
theorem nodup_methodPlaces {file : String} {text : List Glyph} {t : Tree}
    (read : unit file text = .ok t) : ∃ m p is ds, t = .unit m file p is ds ∧ (methodPlaces ds).Nodup := by
  unfold unit run at read
  cases lexed : Source.tokens text with
  | error e => rw [lexed] at read; exact nomatch read
  | ok all =>
    rw [lexed] at read
    dsimp only [Bind.bind, Except.bind] at read
    split at read
    · next b s' parsed =>
      obtain rfl : b = t := Except.ok.inj read
      have worded := Source.worded_of_tokens lexed
      have ended := (Source.tokens_answers text).ok all lexed
      have few : all.dropLast.length < all.length + 1 + 1 := by
        rw [List.length_dropLast]
        omega
      obtain ⟨-, ps, taken, m, p, is, ds, rfl, holds⟩ :=
        lays_compilationUnit (progressive_rules _) (sound_rules _) (membersLaid_rules _) file _
          ⟨fun t member => worded t ((List.dropLast_sublist all).subset member), worded_last worded⟩
          (closed_of_ended ended) few b s' parsed
      have distinct := Source.nodup_pos lexed
      exact ⟨m, p, is, ds, rfl, ((holds.trans (List.sublist_append_left _ _)).trans taken).nodup distinct⟩
    · exact nomatch read

end Weaver.Parse
