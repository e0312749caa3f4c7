import Weaver.Proofs.Parse.Proper
import Weaver.SourceUnit.Basic
/-!
The declarations of a unit that was read from a text are phrases of the grammar, and proper.

Numbering changes the marks of declarations and annotations only, and a declaration that is found by
its number is a part of the tree.
-/
set_option autoImplicit false

namespace Weaver

open Weaver.Syntax (Tree)
open Weaver.Syntax.Tree

namespace Syntax.Tree

/-! ## Phrases -/

variable {c : Category} {k : TypeRank} {t x : Tree} {ts : List Tree} {n : Nat}

/-- A type declares nothing. -/
theorem TypeForm.undeclared (form : TypeForm k t) (n : Nat) :
    number n t = (t, n) ∧ find? n t = none ∧ t.body = missing := by
  induction form with
  | plain _ ih | reference _ ih | argument _ ih => exact ih
  | _ => exact ⟨rfl, rfl, rfl⟩

/-- The statements in the body of a method are phrases. -/
theorem Phrase.body_stmts (h : Phrase c t) : Phrases .statement t.body.stmts := by
  induction h with
  | methodDecl _ _ _ _ _ body =>
    cases body with
    | absent => exact .nil
    | present body =>
      cases body with
      | body stmts => exact stmts
  | type form =>
    rw [(form.undeclared 0).2.2]
    exact .nil
  | present _ ih | operand _ ih | value _ ih | constant _ ih | nested _ ih | positional _ ih
  | ofVarDecl _ ih | ofExec _ ih | ofBody _ ih | ofDeclaration _ ih | field _ ih | inner _ ih =>
    exact ih
  | _ => exact .nil

/-- A method has modifiers. -/
theorem Phrase.isMods_of_method (h : Phrase c t) (method : t.isMethod) : t.mods.IsMods := by
  induction h with
  | methodDecl mods =>
    cases mods with
    | modifiers => exact ⟨_, _, _, rfl⟩
  | @type t form =>
    cases t
    case methodDecl m _ _ _ _ _ _ _ =>
      have absent := (form.undeclared m.id).2.1
      rw [find?, if_pos (beq_self_eq_true _)] at absent
      cases absent
    all_goals exact absurd method Bool.false_ne_true
  | present _ ih | operand _ ih | value _ ih | constant _ ih | nested _ ih | positional _ ih
  | ofVarDecl _ ih | ofExec _ ih | ofBody _ ih | ofDeclaration _ ih | field _ ih | inner _ ih =>
    exact ih method
  | _ => exact absurd method Bool.false_ne_true

theorem Phrase.numberModifiers (h : Phrase .modifiers t) (n : Nat) :
    Phrase .modifiers (numberModifiers n t).1 := by
  cases h with
  | @modifiers m f as annos =>
    refine .modifiers ?_
    induction as generalizing n with
    | nil => exact annos
    | cons a as ih =>
      obtain ⟨here, others⟩ := List.forall_mem_cons.mp annos
      cases here with
      | annoUse type args =>
        exact List.forall_mem_cons.mpr ⟨.annoUse type args, ih (n + 1) others⟩

theorem Phrases.numberAll (h : ∀ t ∈ ts, ∀ n, Phrase c (number n t).1) (n : Nat) :
    Phrases c (numberAll n ts).1 := by
  induction ts generalizing n with
  | nil => exact .nil
  | cons t ts ih =>
    obtain ⟨here, others⟩ := List.forall_mem_cons.mp h
    exact .cons (here n) (ih others _)

/-- Numbers make no difference to what a tree is in the grammar. -/
theorem Phrase.number (h : Phrase c t) (n : Nat) : Phrase c (number n t).1 := by
  induction h generalizing n with
  | type form =>
    rw [(form.undeclared n).1]
    exact .type form
  | present _ ih => exact .present (ih n)
  | operand _ ih => exact .operand (ih n)
  | value _ ih => exact .value (ih n)
  | constant _ ih => exact .constant (ih n)
  | nested _ ih => exact .nested (ih n)
  | positional _ ih => exact .positional (ih n)
  | ofVarDecl _ ih => exact .ofVarDecl (ih n)
  | ofExec _ ih => exact .ofExec (ih n)
  | ofBody _ ih => exact .ofBody (ih n)
  | ofDeclaration _ ih => exact .ofDeclaration (ih n)
  | field _ ih => exact .field (ih n)
  | inner _ ih => exact .inner (ih n)
  | parameter mods type => exact .parameter (mods.numberModifiers _) type
  | varDecl mods type init => exact .varDecl (mods.numberModifiers _) type init
  | classDecl mods params extending implementing _ _ _ _ ih =>
    exact .classDecl (mods.numberModifiers _) params extending implementing (Phrases.numberAll ih _)
  | methodDecl mods types result _ thrown body _ _ _ ih =>
    exact .methodDecl (mods.numberModifiers _) types result (Phrases.numberAll ih _) thrown body
  | unit package imports _ _ ih => exact .unit package imports (Phrases.numberAll ih _)
  | _ => constructor <;> assumption

theorem exists_of_findIn (found : findIn? n ts = some x) : ∃ t ∈ ts, find? n t = some x := by
  induction ts with
  | nil => cases found
  | cons t ts ih =>
    rw [findIn?] at found
    cases here : find? n t with
    | some y =>
      rw [here] at found
      exact ⟨t, List.mem_cons_self, here.trans found⟩
    | none =>
      rw [here] at found
      obtain ⟨u, member, found⟩ := ih found
      exact ⟨u, List.mem_cons_of_mem _ member, found⟩

/-- What is found by its number in a phrase is a phrase. -/
theorem Phrase.find (h : Phrase c t) (found : find? n t = some x) : ∃ c', Phrase c' x := by
  -- a declaration with another number is looked into
  have within {t : Tree} {ts : List Tree} {hit : Bool} (here : ∃ c', Phrase c' t)
      (ih : ∀ d ∈ ts, find? n d = some x → ∃ c', Phrase c' x)
      (found : (if hit then some t else findIn? n ts) = some x) : ∃ c', Phrase c' x := by
    cases hit with
    | true => rwa [← Option.some.inj found]
    | false =>
      obtain ⟨d, member, found⟩ := exists_of_findIn found
      exact ih d member found
  induction h with
  | present _ ih | operand _ ih | value _ ih | constant _ ih | nested _ ih | positional _ ih
  | ofVarDecl _ ih | ofExec _ ih | ofBody _ ih | ofDeclaration _ ih | field _ ih | inner _ ih =>
    exact ih found
  | type form =>
    rw [(form.undeclared n).2.1] at found
    cases found
  | parameter mods type => exact within ⟨_, .parameter mods type⟩ (List.forall_mem_nil _) found
  | varDecl mods type init => exact within ⟨_, .varDecl mods type init⟩ (List.forall_mem_nil _) found
  | classDecl mods params extending implementing defs _ _ _ ih =>
    exact within ⟨_, .classDecl mods params extending implementing defs⟩ ih found
  | methodDecl mods types result params thrown body _ _ _ ih =>
    exact within ⟨_, .methodDecl mods types result params thrown body⟩ ih found
  | unit _ _ _ _ ih =>
    obtain ⟨d, member, found⟩ := exists_of_findIn found
    exact ih d member found
  | _ => cases found

/-! ## Proper trees -/

theorem proper_numberAnnotations (n : Nat) {as : List Tree} (annos : ∀ a ∈ as, a.IsAnno)
    (proper : ProperAll as) : (∀ a ∈ (numberAnnotations n as).1, a.IsAnno) ∧
      ProperAll (numberAnnotations n as).1 := by
  induction as generalizing n with
  | nil => exact ⟨annos, proper⟩
  | cons a as ih =>
    obtain ⟨m, ty, vs, rfl⟩ := annos a List.mem_cons_self
    obtain ⟨annos', proper'⟩ := ih (n + 1) (fun a ha => annos a (List.mem_cons_of_mem _ ha)) proper.2
    exact ⟨List.forall_mem_cons.mpr ⟨⟨_, ty, vs, rfl⟩, annos'⟩, proper.1, proper'⟩

theorem proper_numberModifiers (n : Nat) {t : Tree} (proper : t.Proper) :
    (numberModifiers n t).1.Proper ∧ (t.IsMods → (numberModifiers n t).1.IsMods) := by
  cases t
  case modifiers m f as =>
    exact ⟨proper_numberAnnotations n proper.1 proper.2, fun _ => ⟨m, f, _, rfl⟩⟩
  all_goals exact ⟨proper, fun mods => mods⟩

theorem isParam_numberAll (n : Nat) {ps : List Tree} (params : ∀ p ∈ ps, p.IsParam) :
    ∀ p ∈ (numberAll n ps).1, p.IsParam := by
  induction ps generalizing n with
  | nil => exact params
  | cons p ps ih =>
    obtain ⟨⟨m, name, ms, ty, rfl⟩, others⟩ := List.forall_mem_cons.mp params
    exact List.forall_mem_cons.mpr ⟨⟨_, name, _, ty, rfl⟩, ih _ others⟩

/-- Numbering keeps a tree proper. -/
theorem proper_number : (∀ n t, t.Proper → (number n t).1.Proper) ∧
    ∀ n ts, ProperAll ts → ProperAll (numberAll n ts).1 := by
  apply number.mutual_induct (fun n t => t.Proper → (number n t).1.Proper)
    (fun n ts => ProperAll ts → ProperAll (numberAll n ts).1)
  case case1 => exact fun n m f p is ds _ _ _ ih h => ⟨h.1, h.2.1, ih h.2.2⟩
  case case2 =>
    intro n m name ms tps e is ds ms' after mods _ _ _ ih h
    obtain rfl : (numberModifiers (n + 1) ms).2 = after := congrArg Prod.snd mods
    exact ⟨(proper_numberModifiers (n + 1) h.1).1, h.2.1, h.2.2.1, h.2.2.2.1, ih h.2.2.2.2⟩
  case case3 =>
    intro n m name ms tps r ps ts b ms' after mods _ _ _ ih h
    obtain rfl : (numberModifiers (n + 1) ms).2 = after := congrArg Prod.snd mods
    obtain ⟨params, h⟩ := h
    exact ⟨isParam_numberAll _ params, (proper_numberModifiers (n + 1) h.1).1, h.2.1, h.2.2.1,
      ih h.2.2.2.1, h.2.2.2.2⟩
  case case4 =>
    intro n m name ms t i _ _ _ h
    obtain ⟨proper, mods⟩ := proper_numberModifiers (n + 1) h.2.1
    exact ⟨mods h.1, proper, h.2.2⟩
  case case5 =>
    intro n t h₁ h₂ h₃ h₄ h
    rwa [number.eq_5 n t h₁ h₂ h₃ h₄]
  case case6 => exact fun _ h => h
  case case7 =>
    intro n t ts t' after here _ _ _ ih ihs h
    obtain rfl : (number n t).2 = after := congrArg Prod.snd here
    exact ⟨ih h.1, ihs h.2⟩

/-- What is found in a proper tree is proper. -/
theorem proper_find (n : Nat) : (∀ t x, find? n t = some x → t.Proper → x.Proper) ∧
    ∀ ts x, findIn? n ts = some x → ProperAll ts → x.Proper := by
  apply find?.mutual_induct n (fun t => ∀ x, find? n t = some x → t.Proper → x.Proper)
    (fun ts => ∀ x, findIn? n ts = some x → ProperAll ts → x.Proper)
  case case1 => exact fun m f p is ds ih x found h => ih x found h.2.2
  case case2 | case4 | case6 =>
    intros
    rename_i hit x found h
    rw [find?, if_pos hit] at found
    rwa [← Option.some.inj found]
  case case3 =>
    intro m name ms tps e is ds miss ih x found h
    rw [find?, if_neg miss] at found
    exact ih x found h.2.2.2.2
  case case5 =>
    intro m name ms tps r ps ts b miss ih x found h
    rw [find?, if_neg miss] at found
    exact ih x found h.2.2.2.2.1
  case case7 =>
    intro m name ms t i miss x found
    rw [find?, if_neg miss] at found
    cases found
  case case8 =>
    intro t h₁ h₂ h₃ h₄ x found
    rw [find?.eq_5 n t h₁ h₂ h₃ h₄] at found
    cases found
  case case9 =>
    intro x found
    cases found
  case case10 =>
    intro t ts ih ihs x found h
    rw [findIn?] at found
    cases here : find? n t with
    | some y =>
      rw [here] at found
      exact ih x (here.trans found) h.1
    | none =>
      rw [here] at found
      exact ihs x found h.2

end Syntax.Tree

namespace SourceUnit

/-- Every element of a unit that was read has a declaration that is a phrase. -/
theorem phrase_decl_of_made {t : Tree} (made : Parse.Made t) (k : Key) :
    ∃ c, Phrase c ((ofTree t).decl k) := by
  obtain ⟨c, phrase⟩ := made.phrase
  have whole : Phrase c (ofTree t).tree := phrase.number 1
  unfold decl
  split
  · exact ⟨.optional .expression, .absent⟩
  · next n _ =>
    split
    · exact ⟨c, whole⟩
    · split
      · next x found => exact whole.find found
      · exact ⟨.optional .expression, .absent⟩

/-- Every element of a unit that was read has a proper declaration. -/
theorem proper_decl_of_made {t : Tree} (made : Parse.Made t) (k : Key) :
    ((ofTree t).decl k).Proper :=
  (phrase_decl_of_made made k).elim fun _ phrase => phrase.proper

/-- The statements of a method are a phrase each. -/
theorem phrases_bodyParts {c : Category} {d : Tree} (phrase : Phrase c d) :
    Phrases .statement (bodyParts d).2 := by
  have stmts := phrase.body_stmts
  unfold bodyParts
  split
  · next s ss same =>
    rw [same] at stmts
    split
    · exact (List.forall_mem_cons.mp stmts).2
    · exact stmts
  · exact .nil

/-- The statements of a method of a unit that was read are proper. -/
theorem properAll_bodyParts {t : Tree} (made : Parse.Made t) (k : Key) :
    ProperAll (bodyParts ((ofTree t).decl k)).2 := by
  obtain ⟨c, phrase⟩ := phrase_decl_of_made made k
  exact properAll_iff.mpr fun s hs => (phrases_bodyParts phrase s hs).proper

end SourceUnit

end Weaver
