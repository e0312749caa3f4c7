import Weaver.Proofs.Parse.Rounds
import Weaver.Proofs.Source.Ending
/-!
Statements and declarations get on.

With the rules for types and expressions this covers the whole grammar. An induction on the nesting
of the rules then shows that as many nestings as there are tokens are enough: no loop of the parser
and no recursion of the grammar ever runs out of rounds. So a text is read as a tree, or a fault of
the text is found, unless the reader of tokens breaks.
-/
set_option autoImplicit false

namespace Weaver.Parse

open Weaver.Source (Token LexFailure Scanner tokens)
open Weaver.Syntax (Tree Flags Mark)
open Weaver.Text (Glyph)

section Rules

variable {n k : Nat} {b : Bool} {r : Rules}

/-! ## Variables -/

theorem reads_modifiersNode (h : Progressive n r) : Reads (n + 1) false (modifiersNode r) :=
  (reads_modifiers h).bind fun _ => reads_pure

theorem reads_declaratorsFrom (h : Progressive n r) (hk : k ≤ n + 1) (mods type : Tree)
    (start : Token) : Reads k false (declaratorsFrom r mods type k start) := by
  induction k generalizing start with
  | zero => exact .zero
  | succ k ih =>
    refine (reads_withBrackets type).bind fun t => ?_
    have rest (init : Tree) : Reads (k + 1) false (do
        let v := Tree.varDecl (markOf start) start.text mods t init
        if ← accept "," then
          let next ← name
          return v :: (← declaratorsFrom r mods type k next)
        else return [v]) := by
      refine .accept (reads_name.bind fun next => ?_) reads_pure
      exact (ih (Nat.le_of_succ_le hk) next).bind fun _ => reads_pure
    have value := (reads_initializer (b := false) h).le (Nat.le_of_succ_le_succ hk)
    exact .accept (value.bind fun init => (rest init).low) (reads_pure.bind rest)

theorem reads_declarators (h : Progressive n r) (mods type : Tree) (start : Token) :
    Reads (n + 1) false (declarators r mods type start) :=
  reads_rounds fun _ hk => reads_declaratorsFrom h hk mods type start

theorem reads_isLocalDeclaration (h : Progressive n r) :
    Reads (n + 1) false (isLocalDeclaration r) := by
  refine reads_succeeds (b := false) ?_
  exact (reads_modifiers h).bind fun _ => (reads_type h).bind fun _ => reads_name.bind fun _ => reads_pure

theorem reads_localVariables (h : Progressive n r) : Reads (n + 1) b (localVariables r) :=
  (reads_modifiersNode h).bind fun _ => (reads_type h).seq fun _ => reads_name.bind fun _ =>
    (reads_declarators h _ _ _).low

theorem reads_parameter (h : Progressive n r) : Reads (n + 1) b (parameter r) := by
  refine (reads_modifiers h).bind fun x => (reads_type h).seq fun t => reads_isNext.bind fun more => ?_
  have rest (t : Tree) : Reads n false (do
      let start ← name
      let t ← withBrackets t
      let flags := if more then x.2.1.union .varargsFlag else x.2.1
      return (Tree.varDecl (markOf start) start.text (.modifiers x.1 flags x.2.2) t .missing, more)) :=
    reads_name.bind fun _ => (reads_withBrackets t).bind fun _ => reads_pure
  exact .ite (fun _ => reads_take.bind fun _ => reads_pure.bind rest) fun _ => reads_pure.bind rest

theorem reads_parametersFrom (h : Progressive n r) (hk : k ≤ n + 1) :
    Reads k false (parametersFrom r k) := by
  induction k with
  | zero => exact .zero
  | succ k ih =>
    refine reads_isNext.bind fun _ => .ite (fun _ => reads_pure) fun _ => ?_
    refine ((reads_parameter h).le hk).seq fun x => .ite (fun _ => reads_pure) fun _ => ?_
    refine reads_accept.bind fun _ => .ite (fun _ => ?_) fun _ => reads_pure
    exact (ih (Nat.le_of_succ_le hk)).bind fun _ => reads_pure

theorem reads_parameters (h : Progressive n r) : Reads (n + 1) b (parameters r) :=
  reads_expect.seq fun _ => (reads_rounds fun _ hk => reads_parametersFrom h (Nat.le_succ_of_le hk)).bind
    fun _ => reads_expect.bind fun _ => reads_pure

/-! ## Blocks -/

theorem reads_statementsFrom (h : Progressive n r) {ends : Parser Bool} (he : Reads n false ends)
    (hk : k ≤ n) : Reads k false (statementsFrom r ends k) := by
  induction k with
  | zero => exact .zero
  | succ k ih =>
    refine (he.le hk).bind fun _ => .ite (fun _ => reads_pure) fun _ => reads_atEnd.bind fun _ => ?_
    refine .ite (fun _ => reads_current.bind fun _ _ => .fail_bind nofun) fun _ => ?_
    refine (h.blockStatement.le hk).seq fun _ => ?_
    exact (ih (Nat.le_of_succ_le hk)).bind fun _ => reads_pure

theorem reads_blockWith (h : Progressive n r) (flags : Flags) :
    Reads (n + 1) b (blockWith r flags) :=
  reads_expect.seq fun _ => (reads_rounds fun _ hk => reads_statementsFrom h reads_isNext hk).bind
    fun _ => reads_expect.bind fun _ => reads_pure

theorem reads_block (h : Progressive n r) : Reads (n + 1) b (block r) :=
  reads_blockWith h .empty

/-! ## Type declarations -/

theorem reads_isTypeDeclaration : Reads n false isTypeDeclaration :=
  reads_current.bind fun _ => reads_isAhead.bind fun _ => reads_pure

section Declarations

variable (m : Mark) (flags : Flags) (annos : List Tree)

theorem reads_classDeclaration (h : Progressive n r) :
    Reads (n + 1) b (classDeclaration r m flags annos) := by
  refine reads_expect.seq fun kw => reads_name.bind fun t => (reads_typeParameters h).low.bind fun _ => ?_
  refine reads_accept.bind fun _ => .join (reads_type h).low reads_pure fun _ => ?_
  refine reads_accept.bind fun _ => .join (reads_typeList h).low reads_pure fun _ => ?_
  exact (reads_classBody h t.text).low.bind fun _ => reads_pure

theorem reads_interfaceDeclaration (h : Progressive n r) :
    Reads (n + 1) b (interfaceDeclaration r m flags annos) := by
  refine reads_expect.seq fun kw => reads_name.bind fun t => (reads_typeParameters h).low.bind fun _ => ?_
  refine reads_accept.bind fun _ => .join (reads_typeList h).low reads_pure fun _ => ?_
  exact (reads_classBody h t.text).low.bind fun _ => reads_pure

theorem reads_annotationsFrom (h : Progressive n r) (hk : k ≤ n + 1) :
    Reads k false (annotationsFrom r k) := by
  induction k with
  | zero => exact .zero
  | succ k ih =>
    refine reads_isNext.bind fun _ => .ite (fun _ => ?_) fun _ => reads_pure
    exact ((reads_annoUse h).le hk).seq fun _ => (ih (Nat.le_of_succ_le hk)).bind fun _ => reads_pure

theorem reads_enumConstant (h : Progressive n r) (enumName : String) :
    Reads (n + 1) b (enumConstant r enumName) := by
  refine (reads_rounds fun _ hk => reads_annotationsFrom h hk).bind fun _ => reads_name.seq fun _ => ?_
  refine reads_isNext.bind fun _ => .join (reads_arguments h).low reads_pure fun _ => ?_
  exact (reads_anonymousBody h).low.bind fun _ => reads_pure

theorem reads_enumDeclaration (h : Progressive n r) :
    Reads (n + 1) b (enumDeclaration r m flags annos) := by
  refine reads_expect.seq fun kw => reads_name.bind fun t => reads_accept.bind fun _ => ?_
  refine .join (reads_typeList h).low reads_pure fun _ => reads_expect.bind fun _ => ?_
  have closes : Reads n false (do
      let t ← current
      return t.isText ";" || t.isText "\x7d") := reads_current.bind fun _ => reads_pure
  refine (reads_before closes (reads_enumConstant h t.text).low).bind fun _ => ?_
  have others := reads_rounds fun _ hk => reads_membersFrom (h.member t.text) hk
  refine reads_accept.bind fun _ => .join others reads_pure fun _ => ?_
  exact reads_expect.bind fun _ => reads_pure

theorem reads_skipBraces (typeName : String) (n depth : Nat) :
    Reads n false (skipBraces typeName n depth) := by
  induction n generalizing depth with
  | zero => exact .zero
  | succ n ih =>
    refine fun s => .takeAny (fun more => ?_) fun done => ?_
    · rw [if_neg (Bool.eq_false_iff.mp more)]
      refine .ite (fun _ => ih _) fun _ => .ite (fun _ => ?_) fun _ => ih _
      exact .ite (fun _ => reads_pure) fun _ => ih _
    · rw [if_pos done]
      exact .fail nofun

theorem reads_annotationTypeDeclaration : Reads n b (annotationTypeDeclaration m flags annos) := by
  cases n with
  | zero => exact .zero
  | succ n =>
    refine reads_expect.seq fun _ => reads_expect.bind fun _ => reads_name.bind fun t => ?_
    refine reads_expect.bind fun _ => (reads_rounds fun k _ => reads_skipBraces t.text k 1).bind fun _ => ?_
    exact reads_pure

theorem reads_typeDeclaration (h : Progressive n r) :
    Reads (n + 1) b (typeDeclaration r m flags annos) := by
  refine reads_current.bind fun t => .ite (fun _ => reads_classDeclaration m flags annos h) fun _ => ?_
  refine .ite (fun _ => reads_interfaceDeclaration m flags annos h) fun _ => ?_
  refine .ite (fun _ => reads_enumDeclaration m flags annos h) fun _ => reads_isAhead.bind fun _ => ?_
  exact .ite (fun _ => reads_annotationTypeDeclaration m flags annos) fun _ _ => .unexpected

end Declarations

/-! ## Members -/

theorem reads_methodRest (h : Progressive n r) (mods : Tree) (params : List Tree) (result : Tree)
    (name : String) (start : Token) :
    Reads (n + 1) b (methodRest r mods params result name start) := by
  refine (reads_parameters h).seq fun formals => ?_
  have body (result : Tree) (thrown : List Tree) : Reads n false (do
      let body ← if ← accept ";" then pure .missing else block r
      return Tree.methodDecl (markOf start) name mods params result formals thrown body) :=
    reads_accept.bind fun _ => .join reads_pure (reads_block h).low fun _ => reads_pure
  have after (result : Tree) : Reads n false (do
      let thrown ← if ← accept "throws" then typeList r else pure []
      if ← accept "default" then
        let _ ← elementValue r
      let body ← if ← accept ";" then pure .missing else block r
      return Tree.methodDecl (markOf start) name mods params result formals thrown body) := by
    refine reads_accept.bind fun _ => .join (reads_typeList h).low reads_pure fun thrown => ?_
    refine reads_accept.bind fun _ => .ite (fun _ => ?_) fun _ => body result thrown
    exact (reads_elementValue h).low.bind fun _ => body result thrown
  cases result
  case missing => exact reads_pure.bind after
  all_goals exact (reads_withBrackets _).bind after

theorem reads_methodOrFields (h : Progressive n r) (mods : Tree) (className : String) :
    Reads (n + 1) b (methodOrFields r className mods) := by
  refine (reads_typeParameters h).bind fun params => reads_current.bind fun start => ?_
  refine reads_isAhead.bind fun _ => .ite (fun _ => ?_) fun _ => ?_
  · exact reads_take.bind fun _ => (reads_methodRest h _ _ _ _ _).seq fun _ => reads_pure
  have after (result : Tree) : Reads (n + 1) b (do
      let n ← name
      if ← isNext "(" then return [← methodRest r mods params result n.text n]
      else if !params.isEmpty then
        failAt n (.unexpected (← current).shown "\"(\"")
      else
        let vars ← declarators r mods result n
        let _ ← expect ";"
        return vars) := by
    refine reads_name.seq fun t => reads_isNext.bind fun _ => .ite (fun _ => ?_) fun _ => ?_
    · exact (reads_methodRest h _ _ _ _ _).low.bind fun _ => reads_pure
    · refine .ite (fun _ => reads_current.bind fun _ _ => .fail nofun) fun _ => ?_
      exact (reads_declarators h _ _ _).low.bind fun _ => reads_expect.bind fun _ => reads_pure
  refine .ite (fun _ => reads_take.bind fun _ => reads_pure.bind after) fun _ => ?_
  exact (reads_type h).bind after

theorem reads_member (h : Progressive n r) (className : String) :
    Reads (n + 1) b (member r className) := by
  refine reads_isNext.bind fun _ => .ite (fun _ => ?_) fun _ => ?_
  · exact (reads_block h).seq fun _ => reads_pure
  refine reads_isNext.bind fun _ => reads_isAhead.bind fun _ => .ite (fun _ => ?_) fun _ => ?_
  · exact reads_take.bind fun _ => (reads_blockWith h _).seq fun _ => reads_pure
  · refine (reads_modifiers h).bind fun x => reads_isTypeDeclaration.bind fun _ => .ite (fun _ => ?_) fun _ => ?_
    · exact (reads_typeDeclaration _ _ _ h).seq fun _ => reads_pure
    · exact reads_methodOrFields h _ className

/-! ## Statements -/

theorem reads_inParens (h : Progressive n r) : Reads (n + 1) false (inParens r) :=
  reads_expect.bind fun _ => (reads_expression h).bind fun _ => reads_expect.bind fun _ => reads_pure

theorem reads_execClause (h : Progressive n r) : Reads (n + 1) b (execClause r) :=
  reads_current.bind fun _ => (reads_expression h).seq fun _ => reads_pure

theorem reads_forStatement (h : Progressive n r) (kw : Token) :
    Reads (n + 1) false (forStatement r kw) := by
  have heads : Reads n false (do
      let _ ← modifiers r
      let _ ← type r
      let _ ← name
      let _ ← expect ":") :=
    (reads_modifiers h).low.bind fun _ => (reads_type h).low.bind fun _ => reads_name.bind fun _ =>
      reads_expect.bind fun _ => reads_pure
  refine reads_expect.seq fun _ => (reads_succeeds heads).bind fun _ => .ite (fun _ => ?_) fun _ => ?_
  · refine (reads_modifiersNode h).low.bind fun _ => (reads_type h).low.bind fun _ => ?_
    refine reads_name.bind fun _ => reads_expect.bind fun _ => (reads_expression h).low.bind fun _ => ?_
    exact reads_expect.bind fun _ => h.statement.bind fun _ => reads_pure
  have clauses : Reads n false (rounds (commaSeparated (execClause r))) :=
    reads_separated (reads_execClause h).low
  have cond (init : List Tree) : Reads n false (do
      let _ ← expect ";"
      let cond ← if ← isNext ";" then pure .missing else expression r
      let _ ← expect ";"
      let step ← if ← isNext ")" then pure [] else rounds (commaSeparated (execClause r))
      let _ ← expect ")"
      let body ← r.statement
      return Tree.forLoop (markOf kw) init cond step body) := by
    refine reads_expect.bind fun _ => reads_isNext.bind fun _ => ?_
    refine .join reads_pure (reads_expression h).low fun _ => reads_expect.bind fun _ => ?_
    refine reads_isNext.bind fun _ => .join reads_pure clauses fun _ => reads_expect.bind fun _ => ?_
    exact h.statement.bind fun _ => reads_pure
  refine reads_isNext.bind fun _ => (reads_isLocalDeclaration h).low.bind fun _ => ?_
  refine .ite (fun _ => reads_pure.bind cond) fun _ => ?_
  exact .join (reads_localVariables h).low clauses cond

theorem reads_catchesFrom (h : Progressive n r) (hk : k ≤ n + 1) :
    Reads k false (catchesFrom r k) := by
  induction k with
  | zero => exact .zero
  | succ k ih =>
    have less : k ≤ n + 1 := Nat.le_of_succ_le hk
    refine fun s => .isNext (.ite (fun hx => ?_) fun _ => .pure)
    refine .taken hx fun kw => reads_expect.bind fun _ => ((reads_modifiersNode h).le less).bind fun _ => ?_
    refine ((reads_type h).le less).bind fun _ => reads_name.bind fun _ => reads_expect.bind fun _ => ?_
    exact ((reads_block h).le less).bind fun _ => (ih less).bind fun _ => reads_pure

theorem reads_tryStatement (h : Progressive n r) (kw : Token) :
    Reads (n + 1) false (tryStatement r kw) := by
  refine (reads_block h).bind fun _ => (reads_rounds fun _ hk => reads_catchesFrom h hk).bind fun _ => ?_
  refine reads_accept.bind fun _ => .join (reads_block h) reads_pure fun _ => ?_
  exact .ite (fun _ => reads_current.bind fun _ _ => .fail_bind nofun) fun _ => reads_pure

theorem reads_casesFrom (h : Progressive n r) (hk : k ≤ n + 1) : Reads k false (casesFrom r k) := by
  induction k with
  | zero => exact .zero
  | succ k ih =>
    have less : k ≤ n := Nat.le_of_succ_le_succ hk
    refine reads_accept.bind fun _ => .ite (fun _ => reads_pure) fun _ => reads_current.bind fun t => ?_
    have ends : Reads n false (do
        let t ← current
        return t.isText "case" || t.isText "default" || t.isText "\x7d") :=
      reads_current.bind fun _ => reads_pure
    have body (pattern : Tree) : Reads k false (do
        let _ ← expect ":"
        let ss ← rounds (statementsFrom r (do
          let t ← current
          return t.isText "case" || t.isText "default" || t.isText "\x7d"))
        return .switchCase (markOf t) pattern ss :: (← casesFrom r k)) := by
      refine reads_expect.bind fun _ => ?_
      refine (reads_rounds fun _ hj => reads_statementsFrom h ends (Nat.le_trans hj less)).bind fun _ => ?_
      exact (ih (Nat.le_succ_of_le less)).bind fun _ => reads_pure
    refine .accept (((reads_ternary h).le (Nat.le_succ_of_le less)).bind body) ?_
    exact .accept (reads_pure.bind body) fun _ => .fail_bind nofun

theorem reads_wordStatement? (h : Progressive n r) {s : Input} (word : s.next.isWord = true)
    {p : Parser Tree} (begins : wordStatement? r s.next = some p) : ReadsAt (n + 1) b p s := by
  have here {f : Token → Parser Tree} (hf : ∀ t, Reads n false (f t)) :
      ReadsAt (n + 1) b (take >>= f) s :=
    .seq (.take (isEnd_of_isWord word)) hf
  have semicolon (e : Tree) : Reads n false (do let _ ← expect ";"; return e) :=
    reads_expect.bind fun _ => reads_pure
  unfold wordStatement? at begins
  split at begins
  case h_1 =>
    obtain rfl := Option.some.inj begins
    refine here fun _ => (reads_inParens h).low.bind fun _ => h.statement.bind fun _ => ?_
    exact reads_accept.bind fun _ => .join h.statement reads_pure fun _ => reads_pure
  case h_2 =>
    obtain rfl := Option.some.inj begins
    exact here fun _ => (reads_inParens h).low.bind fun _ => h.statement.bind fun _ => reads_pure
  case h_3 =>
    obtain rfl := Option.some.inj begins
    refine here fun _ => h.statement.bind fun _ => reads_expect.bind fun _ => ?_
    exact (reads_inParens h).low.bind fun _ => semicolon _
  case h_4 =>
    obtain rfl := Option.some.inj begins
    exact here fun _ => (reads_forStatement h _).low
  case h_5 =>
    obtain rfl := Option.some.inj begins
    exact here fun _ => (reads_tryStatement h _).low
  case h_6 =>
    obtain rfl := Option.some.inj begins
    refine here fun _ => (reads_inParens h).low.bind fun _ => reads_expect.bind fun _ => ?_
    exact (reads_rounds fun _ hk => reads_casesFrom h (Nat.le_succ_of_le hk)).bind fun _ => reads_pure
  case h_7 =>
    obtain rfl := Option.some.inj begins
    exact here fun _ => (reads_inParens h).low.bind fun _ => (reads_block h).low.bind fun _ => reads_pure
  case h_8 =>
    obtain rfl := Option.some.inj begins
    refine here fun _ => reads_isNext.bind fun _ => ?_
    exact .join reads_pure (reads_expression h).low fun _ => semicolon _
  case h_9 =>
    obtain rfl := Option.some.inj begins
    exact here fun _ => (reads_expression h).low.bind fun _ => semicolon _
  case h_10 | h_11 =>
    obtain rfl := Option.some.inj begins
    refine here fun _ => reads_current.bind fun _ => .ite (fun _ => ?_) fun _ => ?_
    · exact reads_take.bind fun _ => reads_pure.bind fun _ => semicolon _
    · exact reads_pure.bind fun _ => semicolon _
  case h_12 =>
    obtain rfl := Option.some.inj begins
    exact .fail nofun
  case h_13 => exact nomatch begins

theorem reads_statement (h : Progressive n r) : Reads (n + 1) b (statement r) := by
  refine fun s => .current ?_
  dsimp only
  split
  · next p known =>
    by_cases word : s.next.isWord = true
    · rw [if_pos word] at known
      exact reads_wordStatement? h word known
    · rw [if_neg word] at known
      exact nomatch known
  · refine .isAhead fun _ => .ite (fun both => ?_) fun _ => .ite (fun _ => reads_block h s) fun _ => ?_
    · have named := isEnd_of_isName (Bool.and_eq_true_iff.mp both).1
      exact .seq (.take named) fun _ => reads_take.bind fun _ => h.statement.bind fun _ => reads_pure
    · refine .ite (fun hx => .taken hx fun _ => reads_pure) fun _ => ?_
      exact .seq (reads_expression h s) fun _ => reads_expect.bind fun _ => reads_pure

theorem reads_isLocalClass (h : Progressive n r) : Reads (n + 1) false (isLocalClass r) := by
  refine reads_current.bind fun t => .ite (fun _ => reads_pure) fun _ => ?_
  refine .ite (fun _ => reads_succeeds (b := false) ?_) fun _ => reads_pure
  refine (reads_modifiers h).bind fun _ => reads_isTypeDeclaration.bind fun _ => ?_
  exact .ite (fun _ => reads_current.bind fun _ _ => .fail nofun) fun _ => reads_pure

theorem reads_blockStatement (h : Progressive n r) : Reads (n + 1) b (blockStatement r) := by
  have one : Reads (n + 1) b (do return [← statement r]) :=
    (reads_statement h).seq fun _ => reads_pure
  refine reads_isNext.bind fun _ => reads_isAhead.bind fun _ => .ite (fun _ => one) fun _ => ?_
  refine (reads_isLocalClass h).bind fun _ => .ite (fun _ => ?_) fun _ => ?_
  · exact (reads_modifiers h).bind fun x => (reads_typeDeclaration _ _ _ h).seq fun _ => reads_pure
  · refine (reads_isLocalDeclaration h).bind fun _ => .ite (fun _ => ?_) fun _ => one
    exact (reads_localVariables h).seq fun _ => reads_expect.bind fun _ => reads_pure

end Rules

/-! ## Texts -/

/-- As many nestings of the rules as there are tokens are enough. -/
theorem progressive_rules (n : Nat) : Progressive n (rules n) := by
  induction n with
  | zero =>
    exact ⟨.zero, .zero, .zero, .zero, fun _ => .zero, .zero, .zero, .zero, fun _ => .zero⟩
  | succ n ih =>
    exact ⟨reads_type ih, reads_elementValue ih, reads_expression ih, reads_ternary ih,
      reads_binary ih, reads_unary ih, reads_statement ih, reads_blockStatement ih,
      reads_member ih⟩

theorem reads_importsFrom (n : Nat) : Reads n false (importsFrom n) := by
  induction n with
  | zero => exact .zero
  | succ n ih =>
    refine fun s => .isNext (.ite (fun hx => ?_) fun _ => .pure)
    refine .taken hx fun kw => reads_accept.bind fun isStatic => reads_qualifiedName.bind fun q => ?_
    have rest (q : Tree) : Reads n false (do
        let _ ← expect ";"
        return Tree.importDecl (markOf kw) isStatic q :: (← importsFrom n)) :=
      reads_expect.bind fun _ => ih.bind fun _ => reads_pure
    refine reads_accept.bind fun _ => .ite (fun _ => ?_) fun _ => reads_pure.bind rest
    exact reads_expect.bind fun _ => reads_pure.bind rest

section Rules

variable {n k : Nat} {r : Rules}

theorem reads_declarationsFrom (h : Progressive n r) (hk : k ≤ n + 1) :
    Reads k false (declarationsFrom r k) := by
  induction k with
  | zero => exact .zero
  | succ k ih =>
    have less : k ≤ n + 1 := Nat.le_of_succ_le hk
    refine reads_atEnd.bind fun _ => .ite (fun _ => reads_pure) fun _ => .accept (ih less) ?_
    refine ((reads_modifiers h).le hk).bind fun x => ((reads_typeDeclaration _ _ _ h).le hk).seq fun _ => ?_
    exact (ih less).bind fun _ => reads_pure

theorem reads_compilationUnit (h : Progressive n r) (file : String) :
    Reads (n + 1) false (compilationUnit r file) := by
  refine reads_current.bind fun start => reads_accept.bind fun _ => ?_
  have rest (package : Tree) : Reads (n + 1) false (do
      let imports ← rounds importsFrom
      let defs ← rounds (declarationsFrom r)
      return Tree.unit (markOf start) file package imports defs) :=
    (reads_rounds fun k _ => reads_importsFrom k).bind fun _ =>
      (reads_rounds fun _ hk => reads_declarationsFrom h hk).bind fun _ => reads_pure
  refine .ite (fun _ => ?_) fun _ => reads_pure.bind rest
  exact reads_qualifiedName.bind fun _ => reads_expect.bind fun _ => reads_pure.bind rest

theorem reads_onlyExpression (h : Progressive n r) : Reads (n + 1) false (onlyExpression r) :=
  (reads_expression h).bind fun _ => reads_current.bind fun _ =>
    .ite (fun _ => reads_pure) fun _ _ => .unexpected

theorem reads_allStatements (h : Progressive n r) (hk : k ≤ n + 1) :
    Reads k false (allStatements r k) := by
  induction k with
  | zero => exact .zero
  | succ k ih =>
    refine reads_atEnd.bind fun _ => .ite (fun _ => reads_pure) fun _ => ?_
    refine ((reads_blockStatement h).le hk).seq fun _ => ?_
    exact (ih (Nat.le_of_succ_le hk)).bind fun _ => reads_pure

end Rules

/-- What reading a text comes to: a value, or a fault other than a want of rounds, or nothing, and
this exactly where the reader of tokens gets to a quote that is the last character of the text. -/
structure Answers {α : Type} (text : List Glyph) (r : Except LexFailure α) : Prop where
  malformed : ∀ e, r = .error (.malformed e) → e.fault ≠ .tooDeep
  broken : r = .error .broken ↔ Source.Lexer.Breaks (Scanner.start text)
  last : r = .error .broken →
    text.getLast? = some (.char '"') ∨ text.getLast? = some (.char '\'')

theorem closed_of_ended {ts : List Token} (h : Source.Lexer.Ended ts) :
    Input.Closed ⟨ts.dropLast, ts.getLastD Token.atEnd⟩ := by
  obtain ⟨init, last, rfl, inner, isEnd⟩ := h
  refine ⟨?_, ?_⟩
  · rwa [List.dropLast_concat]
  · rwa [List.getLastD_concat]

/-- A rule of the grammar that gets on answers for every text. -/
theorem run_answers {α : Type} {rule : Rules → Parser α}
    (h : ∀ n r, Progressive n r → Reads (n + 1) false (rule r)) (text : List Glyph) :
    Answers text (run rule text) := by
  have lexed := Source.tokens_answers text
  unfold run
  cases read : tokens text with
  | error e =>
    rw [read] at lexed
    refine ⟨fun e' same => lexed.malformed e' ?_, ?_, fun same => ?_⟩
    · cases same
      rfl
    · rw [← lexed.broken]
      exact ⟨fun same => by cases same; rfl, fun same => by cases same; rfl⟩
    · refine Source.Lexer.getLast?_of_breaks (lexed.broken.mp ?_)
      cases same
      rfl
  | ok ts =>
    rw [read] at lexed
    have few : ts.dropLast.length < ts.length + 1 + 1 := by
      rw [List.length_dropLast]
      omega
    have gets := h _ _ (progressive_rules (ts.length + 1))
      ⟨ts.dropLast, ts.getLastD Token.atEnd⟩ (closed_of_ended (lexed.ok ts rfl)) few
    have whole : ¬ Source.Lexer.Breaks (Scanner.start text) := fun here =>
      nomatch lexed.broken.mpr here
    dsimp only [Bind.bind, Except.bind]
    split
    · exact ⟨nofun, iff_of_false nofun whole, nofun⟩
    · next e failed =>
      rw [failed] at gets
      refine ⟨fun e' same => ?_, iff_of_false nofun whole, nofun⟩
      cases same
      exact gets

/-- Every sequence of bytes is read to an answer, as tokens, as a compilation unit, as an expression
and as statements. The tokens end with the only end of the text among them. Each rule of the grammar
takes a token or fails. -/
theorem reading_answers (bytes : List UInt8) (file : String) :
    let text := Glyph.decode bytes
    Source.Lexer.Answers (Scanner.start text) (tokens text) ∧ Answers text (unit file text) ∧
      Answers text (expressionOf text) ∧ Answers text (statementsOf text) ∧
      ∀ n, Progressive n (rules n) :=
  ⟨Source.tokens_answers _,
    run_answers (fun _ _ h => reads_compilationUnit h file) _,
    run_answers (fun _ _ h => reads_onlyExpression h) _,
    run_answers (fun _ _ h => reads_rounds fun _ hk => reads_allStatements h hk) _,
    progressive_rules⟩

/-- The reader breaks although it has met a fault before: the comment before the last quote has a
NUL in it, and no token is read in between. -/
theorem nulThenQuote_breaks :
    let text := Glyph.decode [0x2f, 0x2a, 0x00, 0x2a, 0x2f, 0x22]
    expressionOf text = .error .broken ∧
      (Source.Lexer.behindBlanks (Scanner.start text)).fault =
        some ⟨.nulCharacter, ⟨1, 1⟩⟩ :=
  ⟨rfl, rfl⟩

end Weaver.Parse
