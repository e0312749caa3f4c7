import Weaver.Proofs.Parse.Operand
/-!
The parser makes phrases.

Each rule for statements and declarations yields phrases if the rules it calls do. An induction on
the number of tokens then covers the recursion of the grammar. So the trees of a text are phrases,
and proper.
-/
set_option autoImplicit false

namespace Weaver.Parse

open Weaver.Source (Token LexFailure)
open Weaver.Syntax (Tree Flags Mark TypeTag)
open Weaver.Syntax.Tree
open Weaver.Text (Glyph IsSegment)

section Rules

variable {r : Rules}

/-! ## Variables -/

theorem yields_modifiersNode (h : Sound r) : Yields (modifiersNode r) (Phrase .modifiers) :=
  (yields_modifiers h).bind fun _ annos => .pure (.modifiers annos)

theorem yields_initializer (h : Sound r) : Yields (initializer r) (Phrase .initializer) :=
  yields_rounds (yields_initializerFrom h)

theorem yields_declaratorsFrom (h : Sound r) {mods type : Tree} (hm : Phrase .modifiers mods)
    (ht : TypeForm .type type) (n : Nat) (start : Token) :
    Yields (declaratorsFrom r mods type n start) (Phrases .varDecl) := by
  induction n generalizing start with
  | zero => exact yields_outOfRounds
  | succ n ih =>
    refine (yields_typeBrackets ht).bind fun t form => (yields_accept "=").bind fun _ _ => ?_
    refine .join (P := Phrase (.optional .initializer))
      ((yields_initializer h).mono fun _ => .present) (.pure .absent) fun init phrase => ?_
    have here : Phrase .varDecl (.varDecl (markOf start) start.text mods t init) :=
      .varDecl hm form phrase
    refine (yields_accept ",").bind fun _ _ => .ite (fun _ => ?_) fun _ => .pure (.singleton here)
    exact yields_name.bind fun next _ => (ih next).bind fun vs others => .pure (.cons here others)

theorem yields_declarators (h : Sound r) {mods type : Tree} (hm : Phrase .modifiers mods)
    (ht : TypeForm .type type) (start : Token) :
    Yields (declarators r mods type start) (Phrases .varDecl) :=
  yields_rounds fun n => yields_declaratorsFrom h hm ht n start

theorem yields_localVariables (h : Sound r) : Yields (localVariables r) (Phrases .statement) := by
  refine (yields_modifiersNode h).bind fun _ hm => (yields_type h).bind fun _ ht => ?_
  refine yields_name.bind fun start _ => (yields_declarators h hm ht start).mono fun _ all => ?_
  exact fun v hv => .ofVarDecl (all v hv)

theorem yields_parameter (h : Sound r) : Yields (parameter r) fun x => Phrase .parameter x.1 := by
  refine (yields_modifiers h).bind fun x annos => (yields_type h).bind fun t form => ?_
  refine (yields_isNext "...").bind fun more _ => ?_
  have rest (t : Tree) (form : TypeForm .type t) : Yields (do
      let start ← name
      let t ← withBrackets t
      let flags := if more then x.2.1.union .varargsFlag else x.2.1
      return (Tree.varDecl (markOf start) start.text (.modifiers x.1 flags x.2.2) t .missing, more))
      fun x => Phrase .parameter x.1 :=
    yields_name.bind fun start _ => (yields_typeBrackets form).bind fun t form =>
      .pure (.parameter (.modifiers annos) form)
  refine .ite (fun _ => yields_take.bind fun dots _ => ?_) fun _ => (Yields.pure form).bind rest
  exact (Yields.pure (P := TypeForm .type) (a := .arrayType (markOf dots) t) (.array form)).bind rest

theorem yields_parametersFrom (h : Sound r) (n : Nat) :
    Yields (parametersFrom r n) (Phrases .parameter) := by
  induction n with
  | zero => exact yields_outOfRounds
  | succ n ih =>
    refine (yields_isNext ")").bind fun _ _ => .ite (fun _ => .pure .nil) fun _ => ?_
    refine (yields_parameter h).bind fun x here => .ite (fun _ => .pure (.singleton here)) fun _ => ?_
    refine (yields_accept ",").bind fun _ _ => .ite (fun _ => ?_) fun _ => .pure (.singleton here)
    exact ih.bind fun ps others => .pure (.cons here others)

theorem yields_parameters (h : Sound r) : Yields (parameters r) (Phrases .parameter) := by
  refine (yields_expect "(").bind fun _ _ => (yields_rounds (yields_parametersFrom h)).bind
    fun ps all => ?_
  exact (yields_expect ")").bind fun _ _ => .pure all

/-! ## Blocks -/

theorem yields_statementsFrom (h : Sound r) {ends : Parser Bool} (he : Yields ends fun _ => True)
    (n : Nat) : Yields (statementsFrom r ends n) (Phrases .statement) := by
  induction n with
  | zero => exact yields_outOfRounds
  | succ n ih =>
    refine he.bind fun _ _ => .ite (fun _ => .pure .nil) fun _ => yields_atEnd.bind fun _ _ => ?_
    refine .ite (fun _ => ?_) fun _ => ?_
    · exact yields_current.bind fun t _ => (yields_unexpected t _ (P := fun _ => False)).bind
        fun _ => False.elim
    · exact h.blockStatement.bind fun ss here => ih.bind fun ss' others =>
        .pure (here.append others)

theorem yields_blockWith (h : Sound r) (flags : Flags) :
    Yields (blockWith r flags) fun b => ∃ m ss, b = .block m flags ss ∧ Phrases .statement ss := by
  refine (yields_expect "\x7b").bind fun t _ => ?_
  refine (yields_rounds (yields_statementsFrom h (yields_isNext "\x7d"))).bind fun ss all => ?_
  exact (yields_expect "\x7d").bind fun _ _ => .pure ⟨_, _, rfl, all⟩

theorem yields_block (h : Sound r) : Yields (block r) (Phrase .body) := by
  refine (yields_blockWith h .empty).mono ?_
  rintro _ ⟨m, ss, rfl, all⟩
  exact .body all

theorem yields_initBlock (h : Sound r) (flags : Flags) :
    Yields (blockWith r flags) (Phrase .member) := by
  refine (yields_blockWith h flags).mono ?_
  rintro _ ⟨m, ss, rfl, all⟩
  exact .initBlock all

/-! ## Type declarations -/

theorem yields_isTypeDeclaration : Yields isTypeDeclaration fun _ => True :=
  yields_current.bind fun _ _ => (yields_isAhead 1 "interface").bind fun _ _ => .pure trivial

section Annotated

variable {m : Mark} {flags : Flags} {annos : List Tree}

theorem yields_classDeclaration (h : Sound r) (ha : Phrases .anno annos) :
    Yields (classDeclaration r m flags annos) (Phrase .declaration) := by
  refine (yields_expect "class").bind fun kw _ => yields_name.bind fun n _ => ?_
  refine (yields_typeParameters h).bind fun params hp => (yields_accept "extends").bind fun _ _ => ?_
  refine .join (P := Phrase (.optional .type)) ((yields_type h).mono fun _ form => .present (.type form))
    (.pure .absent) fun ext he => (yields_accept "implements").bind fun _ _ => ?_
  refine .join (yields_typeList h) (.pure (List.forall_mem_nil _)) fun impl hi => ?_
  refine (yields_classBody h n.text).bind fun defs hd => .pure ?_
  exact .classDecl (.modifiers ha) hp he hi hd

theorem yields_interfaceDeclaration (h : Sound r) (ha : Phrases .anno annos) :
    Yields (interfaceDeclaration r m flags annos) (Phrase .declaration) := by
  refine (yields_expect "interface").bind fun kw _ => yields_name.bind fun n _ => ?_
  refine (yields_typeParameters h).bind fun params hp => (yields_accept "extends").bind fun _ _ => ?_
  refine .join (yields_typeList h) (.pure (List.forall_mem_nil _)) fun ext he => ?_
  refine (yields_classBody h n.text).bind fun defs hd => .pure ?_
  exact .classDecl (.modifiers ha) hp .absent he hd

theorem yields_annotationsFrom (h : Sound r) (n : Nat) :
    Yields (annotationsFrom r n) (Phrases .anno) := by
  induction n with
  | zero => exact yields_outOfRounds
  | succ n ih =>
    refine (yields_isNext "@").bind fun _ _ => .ite (fun _ => ?_) fun _ => .pure .nil
    exact (yields_annoUse h).bind fun a here => ih.bind fun as others => .pure (.cons here others)

theorem yields_enumConstant (h : Sound r) {enumName : String} (he : IsTypeName enumName) :
    Yields (enumConstant r enumName) (Phrase .member) := by
  refine (yields_rounds (yields_annotationsFrom h)).bind fun as has => yields_name.bind fun t _ => ?_
  refine (yields_isNext "(").bind fun _ _ => ?_
  refine .join (yields_arguments h) (.pure .nil) fun args hargs => ?_
  refine (yields_anonymousBody h).bind fun body hb => .pure ?_
  have class_ : TypeForm .reference (.ident (markOf t) enumName) := .plain (.ident he)
  exact .field (.varDecl (.modifiers has) (.reference class_)
    (.present (.value (.newObject .absent class_ hargs hb))))

theorem yields_enumDeclaration (h : Sound r) (ha : Phrases .anno annos) :
    Yields (enumDeclaration r m flags annos) (Phrase .declaration) := by
  refine (yields_expect "enum").bind fun kw _ => yields_typeName.bind fun n named => ?_
  refine (yields_accept "implements").bind fun _ _ => ?_
  refine .join (yields_typeList h) (.pure (List.forall_mem_nil _)) fun impl hi => ?_
  refine (yields_expect "\x7b").bind fun _ _ => ?_
  have closes : Yields (do
      let t ← current
      return t.isText ";" || t.isText "\x7d") fun _ => True :=
    yields_current.bind fun _ _ => .pure trivial
  refine (yields_before (yields_enumConstant h named) closes).bind fun constants hc => ?_
  refine (yields_accept ";").bind fun _ _ => ?_
  refine .join (yields_rounds (yields_membersFrom (h.member n.text))) (.pure .nil) fun others ho => ?_
  refine (yields_expect "\x7d").bind fun _ _ => .pure ?_
  exact .classDecl (.modifiers ha) (List.forall_mem_nil _) .absent hi (hc.append ho)

theorem yields_skipBraces (typeName : String) (n depth : Nat) :
    Yields (skipBraces typeName n depth) fun _ => True := by
  induction n generalizing depth with
  | zero => exact yields_outOfRounds
  | succ n ih =>
    refine yields_take.bind fun t _ => .ite (fun _ => yields_failAt t _) fun _ => ?_
    refine .ite (fun _ => ih _) fun _ => .ite (fun _ => ?_) fun _ => ih _
    exact .ite (fun _ => .pure trivial) fun _ => ih _

theorem yields_annotationTypeDeclaration (ha : Phrases .anno annos) :
    Yields (annotationTypeDeclaration m flags annos) (Phrase .declaration) := by
  refine (yields_expect "@").bind fun _ _ => (yields_expect "interface").bind fun _ _ => ?_
  refine yields_name.bind fun n _ => (yields_expect "\x7b").bind fun _ _ => ?_
  refine (yields_rounds fun k => yields_skipBraces n.text k 1).bind fun _ _ => .pure ?_
  exact .classDecl (.modifiers ha) (List.forall_mem_nil _) .absent (List.forall_mem_nil _)
    (List.forall_mem_nil _)

theorem yields_typeDeclaration (h : Sound r) (ha : Phrases .anno annos) :
    Yields (typeDeclaration r m flags annos) (Phrase .declaration) := by
  refine yields_current.bind fun t _ => ?_
  refine .ite (fun _ => yields_classDeclaration h ha) fun _ => ?_
  refine .ite (fun _ => yields_interfaceDeclaration h ha) fun _ => ?_
  refine .ite (fun _ => yields_enumDeclaration h ha) fun _ => ?_
  refine (yields_isAhead 1 "interface").bind fun _ _ => ?_
  exact .ite (fun _ => yields_annotationTypeDeclaration ha) fun _ => yields_unexpected t _

end Annotated

/-! ## Members -/

theorem yields_methodRest (h : Sound r) {mods : Tree} {params : List Tree}
    (hm : Phrase .modifiers mods) (hp : Phrases .typeParameter params) {result : Tree}
    (hr : Phrase (.optional .type) result) (name : String) (start : Token) :
    Yields (methodRest r mods params result name start) (Phrase .member) := by
  refine (yields_parameters h).bind fun formals hf => ?_
  have body (result : Tree) (hr : Phrase (.optional .type) result) (thrown : List Tree)
      (ht : ∀ t ∈ thrown, TypeForm .type t) : Yields (do
        let body ← if ← accept ";" then pure .missing else block r
        return .methodDecl (markOf start) name mods params result formals thrown body)
      (Phrase .member) := by
    refine (yields_accept ";").bind fun _ _ => ?_
    refine .join (P := Phrase (.optional .body)) (.pure .absent)
      ((yields_block h).mono fun _ => .present) fun body hb => .pure ?_
    exact .methodDecl hm hp hr hf ht hb
  have after (result : Tree) (hr : Phrase (.optional .type) result) : Yields (do
      let thrown ← if ← accept "throws" then typeList r else pure []
      if ← accept "default" then
        let _ ← elementValue r
      let body ← if ← accept ";" then pure .missing else block r
      return .methodDecl (markOf start) name mods params result formals thrown body)
      (Phrase .member) := by
    refine (yields_accept "throws").bind fun _ _ => ?_
    refine .join (yields_typeList h) (.pure (List.forall_mem_nil _)) fun thrown ht => ?_
    refine (yields_accept "default").bind fun _ _ => .ite (fun _ => ?_) fun _ => body result hr _ ht
    exact (yields_elementValue h).bind fun _ _ => body result hr _ ht
  cases hr with
  | absent => exact (Yields.pure .absent).bind after
  | present here =>
    have form : TypeForm .type result := by
      cases here
      assumption
    have bracketed : Yields (withBrackets result) (Phrase (.optional .type)) :=
      (yields_typeBrackets form).mono fun _ form => .present (.type form)
    cases result
    case missing => exact nomatch form
    all_goals exact bracketed.bind after

theorem yields_methodOrFields (h : Sound r) {mods : Tree} (hm : Phrase .modifiers mods)
    (className : String) : Yields (methodOrFields r className mods) (Phrases .member) := by
  refine (yields_typeParameters h).bind fun params hp => yields_current.bind fun start _ => ?_
  refine (yields_isAhead 1 "(").bind fun _ _ => .ite (fun _ => ?_) fun _ => ?_
  · refine yields_take.bind fun _ _ => ?_
    exact (yields_methodRest h hm hp .absent _ start).bind fun d hd => .pure (.singleton hd)
  · have after (result : Tree) (form : TypeForm .type result) : Yields (do
        let n ← name
        if ← isNext "(" then return [← methodRest r mods params result n.text n]
        else if !params.isEmpty then
          failAt n (.unexpected (← current).shown "\"(\"")
        else
          let vars ← declarators r mods result n
          let _ ← expect ";"
          return vars) (Phrases .member) := by
      refine yields_name.bind fun n _ => (yields_isNext "(").bind fun _ _ => ?_
      refine .ite (fun _ => ?_) fun _ => .ite (fun _ => ?_) fun _ => ?_
      · refine (yields_methodRest h hm hp (.present (.type form)) _ n).bind fun d hd => ?_
        exact .pure (.singleton hd)
      · exact yields_current.bind fun _ _ => yields_failAt n _
      · refine (yields_declarators h hm form n).bind fun vars hv => ?_
        exact (yields_expect ";").bind fun _ _ => .pure fun v member => .field (hv v member)
    refine .ite (fun _ => yields_take.bind fun _ _ => ?_) fun _ => (yields_type h).bind after
    have void : TypeForm .type (.primitive (markOf start) .void) := .primitive (by decide)
    exact (Yields.pure void).bind after

theorem yields_member (h : Sound r) (className : String) :
    Yields (member r className) (Phrases .member) := by
  refine (yields_isNext "\x7b").bind fun _ _ => .ite (fun _ => ?_) fun _ => ?_
  · exact (yields_initBlock h _).bind fun b hb => .pure (.singleton hb)
  refine (yields_isNext "static").bind fun _ _ => (yields_isAhead 1 "\x7b").bind fun _ _ => ?_
  refine .ite (fun _ => ?_) fun _ => ?_
  · refine yields_take.bind fun _ _ => ?_
    exact (yields_initBlock h _).bind fun b hb => .pure (.singleton hb)
  · refine (yields_modifiers h).bind fun x annos => yields_isTypeDeclaration.bind fun _ _ => ?_
    refine .ite (fun _ => ?_) fun _ => yields_methodOrFields h (.modifiers annos) className
    exact (yields_typeDeclaration h annos).bind fun d hd => .pure (.singleton (.inner hd))

/-! ## Statements -/

theorem yields_inParens (h : Sound r) : Yields (inParens r) (Phrase .expression) :=
  (yields_expect "(").bind fun _ _ => (yields_expression h).bind fun _ he =>
    (yields_expect ")").bind fun _ _ => .pure he

theorem yields_execClause (h : Sound r) : Yields (execClause r) (Phrase .exec) :=
  yields_current.bind fun _ _ => (yields_expression h).bind fun _ he => .pure (.exec he)

theorem yields_execClauses (h : Sound r) :
    Yields (rounds (commaSeparated (execClause r))) (Phrases .exec) :=
  yields_separated (yields_execClause h)

theorem yields_isLocalDeclaration : Yields (isLocalDeclaration r) fun _ => True :=
  yields_succeeds _

theorem yields_forStatement (h : Sound r) (kw : Token) :
    Yields (forStatement r kw) (Phrase .statement) := by
  refine (yields_expect "(").bind fun _ _ => (yields_succeeds _).bind fun _ _ => ?_
  refine .ite (fun _ => ?_) fun _ => ?_
  · refine (yields_modifiersNode h).bind fun mods hm => (yields_type h).bind fun t ht => ?_
    refine yields_name.bind fun n _ => (yields_expect ":").bind fun _ _ => ?_
    refine (yields_expression h).bind fun source hs => (yields_expect ")").bind fun _ _ => ?_
    exact h.statement.bind fun body hb => .pure (.foreachLoop (.parameter hm ht) hs hb)
  · have step (init : List Tree) (hi : Phrases .statement init) (cond : Tree)
        (hc : Phrase (.optional .expression) cond) : Yields (do
          let _ ← expect ";"
          let step ← if ← isNext ")" then pure [] else rounds (commaSeparated (execClause r))
          let _ ← expect ")"
          let body ← r.statement
          return .forLoop (markOf kw) init cond step body) (Phrase .statement) := by
      refine (yields_expect ";").bind fun _ _ => (yields_isNext ")").bind fun _ _ => ?_
      refine .join (.pure .nil) (yields_execClauses h) fun step hs => ?_
      refine (yields_expect ")").bind fun _ _ => h.statement.bind fun body hb => .pure ?_
      exact .forLoop hi hc hs hb
    have cond (init : List Tree) (hi : Phrases .statement init) : Yields (do
        let _ ← expect ";"
        let cond ← if ← isNext ";" then pure .missing else expression r
        let _ ← expect ";"
        let step ← if ← isNext ")" then pure [] else rounds (commaSeparated (execClause r))
        let _ ← expect ")"
        let body ← r.statement
        return .forLoop (markOf kw) init cond step body) (Phrase .statement) := by
      refine (yields_expect ";").bind fun _ _ => (yields_isNext ";").bind fun _ _ => ?_
      exact .join (.pure .absent) ((yields_expression h).mono fun _ => .present) (step init hi)
    refine (yields_isNext ";").bind fun _ _ => yields_isLocalDeclaration.bind fun _ _ => ?_
    refine .ite (fun _ => (Yields.pure .nil).bind cond) fun _ => ?_
    refine .join (yields_localVariables h) ((yields_execClauses h).mono fun _ all => ?_) cond
    exact fun e he => .ofExec (all e he)

theorem yields_catchesFrom (h : Sound r) (n : Nat) :
    Yields (catchesFrom r n) (Phrases .catchClause) := by
  induction n with
  | zero => exact yields_outOfRounds
  | succ n ih =>
    refine (yields_isNext "catch").bind fun _ _ => .ite (fun _ => ?_) fun _ => .pure .nil
    refine yields_take.bind fun kw _ => (yields_expect "(").bind fun _ _ => ?_
    refine (yields_modifiersNode h).bind fun mods hm => (yields_type h).bind fun t ht => ?_
    refine yields_name.bind fun v _ => (yields_expect ")").bind fun _ _ => ?_
    refine (yields_block h).bind fun body hb => ih.bind fun others ho => .pure ?_
    exact .cons (.catchClause (.parameter hm ht) hb) ho

theorem yields_tryStatement (h : Sound r) (kw : Token) :
    Yields (tryStatement r kw) (Phrase .statement) := by
  refine (yields_block h).bind fun body hb => ?_
  refine (yields_rounds (yields_catchesFrom h)).bind fun catches hc => ?_
  refine (yields_accept "finally").bind fun _ _ => ?_
  refine .join (P := Phrase (.optional .body)) ((yields_block h).mono fun _ => .present)
    (.pure .absent) fun final hf => ?_
  refine .ite (fun _ => ?_) fun _ => .pure (.tryCatch hb hc hf)
  exact yields_current.bind fun t _ => (yields_failAt t _ (P := fun _ => False)).bind
    fun _ => False.elim

theorem yields_casesFrom (h : Sound r) (n : Nat) :
    Yields (casesFrom r n) (Phrases .switchCase) := by
  induction n with
  | zero => exact yields_outOfRounds
  | succ n ih =>
    refine (yields_accept "\x7d").bind fun _ _ => .ite (fun _ => .pure .nil) fun _ =>
      yields_current.bind fun t _ => ?_
    have ends : Yields (do
        let t ← current
        return t.isText "case" || t.isText "default" || t.isText "\x7d") fun _ => True :=
      yields_current.bind fun _ _ => .pure trivial
    have body (pattern : Tree) (hp : Phrase (.optional .expression) pattern) : Yields (do
        let _ ← expect ":"
        let ss ← rounds (statementsFrom r (do
          let t ← current
          return t.isText "case" || t.isText "default" || t.isText "\x7d"))
        return .switchCase (markOf t) pattern ss :: (← casesFrom r n)) (Phrases .switchCase) := by
      refine (yields_expect ":").bind fun _ _ => ?_
      refine (yields_rounds (yields_statementsFrom h ends)).bind fun ss hs => ?_
      exact ih.bind fun others ho => .pure (.cons (.switchCase hp hs) ho)
    refine (yields_accept "case").bind fun _ _ => .ite (fun _ => ?_) fun _ => ?_
    · exact (yields_ternary h).bind fun e he => body e (.present he)
    refine (yields_accept "default").bind fun _ _ => ?_
    exact .join (.pure .absent) (yields_unexpected t _) body

theorem yields_wordStatement? (h : Sound r) (t : Token) {p : Parser Tree}
    (begins : wordStatement? r t = some p) : Yields p (Phrase .statement) := by
  unfold wordStatement? at begins
  split at begins
  case h_1 =>
    obtain rfl := Option.some.inj begins
    refine yields_take.bind fun _ _ => (yields_inParens h).bind fun cond hc => ?_
    refine h.statement.bind fun yes hy => (yields_accept "else").bind fun _ _ => ?_
    refine .join (P := Phrase (.optional .statement)) (h.statement.mono fun _ => .present)
      (.pure .absent) fun no hn => ?_
    exact .pure (.ifThen hc hy hn)
  case h_2 =>
    obtain rfl := Option.some.inj begins
    refine yields_take.bind fun _ _ => (yields_inParens h).bind fun cond hc => ?_
    exact h.statement.bind fun body hb => .pure (.whileLoop hc hb)
  case h_3 =>
    obtain rfl := Option.some.inj begins
    refine yields_take.bind fun _ _ => h.statement.bind fun body hb => ?_
    refine (yields_expect "while").bind fun _ _ => (yields_inParens h).bind fun cond hc => ?_
    exact (yields_expect ";").bind fun _ _ => .pure (.doLoop hb hc)
  case h_4 =>
    obtain rfl := Option.some.inj begins
    exact yields_take.bind fun _ _ => yields_forStatement h t
  case h_5 =>
    obtain rfl := Option.some.inj begins
    exact yields_take.bind fun _ _ => yields_tryStatement h t
  case h_6 =>
    obtain rfl := Option.some.inj begins
    refine yields_take.bind fun _ _ => (yields_inParens h).bind fun selector hs => ?_
    refine (yields_expect "\x7b").bind fun _ _ => ?_
    exact (yields_rounds (yields_casesFrom h)).bind fun cases_ hc => .pure (.switchOn hs hc)
  case h_7 =>
    obtain rfl := Option.some.inj begins
    refine yields_take.bind fun _ _ => (yields_inParens h).bind fun lock hl => ?_
    exact (yields_block h).bind fun body hb => .pure (.synchronizedOn hl hb)
  case h_8 =>
    obtain rfl := Option.some.inj begins
    refine yields_take.bind fun _ _ => (yields_isNext ";").bind fun _ _ => ?_
    refine .join (P := Phrase (.optional .expression)) (.pure .absent)
      ((yields_expression h).mono fun _ => .present) fun e he => ?_
    exact (yields_expect ";").bind fun _ _ => .pure (.returning he)
  case h_9 =>
    obtain rfl := Option.some.inj begins
    refine yields_take.bind fun _ _ => (yields_expression h).bind fun e he => ?_
    exact (yields_expect ";").bind fun _ _ => .pure (.throwing he)
  case h_10 =>
    obtain rfl := Option.some.inj begins
    refine yields_take.bind fun _ _ => yields_current.bind fun _ _ => .ite (fun _ => ?_) fun _ => ?_
    · refine yields_take.bind fun _ _ => (Yields.pure (P := fun _ => True) trivial).bind fun _ _ => ?_
      exact (yields_expect ";").bind fun _ _ => .pure .breaking
    · refine (Yields.pure (P := fun _ => True) trivial).bind fun _ _ => ?_
      exact (yields_expect ";").bind fun _ _ => .pure .breaking
  case h_11 =>
    obtain rfl := Option.some.inj begins
    refine yields_take.bind fun _ _ => yields_current.bind fun _ _ => .ite (fun _ => ?_) fun _ => ?_
    · refine yields_take.bind fun _ _ => (Yields.pure (P := fun _ => True) trivial).bind fun _ _ => ?_
      exact (yields_expect ";").bind fun _ _ => .pure .continuing
    · refine (Yields.pure (P := fun _ => True) trivial).bind fun _ _ => ?_
      exact (yields_expect ";").bind fun _ _ => .pure .continuing
  case h_12 =>
    obtain rfl := Option.some.inj begins
    exact yields_failAt t _
  case h_13 => exact nomatch begins

theorem yields_statement (h : Sound r) : Yields (statement r) (Phrase .statement) := by
  refine yields_current.bind fun t _ => ?_
  dsimp only
  split
  · next p word =>
    by_cases isWord : t.isWord = true
    · rw [if_pos isWord] at word
      exact yields_wordStatement? h t word
    · rw [if_neg isWord] at word
      exact nomatch word
  · refine (yields_isAhead 1 ":").bind fun _ _ => .ite (fun _ => ?_) fun _ => ?_
    · refine yields_take.bind fun _ _ => yields_take.bind fun _ _ => ?_
      exact h.statement.bind fun body hb => .pure (.labeled hb)
    refine .ite (fun _ => (yields_block h).mono fun _ => .ofBody) fun _ => .ite (fun _ => ?_) fun _ => ?_
    · exact yields_take.bind fun _ _ => .pure .skip
    · refine (yields_expression h).bind fun e he => ?_
      exact (yields_expect ";").bind fun _ _ => .pure (.ofExec (.exec he))

theorem yields_isLocalClass : Yields (isLocalClass r) fun _ => True := by
  refine yields_current.bind fun t _ => .ite (fun _ => .pure trivial) fun _ => ?_
  exact .ite (fun _ => yields_succeeds _) fun _ => .pure trivial

theorem yields_blockStatement (h : Sound r) : Yields (blockStatement r) (Phrases .statement) := by
  have one : Yields (do return [← statement r]) (Phrases .statement) :=
    (yields_statement h).bind fun s hs => .pure (.singleton hs)
  refine (yields_isNext "synchronized").bind fun _ _ => (yields_isAhead 1 "(").bind fun _ _ => ?_
  refine .ite (fun _ => one) fun _ => yields_isLocalClass.bind fun _ _ => .ite (fun _ => ?_) fun _ => ?_
  · refine (yields_modifiers h).bind fun x annos => ?_
    exact (yields_typeDeclaration h annos).bind fun d hd => .pure (.singleton (.ofDeclaration hd))
  · refine yields_isLocalDeclaration.bind fun _ _ => .ite (fun _ => ?_) fun _ => one
    refine (yields_localVariables h).bind fun vars hv => ?_
    exact (yields_expect ";").bind fun _ _ => .pure hv

end Rules

/-! ## Texts -/

/-- All rules of the grammar yield phrases, however deep they are nested. -/
theorem sound_rules (n : Nat) : Sound (rules n) := by
  induction n with
  | zero =>
    exact ⟨yields_outOfRounds, yields_outOfRounds, yields_outOfRounds, yields_outOfRounds,
      fun _ => yields_outOfRounds, yields_outOfRounds, yields_outOfRounds, yields_outOfRounds,
      fun _ => yields_outOfRounds⟩
  | succ n ih =>
    exact ⟨yields_type ih, yields_elementValue ih, yields_expression ih, yields_ternary ih,
      yields_binary ih, yields_unary ih, yields_statement ih, yields_blockStatement ih,
      yields_member ih⟩

theorem yields_importsFrom (n : Nat) : Yields (importsFrom n) (Phrases .importation) := by
  induction n with
  | zero => exact yields_outOfRounds
  | succ n ih =>
    refine (yields_isNext "import").bind fun _ _ => .ite (fun _ => ?_) fun _ => .pure .nil
    refine yields_take.bind fun kw _ => (yields_accept "static").bind fun isStatic _ => ?_
    have rest (q : Tree) (hq : ∀ m, Phrase .importation (.importDecl m isStatic q)) : Yields (do
        let _ ← expect ";"
        return Tree.importDecl (markOf kw) isStatic q :: (← importsFrom n)) (Phrases .importation) :=
      (yields_expect ";").bind fun _ _ => ih.bind fun is others => .pure (.cons (hq _) others)
    refine yields_qualifiedName.bind fun q hq => (yields_accept ".").bind fun _ _ => ?_
    refine .ite (fun _ => ?_) fun _ => (Yields.pure fun _ => .importDecl hq).bind rest
    refine (yields_expect "*").bind fun star _ => ?_
    exact (Yields.pure (a := .select (markOf star) q "*") fun _ => .importAll hq).bind rest

section Rules

variable {r : Rules}

theorem yields_declarationsFrom (h : Sound r) (n : Nat) :
    Yields (declarationsFrom r n) (Phrases .declaration) := by
  induction n with
  | zero => exact yields_outOfRounds
  | succ n ih =>
    refine yields_atEnd.bind fun _ _ => .ite (fun _ => .pure .nil) fun _ => ?_
    refine (yields_accept ";").bind fun _ _ => .ite (fun _ => ih) fun _ => ?_
    refine (yields_modifiers h).bind fun x annos => (yields_typeDeclaration h annos).bind fun d hd => ?_
    exact ih.bind fun ds others => .pure (.cons hd others)

theorem yields_compilationUnit (h : Sound r) (file : String) : Yields (compilationUnit r file)
    fun t => Phrase .unit t ∧ ∃ m p is ds, t = .unit m file p is ds := by
  refine yields_current.bind fun start _ => (yields_accept "package").bind fun _ _ => ?_
  have rest (package : Tree) (hp : package = .missing ∨ TypeForm .path package) : Yields (do
      let imports ← rounds importsFrom
      let defs ← rounds (declarationsFrom r)
      return Tree.unit (markOf start) file package imports defs)
      fun t => Phrase .unit t ∧ ∃ m p is ds, t = .unit m file p is ds := by
    refine (yields_rounds yields_importsFrom).bind fun imports hi => ?_
    exact (yields_rounds (yields_declarationsFrom h)).bind fun defs hd =>
      .pure ⟨.unit hp hi hd, _, _, _, _, rfl⟩
  refine .ite (fun _ => ?_) fun _ => (Yields.pure (.inl rfl)).bind rest
  refine yields_qualifiedName.bind fun q hq => (yields_expect ";").bind fun _ _ => ?_
  exact (Yields.pure (.inr hq)).bind rest

theorem yields_onlyExpression (h : Sound r) : Yields (onlyExpression r) (Phrase .expression) := by
  refine (yields_expression h).bind fun e he => yields_current.bind fun t _ => ?_
  exact .ite (fun _ => .pure he) fun _ => yields_unexpected t _

theorem yields_allStatements (h : Sound r) (n : Nat) :
    Yields (allStatements r n) (Phrases .statement) := by
  induction n with
  | zero => exact yields_outOfRounds
  | succ n ih =>
    refine yields_atEnd.bind fun _ _ => .ite (fun _ => .pure .nil) fun _ => ?_
    exact (yields_blockStatement h).bind fun ss here => ih.bind fun ss' others =>
      .pure (here.append others)

end Rules

/-- What a rule yields, however deep the rules it calls are nested, is what a text gives. -/
theorem yields_run_rules {α : Type} {rule : Rules → Parser α} {P : α → Prop}
    (h : ∀ n, Yields (rule (rules n)) P) {text : List Glyph} {a : α}
    (read : run rule text = .ok a) : P a := by
  unfold run at read
  cases lexed : Source.tokens text with
  | error e => rw [lexed] at read; exact nomatch read
  | ok all =>
    rw [lexed] at read
    dsimp only [Bind.bind, Except.bind] at read
    split at read
    · next b s' parsed =>
      obtain rfl : b = a := Except.ok.inj read
      have worded := Source.worded_of_tokens lexed
      refine (h _ _ b s' ⟨?_, ?_⟩ parsed).1
      · exact fun t member => worded t ((List.dropLast_sublist all).subset member)
      · exact worded_last worded
    · exact nomatch read

/-- What the rules of the grammar yield is what a text gives. -/
theorem yields_run {α : Type} {rule : Rules → Parser α} {P : α → Prop}
    (h : ∀ r, Sound r → Yields (rule r) P) {text : List Glyph} {a : α}
    (read : run rule text = .ok a) : P a :=
  yields_run_rules (fun n => h _ (sound_rules n)) read

/-- A tree that the parser makes of a text. -/
inductive Made : Tree → Prop where
  | unit {file : String} {text : List Glyph} {t : Tree} (read : unit file text = .ok t) : Made t
  | expression {text : List Glyph} {t : Tree} (read : expressionOf text = .ok t) : Made t
  | statement {text : List Glyph} {ts : List Tree} {t : Tree} (read : statementsOf text = .ok ts)
      (member : t ∈ ts) : Made t

/-- Trees that the parser makes are phrases. -/
theorem Made.phrase {t : Tree} (h : Made t) : ∃ c, Phrase c t := by
  cases h with
  | @unit file text _ read => exact ⟨_, (yields_run (fun r h => yields_compilationUnit h file) read).1⟩
  | expression read => exact ⟨_, yields_run (fun r h => yields_onlyExpression h) read⟩
  | statement read member =>
    have all := yields_run (fun r h => yields_rounds (yields_allStatements h)) read
    exact ⟨_, all _ member⟩

/-- Trees that the parser makes are proper. -/
theorem Made.proper {t : Tree} (h : Made t) : t.Proper :=
  h.phrase.elim fun _ phrase => phrase.proper

/-- What the parser makes of a text as a whole is a unit. -/
theorem unit_of_read {file : String} {text : List Glyph} {t : Tree} (read : unit file text = .ok t) :
    ∃ m p is ds, t = .unit m file p is ds :=
  (yields_run (fun _ h => yields_compilationUnit h file) read).2

end Weaver.Parse
