import Weaver.Handler.Builder
import Weaver.Proofs.Code.Fragments
import Weaver.Proofs.Processing.Joining
/-!
The parts of a staged builder.

Interfaces, the class that implements them, its fields and the constructor that takes them over are
made in separate places from the fields of a type. Here is what all of them become: what a method of
an interface shows to its callers is what the method of the class shows that is made of the same
`BuilderMethod` (`BuilderMethod.Has`), since what a type becomes depends only on the mark of the
nodes, not on the class around it. From this it follows that the class implements every method of
the interfaces, and that each interface leads to the next one (`Staging.Consistent`).
-/
set_option autoImplicit false

namespace Weaver

open Weaver.Syntax (Tree Mark Flags TypeTag)
open Weaver.Syntax.Tree
open SourceUnit

/-! ## Types do not depend on where they stand -/

namespace Code

mutual

/-- A type or a type argument. -/
def isTyping : Code → Bool
  | typeRef _ as _ => areTyping as
  | hostType _ => true
  | wildcard b t => b == .unbounded || isTyping t
  | _ => false

/-- Types and type arguments. -/
def areTyping : List Code → Bool
  | [] => true
  | c :: cs => isTyping c && areTyping cs

end

/-- Where nothing stands around. -/
def Scope.bare (k : Mark) : Scope := ⟨k, none, none⟩

section Typing

variable {s : Scope} {p : Place} {t : Tree} {ts : List Tree}

/-- What a type becomes depends only on the mark. -/
theorem lower_typing : (∀ c : Code, c.isTyping → ∀ (s : Scope) (p : Place),
      c.lower s p = c.lower (.bare s.mark) .part) ∧
    ∀ cs : List Code, areTyping cs → ∀ (s : Scope) (p : Place),
      lowerAll s p cs = lowerAll (.bare s.mark) .value cs := by
  refine isTyping.mutual_induct
    (fun c => c.isTyping → ∀ (s : Scope) (p : Place), c.lower s p = c.lower (.bare s.mark) .part)
    (fun cs => areTyping cs → ∀ (s : Scope) (p : Place),
      lowerAll s p cs = lowerAll (.bare s.mark) .value cs) ?named ?host ?wildcard ?other ?nil ?cons
  case named =>
    intro n as d args typing s p
    rw [lower_typeRef, lower_typeRef, args typing s .value]
    rfl
  case host => exact fun _ _ _ _ => rfl
  case wildcard =>
    intro b t bound typing s p
    cases b
    case unbounded => rfl
    all_goals
      change (do return Tree.wildcard s.mark _ (← lower s .part t)) =
        (do return Tree.wildcard s.mark _ (← lower (.bare s.mark) .part t))
      rw [bound typing s .part]
  case other =>
    intro c h₁ h₂ h₃ typing
    rw [isTyping.eq_4 c h₁ h₂ h₃] at typing
    exact absurd typing Bool.false_ne_true
  case nil => exact fun _ _ _ => rfl
  case cons =>
    intro c cs here others typing s p
    obtain ⟨first, rest⟩ := Bool.and_eq_true_iff.mp typing
    change (do return (← lower s p c) :: (← lowerAll s p cs)) =
      (do return (← lower (.bare s.mark) .value c) :: (← lowerAll (.bare s.mark) .value cs))
    rw [here first s p, others rest s p, here first (.bare s.mark) .value]
    rfl

/-- A name as a type. -/
def namedType (t : Tree) : Code :=
  match t.qualifiedName? with
  | some q => type q
  | none => hostType t

mutual

/-- What a type is lifted to, by recursion on its tree. -/
def readType : Tree → Code
  | .primitive _ tag => type tag.name
  | .ident m n => namedType (.ident m n)
  | .select m e n => namedType (.select m e n)
  | .typeApply m c as => applied (.typeApply m c as) (readTypeArgs as) (readType c)
  | .arrayType m e => bracketed (.arrayType m e) (readType e)
  | t => hostType t

/-- What type arguments are lifted to. -/
def readTypeArgs : List Tree → List Code
  | [] => []
  | .wildcard _ .unbounded _ :: ts => wildcard .unbounded missing :: readTypeArgs ts
  | .wildcard _ b t :: ts => wildcard b (readType t) :: readTypeArgs ts
  | t :: ts => readType t :: readTypeArgs ts

end

theorem liftTypes_eq : (∀ t, liftType t = readType t) ∧ (∀ ts, liftTypeArgs ts = readTypeArgs ts) ∧
    ∀ t ts, liftTypeArg t :: readTypeArgs ts = readTypeArgs (t :: ts) := by
  refine liftType.mutual_induct (fun t => liftType t = readType t)
    (fun ts => liftTypeArgs ts = readTypeArgs ts)
    (fun t => ∀ ts, liftTypeArg t :: readTypeArgs ts = readTypeArgs (t :: ts))
    ?primitive ?ident ?noIdent ?select ?noSelect ?applied ?array ?other ?nil ?cons ?unbounded
    ?bounded ?argument
  case primitive =>
    intro m tag
    rw [liftType, readType]
  case ident | noIdent | select | noSelect =>
    intros
    simp [liftType, readType, namedType, *]
  case applied =>
    intro m c as args type
    rw [liftType, readType, args, type]
  case array =>
    intro m e elem
    rw [liftType, readType, elem]
  case other =>
    intro t h₁ h₂ h₃ h₄ h₅
    rw [liftType.eq_6 t h₁ h₂ h₃ h₄ h₅, readType.eq_6 t h₁ h₂ h₃ h₄ h₅]
  case nil => rw [liftTypeArgs, readTypeArgs]
  case cons =>
    intro t ts here others
    rw [liftTypeArgs, others, here]
  case unbounded =>
    intro m t ts
    rw [liftTypeArg, readTypeArgs]
  case bounded =>
    intro m t b bounded type ts
    rw [liftTypeArg.eq_2 m b t bounded, type, readTypeArgs.eq_3 m b t _ bounded]
  case argument =>
    intro t other type ts
    rw [liftTypeArg.eq_3 t other, type,
      readTypeArgs.eq_4 t ts (fun m type => other m .unbounded type) other]

theorem liftType_eq : liftType = readType := funext liftTypes_eq.1

theorem isTyping_bracketed {c : Code} (typing : c.isTyping) (t : Tree) :
    (bracketed t c).isTyping := by
  unfold bracketed
  split
  · exact typing
  · rfl

theorem isTyping_applied {cs : List Code} (args : areTyping cs) (t : Tree) (c : Code) :
    (applied t cs c).isTyping := by
  unfold applied
  split
  · exact args
  · rfl

theorem isTyping_readTypes : (∀ t, (readType t).isTyping) ∧ ∀ ts, areTyping (readTypeArgs ts) := by
  have named (t : Tree) : (namedType t).isTyping := by
    unfold namedType
    split <;> rfl
  refine readType.mutual_induct (fun t => (readType t).isTyping)
    (fun ts => areTyping (readTypeArgs ts)) ?primitive ?ident ?select ?applied ?array ?other ?nil
    ?unbounded ?bounded ?argument
  case primitive => exact fun _ _ => rfl
  case ident => exact fun _ _ => named _
  case select => exact fun _ _ _ => named _
  case applied => exact fun _ _ _ args _ => isTyping_applied args _ _
  case array => exact fun _ _ elem => isTyping_bracketed elem _
  case other =>
    intro t h₁ h₂ h₃ h₄ h₅
    rw [readType.eq_6 t h₁ h₂ h₃ h₄ h₅]
    rfl
  case nil => rfl
  case unbounded => exact fun _ _ _ others => Bool.and_eq_true_iff.mpr ⟨rfl, others⟩
  case bounded =>
    intro m b t ts bounded type others
    rw [readTypeArgs.eq_3 m b t _ bounded]
    exact Bool.and_eq_true_iff.mpr ⟨Bool.or_eq_true_iff.mpr (.inr type), others⟩
  case argument =>
    intro t ts h₁ h₂ type others
    rw [readTypeArgs.eq_4 t ts h₁ h₂]
    exact Bool.and_eq_true_iff.mpr ⟨type, others⟩

/-- A type as it is read from a tree. -/
theorem isTyping_liftType (t : Tree) : (liftType t).isTyping := by
  rw [liftType_eq]
  exact isTyping_readTypes.1 t

/-- The type with a generated name becomes that name. -/
theorem lower_type_dollar {n : String} (first : n.toList.head? = some '$') (s : Scope)
    (p : Place) : (type n).lower s p = .ok (Tree.ofDotted s.mark n) := by
  have noTag : TypeTag.ofKeyword? n = none := by
    refine List.find?_eq_none.mpr fun tag _ hit => ?_
    have same := eq_of_beq hit
    cases tag <;> simp only [TypeTag.keyword?, Option.some.injEq, reduceCtorEq] at same <;>
      exact absurd (same ▸ first) (by decide)
  have filled : n.isEmpty = false := by
    rw [← Bool.not_eq_true, String.isEmpty_iff]
    rintro rfl
    exact nomatch first
  have plain : n.startsWith "." = false := by
    rw [← Bool.not_eq_true, String.startsWith_string_iff]
    rintro ⟨cs, same⟩
    rw [← same] at first
    exact absurd (Option.some.inj first) (by decide)
  rw [type, lower_typeRef, noTag]
  change (do
    let e ← dotted s.mark n
    return if ([] : List Tree).isEmpty then e else .typeApply s.mark e []) = _
  rw [dotted, filled, plain]
  rfl

end Typing

/-- The trees of a list of code, each made of the piece in its place. -/
theorem forall₂_of_lowerAll {s : Scope} {p : Place} {cs : List Code} {ts : List Tree}
    (lowered : lowerAll s p cs = .ok ts) :
    List.Forall₂ (fun c t => c.lower s p = .ok t) cs ts := by
  induction cs generalizing ts with
  | nil =>
    obtain rfl : [] = ts := Except.ok.inj lowered
    exact .nil
  | cons c cs ih =>
    obtain ⟨t, here, lowered⟩ := ok_of_bind lowered
    obtain ⟨ts', rest, lowered⟩ := ok_of_bind lowered
    obtain rfl := Except.ok.inj lowered
    exact .cons here (ih rest)

end Code

/-! ## The methods of a builder -/

namespace Handler

open Code

/-- Parameters that are declared with types. -/
def AreParams (cs : List Code) : Prop := ∀ c ∈ cs, ∃ t n, c = .param t n ∧ t.isTyping

theorem areParams_nil : AreParams [] := fun _ h => absurd h List.not_mem_nil

theorem areParams_singleton {t : Code} (typing : t.isTyping) (n : String) :
    AreParams [.param t n] := fun _ h => ⟨t, n, List.mem_singleton.mp h, typing⟩

namespace BuilderMethod

/-- A method of a builder with types where types stand. -/
structure Typed (m : BuilderMethod) : Prop where
  result : m.result.isTyping
  params : AreParams m.params

/-- What a method of a builder shows if it is made of nodes with a mark. -/
structure Has (k : Mark) (m : BuilderMethod) (g : Signature) : Prop where
  name : g.name = m.name
  result : m.result.lower (.bare k) .part = .ok g.result
  params : ∃ ps, lowerAll (.bare k) .part m.params = .ok ps ∧ g.params = ps.map asParam

end BuilderMethod

/-- A method of a class implements one of an interface. -/
structure Implements (m' m : Tree) : Prop where
  signature : m'.signature? = m.signature?
  isPublic : m'.mods.flags.meets .publicFlag
  hasBody : m'.body.isMissing = false

section Methods

variable {s : Scope} {p : Place} {k : Mark} {m : BuilderMethod} {g g' : Signature} {t : Tree}
  {cs : List Code} {ts : List Tree}

theorem BuilderMethod.Has.unique (h : m.Has k g) (h' : m.Has k g') : g' = g := by
  obtain ⟨ps, lowered, same⟩ := h.params
  obtain ⟨ps', lowered', same'⟩ := h'.params
  obtain rfl := Except.ok.inj (lowered.symm.trans lowered')
  have result := Except.ok.inj (h.result.symm.trans h'.result)
  cases g
  cases g'
  simp only [Signature.mk.injEq]
  exact ⟨h'.name.trans h.name.symm, same'.trans same.symm, result.symm⟩

/-- A parameter becomes a variable that depends only on the mark. -/
theorem lower_params (params : AreParams cs) (s : Scope) :
    lowerAll s .part cs = lowerAll (.bare s.mark) .part cs := by
  induction cs with
  | nil => rfl
  | cons c cs ih =>
    obtain ⟨t, n, rfl, typing⟩ := params c List.mem_cons_self
    have here : (Code.param t n).lower s .part = (Code.param t n).lower (.bare s.mark) .part := by
      change (t.lower s .part >>= fun ty => Except.ok
          (Tree.varDecl s.mark n (.modifiers s.mark .finalFlag []) ty .missing)) =
        (t.lower (.bare s.mark) .part >>= fun ty => Except.ok
          (Tree.varDecl s.mark n (.modifiers s.mark .finalFlag []) ty .missing))
      rw [lower_typing.1 t typing s .part]
    change ((Code.param t n).lower s .part >>= fun t => do return t :: (← lowerAll s .part cs)) =
      ((Code.param t n).lower (.bare s.mark) .part >>= fun t => do
        return t :: (← lowerAll (.bare s.mark) .part cs))
    rw [here, ih fun c hc => params c (List.mem_cons_of_mem _ hc)]

/-- What a method becomes that is declared with some modifiers and, it may be, a body. -/
theorem shape_of_lower {ms : Flags} {as tps ps thrown ss : List Code} {result : Code} {n : String}
    {noBody implementing : Bool} (typing : result.isTyping) (params : AreParams ps)
    (lowered : (Code.methodDecl ms as tps result n ps thrown ss noBody implementing).lower s p =
      .ok t) :
    t.Plain ∧ t.mods.flags = ms ∧ t.body.isMissing = noBody ∧ ∃ r ps',
      result.lower (.bare s.mark) .part = .ok r ∧
        lowerAll (.bare s.mark) .part ps = .ok ps' ∧
        t.signature? = some ⟨n, ps'.map asParam, r⟩ := by
  rw [lower_methodDecl] at lowered
  obtain ⟨as', -, lowered⟩ := ok_of_bind lowered
  obtain ⟨tps', -, lowered⟩ := ok_of_bind lowered
  obtain ⟨r, here, lowered⟩ := ok_of_bind lowered
  obtain ⟨body, made, lowered⟩ := ok_of_bind lowered
  obtain ⟨ps', inside, lowered⟩ := ok_of_bind lowered
  obtain ⟨ts, -, lowered⟩ := ok_of_bind lowered
  obtain rfl := Except.ok.inj lowered
  rw [lower_typing.1 result typing s .part] at here
  rw [lower_params params] at inside
  have vars := variables_of_lower (fun c hc => by
    obtain ⟨t, n, rfl, -⟩ := params c hc
    exact ⟨t, n, rfl⟩) inside
  refine ⟨.inl ⟨rfl, vars⟩, rfl, ?_, r, ps', here, inside, rfl⟩
  cases noBody with
  | true =>
    obtain rfl := Except.ok.inj made
    rfl
  | false =>
    obtain ⟨ss', -, made⟩ := ok_of_bind made
    obtain rfl := Except.ok.inj made
    rfl

theorem declared_of_lower (typed : m.Typed) (lowered : m.declared.lower s p = .ok t) :
    t.Plain ∧ ∃ g, t.signature? = some g ∧ m.Has s.mark g := by
  obtain ⟨plain, -, -, r, ps, result, params, same⟩ :=
    shape_of_lower typed.result typed.params lowered
  exact ⟨plain, _, same, rfl, result, ps, params, rfl⟩

theorem implemented_of_lower (typed : m.Typed) (lowered : m.implemented.lower s p = .ok t) :
    t.Plain ∧ t.mods.flags.meets .publicFlag ∧ t.body.isMissing = false ∧
      ∃ g, t.signature? = some g ∧ m.Has s.mark g := by
  obtain ⟨plain, flags, body, r, ps, result, params, same⟩ :=
    shape_of_lower typed.result typed.params lowered
  rw [flags]
  exact ⟨plain, by decide, body, _, same, rfl, result, ps, params, rfl⟩

end Methods

/-! ## The declarations of a builder -/

/-- The names of the interfaces of a builder: one for each required field, and one more. -/
def stageNames (fields : List BuilderField) : List String :=
  (fields.filter (·.role == .required)).map (fun f => requiredDef f.name) ++ [optionalDef]

/-- The fields of a builder: first those that are required, then the others. -/
def builtFields (fields : List BuilderField) : List BuilderField :=
  fields.filter (·.role == .required) ++ fields.filter (·.role != .required)

/-- The methods that set required fields. -/
def stageSetters (o : BuilderOptions) (fields : List BuilderField) : List BuilderMethod :=
  let required := fields.filter (·.role == .required)
  List.zipWith (setMethod o) (stages required).tail required

/-- The methods of the last interface. -/
def lastMethods (o : BuilderOptions) (typeName : String) (fields : List BuilderField) :
    List BuilderMethod :=
  (fields.filter (·.role != .required)).flatMap (optionalMethods o) ++
    [buildMethod o (.type typeName)]

/-- The methods of each of the interfaces. -/
def stageMethods (o : BuilderOptions) (typeName : String) (fields : List BuilderField) :
    List (List BuilderMethod) :=
  (stageSetters o fields).map ([·]) ++ [lastMethods o typeName fields]

/-- An interface of a builder that is made of nodes with a mark. -/
structure IsStage (k : Mark) (name : String) (methods : List BuilderMethod) (d : Tree) :
    Prop where
  type : isClassDecl d
  isInterface : d.mods.flags.meets .interfaceFlag
  name : d.declaredName = name
  methods : List.Forall₂ (fun m x => x.Plain ∧ ∃ g, x.signature? = some g ∧ m.Has k g) methods
    d.defs

/-- A field of the class that implements a builder. -/
structure IsField (k : Mark) (f : BuilderField) (x : Tree) : Prop where
  plain : x.Plain
  field : ∃ y, x.field? = some y ∧ y.name = f.name ∧ f.type.lower (.bare k) .part = .ok y.type

/-- A method of the class that implements a builder. -/
structure IsImplemented (k : Mark) (m : BuilderMethod) (x : Tree) : Prop where
  plain : x.Plain
  isPublic : x.mods.flags.meets .publicFlag
  hasBody : x.body.isMissing = false
  signature : ∃ g, x.signature? = some g ∧ m.Has k g

/-- The class that implements a builder. -/
structure IsImplementation (k : Mark) (fields : List BuilderField)
    (methods : List BuilderMethod) (d : Tree) : Prop where
  type : isClassDecl d
  name : d.declaredName = builderClass
  members : ∃ fs c ms, d.defs = fs ++ c :: ms ∧ List.Forall₂ (IsField k) fields fs ∧
    c.isMethod ∧ c.Plain ∧ List.Forall₂ (IsImplemented k) methods ms

/-- The call of the constructor of the superclass. -/
def superCall (k : Mark) : Tree := .exec k (.call k [] (.ident k "super") [])

section Declarations

variable {s : Scope} {p : Place} {k : Mark} {next : Nat} {name : String} {d t : Tree}
  {o : BuilderOptions} {fields : List BuilderField} {methods : List BuilderMethod}

/-- Numbering keeps what holds of members and does not speak of their numbers. -/
theorem forall₂_numberAll {α : Type} {P : α → Tree → Prop}
    (kept : ∀ {a t} (i : Nat), P a t → P a (t.number i).1) {as : List α} {ts : List Tree}
    (h : List.Forall₂ P as ts) (i : Nat) : List.Forall₂ P as (numberAll i ts).1 := by
  induction h generalizing i with
  | nil => exact .nil
  | cons here _ ih => exact .cons (kept i here) (ih _)

theorem stage_number {m : BuilderMethod} (i : Nat)
    (h : t.Plain ∧ ∃ g, t.signature? = some g ∧ m.Has k g) :
    (t.number i).1.Plain ∧ ∃ g, (t.number i).1.signature? = some g ∧ m.Has k g := by
  rw [(resembles_number i t).signature]
  exact ⟨plain_number h.1 i, h.2⟩

theorem body_number (i : Nat) (t : Tree) : (t.number i).1.body = t.body := by
  cases t <;> rfl

theorem IsImplemented.number {m : BuilderMethod} (i : Nat) (h : IsImplemented k m t) :
    IsImplemented k m (t.number i).1 where
  plain := plain_number h.plain i
  isPublic := by
    rw [(resembles_number i _).flags]
    exact h.isPublic
  hasBody := by
    rw [body_number]
    exact h.hasBody
  signature := by
    rw [(resembles_number i t).signature]
    exact h.signature

theorem IsField.number {f : BuilderField} (i : Nat) (h : IsField k f t) :
    IsField k f (t.number i).1 where
  plain := plain_number h.plain i
  field := by
    obtain ⟨y, seen, same⟩ := h.field
    rw [field_number, seen]
    exact ⟨_, rfl, same⟩

/-- A part that may be missing is passed by. -/
theorem ok_of_lowerThen {rest : Tree → Except Abort Tree} {c : Code}
    (lowered : lowerThen s p rest c = .ok t) : ∃ x, rest x = .ok t := by
  unfold lowerThen at lowered
  split at lowered
  · exact ⟨_, lowered⟩
  · obtain ⟨x, -, lowered⟩ := ok_of_bind lowered
    exact ⟨x, lowered⟩

/-- A field of the class is private and has the type of the field it stands for. -/
theorem isField_of_lower {f : BuilderField} (typing : f.type.isTyping)
    (lowered : (Code.fieldOf f.type f.name .privateFlag f.init).lower s p = .ok t) :
    IsField s.mark f t := by
  rw [fieldOf, lower_fieldDecl, lower_localDecl] at lowered
  obtain ⟨i, lowered⟩ := ok_of_lowerThen lowered
  obtain ⟨as, -, lowered⟩ := ok_of_bind lowered
  obtain ⟨ty, type, lowered⟩ := ok_of_bind lowered
  rw [← Except.ok.inj lowered]
  rw [lower_typing.1 f.type typing s .part] at type
  have plain : ¬Flags.privateFlag.meets .enumFlag := by decide
  exact ⟨.inr rfl, ⟨s.mark, f.name, .privateFlag, ty, i⟩, if_neg plain, rfl, type⟩

/-- What a class becomes: its members are made of the codes for its fields, methods and types. -/
theorem class_shape_of_lower {kind : ClassKind} {ms : Flags}
    {as tps is cs fs mths ts : List Code} {e : Code} (named : kind.isAnonymous = false)
    (lowered : (Code.classDecl kind ms as name tps e is cs fs mths ts).lower s p = .ok t) :
    ∃ s' m mods tps' e' is' cs' fs' mths' ts', s'.mark = s.mark ∧
      t = .classDecl m name mods tps' e' is' (cs' ++ fs' ++ mths' ++ ts') ∧
      (kind.isInterface → mods.flags = ms.union .interfaceFlag) ∧
        lowerAll s' .part cs = .ok cs' ∧ lowerAll s' .part fs = .ok fs' ∧
        lowerAll s' .part mths = .ok mths' ∧ lowerAll s' .part ts = .ok ts' := by
  rw [lower_classDecl] at lowered
  obtain ⟨as', -, lowered⟩ := ok_of_bind lowered
  obtain ⟨tps', -, lowered⟩ := ok_of_bind lowered
  obtain ⟨e', lowered⟩ := ok_of_lowerThen lowered
  obtain ⟨cs', constants, lowered⟩ := ok_of_bind lowered
  obtain ⟨fs', fields, lowered⟩ := ok_of_bind lowered
  obtain ⟨mths', methods, lowered⟩ := ok_of_bind lowered
  obtain ⟨ts', types, lowered⟩ := ok_of_bind lowered
  obtain ⟨is', -, lowered⟩ := ok_of_bind lowered
  have inner : (if kind.isAnonymous = true then "" else name) = name := by
    rw [named]
    rfl
  rw [inner] at constants fields methods types lowered
  exact ⟨{ s with owner := some name }, _, _, tps', e', is', cs', fs', mths', ts', rfl,
    (Except.ok.inj lowered).symm, fun h => if_pos h, constants, fields, methods, types⟩

/-- What a constructor becomes: its parameters and its statements, after the call of the constructor
of the superclass if that is implied. -/
theorem constructor_shape_of_lower {ms : Flags} {as tps ps thrown ss : List Code}
    {implicitSuper : Bool} (params : AreParams ps)
    (lowered : (Code.constructorDecl ms as tps name ps thrown ss implicitSuper).lower s p =
      .ok t) :
    ∃ mods tps' ps' ts ss', t = .methodDecl s.mark Syntax.initName mods tps' .missing ps' ts
        (.block s.mark .empty (if implicitSuper then superCall s.mark :: ss' else ss')) ∧
      lowerAll (.bare s.mark) .part ps = .ok ps' ∧ (∀ x ∈ ps', x.isVariable) ∧
      lowerAll { s with result := some (.primitive s.mark .void) } .statement ss = .ok ss' := by
  obtain ⟨ss', statements, lowered⟩ := ok_of_bind lowered
  obtain ⟨tps', -, lowered⟩ := ok_of_bind lowered
  obtain ⟨as', -, lowered⟩ := ok_of_bind lowered
  obtain ⟨ps', inside, lowered⟩ := ok_of_bind lowered
  obtain ⟨ts, -, lowered⟩ := ok_of_bind lowered
  rw [lower_params params] at inside
  have vars := variables_of_lower (fun c hc => by
    obtain ⟨t, n, rfl, -⟩ := params c hc
    exact ⟨t, n, rfl⟩) inside
  exact ⟨_, tps', ps', ts, ss', (Except.ok.inj lowered).symm, inside, vars, statements⟩

theorem isStage_of_makes (typed : ∀ m ∈ methods, m.Typed)
    (made : Makes s next (stageInterface name methods) d) : IsStage s.mark name methods d := by
  obtain ⟨t, i, lowered, -, rfl⟩ := made
  obtain ⟨s', m, mods, tps, e, is, cs, fs, ms, ts, mark, rfl, flags, constants, fields, declared,
    types⟩ := class_shape_of_lower rfl lowered
  obtain rfl := Except.ok.inj constants
  obtain rfl := Except.ok.inj fields
  obtain rfl := Except.ok.inj types
  have each : List.Forall₂ (fun m x => x.Plain ∧ ∃ g, x.signature? = some g ∧ m.Has s.mark g)
      methods ms := by
    have lowered := List.forall₂_map_left_iff.mp (forall₂_of_lowerAll declared)
    refine ((List.forall₂_and_left ..).mpr ⟨typed, lowered⟩).imp ?_
    rintro m x ⟨typed, lowered⟩
    rw [← mark]
    exact declared_of_lower typed lowered
  refine ⟨rfl, ?_, rfl, ?_⟩
  · rw [(resembles_number i _).flags]
    change mods.flags.meets .interfaceFlag = true
    rw [flags rfl]
    decide
  · rw [List.append_nil]
    exact forall₂_numberAll stage_number each _

theorem numberAll_append (ts us : List Tree) (i : Nat) :
    ∃ j, (numberAll i (ts ++ us)).1 = (numberAll i ts).1 ++ (numberAll j us).1 := by
  induction ts generalizing i with
  | nil => exact ⟨i, rfl⟩
  | cons t ts ih =>
    obtain ⟨j, same⟩ := ih (t.number i).2
    exact ⟨j, congrArg (_ :: ·) same⟩

/-- The class that implements the methods. -/
def implementationOf (fields : List BuilderField) (methods : List BuilderMethod)
    (stages : List String) : Code :=
  .classDecl Code.plainClass (Flags.privateFlag.union .staticFlag) [] builderClass [] .missing
    (stages.map .type) [] (fields.map fun f => .fieldOf f.type f.name .privateFlag f.init)
    (.constructorDecl .privateFlag [] [] builderClass [] [] [] false ::
      methods.map (·.implemented)) []

theorem isImplementation_of_makes {names : List String}
    (typings : ∀ f ∈ fields, f.type.isTyping) (typed : ∀ m ∈ methods, m.Typed)
    (made : Makes s next (implementationOf fields methods names) d) :
    IsImplementation s.mark fields methods d := by
  obtain ⟨t, i, lowered, -, rfl⟩ := made
  obtain ⟨s', m, mods, tps, e, is, cs, fs, ms, ts, mark, rfl, -, constants, declared, implemented,
    types⟩ := class_shape_of_lower rfl lowered
  obtain rfl := Except.ok.inj constants
  obtain rfl := Except.ok.inj types
  obtain ⟨c, first, implemented⟩ := ok_of_bind implemented
  obtain ⟨ms', others, whole⟩ := ok_of_bind implemented
  obtain rfl := Except.ok.inj whole
  have fields' : List.Forall₂ (IsField s.mark) fields fs := by
    have lowered := List.forall₂_map_left_iff.mp (forall₂_of_lowerAll declared)
    refine ((List.forall₂_and_left ..).mpr ⟨typings, lowered⟩).imp ?_
    rintro f x ⟨typing, lowered⟩
    rw [← mark]
    exact isField_of_lower typing lowered
  have methods' : List.Forall₂ (IsImplemented s.mark) methods ms' := by
    have lowered := List.forall₂_map_left_iff.mp (forall₂_of_lowerAll others)
    refine ((List.forall₂_and_left ..).mpr ⟨typed, lowered⟩).imp ?_
    rintro m x ⟨typed, lowered⟩
    rw [← mark]
    obtain ⟨plain, isPublic, hasBody, signature⟩ := implemented_of_lower typed lowered
    exact ⟨plain, isPublic, hasBody, signature⟩
  have method : c.isMethod ∧ c.Plain := by
    obtain ⟨_, _, ps', _, _, rfl, -, vars, -⟩ := constructor_shape_of_lower areParams_nil first
    exact ⟨rfl, .inl ⟨rfl, vars⟩⟩
  obtain ⟨j, same⟩ := numberAll_append fs (c :: ms') (numberModifiers (i + 1) mods).2
  refine ⟨rfl, rfl, (numberAll (numberModifiers (i + 1) mods).2 fs).1, (c.number j).1,
    (numberAll (c.number j).2 ms').1, ?_, forall₂_numberAll (fun i h => h.number i) fields' _,
    isMethod_of_resembles (resembles_number j c) method.1, plain_number method.2 j,
    forall₂_numberAll (fun i h => h.number i) methods' _⟩
  rw [List.append_nil]
  exact same

end Declarations

/-! ## The builder as a whole -/

/-- The members of a class that make up a builder. -/
structure Staging where
  entry : Tree
  constructor : Tree
  stages : List Tree
  implementation : Tree

/-- The members from the first to the last. -/
def Staging.members (s : Staging) : List Tree :=
  s.entry :: s.constructor :: (s.stages ++ [s.implementation])

/-- The statement by which a constructor takes over a field of a builder. -/
def takeOver (k : Mark) (f : BuilderField) : Tree :=
  .exec k (.assign k (.select k (.ident k "this") f.name)
    (.select k (Tree.ofDotted k "builder") f.name))

/-- The signature of the method of an interface that sets a required field and leads to the
interface with a name. -/
def Sets (k : Mark) (o : BuilderOptions) (f : BuilderField) (next : String) (g : Signature) :
    Prop :=
  ∃ t, f.type.lower (.bare k) .part = .ok t ∧
    g = ⟨o.setterName f.name, [(t, f.name)], Tree.ofDotted k next⟩

/-- The parts of a builder fit each other. -/
structure Staging.Consistent (k : Mark) (o : BuilderOptions) (typeName : String)
    (fields : List BuilderField) (s : Staging) : Prop where
  /-- There is an interface for each required field, and one more. -/
  names : s.stages.map (·.declaredName) = stageNames fields
  interfaces : ∀ d ∈ s.stages, isClassDecl d ∧ d.mods.flags.meets .interfaceFlag
  /-- There is one class. -/
  name : s.implementation.declaredName = builderClass
  type : isClassDecl s.implementation
  /-- The class implements every method of the interfaces. -/
  complete : ∀ d ∈ s.stages, ∀ x ∈ d.defs, ∃ y ∈ s.implementation.defs, Implements y x
  /-- A method leads to the first interface. -/
  enters : s.entry.signature? = some ⟨Text.decapitalize typeName, [],
    Tree.ofDotted k ((stageNames fields).headD optionalDef)⟩
  /-- The interface of a required field sets it and leads to the next interface. -/
  leads : ∀ j f, (fields.filter (·.role == .required))[j]? = some f →
    ∃ d next, s.stages[j]? = some d ∧ (stageNames fields)[j + 1]? = some next ∧
      ∃ x ∈ d.defs, ∃ g, x.signature? = some g ∧ Sets k o f next g
  /-- The class has the fields of the builder with their types. -/
  holds : List.Forall₂ (fun f x => x.name = f.name ∧ f.type.lower (.bare k) .part = .ok x.type)
    (builtFields fields) s.implementation.fieldsIn
  /-- The constructor takes them over from a builder. -/
  takes : s.constructor.isMethod ∧ s.constructor.params.map asParam =
      [(Tree.ofDotted k builderClass, "builder")] ∧
    s.constructor.body.stmts = superCall k :: (builtFields fields).map (takeOver k)

section Staging

variable {s : Code.Scope} {p : Place} {k : Mark} {next : Nat} {t : Tree} {ts : List Tree}
  {o : BuilderOptions} {fields : List BuilderField} {typeName : String}

/-! ### Typed methods -/

theorem areTyping_iff {cs : List Code} : areTyping cs ↔ ∀ c ∈ cs, c.isTyping := by
  induction cs with
  | nil => exact ⟨fun _ _ h => absurd h List.not_mem_nil, fun _ => rfl⟩
  | cons c cs ih => rw [areTyping, Bool.and_eq_true_iff, ih, List.forall_mem_cons]

theorem isTyping_typeOf {n : String} {as : List Code} (args : ∀ a ∈ as, a.isTyping) :
    (Code.typeOf n as).isTyping :=
  areTyping_iff.mpr args

theorem isTyping_typeArg {c : Code} (typing : c.isTyping) (n : Nat) : (typeArg c n).isTyping := by
  unfold typeArg
  split
  · split
    · next a there =>
      split
      · exact areTyping_iff.mp typing a (List.mem_of_getElem? there)
      · rfl
    · rfl
  · rfl

theorem typed_step {result stmt : Code} {name : String} {params : List Code}
    (result_ : result.isTyping) (params_ : AreParams params) :
    (stepMethod result name params stmt).Typed := ⟨result_, params_⟩

theorem typed_setMethod {f : BuilderField} {result : Code} (typing : f.type.isTyping)
    (result_ : result.isTyping) : (setMethod o result f).Typed :=
  typed_step result_ (areParams_singleton typing f.name)

theorem typed_optionalMethods {f : BuilderField} (typing : f.type.isTyping) :
    ∀ m ∈ optionalMethods o f, m.Typed := by
  have bounded {c : Code} (h : c.isTyping) : (Code.wildcard .extending c).isTyping :=
    Bool.or_eq_true_iff.mpr (.inr h)
  have arg (n : Nat) := isTyping_typeArg typing n
  intro m hm
  unfold optionalMethods at hm
  dsimp only at hm
  split at hm
  · rcases List.mem_pair.mp hm with rfl | rfl
    · exact typed_step rfl (areParams_singleton (arg 0) _)
    · exact typed_step rfl (areParams_singleton
        (isTyping_typeOf (List.forall_mem_singleton.mpr (bounded (arg 0)))) _)
  · rcases List.mem_pair.mp hm with rfl | rfl
    · refine typed_step rfl fun c hc => ?_
      rcases List.mem_pair.mp hc with rfl | rfl
      · exact ⟨_, _, rfl, arg 0⟩
      · exact ⟨_, _, rfl, arg 1⟩
    · refine typed_step rfl (areParams_singleton (isTyping_typeOf ?_) _)
      exact List.forall_mem_cons.mpr
        ⟨bounded (arg 0), List.forall_mem_singleton.mpr (bounded (arg 1))⟩
  · rw [List.mem_singleton.mp hm]
    exact typed_setMethod typing rfl

theorem typed_stageSetters (typings : ∀ f ∈ fields, f.type.isTyping) :
    ∀ m ∈ stageSetters o fields, m.Typed := by
  intro m hm
  rw [stageSetters, ← List.map_uncurry_zip_eq_zipWith] at hm
  obtain ⟨⟨result, f⟩, paired, rfl⟩ := List.mem_map.mp hm
  obtain ⟨stage, required⟩ := List.of_mem_zip paired
  refine typed_setMethod (typings f (List.mem_of_mem_filter required)) ?_
  rcases List.mem_append.mp (List.mem_of_mem_tail stage) with named | last
  · obtain ⟨f, -, rfl⟩ := List.mem_map.mp named
    rfl
  · rw [List.mem_singleton.mp last]
    rfl

theorem typed_lastMethods (typings : ∀ f ∈ fields, f.type.isTyping) :
    ∀ m ∈ lastMethods o typeName fields, m.Typed := by
  intro m hm
  rcases List.mem_append.mp hm with optional | build
  · obtain ⟨f, hf, hm⟩ := List.mem_flatMap.mp optional
    exact typed_optionalMethods (typings f (List.mem_of_mem_filter hf)) m hm
  · rw [List.mem_singleton.mp build]
    exact ⟨rfl, areParams_nil⟩

theorem typed_stageMethods (typings : ∀ f ∈ fields, f.type.isTyping) {methods : List BuilderMethod}
    (listed : methods ∈ stageMethods o typeName fields) :
    ∀ m ∈ methods, m ∈ stageSetters o fields ++ lastMethods o typeName fields ∧ m.Typed := by
  intro m hm
  rcases List.mem_append.mp listed with single | last
  · obtain ⟨setter, member, rfl⟩ := List.mem_map.mp single
    rw [List.mem_singleton.mp hm]
    exact ⟨List.mem_append_left _ member, typed_stageSetters typings _ member⟩
  · rw [List.mem_singleton.mp last] at hm
    exact ⟨List.mem_append_right _ hm, typed_lastMethods typings m hm⟩

/-! ### The trees -/

/-- What stands at a place of a list is related to what stands there in the other one. -/
theorem forall₂_getElem {α β : Type} {R : α → β → Prop} {as : List α} {bs : List β}
    (h : List.Forall₂ R as bs) {j : Nat} {a : α} (there : as[j]? = some a) :
    ∃ b, bs[j]? = some b ∧ R a b := by
  induction h generalizing j with
  | nil => exact nomatch there
  | @cons a' b' _ _ first _ ih =>
    cases j with
    | zero =>
      obtain rfl : a' = a := Option.some.inj there
      exact ⟨b', rfl, first⟩
    | succ j => exact ih there

theorem exists_of_mem_right {α β : Type} {R : α → β → Prop} {as : List α} {bs : List β}
    (h : List.Forall₂ R as bs) {b : β} (member : b ∈ bs) : ∃ a ∈ as, R a b := by
  obtain ⟨j, there⟩ := List.getElem?_of_mem member
  obtain ⟨a, before, related⟩ := forall₂_getElem (List.Forall₂.flip (R := fun b a => R a b) h) there
  exact ⟨a, List.mem_of_getElem? before, related⟩

theorem takeOver_of_lower (f : BuilderField) (s : Code.Scope) :
    (Code.assign (.ownField f.name) (.field (.named "builder") f.name)).lower s .statement =
      .ok (takeOver s.mark f) := by
  have named : dotted s.mark "builder" = .ok (Tree.ofDotted s.mark "builder") := by
    have plain : "builder".startsWith "." = false := by
      rw [← Bool.not_eq_true, String.startsWith_string_iff]
      decide
    rw [dotted, plain]
    rfl
  change (do
    let l ← (pure (Tree.select s.mark (.ident s.mark "this") f.name) : Except Abort Tree)
    let r ← dotted s.mark "builder"
    return Tree.exec s.mark (.assign s.mark l (.select s.mark r f.name))) = _
  rw [named]
  rfl

theorem toList_requiredDef (field : String) :
    (requiredDef field).toList = '$' :: (Text.capitalize field).toList ++ ['D', 'e', 'f'] := by
  have last : Text.capitalize "def" = "Def" := by decide
  simp [requiredDef, Text.camelCase, String.join, last]

theorem dollar_stageNames {n : String} (h : n ∈ stageNames fields) :
    n.toList.head? = some '$' := by
  rcases List.mem_append.mp h with named | last
  · obtain ⟨f, -, rfl⟩ := List.mem_map.mp named
    rw [toList_requiredDef]
    rfl
  · rw [List.mem_singleton.mp last]
    rfl

/-- No interface has the name of the class. -/
theorem builderClass_not_stage : builderClass ∉ stageNames fields := by
  intro h
  rcases List.mem_append.mp h with named | last
  · obtain ⟨f, -, same⟩ := List.mem_map.mp named
    have ends := congrArg (·.toList.getLast?) same
    rw [toList_requiredDef, List.getLast?_append] at ends
    exact absurd (Option.some.inj ends) (by decide)
  · exact absurd (List.mem_singleton.mp last) (by decide)

theorem stages_eq (fields : List BuilderField) :
    stages (fields.filter (·.role == .required)) = (stageNames fields).map .type := by
  rw [stages, stageNames, List.map_append, List.map_map]
  rfl

theorem takeOvers_of_lower (fs : List BuilderField) (s : Code.Scope) :
    lowerAll s .statement (fs.map fun f =>
      Code.assign (.ownField f.name) (.field (.named "builder") f.name)) =
        .ok (fs.map (takeOver s.mark)) := by
  induction fs with
  | nil => rfl
  | cons f fs ih => exact lowerAll_cons (takeOver_of_lower f s) ih

/-- What the setter of a required field shows. -/
theorem sets_of_has {f : BuilderField} {stage : String} {g : Signature}
    (first : stage.toList.head? = some '$')
    (has : (setMethod o (.type stage) f).Has k g) : Sets k o f stage g := by
  obtain ⟨ps, params, same⟩ := has.params
  obtain ⟨x, rfl, lowered⟩ := lowerAll_singleton params
  obtain ⟨as, annos, lowered⟩ := ok_of_bind lowered
  obtain ⟨ty, type, lowered⟩ := ok_of_bind lowered
  obtain rfl := Except.ok.inj lowered
  have result := has.result
  change (Code.type stage).lower (.bare k) .part = _ at result
  rw [lower_type_dollar first] at result
  refine ⟨ty, type, ?_⟩
  cases g
  simp only [Signature.mk.injEq]
  exact ⟨has.name, same, (Except.ok.inj result).symm⟩

/-- The names and methods of the interfaces. -/
def stagePlan (o : BuilderOptions) (typeName : String) (fields : List BuilderField) :
    List (String × List BuilderMethod) :=
  (stageNames fields).zip (stageMethods o typeName fields)

theorem length_stageMethods (o : BuilderOptions) (typeName : String) (fields : List BuilderField) :
    (stageMethods o typeName fields).length = (stageNames fields).length := by
  simp [stageMethods, stageSetters, stageNames, stages]

theorem names_stagePlan (o : BuilderOptions) (typeName : String) (fields : List BuilderField) :
    (stagePlan o typeName fields).map Prod.fst = stageNames fields :=
  List.map_fst_zip (length_stageMethods o typeName fields).ge

theorem interfaces_eq (o : BuilderOptions) (typeName : String) (fields : List BuilderField) :
    (builderParts o typeName fields).interfaces =
      (stagePlan o typeName fields).map (Function.uncurry stageInterface) :=
  (List.map_uncurry_zip_eq_zipWith ..).symm

theorem areStages_of_makes {ds : List Tree} (typings : ∀ f ∈ fields, f.type.isTyping)
    (made : List.Forall₂ (Makes s next) (builderParts o typeName fields).interfaces ds) :
    List.Forall₂ (fun p d => IsStage s.mark p.1 p.2 d) (stagePlan o typeName fields) ds := by
  rw [interfaces_eq] at made
  have both : List.Forall₂ (fun p d => p.2 ∈ stageMethods o typeName fields ∧
      Makes s next (Function.uncurry stageInterface p) d) (stagePlan o typeName fields) ds :=
    (List.forall₂_and_left ..).mpr
      ⟨fun _ hp => (List.of_mem_zip hp).2, List.forall₂_map_left_iff.mp made⟩
  exact both.imp fun p d ⟨listed, made⟩ =>
    isStage_of_makes (fun m hm => (typed_stageMethods typings listed m hm).2) made

/-- The class implements every method of the interfaces. -/
theorem complete_of_stages {ds : List Tree} {d : Tree}
    (stages : List.Forall₂ (fun p d => IsStage k p.1 p.2 d) (stagePlan o typeName fields) ds)
    (typings : ∀ f ∈ fields, f.type.isTyping)
    (built : IsImplementation k (builtFields fields)
      (stageSetters o fields ++ lastMethods o typeName fields) d) :
    ∀ stage ∈ ds, ∀ x ∈ stage.defs, ∃ y ∈ d.defs, Implements y x := by
  intro stage hs x hx
  obtain ⟨p, planned, isStage⟩ := exists_of_mem_right stages hs
  obtain ⟨m, hm, -, g, shown, has⟩ := exists_of_mem_right isStage.methods hx
  have listed := (typed_stageMethods typings (List.of_mem_zip planned).2 m hm).1
  obtain ⟨fs, c, ms, defs, -, -, -, implemented⟩ := built.members
  obtain ⟨j, there⟩ := List.getElem?_of_mem listed
  obtain ⟨y, found, isImplemented⟩ := forall₂_getElem implemented there
  obtain ⟨g', shown', has'⟩ := isImplemented.signature
  refine ⟨y, ?_, ⟨?_, isImplemented.isPublic, isImplemented.hasBody⟩⟩
  · rw [defs]
    exact List.mem_append_right _ (List.mem_cons_of_mem _ (List.mem_of_getElem? found))
  · rw [shown, shown', has.unique has']

/-- The interface of a required field sets it and leads to the next one. -/
theorem leads_of_stages {ds : List Tree} {j : Nat} {f : BuilderField}
    (stages : List.Forall₂ (fun p d => IsStage k p.1 p.2 d) (stagePlan o typeName fields) ds)
    (required : (fields.filter (·.role == .required))[j]? = some f) :
    ∃ d next, ds[j]? = some d ∧ (stageNames fields)[j + 1]? = some next ∧
      ∃ x ∈ d.defs, ∃ g, x.signature? = some g ∧ Sets k o f next g := by
  have short := (List.getElem?_eq_some_iff.mp required).1
  have total : (stageNames fields).length =
      (fields.filter (·.role == .required)).length + 1 := by
    rw [stageNames, List.length_append, List.length_map]
    rfl
  obtain ⟨next, named⟩ : ∃ next, (stageNames fields)[j + 1]? = some next :=
    ⟨_, List.getElem?_eq_getElem (by omega)⟩
  obtain ⟨name, own⟩ : ∃ name, (stageNames fields)[j]? = some name :=
    ⟨_, List.getElem?_eq_getElem (by omega)⟩
  have setter : (stageSetters o fields)[j]? = some (setMethod o (.type next) f) := by
    rw [stageSetters, stages_eq, List.getElem?_zipWith, List.getElem?_tail, List.getElem?_map,
      named, required]
    rfl
  have methods : (stageMethods o typeName fields)[j]? = some [setMethod o (.type next) f] := by
    rw [stageMethods, List.getElem?_append_left, List.getElem?_map, setter]
    · rfl
    · rw [List.length_map]
      exact (List.getElem?_eq_some_iff.mp setter).1
  have planned : (stagePlan o typeName fields)[j]? = some (name, [setMethod o (.type next) f]) :=
    List.getElem?_zip_eq_some.mpr ⟨own, methods⟩
  obtain ⟨d, there, isStage⟩ := forall₂_getElem stages planned
  obtain ⟨x, same, -, g, shown, has⟩ :=
    forall₂_getElem isStage.methods (List.getElem?_cons_zero (a := _))
  exact ⟨d, next, there, named, x, List.mem_of_getElem? same, g, shown,
    sets_of_has (dollar_stageNames (List.mem_of_getElem? named)) has⟩

/-- The class has the fields of the builder with their types. -/
theorem holds_of_members {methods : List BuilderMethod} {d : Tree}
    (built : IsImplementation k fields methods d) :
    List.Forall₂ (fun f x => x.name = f.name ∧ f.type.lower (.bare k) .part = .ok x.type) fields
      d.fieldsIn := by
  obtain ⟨fs, c, ms, defs, areFields, method, -, implemented⟩ := built.members
  have none_ (x : Tree) (hx : x ∈ c :: ms) : x.field? = none := by
    rcases List.mem_cons.mp hx with rfl | hx
    · exact field_of_isMethod method
    · obtain ⟨m, -, h⟩ := exists_of_mem_right implemented hx
      obtain ⟨g, shown, -⟩ := h.signature
      exact field_of_isMethod (isMethod_of_signature shown)
  rw [fieldsIn, defs, List.filterMap_append, List.filterMap_eq_nil_iff.mpr none_, List.append_nil]
  clear defs built
  induction areFields with
  | nil => exact .nil
  | cons first _ ih =>
    obtain ⟨y, seen, same⟩ := first.field
    rw [List.filterMap_cons_some seen]
    exact .cons same ih

/-- A type with methods and fields only. -/
def IsFlat (d : Tree) : Prop := isClassDecl d ∧ ∀ x ∈ d.defs, x.Plain

/-- The parts of a builder, each made into a member. -/
structure Staging.Made (s : Code.Scope) (next : Nat) (o : BuilderOptions) (typeName : String)
    (fields : List BuilderField) (g : Staging) : Prop where
  typings : ∀ f ∈ fields, f.type.isTyping
  entry : Makes s next (builderParts o typeName fields).entry g.entry
  constructor : Makes s next (builderParts o typeName fields).constructor g.constructor
  stages : List.Forall₂ (Makes s next) (builderParts o typeName fields).interfaces g.stages
  implementation : Makes s next (builderParts o typeName fields).implementation g.implementation

namespace Staging.Made

variable {g : Staging}

theorem isImplementation (h : g.Made s next o typeName fields) :
    IsImplementation s.mark (builtFields fields)
      (stageSetters o fields ++ lastMethods o typeName fields) g.implementation := by
  refine isImplementation_of_makes (fun f hf => ?_) (fun m hm => ?_) h.implementation
  · rcases List.mem_append.mp hf with hf | hf
    all_goals exact h.typings f (List.mem_of_mem_filter hf)
  · exact (List.mem_append.mp hm).elim (typed_stageSetters h.typings m)
      (typed_lastMethods h.typings m)

/-- What the method shows that leads to the first interface. -/
theorem enters (h : g.Made s next o typeName fields) : g.entry.Plain ∧
    g.entry.signature? = some ⟨Text.decapitalize typeName, [],
      Tree.ofDotted s.mark ((stageNames fields).headD optionalDef)⟩ := by
  obtain ⟨t, i, lowered, -, same⟩ := h.entry
  have head : (Handler.stages (fields.filter (·.role == .required))).headD optionalType =
      .type ((stageNames fields).headD optionalDef) := by
    rw [stages_eq]
    exact List.headD_map
  have first : ((stageNames fields).headD optionalDef).toList.head? = some '$' := by
    rw [List.headD_eq_head?_getD]
    cases hd : (stageNames fields).head? with
    | none => rfl
    | some n => exact dollar_stageNames (List.mem_of_mem_head? hd)
  obtain ⟨plain, -, -, r, ps, result, params, shown⟩ :=
    shape_of_lower (by rw [head]; rfl) areParams_nil lowered
  obtain rfl := Except.ok.inj params
  rw [head, lower_type_dollar first] at result
  rw [same, (resembles_number i t).signature, shown, ← Except.ok.inj result]
  exact ⟨plain_number plain i, rfl⟩

/-- What the constructor takes and does. -/
theorem takes (h : g.Made s next o typeName fields) : g.constructor.Plain ∧
    g.constructor.isMethod ∧ g.constructor.params.map asParam =
      [(Tree.ofDotted s.mark builderClass, "builder")] ∧
    g.constructor.body.stmts = superCall s.mark :: (builtFields fields).map (takeOver s.mark) := by
  obtain ⟨t, i, lowered, -, same⟩ := h.constructor
  obtain ⟨mods, tps, ps, ts, ss, rfl, params, vars, statements⟩ :=
    constructor_shape_of_lower (areParams_singleton rfl "builder") lowered
  obtain ⟨x, rfl, param⟩ := lowerAll_singleton params
  obtain ⟨as, -, param⟩ := ok_of_bind param
  obtain ⟨ty, type, param⟩ := ok_of_bind param
  obtain rfl := Except.ok.inj param
  change (Code.type builderClass).lower (.bare s.mark) .part = _ at type
  rw [lower_type_dollar rfl] at type
  obtain rfl := Except.ok.inj type
  obtain rfl := Except.ok.inj ((takeOvers_of_lower (builtFields fields) _).symm.trans statements)
  rw [same, body_number]
  refine ⟨plain_number ?_ i, rfl, ?_, rfl⟩
  · exact .inl ⟨rfl, vars⟩
  · rw [Tree.number]
    exact asParams_numberAll _ _

theorem types (h : g.Made s next o typeName fields) :
    ∀ d ∈ g.implementation :: g.stages, IsFlat d := by
  refine List.forall_mem_cons.mpr ⟨⟨h.isImplementation.type, ?_⟩, fun d hd => ?_⟩
  · obtain ⟨fs, c, ms, defs, areFields, -, plain, implemented⟩ := h.isImplementation.members
    intro x hx
    rw [defs] at hx
    rcases List.mem_append.mp hx with field | rest
    · obtain ⟨f, -, isField⟩ := exists_of_mem_right areFields field
      exact isField.plain
    · rcases List.mem_cons.mp rest with rfl | method
      · exact plain
      · obtain ⟨m, -, isMethod⟩ := exists_of_mem_right implemented method
        exact isMethod.plain
  · obtain ⟨p, -, isStage⟩ := exists_of_mem_right (areStages_of_makes h.typings h.stages) hd
    refine ⟨isStage.type, fun x hx => ?_⟩
    obtain ⟨m, -, plain, -⟩ := exists_of_mem_right isStage.methods hx
    exact plain

/-- The members fit each other. -/
theorem consistent (h : g.Made s next o typeName fields) :
    g.Consistent s.mark o typeName fields := by
  have areStages := areStages_of_makes h.typings h.stages
  have built := h.isImplementation
  have named : List.Forall₂ (· = ·) ((stagePlan o typeName fields).map Prod.fst)
      (g.stages.map (·.declaredName)) :=
    List.forall₂_map_left_iff.mpr
      (List.forall₂_map_right_iff.mpr (areStages.imp fun _ _ isStage => isStage.name.symm))
  rw [List.forall₂_eq_eq_eq, names_stagePlan] at named
  exact {
    names := named.symm
    interfaces := fun d hd => by
      obtain ⟨p, -, isStage⟩ := exists_of_mem_right areStages hd
      exact ⟨isStage.type, isStage.isInterface⟩
    name := built.name
    type := built.type
    complete := complete_of_stages areStages h.typings built
    enters := h.enters.2
    leads := fun j f => leads_of_stages areStages
    holds := holds_of_members built
    takes := h.takes.2 }

end Staging.Made

end Staging

end Handler

end Weaver
