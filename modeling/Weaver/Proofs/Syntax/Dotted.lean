import Weaver.Main
/-!
Trees up to what printing and parsing may change, and chains of selections.

Where a node stands in a text is no part of the program, and parentheses only say which tree is
meant. `shape` leaves out the marks, and the parentheses too if they are not asked for.

A chain of selections has a dotted name, and the chain of the name is the chain again. This needs
that the names of the chain have no dots themselves, and that no type arguments stand in the chain,
which the dotted name leaves out.
-/
set_option autoImplicit false

namespace Weaver.Syntax.Tree

mutual

/-- The tree without marks, with or without its parentheses. -/
def shape (keep : Bool) : Tree → Tree
  | missing => missing
  | unit _ file p is ds =>
    unit default file (shape keep p) (shapeAll keep is) (shapeAll keep ds)
  | importDecl _ s n => importDecl default s (shape keep n)
  | classDecl _ n ms tps e is ds =>
    classDecl default n (shape keep ms) (shapeAll keep tps) (shape keep e) (shapeAll keep is)
      (shapeAll keep ds)
  | methodDecl _ n ms tps rt ps ts b =>
    methodDecl default n (shape keep ms) (shapeAll keep tps) (shape keep rt) (shapeAll keep ps)
      (shapeAll keep ts) (shape keep b)
  | varDecl _ n ms ty i => varDecl default n (shape keep ms) (shape keep ty) (shape keep i)
  | modifiers _ fs as => modifiers default fs (shapeAll keep as)
  | annoUse _ ty as => annoUse default (shape keep ty) (shapeAll keep as)
  | typeParam _ n bs => typeParam default n (shapeAll keep bs)
  | block _ fs ss => block default fs (shapeAll keep ss)
  | ifThen _ c y n => ifThen default (shape keep c) (shape keep y) (shape keep n)
  | whileLoop _ c b => whileLoop default (shape keep c) (shape keep b)
  | doLoop _ b c => doLoop default (shape keep b) (shape keep c)
  | forLoop _ i c s b =>
    forLoop default (shapeAll keep i) (shape keep c) (shapeAll keep s) (shape keep b)
  | foreachLoop _ v e b => foreachLoop default (shape keep v) (shape keep e) (shape keep b)
  | labeled _ l b => labeled default l (shape keep b)
  | switchOn _ s cs => switchOn default (shape keep s) (shapeAll keep cs)
  | switchCase _ p ss => switchCase default (shape keep p) (shapeAll keep ss)
  | synchronizedOn _ l b => synchronizedOn default (shape keep l) (shape keep b)
  | tryCatch _ b cs f => tryCatch default (shape keep b) (shapeAll keep cs) (shape keep f)
  | catchClause _ p b => catchClause default (shape keep p) (shape keep b)
  | throwing _ e => throwing default (shape keep e)
  | returning _ e => returning default (shape keep e)
  | breaking _ l => breaking default l
  | continuing _ l => continuing default l
  | skip _ => skip default
  | exec _ e => exec default (shape keep e)
  | ident _ n => ident default n
  | select _ q n => select default (shape keep q) n
  | call _ ts c as => call default (shapeAll keep ts) (shape keep c) (shapeAll keep as)
  | newObject _ o ts t as b =>
    newObject default (shape keep o) (shapeAll keep ts) (shape keep t) (shapeAll keep as)
      (shape keep b)
  | newArray _ e ds hasInit es =>
    newArray default (shape keep e) (shapeAll keep ds) hasInit (shapeAll keep es)
  | parens _ e => if keep then parens default (shape keep e) else shape keep e
  | assign _ l r => assign default (shape keep l) (shape keep r)
  | assignOp _ op l r => assignOp default op (shape keep l) (shape keep r)
  | unary _ op a => unary default op (shape keep a)
  | binary _ op l r => binary default op (shape keep l) (shape keep r)
  | conditional _ c y n => conditional default (shape keep c) (shape keep y) (shape keep n)
  | cast _ t e => cast default (shape keep t) (shape keep e)
  | instanceOf _ e t => instanceOf default (shape keep e) (shape keep t)
  | indexed _ a i => indexed default (shape keep a) (shape keep i)
  | literal _ v => literal default v
  | primitive _ tag => primitive default tag
  | arrayType _ e => arrayType default (shape keep e)
  | typeApply _ t as => typeApply default (shape keep t) (shapeAll keep as)
  | wildcard _ b t => wildcard default b (shape keep t)

/-- The trees of a list without marks. -/
def shapeAll (keep : Bool) : List Tree → List Tree
  | [] => []
  | t :: ts => shape keep t :: shapeAll keep ts

end

section

attribute [local simp] shape shapeAll

theorem shapeAll_eq_map (keep : Bool) (ts : List Tree) : shapeAll keep ts = ts.map (shape keep) := by
  induction ts with
  | nil => rfl
  | cons t ts ih => simp [ih]

/-- Nothing is left to leave out. -/
theorem shape_shape (keep : Bool) : (∀ t, shape keep (shape keep t) = shape keep t) ∧
    ∀ ts, shapeAll keep (shapeAll keep ts) = shapeAll keep ts := by
  apply shape.mutual_induct keep (fun t => shape keep (shape keep t) = shape keep t)
    (fun ts => shapeAll keep (shapeAll keep ts) = shapeAll keep ts)
  case case33 =>
    intro m e kept inside
    rw [shape, if_pos kept, shape, if_pos kept, inside]
  case case34 =>
    intro m e dropped inside
    rw [shape, if_neg dropped, inside]
  all_goals
    intros
    simp only [shape, shapeAll, *]

end

end Weaver.Syntax.Tree

/-! ## Dotted names -/

namespace Weaver

namespace Text

/-- A name that can be a segment of a dotted name. -/
structure IsSegment (n : String) : Prop where
  nonempty : n ≠ ""
  dotless : '.' ∉ n.toList

/-- Names that are joined by dots are taken apart again. -/
theorem segments_intercalate {ns : List String} (h : ∀ n ∈ ns, IsSegment n) (some_ : ns ≠ []) :
    segments (".".intercalate ns) = ns := by
  have dotless : ∀ cs ∈ ns.map String.toList, '.' ∉ cs := by
    intro cs member
    obtain ⟨n, hn, rfl⟩ := List.mem_map.mp member
    exact (h n hn).dotless
  rw [segments, String.toList_intercalate, show ".".toList = ['.'] from rfl,
    List.splitOn_intercalate '.' dotless (by simpa using some_), List.map_map]
  exact (List.map_congr_left fun _ _ => String.ofList_toList).trans (List.map_id ns)

theorem intercalate_snoc {ns : List String} (n : String) (some_ : ns ≠ []) :
    ".".intercalate (ns ++ [n]) = ".".intercalate ns ++ "." ++ n := by
  induction ns with
  | nil => exact absurd rfl some_
  | cons x xs ih =>
    cases xs with
    | nil => simp [String.intercalate_cons_cons, String.append_assoc]
    | cons y ys =>
      rw [List.cons_append, List.cons_append, String.intercalate_cons_cons,
        String.intercalate_cons_cons, ← List.cons_append, ih (by simp), String.append_assoc,
        String.append_assoc, String.append_assoc]
      simp only [String.append_assoc]

theorem intercalate_cons (n : String) (ns : List String) :
    ".".intercalate (n :: ns) = n ++ String.join (ns.map ("." ++ ·)) := by
  induction ns generalizing n with
  | nil => simp
  | cons x xs ih =>
    rw [String.intercalate_cons_cons, ih, List.map_cons, String.join_cons, String.append_assoc,
      String.append_assoc]

/-- The first segment and the rest of joined names. -/
theorem splitFirst_intercalate {n : String} {ns : List String} (h : ∀ x ∈ n :: ns, IsSegment x) :
    splitFirst (".".intercalate (n :: ns)) = (n, String.join (ns.map ("." ++ ·))) := by
  rw [splitFirst, segments_intercalate h (List.cons_ne_nil _ _)]

end Text

namespace Syntax.Tree

/-- There are no type arguments in a chain of selections. -/
def Unapplied : Tree → Prop
  | select _ q _ => Unapplied q
  | typeApply .. => False
  | _ => True

/-- The names in a chain of selections can be segments of a dotted name. -/
def Segmented : Tree → Prop
  | ident _ n => Text.IsSegment n
  | select _ q n => Segmented q ∧ Text.IsSegment n
  | typeApply _ t _ => Segmented t
  | _ => True

/-- The chain of segments that are already known. -/
theorem ofDotted_intercalate (m : Mark) {n : String} {ns : List String}
    (h : ∀ x ∈ n :: ns, Text.IsSegment x) :
    ofDotted m (".".intercalate (n :: ns)) = ns.foldl (fun e x => select m e x) (ident m n) := by
  rw [ofDotted, Text.segments_intercalate h (List.cons_ne_nil _ _)]

/-- The name of a chain is made of segments, and the chain of the name is the chain, up to marks. -/
theorem exists_segments {t : Tree} {q : String} (named : t.qualifiedName? = some q)
    (segmented : t.Segmented) : ∃ n ns, (∀ x ∈ n :: ns, Text.IsSegment x) ∧
      q = ".".intercalate (n :: ns) ∧
      (t.Unapplied → ∀ m, (ofDotted m q).shape true = t.shape true) := by
  induction t using qualifiedName?.induct generalizing q with
  | case1 m n =>
    have single : ∀ x ∈ [n], Text.IsSegment x := fun x hx => by
      rw [List.mem_singleton.mp hx]
      exact segmented
    refine ⟨n, [], single, ?_, fun _ m' => ?_⟩
    · rw [← Option.some.inj named, String.intercalate_singleton]
    · have chain := ofDotted_intercalate m' single
      rw [String.intercalate_singleton] at chain
      rw [← Option.some.inj named, chain]
      rfl
  | case2 m q' n ih =>
    obtain ⟨q₀, named₀, rfl⟩ := Option.map_eq_some_iff.mp named
    obtain ⟨first, ns, segments, rfl, chain⟩ := ih named₀ segmented.1
    have more : ∀ x ∈ first :: (ns ++ [n]), Text.IsSegment x := by
      intro x hx
      rcases List.mem_append.mp (List.cons_append ▸ hx : x ∈ (first :: ns) ++ [n]) with hx | hx
      · exact segments x hx
      · rw [List.mem_singleton.mp hx]
        exact segmented.2
    have joined := Text.intercalate_snoc n (List.cons_ne_nil first ns)
    refine ⟨first, ns ++ [n], more, joined.symm, fun unapplied m' => ?_⟩
    have before := chain unapplied m'
    rw [ofDotted_intercalate m' segments] at before
    rw [← joined, List.cons_append, ofDotted_intercalate m' more, List.foldl_append]
    simp only [List.foldl_cons, List.foldl_nil, shape, before]
  | case3 m t as ih =>
    obtain ⟨first, ns, segments, same, -⟩ := ih named segmented
    exact ⟨first, ns, segments, same, False.elim⟩
  | case4 t h₁ h₂ h₃ =>
    cases t
    case ident => exact absurd rfl (h₁ _ _)
    case select => exact absurd rfl (h₂ _ _ _)
    case typeApply => exact absurd rfl (h₃ _ _ _)
    all_goals exact absurd named (by simp [qualifiedName?])

/-- Names that are joined are a name without a dot in front. -/
theorem intercalate_plain {n : String} {ns : List String}
    (h : ∀ x ∈ n :: ns, Text.IsSegment x) :
    (".".intercalate (n :: ns)).isEmpty = false ∧
      (".".intercalate (n :: ns)).startsWith "." = false := by
  have first := h n List.mem_cons_self
  rw [Text.intercalate_cons]
  cases chars : n.toList with
  | nil => exact absurd (String.toList_inj.mp (chars.trans rfl)) first.nonempty
  | cons c cs =>
    have other : c ≠ '.' := fun same => first.dotless (by rw [chars, same]; exact List.mem_cons_self)
    constructor
    · rw [← Bool.not_eq_true, String.isEmpty_iff]
      intro empty
      have none_left := congrArg String.toList empty
      rw [String.toList_append, chars] at none_left
      exact absurd none_left (List.cons_ne_nil _ _)
    · rw [← Bool.not_eq_true, String.startsWith_string_iff, String.toList_append, chars]
      exact fun dot => other (List.cons_prefix_cons.mp dot).1.symm

end Syntax.Tree

end Weaver
