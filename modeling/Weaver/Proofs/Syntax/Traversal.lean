import Mathlib.Control.Lawful
import Weaver.Main
/-!
The walks through trees agree.

`children`, `visit` and `replaceM` each list the parts of all kinds of nodes on their own. Replacing
with a visitor that keeps its nodes does to a tree what `visit` lists, in any monad, and a visitor
that rewrites the parts of the root meets `children`. A part that one of the walks left out would be
lost in copies or hidden from those who look for it.
-/
set_option autoImplicit false

namespace Weaver.Syntax.Tree

mutual

/-- Nothing is missing from a list, and an array without an initializer has no elements. -/
def Whole : Tree → Prop
  | missing => True
  | unit _ _ p is ds => Whole p ∧ WholeAll is ∧ WholeAll ds
  | classDecl _ _ ms tps e is ds =>
    Whole ms ∧ WholeAll tps ∧ Whole e ∧ WholeAll is ∧ WholeAll ds
  | methodDecl _ _ ms tps r ps ts b =>
    Whole ms ∧ WholeAll tps ∧ Whole r ∧ WholeAll ps ∧ WholeAll ts ∧ Whole b
  | forLoop _ i c s b => WholeAll i ∧ Whole c ∧ WholeAll s ∧ Whole b
  | tryCatch _ b cs f => Whole b ∧ WholeAll cs ∧ Whole f
  | call _ ts c as => WholeAll ts ∧ Whole c ∧ WholeAll as
  | newObject _ o ts t as b => Whole o ∧ WholeAll ts ∧ Whole t ∧ WholeAll as ∧ Whole b
  | newArray _ e ds hasInit es =>
    (hasInit = false → es = []) ∧ Whole e ∧ WholeAll ds ∧ WholeAll es
  | varDecl _ _ a b c | ifThen _ a b c | foreachLoop _ a b c | conditional _ a b c =>
    Whole a ∧ Whole b ∧ Whole c
  | whileLoop _ a b | doLoop _ a b | synchronizedOn _ a b | catchClause _ a b | assign _ a b
  | assignOp _ _ a b | binary _ _ a b | cast _ a b | instanceOf _ a b | indexed _ a b =>
    Whole a ∧ Whole b
  | importDecl _ _ a | labeled _ _ a | throwing _ a | returning _ a | exec _ a | select _ a _
  | parens _ a | unary _ _ a | arrayType _ a | wildcard _ _ a => Whole a
  | annoUse _ a as | switchOn _ a as | switchCase _ a as | typeApply _ a as =>
    Whole a ∧ WholeAll as
  | modifiers _ _ as | typeParam _ _ as | block _ _ as => WholeAll as
  | breaking .. | continuing .. | skip _ | ident .. | literal .. | primitive .. => True

/-- The trees of a list are there and whole. -/
def WholeAll : List Tree → Prop
  | [] => True
  | t :: ts => t ≠ missing ∧ Whole t ∧ WholeAll ts

end

section Equations

variable {m : Type → Type} [Monad m] (f : Tree → m Visit) (stop : Tree → Bool) (t : Tree)
  (ts : List Tree)

@[simp] theorem visit_missing : visit stop missing = [] := rfl

@[simp] theorem visitAll_nil : visitAll stop [] = [] := rfl

theorem visitAll_cons : visitAll stop (t :: ts) = visit stop t ++ visitAll stop ts := rfl

@[simp] theorem replaceM_missing : replaceM f missing = pure missing := rfl

@[simp] theorem replaceAllM_nil : replaceAllM f [] = pure [] := rfl

theorem replaceAllM_cons : replaceAllM f (t :: ts) = do
    let r ← replaceM f t
    let rs ← replaceAllM f ts
    return if r.isMissing then rs else r :: rs :=
  rfl

end Equations

/-! ## Keeping every node -/

section Keeping

variable {m : Type → Type} [Monad m] [LawfulMonad m]

/-- The visitor that returns its argument; something is done at every node, and the children of
those that satisfy the condition are left alone. -/
def keeping {m : Type → Type} [Monad m] (note : Tree → m Unit) (stop : Tree → Bool) (t : Tree) :
    m Visit := do
  note t
  return if stop t then .leave else .enter

theorem isMissing_eq_false {t : Tree} (there : t ≠ missing) : t.isMissing = false := by
  cases t
  case missing => exact absurd rfl there
  all_goals rfl

/-- A node with its parts: if entering it does what its parts are to have done, the whole visit does
that at the node and below. -/
theorem visited_keeping {note : Tree → m Unit} {stop : Tree → Bool} {t : Tree} {enter : m Tree}
    {below : List Tree} (entered : enter = do forM below note; return t) :
    visited (keeping note stop) t enter = do forM (andBelow stop t below) note; return t := by
  subst entered
  cases stopped : stop t <;> simp [visited, keeping, andBelow, stopped]

/-- The same at a node without parts. -/
theorem visited_keeping_leaf {note : Tree → m Unit} {stop : Tree → Bool} {t : Tree} :
    visited (keeping note stop) t (pure t) = do forM [t] note; return t := by
  cases stopped : stop t <;> simp [visited, keeping, stopped]

mutual

/-- Replacing with a visitor that keeps its nodes does at the nodes that are visited what it does
at each of them, in their order, and the tree stays as it is. -/
theorem replaceM_keeping (note : Tree → m Unit) (stop : Tree → Bool) (t : Tree) (whole : t.Whole) :
    t.replaceM (keeping note stop) = do forM (visit stop t) note; return t := by
  cases t with
  | missing => rw [replaceM_missing, visit_missing, List.forM_nil, pure_bind]
  | breaking | continuing | skip | ident | literal | primitive => exact visited_keeping_leaf
  | newArray mark e ds hasInit es =>
    -- the elements are rewritten only behind an initializer, but visited in any case
    obtain ⟨gone, wholeElem, wholeDims, wholeElems⟩ := whole
    refine visited_keeping ?_
    rw [replaceM_keeping note stop e wholeElem, replaceAllM_keeping note stop ds wholeDims,
      replaceAllM_keeping note stop es wholeElems]
    cases hasInit with
    | true => simp
    | false => simp [gone rfl]
  | _ =>
    -- the parts are rewritten one after the other, in the order in which they are visited
    refine visited_keeping ?_
    unfold Whole at whole
    simp only [replaceM_keeping note stop _, replaceAllM_keeping note stop _, whole,
      List.forM_append, bind_assoc, pure_bind]

/-- The same of the trees of a list. -/
theorem replaceAllM_keeping (note : Tree → m Unit) (stop : Tree → Bool) (ts : List Tree)
    (whole : WholeAll ts) :
    replaceAllM (keeping note stop) ts = do forM (visitAll stop ts) note; return ts := by
  cases ts with
  | nil => rw [replaceAllM_nil, visitAll_nil, List.forM_nil, pure_bind]
  | cons t ts =>
    rw [replaceAllM_cons, visitAll_cons, replaceM_keeping note stop t whole.2.1,
      replaceAllM_keeping note stop ts whole.2.2]
    simp [isMissing_eq_false whole.1]

end

end Keeping

/-- The visitor that writes down where it is and returns its argument. -/
def recording (stop : Tree → Bool) : Tree → StateM (List Tree) Visit :=
  keeping (fun t => modify (· ++ [t])) stop

theorem run_forM_modify (ts : List Tree) (log : List Tree) :
    (forM ts (fun t => modify (· ++ [t])) : StateM (List Tree) Unit).run log =
      pure ((), log ++ ts) := by
  induction ts generalizing log with
  | nil => simp
  | cons t ts ih => simp [ih]

theorem replaceM_recording {t : Tree} (whole : t.Whole) (stop : Tree → Bool) :
    (t.replaceM (recording stop)).run [] = (t, t.visit stop) := by
  rw [recording, replaceM_keeping _ stop t whole, StateT.run_bind, run_forM_modify]
  rfl

/-- A copy is the tree that was copied, with all its marks. -/
theorem copy_eq {t : Tree} (whole : t.Whole) : t.copy = t := by
  have kept : t.replaceM (keeping (m := Id) (fun _ => pure ()) fun _ => false) =
      do forM (t.visit fun _ => false) (fun _ => pure ()); return t :=
    replaceM_keeping (fun _ => pure ()) _ t whole
  exact kept.trans rfl

/-! ## The parts of a node -/

theorem visitAll_eq (stop : Tree → Bool) (ts : List Tree) :
    visitAll stop ts = ts.flatMap (visit stop) := by
  induction ts with
  | nil => rfl
  | cons t ts ih => rw [visitAll_cons, ih, List.flatMap_cons]

theorem flatMap_visit_filter (stop : Tree → Bool) (ts : List Tree) :
    (ts.filter (!·.isMissing)).flatMap (visit stop) = ts.flatMap (visit stop) := by
  induction ts with
  | nil => rfl
  | cons t ts ih =>
    cases t
    case missing => simpa [isMissing] using ih
    all_goals simpa [isMissing] using ih

attribute [local simp] visit places

/-- What is visited below a node are its children and what is below them. -/
theorem visit_eq (stop : Tree → Bool) {t : Tree} (there : t ≠ missing) :
    t.visit stop = andBelow stop t (t.children.flatMap (visit stop)) := by
  rw [children, flatMap_visit_filter]
  cases t
  case missing => exact absurd rfl there
  all_goals simp [visitAll_eq, andBelow]

/-! ## Rewriting the parts of a node -/

/-- What stands in a place. -/
def here (t : Tree) : List Tree :=
  if t.isMissing then [] else [t]

/-- What stands in a list of places. -/
def present (ts : List Tree) : List Tree :=
  ts.filter (!·.isMissing)

/-- The visitor that enters the first node it sees and puts another tree in the place of each of
those that follow. It writes down where it is. -/
def rewriting (g : Tree → Tree) (t : Tree) : StateM (List Tree) Visit := do
  let seen ← get
  set (seen ++ [t])
  return if seen.isEmpty then .enter else .replace (g t)

/-- What comes to stand in a place. -/
def rewritten (g : Tree → Tree) (t : Tree) : Tree :=
  if t.isMissing then missing else g t

theorem present_nil : present [] = [] := rfl

theorem present_cons (t : Tree) (ts : List Tree) : present (t :: ts) = here t ++ present ts := by
  cases gone : t.isMissing <;> simp [present, here, gone]

theorem present_append (ts us : List Tree) : present (ts ++ us) = present ts ++ present us :=
  List.filter_append ts us

theorem present_present (ts : List Tree) : present (present ts) = present ts := by
  simp [present]

section Rewriting

variable {g : Tree → Tree} {log : List Tree}

theorem here_rewritten (t : Tree) : here (rewritten g t) = present ((here t).map g) := by
  cases gone : t.isMissing
  · simp [here, rewritten, gone, present_cons, present_nil]
  · have empty : isMissing missing = true := rfl
    simp [here, rewritten, gone, empty, present_nil]

/-- A visitor is asked at every node. -/
theorem replaceM_visits {m : Type → Type} [Monad m] (f : Tree → m Visit) {t : Tree}
    (there : t ≠ missing) : ∃ enter, t.replaceM f = visited f t enter := by
  cases t
  case missing => exact absurd rfl there
  all_goals exact ⟨_, rfl⟩

theorem run_rewriting (t : Tree) (seen : log ≠ []) :
    (t.replaceM (rewriting g)).run log = pure (rewritten g t, log ++ here t) := by
  -- no visitor is asked where nothing stands
  by_cases there : t = missing
  · simp [there, rewritten, here, isMissing]
  · obtain ⟨enter, asked⟩ := replaceM_visits (rewriting g) there
    simp [asked, visited, rewriting, rewritten, here, seen, isMissing_eq_false there]

theorem run_rewritingAll (ts : List Tree) (seen : log ≠ []) :
    (replaceAllM (rewriting g) ts).run log =
      pure (present ((present ts).map g), log ++ present ts) := by
  induction ts generalizing log with
  | nil => simp [present]
  | cons t ts ih =>
    have more : log ++ here t ≠ [] := by simp [seen]
    rw [replaceAllM_cons, StateT.run_bind, run_rewriting t seen, pure_bind, StateT.run_bind, ih more,
      present_cons, List.map_append, present_append, ← here_rewritten]
    cases gone : (rewritten g t).isMissing <;> simp [gone, here]

/-- Rewriting the parts of a node meets its children, in their order, and what it puts in their
places are the children of the result. -/
theorem rewriting_children {t : Tree} (whole : t.Whole) (there : t ≠ missing) :
    ∃ r, (t.replaceM (rewriting g)).run [] = (r, t :: t.children) ∧
      r.children = (t.children.map g).filter (!·.isMissing) ∧ r.kind = t.kind ∧
        r.mark = t.mark := by
  -- the root is the first node that is seen, so it is entered and its parts are not
  have first (enter : StateM (List Tree) Tree) :
      (visited (rewriting g) t enter).run [] = enter.run [t] := by
    simp [visited, rewriting]
  change ∃ r : Tree, _ = (r, t :: present t.places) ∧
    present r.places = present ((present t.places).map g) ∧ _
  cases t
  case missing => exact absurd rfl there
  case' newArray hasInit es =>
    cases hasInit
    case' false => obtain rfl : es = [] := whole.1 rfl
  all_goals
    change ∃ r, (visited (rewriting g) _ _).run [] = _ ∧ _
    rw [first]
    simp only [StateT.run_bind, StateT.run_pure, run_rewriting, run_rewritingAll, pure_bind, ne_eq,
      List.cons_ne_nil, not_false_eq_true, List.cons_append, List.nil_append, List.append_assoc,
      Bool.false_eq_true, if_true, if_false]
    refine ⟨_, Prod.ext rfl ?_, ?_, rfl, rfl⟩
    · simp only [places, present_cons, present_append, present_nil, List.append_nil,
        List.append_assoc, List.cons_append]
      rfl
    · simp only [places, present_cons, present_append, present_nil, present_present, here_rewritten,
        List.append_nil, List.append_assoc, List.cons_append, List.map_append, List.map_nil]

end Rewriting

/-! ## The walks agree -/

/-- The walks through a tree agree: replacing with a visitor that returns its argument meets what
`visit` lists, whatever nodes they leave the children of alone, and gives the tree back; below a
node `visit` goes through its children; these are the parts that are rewritten, in the same order;
and a copy is the tree. -/
theorem walks_agree {t : Tree} (whole : t.Whole) :
    (∀ stop, (t.replaceM (recording stop)).run [] = (t, t.visit stop)) ∧
      (t ≠ missing → ∀ stop, t.visit stop = andBelow stop t (t.children.flatMap (visit stop))) ∧
      (t ≠ missing → ∀ g, ∃ r, (t.replaceM (rewriting g)).run [] = (r, t :: t.children) ∧
        r.children = (t.children.map g).filter (!·.isMissing) ∧ r.kind = t.kind ∧
        r.mark = t.mark) ∧
      t.copy = t :=
  ⟨replaceM_recording whole, fun there stop => visit_eq stop there,
    fun there _ => rewriting_children whole there, copy_eq whole⟩

/-- The statement `new <A> B({x});`. -/
def creation : Tree :=
  .exec default (.newObject default .missing [.ident default "A"] (.ident default "B")
    [.newArray default .missing [] true [.ident default "x"]] .missing)

/-- The walks agree on a creation, with and without what is inside its array. -/
theorem walks_agree_creation :
    creation.Whole ∧
      (creation.replaceM (recording fun _ => false)).run [] = (creation, creation.nodes) ∧
      (creation.replaceM (recording (·.kind == "NewArray"))).run [] =
        (creation, creation.visit (·.kind == "NewArray")) ∧
      (creation.visit (·.kind == "NewArray")).map kind =
        ["ExpressionStatement", "NewClass", "Ident", "Ident", "NewArray"] ∧
      creation.copy = creation := by
  have whole : creation.Whole := by simp [creation, Whole, WholeAll]
  exact ⟨whole, (walks_agree whole).1 _, (walks_agree whole).1 _, rfl, (walks_agree whole).2.2.2⟩

end Weaver.Syntax.Tree
