import Weaver.Proofs.SourceUnit.Follow
/-!
What is registered.

The elements in a declaration are registered with the declarations they are made from: under each
key there is the number of a declaration of the right kind, the elements in an element are made from
what is in its declaration, and the element around them is known. No two elements that are
registered together are made from the same declaration.
-/
set_option autoImplicit false

namespace Weaver

open Weaver.Syntax (Tree Mark)
open Weaver.Syntax.Tree

namespace Registry

variable {r : Registry} {j k next parent : Key} {n : Node} {t d : Tree} {ds : List Tree}

/-- The number of the declaration of an element. -/
def number (r : Registry) (k : Key) : Nat := (r.node? k).elim 0 (·.decl)

theorem number_of_node (node : r.node? k = some n) : r.number k = n.decl := by
  rw [number, node]
  rfl

/-- Under some keys there are the elements of parameters, in their order. -/
def ShowsParams (r : Registry) (keys : List Key) (ps : List Tree) : Prop :=
  List.Forall₂ (fun c p => ∃ parent, r.node? c = some ⟨.param, p.id, parent, []⟩) keys ps

/-- The elements in an element are those of what is in its declaration. -/
structure Made (r : Registry) (n : Node) (d : Tree) : Prop where
  number : d.id = n.decl
  suits : d.Suits n.kind
  members : n.kind = .type → r.ShowsAll n.children d.defs
  params : n.kind = .method → r.ShowsParams n.children d.params

/-- Elements are registered with the element around them. -/
def Around (r : Registry) (parent : Key) (keys : List Key) : Prop :=
  ∀ c ∈ keys, ∃ n, r.node? c = some n ∧ n.parent = some parent

/-- Nodes that stand in a registry from a key on are those of some declarations. -/
structure Fits (r : Registry) (next parent : Key) (g : Growth) (ds : List Tree) : Prop where
  numbers : (g.nodes.map (·.decl)).Sublist (numbersAll ds)
  outer : r.Around parent g.keys
  made : ∀ n ∈ g.nodes, ∃ d ∈ numberedAll ds, r.Made n d
  inner : ∀ (i : Nat) n, g.nodes[i]? = some n → r.Around (next + i) n.children

theorem Fits.none (r : Registry) (next parent : Key) : r.Fits next parent .none ds where
  numbers := List.nil_sublist _
  outer := nofun
  made := nofun
  inner := nofun

theorem Fits.append {g g' : Growth} (h : r.Fits next parent g [t])
    (h' : r.Fits (next + g.nodes.length) parent g' ds) :
    r.Fits next parent (g.append g') (t :: ds) where
  numbers := by
    rw [Growth.append, List.map_append, numbersAll_cons]
    have here := h.numbers
    rw [numbersAll_singleton] at here
    exact here.append h'.numbers
  outer c hc := (List.mem_append.mp hc).elim (h.outer c) (h'.outer c)
  made n hn := by
    rcases List.mem_append.mp hn with hn | hn
    · obtain ⟨d, hd, made⟩ := h.made n hn
      rw [numberedAll, numberedAll, List.append_nil] at hd
      exact ⟨d, List.mem_append_left _ hd, made⟩
    · obtain ⟨d, hd, made⟩ := h'.made n hn
      exact ⟨d, List.mem_append_right _ hd, made⟩
  inner i n hi := by
    rw [Growth.append, List.getElem?_append] at hi
    split at hi
    · exact h.inner i n hi
    · next after =>
      have there := h'.inner _ n hi
      rwa [Nat.add_assoc, Nat.add_sub_of_le (Nat.not_lt.mp after)] at there

/-- An element above others. -/
theorem Fits.below {kind : NodeKind} {g : Growth} (declared : t.isDeclaration)
    (holds : r.Holds next (Growth.below next parent kind t.id g).nodes)
    (made : r.Made ⟨kind, t.id, some parent, g.keys⟩ t) (h : r.Fits (next + 1) next g t.inner) :
    r.Fits next parent (.below next parent kind t.id g) [t] where
  numbers := by
    rw [numbersAll_singleton, Syntax.Tree.numbers, numbered_eq declared]
    exact h.numbers.cons_cons _
  outer c hc := by
    rw [List.mem_singleton.mp hc]
    exact ⟨_, holds.head, rfl⟩
  made n hn := by
    rw [numberedAll, numberedAll, List.append_nil, numbered_eq declared]
    rcases List.mem_cons.mp hn with rfl | hn
    · exact ⟨t, List.mem_cons_self, made⟩
    · obtain ⟨d, hd, made⟩ := h.made n hn
      exact ⟨d, List.mem_cons_of_mem _ hd, made⟩
  inner i n hi := by
    cases i with
    | zero =>
      obtain rfl : _ = n := Option.some.inj hi
      exact h.outer
    | succ i =>
      have there := h.inner i n hi
      rwa [Nat.add_assoc, Nat.add_comm 1 i] at there

theorem isDeclaration_of_isVariable (h : t.isVariable) : t.isDeclaration := by
  cases t
  case varDecl => rfl
  all_goals exact absurd h Bool.false_ne_true

theorem fits_params {ps : List Tree} (vars : ∀ p ∈ ps, p.isVariable) (next : Key)
    (holds : r.Holds next (Growth.ofParams next parent ps).nodes) :
    r.Fits next parent (Growth.ofParams next parent ps) ps := by
  induction ps generalizing next with
  | nil => exact .none r next parent
  | cons p ps ih =>
    have var := vars p List.mem_cons_self
    have suits : p.Suits .param ∧ p.inner = [] := by
      cases p
      case varDecl => exact ⟨trivial, rfl⟩
      all_goals exact absurd var Bool.false_ne_true
    refine .append (.below (isDeclaration_of_isVariable var) holds.left ?_ ?_)
      (ih (fun q hq => vars q (List.mem_cons_of_mem _ hq)) (next + 1) holds.tail)
    · exact ⟨rfl, suits.1, (nomatch ·), (nomatch ·)⟩
    · rw [suits.2]
      exact .none r _ _

/-- What is registered for members fits them. -/
theorem fits_members (r : Registry) :
    (∀ next parent t, (∀ d ∈ numbered t, ∀ p ∈ d.params, p.isVariable) →
        r.Holds next (Growth.ofMember next parent t).nodes →
      r.Fits next parent (Growth.ofMember next parent t) [t]) ∧
    ∀ next parent ds, (∀ d ∈ numberedAll ds, ∀ p ∈ d.params, p.isVariable) →
        r.Holds next (Growth.ofMembers next parent ds).nodes →
      r.Fits next parent (Growth.ofMembers next parent ds) ds := by
  refine Growth.ofMember.mutual_induct
    (fun next parent t => (∀ d ∈ numbered t, ∀ p ∈ d.params, p.isVariable) →
        r.Holds next (Growth.ofMember next parent t).nodes →
      r.Fits next parent (Growth.ofMember next parent t) [t])
    (fun next parent ds => (∀ d ∈ numberedAll ds, ∀ p ∈ d.params, p.isVariable) →
        r.Holds next (Growth.ofMembers next parent ds).nodes →
      r.Fits next parent (Growth.ofMembers next parent ds) ds)
    ?type ?method ?constant ?field ?other ?nil ?cons
  case type =>
    intro next parent m n ms tps e is ds ih vars h
    rw [Growth.ofMember] at h ⊢
    have inner := ih (fun d hd => vars d (List.mem_cons_of_mem _ hd)) h.tail
    refine .below (t := classDecl m n ms tps e is ds) rfl h
      ⟨rfl, trivial, fun _ => (shows_members r).2 _ _ _ h.tail, fun other => NodeKind.noConfusion other⟩ ?_
    rwa [show (classDecl m n ms tps e is ds).inner = ds from List.append_nil ds]
  case method =>
    intro next parent m n ms tps res ps ts b vars h
    rw [Growth.ofMember] at h ⊢
    exact .below (t := methodDecl m n ms tps res ps ts b) rfl h
      ⟨rfl, trivial, fun other => NodeKind.noConfusion other, fun _ => shows_params _ _ ps h.tail⟩
      (fits_params (vars _ List.mem_cons_self) _ h.tail)
  case constant =>
    intro next parent m n ms t i constant vars h
    rw [Growth.ofMember, if_pos constant]
    exact .none r next parent
  case field =>
    intro next parent m n ms t i variable_ vars h
    rw [Growth.ofMember, if_neg variable_] at h ⊢
    exact .below (t := varDecl m n ms t i) rfl h
      ⟨rfl, trivial, fun other => NodeKind.noConfusion other, fun other => NodeKind.noConfusion other⟩
      (.none r _ _)
  case other =>
    intro t next parent h₁ h₂ h₃ vars h
    rw [Growth.ofMember.eq_4 next parent t h₁ h₂ h₃]
    exact .none r next parent
  case nil => exact fun next parent _ _ => .none r next parent
  case cons =>
    intro next parent t ts first here there vars h
    rw [Growth.ofMembers] at h ⊢
    exact .append (here (fun d hd => vars d (List.mem_append_left _ hd)) h.left)
      (there (fun d hd => vars d (List.mem_append_right _ hd)) h.right)

/-! ## Registering anew -/

theorem node_rebuild (h : r.node? j = some n) : (r.rebuild k t).node? j =
    some (if j = k then { n with children := (Growth.inside r.nodes.size k t).keys } else n) := by
  obtain ⟨inside, -⟩ := Array.getElem?_eq_some_iff.mp h
  unfold rebuild node?
  rw [Array.getElem?_append_left (by rw [Array.size_modify]; exact inside), Array.getElem?_modify,
    show r.nodes[j]? = some n from h]
  by_cases hk : j = k
  · rw [if_pos hk.symm, if_pos hk, Option.map_some]
  · rw [if_neg (Ne.symm hk), if_neg hk]

theorem holds_rebuild (r : Registry) (k : Key) (t : Tree) :
    (r.rebuild k t).Holds r.nodes.size (Growth.inside r.nodes.size k t).nodes := by
  intro i n hi
  unfold rebuild node?
  rw [Array.getElem?_append_right (by rw [Array.size_modify]; exact Nat.le_add_right _ _),
    Array.size_modify, Nat.add_sub_cancel_left, List.getElem?_toArray]
  exact hi

/-- What is registered after an element was registered anew was registered before, or is in the
element. -/
theorem node_of_rebuild (h : (r.rebuild k t).node? j = some n) :
    (∃ n', r.node? j = some n' ∧ n.kind = n'.kind ∧ n.decl = n'.decl) ∨
      n ∈ (Growth.inside r.nodes.size k t).nodes := by
  cases old : r.node? j with
  | some n' =>
    rw [node_rebuild old] at h
    refine .inl ⟨n', rfl, ?_⟩
    rw [← Option.some.inj h]
    split <;> exact ⟨rfl, rfl⟩
  | none =>
    have outside : r.nodes.size ≤ j := by
      rw [node?, Array.getElem?_eq_none_iff] at old
      exact old
    unfold rebuild node? at h
    rw [Array.getElem?_append_right (by rw [Array.size_modify]; exact outside),
      List.getElem?_toArray] at h
    exact .inr (List.mem_of_getElem? h)

theorem kind_of_params {ps : List Tree} (h : n ∈ (Growth.ofParams next parent ps).nodes) :
    n.kind ≠ .unit := by
  induction ps generalizing next with
  | nil => exact absurd h List.not_mem_nil
  | cons p ps ih =>
    rcases List.mem_cons.mp h with rfl | h
    · exact nofun
    · exact ih h

/-- No element in another one is the unit. -/
theorem kind_of_member_of_members :
    (∀ next parent t, ∀ n ∈ (Growth.ofMember next parent t).nodes, n.kind ≠ .unit) ∧
      ∀ next parent ds, ∀ n ∈ (Growth.ofMembers next parent ds).nodes, n.kind ≠ .unit := by
  refine Growth.ofMember.mutual_induct
    (fun next parent t => ∀ n ∈ (Growth.ofMember next parent t).nodes, n.kind ≠ .unit)
    (fun next parent ds => ∀ n ∈ (Growth.ofMembers next parent ds).nodes, n.kind ≠ .unit)
    ?type ?method ?constant ?field ?other ?nil ?cons
  case type =>
    intro next parent m n ms tps e is ds ih node h
    rcases List.mem_cons.mp h with rfl | h
    · exact fun same => NodeKind.noConfusion same
    · exact ih node h
  case method =>
    intro next parent m n ms tps res ps ts b node h
    rcases List.mem_cons.mp h with rfl | h
    · exact fun same => NodeKind.noConfusion same
    · exact kind_of_params h
  case constant =>
    intro next parent m n ms t i constant node h
    rw [Growth.ofMember, if_pos constant] at h
    exact absurd h List.not_mem_nil
  case field =>
    intro next parent m n ms t i variable_ node h
    rw [Growth.ofMember, if_neg variable_] at h
    rw [List.mem_singleton.mp h]
    exact fun same => NodeKind.noConfusion same
  case other =>
    intro t next parent h₁ h₂ h₃ node h
    rw [Growth.ofMember.eq_4 next parent t h₁ h₂ h₃] at h
    exact absurd h List.not_mem_nil
  case nil => exact fun _ _ node h => absurd h List.not_mem_nil
  case cons =>
    intro next parent t ts first here there node h
    rcases List.mem_append.mp h with h | h
    · exact here node h
    · exact there node h

theorem kind_of_inside (h : n ∈ (Growth.inside next parent t).nodes) : n.kind ≠ .unit := by
  cases t
  case unit => exact kind_of_member_of_members.2 _ _ _ n h
  case classDecl => exact kind_of_member_of_members.2 _ _ _ n h
  case methodDecl => exact kind_of_params h
  all_goals exact absurd h List.not_mem_nil

/-- Every element under some keys is that of a member. -/
theorem mem_showsAll {keys : List Key} {c : Key} (shown : r.ShowsAll keys ds) (member : c ∈ keys) :
    ∃ d ∈ ds, ∃ kind, d.nodeKind? = some kind ∧ r.Shows c d := by
  induction ds generalizing keys with
  | nil =>
    rw [show keys = [] from shown] at member
    exact absurd member List.not_mem_nil
  | cons d ds ih =>
    have later (keys : List Key) (shown : r.ShowsAll keys ds) (member : c ∈ keys) :
        ∃ d' ∈ d :: ds, ∃ kind, d'.nodeKind? = some kind ∧ r.Shows c d' := by
      obtain ⟨d', hd', element⟩ := ih shown member
      exact ⟨d', List.mem_cons_of_mem _ hd', element⟩
    rw [ShowsAll] at shown
    cases element : d.nodeKind? with
    | none =>
      rw [element] at shown
      exact later keys shown member
    | some kind =>
      rw [element] at shown
      obtain ⟨k, ks, rfl, here, others⟩ := shown
      rcases List.mem_cons.mp member with rfl | member
      · exact ⟨d, List.mem_cons_self, kind, element, here⟩
      · exact later ks others member

theorem mem_showsParams {keys : List Key} {ps : List Tree} {c : Key} (shown : r.ShowsParams keys ps)
    (member : c ∈ keys) : ∃ p ∈ ps, ∃ n, r.node? c = some n ∧ n.decl = p.id := by
  induction shown with
  | nil => exact absurd member List.not_mem_nil
  | cons here _ ih =>
    rcases List.mem_cons.mp member with rfl | member
    · obtain ⟨parent, node⟩ := here
      exact ⟨_, List.mem_cons_self, _, node, rfl⟩
    · obtain ⟨p, hp, there⟩ := ih member
      exact ⟨p, List.mem_cons_of_mem _ hp, there⟩

end Registry

end Weaver
