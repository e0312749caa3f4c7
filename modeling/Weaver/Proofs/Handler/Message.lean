import Mathlib.Data.List.Basic
import Mathlib.Data.List.TakeWhile
import Weaver.Main
/-!
What the message of an exception comes to when it is thrown.

A message names parameters by references, and the values of the parameters take their place when the
generated code runs: it calls `java.lang.String.format` with a placeholder for each reference and
with the parameters as arguments. What a message is meant to say is told here without any format
(`Text.Reference.Means`), and what a formatter makes of a format by the directives that it knows
(`Formatter.run`).

Placeholders and arguments always belong together, in their order and in their number. The text
between the references, however, becomes part of the format as it stands, and a percent sign in it is
read as the beginning of a directive. So a message comes out as it is meant exactly if it has no
percent sign (`Handler.formatted_meant_iff`).
-/
set_option autoImplicit false

namespace Weaver

/-! ## What a message is meant to say -/

namespace Text.Reference

/-- A name that is followed by what cannot belong to it, so that it is as long as it can be. -/
structure IsName (name rest : List Char) : Prop where
  start : name.head?.any isStart = true
  part : ∀ c ∈ name, isPart c = true
  ends : rest.head?.any isPart = false

/-- A message with the values of some names in the place of the references to them. Everything else
in it stays as it is: references to other names, too, and dollar signs that refer to nothing. -/
inductive Means (names : List String) (value : String → String) : List Char → List Char → Prop where
  | done : Means names value [] []
  | reference {name rest out : List Char} (isName : IsName name rest)
    (known : String.ofList name ∈ names) (others : Means names value rest out) :
    Means names value ('$' :: (name ++ rest)) ((value (String.ofList name)).toList ++ out)
  | literal {c : Char} {rest out : List Char}
    (plain : c = '$' → ∀ name rest', rest = name ++ rest' → IsName name rest' →
      String.ofList name ∉ names)
    (others : Means names value rest out) : Means names value (c :: rest) (c :: out)

variable {names : List String} {value : String → String} {name rest cs out : List Char} {c : Char}

theorem isPart_of_isStart (h : isStart c = true) : isPart c = true := by
  rw [isStart, Bool.or_eq_true] at h
  rw [isPart, Char.isAlphanum, Bool.or_eq_true, Bool.or_eq_true]
  exact h.imp_left .inl

/-- No character of a name is a percent sign. -/
theorem not_mem_percent (part : ∀ c ∈ name, isPart c = true) : '%' ∉ name :=
  fun member => absurd (part '%' member) (by decide)

/-- What belongs to the name at the beginning of a text. -/
theorem takeWhile_name (isName : IsName name rest) : (name ++ rest).takeWhile isPart = name := by
  rw [List.takeWhile_append_of_pos isName.part]
  cases rest with
  | nil => rw [List.takeWhile_nil, List.append_nil]
  | cons c cs =>
    have stops : isPart c = false := isName.ends
    rw [List.takeWhile_cons, stops]
    exact List.append_nil name

/-- A text that begins as a name does begins with a name. -/
theorem exists_name (start : cs.head?.any isStart = true) :
    IsName (cs.takeWhile isPart) (cs.dropWhile isPart) where
  start := by
    cases cs with
    | nil => exact start
    | cons c cs =>
      rw [List.takeWhile_cons, isPart_of_isStart start]
      exact start
  part c member := List.mem_takeWhile_imp member
  ends := by
    cases left : (cs.dropWhile isPart).head? with
    | none => rfl
    | some c =>
      have stops := List.head?_dropWhile_not isPart cs
      rw [left] at stops
      exact stops

/-! ### The search for references -/

/-- Skipped characters leave nothing behind. -/
theorem extractFrom_append (as bs : List Char) :
    extractFrom names as.length (as ++ bs) = extractFrom names 0 bs := by
  induction as with
  | nil => rfl
  | cons a as ih => rw [List.length_cons, List.cons_append, extractFrom, ih]

theorem extractFrom_reference (isName : IsName name rest) (known : String.ofList name ∈ names) :
    extractFrom names 0 ('$' :: (name ++ rest)) =
      ('%' :: 's' :: (extractFrom names 0 rest).1,
        String.ofList name :: (extractFrom names 0 rest).2) := by
  have starts : (name ++ rest).head?.any isStart = true := by
    have start := isName.start
    cases name with
    | nil => exact absurd start Bool.false_ne_true
    | cons c cs => exact start
  have found : (('$' : Char) == '$' && (name ++ rest).head?.any isStart &&
      names.contains (String.ofList name)) = true := by
    rw [starts, List.contains_iff_mem.mpr known]
    rfl
  rw [extractFrom, takeWhile_name isName]
  simp only [found, if_true, extractFrom_append]

theorem extractFrom_literal
    (plain : c = '$' → ∀ name rest', rest = name ++ rest' → IsName name rest' →
      String.ofList name ∉ names) :
    extractFrom names 0 (c :: rest) =
      (c :: (extractFrom names 0 rest).1, (extractFrom names 0 rest).2) := by
  have none_ : (c == '$' && rest.head?.any isStart &&
      names.contains (String.ofList (rest.takeWhile isPart))) = false := by
    by_contra found
    rw [Bool.not_eq_false, Bool.and_eq_true, Bool.and_eq_true] at found
    obtain ⟨⟨dollar, start⟩, known⟩ := found
    exact plain (eq_of_beq dollar) _ _ List.takeWhile_append_dropWhile.symm (exists_name start)
      (List.contains_iff_mem.mp known)
  rw [extractFrom]
  simp only [none_, Bool.false_eq_true, if_false]

/-- Every message says something. The induction is on its length, since a reference takes up several
characters at once. -/
theorem exists_meant (names : List String) (value : String → String) (cs : List Char) :
    ∃ out, Means names value cs out := by
  induction hn : cs.length using Nat.strongRecOn generalizing cs with
  | ind n ih =>
    cases cs with
    | nil => exact ⟨[], .done⟩
    | cons c cs =>
      by_cases refers : c = '$' ∧ ∃ name rest, cs = name ++ rest ∧ IsName name rest ∧
        String.ofList name ∈ names
      · obtain ⟨rfl, name, rest, rfl, isName, known⟩ := refers
        have shorter : rest.length < n := by
          rw [← hn, List.length_cons, List.length_append]
          omega
        obtain ⟨out, others⟩ := ih _ shorter rest rfl
        exact ⟨_, .reference isName known others⟩
      · have shorter : cs.length < n := by
          rw [← hn, List.length_cons]
          omega
        obtain ⟨out, others⟩ := ih _ shorter cs rfl
        refine ⟨_, .literal (fun dollar name rest same isName known => refers ?_) others⟩
        exact ⟨dollar, name, rest, same, isName, known⟩

/-- A reference and the placeholder for it are as long as a value of two characters. -/
theorem Means.length_eq (two : ∀ n, (value n).toList.length = 2) (meant : Means names value cs out) :
    out.length = (extractFrom names 0 cs).1.length := by
  induction meant with
  | done => rfl
  | reference isName known _ ih =>
    rw [extractFrom_reference isName known, List.length_append, two, ih, List.length_cons,
      List.length_cons]
    omega
  | literal plain _ ih => rw [extractFrom_literal plain, List.length_cons, List.length_cons, ih]

/-- The percent signs of what is said are those of the message, if there are none in the values. -/
theorem Means.count_percent (none_ : ∀ n, '%' ∉ (value n).toList) (meant : Means names value cs out) :
    out.count '%' = cs.count '%' := by
  induction meant with
  | done => rfl
  | reference isName known _ ih =>
    rw [List.count_append, List.count_eq_zero_of_not_mem (none_ _), List.count_cons_of_ne (by decide),
      List.count_append, List.count_eq_zero_of_not_mem (not_mem_percent isName.part), ih]
  | literal plain _ ih => rw [List.count_cons, List.count_cons, ih]

end Text.Reference

/-! ## What a formatter makes of a format -/

namespace Formatter

/-- What `java.util.Formatter` makes of a format and the texts of some arguments: `%s` stands for the
next argument and `%%` for a percent sign. Every other directive is one that it does not know or that
does not fit the argument, and so is one that finds no argument left; then there is no result.
Arguments that are left over do no harm. -/
def run : List Char → List String → Option (List Char)
  | [], _ => some []
  | '%' :: 's' :: cs, a :: as => (run cs as).map (a.toList ++ ·)
  | '%' :: '%' :: cs, as => (run cs as).map ('%' :: ·)
  | '%' :: _, _ => none
  | c :: cs, as => (run cs as).map (c :: ·)

variable {cs out : List Char} {as : List String} {c : Char}

/-- Text without a percent sign is taken over. -/
theorem run_literal (plain : c ≠ '%') : run (c :: cs) as = (run cs as).map (c :: ·) := by
  rw [run]
  · exact fun _ percent _ => plain percent
  · exact plain
  · exact fun _ _ _ _ percent _ => plain percent

/-- Where each argument has two characters and none of them is a percent sign, a directive for an
argument is as long as what comes of it, and one for a percent sign is longer by one character. -/
theorem length_of_run (two : ∀ a ∈ as, a.toList.length = 2) (none_ : ∀ a ∈ as, '%' ∉ a.toList)
    (ran : run cs as = some out) : out.length + out.count '%' = cs.length := by
  fun_induction run cs as generalizing out with
  | case1 =>
    cases ran
    rfl
  | case2 cs a as ih =>
    obtain ⟨rest, others, rfl⟩ := Option.map_eq_some_iff.mp ran
    obtain ⟨len, two⟩ := List.forall_mem_cons.mp two
    obtain ⟨absent, none_⟩ := List.forall_mem_cons.mp none_
    have shorter := ih two none_ others
    rw [List.length_append, List.count_append, len, List.count_eq_zero_of_not_mem absent,
      List.length_cons, List.length_cons]
    omega
  | case3 as cs ih =>
    obtain ⟨rest, others, rfl⟩ := Option.map_eq_some_iff.mp ran
    have shorter := ih two none_ others
    rw [List.length_cons, List.count_cons_self, List.length_cons, List.length_cons]
    omega
  | case4 => exact nomatch ran
  | case5 c cs as _ _ other ih =>
    obtain ⟨rest, others, rfl⟩ := Option.map_eq_some_iff.mp ran
    have shorter := ih two none_ others
    have other : c ≠ '%' := other
    rw [List.length_cons, List.count_cons_of_ne other, List.length_cons]
    omega

end Formatter

/-! ## Messages -/

/-- What a call of `java.lang.String.format` gives when names have values as texts. -/
inductive Code.FormatsTo (value : String → String) : Code → String → Prop where
  | mk {form : String} {names : List String} {out : List Char}
    (ran : Formatter.run form.toList (names.map value) = some out) :
    FormatsTo value (.format form (names.map .named)) (String.ofList out)

namespace Handler

open Text.Reference

variable {value : String → String} {message : String} {params : List String} {out : List Char}

/-- What the code of a message gives is what the formatter makes of the placeholders and names that
were found. -/
theorem formatsTo_formatted :
    (formatted message params).FormatsTo value (String.ofList out) ↔
      Formatter.run (extractFrom params 0 message.toList).1
        ((extractFrom params 0 message.toList).2.map value) = some out := by
  have code : formatted message params =
      .format (String.ofList (extractFrom params 0 message.toList).1)
        ((extractFrom params 0 message.toList).2.map .named) := rfl
  constructor
  · intro gives
    rw [code] at gives
    generalize same : String.ofList out = text at gives
    generalize whole : Code.format _ _ = call at gives
    cases gives with
    | mk ran =>
      obtain ⟨-, -, -, args⟩ := Code.call.inj whole
      obtain ⟨form, names⟩ := List.cons.inj args
      obtain rfl := String.ofList_injective same
      have named : Function.Injective Code.named := fun _ _ => Code.named.inj
      rw [← Code.text.inj form, ← List.map_injective_iff.mpr named names, String.toList_ofList] at ran
      exact ran
  · intro ran
    rw [code]
    refine .mk ?_
    rwa [String.toList_ofList]

/-- **Messages are formatted as they are meant, but for percent signs.** The code of a message gives,
whatever the values of the parameters are, the message with these values in the place of the
references to the parameters, if and only if there is no percent sign in the message. -/
theorem formatted_meant_iff (message : String) (params : List String) :
    (∀ value out, Means params value message.toList out →
      (formatted message params).FormatsTo value (String.ofList out)) ↔ '%' ∉ message.toList := by
  constructor
  · intro gives
    -- with these values placeholders are as long as arguments, so that only `%%` can shorten a text
    obtain ⟨out, meant⟩ := exists_meant params (fun _ => "ab") message.toList
    have ran := formatsTo_formatted.mp (gives _ out meant)
    have shortened := Formatter.length_of_run
      (fun a ha => by obtain ⟨_, -, rfl⟩ := List.mem_map.mp ha; rfl)
      (fun a ha => by obtain ⟨_, -, rfl⟩ := List.mem_map.mp ha; decide) ran
    rw [meant.length_eq fun _ => rfl, meant.count_percent fun _ => by decide] at shortened
    exact List.count_eq_zero.mp (by omega)
  · intro plain value out meant
    refine formatsTo_formatted.mpr ?_
    generalize message.toList = cs at plain meant ⊢
    induction meant with
    | done => rfl
    | reference isName known _ ih =>
      have later : '%' ∉ _ := fun member =>
        plain (List.mem_cons_of_mem _ (List.mem_append_right _ member))
      rw [extractFrom_reference isName known, List.map_cons, Formatter.run, ih later]
      rfl
    | literal free _ ih =>
      obtain ⟨other, later⟩ := (not_or.mp (mt List.mem_cons.mpr plain))
      rw [extractFrom_literal free, Formatter.run_literal (Ne.symm other), ih later]
      rfl

/-- A percent sign is not escaped: the formatter meets the directive `% o`, which it cannot serve. -/
theorem formatted_percent : ¬∀ message params value out, Means params value message.toList out →
    (formatted message params).FormatsTo value (String.ofList out) := by
  intro always
  obtain ⟨out, meant⟩ := exists_meant ["x"] (fun _ => "") "100% of $x".toList
  have ran := formatsTo_formatted.mp (always "100% of $x" ["x"] _ out meant)
  exact nomatch (show (none : Option (List Char)) = some out from ran)

end Handler

end Weaver
