import TraversalPlanner.Expression.Condition
import TraversalPlanner.Expression.Reference

/-! Texts whose quotes come in pairs. Literals are written as such, whatever is in them, so what a scan finds behind
such a text is found with it in front, too. -/

namespace TraversalPlanner

namespace Expression

variable {front first second chars rest : List Char} {name : Variable}

/-- Each quote opens a quotation that is closed within the text, or closes one. -/
inductive Paired : List Char → Prop
  | nil : Paired []
  | plain {c : Char} {rest : List Char} (unquoted : c ≠ '"') (later : Paired rest) : Paired (c :: rest)
  | quoted {inside rest : List Char} (closes : ∀ more, closeQuote? (inside ++ more) = some more) (later : Paired rest) :
      Paired ('"' :: (inside ++ rest))

theorem paired_of_unquoted (unquoted : '"' ∉ chars) : Paired chars := by
  induction chars with
  | nil => exact .nil
  | cons c rest tail =>
    rw [List.mem_cons, not_or] at unquoted
    exact .plain (Ne.symm unquoted.1) (tail unquoted.2)

theorem Paired.append (one : Paired first) (other : Paired second) : Paired (first ++ second) := by
  induction one with
  | nil => exact other
  | plain unquoted _ tail => exact .plain unquoted tail
  | quoted closes _ tail =>
    rw [List.cons_append, List.append_assoc]
    exact .quoted closes tail

/-- Characters that are no quotes make no difference. -/
theorem Paired.behind (paired : Paired (front ++ rest)) (unquoted : '"' ∉ front) : Paired rest := by
  induction front with
  | nil => exact paired
  | cons c front tail =>
    rw [List.mem_cons, not_or] at unquoted
    generalize whole : c :: front ++ rest = text at paired
    cases paired with
    | nil => cases whole
    | plain _ later =>
      cases whole
      exact tail later unquoted.2
    | quoted => exact absurd (List.cons.inj whole).1.symm unquoted.1

/-! What is written of literals. -/

theorem closeQuote?_escaped (text more : List Char) :
    closeQuote? (text.flatMap Literal.escape ++ '"' :: more) = some more := by
  induction text with
  | nil => rfl
  | cons c text tail =>
    rw [List.flatMap_cons, List.append_assoc]
    unfold Literal.escape
    split
    · exact tail
    · next plain =>
      rw [not_or] at plain
      rw [List.singleton_append, closeQuote?.eq_5 _ _ plain.2 (fun _ _ same _ => plain.1 same) fun same _ => plain.1 same]
      exact tail

theorem paired_quote (text : String) : Paired (Literal.quote text).toList := by
  have written : (Literal.quote text).toList = '"' :: ((text.toList.flatMap Literal.escape ++ ['"']) ++ []) := by
    simp [Literal.quote]
  rw [written]
  refine .quoted (fun more => ?_) .nil
  rw [List.append_assoc]
  exact closeQuote?_escaped text.toList more

/-- No quote in the text. -/
def Unquoted (text : String) : Prop := '"' ∉ text.toList

instance (text : String) : Decidable (Unquoted text) := inferInstanceAs (Decidable ('"' ∉ text.toList))

/-- Nothing in the text that a scan stops at. -/
def Plain (text : String) : Prop := ∀ c ∈ text.toList, c ≠ '"' ∧ c ≠ '@'

instance (text : String) : Decidable (Plain text) := List.decidableBAll (fun c => c ≠ '"' ∧ c ≠ '@') text.toList

theorem Plain.unquoted {text : String} (plain : Plain text) : Unquoted text := fun member => (plain _ member).1 rfl

theorem plain_append {one other : String} (here : Plain one) (later : Plain other) : Plain (one ++ other) := by
  intro c member
  rw [String.toList_append, List.mem_append] at member
  exact member.elim (here c) (later c)

theorem plain_truth (value : Bool) : Plain (toString value) := by
  cases value <;> decide

theorem plain_natural (n : Nat) : Plain (toString n) := by
  intro c member
  rw [Nat.toString_eq_repr, Nat.toList_repr] at member
  have digit := Nat.isDigit_of_mem_toDigits (by decide) (by decide) member
  constructor <;> (rintro rfl; exact absurd digit (by decide))

theorem plain_whole (n : Int) : Plain (toString n) := by
  cases n with
  | ofNat n => exact plain_natural n
  | negSucc n => exact plain_append (by decide) (plain_natural (n + 1))

theorem plain_zeros (n : Nat) : Plain (Number.Layout.zeros n) := by
  intro c member
  rw [Number.Layout.zeros, String.toList_ofList] at member
  cases List.eq_of_mem_replicate member
  decide

theorem plain_take {text : String} (plain : Plain text) (n : Nat) : Plain (text.take n).toString := by
  intro c member
  simp only [String.Slice.toString_eq, String.toList_copy_take] at member
  exact plain c (List.mem_of_mem_take member)

theorem plain_drop {text : String} (plain : Plain text) (n : Nat) : Plain (text.drop n).toString := by
  intro c member
  simp only [String.Slice.toString_eq, String.toList_copy_drop] at member
  exact plain c (List.mem_of_mem_drop member)

theorem plain_positional {digits : String} (plain : Plain digits) (place : Int) :
    Plain (Number.Layout.positional digits place) := by
  unfold Number.Layout.positional
  split
  · exact plain_append (plain_append (by decide) (plain_zeros _)) plain
  · split
    · exact plain_append (plain_append plain (plain_zeros _)) (by decide)
    · exact plain_append (plain_append (plain_take plain _) (by decide)) (plain_drop plain _)

theorem plain_scientific {digits : String} (plain : Plain digits) (place : Int) :
    Plain (Number.Layout.scientific "" digits place) := by
  have sign : Plain (if place - 1 < 0 then "-" else "") := by
    split <;> decide
  have mantissa : Plain (if digits.length ≤ 1 then digits
      else (digits.take 1).toString ++ "." ++ (digits.drop 1).toString) := by
    split
    · exact plain
    · exact plain_append (plain_append (plain_take plain 1) (by decide)) (plain_drop plain 1)
  exact plain_append (plain_append (plain_append mantissa (by decide)) sign) (plain_natural _)

theorem plain_real (x : Number.Binary64) : Plain (Literal.realLayout.render x) := by
  have magnitude : Plain (Literal.realLayout.magnitude x) := by
    unfold Number.Layout.magnitude
    split
    · decide
    · dsimp only
      split
      · exact plain_positional (plain_natural _) _
      · exact plain_scientific (plain_natural _) _
  unfold Number.Layout.render
  split
  · decide
  · split
    · cases x.negative <;> decide
    · exact plain_append (by split <;> decide) magnitude

/-! Literals are put together from plain texts and quotations. -/

section Parts

variable {built : List Char → Prop} (plain : ∀ {text : String}, Plain text → built text.toList)
  (append : ∀ {front rest : List Char}, built front → built rest → built (front ++ rest))

include plain append

theorem built_intercalate {separator : String} (clean : Plain separator) {texts : List String}
    (each : ∀ text ∈ texts, built text.toList) : built (separator.intercalate texts).toList := by
  have nothing : Plain "" := by decide
  induction texts with
  | nil => exact plain nothing
  | cons text texts tail =>
    obtain ⟨here, later⟩ := List.forall_mem_cons.mp each
    cases texts with
    | nil => rwa [String.intercalate_singleton]
    | cons next texts =>
      rw [String.intercalate_cons_cons, String.toList_append, String.toList_append]
      exact append (append here (plain clean)) (tail later)

theorem built_render (quote : ∀ text, built (Literal.quote text).toList) (literal : Literal) : built literal.render.toList := by
  have opening : Plain "[" := by decide
  have closing : Plain "]" := by decide
  refine (Literal.render.mutual_induct (fun literal => built literal.render.toList)
    (fun items => ∀ text ∈ Literal.renderAll items, built text.toList) ?_ ?_ ?_ ?_ ?_ ?_ ?_).1 literal
  · exact fun value => plain (plain_truth value)
  · exact fun value => plain (plain_whole value.toInt)
  · exact fun value => plain (plain_real value)
  · exact quote
  · intro items each
    rw [Literal.render, String.toList_append, String.toList_append]
    exact append (append (plain opening) (built_intercalate plain append (by decide) each)) (plain closing)
  · exact nofun
  · intro item rest here later
    exact List.forall_mem_cons.mpr ⟨here, later⟩

end Parts

theorem paired_render (literal : Literal) : Paired literal.render.toList :=
  built_render (fun plain => paired_of_unquoted plain.unquoted) Paired.append paired_quote literal

/-! Scanning behind paired quotes. -/

theorem references_closed (closed : closeQuote? chars = some rest) : references ('"' :: chars) = references rest := by
  rw [references]
  split
  · next closes => cases closed.symm.trans closes; rfl
  · next closes => cases closed.symm.trans closes

theorem references_other {c : Char} (unquoted : c ≠ '"') (plain : c ≠ '@') : references (c :: rest) = references rest := by
  rw [references]
  · exact unquoted
  · exact plain

theorem not_mem_takeWhile {p : Char → Bool} (apart : p '"' = false) (chars : List Char) : '"' ∉ chars.takeWhile p := by
  intro member
  cases apart.symm.trans (List.all_eq_true.mp List.all_takeWhile _ member)

theorem takeWhile_stops {p : Char → Bool} (stop : p '@' = false) (chars rest : List Char) :
    (chars ++ '@' :: rest).takeWhile p = chars.takeWhile p := by
  rw [List.takeWhile_append]
  split
  · next all =>
    rw [List.takeWhile_cons, stop, if_neg Bool.false_ne_true, List.append_nil]
    exact ((List.takeWhile_prefix p).eq_of_length all).symm
  · rfl

theorem dropWhile_stops {p : Char → Bool} (stop : p '@' = false) (chars rest : List Char) :
    (chars ++ '@' :: rest).dropWhile p = chars.dropWhile p ++ '@' :: rest := by
  rw [List.dropWhile_append]
  split
  · next none => rw [List.isEmpty_iff.mp none, List.dropWhile_cons, stop, if_neg Bool.false_ne_true, List.nil_append]
  · rfl

theorem property?_stops (chars rest : List Char) : ∃ taken left, chars = taken ++ left ∧ '"' ∉ taken ∧
    (property? (chars ++ '@' :: rest)).2 = left ++ '@' :: rest := by
  cases chars with
  | nil => exact ⟨[], [], rfl, List.not_mem_nil, rfl⟩
  | cons c chars =>
    by_cases point : c = '.'
    · subst point
      have clean := not_mem_takeWhile (p := isPropertyCharacter) (by decide) chars
      have split : chars = chars.takeWhile isPropertyCharacter ++ chars.dropWhile isPropertyCharacter :=
        List.takeWhile_append_dropWhile.symm
      rw [List.cons_append, property?, takeWhile_stops (by decide), dropWhile_stops (by decide)]
      cases name : chars.takeWhile isPropertyCharacter with
      | nil => exact ⟨[], '.' :: chars, rfl, List.not_mem_nil, rfl⟩
      | cons first others =>
        rw [name] at split clean
        refine ⟨'.' :: first :: others, chars.dropWhile isPropertyCharacter, congrArg _ split, ?_, rfl⟩
        exact List.not_mem_cons_of_ne_of_not_mem (by decide) clean
    · refine ⟨[], c :: chars, rfl, List.not_mem_nil, ?_⟩
      rw [List.cons_append, property?.eq_2]
      exact fun _ same => point (List.cons.inj same).1

/-- A reference does not go on over the at sign of another one, and there are no quotes in it. -/
theorem reference_stops (chars rest : List Char) : ∃ taken left, chars = taken ++ left ∧ '"' ∉ taken ∧
    (reference (chars ++ '@' :: rest)).2 = left ++ '@' :: rest := by
  have behind : (reference (chars ++ '@' :: rest)).2 = (property? (chars.dropWhile isTagCharacter ++ '@' :: rest)).2 := by
    rw [← dropWhile_stops (by decide)]
    rfl
  obtain ⟨taken, left, split, clean, stops⟩ := property?_stops (chars.dropWhile isTagCharacter) rest
  refine ⟨chars.takeWhile isTagCharacter ++ taken, left, ?_, ?_, behind.trans stops⟩
  · rw [List.append_assoc, ← split, List.takeWhile_append_dropWhile]
  · rw [List.mem_append, not_or]
    exact ⟨not_mem_takeWhile (by decide) chars, clean⟩

theorem mem_references_behind (paired : Paired front) (found : name ∈ references ('@' :: rest)) :
    name ∈ references (front ++ '@' :: rest) := by
  -- What is left behind a reference is not what the quotes in front are paired by, only part of it.
  induction size : front.length using Nat.strongRecOn generalizing front with
  | ind length shorter =>
    cases paired with
    | nil => exact found
    | @plain c later unquoted paired =>
      by_cases marked : c = '@'
      · subst marked
        obtain ⟨taken, left, same, clean, stops⟩ := reference_stops later rest
        rw [List.cons_append, references, stops]
        have fewer : left.length < length := by
          rw [← size, same, List.length_cons, List.length_append]
          omega
        exact List.mem_cons_of_mem _ (shorter _ fewer ((same ▸ paired).behind clean) rfl)
      · rw [List.cons_append, references_other unquoted marked]
        exact shorter _ (by rw [← size]; exact Nat.lt_succ_self _) paired rfl
    | @quoted inside later closes paired =>
      rw [List.cons_append, List.append_assoc, references_closed (closes _)]
      have fewer : later.length < length := by
        rw [← size, List.length_cons, List.length_append]
        omega
      exact shorter _ fewer paired rfl

end Expression

end TraversalPlanner
