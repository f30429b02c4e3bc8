/-! Formulas with and and or. Where only right operands are put into parentheses, a formula is read with its left
edge regrouped: each conjunction takes in only the last disjunct before it. What is read so never holds less often, and
means the same exactly if no conjunction has a disjunction on the left edge of its left operand. -/

namespace TraversalPlanner.Expression

/-- And and or over whatever stands at the leaves. -/
inductive Formula (α : Type) where
  | leaf (value : α)
  | and (left right : Formula α)
  | or (left right : Formula α)

namespace Formula

variable {α β : Type} {formula left right : Formula α} {truth other : α → Bool}

def holds (truth : α → Bool) : Formula α → Bool
  | .leaf value => truth value
  | .and left right => left.holds truth && right.holds truth
  | .or left right => left.holds truth || right.holds truth

/-- From left to right. -/
def leaves : Formula α → List α
  | .leaf value => [value]
  | .and left right => left.leaves ++ right.leaves
  | .or left right => left.leaves ++ right.leaves

def bind (replace : α → Formula β) : Formula α → Formula β
  | .leaf value => replace value
  | .and left right => .and (left.bind replace) (right.bind replace)
  | .or left right => .or (left.bind replace) (right.bind replace)

theorem holds_bind (truth : β → Bool) (replace : α → Formula β) (formula : Formula α) :
    (formula.bind replace).holds truth = formula.holds fun value => (replace value).holds truth := by
  induction formula with
  | leaf => rfl
  | and left right first second => rw [bind, holds, first, second, holds]
  | or left right first second => rw [bind, holds, first, second, holds]

theorem leaves_bind (replace : α → Formula β) (formula : Formula α) :
    (formula.bind replace).leaves = formula.leaves.flatMap fun value => (replace value).leaves := by
  induction formula with
  | leaf => simp [bind, leaves]
  | and left right first second => rw [bind, leaves, first, second, leaves, List.flatMap_append]
  | or left right first second => rw [bind, leaves, first, second, leaves, List.flatMap_append]

theorem holds_congr (same : ∀ value ∈ formula.leaves, truth value = other value) : formula.holds truth = formula.holds other := by
  induction formula with
  | leaf value => exact same value List.mem_cons_self
  | and left right first second =>
    obtain ⟨here, there⟩ := List.forall_mem_append.mp same
    rw [holds, first here, second there, holds]
  | or left right first second =>
    obtain ⟨here, there⟩ := List.forall_mem_append.mp same
    rw [holds, first here, second there, holds]

theorem holds_const (formula : Formula α) (value : Bool) : formula.holds (fun _ => value) = value := by
  induction formula with
  | leaf => rfl
  | and left right first second => rw [holds, first, second, Bool.and_self]
  | or left right first second => rw [holds, first, second, Bool.or_self]

/-! Regrouping. -/

/-- Disjuncts, if there are any, in front of a last one. -/
def joined : Option (Formula α) × Formula α → Formula α
  | (none, last) => last
  | (some before, last) => .or before last

/-- The disjuncts before the last and the last, as they are read without parentheses around left operands. -/
def parts : Formula α → Option (Formula α) × Formula α
  | .leaf value => (none, .leaf value)
  | .and left right => (left.parts.1, .and left.parts.2 (joined right.parts))
  | .or left right => (some (joined left.parts), joined right.parts)

def regrouped (formula : Formula α) : Formula α := joined formula.parts

theorem leaves_joined (parts : Option (Formula α) × Formula α) :
    (joined parts).leaves = (parts.1.elim [] leaves) ++ parts.2.leaves := by
  obtain ⟨_ | before, last⟩ := parts <;> rfl

theorem leaves_regrouped (formula : Formula α) : formula.regrouped.leaves = formula.leaves := by
  induction formula with
  | leaf => rfl
  | and left right first second =>
    rw [regrouped, leaves_joined] at first
    rw [regrouped, leaves_joined, parts, leaves, ← List.append_assoc, first, leaves]
    exact congrArg _ second
  | or left right first second => rw [regrouped, parts, joined, leaves, leaves, ← first, ← second, regrouped, regrouped]

theorem holds_joined (truth : α → Bool) (parts : Option (Formula α) × Formula α) :
    (joined parts).holds truth = ((parts.1.elim false (holds truth)) || parts.2.holds truth) := by
  obtain ⟨_ | before, last⟩ := parts <;> rfl

theorem holds_regrouped_or (truth : α → Bool) (left right : Formula α) :
    (or left right).regrouped.holds truth = (left.regrouped.holds truth || right.regrouped.holds truth) := rfl

/-- A conjunction is only with the last disjunct of its left operand. -/
theorem holds_regrouped_and (truth : α → Bool) (left right : Formula α) : (and left right).regrouped.holds truth =
    (left.parts.1.elim false (holds truth) || (left.parts.2.holds truth && right.regrouped.holds truth)) := by
  rw [regrouped, holds_joined]
  rfl

theorem regrouped_and_of_both (first : left.regrouped.holds truth = true) (second : right.regrouped.holds truth = true) :
    (and left right).regrouped.holds truth = true := by
  rw [holds_regrouped_and, second, Bool.and_true, ← holds_joined]
  exact first

theorem regrouped_of_holds (holds : formula.holds truth = true) : formula.regrouped.holds truth = true := by
  induction formula with
  | leaf => exact holds
  | and left right first second =>
    obtain ⟨here, there⟩ := Bool.and_eq_true_iff.mp holds
    exact regrouped_and_of_both (first here) (second there)
  | or left right first second =>
    rw [holds_regrouped_or, Bool.or_eq_true]
    exact (Bool.or_eq_true_iff.mp holds).imp first second

/-- There is a disjunction on the left edge. -/
def leadsWithOr : Formula α → Bool
  | .leaf _ => false
  | .and left _ => left.leadsWithOr
  | .or _ _ => true

/-- No conjunction has a disjunction on the left edge of its left operand. -/
def straight : Formula α → Bool
  | .leaf _ => true
  | .and left right => !left.leadsWithOr && left.straight && right.straight
  | .or left right => left.straight && right.straight

theorem parts_of_not_leadsWithOr (leads : formula.leadsWithOr = false) : formula.parts.1 = none := by
  induction formula with
  | leaf => rfl
  | and left right first _ => exact first leads
  | or => cases leads

theorem regrouped_of_straight (straight : formula.straight = true) : formula.regrouped = formula := by
  induction formula with
  | leaf => rfl
  | and left right first second =>
    simp only [Formula.straight, Bool.and_eq_true, Bool.not_eq_true'] at straight
    obtain ⟨⟨leads, here⟩, there⟩ := straight
    have alone : left.parts = (none, left) := by
      have same := first here
      rw [regrouped, ← Prod.eta left.parts, parts_of_not_leadsWithOr leads] at same
      rw [← Prod.eta left.parts, parts_of_not_leadsWithOr leads]
      exact congrArg _ same
    rw [regrouped, parts, alone, ← regrouped, second there]
    rfl
  | or left right first second =>
    obtain ⟨here, there⟩ := Bool.and_eq_true_iff.mp straight
    rw [regrouped, parts, ← regrouped, ← regrouped, first here, second there]
    rfl

/-! A formula that is not straight, with different leaves, is read as another one. -/

theorem parts_of_leadsWithOr (leads : formula.leadsWithOr = true) :
    ∃ before, formula.parts.1 = some before ∧ ∀ value ∈ before.leaves, value ∈ formula.leaves := by
  induction formula with
  | leaf => cases leads
  | and left right first _ =>
    obtain ⟨before, same, inside⟩ := first leads
    exact ⟨before, same, fun value member => List.mem_append_left _ (inside value member)⟩
  | or left right =>
    refine ⟨left.regrouped, rfl, fun value member => ?_⟩
    rw [leaves_regrouped] at member
    exact List.mem_append_left _ member

/-- Two formulas without a leaf in common can be given their truths apart from each other. -/
theorem exists_merged [DecidableEq α] (distinct : (left.leaves ++ right.leaves).Nodup) (truth other : α → Bool) :
    ∃ merged : α → Bool, (∀ part : Formula α, (∀ value ∈ part.leaves, value ∈ left.leaves) → part.holds merged = part.holds truth) ∧
      ∀ part : Formula α, (∀ value ∈ part.leaves, value ∈ right.leaves) → part.holds merged = part.holds other := by
  refine ⟨fun value => if value ∈ left.leaves then truth value else other value, fun part inside => ?_, fun part inside => ?_⟩
  · exact holds_congr fun value member => if_pos (inside value member)
  · refine holds_congr fun value member => if_neg fun shared => ?_
    exact (List.nodup_append.mp distinct).2.2 value shared value (inside value member) rfl

/-- The operands keep their truths in that, both as they are meant and as they are read. -/
theorem exists_both [DecidableEq α] (distinct : (left.leaves ++ right.leaves).Nodup) (truth other : α → Bool) :
    ∃ merged : α → Bool,
      (left.holds merged = left.holds truth ∧ left.regrouped.holds merged = left.regrouped.holds truth) ∧
      right.holds merged = right.holds other ∧ right.regrouped.holds merged = right.regrouped.holds other := by
  have own (formula : Formula α) : ∀ value ∈ formula.regrouped.leaves, value ∈ formula.leaves := by
    rw [leaves_regrouped]
    exact fun _ => id
  obtain ⟨merged, onLeft, onRight⟩ := exists_merged distinct truth other
  exact ⟨merged, ⟨onLeft left fun _ => id, onLeft _ (own left)⟩, onRight right fun _ => id, onRight _ (own right)⟩

/-- The disjunct that is cut off on the left edge is enough for the reading, which then holds without the right operand. -/
theorem exists_apart_of_leadsWithOr [DecidableEq α] (distinct : (left.leaves ++ right.leaves).Nodup)
    (leads : left.leadsWithOr = true) :
    ∃ truth, (and left right).regrouped.holds truth = true ∧ (and left right).holds truth = false := by
  obtain ⟨before, same, inside⟩ := parts_of_leadsWithOr leads
  obtain ⟨truth, onLeft, onRight⟩ := exists_merged distinct (fun _ => true) (fun _ => false)
  refine ⟨truth, ?_, ?_⟩
  · rw [holds_regrouped_and, same, Option.elim_some, onLeft before inside, holds_const, Bool.true_or]
  · rw [holds, onRight right fun _ => id, holds_const, Bool.and_false]

theorem exists_apart [DecidableEq α] (distinct : formula.leaves.Nodup) (bent : formula.straight = false) :
    ∃ truth, formula.regrouped.holds truth = true ∧ formula.holds truth = false := by
  -- An operand that can be read differently decides the whole, once the other one is set so that it does not.
  induction formula with
  | leaf => cases bent
  | and left right first second =>
    simp only [straight, Bool.and_eq_false_iff, Bool.not_eq_false'] at bent
    rcases bent with (leads | here) | there
    · exact exists_apart_of_leadsWithOr distinct leads
    · obtain ⟨within, passes, fails⟩ := first (List.nodup_append.mp distinct).1 here
      obtain ⟨truth, ⟨meant, read⟩, _, granted⟩ := exists_both distinct within (fun _ => true)
      rw [passes] at read
      rw [holds_const] at granted
      exact ⟨truth, regrouped_and_of_both read granted, by rw [holds, meant, fails, Bool.false_and]⟩
    · obtain ⟨within, passes, fails⟩ := second (List.nodup_append.mp distinct).2.1 there
      obtain ⟨truth, ⟨_, granted⟩, meant, read⟩ := exists_both distinct (fun _ => true) within
      rw [passes] at read
      rw [holds_const] at granted
      exact ⟨truth, regrouped_and_of_both granted read, by rw [holds, meant, fails, Bool.and_false]⟩
  | or left right first second =>
    rcases Bool.and_eq_false_iff.mp bent with here | there
    · obtain ⟨within, passes, fails⟩ := first (List.nodup_append.mp distinct).1 here
      obtain ⟨truth, ⟨meant, read⟩, denied, _⟩ := exists_both distinct within (fun _ => false)
      refine ⟨truth, ?_, ?_⟩
      · rw [holds_regrouped_or, read, passes, Bool.true_or]
      · rw [holds, meant, fails, denied, holds_const, Bool.or_self]
    · obtain ⟨within, passes, fails⟩ := second (List.nodup_append.mp distinct).2.1 there
      obtain ⟨truth, ⟨denied, _⟩, meant, read⟩ := exists_both distinct (fun _ => false) within
      refine ⟨truth, ?_, ?_⟩
      · rw [holds_regrouped_or, read, passes, Bool.or_true]
      · rw [holds, meant, fails, denied, holds_const, Bool.or_self]

end Formula

end TraversalPlanner.Expression
