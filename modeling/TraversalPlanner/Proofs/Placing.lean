import TraversalPlanner.Proofs.Blame

/-! Assembling comes down to putting in one node after the other. What every node keeps is kept by all of them,
also when one of them cannot be put in, and what is attested of each operator that has got its node is attested of
all operators, however deep they are nested. -/

namespace TraversalPlanner

namespace Assembly

open Assembling

variable {σ : Type} {accumulator : Accumulator σ} {keeps : Assembly σ → Prop} {attested : Operator → Prop}
  {parent scope : Int} {operator : Operator} {before : Assembly σ}

/-- Putting in a node keeps what is kept, and an operator whose node has been put in is attested. -/
def Attests (accumulator : Accumulator σ) (keeps : Assembly σ → Prop) (attested : Operator → Prop) : Prop :=
  ∀ {parent scope : Int} {operator : Operator} {links : Links} {before : Assembly σ}, keeps before →
    (placeLinked accumulator parent scope operator links).Ends before (fun _ after => keeps after ∧ attested operator)
      fun _ after => keeps after

private def AttestsOperator (accumulator : Accumulator σ) (keeps : Assembly σ → Prop) (attested : Operator → Prop)
    (parent scope : Int) (operator : Operator) : Prop :=
  ∀ {before : Assembly σ}, keeps before → (place accumulator parent scope operator).Ends before
    (fun _ after => keeps after ∧ ∀ inner, inner.Among [operator] → attested inner) fun _ after => keeps after

private def AttestsBranches (accumulator : Accumulator σ) (keeps : Assembly σ → Prop) (attested : Operator → Prop)
    (parent scope : Int) (branches : List (List Operator)) : Prop :=
  ∀ {before : Assembly σ}, keeps before → (placeBranches accumulator parent scope branches).Ends before
    (fun _ after => keeps after ∧ ∀ branch ∈ branches, ∀ inner, inner.Among branch → attested inner)
    fun _ after => keeps after

private def AttestsChain (accumulator : Accumulator σ) (keeps : Assembly σ → Prop) (attested : Operator → Prop)
    (first : Option Int) (parent scope : Int) (operators : List Operator) : Prop :=
  ∀ {before : Assembly σ}, keeps before → (placeFrom accumulator first parent scope operators).Ends before
    (fun _ after => keeps after ∧ ∀ inner, inner.Among operators → attested inner) fun _ after => keeps after

/-- The operators within are attested before the host is. -/
private theorem linked_attests (each : Attests accumulator keeps attested) {links : Links} (kept : keeps before)
    (within : ∀ level ∈ operator.inner, ∀ inner, inner.Among level → attested inner) :
    (placeLinked accumulator parent scope operator links).Ends before
      (fun _ after => keeps after ∧ ∀ inner, inner.Among [operator] → attested inner) fun _ after => keeps after := by
  refine (each kept).weaken (fun _ _ held => ⟨held.1, fun inner among => ?_⟩) fun _ _ held => held
  rcases Operator.among_cases among with rfl | ⟨level, nested, among⟩ | nothing
  · exact held.2
  · exact within level nested inner among
  · exact absurd nothing (Operator.not_among_nil inner)

private theorem attestsChain_cons {first : Option Int} {rest : List Operator}
    (here : AttestsOperator accumulator keeps attested parent scope operator)
    (later : ∀ own last, AttestsChain accumulator keeps attested (first.or (some own)) last scope rest) :
    AttestsChain accumulator keeps attested first parent scope (operator :: rest) := by
  intro before kept
  refine placeFrom_cons_ends (here kept) fun own last middle held => ?_
  refine (later own last held.1).weaken (fun _ _ ended => ⟨ended.1, fun inner among => ?_⟩) fun _ _ ended => ended
  rcases Operator.among_cases among with rfl | ⟨level, nested, among⟩ | among
  · exact held.2 _ (Operator.among_of_mem List.mem_cons_self)
  · exact held.2 inner (Operator.among_of_inner nested List.mem_cons_self among)
  · exact ended.2 inner among

private theorem attestsBranches_cons {branch : List Operator} {rest : List (List Operator)}
    (here : AttestsChain accumulator keeps attested none parent scope branch)
    (later : AttestsBranches accumulator keeps attested parent scope rest) :
    AttestsBranches accumulator keeps attested parent scope (branch :: rest) := by
  intro before kept
  refine placeBranches_cons_ends (here kept) fun _ _ middle held => ?_
  exact (later held.1).weaken (fun _ _ ended => ⟨ended.1, List.forall_mem_cons.mpr ⟨held.2, ended.2⟩⟩) fun _ _ ended => ended

private theorem attests (each : Attests accumulator keeps attested) :
    (∀ parent scope operator, AttestsOperator accumulator keeps attested parent scope operator) ∧
      (∀ parent scope branches, AttestsBranches accumulator keeps attested parent scope branches) ∧
      ∀ first parent scope operators, AttestsChain accumulator keeps attested first parent scope operators := by
  refine place.mutual_induct _ _ _ ?_ ?_ ?_ ?_ ?_ ?_ ?_
  · intro _ _ _ _ _ _ inner before kept
    refine place_apply_ends_of_checks (fun _ => kept) (fun _ _ => kept) (inner kept) fun _ _ held => ?_
    exact linked_attests each held.1 (List.forall_mem_singleton.mpr held.2)
  · intro _ _ _ _ _ inner before kept
    refine place_union_ends_of_checks (fun _ => kept) (fun _ _ => kept) (inner kept) fun _ _ held => ?_
    exact linked_attests each held.1 held.2
  · intro _ _ operator noApply noUnion before kept
    have bare : operator.Bare := ⟨noApply, noUnion⟩
    refine place_bare_ends_of_checks bare (fun _ => kept) (fun _ _ => kept) fun _ => linked_attests each kept ?_
    rw [Operator.inner_of_bare bare]
    exact List.forall_mem_nil _
  · intro _ _ _ before kept
    exact .pure ⟨kept, fun inner nothing => absurd nothing (Operator.not_among_nil inner)⟩
  · intro _ _ _ _ _ here later
    exact attestsChain_cons here later
  · intro _ _ before kept
    exact .pure ⟨kept, List.forall_mem_nil _⟩
  · intro _ _ _ _ here later
    exact attestsBranches_cons here later

theorem place_attests (each : Attests accumulator keeps attested) (kept : keeps before) :
    (place accumulator parent scope operator).Ends before
      (fun _ after => keeps after ∧ ∀ inner, inner.Among [operator] → attested inner) fun _ after => keeps after :=
  (attests each).1 parent scope operator kept

theorem placeFrom_attests (each : Attests accumulator keeps attested) {first : Option Int} {operators : List Operator}
    (kept : keeps before) : (placeFrom accumulator first parent scope operators).Ends before
      (fun _ after => keeps after ∧ ∀ inner, inner.Among operators → attested inner) fun _ after => keeps after :=
  (attests each).2.2 first parent scope operators kept

end Assembly

end TraversalPlanner
