import TraversalPlanner.Proofs.AssemblyLogic

/-! Two runs of assembling, each from a state of its own. They are followed step by step: both fail in the
same step with the same error, or both end, and then an assertion relates the two answers and the two states
that are left behind. -/

namespace TraversalPlanner

open Proofs

namespace Assembling

variable {σ α β γ δ : Type} {before beside : Assembly σ} {answers : α → Assembly σ → β → Assembly σ → Prop}

structure Concurs (program : Assembling σ α) (twin : Assembling σ β) (before beside : Assembly σ)
    (answers : α → Assembly σ → β → Assembly σ → Prop) : Prop where
  holds : Alike (fun value other => answers value (program.run before).2 other (twin.run beside).2)
    (program.run before).1 (twin.run beside).1

theorem Concurs.pure {value : α} {other : β} (holds : answers value before other beside) :
    Concurs (Pure.pure value) (Pure.pure other) before beside answers := ⟨.ok holds⟩

theorem Concurs.throw {error : Error} : Concurs (throw error) (throw error) before beside answers := ⟨.error error⟩

theorem Concurs.weaken {stronger : α → Assembly σ → β → Assembly σ → Prop} {program : Assembling σ α}
    {twin : Assembling σ β} (concurs : program.Concurs twin before beside stronger)
    (answered : ∀ value after other later, stronger value after other later → answers value after other later) :
    program.Concurs twin before beside answers :=
  ⟨concurs.holds.weaken fun _ _ held => answered _ _ _ _ held⟩

theorem Concurs.bind {program : Assembling σ γ} {twin : Assembling σ δ} {next : γ → Assembling σ α}
    {follow : δ → Assembling σ β} (middle : γ → Assembly σ → δ → Assembly σ → Prop)
    (first : program.Concurs twin before beside middle)
    (rest : ∀ value after other later, middle value after other later →
      (next value).Concurs (follow other) after later answers) :
    (program >>= next).Concurs (twin >>= follow) before beside answers := by
  have held := first.holds
  constructor
  rw [run_bind, run_bind]
  generalize program.run before = ended at held ⊢
  generalize twin.run beside = finished at held ⊢
  obtain ⟨result, after⟩ := ended
  obtain ⟨outcome, later⟩ := finished
  cases held with
  | ok holds => exact (rest _ _ _ _ holds).holds
  | error fault => exact .error fault

end Assembling

namespace Assembly

open Assembling

variable {σ α β : Type} {accumulator : Accumulator σ} {parent twin scope inside : Int} {operator : Operator}
  {before beside : Assembly σ} {answers : Int × Int → Assembly σ → Int × Int → Assembly σ → Prop}

/-- Both runs check the same operator, and neither looks at its plan for that. -/
private theorem checks_concur {next : Assembling σ α} {follow : Assembling σ β}
    {answers : α → Assembly σ → β → Assembly σ → Prop}
    (opened : before.state ≠ .closed) (opening : beside.state ≠ .closed)
    (rest : operator.checkBranching = .ok () → next.Concurs follow before beside answers) :
    Concurs (do
      checkOpen
      operator.checkBranching
      next) (do
      checkOpen
      operator.checkBranching
      follow) before beside answers := by
  refine Concurs.bind (fun _ after _ later => after = before ∧ later = beside) ?_ fun _ _ _ _ same => ?_
  · constructor
    rw [run_checkOpen opened, run_checkOpen opening]
    exact .ok ⟨rfl, rfl⟩
  · obtain ⟨rfl, rfl⟩ := same
    cases checked : operator.checkBranching with
    | error error => exact .throw
    | ok _ => exact rest checked

theorem place_bare_concurs (bare : operator.Bare) (unlinked : operator.Unlinked)
    (opened : before.state ≠ .closed) (opening : beside.state ≠ .closed)
    (linked : operator.kind ≠ .apply → operator.kind ≠ .union →
      (placeLinked accumulator parent scope operator operator.links).Concurs
        (placeLinked accumulator twin inside operator operator.links) before beside answers) :
    (place accumulator parent scope operator).Concurs (place accumulator twin inside operator) before beside answers := by
  rw [place.eq_3 _ _ _ _ bare.1 bare.2, place.eq_3 _ _ _ _ bare.1 bare.2]
  refine checks_concur opened opening fun passed => ?_
  obtain ⟨apart, single⟩ := Operator.single_of_checkBranching bare unlinked passed
  exact linked apart single

theorem place_apply_concurs {sub : List Operator} {subRoot : Option Int32} {join : Option JoinKind} {tag : Option Alias}
    {middle : Int × Int → Assembly σ → Int × Int → Assembly σ → Prop}
    (opened : before.state ≠ .closed) (opening : beside.state ≠ .closed)
    (inner : (placeFrom accumulator none (-1) (if 0 ≤ parent then parent else scope) sub).Concurs
      (placeFrom accumulator none (-1) (if 0 ≤ twin then twin else inside) sub) before beside middle)
    (linked : ∀ first after other later, middle first after other later →
      (placeLinked accumulator parent scope ⟨.apply (some sub) subRoot join, tag⟩
        { subRoot := some first.1, parents := none }).Concurs
        (placeLinked accumulator twin inside ⟨.apply (some sub) subRoot join, tag⟩
          { subRoot := some other.1, parents := none }) after later answers) :
    (place accumulator parent scope ⟨.apply (some sub) subRoot join, tag⟩).Concurs
      (place accumulator twin inside ⟨.apply (some sub) subRoot join, tag⟩) before beside answers := by
  rw [place.eq_1, place.eq_1]
  exact checks_concur opened opening fun _ => inner.bind _ linked

theorem place_union_concurs {branches : List (List Operator)} {parents : Option (List Int32)} {tag : Option Alias}
    {middle : List Int → Assembly σ → List Int → Assembly σ → Prop}
    (opened : before.state ≠ .closed) (opening : beside.state ≠ .closed)
    (inner : (placeBranches accumulator parent scope branches).Concurs
      (placeBranches accumulator twin inside branches) before beside middle)
    (linked : ∀ lasts after ends later, middle lasts after ends later →
      (placeLinked accumulator parent scope ⟨.union (some branches) parents, tag⟩
        { subRoot := none, parents := some lasts }).Concurs
        (placeLinked accumulator twin inside ⟨.union (some branches) parents, tag⟩
          { subRoot := none, parents := some ends }) after later answers) :
    (place accumulator parent scope ⟨.union (some branches) parents, tag⟩).Concurs
      (place accumulator twin inside ⟨.union (some branches) parents, tag⟩) before beside answers := by
  rw [place.eq_2, place.eq_2]
  exact checks_concur opened opening fun _ => inner.bind _ linked

end Assembly

end TraversalPlanner
