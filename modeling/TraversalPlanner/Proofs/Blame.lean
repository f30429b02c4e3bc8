import TraversalPlanner.Proofs.AssemblyLogic
import TraversalPlanner.Proofs.Nesting

/-! What is to blame when operators cannot be appended to a plan. Either the plan refuses a node, or one of the
operators, however deep it is nested, does not pass its own checks. -/

namespace TraversalPlanner

namespace Operator

/-- It is one of the operators, or nested in one. -/
def Among (operator : Operator) (operators : List Operator) : Prop := ∃ level ∈ levels operators, operator ∈ level

theorem among_of_mem {operator : Operator} {operators : List Operator} (member : operator ∈ operators) :
    operator.Among operators := ⟨operators, List.mem_cons_self, member⟩

theorem among_of_inner {operator host : Operator} {inner operators : List Operator} (nested : inner ∈ host.inner)
    (member : host ∈ operators) (among : operator.Among inner) : operator.Among operators := by
  obtain ⟨level, found, member'⟩ := among
  refine ⟨level, List.mem_cons_of_mem _ ?_, member'⟩
  induction operators with
  | nil => cases member
  | cons first rest step =>
    rw [levelsWithin_cons, List.mem_append]
    rcases List.mem_cons.mp member with rfl | later
    · exact .inl (List.mem_flatMap.mpr ⟨inner, nested, found⟩)
    · exact .inr (step later)

theorem among_cons {operator first : Operator} {rest : List Operator} (among : operator.Among rest) :
    operator.Among (first :: rest) := by
  obtain ⟨level, found, member⟩ := among
  rcases List.mem_cons.mp found with rfl | within
  · exact among_of_mem (List.mem_cons_of_mem _ member)
  · refine ⟨level, List.mem_cons_of_mem _ ?_, member⟩
    rw [levelsWithin_cons]
    exact List.mem_append_right _ within

theorem among_of_single {operator first : Operator} {rest : List Operator} (among : operator.Among [first]) :
    operator.Among (first :: rest) := by
  obtain ⟨level, found, member⟩ := among
  rcases List.mem_cons.mp found with rfl | within
  · exact among_of_mem (List.mem_singleton.mp member ▸ List.mem_cons_self)
  · refine ⟨level, List.mem_cons_of_mem _ ?_, member⟩
    rw [levelsWithin_cons, levelsWithin, List.append_nil] at within
    rw [levelsWithin_cons]
    exact List.mem_append_left _ within

theorem among_cases {operator first : Operator} {rest : List Operator} (among : operator.Among (first :: rest)) :
    operator = first ∨ (∃ inner ∈ first.inner, operator.Among inner) ∨ operator.Among rest := by
  obtain ⟨level, found, member⟩ := among
  rcases List.mem_cons.mp found with rfl | within
  · rcases List.mem_cons.mp member with same | later
    · exact .inl same
    · exact .inr (.inr (among_of_mem later))
  · rw [levelsWithin_cons, List.mem_append, List.mem_flatMap] at within
    rcases within with ⟨inner, nested, found⟩ | later
    · exact .inr (.inl ⟨inner, nested, level, found, member⟩)
    · exact .inr (.inr ⟨level, List.mem_cons_of_mem _ later, member⟩)

theorem not_among_nil (operator : Operator) : ¬ operator.Among [] := by
  intro among
  obtain ⟨level, found, member⟩ := among
  rcases List.mem_cons.mp found with rfl | within
  · cases member
  · cases within

theorem inner_of_bare {operator : Operator} (bare : operator.Bare) : operator.inner = [] := by
  unfold inner
  split
  · next sub subRoot join tag => exact absurd rfl (bare.1 sub subRoot join tag)
  · next branches parents tag => exact absurd rfl (bare.2 branches parents tag)
  · rfl

theorem bare_or_branching (operator : Operator) : operator.Bare ∨
    (∃ sub subRoot join tag, operator = ⟨.apply (some sub) subRoot join, tag⟩) ∨
    ∃ branches parents tag, operator = ⟨.union (some branches) parents, tag⟩ := by
  by_cases applies : ∃ sub subRoot join tag, operator = ⟨.apply (some sub) subRoot join, tag⟩
  · exact .inr (.inl applies)
  by_cases joins : ∃ branches parents tag, operator = ⟨.union (some branches) parents, tag⟩
  · exact .inr (.inr joins)
  · exact .inl ⟨fun sub subRoot join tag same => applies ⟨sub, subRoot, join, tag, same⟩,
      fun branches parents tag same => joins ⟨branches, parents, tag, same⟩⟩

/-- The nodes that an operator may be made to refer to. A sub-plan that has operators has a first node, and
each branch has a last one. -/
def Fits (operator : Operator) (links : Links) : Prop :=
  match operator.args with
  | .apply (some sub) _ _ => ∃ root, links.subRoot = some root ∧ (sub ≠ [] → 0 ≤ root)
  | .union (some branches) _ => ∃ lasts, links.parents = some lasts ∧ lasts.length = branches.length
  | _ => links = operator.links

theorem fits_bare {operator : Operator} (bare : operator.Bare) : operator.Fits operator.links := by
  obtain ⟨args, tag⟩ := operator
  unfold Fits
  split
  · next sub subRoot join same => exact absurd (congrArg (Operator.mk · tag) same) (bare.1 sub subRoot join tag)
  · next branches parents same => exact absurd (congrArg (Operator.mk · tag) same) (bare.2 branches parents tag)
  · rfl

/-- The operator does not pass one of its checks. -/
inductive Blames (operator : Operator) (error : Error) : Prop
  | branching (failed : operator.checkBranching = .error error)
  | node {links : Links} (fits : operator.Fits links) (failed : operator.toNode links = .error error)

end Operator

/-- Why nothing more can be appended. -/
inductive Fault (culprits : Operator → Prop) : Error → Prop
  | closed : Fault culprits .useAfterClose
  | plan (kind : OperatorKind) (refusal : Refusal) : Fault culprits (.appendFailed kind refusal)
  | operator {operator : Operator} {error : Error} (culprit : culprits operator) (blames : operator.Blames error) :
      Fault culprits error

theorem Fault.weaken {culprits others : Operator → Prop} {error : Error} (fault : Fault culprits error)
    (follows : ∀ operator, culprits operator → others operator) : Fault others error := by
  cases fault with
  | closed => exact .closed
  | plan kind refusal => exact .plan kind refusal
  | operator culprit blames => exact .operator (follows _ culprit) blames

namespace Assembly

open Assembling

variable {parent scope : Int} {operator : Operator} {before : Assembly PlanGraph}

private def BlamesOperator (parent scope : Int) (operator : Operator) : Prop :=
  ∀ {before : Assembly PlanGraph}, (place PlanGraph.accumulator parent scope operator).Ends before
    (fun placed _ => 0 ≤ placed.1) fun error _ => Fault (·.Among [operator]) error

private def BlamesBranches (parent scope : Int) (branches : List (List Operator)) : Prop :=
  ∀ {before : Assembly PlanGraph}, (placeBranches PlanGraph.accumulator parent scope branches).Ends before
    (fun lasts _ => lasts.length = branches.length) fun error _ =>
      Fault (fun operator => ∃ branch ∈ branches, operator.Among branch) error

/-- The first operator's node is there; it may have been given. -/
private def BlamesChain (first : Option Int) (parent scope : Int) (operators : List Operator) : Prop :=
  ∀ {before : Assembly PlanGraph}, (placeFrom PlanGraph.accumulator first parent scope operators).Ends before
    (fun placed _ => (∀ given, first = some given → placed.1 = given) ∧ (first = none → operators ≠ [] → 0 ≤ placed.1))
    fun error _ => Fault (·.Among operators) error

private theorem blames_linked {links : Links} (fits : operator.Fits links) :
    (placeLinked PlanGraph.accumulator parent scope operator links).Ends before
      (fun placed _ => 0 ≤ placed.1) fun error _ => Fault (·.Among [operator]) error :=
  placeLinked_ends_of_checks
    (fun _ failed => .operator (Operator.among_of_mem List.mem_cons_self) (.node fits failed))
    (fun _ refusal _ _ => .plan operator.kind refusal) fun _ own _ _ _ => Int.natCast_nonneg own

private theorem blames_branching (error : Error) (failed : operator.checkBranching = .error error) :
    Fault (·.Among [operator]) error :=
  .operator (Operator.among_of_mem List.mem_cons_self) (.branching failed)

private theorem blamesOperator_apply {sub : List Operator} {subRoot : Option Int32} {join : Option JoinKind}
    {tag : Option Alias} (inner : BlamesChain none (-1) (if 0 ≤ parent then parent else scope) sub) :
    BlamesOperator parent scope ⟨.apply (some sub) subRoot join, tag⟩ := by
  intro before
  refine place_apply_ends_of_checks (fun _ => .closed) blames_branching (inner.weaken (fun _ _ => id) fun error _ fault => ?_)
    fun first _ found => ?_
  · exact fault.weaken fun _ => Operator.among_of_inner List.mem_cons_self List.mem_cons_self
  · exact blames_linked ⟨first.1, rfl, found.2 rfl⟩

private theorem blamesOperator_union {branches : List (List Operator)} {parents : Option (List Int32)} {tag : Option Alias}
    (inner : BlamesBranches parent scope branches) : BlamesOperator parent scope ⟨.union (some branches) parents, tag⟩ := by
  intro before
  refine place_union_ends_of_checks (fun _ => .closed) blames_branching (inner.weaken (fun _ _ => id) fun error _ fault => ?_)
    fun lasts _ count => ?_
  · refine fault.weaken fun operator found => ?_
    obtain ⟨branch, member, among⟩ := found
    exact Operator.among_of_inner member List.mem_cons_self among
  · exact blames_linked ⟨lasts, rfl, count⟩

private theorem blamesChain_cons {first : Option Int} {rest : List Operator} (here : BlamesOperator parent scope operator)
    (later : ∀ own last, BlamesChain (first.or (some own)) last scope rest) :
    BlamesChain first parent scope (operator :: rest) := by
  intro before
  refine placeFrom_cons_ends (here.weaken (fun _ _ => id) fun _ _ fault => fault.weaken fun _ => Operator.among_of_single)
    fun own last middle inside => ?_
  refine (later own last).weaken (fun placed _ found => ?_) fun _ _ fault => fault.weaken fun _ => Operator.among_cons
  cases first with
  | none => exact ⟨nofun, fun _ _ => found.1 own rfl ▸ inside⟩
  | some given => exact ⟨fun _ same => found.1 _ same, nofun⟩

private theorem blamesBranches_cons {branch : List Operator} {rest : List (List Operator)}
    (here : BlamesChain none parent scope branch) (later : BlamesBranches parent scope rest) :
    BlamesBranches parent scope (branch :: rest) := by
  intro before
  refine placeBranches_cons_ends (here.weaken (fun _ _ => id) fun _ _ fault => ?_) fun _ _ _ _ => ?_
  · exact fault.weaken fun _ among => ⟨branch, List.mem_cons_self, among⟩
  · refine later.weaken (fun _ _ count => congrArg Nat.succ count) fun _ _ fault => fault.weaken fun _ found => ?_
    obtain ⟨other, member, among⟩ := found
    exact ⟨other, List.mem_cons_of_mem _ member, among⟩

private theorem blamesChain (first : Option Int) (parent scope : Int) (operators : List Operator) :
    BlamesChain first parent scope operators := by
  refine (place.mutual_induct BlamesOperator BlamesBranches BlamesChain ?_ ?_ ?_ ?_ ?_ ?_ ?_).2.2 first parent scope operators
  · intro _ _ _ _ _ _ inner
    exact blamesOperator_apply inner
  · intro _ _ _ _ _ inner
    exact blamesOperator_union inner
  · intro _ _ operator noApply noUnion before
    have bare : operator.Bare := ⟨noApply, noUnion⟩
    exact place_bare_ends_of_checks bare (fun _ => .closed) blames_branching fun _ => blames_linked (Operator.fits_bare bare)
  · intro first parent _ _
    exact .pure ⟨fun given same => by rw [same]; rfl, fun _ some => absurd rfl some⟩
  · intro _ _ _ _ _ here later
    exact blamesChain_cons here later
  · intro _ _ _
    exact .pure rfl
  · intro _ _ _ _ here later
    exact blamesBranches_cons here later

/-- Operators that cannot all be appended are refused by the plan, or one of them blames itself. -/
theorem fault_of_appendAll {operators : List Operator} {error : Error}
    (failed : ((appendAll PlanGraph.accumulator parent operators).run before).1 = .error error) :
    Fault (·.Among operators) error := by
  have ends : (appendAll PlanGraph.accumulator parent operators).Ends before _ _ :=
    blamesChain none parent (-1) operators
  obtain ⟨_, ran⟩ := Assembling.ran_of_error failed
  exact ends.fault ran

end Assembly

end TraversalPlanner
