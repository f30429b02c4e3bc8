import TraversalPlanner.Plan.Assembly
import TraversalPlanner.Proofs.GraphGrowth
import TraversalPlanner.Proofs.LoweringChecks

/-! Assertions about assembling. Running some steps from a state ends in an answer or in an error; what is
asserted of either may mention the state that is left behind. The rules for placing operators are stated
for plans as their own accumulators. -/

namespace TraversalPlanner

open Proofs

namespace Assembling

variable {σ α β : Type} {before : Assembly σ} {answers : α → Assembly σ → Prop} {fails : Error → Assembly σ → Prop}

structure Ends (program : Assembling σ α) (before : Assembly σ) (answers : α → Assembly σ → Prop)
    (fails : Error → Assembly σ → Prop) : Prop where
  holds : match program.run before with
    | (.ok value, after) => answers value after
    | (.error error, after) => fails error after

theorem Ends.answer {program : Assembling σ α} {value : α} {after : Assembly σ} (ends : program.Ends before answers fails)
    (ran : program.run before = (.ok value, after)) : answers value after := by
  have held := ends.holds
  rw [ran] at held
  exact held

theorem Ends.fault {program : Assembling σ α} {error : Error} {after : Assembly σ} (ends : program.Ends before answers fails)
    (ran : program.run before = (.error error, after)) : fails error after := by
  have held := ends.holds
  rw [ran] at held
  exact held

theorem ran_of_isOk {program : Assembling σ α} (passes : (program.run before).1.isOk = true) :
    ∃ value after, program.run before = (.ok value, after) := by
  obtain ⟨value, same⟩ := ok_of_isOk passes
  exact ⟨value, (program.run before).2, Prod.ext same rfl⟩

theorem ran_of_error {program : Assembling σ α} {error : Error} (failed : (program.run before).1 = .error error) :
    ∃ after, program.run before = (.error error, after) := ⟨(program.run before).2, Prod.ext failed rfl⟩

/-- A program that can have no answer fails. -/
theorem Ends.failed {program : Assembling σ α} (ends : program.Ends before (fun _ _ => False) fails) :
    ∃ error after, program.run before = (.error error, after) ∧ fails error after := by
  have held := ends.holds
  split at held
  · exact held.elim
  · next error after ran => exact ⟨error, after, ran, held⟩

/-- An assertion that leaves one outcome names it. -/
theorem Ends.run {program : Assembling σ α} {outcome : Except Error α × Assembly σ}
    (ends : program.Ends before (fun value after => (.ok value, after) = outcome) fun error after =>
      (.error error, after) = outcome) : program.run before = outcome := by
  have held := ends.holds
  split at held
  · next ran => rw [ran, held]
  · next ran => rw [ran, held]

theorem Ends.pure {value : α} (holds : answers value before) : Ends (Pure.pure value) before answers fails := ⟨holds⟩

theorem Ends.throw {error : Error} (holds : fails error before) : Ends (throw error) before answers fails := ⟨holds⟩

theorem Ends.weaken {stronger : α → Assembly σ → Prop} {worse : Error → Assembly σ → Prop} {program : Assembling σ α}
    (ends : program.Ends before stronger worse) (answered : ∀ value after, stronger value after → answers value after)
    (failed : ∀ error after, worse error after → fails error after) : program.Ends before answers fails := by
  have held := ends.holds
  constructor
  split at held
  · next value after _ => exact answered value after held
  · next error after _ => exact failed error after held

/-- What is known of the answers of a program may be asserted beside the ways in which it fails. -/
theorem Ends.knowing {program : Assembling σ α} (ends : program.Ends before (fun _ _ => True) fails)
    (known : program.Ends before answers fun _ _ => True) : program.Ends before answers fails := by
  have failed := ends.holds
  have answered := known.holds
  constructor
  generalize program.run before = ran at failed answered ⊢
  rcases ran with ⟨error | value, after⟩
  · exact failed
  · exact answered

theorem run_bind (program : Assembling σ β) (next : β → Assembling σ α) :
    (program >>= next).run before =
      match program.run before with
      | (.ok value, after) => (next value).run after
      | (.error error, after) => (.error error, after) := by
  change ExceptT.bindCont next (program.run before).1 (program.run before).2 = _
  rcases program.run before with ⟨_ | _, _⟩ <;> rfl

theorem Ends.bind {program : Assembling σ β} {next : β → Assembling σ α} (middle : β → Assembly σ → Prop)
    (first : program.Ends before middle fails)
    (rest : ∀ value after, middle value after → (next value).Ends after answers fails) :
    (program >>= next).Ends before answers fails := by
  have held := first.holds
  constructor
  rw [run_bind]
  split at held
  · next value after _ => exact (rest value after held).holds
  · exact held

/-- A first step whose outcome is known is done with. -/
theorem Ends.of_ran {program : Assembling σ β} {next : β → Assembling σ α} {value : β} {middle : Assembly σ}
    (ran : program.run before = (.ok value, middle)) (rest : (next value).Ends middle answers fails) :
    (program >>= next).Ends before answers fails := by
  constructor
  rw [run_bind, ran]
  exact rest.holds

theorem Ends.modify {change : Assembly σ → Assembly σ} {answers : Unit → Assembly σ → Prop}
    (holds : answers () (change before)) : Ends (modify change) before answers fails := ⟨holds⟩

theorem run_checkOpen (opened : before.state ≠ .closed) : Assembly.checkOpen.run before = (.ok (), before) := by
  unfold Assembly.checkOpen
  rw [run_bind]
  change (if before.state = .closed then throw .useAfterClose else pure () : Assembling σ Unit).run before = _
  rw [if_neg opened]
  rfl

theorem Ends.checkOpen {answers : Unit → Assembly σ → Prop} (opened : before.state ≠ .closed → answers () before)
    (closed : before.state = .closed → fails .useAfterClose before) : Assembly.checkOpen.Ends before answers fails := by
  refine Ends.of_ran (show (get : Assembling σ (Assembly σ)).run before = (.ok before, before) from rfl) ?_
  split
  · next shut => exact .throw (closed shut)
  · next opening => exact .pure (opened opening)

end Assembling

namespace Operator

mutual
/-- It names no node of the plan that it is to enter. -/
def Unlinked : Operator → Prop
  | ⟨.apply (some sub) subRoot _, _⟩ => subRoot = none ∧ UnlinkedAll sub
  | ⟨.apply none subRoot _, _⟩ => subRoot = none
  | ⟨.union (some branches) parents, _⟩ => parents = none ∧ UnlinkedBranches branches
  | ⟨.union none parents, _⟩ => parents = none
  | _ => True
termination_by structural operator => operator

def UnlinkedAll : List Operator → Prop
  | [] => True
  | operator :: rest => operator.Unlinked ∧ UnlinkedAll rest
termination_by structural operators => operators

def UnlinkedBranches : List (List Operator) → Prop
  | [] => True
  | branch :: rest => UnlinkedAll branch ∧ UnlinkedBranches rest
termination_by structural branches => branches
end

/-- It holds no operators of its own. -/
def Bare (operator : Operator) : Prop :=
  (∀ sub subRoot join tag, operator ≠ ⟨.apply (some sub) subRoot join, tag⟩) ∧
    ∀ branches parents tag, operator ≠ ⟨.union (some branches) parents, tag⟩

/-- An operator that could branch has something to branch into. -/
theorem single_of_checkBranching {operator : Operator} (bare : operator.Bare) (unlinked : operator.Unlinked)
    (passed : operator.checkBranching = .ok ()) : operator.kind ≠ .apply ∧ operator.kind ≠ .union := by
  obtain ⟨args, tag⟩ := operator
  cases args with
  | apply sub subRoot join =>
    cases sub with
    | some sub => exact absurd rfl (bare.1 sub subRoot join tag)
    | none =>
      cases unlinked
      simp only [checkBranching, bind_eq_ok] at passed
      obtain ⟨_, _, _, _, failed⟩ := passed
      cases failed
  | union branches parents =>
    cases branches with
    | some branches => exact absurd rfl (bare.2 branches parents tag)
    | none =>
      cases unlinked
      cases passed
  | _ => simp [kind, OperatorArguments.kind]

/-- The alias that takes a node of its own behind the operator's. -/
def trailing (operator : Operator) : Option Identifier :=
  if operator.kind.carriesAlias then none else operator.tag.map Alias.name

end Operator

/-- The parents that a node asks for when it is placed under another one. -/
def NodeOp.inputs (parent : Int) : NodeOp Int → List Int
  | .union parents => parents
  | _ => [parent]

def Lifecycle.begun : Lifecycle → Lifecycle
  | .created => .building
  | state => state

theorem Lifecycle.begun_ne_closed {state : Lifecycle} (opened : state ≠ .closed) : state.begun ≠ .closed := by
  cases state with
  | created => simp [begun]
  | _ => exact opened

namespace PlanGraph

variable {plan : PlanGraph} {op : NodeOp Int}

/-- Appends a node the way an assembly does: with no parent at all it is a root inside a scope. -/
def enter (plan : PlanGraph) (op : NodeOp Int) (parents : List Int) (scope : Int) : Except Refusal (Nat × PlanGraph) :=
  if parents = [-1] then plan.appendRoot op scope else plan.append op parents

def footing (plan : PlanGraph) (parents : List Int) (scope : Int) : Except Refusal (List Nat × List Identifier) :=
  if parents = [-1] then plan.groundRoot scope else plan.ground parents

theorem enter_eq {parents : List Int} {scope : Int} (kept : plan.released = false) :
    plan.enter op parents scope = plan.footing parents scope >>= fun ground => plan.insert op ground.1 ground.2 := by
  unfold enter footing
  split
  · simp only [appendRoot, groundRoot, kept, Bool.false_eq_true, if_false]
    split
    · rfl
    · cases plan.nodes[scope.toNat]? <;> rfl
  · simp only [append, ground, kept, Bool.false_eq_true, if_false]
    cases plan.resolveAll parents <;> rfl

theorem enter_appends (parents : List Int) (scope : Int) :
    plan.Appends op (plan.footing parents scope) (plan.enter op parents scope) := by
  unfold enter footing
  split
  · exact appendRoot_appends scope
  · exact append_appends parents

/-- The plan once an alias is bound behind a node, and the last node then. -/
def bindBehind (plan : PlanGraph) (own : Nat) : Option Identifier → Nat × PlanGraph
  | none => (own, plan)
  | some tag => (plan.size, plan.grow (.bind tag) [own] (plan.visibleAt own))

/-- Nothing can be wrong with binding an alias behind a node that is there. -/
theorem append_bind {tag : Identifier} {own : Nat} (kept : plan.released = false) (inside : own < plan.size) :
    plan.append (.bind tag) [(own : Int)] = .ok (plan.bindBehind own (some tag)) := by
  have stands : plan.ground [(own : Int)] = .ok ([own], plan.visibleAt own) := by
    have nonempty : plan.isEmpty = false := by
      simp only [isEmpty, List.isEmpty_eq_false_iff]
      exact List.ne_nil_of_length_pos (Nat.zero_lt_of_lt inside)
    have found : plan.resolve own = .ok own := resolve_eq_ok.mpr ⟨rfl, inside⟩
    simp only [ground, resolveAll, nonempty, List.mapM_cons, found]
    rw [if_neg (by simp)]
    rfl
  have known : plan.checkSchema (.bind tag) = .ok () := by
    unfold checkSchema checkAgainst
    cases plan.schema <;> rfl
  have ends : plan.Appends (.bind tag) _ _ := append_appends [(own : Int)]
  rw [stands] at ends
  generalize plan.append (.bind tag) [(own : Int)] = result at ends
  cases ends with
  | released gone => rw [kept] at gone; cases gone
  | groundless refused => cases refused
  | schema refused => rw [known] at refused; cases refused
  | tags _ refused =>
    obtain ⟨_, reference, member, _⟩ := checkTags_eq_error refused
    cases member
  | grown _ same => cases same; rfl

theorem lt_size_of_enter {parents : List Int} {scope : Int} {own : Nat} {after : PlanGraph}
    (entered : plan.enter op parents scope = .ok (own, after)) :
    own = plan.size ∧ own < after.size ∧ after.released = false := by
  have ends : plan.Appends op _ _ := enter_appends parents scope
  rw [entered] at ends
  cases ends with
  | grown kept _ _ _ => exact ⟨rfl, by simp, kept⟩

/-- A node that has entered is the newest one. -/
theorem grown_of_enter {parents : List Int} {scope : Int} {own : Nat} {after : PlanGraph}
    (entered : plan.enter op parents scope = .ok (own, after)) :
    own = plan.size ∧ ∃ found visible, after = plan.grow op found visible := by
  have appends : plan.Appends op _ _ := enter_appends parents scope
  rw [entered] at appends
  cases appends with
  | grown => exact ⟨rfl, _, _, rfl⟩

end PlanGraph

namespace Assembly

open Assembling

section Rules

variable {σ : Type} {accumulator : Accumulator σ} {parent scope : Int} {before : Assembly σ}
  {answers : Int × Int → Assembly σ → Prop} {fails : Error → Assembly σ → Prop}

private theorem checks_ends {α : Type} {operator : Operator} {next : Assembling σ α} {answers : α → Assembly σ → Prop}
    (closed : before.state = .closed → fails .useAfterClose before)
    (refused : ∀ error, operator.checkBranching = .error error → fails error before)
    (rest : before.state ≠ .closed → operator.checkBranching = .ok () → next.Ends before answers fails) :
    Ends (do
      checkOpen
      operator.checkBranching
      next) before answers fails := by
  refine Ends.bind (fun _ after => before.state ≠ .closed ∧ before = after)
    (Ends.checkOpen (fun opened => ⟨opened, rfl⟩) closed) fun _ after opening => ?_
  obtain ⟨opened, same⟩ := opening
  subst same
  cases checked : operator.checkBranching with
  | error error => exact .throw (refused error checked)
  | ok _ => exact rest opened checked

theorem place_bare_ends_of_checks {operator : Operator} (bare : operator.Bare)
    (closed : before.state = .closed → fails .useAfterClose before)
    (refused : ∀ error, operator.checkBranching = .error error → fails error before)
    (linked : operator.checkBranching = .ok () →
      (placeLinked accumulator parent scope operator operator.links).Ends before answers fails) :
    (place accumulator parent scope operator).Ends before answers fails := by
  rw [place.eq_3 _ _ _ _ bare.1 bare.2]
  exact checks_ends closed refused fun _ passed => linked passed

theorem place_apply_ends_of_checks {sub : List Operator} {subRoot : Option Int32} {join : Option JoinKind} {tag : Option Alias}
    {middle : Int × Int → Assembly σ → Prop} (closed : before.state = .closed → fails .useAfterClose before)
    (refused : ∀ error, Operator.checkBranching ⟨.apply (some sub) subRoot join, tag⟩ = .error error → fails error before)
    (inner : (placeFrom accumulator none (-1) (if 0 ≤ parent then parent else scope) sub).Ends before middle fails)
    (linked : ∀ first after, middle first after →
      (placeLinked accumulator parent scope ⟨.apply (some sub) subRoot join, tag⟩
        { subRoot := some first.1, parents := none }).Ends after answers fails) :
    (place accumulator parent scope ⟨.apply (some sub) subRoot join, tag⟩).Ends before answers fails := by
  rw [place.eq_1]
  exact checks_ends closed refused fun _ _ => inner.bind _ linked

theorem place_union_ends_of_checks {branches : List (List Operator)} {parents : Option (List Int32)} {tag : Option Alias}
    {middle : List Int → Assembly σ → Prop} (closed : before.state = .closed → fails .useAfterClose before)
    (refused : ∀ error, Operator.checkBranching ⟨.union (some branches) parents, tag⟩ = .error error → fails error before)
    (inner : (placeBranches accumulator parent scope branches).Ends before middle fails)
    (linked : ∀ lasts after, middle lasts after →
      (placeLinked accumulator parent scope ⟨.union (some branches) parents, tag⟩
        { subRoot := none, parents := some lasts }).Ends after answers fails) :
    (place accumulator parent scope ⟨.union (some branches) parents, tag⟩).Ends before answers fails := by
  rw [place.eq_2]
  exact checks_ends closed refused fun _ _ => inner.bind _ linked

private theorem blamed {operator : Operator} (illegal : ∀ error : Error, error.AboutOperator → fails error before)
    (error : Error) (failed : operator.checkBranching = .error error) : fails error before :=
  illegal error ((Operator.checkBranching_checks operator).error failed)

theorem place_bare_ends {operator : Operator} (bare : operator.Bare) (unlinked : operator.Unlinked)
    (closed : before.state = .closed → fails .useAfterClose before)
    (illegal : ∀ error : Error, error.AboutOperator → fails error before)
    (linked : operator.kind ≠ .apply → operator.kind ≠ .union →
      (placeLinked accumulator parent scope operator operator.links).Ends before answers fails) :
    (place accumulator parent scope operator).Ends before answers fails := by
  refine place_bare_ends_of_checks bare closed (blamed illegal) fun passed => ?_
  obtain ⟨apart, single⟩ := Operator.single_of_checkBranching bare unlinked passed
  exact linked apart single

theorem place_apply_ends {sub : List Operator} {subRoot : Option Int32} {join : Option JoinKind} {tag : Option Alias}
    {middle : Int × Int → Assembly σ → Prop}
    (closed : before.state = .closed → fails .useAfterClose before)
    (illegal : ∀ error : Error, error.AboutOperator → fails error before)
    (inner : (placeFrom accumulator none (-1) (if 0 ≤ parent then parent else scope) sub).Ends before middle fails)
    (linked : ∀ first after, middle first after →
      (placeLinked accumulator parent scope ⟨.apply (some sub) subRoot join, tag⟩
        { subRoot := some first.1, parents := none }).Ends after answers fails) :
    (place accumulator parent scope ⟨.apply (some sub) subRoot join, tag⟩).Ends before answers fails :=
  place_apply_ends_of_checks closed (blamed illegal) inner linked

theorem place_union_ends {branches : List (List Operator)} {parents : Option (List Int32)} {tag : Option Alias}
    {middle : List Int → Assembly σ → Prop}
    (closed : before.state = .closed → fails .useAfterClose before)
    (illegal : ∀ error : Error, error.AboutOperator → fails error before)
    (inner : (placeBranches accumulator parent scope branches).Ends before middle fails)
    (linked : ∀ lasts after, middle lasts after →
      (placeLinked accumulator parent scope ⟨.union (some branches) parents, tag⟩
        { subRoot := none, parents := some lasts }).Ends after answers fails) :
    (place accumulator parent scope ⟨.union (some branches) parents, tag⟩).Ends before answers fails :=
  place_union_ends_of_checks closed (blamed illegal) inner linked

theorem placeFrom_cons_ends {first : Option Int} {operator : Operator} {rest : List Operator}
    {middle : Int × Int → Assembly σ → Prop}
    (here : (place accumulator parent scope operator).Ends before middle fails)
    (later : ∀ own last after, middle (own, last) after →
      (placeFrom accumulator (first.or (some own)) last scope rest).Ends after answers fails) :
    (placeFrom accumulator first parent scope (operator :: rest)).Ends before answers fails := by
  rw [placeFrom.eq_2]
  exact here.bind _ fun (own, last) after holds => later own last after holds

theorem placeBranches_cons_ends {branch : List Operator} {rest : List (List Operator)}
    {middle : Int × Int → Assembly σ → Prop} {answers : List Int → Assembly σ → Prop}
    (here : (placeFrom accumulator none parent scope branch).Ends before middle fails)
    (later : ∀ first last after, middle (first, last) after →
      (placeBranches accumulator parent scope rest).Ends after (fun lasts after => answers (last :: lasts) after) fails) :
    (placeBranches accumulator parent scope (branch :: rest)).Ends before answers fails := by
  rw [placeBranches.eq_2]
  exact here.bind _ fun (first, last) after holds => (later first last after holds).bind _ fun _ _ holds => .pure holds

end Rules

variable {parent scope : Int} {operator : Operator} {links : Links} {before : Assembly PlanGraph}
  {answers : Int × Int → Assembly PlanGraph → Prop} {fails : Error → Assembly PlanGraph → Prop}

/-- The two calls of the accumulator are one append of the plan. -/
private theorem run_enter (op : NodeOp Int) (parents : List Int) (scope : Int) :
    (call fun store => if parents = [-1] then PlanGraph.accumulator.appendRoot op scope store
      else PlanGraph.accumulator.append op parents store).run before =
        (.ok (before.store.answer (before.store.enter op parents scope)).1,
          { before with store := (before.store.answer (before.store.enter op parents scope)).2 }) := by
  have action : (if parents = [-1] then PlanGraph.accumulator.appendRoot op scope before.store
      else PlanGraph.accumulator.append op parents before.store) =
        before.store.answer (before.store.enter op parents scope) := by
    unfold PlanGraph.enter
    split <;> rfl
  rw [← action]
  rfl

private theorem begun_ends {own last : Int} {store : PlanGraph}
    (holds : answers (own, last) { store, state := before.state.begun }) :
    Ends (do
      modify fun assembly => if assembly.state = .created then { assembly with state := .building } else assembly
      return (own, last)) { before with store } answers fails := by
  refine Ends.bind (fun _ after => answers (own, last) after) (Ends.modify ?_) fun _ _ held => .pure held
  obtain ⟨_, state⟩ := before
  cases state <;> exact holds

/-- What an assembly comes to that knows whether its node enters the plan. -/
def settle (before : Assembly PlanGraph) (operator : Operator) :
    Except Refusal (Nat × PlanGraph) → Except Error (Int × Int) × Assembly PlanGraph
  | .error refusal => (.error (.appendFailed operator.kind refusal), before)
  | .ok (own, plan) =>
    (.ok (own, (plan.bindBehind own operator.trailing).1),
      { store := (plan.bindBehind own operator.trailing).2, state := before.state.begun })

/-- A node is refused, or it enters the plan and its alias, if that needs a node, enters behind it. -/
theorem run_placeLinked : (placeLinked PlanGraph.accumulator parent scope operator links).run before =
    match operator.toNode links with
    | .error error => (.error error, before)
    | .ok op => before.settle operator (before.store.enter op (op.inputs parent) scope) := by
  refine Ends.run ?_
  unfold placeLinked
  cases lowered : operator.toNode links with
  | error error => exact .throw rfl
  | ok op =>
    refine Ends.of_ran rfl (Ends.of_ran (run_enter op (op.inputs parent) scope) ?_)
    simp only
    cases ended : before.store.enter op (op.inputs parent) scope with
    | error refusal => exact .throw rfl
    | ok grown =>
      obtain ⟨own, plan⟩ := grown
      obtain ⟨_, inside, kept⟩ := PlanGraph.lt_size_of_enter ended
      refine Ends.of_ran rfl ?_
      unfold settle Operator.trailing
      cases tagged : operator.tag with
      | none =>
        rw [Option.map_none, ite_self]
        exact begun_ends rfl
      | some tag =>
        cases carried : operator.kind.carriesAlias with
        | true =>
          rw [if_pos rfl]
          exact begun_ends rfl
        | false =>
          rw [if_neg (by decide)]
          have bound : plan.append (.bind tag.name) [(own : Int)] = _ := PlanGraph.append_bind kept inside
          have called : (call (PlanGraph.accumulator.append (.bind tag.name) [(own : Int)])).run
              { before with store := plan } =
                (.ok (.ok (plan.size : Int)), { before with store := (plan.bindBehind own (some tag.name)).2 }) := by
            change (_, { before with store := _ }) = _
            simp only [PlanGraph.accumulator, bound, PlanGraph.answer]
            rfl
          exact Ends.of_ran called (Ends.of_ran rfl (begun_ends rfl))

theorem placeLinked_ends_of_checks
    (illegal : ∀ error, operator.toNode links = .error error → fails error before)
    (refused : ∀ op refusal, operator.toNode links = .ok op →
      before.store.enter op (op.inputs parent) scope = .error refusal → fails (.appendFailed operator.kind refusal) before)
    (entered : ∀ op own plan, operator.toNode links = .ok op →
      before.store.enter op (op.inputs parent) scope = .ok (own, plan) →
      answers (own, (plan.bindBehind own operator.trailing).1)
        { store := (plan.bindBehind own operator.trailing).2, state := before.state.begun }) :
    (placeLinked PlanGraph.accumulator parent scope operator links).Ends before answers fails := by
  constructor
  rw [run_placeLinked]
  cases lowered : operator.toNode links with
  | error error => exact illegal error lowered
  | ok op =>
    simp only
    cases ended : before.store.enter op (op.inputs parent) scope with
    | error refusal => exact refused op refusal lowered ended
    | ok grown => exact entered op grown.1 grown.2 lowered ended

theorem placeLinked_ends
    (illegal : ∀ error : Error, error.AboutOperator → fails error before)
    (refused : ∀ op refusal, operator.toNode links = .ok op →
      before.store.enter op (op.inputs parent) scope = .error refusal → fails (.appendFailed operator.kind refusal) before)
    (entered : ∀ op own plan, operator.toNode links = .ok op →
      before.store.enter op (op.inputs parent) scope = .ok (own, plan) →
      answers (own, (plan.bindBehind own operator.trailing).1)
        { store := (plan.bindBehind own operator.trailing).2, state := before.state.begun }) :
    (placeLinked PlanGraph.accumulator parent scope operator links).Ends before answers fails :=
  placeLinked_ends_of_checks (fun error failed => illegal error ((Operator.toNode_checks operator links).error failed))
    refused entered

end Assembly

end TraversalPlanner
