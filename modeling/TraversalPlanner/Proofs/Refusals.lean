import TraversalPlanner.Proofs.BuildFaults
import TraversalPlanner.Proofs.HeadPositions
import TraversalPlanner.Proofs.Scanning
import TraversalPlanner.Proofs.Serialization

/-! What a plan may refuse while a traversal is compiled. A plan that is assembled is only ever asked for parents
that it has, or for none at all, so it can find fault with tags and, if it has a schema, with tables and columns.
It is asked for none beside others only by a union with an empty branch that has nothing before it. -/

namespace TraversalPlanner

open Proofs

/-- The refusals that a plan has a reason for. -/
inductive Refusal.Warranted (schema : Option Schema) (operators : List Operator) : Refusal → Prop
  | tag : Warranted schema operators .tagNotExist
  | table (given : schema.isSome) : Warranted schema operators .tableNotExist
  | column (given : schema.isSome) : Warranted schema operators .columnNotExist
  | index (gap : Operator.HeadGap operators) : Warranted schema operators .negativeIndex

def Error.Warranted (schema : Option Schema) (operators : List Operator) : Error → Prop
  | .appendFailed _ refusal => refusal.Warranted schema operators
  | .useAfterClose => False
  | _ => True

theorem Error.warranted_of_aboutOperator {schema : Option Schema} {operators : List Operator} {error : Error}
    (about : error.AboutOperator) : error.Warranted schema operators := by
  cases error with
  | illegalSlot | unsupportedAlias => trivial
  | _ => cases about

namespace PlanGraph

variable {plan after : PlanGraph} {op : NodeOp Int} {inputs : List Int} {scope : Int} {refusal : Refusal}

theorem resolve_refused {parent : Int} (knows : plan.Knows parent) (refused : plan.resolve parent = .error refusal) :
    refusal = .negativeIndex ∧ parent = -1 := by
  rcases knows with rfl | ⟨id, rfl, inside⟩
  · cases refused
    exact ⟨rfl, rfl⟩
  · cases refused.symm.trans (resolve_eq_ok.mpr ⟨rfl, inside⟩)

/-- Where all that is asked for is known, only `-1` beside other parents is refused. -/
theorem footing_refused (each : ∀ input ∈ inputs, plan.Knows input) (knowsScope : plan.Knows scope)
    (refused : plan.footing inputs scope = .error refusal) : refusal = .negativeIndex ∧ inputs ≠ [-1] ∧ -1 ∈ inputs := by
  unfold footing at refused
  split at refused
  · unfold groundRoot at refused
    rcases knowsScope with rfl | ⟨id, rfl, inside⟩
    · cases refused
    · have found : plan.nodes[id]? = some plan.nodes[id] := List.getElem?_eq_getElem inside
      rw [if_neg (Int.not_lt.mpr (Int.natCast_nonneg id)), Int.toNat_natCast, found] at refused
      cases refused
  · next several =>
    have unresolved := ground_eq_error.mp refused
    unfold resolveAll at unresolved
    split at unresolved
    · cases unresolved
    · obtain ⟨input, member, failed⟩ := mapM_eq_error unresolved
      obtain ⟨negative, detached⟩ := resolve_refused (each input member) failed
      exact ⟨negative, several, detached ▸ member⟩

theorem schema_isSome_of_refused (refused : plan.checkSchema op = .error refusal) : plan.schema.isSome := by
  unfold checkSchema checkAgainst at refused
  cases given : plan.schema with
  | none =>
    rw [given] at refused
    cases refused
  | some schema => rfl

theorem enter_refused {operators : List Operator} (kept : plan.released = false) (each : ∀ input ∈ inputs, plan.Knows input)
    (knowsScope : plan.Knows scope) (gap : inputs ≠ [-1] → -1 ∈ inputs → Operator.HeadGap operators)
    (refused : plan.enter op inputs scope = .error refusal) : refusal.Warranted plan.schema operators := by
  have appends : plan.Appends op _ _ := enter_appends inputs scope
  rw [refused] at appends
  cases appends with
  | released gone =>
    rw [kept] at gone
    cases gone
  | groundless refused =>
    obtain ⟨negative, several, detached⟩ := footing_refused each knowsScope refused
    rw [negative]
    exact .index (gap several detached)
  | schema refused =>
    have given := schema_isSome_of_refused refused
    rcases checkSchema_eq_error refused with same | same
    · exact same ▸ .table given
    · exact same ▸ .column given
  | tags _ refused =>
    rw [(checkTags_eq_error refused).1]
    exact .tag

theorem Lands.schema {own last : Nat} (lands : plan.Lands op inputs own last after) : after.schema = plan.schema := by
  cases lands <;> rfl

end PlanGraph

theorem Planted.schema {plan after : PlanGraph} {parent : Int} {cargo : Cargo} {yield : Yield}
    (planted : Planted plan parent cargo after yield) : after.schema = plan.schema := by
  induction planted with
  | bare _ _ _ lands => exact lands.schema
  | apply _ _ lands inner => exact lands.schema.trans inner
  | union _ _ lands inner => exact lands.schema.trans inner
  | done => rfl
  | next _ _ here later => exact later.trans here
  | unbranched => rfl
  | branch _ _ here later => exact later.trans here

namespace Assembly

open Assembling

/-- The plan may still grow, under the schema. -/
structure Ready (schema : Option Schema) (assembly : Assembly PlanGraph) : Prop where
  opened : assembly.state ≠ .closed
  kept : assembly.store.released = false
  schema : assembly.store.schema = schema

variable {schema : Option Schema} {operators : List Operator} {parent scope : Int} {operator : Operator}
  {before after : Assembly PlanGraph}

theorem Ready.planted {cargo : Cargo} {yield : Yield} (ready : Ready schema before)
    (plants : Plants before parent cargo after yield) : Ready schema after where
  opened := plants.opened ready.opened
  kept := plants.planted.released.trans ready.kept
  schema := plants.planted.schema.trans ready.schema

/-- Something is to be placed where the plan is ready for it. -/
structure Fit (schema : Option Schema) (operators : List Operator) (parent scope : Int) (cargo : Cargo)
    (before : Assembly PlanGraph) : Prop where
  ready : Ready schema before
  knows : before.store.Knows parent
  knowsScope : before.store.Knows scope
  under : cargo.Under operators parent

private def WarrantsOperator (schema : Option Schema) (operators : List Operator) (parent scope : Int)
    (operator : Operator) : Prop :=
  ∀ {before : Assembly PlanGraph}, operator.Unlinked → Fit schema operators parent scope (.operator operator) before →
    (place PlanGraph.accumulator parent scope operator).Ends before (fun _ _ => True) fun error _ =>
      error.Warranted schema operators

private def WarrantsBranches (schema : Option Schema) (operators : List Operator) (parent scope : Int)
    (branches : List (List Operator)) : Prop :=
  ∀ {before : Assembly PlanGraph}, Operator.UnlinkedBranches branches →
    Fit schema operators parent scope (.branches branches) before →
    (placeBranches PlanGraph.accumulator parent scope branches).Ends before (fun _ _ => True) fun error _ =>
      error.Warranted schema operators

private def WarrantsChain (schema : Option Schema) (operators : List Operator) (first : Option Int) (parent scope : Int)
    (chain : List Operator) : Prop :=
  ∀ {before : Assembly PlanGraph}, Operator.UnlinkedAll chain → Fit schema operators parent scope (.chain chain) before →
    (placeFrom PlanGraph.accumulator first parent scope chain).Ends before (fun _ _ => True) fun error _ =>
      error.Warranted schema operators

private theorem warrants_linked {links : Links} (ready : Ready schema before) (knowsScope : before.store.Knows scope)
    (each : ∀ op, operator.toNode links = .ok op → ∀ input ∈ op.inputs parent, before.store.Knows input)
    (gap : ∀ op, operator.toNode links = .ok op → op.inputs parent ≠ [-1] → -1 ∈ op.inputs parent →
      Operator.HeadGap operators) :
    (placeLinked PlanGraph.accumulator parent scope operator links).Ends before (fun _ _ => True) fun error _ =>
      error.Warranted schema operators := by
  refine placeLinked_ends (fun _ => Error.warranted_of_aboutOperator) (fun op refusal lowered refused => ?_)
    fun _ _ _ _ _ => trivial
  have warranted := PlanGraph.enter_refused ready.kept (each op lowered) knowsScope (gap op lowered) refused
  rwa [ready.schema] at warranted

private theorem warrants_single {links : Links} (ready : Ready schema before) (knows : before.store.Knows parent)
    (knowsScope : before.store.Knows scope)
    (alone : ∀ op, operator.toNode links = .ok op → op.inputs parent = [parent]) :
    (placeLinked PlanGraph.accumulator parent scope operator links).Ends before (fun _ _ => True) fun error _ =>
      error.Warranted schema operators := by
  refine warrants_linked ready knowsScope (fun op lowered input member => ?_) fun op lowered several detached => ?_
  · rw [alone op lowered, List.mem_singleton] at member
    exact member ▸ knows
  · rw [alone op lowered] at several detached
    exact absurd (congrArg List.singleton (List.mem_singleton.mp detached).symm) several

private theorem warrants_bare (bare : operator.Bare) : WarrantsOperator schema operators parent scope operator := by
  intro before unlinked fit
  refine place_bare_ends bare unlinked fit.ready.opened (fun _ => Error.warranted_of_aboutOperator)
    fun apart single => ?_
  exact warrants_single fit.ready fit.knows fit.knowsScope fun _ lowered =>
    NodeOp.inputs_of_single (Operator.single_of_toNode lowered apart single).2

private theorem warrants_apply {sub : List Operator} {subRoot : Option Int32} {join : Option JoinKind} {tag : Option Alias}
    (inner : WarrantsChain schema operators none (-1) (if 0 ≤ parent then parent else scope) sub) :
    WarrantsOperator schema operators parent scope ⟨.apply (some sub) subRoot join, tag⟩ := by
  intro before unlinked fit
  have inside : before.store.Knows (if 0 ≤ parent then parent else scope) := by
    split
    · exact fit.knows
    · exact fit.knowsScope
  refine place_apply_ends (fun shut => absurd shut fit.ready.opened) (fun _ => Error.warranted_of_aboutOperator)
    ((inner unlinked.2 ⟨fit.ready, .inl rfl, inside, fit.under.toSub⟩).knowing (placeFrom_plants unlinked.2))
    fun first middle planted => ?_
  obtain ⟨_, _, plants⟩ := planted
  have grown := plants.planted.grows.size_le
  have alone {links : Links} (op : NodeOp Int)
      (lowered : Operator.toNode ⟨.apply (some sub) subRoot join, tag⟩ links = .ok op) : op.inputs parent = [parent] := by
    obtain ⟨_, _, _, _, _, same⟩ := Operator.toNode_apply lowered
    rw [same]
    rfl
  exact warrants_single (fit.ready.planted plants) (fit.knows.mono grown) (fit.knowsScope.mono grown) alone

private theorem warrants_union {branches : List (List Operator)} {parents : Option (List Int32)} {tag : Option Alias}
    (inner : WarrantsBranches schema operators parent scope branches) :
    WarrantsOperator schema operators parent scope ⟨.union (some branches) parents, tag⟩ := by
  intro before unlinked fit
  refine place_union_ends (fun shut => absurd shut fit.ready.opened) (fun _ => Error.warranted_of_aboutOperator)
    ((inner unlinked.2 ⟨fit.ready, fit.knows, fit.knowsScope, fit.under.toBranches⟩).knowing
      (placeBranches_plants unlinked.2))
    fun lasts middle plants => ?_
  have grown := plants.planted.grows.size_le
  have joined (op : NodeOp Int) (lowered : Operator.toNode ⟨.union (some branches) parents, tag⟩
      { subRoot := none, parents := some lasts } = .ok op) : op.inputs parent = lasts := by
    obtain ⟨_, _, given, same⟩ := Operator.toNode_union lowered
    rw [same]
    exact (Option.some.inj given).symm
  refine warrants_linked (fit.ready.planted plants) (fit.knowsScope.mono grown) (fun op lowered input member => ?_)
    fun op lowered _ detached => ?_
  · rw [joined op lowered] at member
    obtain ⟨_, _, cases⟩ := related_left plants.planted.inside member
    rcases cases with ⟨_, same⟩ | ⟨_, _, _⟩
    · exact same ▸ fit.knows.mono grown
    · exact PlanGraph.knows_of_inside (by omega) (by omega)
  · rw [joined op lowered] at detached
    obtain ⟨empty, same⟩ := plants.planted.empty_of_negative detached (by decide)
    subst same
    exact fit.under.gap empty

private theorem warrants_cons {first : Option Int} {rest : List Operator}
    (here : WarrantsOperator schema operators parent scope operator)
    (later : ∀ own last, WarrantsChain schema operators (first.or (some own)) last scope rest) :
    WarrantsChain schema operators first parent scope (operator :: rest) := by
  intro before unlinked fit
  refine placeFrom_cons_ends ((here unlinked.1 ⟨fit.ready, fit.knows, fit.knowsScope, fit.under.toFirst⟩).knowing
    (place_plants unlinked.1)) fun own last middle plants => ?_
  have grown := plants.planted.grows.size_le
  obtain ⟨_, _, _⟩ := plants.planted.inside
  exact later own last unlinked.2 ⟨fit.ready.planted plants, PlanGraph.knows_of_inside (by omega) (by omega),
    fit.knowsScope.mono grown, fit.under.toRest (by omega)⟩

private theorem warrants_branch {branch : List Operator} {rest : List (List Operator)}
    (here : WarrantsChain schema operators none parent scope branch)
    (later : WarrantsBranches schema operators parent scope rest) :
    WarrantsBranches schema operators parent scope (branch :: rest) := by
  intro before unlinked fit
  refine placeBranches_cons_ends ((here unlinked.1 ⟨fit.ready, fit.knows, fit.knowsScope, fit.under.toBranch⟩).knowing
    (placeFrom_plants unlinked.1)) fun first last middle planted => ?_
  obtain ⟨_, _, plants⟩ := planted
  have grown := plants.planted.grows.size_le
  exact later unlinked.2 ⟨fit.ready.planted plants, fit.knows.mono grown, fit.knowsScope.mono grown, fit.under.toOthers⟩

private theorem warrants (first : Option Int) (parent scope : Int) (chain : List Operator) :
    WarrantsChain schema operators first parent scope chain := by
  refine (place.mutual_induct (WarrantsOperator schema operators) (WarrantsBranches schema operators)
    (WarrantsChain schema operators) ?_ ?_ ?_ ?_ ?_ ?_ ?_).2.2 first parent scope chain
  · intro _ _ _ _ _ _ inner
    exact warrants_apply inner
  · intro _ _ _ _ _ inner
    exact warrants_union inner
  · intro _ _ _ noApply noUnion
    exact warrants_bare ⟨noApply, noUnion⟩
  · intro _ _ _ _ _ _
    exact .pure trivial
  · intro _ _ _ _ _ here later
    exact warrants_cons here later
  · intro _ _ _ _ _
    exact .pure trivial
  · intro _ _ _ _ here later
    exact warrants_branch here later

/-- Operators that cannot all be appended to an empty plan have given it a reason. -/
theorem appendAll_warranted {error : Error} (unlinked : Operator.UnlinkedAll operators)
    (failed : (appendAll PlanGraph.accumulator (-1) operators).run (start (.empty schema)) = (.error error, after)) :
    error.Warranted schema operators := by
  have fit : Fit schema operators (-1) (-1) (.chain operators) (start (.empty schema)) :=
    ⟨⟨by simp [start], rfl, rfl⟩, .inl rfl, .inl rfl, .whole operators (-1)⟩
  have ends : (appendAll PlanGraph.accumulator (-1) operators).Ends (start (.empty schema)) _ _ :=
    warrants none (-1) (-1) operators unlinked fit
  exact ends.fault failed

end Assembly

namespace Compiler

variable {schema : Option Schema} {traversal : Traversal} {error : Error}

theorem warranted_of_compile {deployment : Deployment} (failed : compile deployment schema traversal = .error error) :
    error.AboutStep ∨ ∃ operators, traversal.build = .ok operators ∧ error.Warranted schema operators := by
  cases built : traversal.build with
  | error fault =>
    unfold compile compileWith run at failed
    rw [built] at failed
    cases failed
    exact .inl (Traversal.build_fails traversal _ built)
  | ok operators =>
    refine .inr ⟨operators, rfl, ?_⟩
    rcases ran : (Assembly.appendAll PlanGraph.accumulator (-1) operators).run (Assembly.start (.empty schema)) with
      ⟨answer, assembly⟩
    cases answer with
    | error fault =>
      unfold compile compileWith run at failed
      rw [built] at failed
      simp only [Assembling.run_bind, ran] at failed
      cases failed
      exact Assembly.appendAll_warranted (Traversal.faithful traversal operators built).unlinked ran
    | ok placed =>
      have assembles : Assembles schema traversal assembly.store := ⟨operators, placed, assembly, built, ran, rfl⟩
      rcases assembles.compile_cases deployment with ⟨_, unbuilt⟩ | ⟨_, _, made, _⟩
      · cases failed.symm.trans unbuilt
        trivial
      · cases failed.symm.trans made

/-- Whatever the traversal and the schema, a plan is not used once it is closed, and it refuses a node only because
of a tag, because of a table or a column if it has a schema, or because of a union with an empty branch that has
nothing before it. Nor can an expression be one that it does not scan. -/
theorem compile_refusals (schema : Option Schema) (deployment : Deployment) (traversal : Traversal) :
    (∀ text, Expression.Scanner.references? text = some (Expression.referencesOf text)) ∧
      ∀ error, compile deployment schema traversal = .error error →
        error ≠ .useAfterClose ∧ ∀ kind refusal, error = .appendFailed kind refusal →
          ∃ operators, traversal.build = .ok operators ∧ refusal.Warranted schema operators := by
  refine ⟨Expression.Scanner.references?_eq, fun error failed => ?_⟩
  rcases warranted_of_compile failed with about | ⟨operators, built, warranted⟩
  · refine ⟨fun same => ?_, fun kind refusal same => ?_⟩
    · rw [same] at about
      exact about
    · rw [same] at about
      exact about.elim
  · refine ⟨fun same => ?_, fun kind refusal same => ⟨operators, built, ?_⟩⟩
    · rw [same] at warranted
      exact warranted
    · rw [same] at warranted
      exact warranted

/-- Vertices that have a neighbour or are there. -/
def reluctant : Traversal :=
  (Traversal.vertices []).add (.whereTraversal (Traversal.add [] (.union [Traversal.out [] [], []])))

theorem reluctant_refused :
    compile .standalone none reluctant = .error (.appendFailed .union .negativeIndex) ∧
      (Error.appendFailed .union .negativeIndex ≠ .useAfterClose ∧
        ∀ kind refusal, Error.appendFailed .union .negativeIndex = .appendFailed kind refusal →
          ∃ operators, reluctant.build = .ok operators ∧ refusal.Warranted none operators) := by
  have failed : compile .standalone none reluctant = .error (.appendFailed .union .negativeIndex) := by
    with_unfolding_all rfl
  exact ⟨failed, (compile_refusals none .standalone reluctant).2 _ failed⟩

end Compiler

end TraversalPlanner
