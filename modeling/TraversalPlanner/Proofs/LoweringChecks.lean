import TraversalPlanner.Plan.Lowering
import TraversalPlanner.Proofs.ListEffects

/-! What lowering an operator can come to. A failed check blames the operator itself, its arguments or its
alias, and never the plan; a node is well formed, has the kind of its operator, refers to the nodes that it was
given and binds the alias if its kind does so itself. -/

namespace TraversalPlanner

open Proofs

def Error.AboutOperator : Error → Prop
  | .illegalSlot .. => True
  | .unsupportedAlias _ => True
  | _ => False

/-- The kind of operator that a node stands for; a node that only binds a tag stands for none. -/
def NodeOp.kind? {ι : Type} : NodeOp ι → Option OperatorKind
  | .scan .. => some .scan
  | .select _ => some .select
  | .edge .. => some .expand
  | .limit _ => some .limit
  | .project .. => some .project
  | .orderBy .. => some .orderBy
  | .groupBy .. => some .groupBy
  | .dedup _ => some .dedup
  | .sink _ => some .sink
  | .path .. => some .pathExpand
  | .vertex .. => some .getVertex
  | .apply .. => some .apply
  | .union _ => some .union
  | .bind _ => none

/-- It begins at some place and does not end before that. -/
structure Window.Ordered (window : Window) : Prop where
  positive : 0 ≤ window.lower
  ordered : window.lower ≤ window.upper

namespace NodeOp

variable {ι : Type}

/-- The windows of what the node reads, walks or lets pass. -/
def windows : NodeOp ι → List Window
  | .scan _ _ params _ => params.limit.toList
  | .edge _ params _ _ => params.limit.toList
  | .limit window => [window]
  | .orderBy _ window => window.toList
  | .path _ params hops _ _ => hops :: params.limit.toList
  | _ => []

/-- The node has something to work on. -/
def Supplied [LE ι] [OfNat ι 0] : NodeOp ι → Prop
  | .scan _ _ _ lookup => lookup ≠ some []
  | .select predicate => Text.blank predicate = false
  | .project columns _ => columns ≠ [] ∧ (columns.filterMap Projected.tag).Nodup
  | .orderBy keys _ => keys ≠ []
  | .groupBy _ values => values ≠ []
  | .dedup keys => keys ≠ []
  | .sink tags => tags ≠ []
  | .apply _ subRoot tag => 0 ≤ subRoot ∧ tag = none
  | .union parents => parents ≠ []
  | .edge .. => True
  | .limit _ => True
  | .path .. => True
  | .vertex .. => True
  | .bind _ => True

structure WellFormed [LE ι] [OfNat ι 0] (op : NodeOp ι) : Prop where
  windows : ∀ window ∈ op.windows, window.Ordered
  supplied : op.Supplied

end NodeOp

namespace Operator

variable {α β : Type} {kind : OperatorKind} {slot : Slot} {operator : Operator} {links : Links} {op : NodeOp Int}

/-- The check blames the operator unless its result is as asserted. -/
def Checks (check : Except Error α) (holds : α → Prop) : Prop :=
  match check with
  | .ok value => holds value
  | .error error => error.AboutOperator

theorem Checks.bind {check : Except Error α} {next : α → Except Error β} {holds : β → Prop}
    (middle : α → Prop) (first : Checks check middle) (rest : ∀ value, middle value → Checks (next value) holds) :
    Checks (check >>= next) holds := by
  cases check with
  | error error => exact first
  | ok value => exact rest value first

theorem Checks.error {check : Except Error α} {holds : α → Prop} {error : Error} (checks : Checks check holds)
    (failed : check = .error error) : error.AboutOperator := by
  subst failed
  exact checks

/-- What a passed check tells about its own result. -/
def Passed (_ : α) : Prop := True

private theorem present_checks (value : Option α) : Checks (present kind slot value) Passed := by
  cases value <;> trivial

private theorem filled_checks (values : Option (List α)) : Checks (filled kind slot values) (· ≠ []) := by
  refine (present_checks values).bind _ fun values _ => ?_
  cases values with
  | nil => trivial
  | cons first rest => exact List.cons_ne_nil first rest

private theorem window_checks (lower upper : Int32) : Checks (window kind lower upper) Window.Ordered := by
  unfold window
  split
  · trivial
  · next positive =>
    split
    · trivial
    · next ordered => exact ⟨Int32.not_lt.mp positive, Int32.not_lt.mp ordered⟩

private theorem limitWindow_checks (limit : Option Int32) :
    Checks (limitWindow kind limit) fun window => ∀ given ∈ window.toList, given.Ordered := by
  cases limit with
  | none => exact nofun
  | some limit => exact (window_checks 0 limit).bind _ fun _ ordered => List.forall_mem_singleton.mpr ordered

private theorem refuseAlias_checks (operator : Operator) : Checks operator.refuseAlias fun _ => operator.tag = none := by
  unfold refuseAlias
  split
  · trivial
  · next unnamed => simpa using! unnamed

theorem checkBranching_checks (operator : Operator) : Checks operator.checkBranching Passed := by
  unfold checkBranching
  split
  · refine (refuseAlias_checks operator).bind _ fun _ _ => (present_checks _).bind _ fun _ _ => ?_
    split <;> trivial
  · split <;> trivial
  · exact (filled_checks _).bind _ fun _ _ => trivial
  · trivial

private theorem expansion_checks (args : ExpandArguments) :
    Checks (expansion kind args) fun expanded => ∀ given ∈ expanded.2.limit.toList, given.Ordered :=
  (present_checks _).bind _ fun _ _ => (limitWindow_checks _).bind _ fun _ ordered => ordered

/-- Names of which none is found to stand a second time are all different. -/
theorem nodup_of_unrepeated {names : List Identifier} (once : projectNode.repeated names = none) : names.Nodup := by
  refine List.pairwise_iff_getElem.mpr fun first second inside there earlier same => ?_
  have alone := List.find?_eq_none.mp (Option.map_eq_none_iff.mp once) (names[second], second)
    (List.mem_zipIdx_iff_getElem?.mpr (List.getElem?_eq_getElem there))
  refine alone (List.contains_iff_mem.mpr ?_)
  rw [← same]
  exact List.mem_take_iff_getElem.mpr ⟨first, by omega, rfl⟩

/-- The node is one that the operator may be lowered to. -/
structure LowersTo (operator : Operator) (op : NodeOp Int) : Prop where
  wellFormed : op.WellFormed
  kind : op.kind? = some operator.kind
  carries : operator.kind.carriesAlias = true → ∀ tag, operator.tag = some tag → tag.name ∈ op.bindings

private theorem LowersTo.unnamed {operator : Operator} (wellFormed : op.WellFormed) (kind : op.kind? = some operator.kind)
    (unnamed : operator.tag = none) : operator.LowersTo op :=
  ⟨wellFormed, kind, fun _ tag tagged => by rw [unnamed] at tagged; cases tagged⟩

private theorem LowersTo.behind {operator : Operator} (wellFormed : op.WellFormed) (kind : op.kind? = some operator.kind)
    (apart : operator.kind.carriesAlias = false) : operator.LowersTo op :=
  ⟨wellFormed, kind, fun carried => by rw [apart] at carried; cases carried⟩

private theorem mem_bound {tag : Option Alias} {name : Alias} (tagged : tag = some name) :
    name.name ∈ (tag.map Alias.name).toList := by
  simp [tagged]

private theorem scanNode_checks (args : ScanArguments) (tag : Option Alias) :
    Checks (scanNode args (tag.map Alias.name)) (LowersTo ⟨.scan args, tag⟩) := by
  refine (present_checks _).bind _ fun _ _ => ?_
  simp only
  split
  · trivial
  · next listed =>
    refine (limitWindow_checks _).bind _ fun _ ordered => ⟨⟨ordered, fun empty => ?_⟩, rfl, fun _ _ tagged => mem_bound tagged⟩
    rw [empty] at listed
    exact listed rfl

private theorem projectNode_checks (columns : Option (List (Projected Alias))) (tag : Option Alias) :
    Checks (projectNode columns tag) (LowersTo ⟨.project columns, tag⟩) := by
  let named (given : List (Projected Alias)) : List (Projected Identifier) :=
    given.map fun column => { expression := column.expression, tag := column.tag.map Alias.name }
  -- The alias has gone to a column by the time that the names are compared.
  have lowers : ∀ given : List (Projected Alias), given ≠ [] →
      projectNode.repeated ((named given).filterMap Projected.tag) = none →
      (∀ name, tag = some name → ∃ column ∈ given, column.tag = some name) →
      LowersTo ⟨.project columns, tag⟩ (.project (named given) true) := by
    intro given some once carried
    refine ⟨⟨nofun, fun none => some (List.map_eq_nil_iff.mp none), nodup_of_unrepeated once⟩, rfl, fun _ name tagged => ?_⟩
    obtain ⟨column, member, bound⟩ := carried name tagged
    simp only [NodeOp.bindings, named, List.mem_filterMap, List.mem_map]
    exact ⟨_, ⟨column, member, rfl⟩, by simp [bound]⟩
  refine (filled_checks _).bind _ fun given some => ?_
  simp only
  split
  · refine Checks.bind (· = given) rfl fun _ same => ?_
    split
    · trivial
    · next once => exact lowers _ (same ▸ some) once nofun
  · next name expression =>
    refine Checks.bind (· = [({ expression, tag := .some name } : Projected Alias)]) rfl fun given same => ?_
    split
    · trivial
    · next once =>
      subst same
      refine lowers _ (List.cons_ne_nil _ _) once fun other tagged => ?_
      cases tagged
      exact ⟨_, List.mem_singleton_self _, rfl⟩
  · trivial

private theorem orderNode_checks (keys : Option (List SortKey)) (lower upper : Option Int32) (tag : Option Alias) :
    Checks (orderNode keys lower upper) (LowersTo ⟨.orderBy keys lower upper, tag⟩) := by
  refine (filled_checks _).bind _ fun keys some => ?_
  split
  · exact (window_checks _ _).bind _ fun _ ordered => .behind ⟨List.forall_mem_singleton.mpr ordered, some⟩ rfl rfl
  · exact .behind ⟨nofun, some⟩ rfl rfl
  · trivial
  · trivial

theorem toNode_checks (operator : Operator) (links : Links) : Checks (operator.toNode links) operator.LowersTo := by
  obtain ⟨args, tag⟩ := operator
  cases args with
  | scan args => exact scanNode_checks args tag
  | select predicate =>
    refine (present_checks _).bind _ fun _ _ => ?_
    simp only
    split
    · trivial
    · next some => exact .behind ⟨nofun, Bool.eq_false_iff.mpr some⟩ rfl rfl
  | expand args =>
    exact (expansion_checks args).bind _ fun _ ordered => (present_checks _).bind _ fun _ _ =>
      ⟨⟨ordered, trivial⟩, rfl, fun _ _ tagged => mem_bound tagged⟩
  | limit lower upper =>
    exact (present_checks _).bind _ fun _ _ => (present_checks _).bind _ fun _ _ =>
      (window_checks _ _).bind _ fun _ ordered => .behind ⟨List.forall_mem_singleton.mpr ordered, trivial⟩ rfl rfl
  | project columns => exact projectNode_checks columns tag
  | orderBy keys lower upper => exact orderNode_checks keys lower upper tag
  | groupBy keys values =>
    refine (refuseAlias_checks _).bind _ fun _ unnamed => (present_checks _).bind _ fun _ _ =>
      (filled_checks _).bind _ fun _ some => .unnamed ⟨nofun, fun none => some (List.map_eq_nil_iff.mp none)⟩ rfl unnamed
  | dedup keys =>
    refine (present_checks _).bind _ fun keys _ => .behind ⟨nofun, ?_⟩ rfl rfl
    cases keys with
    | nil => exact List.cons_ne_nil _ _
    | cons first rest => exact List.cons_ne_nil first rest
  | sink columns => exact (filled_checks _).bind _ fun _ some => .behind ⟨nofun, some⟩ rfl rfl
  | pathExpand args lower upper whole =>
    exact (expansion_checks args).bind _ fun _ limited => (present_checks _).bind _ fun _ _ =>
      (present_checks _).bind _ fun _ _ => (present_checks _).bind _ fun _ _ =>
      (window_checks _ _).bind _ fun _ ordered =>
        ⟨⟨List.forall_mem_cons.mpr ⟨ordered, limited⟩, trivial⟩, rfl, fun _ _ tagged => mem_bound tagged⟩
  | getVertex edgeEnd =>
    exact (present_checks _).bind _ fun _ _ => ⟨⟨nofun, trivial⟩, rfl, fun _ _ tagged => mem_bound tagged⟩
  | apply sub subRoot join =>
    refine (refuseAlias_checks _).bind _ fun _ unnamed => (present_checks _).bind _ fun _ _ =>
      (present_checks _).bind _ fun _ _ => ?_
    simp only
    split
    · trivial
    · next positive => exact .unnamed ⟨nofun, Int.not_lt.mp positive, rfl⟩ rfl unnamed
  | union branches parents => exact (filled_checks _).bind _ fun _ some => .behind ⟨nofun, some⟩ rfl rfl

theorem lowersTo_of_toNode (lowered : operator.toNode links = .ok op) : operator.LowersTo op := by
  have checks := toNode_checks operator links
  rw [lowered] at checks
  exact checks

private theorem present_eq_ok {value : Option α} {given : α} : present kind slot value = .ok given ↔ value = some given := by
  cases value <;> simp [present]

private theorem refuseAlias_eq_ok {operator : Operator} (passed : operator.refuseAlias = .ok ()) : operator.tag = none := by
  have checks := refuseAlias_checks operator
  rw [passed] at checks
  exact checks

theorem toNode_apply {sub : Option (List Operator)} {subRoot : Option Int32} {join : Option JoinKind} {tag : Option Alias}
    (lowered : Operator.toNode ⟨.apply sub subRoot join, tag⟩ links = .ok op) :
    tag = none ∧ ∃ kind root, links.subRoot = some root ∧ 0 ≤ root ∧ op = .apply kind root none := by
  simp only [toNode, bind_eq_ok, present_eq_ok] at lowered
  obtain ⟨_, unnamed, kind, _, root, given, placed⟩ := lowered
  split at placed
  · cases placed
  · next positive =>
    cases placed
    exact ⟨refuseAlias_eq_ok unnamed, kind, root, given, by omega, rfl⟩

theorem toNode_union {branches : Option (List (List Operator))} {parents : Option (List Int32)} {tag : Option Alias}
    (lowered : Operator.toNode ⟨.union branches parents, tag⟩ links = .ok op) :
    ∃ first rest, links.parents = some (first :: rest) ∧ op = .union (first :: rest) := by
  simp only [toNode, filled, bind_eq_ok, present_eq_ok] at lowered
  obtain ⟨parents, ⟨given, same, nonempty⟩, placed⟩ := lowered
  cases placed
  cases given with
  | nil => cases nonempty
  | cons first rest => cases nonempty; exact ⟨first, rest, same, rfl⟩

end Operator

end TraversalPlanner
