import TraversalPlanner.Proofs.Occupants
import TraversalPlanner.Proofs.ScanFusion
import TraversalPlanner.Proofs.UnionParents

/-! Nodes that bind one name twice. Only groups can: names of projections are compared before a node is made of
them, but a group's key and its value are given the same name if the query, or the name that is made up for the other
one, says so. -/

namespace TraversalPlanner

open Proofs Traversal

namespace NodeOp

@[simp] theorem bindings_map {ι κ : Type} (f : ι → κ) (op : NodeOp ι) : (op.map f).bindings = op.bindings := by
  cases op <;> rfl

end NodeOp

namespace Expression

/-- No name that is made up for a key is that of a value. -/
theorem groupKeyName_ne (key : Variable) : groupKeyName key ≠ groupValueName := by
  intro same
  unfold groupKeyName groupValueName at same
  split at same
  · exact absurd same (by decide)
  · have characters := congrArg String.toList same
    rw [String.toList_append] at characters
    cases characters

end Expression

namespace Operator

open Expression

variable {operator : Operator} {links : Links} {op : NodeOp Int}

theorem toNode_group {keys : List (GroupKey Alias)} {values : List (Aggregation Alias)} {tag : Option Alias}
    (lowered : toNode ⟨.groupBy (some keys) (some values), tag⟩ links = .ok op) :
    op = .groupBy (keys.map fun key => { key with tag := key.tag.name })
      (values.map fun value => { value with tag := value.tag.name }) := by
  obtain ⟨_, _, lowered⟩ := bind_eq_ok.mp lowered
  cases values with
  | nil => cases lowered
  | cons value values =>
    cases lowered
    rfl

theorem kind_of_clash (lowered : operator.toNode links = .ok op) (clash : ¬ op.bindings.Nodup) :
    operator.kind = .groupBy := by
  have lowersTo := lowersTo_of_toNode lowered
  have single (tag : Option Identifier) : tag.toList.Nodup := by cases tag <;> simp
  cases op with
  | groupBy => exact (Option.some.inj lowersTo.kind).symm
  | project => exact absurd lowersTo.wellFormed.supplied.2 clash
  | scan | edge | path | vertex | apply => exact absurd (single _) clash
  | bind tag => exact absurd (single (some tag)) clash
  | _ => exact absurd List.nodup_nil clash

/-- The ways in which modulators give a group's key and its value the same name. -/
inductive Clashes : Action → List Modulator → Prop
  | written {key value name} (first : key.tag = some name) (second : value.tag = some name) :
      Clashes .group [key, value]
  | value {key others} (first : key.tag = some groupValueName)
      (unnamed : ∀ value ∈ others, Modulator.tag value = none) : Clashes .group (key :: others)
  | key {key value reference} (unnamed : key.tag = none) (reads : Modulator.reference "group" key = .ok reference)
      (second : value.tag = some (groupKeyName reference)) : Clashes .group [key, value]
  | count {key} (first : key.tag = some groupValueName) : Clashes .groupCount [key]

theorem name_of_keyOfGroup {step : String} {modulator : Option Modulator} {key : GroupKey Alias}
    (made : keyOfGroup step modulator = .ok key) :
    key.tag.name = .name ((modulator.bind Modulator.tag).getD (groupKeyName key.key)) ∧
      ∀ given, modulator = some given → given.reference step = .ok key.key := by
  cases modulator with
  | none =>
    cases made
    exact ⟨rfl, nofun⟩
  | some modulator =>
    obtain ⟨_, _, made⟩ := bind_eq_ok.mp made
    obtain ⟨reference, reads, same⟩ := bind_eq_ok.mp made
    cases same
    refine ⟨?_, fun given same => Option.some.inj same ▸ reads⟩
    rw [Option.bind_some]
    cases modulator.tag <;> rfl

theorem name_of_valueOfGroup {modulator : Option Modulator} {value : Aggregation Alias}
    (made : valueOfGroup modulator = .ok value) :
    value.tag.name = .name ((modulator.bind Modulator.tag).getD groupValueName) := by
  cases modulator with
  | none =>
    cases made
    rfl
  | some modulator =>
    obtain ⟨modifier, order, tag⟩ := modulator
    cases modifier with
    | identity | fold | count =>
      obtain ⟨_, _, made⟩ := bind_eq_ok.mp made
      obtain ⟨_, _, same⟩ := bind_eq_ok.mp made
      cases same
      cases tag <;> rfl
    | _ => cases made

section

variable {claimed : List Modulator} {key : GroupKey Alias} {value : Aggregation Alias}

theorem clashes_of_group (keyed : keyOfGroup "group" claimed[0]? = .ok key)
    (valued : valueOfGroup claimed[1]? = .ok value) (few : claimed.length ≤ 2) :
    key.tag.name = value.tag.name ↔ Clashes .group claimed := by
  obtain ⟨first, reads⟩ := name_of_keyOfGroup keyed
  rw [first, name_of_valueOfGroup valued, Identifier.name.injEq]
  constructor
  · intro same
    match claimed, few with
    | [], _ => exact absurd same (groupKeyName_ne _)
    | [one], _ =>
      have same : one.tag.getD (groupKeyName key.key) = groupValueName := same
      cases named : one.tag with
      | none =>
        rw [named] at same
        exact absurd same (groupKeyName_ne _)
      | some name =>
        rw [named] at same
        exact .value (named.trans (congrArg some same)) nofun
    | [one, two], _ =>
      have same : one.tag.getD (groupKeyName key.key) = two.tag.getD groupValueName := same
      cases named : one.tag with
      | none =>
        cases renamed : two.tag with
        | none =>
          rw [named, renamed] at same
          exact absurd same (groupKeyName_ne _)
        | some name =>
          rw [named, renamed] at same
          exact .key named (reads one rfl) (renamed.trans (congrArg some same.symm))
      | some name =>
        cases renamed : two.tag with
        | none =>
          rw [named, renamed] at same
          exact .value (named.trans (congrArg some same)) (List.forall_mem_singleton.mpr renamed)
        | some other =>
          rw [named, renamed] at same
          exact .written named (renamed.trans (congrArg some same.symm))
    | _ :: _ :: _ :: _, few => simp at few
  · intro clash
    cases clash with
    | written one two => simp [one, two]
    | @value _ others one unnamed =>
      have second : others[0]?.bind Modulator.tag = none := by
        cases found : others[0]? with
        | none => rfl
        | some two => exact unnamed two (List.mem_of_getElem? found)
      simp [one, second]
    | key unnamed read two =>
      cases read.symm.trans (reads _ rfl)
      simp [unnamed, two]

theorem clashes_of_groupCount (keyed : keyOfGroup "groupCount" claimed[0]? = .ok key) (few : claimed.length ≤ 1) :
    key.tag.name = .name groupValueName ↔ Clashes .groupCount claimed := by
  obtain ⟨first, _⟩ := name_of_keyOfGroup keyed
  rw [first, Identifier.name.injEq]
  constructor
  · intro same
    match claimed, few with
    | [], _ => exact absurd same (groupKeyName_ne _)
    | [one], _ =>
      have same : one.tag.getD (groupKeyName key.key) = groupValueName := same
      cases named : one.tag with
      | none =>
        rw [named] at same
        exact absurd same (groupKeyName_ne _)
      | some name =>
        rw [named] at same
        exact .count (named.trans (congrArg some same))
    | _ :: _ :: _, few => simp at few
  · intro clash
    cases clash with
    | count one => simp [one]

end

theorem counts_of_single {prepared : Prepared} (made : ofSingle prepared = .ok operator)
    (kind : operator.kind = .groupBy) : ∃ value, operator.args = .groupBy (some []) (some [value]) := by
  obtain ⟨⟨action, tag⟩, inner⟩ := prepared
  cases action with
  | count =>
    cases made
    exact ⟨_, rfl⟩
  | hasLabel | hasId | otherVertex | limit | range =>
    cases made
    cases kind
  | has | adjacent | edgeVertex | path | whereTraversal | not | union =>
    obtain ⟨_, _, same⟩ := bind_eq_ok.mp made
    cases same
    cases kind
  | apply =>
    obtain ⟨_, _, made⟩ := bind_eq_ok.mp made
    obtain ⟨_, _, same⟩ := bind_eq_ok.mp made
    cases same
    cases kind
  | values keys =>
    match keys with
    | [] => cases made
    | [key] =>
      cases made
      cases kind
    | _ :: _ :: _ => cases made
  | valueMap keys =>
    cases keys with
    | nil => cases made
    | cons =>
      cases made
      cases kind
  | vertices | edges | whereTags | order | group | groupCount | dedup | select | «by» | unknown => cases made

/-- The names of a group are the same just if its modulators clash. -/
theorem group_of_modulated {action : Action} {claimed : List Modulator} {args : OperatorArguments}
    (made : ofModulated action claimed = .ok args) (kind : args.kind = .groupBy) :
    ∃ key value, args = .groupBy (some [key]) (some [value]) ∧
      (key.tag.name = value.tag.name ↔ Clashes action claimed) := by
  unfold ofModulated at made
  split at made
  · obtain ⟨_, rfl⟩ := ofWhere_eq_ok made
    cases kind
  · obtain ⟨_, _, rfl⟩ := ofOrder_eq_ok made
    cases kind
  · obtain ⟨few, key, value, keyed, valued, same⟩ := ofGroup_eq_ok made
    exact ⟨key, value, same, clashes_of_group keyed valued few⟩
  · obtain ⟨few, key, keyed, same⟩ := ofGroupCount_eq_ok made
    exact ⟨key, _, same, clashes_of_groupCount keyed few⟩
  · obtain ⟨_, rfl⟩ := ofDedup_eq_ok made
    cases kind
  · rcases ofSelect_eq_ok made with ⟨_, _, _, rfl⟩ | ⟨_, _, _, _, _, _, _, _, rfl⟩
    · cases kind
    · cases kind
  · cases made

theorem Clashes.role {action : Action} {claimed : List Modulator} (clash : Clashes action claimed) :
    action.role = .modulated := by
  cases clash <;> rfl

theorem Clashes.kind {action : Action} {claimed : List Modulator} {args : OperatorArguments}
    (clash : Clashes action claimed) (made : ofModulated action claimed = .ok args) : args.kind = .groupBy := by
  cases clash with
  | written | value | key =>
    rw [ofModulated] at made
    obtain ⟨_, _, _, _, _, rfl⟩ := ofGroup_eq_ok made
    rfl
  | count =>
    rw [ofModulated] at made
    obtain ⟨_, _, _, rfl⟩ := ofGroupCount_eq_ok made
    rfl

/-- A built operator that groups counts all, or has the names that its modulators give it. -/
theorem group_of_built {steps : List Step} {operators : List Operator} (built : build steps = .ok operators)
    (member : operator ∈ operators) (kind : operator.kind = .groupBy) :
    (∃ value, operator.args = .groupBy (some []) (some [value])) ∨
      ∃ before step after, steps = before ++ step :: after ∧
        ofModulated step.action (modulators after) = .ok operator.args := by
  obtain ⟨segments, cut, made⟩ := build_eq_ok.mp built
  obtain ⟨segment, found, made⟩ := mapM_source made member
  have stands := cut.stands segment found
  cases segment with
  | scan draft =>
    obtain ⟨_, _, same⟩ := ScanDraft.ofScan_eq_ok made
    cases same
    cases kind
  | single prepared => exact .inl (counts_of_single made kind)
  | modulated action tag claimed =>
    obtain ⟨before, step, after, same, rfl, _, rfl⟩ := stands
    obtain ⟨args, wrote, ended⟩ := bind_eq_ok.mp made
    cases ended
    exact .inr ⟨before, step, after, same, wrote⟩
  | stray index => cases made

end Operator

namespace Compiler

open Operator

variable {deployment : Deployment} {schema : Option Schema} {traversal : Traversal} {compiled : Compiled}

/-- Somewhere in the traversal modulators give a key and its value the same name. -/
def Clashing (traversal : Traversal) : Prop :=
  ∃ part ∈ traversal.parts, ∃ before step after, part = before ++ step :: after ∧
    Clashes step.action (modulators after)

section

variable {operators : List Operator} {nodes : List PlanNode} (built : traversal.build = .ok operators)
  (each : List.Forall₂ (fun occupant node => occupant.Becomes node.op) (occupants operators) nodes)

include built each

theorem clash_of_bindings {node : PlanNode} (member : node ∈ nodes) (twice : ¬ node.op.bindings.Nodup) :
    (∃ key value, node.op = .groupBy [key] [value] ∧ key.tag = value.tag) ∧ Clashing traversal := by
  obtain ⟨occupant, there, becomes⟩ := related_left each member
  generalize node.op = op at becomes twice
  cases becomes with
  | name tag => exact absurd (List.pairwise_singleton _ tag) twice
  | @operator operator _ _ lowered =>
    obtain ⟨level, found, inside⟩ := (mem_occupants operators).mp there
    obtain ⟨part, nested, here⟩ := related_left (builds_levels built) found
    obtain ⟨args, tag⟩ := operator
    have kind := kind_of_clash lowered twice
    rcases group_of_built here inside kind with ⟨value, same⟩ | ⟨before, step, after, same, made⟩
    · cases same
      rw [toNode_group lowered] at twice
      exact absurd (List.pairwise_singleton _ _) twice
    · obtain ⟨key, value, given, clashes⟩ := group_of_modulated made kind
      cases given
      rw [toNode_group lowered] at twice ⊢
      have named : key.tag.name = value.tag.name := by
        simpa [NodeOp.bindings] using twice
      exact ⟨⟨_, _, rfl, named⟩, part, nested, before, step, after, same, clashes.mp named⟩

theorem bindings_of_clash (clashing : Clashing traversal) : ∃ node ∈ nodes, ¬ node.op.bindings.Nodup := by
  obtain ⟨part, nested, before, step, after, rfl, clash⟩ := clashing
  obtain ⟨level, found, here⟩ := related_right (builds_levels built) nested
  obtain ⟨args, made, inside⟩ := modulated_of_built clash.role here
  obtain ⟨key, value, rfl, clashes⟩ := group_of_modulated made (clash.kind made)
  have there := (mem_occupants operators).mpr ⟨level, found, inside⟩
  obtain ⟨node, member, becomes⟩ := related_right each there
  generalize same : node.op = op at becomes
  cases becomes with
  | operator lowered =>
    refine ⟨node, member, ?_⟩
    rw [same, toNode_group lowered]
    simpa [NodeOp.bindings] using clashes.mpr clash

end

theorem exists_source {plan : PlanGraph} {workers servers : UInt32} {root : Nat} {subRoots : List Nat}
    {node : PhysicalNode} (member : node ∈ (PhysicalPlan.layOut plan workers servers root subRoots).nodes) :
    ∃ source ∈ plan.nodes, node.op = source.op.map Int32.ofInt := by
  obtain ⟨place, found⟩ := List.mem_iff_getElem?.mp member
  rw [PhysicalPlan.getElem?_layOut] at found
  obtain ⟨source, there, same⟩ := Option.map_eq_some_iff.mp found
  exact ⟨source, List.mem_of_getElem? there, same ▸ rfl⟩

theorem clash_laid_out {plan : PlanGraph} {workers servers : UInt32} {root : Nat} {subRoots : List Nat}
    (assembles : Assembles schema traversal plan) (clashing : Clashing traversal) :
    ∃ node ∈ (PhysicalPlan.layOut plan workers servers root subRoots).nodes, ¬ node.op.bindings.Nodup := by
  obtain ⟨operators, built, each⟩ := assembles.houses
  obtain ⟨source, there, twice⟩ := bindings_of_clash built each clashing
  obtain ⟨place, found⟩ := List.mem_iff_getElem?.mp there
  refine ⟨_, List.mem_of_getElem? (by rw [PhysicalPlan.getElem?_layOut, found]; rfl), ?_⟩
  rwa [NodeOp.bindings_map]

/-- A node binds a name twice only if it is a group whose key has the name of its value, and there is such a node just
if modulators say so. -/
theorem compiled_names_clash (done : compile deployment schema traversal = .ok compiled) :
    ∃ plan, PhysicalPlan.decode compiled.bytes = .ok plan ∧
      (∀ node ∈ plan.nodes, ¬ node.op.bindings.Nodup →
        ∃ key value, node.op = .groupBy [key] [value] ∧ key.tag = value.tag) ∧
      ((∃ node ∈ plan.nodes, ¬ node.op.bindings.Nodup) ↔ Clashing traversal) := by
  obtain ⟨plan, root, subRoots, assembles, decoded, _⟩ := decoded_of_compile done
  obtain ⟨operators, built, each⟩ := assembles.houses
  refine ⟨_, decoded, fun node member twice => ?_, fun found => ?_, clash_laid_out assembles⟩
  · obtain ⟨source, there, same⟩ := exists_source member
    rw [same, NodeOp.bindings_map] at twice
    obtain ⟨⟨key, value, group, named⟩, _⟩ := clash_of_bindings built each there twice
    rw [same, group]
    exact ⟨key, value, rfl, named⟩
  · obtain ⟨node, member, twice⟩ := found
    obtain ⟨source, there, same⟩ := exists_source member
    rw [same, NodeOp.bindings_map] at twice
    exact (clash_of_bindings built each there twice).2

def countedByAge : Traversal := [⟨.vertices [], none⟩, ⟨.groupCount, none⟩, ⟨.by (.key "age") none, some "age"⟩]

theorem countedByAge_names_clash : ∃ compiled, compile .standalone none countedByAge = .ok compiled ∧
    ∃ plan, PhysicalPlan.decode compiled.bytes = .ok plan ∧
      (∀ node ∈ plan.nodes, ¬ node.op.bindings.Nodup →
        ∃ key value, node.op = .groupBy [key] [value] ∧ key.tag = value.tag) ∧
      ((∃ node ∈ plan.nodes, ¬ node.op.bindings.Nodup) ↔ Clashing countedByAge) := by
  have passes : (compile .standalone none countedByAge).isOk = true := by decide +kernel
  obtain ⟨compiled, done⟩ := ok_of_isOk passes
  exact ⟨compiled, done, compiled_names_clash done⟩

def groupedAsOne : Traversal :=
  [⟨.vertices [], none⟩, ⟨.group, none⟩, ⟨.by .identity none, some "x"⟩, ⟨.by .identity none, some "x"⟩]

/-- The key and the value have the name that the query gives to both. -/
theorem groupedAsOne_binds_twice : ∃ compiled, compile .standalone none groupedAsOne = .ok compiled ∧
    ∃ plan, PhysicalPlan.decode compiled.bytes = .ok plan ∧ ∃ node ∈ plan.nodes, ¬ node.op.bindings.Nodup := by
  have passes : (compile .standalone none groupedAsOne).isOk = true := by decide +kernel
  obtain ⟨compiled, done⟩ := ok_of_isOk passes
  obtain ⟨plan, root, subRoots, assembles, decoded, _⟩ := decoded_of_compile done
  have clashing : Clashing groupedAsOne :=
    ⟨_, List.mem_cons_self, [_], _, _, rfl, .written rfl rfl⟩
  exact ⟨compiled, done, _, decoded, clash_laid_out assembles clashing⟩

end Compiler

end TraversalPlanner
