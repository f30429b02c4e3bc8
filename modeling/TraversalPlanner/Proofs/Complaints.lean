import TraversalPlanner.Proofs.Blame
import TraversalPlanner.Proofs.MarkedTexts
import TraversalPlanner.Proofs.Standing

/-! What can be wrong with operators that were built from a traversal. They have all that their kinds need, so
each complaint goes back to a step that asks for something that no plan can give it. -/

namespace TraversalPlanner

open Proofs Expression

/-- An argument that is there but cannot be right, or an alias that the kind of operator cannot have. -/
inductive Complaint (flawed tagged : Prop) : Error → Prop
  | illegal {kind : OperatorKind} {slot : Slot} {fault : SlotFault} (flaw : flawed) (given : fault ≠ .absent) :
      Complaint flawed tagged (.illegalSlot kind slot fault)
  | named {kind : OperatorKind} (tag : tagged) : Complaint flawed tagged (.unsupportedAlias kind)

namespace Operator

variable {α β : Type} {flawed tagged : Prop} {operator : Operator} {links : Links}

/-- The check fails with nothing but such complaints. -/
def Objects (check : Except Error α) (flawed tagged : Prop) : Prop :=
  ∀ error, check = .error error → Complaint flawed tagged error

theorem objects_ok (value : α) : Objects (.ok value) flawed tagged := by
  intro error failed
  cases failed

theorem Objects.bind {check : Except Error α} {next : α → Except Error β} (first : Objects check flawed tagged)
    (rest : ∀ value, check = .ok value → Objects (next value) flawed tagged) : Objects (check >>= next) flawed tagged := by
  intro error failed
  rcases bind_eq_error.mp failed with here | ⟨value, passed, later⟩
  · exact first error here
  · exact rest value passed error later

theorem window_objects {kind : OperatorKind} {lower upper : Int32} (flaw : lower < 0 ∨ upper < lower → flawed) :
    Objects (window kind lower upper) flawed tagged := by
  unfold window
  intro error failed
  split at failed
  · next negative =>
    cases failed
    exact .illegal (flaw (.inl negative)) (by simp)
  · split at failed
    · next crossed =>
      cases failed
      exact .illegal (flaw (.inr crossed)) (by simp)
    · cases failed

theorem refuseAlias_objects (tag : operator.tag.isSome → tagged) : Objects operator.refuseAlias flawed tagged := by
  unfold refuseAlias
  intro error failed
  split at failed
  · next named =>
    cases failed
    exact .named (tag named)
  · cases failed

theorem select_objects {text : String} {tag : Option Alias} (marked : ¬ flawed → Marked text) :
    Objects (toNode ⟨.select (some text), tag⟩ links) flawed tagged := by
  intro error failed
  simp only [toNode, present, bind, Except.bind] at failed
  split at failed
  · next blank =>
    cases failed
    refine .illegal ?_ (by simp)
    by_contra sound
    rw [blank_of_marked (marked sound)] at blank
    cases blank
  · cases failed

theorem limit_objects {lower upper : Int32} {tag : Option Alias} (flaw : lower < 0 ∨ upper < lower → flawed) :
    Objects (toNode ⟨.limit (some lower) (some upper), tag⟩ links) flawed tagged := by
  have steps : toNode ⟨.limit (some lower) (some upper), tag⟩ links =
      window .limit lower upper >>= fun window => .ok (.limit window) := rfl
  rw [steps]
  exact (window_objects flaw).bind fun _ _ => objects_ok _

theorem path_objects {direction : Direction} {labels : List String} {lower upper : Int32} {whole : Option Bool}
    {tag : Option Alias} (flaw : lower < 0 ∨ upper < lower → flawed) :
    Objects (toNode ⟨.pathExpand (expandArgs direction false labels) (some lower) (some upper) whole, tag⟩ links)
      flawed tagged := by
  have steps : ∃ node : Window → NodeOp Int,
      toNode ⟨.pathExpand (expandArgs direction false labels) (some lower) (some upper) whole, tag⟩ links =
        window .pathExpand lower upper >>= fun window => .ok (node window) := ⟨_, rfl⟩
  obtain ⟨node, steps⟩ := steps
  rw [steps]
  exact (window_objects flaw).bind fun _ _ => objects_ok _

theorem group_objects {key : GroupKey Alias} {value : Aggregation Alias} {tag : Option Alias} (named : tag.isSome → tagged) :
    Objects (toNode ⟨.groupBy (some [key]) (some [value]), tag⟩ links) flawed tagged := by
  have steps : toNode ⟨.groupBy (some [key]) (some [value]), tag⟩ links =
      refuseAlias ⟨.groupBy (some [key]) (some [value]), tag⟩ >>= fun _ => groupNode (some [key]) (some [value]) := rfl
  rw [steps]
  exact (refuseAlias_objects named).bind fun _ _ => objects_ok _

/-- An apply has a first node to name if its sub-plan has operators. -/
theorem apply_objects {sub : List Operator} {join : JoinKind} {tag : Option Alias}
    (fits : Operator.Fits ⟨.apply (some sub) none (some join), tag⟩ links)
    (named : tag.isSome → tagged) (empty : sub = [] → flawed) :
    Objects (toNode ⟨.apply (some sub) none (some join), tag⟩ links) flawed tagged := by
  obtain ⟨root, given, inside⟩ := fits
  obtain ⟨_, parents⟩ := links
  cases given
  refine (refuseAlias_objects named).bind fun _ _ error failed => ?_
  simp only [present, bind, Except.bind] at failed
  split at failed
  · next negative =>
    cases failed
    refine .illegal (empty ?_) (by simp)
    by_contra some
    exact absurd (inside some) (Int.not_le.mpr negative)
  · cases failed

theorem union_objects {branches : List (List Operator)} {tag : Option Alias}
    (fits : Operator.Fits ⟨.union (some branches) none, tag⟩ links) (empty : branches = [] → flawed) :
    Objects (toNode ⟨.union (some branches) none, tag⟩ links) flawed tagged := by
  obtain ⟨lasts, given, count⟩ := fits
  obtain ⟨subRoot, _⟩ := links
  cases given
  cases lasts with
  | nil =>
    intro error failed
    cases failed
    exact .illegal (empty (List.length_eq_zero_iff.mp count.symm)) (by simp)
  | cons => exact objects_ok _

theorem project_objects {one other : Projected Alias} {rest : List (Projected Alias)} {tag : Option Alias}
    (named : tag.isSome → tagged)
    (repeated : ∀ name,
      projectNode.repeated ((one :: other :: rest).filterMap fun column => column.tag.map Alias.name) = some name → flawed) :
    Objects (toNode ⟨.project (some (one :: other :: rest)), tag⟩ links) flawed tagged := by
  intro error failed
  cases tag with
  | none =>
    simp only [toNode, projectNode, filled, present, bind, Except.bind, List.isEmpty_cons, Bool.false_eq_true, if_false,
      pure, Except.pure, List.filterMap_map] at failed
    split at failed
    · next name twice =>
      cases failed
      exact .illegal (repeated name twice) (by simp)
    · cases failed
  | some tag =>
    have refused : toNode ⟨.project (some (one :: other :: rest)), some tag⟩ links =
        .error (.unsupportedAlias .project) := by
      obtain ⟨_, _ | _⟩ := one <;> rfl
    cases failed.symm.trans refused
    exact .named (named rfl)

/-- A name that is found to stand a second time stands at two places. -/
theorem repeated_eq_some {names : List Identifier} {name : Identifier} (twice : projectNode.repeated names = some name) :
    ∃ first second : Nat, first < second ∧ names[first]? = some name ∧ names[second]? = some name := by
  obtain ⟨⟨found, second⟩, here, same⟩ := Option.map_eq_some_iff.mp twice
  cases same
  have earlier := List.find?_some here
  have place := List.mem_zipIdx_iff_getElem?.mp (List.mem_of_find?_eq_some here)
  simp only [List.contains_iff_mem, List.mem_take_iff_getElem] at earlier
  obtain ⟨first, inside, same⟩ := earlier
  exact ⟨first, second, by omega, List.getElem?_eq_some_iff.mpr ⟨by omega, same⟩, place⟩

theorem projectOne_objects {expression : String} {tag : Option Alias} :
    Objects (toNode ⟨projectOne expression, tag⟩ links) flawed tagged := by
  cases tag with
  | none => exact objects_ok _
  | some tag => exact objects_ok _

/-- Nothing but such complaints can be made about the operator. -/
structure ComplainsOnly (operator : Operator) (flawed tagged : Prop) : Prop where
  branching : Objects operator.checkBranching flawed tagged
  node : ∀ links, operator.Fits links → Objects (operator.toNode links) flawed tagged

end Operator

namespace Action

/-- The window of results that a step asks for. -/
def window? : Action → Option (Int32 × Int32)
  | .limit upper => some (0, upper)
  | .range lower upper => some (lower, upper)
  | .path _ _ lower upper _ => some (lower, upper)
  | _ => none

/-- Steps whose results an alias cannot name. One selected tag can have another name. -/
inductive Nameless : Action → Prop
  | group : Nameless .group
  | groupCount : Nameless .groupCount
  | sub {action : Action} {sub : Traversal} (given : action.sub? = some sub) : Nameless action
  | select (one other : String) (tags : List String) : Nameless (.select (one :: other :: tags))

end Action

namespace Traversal

open Operator

/-- The name that a select makes up for one of several tags. -/
def nameOfSelected (modulators : List Modulator) (index : Nat) (tag : String) : Except Error String := do
  nameOfProjection (← selected tag (turnOf modulators index))

/-- A step that asks for something that no plan can give it. -/
inductive Flaw (before : List Step) (step : Step) (after : List Step) : Prop
  | window {lower upper : Int32} (given : step.action.window? = some (lower, upper)) (out : lower < 0 ∨ upper < lower)
  | has (empty : step.action = .has []) (unfused : ¬ Fused before step)
  | union (empty : step.action = .union [])
  | sub (empty : step.action.sub? = some [])
  | select {tags : List String} {first second : Nat} {one other name : String} (several : step.action = .select tags)
      (apart : first < second) (here : tags[first]? = some one) (there : tags[second]? = some other)
      (named : nameOfSelected (modulators after) first one = .ok name)
      (again : nameOfSelected (modulators after) second other = .ok name)

variable {before after : List Step} {step : Step} {operator : Operator}

private theorem nested_objects {sub : Traversal} {lists : List (List Operator)} {join : JoinKind}
    (given : step.action.sub? = some sub) (inner : step.prepared.inner.mapM id = .ok lists) :
    ComplainsOnly ⟨.apply (some lists.flatten) none (some join), step.tag.map Alias.written⟩ (Flaw before step after)
      (step.tag.isSome ∧ step.action.Nameless) := by
  have named : (step.tag.map Alias.written).isSome → step.tag.isSome ∧ step.action.Nameless :=
    fun tag => ⟨by rwa [Option.isSome_map] at tag, .sub given⟩
  refine ⟨(refuseAlias_objects named).bind fun _ _ => objects_ok (),
    fun links fits => apply_objects fits named fun none => ?_⟩
  rw [Step.prepared, Action.inner_of_sub? given] at inner
  obtain ⟨operators, others, here, rest, rfl⟩ := List.forall₂_cons_left_iff.mp (mapM_eq_ok.mp inner)
  cases rest
  rw [List.flatten_singleton] at none
  exact .sub ((faithful sub operators here).empty.mp none ▸ given)

private theorem branching_objects {branches : List Traversal} {lists : List (List Operator)}
    (given : step.action = .union branches) (inner : step.prepared.inner.mapM id = .ok lists) :
    ComplainsOnly ⟨.union (some lists) none, step.tag.map Alias.written⟩ (Flaw before step after)
      (step.tag.isSome ∧ step.action.Nameless) := by
  have flaw : lists = [] → Flaw before step after := by
    intro none
    have each := mapM_eq_ok.mp inner
    rw [none, List.forall₂_nil_right_iff, Step.prepared, List.map_eq_nil_iff, given, Action.inner] at each
    exact .union (each ▸ given)
  refine ⟨fun error failed => ?_, fun links fits => union_objects fits flaw⟩
  simp only [checkBranching] at failed
  split at failed
  · next none =>
    cases failed
    exact .illegal (flaw (List.isEmpty_iff.mp none)) (by simp)
  · cases failed

theorem ofSingle_objects (unfused : ¬ Fused before step) (built : ofSingle step.prepared = .ok operator) :
    ComplainsOnly operator (Flaw before step after) (step.tag.isSome ∧ step.action.Nameless) := by
  obtain ⟨action, tag⟩ := step
  cases action with
  | has filters =>
    obtain ⟨text, written, same⟩ := bind_eq_ok.mp built
    cases same
    refine ⟨objects_ok (), fun links _ => select_objects fun sound => ?_⟩
    exact marked_ofFilters written fun none => sound (.has (congrArg Action.has none) unfused)
  | hasLabel labels =>
    cases built
    exact ⟨objects_ok (), fun links _ => select_objects fun _ => marked_ofLabels labels⟩
  | hasId ids =>
    cases built
    exact ⟨objects_ok (), fun links _ => select_objects fun _ => marked_ofIds ids⟩
  | adjacent =>
    obtain ⟨direction, _, same⟩ := bind_eq_ok.mp built
    cases same
    exact ⟨objects_ok (), fun links _ => objects_ok _⟩
  | edgeVertex =>
    obtain ⟨edgeEnd, _, same⟩ := bind_eq_ok.mp built
    cases same
    exact ⟨objects_ok (), fun links _ => objects_ok _⟩
  | otherVertex =>
    cases built
    exact ⟨objects_ok (), fun links _ => objects_ok _⟩
  | path =>
    obtain ⟨direction, _, same⟩ := bind_eq_ok.mp built
    cases same
    exact ⟨objects_ok (), fun links _ => path_objects fun out => .window rfl out⟩
  | limit =>
    cases built
    exact ⟨objects_ok (), fun links _ => limit_objects fun out => .window rfl out⟩
  | range =>
    cases built
    exact ⟨objects_ok (), fun links _ => limit_objects fun out => .window rfl out⟩
  | count =>
    cases built
    exact ⟨objects_ok (), fun links _ => objects_ok _⟩
  | values keys =>
    match keys with
    | [] => cases built
    | [key] =>
      cases built
      exact ⟨objects_ok (), fun links _ => projectOne_objects⟩
    | _ :: _ :: _ => cases built
  | valueMap keys =>
    cases keys with
    | nil => cases built
    | cons key keys =>
      cases built
      exact ⟨objects_ok (), fun links _ => projectOne_objects⟩
  | whereTraversal | not =>
    obtain ⟨lists, inner, same⟩ := bind_eq_ok.mp built
    cases same
    exact nested_objects rfl inner
  | apply =>
    obtain ⟨join, _, same⟩ := bind_eq_ok.mp built
    obtain ⟨lists, inner, same⟩ := bind_eq_ok.mp same
    cases same
    exact nested_objects rfl inner
  | union =>
    obtain ⟨lists, inner, same⟩ := bind_eq_ok.mp built
    cases same
    exact branching_objects rfl inner
  | vertices | edges | whereTags | order | group | groupCount | dedup | select | «by» | unknown => cases built

theorem names_of_selected {claimed : List Modulator} {tags : List (String × Nat)} {expressions : List String}
    {columns : List (Projected Alias)}
    (each : List.Forall₂ (fun entry expression => selected entry.1 (turnOf claimed entry.2) = .ok expression)
      tags expressions)
    (named : (expressions.mapM fun expression => do
      let name ← nameOfProjection expression
      return ({ expression, tag := some (.derived name) } : Projected Alias)) = .ok columns) :
    List.Forall₂ (fun entry name => ∃ text, nameOfSelected claimed entry.2 entry.1 = .ok text ∧ name = .name text) tags
      (columns.filterMap fun column => column.tag.map Alias.name) := by
  have named := mapM_eq_ok.mp named
  induction each generalizing columns with
  | nil =>
    cases named
    exact .nil
  | cons here _ step =>
    cases named with
    | cons first rest =>
      obtain ⟨name, given, same⟩ := bind_eq_ok.mp first
      cases same
      exact .cons ⟨name, by rw [nameOfSelected, here]; exact given, rfl⟩ (step (mapM_eq_ok.mpr rest) rest)

private theorem ofSelect_objects {tags : List String} {args : OperatorArguments} (given : step.action = .select tags)
    (built : ofSelect tags (modulators after) = .ok args) :
    ComplainsOnly ⟨args, step.tag.map Alias.written⟩ (Flaw before step after) (step.tag.isSome ∧ step.action.Nameless) := by
  obtain ⟨_, _, _, rfl⟩ | ⟨one, other, rest, expressions, columns, rfl, read, named, rfl⟩ := ofSelect_eq_ok built
  · exact ⟨objects_ok (), fun links _ => projectOne_objects⟩
  · have each := mapM_eq_ok.mp read
    have names := names_of_selected each named
    -- There is one column for each tag.
    match expressions, columns, each, mapM_eq_ok.mp named, names with
    | _ :: _ :: _, _ :: _ :: _, _, _, names =>
      refine ⟨objects_ok (), fun links _ => project_objects (fun tag => ?_) fun name twice => ?_⟩
      · exact ⟨by rwa [Option.isSome_map] at tag, given ▸ .select one other rest⟩
      · obtain ⟨first, second, apart, here, there⟩ := repeated_eq_some twice
        obtain ⟨⟨tag, place⟩, found, text, named, rfl⟩ := related_at names here
        obtain ⟨⟨tag', place'⟩, found', text', again, same⟩ := related_at names there
        cases same
        simp only [List.getElem?_zipIdx, Option.map_eq_some_iff, Prod.mk.injEq, Nat.zero_add] at found found'
        obtain ⟨_, here, rfl, rfl⟩ := found
        obtain ⟨_, there, rfl, rfl⟩ := found'
        exact .select given apart here there named again

theorem ofModulated_objects {args : OperatorArguments} (built : ofModulated step.action (modulators after) = .ok args) :
    ComplainsOnly ⟨args, step.tag.map Alias.written⟩ (Flaw before step after) (step.tag.isSome ∧ step.action.Nameless) := by
  have named (nameless : step.action.Nameless) :
      (step.tag.map Alias.written).isSome → step.tag.isSome ∧ step.action.Nameless :=
    fun tag => ⟨by rwa [Option.isSome_map] at tag, nameless⟩
  unfold ofModulated at built
  split at built
  · obtain ⟨keys, rfl⟩ := ofWhere_eq_ok built
    exact ⟨objects_ok (), fun links _ => select_objects fun _ => marked_ofWhere _ _ keys⟩
  · obtain ⟨_, _, rfl⟩ := ofOrder_eq_ok built
    exact ⟨objects_ok (), fun links _ => objects_ok _⟩
  · next given =>
    obtain ⟨_, _, _, _, _, rfl⟩ := ofGroup_eq_ok built
    exact ⟨objects_ok (), fun links _ => group_objects (named (given ▸ .group))⟩
  · next given =>
    obtain ⟨_, _, _, rfl⟩ := ofGroupCount_eq_ok built
    exact ⟨objects_ok (), fun links _ => group_objects (named (given ▸ .groupCount))⟩
  · obtain ⟨_, rfl⟩ := ofDedup_eq_ok built
    exact ⟨objects_ok (), fun links _ => objects_ok _⟩
  · next given => exact ofSelect_objects given built
  · cases built

private theorem ofScan_objects {draft : ScanDraft} (built : ofScan draft = .ok operator) :
    ComplainsOnly operator False False := by
  obtain ⟨predicates, _, same⟩ := bind_eq_ok.mp built
  cases same
  refine ⟨objects_ok (), fun links _ => ?_⟩
  obtain ⟨target, labels, ids, residue, tag⟩ := draft
  cases ids with
  | nil => exact objects_ok _
  | cons => exact objects_ok _

/-- An operator that was built from a traversal is only wrong if a step is. -/
theorem complaint_of_built {part : Traversal} {operators : List Operator} {error : Error}
    (built : build part = .ok operators) (member : operator ∈ operators) (blames : operator.Blames error) :
    ∃ before step after, part = before ++ step :: after ∧
      Complaint (Flaw before step after) (step.tag.isSome ∧ step.action.Nameless) error := by
  have complains {flawed tagged : Prop} (sound : ComplainsOnly operator flawed tagged) : Complaint flawed tagged error := by
    cases blames with
    | branching failed => exact sound.branching error failed
    | node fits failed => exact sound.node _ fits error failed
  obtain ⟨segments, cut, each⟩ := build_eq_ok.mp built
  obtain ⟨segment, found, made⟩ := mapM_source each member
  have stands := cut.stands segment found
  cases segment with
  | scan draft => cases complains (ofScan_objects made) <;> contradiction
  | single prepared =>
    obtain ⟨before, step, after, place, rfl, unfused⟩ := stands
    exact ⟨before, step, after, place, complains (ofSingle_objects unfused made)⟩
  | modulated action tag claimed =>
    obtain ⟨before, step, after, place, rfl, rfl, rfl⟩ := stands
    obtain ⟨args, modulated, same⟩ := bind_eq_ok.mp made
    cases same
    exact ⟨before, step, after, place, complains (ofModulated_objects modulated)⟩
  | stray index => cases made

/-- What is wrong with the operators of a traversal, however deep, is wrong with one of its steps at the same depth. -/
theorem complaint_of_among {traversal : Traversal} {operators : List Operator} {error : Error}
    (built : traversal.build = .ok operators) (among : operator.Among operators) (blames : operator.Blames error) :
    ∃ part ∈ traversal.parts, ∃ before step after, part = before ++ step :: after ∧
      Complaint (Flaw before step after) (step.tag.isSome ∧ step.action.Nameless) error := by
  obtain ⟨level, found, member⟩ := among
  obtain ⟨part, nested, made⟩ := related_left (builds_levels built) found
  exact ⟨part, nested, complaint_of_built made member blames⟩

end Traversal

/-- An argument is at fault. -/
def Error.Illegal : Error → Prop
  | .illegalSlot .. => True
  | .selectWithoutTags => True
  | .noHosts => True
  | .noWorkers => True
  | _ => False

namespace Assembly

open Traversal

variable {traversal : Traversal} {operators : List Operator} {parent : Int} {before : Assembly PlanGraph} {error : Error}

/-- If an argument of the operators is wrong, a step asks for what cannot be. -/
theorem flaw_of_illegal (built : traversal.build = .ok operators)
    (failed : ((appendAll PlanGraph.accumulator parent operators).run before).1 = .error error) (illegal : error.Illegal) :
    ∃ part ∈ traversal.parts, ∃ earlier step later, part = earlier ++ step :: later ∧ Flaw earlier step later := by
  cases fault_of_appendAll failed with
  | closed => cases illegal
  | plan => cases illegal
  | operator among blames =>
    obtain ⟨part, nested, earlier, step, later, place, complaint⟩ := complaint_of_among built among blames
    cases complaint with
    | illegal flaw => exact ⟨part, nested, earlier, step, later, place, flaw⟩
    | named => cases illegal

/-- If the operators of a traversal cannot be appended because an argument is wrong or an alias cannot be had, a step of
the traversal, at some depth, asks for what cannot be; no argument is ever missing. -/
theorem appendAll_complaints (built : traversal.build = .ok operators)
    (failed : ((appendAll PlanGraph.accumulator parent operators).run before).1 = .error error) :
    (error.Illegal →
      ∃ part ∈ traversal.parts, ∃ earlier step later, part = earlier ++ step :: later ∧ Flaw earlier step later) ∧
      (∀ kind slot, error ≠ .illegalSlot kind slot .absent) ∧
      ∀ kind, error = .unsupportedAlias kind →
        ∃ part ∈ traversal.parts, ∃ step ∈ part, step.tag.isSome ∧ step.action.Nameless := by
  refine ⟨flaw_of_illegal built failed, ?_⟩
  cases fault_of_appendAll failed with
  | closed => exact ⟨nofun, nofun⟩
  | plan kind refusal => exact ⟨nofun, nofun⟩
  | operator among blames =>
    obtain ⟨part, nested, earlier, step, later, place, complaint⟩ := complaint_of_among built among blames
    cases complaint with
    | illegal _ given =>
      refine ⟨fun kind slot same => ?_, nofun⟩
      cases same
      exact given rfl
    | named tag =>
      have there : step ∈ part := place ▸ List.mem_append_right _ List.mem_cons_self
      exact ⟨nofun, fun _ _ => ⟨part, nested, step, there, tag⟩⟩

/-- Keeps what has fewer than no neighbours. -/
def overdrawn : Traversal :=
  [⟨.vertices [], none⟩, ⟨.whereTraversal [⟨.adjacent "out" [] false, none⟩, ⟨.limit (-1), none⟩], none⟩]

theorem overdrawn_complaints : ∃ operators error, overdrawn.build = .ok operators ∧
    ((appendAll PlanGraph.accumulator (-1) operators).run (start (.empty none))).1 = .error error ∧ error.Illegal ∧
      ∃ part ∈ overdrawn.parts, ∃ earlier step later, part = earlier ++ step :: later ∧ Flaw earlier step later := by
  have builds : overdrawn.build.isOk := by decide +kernel
  have fails : (match overdrawn.build.bind fun operators =>
      ((appendAll PlanGraph.accumulator (-1) operators).run (start (.empty none))).1 with
    | .error (.illegalSlot ..) => true
    | _ => false) = true := by decide +kernel
  cases built : overdrawn.build with
  | error error =>
    rw [built] at builds
    cases builds
  | ok operators =>
    rw [built] at fails
    split at fails
    · next failed => exact ⟨operators, _, rfl, failed, trivial, (appendAll_complaints built failed).1 trivial⟩
    · cases fails

end Assembly

end TraversalPlanner
