import TraversalPlanner.Proofs.ScanFusion

/-! The names that a query writes on its steps, and where they are among the operators. A scan has the name of whichever
filter it has taken in, a count names its result, and a group gives the names of its modulators to its keys and values.
All other steps that take modulators let the names of these go. -/

namespace TraversalPlanner

open Proofs

namespace OperatorArguments

/-- The aliases of group keys and of aggregated values. -/
def aliases : OperatorArguments → List Alias
  | .groupBy keys values => (keys.getD []).map GroupKey.tag ++ (values.getD []).map Aggregation.tag
  | _ => []

end OperatorArguments

namespace Operator

/-- The aliases that the query gave, for what the operator puts out and for its groups. -/
def written (operator : Operator) : List Alias :=
  (operator.tag.toList ++ operator.args.aliases).filter Alias.queryGiven

def writtenIn (operators : List Operator) : List Alias := (levels operators).flatMap fun level => level.flatMap written

end Operator

/-- Takes modulators, but not their names. -/
def Action.forgets : Action → Bool
  | .whereTags .. => true
  | .order => true
  | .dedup _ => true
  | .select _ => true
  | _ => false

namespace Traversal

/-- The names of the steps. -/
def names (steps : List Step) : List String := steps.filterMap Step.tag

/-- The names of modulators that are let go. -/
def lapsed : List Step → List String
  | [] => []
  | step :: rest => (if step.action.forgets then (modulators rest).filterMap Modulator.tag else []) ++ lapsed rest

theorem lapsed_cons_of_keeps {step : Step} {rest : List Step} (keeps : step.action.forgets = false) :
    lapsed (step :: rest) = lapsed rest := by
  rw [lapsed, keeps]
  rfl

theorem forgets_of_role {action : Action} (role : action.role ≠ .modulated) : action.forgets = false := by
  cases action with
  | whereTags | order | dedup | select => exact absurd rfl role
  | _ => rfl

theorem names_cons (step : Step) (rest : List Step) : names (step :: rest) = step.tag.toList ++ names rest := by
  rw [names, List.filterMap_cons]
  cases step.tag <;> rfl

/-- What modulators are called is what their steps are called. -/
theorem names_eq_modulators (steps : List Step) :
    names steps = (modulators steps).filterMap Modulator.tag ++ names (behindModulators steps) := by
  induction steps with
  | nil => rfl
  | cons step rest tail =>
    unfold modulators behindModulators
    split
    · rw [names_cons, tail, List.filterMap_cons]
      cases step.tag <;> rfl
    · rfl

theorem lapsed_behindModulators (steps : List Step) : lapsed (behindModulators steps) = lapsed steps := by
  induction steps with
  | nil => rfl
  | cons step rest tail =>
    unfold behindModulators
    split
    · next role => rw [tail, lapsed_cons_of_keeps (forgets_of_role (by simp [role]))]
    · rfl

theorem lapsed_left (draft : ScanDraft) (steps : List Step) : lapsed (draft.left steps) = lapsed steps := by
  induction steps generalizing draft with
  | nil => rfl
  | cons step rest tail =>
    cases took : draft.take? step with
    | none => simp only [ScanDraft.left, took]
    | some wider =>
      have single := ScanDraft.role_of_take? took
      simp only [ScanDraft.left, took]
      rw [tail wider, lapsed_cons_of_keeps (forgets_of_role (by simp [single]))]

/-- A scan takes the names of the filters that it takes in. -/
theorem names_eq_filled (draft : ScanDraft) (steps : List Step) :
    draft.tag.toList ++ names steps = (draft.filled steps).tag.toList ++ names (draft.left steps) := by
  rw [ScanDraft.tag_filled, List.append_assoc]
  conv_lhs => rw [← draft.taken_append_left steps, names, List.filterMap_append]
  rfl

end Traversal

namespace Operator

variable {operator : Operator} {modulators : List Modulator}

private theorem written_of_plain {args : OperatorArguments} (tag : Option String) (plain : args.aliases = []) :
    written ⟨args, tag.map Alias.written⟩ = tag.toList.map Alias.written := by
  rw [written, plain]
  cases tag <;> rfl

theorem written_ofScan {draft : ScanDraft} (built : ofScan draft = .ok operator) :
    operator.written = draft.tag.toList.map Alias.written := by
  obtain ⟨predicates, _, same⟩ := bind_eq_ok.mp built
  cases same
  exact written_of_plain draft.tag rfl

theorem written_ofSingle {prepared : Prepared} (built : ofSingle prepared = .ok operator) :
    operator.written = prepared.step.tag.toList.map Alias.written := by
  obtain ⟨⟨action, tag⟩, inner⟩ := prepared
  cases action with
  | count =>
    cases built
    cases tag <;> rfl
  | hasLabel | hasId | otherVertex | limit | range =>
    cases built
    exact written_of_plain tag rfl
  | has | adjacent | edgeVertex | path | whereTraversal | not | union =>
    obtain ⟨_, _, same⟩ := bind_eq_ok.mp built
    cases same
    exact written_of_plain tag rfl
  | apply =>
    obtain ⟨_, _, built⟩ := bind_eq_ok.mp built
    obtain ⟨_, _, same⟩ := bind_eq_ok.mp built
    cases same
    exact written_of_plain tag rfl
  | values keys =>
    match keys with
    | [] => cases built
    | [key] =>
      cases built
      exact written_of_plain tag rfl
    | _ :: _ :: _ => cases built
  | valueMap keys =>
    cases keys with
    | nil => cases built
    | cons =>
      cases built
      exact written_of_plain tag rfl
  | vertices | edges | whereTags | order | group | groupCount | dedup | select | «by» | unknown => cases built

private theorem written_keyOfGroup {step : String} {modulator : Option Modulator} {key : GroupKey Alias}
    (made : keyOfGroup step modulator = .ok key) :
    [key.tag].filter Alias.queryGiven = (modulator.bind Modulator.tag).toList.map Alias.written := by
  cases modulator with
  | none =>
    cases made
    rfl
  | some modulator =>
    obtain ⟨_, _, made⟩ := bind_eq_ok.mp made
    obtain ⟨_, _, same⟩ := bind_eq_ok.mp made
    cases same
    obtain ⟨modifier, order, tag⟩ := modulator
    cases tag <;> rfl

private theorem written_valueOfGroup {modulator : Option Modulator} {value : Aggregation Alias}
    (made : valueOfGroup modulator = .ok value) :
    [value.tag].filter Alias.queryGiven = (modulator.bind Modulator.tag).toList.map Alias.written := by
  cases modulator with
  | none =>
    cases made
    rfl
  | some modulator =>
    obtain ⟨modifier, order, tag⟩ := modulator
    cases modifier with
    | identity | fold | count =>
      obtain ⟨_, _, made⟩ := bind_eq_ok.mp made
      obtain ⟨_, _, same⟩ := bind_eq_ok.mp made
      cases same
      cases tag <;> rfl
    | _ => cases made

private theorem written_group {keys : List (GroupKey Alias)} {values : List (Aggregation Alias)} :
    (OperatorArguments.groupBy (some keys) (some values)).aliases.filter Alias.queryGiven =
      (keys.map GroupKey.tag).filter Alias.queryGiven ++ (values.map Aggregation.tag).filter Alias.queryGiven :=
  List.filter_append ..

/-- Groups have the names of their modulators, and no other operators do. -/
theorem written_ofModulated {action : Action} {args : OperatorArguments} {tag : Option String}
    (built : ofModulated action modulators = .ok args) :
    written ⟨args, tag.map Alias.written⟩ = tag.toList.map Alias.written ++
      (if action.forgets then [] else (modulators.filterMap Modulator.tag).map Alias.written) := by
  have both : written ⟨args, tag.map Alias.written⟩ =
      tag.toList.map Alias.written ++ args.aliases.filter Alias.queryGiven := by
    rw [written, List.filter_append]
    cases tag <;> rfl
  rw [both]
  refine congrArg _ ?_
  unfold ofModulated at built
  split at built
  · obtain ⟨_, rfl⟩ := ofWhere_eq_ok built
    rfl
  · obtain ⟨_, _, rfl⟩ := ofOrder_eq_ok built
    rfl
  · obtain ⟨few, key, value, keyed, valued, rfl⟩ := ofGroup_eq_ok built
    rw [written_group, List.map_singleton, List.map_singleton, written_keyOfGroup keyed, written_valueOfGroup valued]
    match modulators with
    | [] => rfl
    | [one] => cases named : one.tag <;> simp [named, Action.forgets]
    | [one, two] => cases named : one.tag <;> cases renamed : two.tag <;> simp [named, renamed, Action.forgets]
    | _ :: _ :: _ :: _ => simp at few
  · obtain ⟨few, key, keyed, rfl⟩ := ofGroupCount_eq_ok built
    rw [written_group, List.map_singleton, written_keyOfGroup keyed]
    match modulators with
    | [] => rfl
    | [one] => cases named : one.tag <;> simp [named, Action.forgets, Alias.derived]
    | _ :: _ :: _ => simp at few
  · obtain ⟨_, rfl⟩ := ofDedup_eq_ok built
    rfl
  · obtain ⟨_, _, _, rfl⟩ | ⟨_, _, _, _, _, _, _, _, rfl⟩ := ofSelect_eq_ok built
    · rfl
    · rfl
  · cases built

end Operator

namespace Traversal

open Operator

/-- The operators have the names, each as often as it is written on a step. -/
def Carries (operators : List Alias) (names : List String) : Prop := (names.map Alias.written).Perm operators

/-- As often as a name is written on the steps, it is on an operator or has been let go. -/
def Balanced (names : List String) (operators : List Alias) (lapsed : List String) : Prop :=
  (names.map Alias.written).Perm (operators ++ lapsed.map Alias.written)

private theorem Balanced.append {names others : List String} {first second : List Alias} {lapsed gone : List String}
    (one : Balanced names first lapsed) (two : Balanced others second gone) :
    Balanced (names ++ others) (first ++ second) (lapsed ++ gone) := by
  unfold Balanced
  rw [List.map_append, List.map_append]
  refine (List.Perm.append one two).trans ?_
  rw [List.append_assoc, List.append_assoc]
  exact List.Perm.append_left first (List.perm_append_comm_assoc _ _ _)

private theorem balanced_kept (names : List String) : Balanced names (names.map Alias.written) [] := by
  rw [Balanced, List.map_nil, List.append_nil]

private theorem balanced_lapsed (names : List String) : Balanced names [] names := by
  rw [Balanced, List.nil_append]

private theorem balanced_of_cut {steps : List Step} {segments : List Segment} {operators : List Operator}
    (cut : Cuts steps segments)
    (each : List.Forall₂ (fun segment operator => Operator.ofSegment segment = .ok operator) segments operators) :
    Balanced (names steps) (operators.flatMap written) (lapsed steps) := by
  induction cut generalizing operators with
  | done =>
    cases each
    exact .refl _
  | @scan step rest target ids _ role _ tail =>
    cases each with
    | cons made each =>
      have taken := names_eq_filled (ScanDraft.start target ids step.tag) rest
      have later := tail each
      rw [lapsed_left] at later
      rw [names_cons, lapsed_cons_of_keeps (forgets_of_role (by simp [role])), List.flatMap_cons, written_ofScan made]
      exact taken ▸ (balanced_kept _).append later
  | @modulated step rest _ role _ tail =>
    cases each with
    | cons made each =>
      obtain ⟨args, modulated, same⟩ := bind_eq_ok.mp made
      cases same
      have later := tail each
      rw [lapsed_behindModulators] at later
      rw [names_cons, names_eq_modulators, lapsed, List.flatMap_cons, written_ofModulated modulated, List.append_assoc]
      cases step.action.forgets with
      | true => exact (balanced_kept _).append ((balanced_lapsed _).append later)
      | false => exact (balanced_kept _).append ((balanced_kept _).append later)
  | @single step rest _ role _ tail =>
    cases each with
    | cons made each =>
      rw [names_cons, lapsed_cons_of_keeps (forgets_of_role (by simp [role])), List.flatMap_cons, written_ofSingle made]
      exact (balanced_kept _).append (tail each)
  | stray =>
    cases each with
    | cons made _ => cases made

theorem balanced_of_built {part : Traversal} {operators : List Operator} (built : build part = .ok operators) :
    Balanced (names part) (operators.flatMap written) (lapsed part) := by
  obtain ⟨segments, cut, each⟩ := build_eq_ok.mp built
  exact balanced_of_cut cut (mapM_eq_ok.mp each)

private theorem balanced_levels {parts : List Traversal} {levels : List (List Operator)}
    (each : List.Forall₂ BuildAs parts levels) :
    Balanced (parts.flatMap names) (levels.flatMap fun level => level.flatMap written) (parts.flatMap lapsed) := by
  induction each with
  | nil => exact .refl _
  | cons here _ later =>
    rw [List.flatMap_cons, List.flatMap_cons, List.flatMap_cons]
    exact (balanced_of_built here).append later

/-- The names on the steps of a traversal, at any depth, are those on its operators and those of modulators that a where, an
order, a dedup or a select has let go. No name is lost if there are none of these. -/
theorem names_balanced {traversal : Traversal} {operators : List Operator} (built : traversal.build = .ok operators) :
    Balanced (traversal.parts.flatMap names) (writtenIn operators) (traversal.parts.flatMap lapsed) ∧
      (Carries (writtenIn operators) (traversal.parts.flatMap names) ↔ traversal.parts.flatMap lapsed = []) := by
  have balanced : Balanced _ (writtenIn operators) _ := balanced_levels (builds_levels built)
  refine ⟨balanced, fun kept => ?_, fun none => ?_⟩
  · have length := (kept.symm.trans balanced).length_eq
    rw [List.length_append, List.length_map] at length
    exact List.length_eq_zero_iff.mp (by omega)
  · rw [none] at balanced
    simpa [Balanced, Carries] using balanced

/-- Names vertices, keeps them by what a sorted list of ages is called, and groups them by a named key. -/
def namedThroughout : Traversal :=
  [⟨.vertices [], some "a"⟩,
    ⟨.whereTraversal [⟨.values ["age"], none⟩, ⟨.order, none⟩, ⟨.by .identity none, some "x"⟩], none⟩,
    ⟨.group, none⟩, ⟨.by (.key "name") none, some "k"⟩]

theorem namedThroughout_balanced : ∃ operators, namedThroughout.build = .ok operators ∧
    namedThroughout.parts.flatMap names = ["a", "k", "x"] ∧ namedThroughout.parts.flatMap lapsed = ["x"] ∧
      Balanced (namedThroughout.parts.flatMap names) (writtenIn operators) (namedThroughout.parts.flatMap lapsed) ∧
        (Carries (writtenIn operators) (namedThroughout.parts.flatMap names) ↔
          namedThroughout.parts.flatMap lapsed = []) :=
  ⟨_, rfl, rfl, rfl, names_balanced rfl⟩

def sortedByAge : Traversal := [⟨.vertices [], none⟩, ⟨.order, none⟩, ⟨.by (.key "age") none, some "x"⟩]

/-- The name on the modulator of an order is lost. -/
theorem sortedByAge_loses : ¬ ∀ operators, sortedByAge.build = .ok operators →
    Carries (writtenIn operators) (sortedByAge.parts.flatMap names) := by
  intro kept
  have lost : 1 = 0 := List.Perm.length_eq (kept _ rfl)
  cases lost

end Traversal

end TraversalPlanner
