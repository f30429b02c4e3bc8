import TraversalPlanner.Proofs.CheckedKeys

/-! What becomes of the order words on modulators. They sort behind an `order`, and elsewhere a traversal that has
one does not build; but nothing looks at the modulators of a `select` whose turn never comes. -/

namespace TraversalPlanner

open Proofs Traversal

namespace Traversal

/-- The steps before a modulator end with its host and the other modulators that come first. -/
def Hosted (before : List Step) (host : Step) (place : Nat) : Prop :=
  ∃ earlier others, before = earlier ++ host :: others ∧ others.length = place ∧
    ∀ step ∈ others, ∃ modifier order, step.action.role = .modulator modifier order

theorem Hosted.further {before : List Step} {host : Step} {place : Nat} (hosted : Hosted before host place)
    (front : List Step) : Hosted (front ++ before) host place := by
  obtain ⟨earlier, others, same, count, each⟩ := hosted
  exact ⟨front ++ earlier, others, by rw [same, List.append_assoc], count, each⟩

/-- Behind modulators alone a modulator is one of them, and behind other steps it is none of them. -/
theorem behindModulators_cases (before : List Step) :
    (∀ step ∈ before, ∃ modifier order, step.action.role = .modulator modifier order) ∨
      ∃ front rest, before = front ++ rest ∧ ∀ after, behindModulators (before ++ after) = rest ++ after := by
  induction before with
  | nil => exact .inl nofun
  | cons step before tail =>
    cases role : step.action.role with
    | modulator modifier order =>
      rcases tail with each | ⟨front, rest, same, behind⟩
      · exact .inl (List.forall_mem_cons.mpr ⟨⟨modifier, order, role⟩, each⟩)
      · refine .inr ⟨step :: front, rest, congrArg _ same, fun after => ?_⟩
        simp only [List.cons_append, behindModulators, role, behind]
    | _ => exact .inr ⟨[], step :: before, rfl, fun after => by simp only [List.cons_append, behindModulators, role]⟩

theorem modulators_at {step : Step} {modifier : Modifier} {order : Option String}
    (role : step.action.role = .modulator modifier order) (others after : List Step)
    (each : ∀ step ∈ others, ∃ modifier order, step.action.role = .modulator modifier order) :
    (modulators (others ++ step :: after))[others.length]? = some { modifier, order, tag := step.tag } := by
  induction others with
  | nil => simp [modulators, role]
  | cons first others tail =>
    obtain ⟨⟨modifier, order, here⟩, later⟩ := List.forall_mem_cons.mp each
    simp only [List.cons_append, modulators, here, List.length_cons, List.getElem?_cons_succ]
    exact tail later

end Traversal

/-- A modulator that is not left without a host stands behind a step that takes modulators. -/
theorem Cuts.host {steps before after : List Step} {step : Step} {segments : List Segment} {modifier : Modifier}
    {order : Option String} (cut : Cuts steps segments) (hosted : ∀ index, Segment.stray index ∉ segments)
    (same : steps = before ++ step :: after) (role : step.action.role = .modulator modifier order) :
    ∃ host place claimed, Hosted before host place ∧ .modulated host.action host.tag claimed ∈ segments ∧
      claimed[place]? = some { modifier, order, tag := step.tag } := by
  have further {first : Step} {rest : List Step} {segment : Segment} {others : List Segment} (front : List Step)
      (found : ∃ host place claimed, Hosted rest host place ∧ .modulated host.action host.tag claimed ∈ others ∧
        claimed[place]? = some { modifier, order, tag := step.tag }) :
      ∃ host place claimed, Hosted (first :: (front ++ rest)) host place ∧
        .modulated host.action host.tag claimed ∈ segment :: others ∧
        claimed[place]? = some { modifier, order, tag := step.tag } := by
    obtain ⟨host, place, claimed, behind, member, there⟩ := found
    exact ⟨host, place, claimed, behind.further (first :: front), List.mem_cons_of_mem _ member, there⟩
  induction cut generalizing before with
  | done => simp at same
  | @scan look rest target ids segments looks _ tail =>
    have hosted := fun index => mt (List.mem_cons_of_mem _) (hosted index)
    cases before with
    | nil =>
      cases (List.cons.inj same).1
      cases looks.symm.trans role
    | cons first before =>
      have others : rest = before ++ step :: after := (List.cons.inj same).2
      rcases ScanDraft.left_splits (.start target ids look.tag) before step after with
        fused | ⟨front, left, split, onward⟩
      · -- A scan takes in filters only.
        have whole := (ScanDraft.start target ids look.tag).taken_append_left (before ++ [step])
        rw [fused, List.append_nil] at whole
        have single := ScanDraft.role_of_taken (whole ▸ List.mem_append_right before (List.mem_singleton_self step))
        cases single.symm.trans role
      · rw [split]
        exact further front (tail hosted (by rw [others, onward]))
  | @modulated host rest segments hosts _ tail =>
    have hosted := fun index => mt (List.mem_cons_of_mem _) (hosted index)
    cases before with
    | nil =>
      cases (List.cons.inj same).1
      cases hosts.symm.trans role
    | cons first before =>
      have others : rest = before ++ step :: after := (List.cons.inj same).2
      cases (List.cons.inj same).1
      rcases behindModulators_cases before with each | ⟨front, left, split, behind⟩
      · refine ⟨host, before.length, modulators rest, ⟨[], before, rfl, rfl, each⟩, List.mem_cons_self, ?_⟩
        rw [others]
        exact modulators_at role before after each
      · rw [split]
        exact further front (tail hosted (by rw [others, behind]))
  | @single first rest segments alone _ tail =>
    have hosted := fun index => mt (List.mem_cons_of_mem _) (hosted index)
    cases before with
    | nil =>
      cases (List.cons.inj same).1
      cases alone.symm.trans role
    | cons head before => exact further [] (tail hosted (List.cons.inj same).2)
  | stray index => exact absurd List.mem_cons_self (hosted index)

namespace Modulator

variable {step : String} {modulator : Modulator}

theorem unordered_of_refuseOrder (passes : modulator.refuseOrder step = .ok ()) : modulator.order = none := by
  unfold refuseOrder at passes
  split at passes
  · cases passes
  · next none => exact none

theorem inner_of_key {name : Option String} (made : modulator.key step = .ok name) : modulator.modifier.inner = [] := by
  unfold key at made
  cases form : modulator.modifier with
  | traversal inner => rw [form] at made; cases made
  | _ => rfl

theorem inner_of_reference {made : Variable} (read : modulator.reference step = .ok made) :
    modulator.modifier.inner = [] := by
  unfold reference at read
  split at read
  · next form => rw [form]; rfl
  · next form => rw [form]; rfl
  · obtain ⟨_, key, _⟩ := bind_eq_ok.mp read
    exact inner_of_key key

end Modulator

namespace Operator

/-- What a modulator at a place behind its host is to the operators of the traversal. -/
inductive Uses (operators : List Operator) (host : Step) (place : Nat) (modulator : Modulator) : Prop
  | sorts {keys key} (order : host.action = .order)
      (member : ⟨.orderBy (some keys) none none, host.tag.map Alias.written⟩ ∈ operators)
      (there : keys[place]? = some key) (reads : modulator.reference "order" = .ok key.key)
      (direction : match modulator.order with
        | some word => Vocabulary.parse "Order" word = .ok key.order
        | none => key.order = .ascending)
  | selects (unordered : modulator.order = none) (plain : modulator.modifier.inner = [])
  | idle {tags} (dedup : host.action = .dedup tags) (beyond : tags.length ≤ place) (unordered : modulator.order = none)
  | surplus {tags} (select : host.action = .select tags) (beyond : tags.length ≤ place)

theorem turnOf_at {modulators : List Modulator} {place : Nat} {modulator : Modulator}
    (there : modulators[place]? = some modulator) : turnOf modulators place = some modulator := by
  obtain ⟨inside, _⟩ := List.getElem?_eq_some_iff.mp there
  rw [turnOf, Nat.mod_eq_of_lt inside, there]

theorem unordered_of_forM {step : String} {modulators : List Modulator}
    (passes : modulators.forM (Modulator.refuseOrder step) = .ok ()) :
    ∀ modulator ∈ modulators, modulator.order = none := by
  induction modulators with
  | nil => exact nofun
  | cons first others tail =>
    obtain ⟨_, here, later⟩ := bind_eq_ok.mp passes
    exact List.forall_mem_cons.mpr ⟨Modulator.unordered_of_refuseOrder here, tail later⟩

section

variable {operators : List Operator} {host : Step} {place : Nat} {claimed : List Modulator} {modulator : Modulator}
  {args : OperatorArguments}

theorem uses_of_keyOfGroup {step : String} {key : GroupKey Alias} (made : keyOfGroup step (some modulator) = .ok key) :
    Uses operators host place modulator := by
  obtain ⟨_, refused, made⟩ := bind_eq_ok.mp made
  obtain ⟨_, reads, _⟩ := bind_eq_ok.mp made
  exact .selects (Modulator.unordered_of_refuseOrder refused) (Modulator.inner_of_reference reads)

theorem uses_of_valueOfGroup {value : Aggregation Alias} (made : valueOfGroup (some modulator) = .ok value) :
    Uses operators host place modulator := by
  obtain ⟨modifier, order, tag⟩ := modulator
  cases modifier with
  | identity | fold | count =>
    obtain ⟨_, _, made⟩ := bind_eq_ok.mp made
    obtain ⟨_, refused, _⟩ := bind_eq_ok.mp made
    exact .selects (Modulator.unordered_of_refuseOrder refused) rfl
  | _ => cases made

variable (there : claimed[place]? = some modulator)

include there

theorem uses_of_where {start : Option String} {condition : TagCondition}
    (made : ofWhere start condition claimed = .ok args) : Uses operators host place modulator := by
  obtain ⟨keys, read, _⟩ := bind_eq_ok.mp made
  obtain ⟨name, _, read⟩ := mapM_result read (List.mem_of_getElem? there)
  obtain ⟨_, refused, key⟩ := bind_eq_ok.mp read
  exact .selects (Modulator.unordered_of_refuseOrder refused) (Modulator.inner_of_key key)

theorem uses_of_order (order : host.action = .order) (made : ofOrder claimed = .ok args)
    (member : ⟨args, host.tag.map Alias.written⟩ ∈ operators) : Uses operators host place modulator := by
  obtain ⟨keys, read, same⟩ := bind_eq_ok.mp made
  cases same
  obtain ⟨key, found, read⟩ := related_at (mapM_eq_ok.mp read).flip there
  obtain ⟨reference, reads, read⟩ := bind_eq_ok.mp read
  have some : keys.isEmpty = false := by
    cases keys with
    | nil => cases found
    | cons => rfl
  rw [some] at member
  simp only at read
  cases word : modulator.order with
  | none =>
    rw [word] at read
    cases read
    exact .sorts order member found reads (by rw [word])
  | some text =>
    rw [word] at read
    obtain ⟨direction, parsed, same⟩ := bind_eq_ok.mp read
    cases same
    exact .sorts order member found reads (by rw [word]; exact parsed)

theorem uses_of_group (made : ofGroup claimed = .ok args) : Uses operators host place modulator := by
  obtain ⟨few, key, value, keyed, valued, _⟩ := ofGroup_eq_ok made
  obtain ⟨inside, _⟩ := List.getElem?_eq_some_iff.mp there
  match place, inside with
  | 0, _ => exact uses_of_keyOfGroup (there ▸ keyed)
  | 1, _ => exact uses_of_valueOfGroup (there ▸ valued)
  | place + 2, inside => omega

theorem uses_of_groupCount (made : ofGroupCount claimed = .ok args) : Uses operators host place modulator := by
  obtain ⟨few, key, keyed, _⟩ := ofGroupCount_eq_ok made
  obtain ⟨inside, _⟩ := List.getElem?_eq_some_iff.mp there
  match place, inside with
  | 0, _ => exact uses_of_keyOfGroup (there ▸ keyed)
  | place + 1, inside => omega

theorem uses_of_dedup {tags : List String} (dedup : host.action = .dedup tags)
    (made : ofDedup tags claimed = .ok args) : Uses operators host place modulator := by
  have member := List.mem_of_getElem? there
  obtain ⟨_, refused, made⟩ := bind_eq_ok.mp made
  have unordered := unordered_of_forM refused modulator member
  by_cases beyond : tags.length ≤ place
  · exact .idle dedup beyond unordered
  · have turn := turnOf_at there
    simp only at made
    split at made
    · next none => exact absurd (by simp [List.isEmpty_iff.mp none]) beyond
    · obtain ⟨_, read, _⟩ := bind_eq_ok.mp made
      have reached := List.mk_mem_zipIdx_iff_getElem?.mpr (List.getElem?_eq_getElem (Nat.lt_of_not_le beyond))
      obtain ⟨_, _, read⟩ := mapM_result read reached
      simp only [turn] at read
      obtain ⟨_, key, _⟩ := bind_eq_ok.mp read
      exact .selects unordered (Modulator.inner_of_key key)

theorem uses_of_select {tags : List String} (select : host.action = .select tags)
    (made : ofSelect tags claimed = .ok args) : Uses operators host place modulator := by
  by_cases beyond : tags.length ≤ place
  · exact .surplus select beyond
  · have turn := turnOf_at there
    unfold ofSelect at made
    split at made
    · cases made
    · obtain ⟨_, read, _⟩ := bind_eq_ok.mp made
      have reached := List.mk_mem_zipIdx_iff_getElem?.mpr (List.getElem?_eq_getElem (Nat.lt_of_not_le beyond))
      obtain ⟨_, _, read⟩ := mapM_result read reached
      simp only [turn] at read
      obtain ⟨_, refused, read⟩ := bind_eq_ok.mp read
      refine .selects (Modulator.unordered_of_refuseOrder refused) ?_
      split at read
      · next form => rw [form]; rfl
      · obtain ⟨_, key, _⟩ := bind_eq_ok.mp read
        exact Modulator.inner_of_key key

theorem uses_of_modulated (made : ofModulated host.action claimed = .ok args)
    (member : ⟨args, host.tag.map Alias.written⟩ ∈ operators) : Uses operators host place modulator := by
  unfold ofModulated at made
  split at made
  · exact uses_of_where there made
  · next order => exact uses_of_order there order made member
  · exact uses_of_group there made
  · exact uses_of_groupCount there made
  · next dedup => exact uses_of_dedup there dedup made
  · next select => exact uses_of_select there select made
  · cases made

end

end Operator

namespace Traversal

open Operator

/-- Each modulator of the traversal has a host, and its use to the operators. -/
def Used (traversal : Traversal) (operators : List Operator) : Prop :=
  ∀ before modifier order tag after, traversal = before ++ ⟨.by modifier order, tag⟩ :: after →
    ∃ host place, Hosted before host place ∧ Uses operators host place { modifier, order, tag }

theorem used_of_built {traversal : Traversal} {operators : List Operator} (built : build traversal = .ok operators) :
    Used traversal operators := by
  intro before modifier order tag after same
  obtain ⟨segments, cut, made⟩ := build_eq_ok.mp built
  obtain ⟨host, place, claimed, hosted, member, there⟩ := cut.host (Cuts.hosted_of_built made) same rfl
  obtain ⟨operator, found, made⟩ := mapM_result made member
  obtain ⟨args, wrote, same⟩ := bind_eq_ok.mp made
  cases same
  exact ⟨host, place, hosted, uses_of_modulated there wrote found⟩

theorem turnOf_take {modulators : List Modulator} {count index : Nat} (inside : index < count) :
    turnOf (modulators.take count) index = turnOf modulators index := by
  rcases Nat.le_total modulators.length count with few | many
  · rw [List.take_of_length_le few]
  · rw [turnOf, turnOf, List.length_take_of_le many, Nat.mod_eq_of_lt inside, Nat.mod_eq_of_lt (by omega),
      List.getElem?_take_of_lt inside]

theorem ofSelect_take (tags : List String) (modulators : List Modulator) :
    ofSelect tags (modulators.take tags.length) = ofSelect tags modulators := by
  unfold ofSelect
  split
  · rfl
  · refine congrArg (· >>= _) (mapM_congr ?_)
    rintro ⟨tag, index⟩ member
    exact congrArg (selected tag) (turnOf_take (List.mem_zipIdx' member).1)

/-- All modulators are used, at any depth: what has an order word sorts. Only a select does not look at those that come
after as many as it has tags. -/
theorem modulators_used {traversal : Traversal} {operators : List Operator} (built : build traversal = .ok operators) :
    (∀ part ∈ traversal.parts, ∃ level ∈ levels operators, build part = .ok level ∧ Used part level) ∧
      ∀ tags modulators, ofSelect tags (modulators.take tags.length) = ofSelect tags modulators := by
  refine ⟨fun part member => ?_, ofSelect_take⟩
  obtain ⟨level, found, here⟩ := related_right (builds_levels built) member
  exact ⟨level, found, here, used_of_built here⟩

def eldestFirst : Traversal :=
  [⟨.vertices [], none⟩, ⟨.union [[⟨.order, none⟩, ⟨.by (.key "age") (some "desc"), none⟩]], none⟩]

theorem eldestFirst_used : ∃ operators, build eldestFirst = .ok operators ∧
    (∀ part ∈ eldestFirst.parts, ∃ level ∈ levels operators, build part = .ok level ∧ Used part level) ∧
      ∀ tags modulators, ofSelect tags (modulators.take tags.length) = ofSelect tags modulators := by
  have passes : (build eldestFirst).isOk := by decide +kernel
  obtain ⟨operators, built⟩ := ok_of_isOk passes
  exact ⟨operators, built, modulators_used built⟩

def namesSorted : Traversal :=
  [⟨.vertices [], some "a"⟩, ⟨.select ["a"], none⟩, ⟨.by (.key "name") none, none⟩,
    ⟨.by (.key "age") (some "desc"), none⟩]

/-- The order is asked for behind a select, and no one looks. -/
theorem namesSorted_unsorted : ∃ operators, build namesSorted = .ok operators ∧
    ¬ ∀ before modifier word tag after, namesSorted = before ++ ⟨.by modifier (some word), tag⟩ :: after →
      ∃ host place, Hosted before host place ∧ host.action = .order := by
  have passes : (build namesSorted).isOk := by decide +kernel
  obtain ⟨operators, built⟩ := ok_of_isOk passes
  refine ⟨operators, built, fun sorts => ?_⟩
  obtain ⟨host, place, ⟨earlier, others, same, _⟩, order⟩ :=
    sorts [⟨.vertices [], some "a"⟩, ⟨.select ["a"], none⟩, ⟨.by (.key "name") none, none⟩] (.key "age") "desc" none []
      rfl
  have member : host ∈ earlier ++ host :: others := List.mem_append_right _ List.mem_cons_self
  rw [← same] at member
  simp only [List.mem_cons, List.not_mem_nil, or_false] at member
  rcases member with rfl | rfl | rfl
  all_goals cases order

end Traversal

end TraversalPlanner
