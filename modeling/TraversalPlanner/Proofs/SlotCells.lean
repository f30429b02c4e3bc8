import Mathlib.Data.List.Infix
import TraversalPlanner.Operator.Slots
import TraversalPlanner.Proofs.ListEffects

/-! The slots of an operator are cells of fixed types, each of which is written and read on its own. The slots that
a kind has, those that can be written and those that can be read are tables of their own; they agree, and the cells
hold all that an operator has besides its kind and its alias. -/

namespace TraversalPlanner

open Proofs

/-- Whether a value is of the type that belongs into a slot, whatever kind has the slot. -/
def Slot.takes : Slot → SlotValue → Bool
  | .scanOpt, .scanOpt _ => true
  | .labels, .names _ => true
  | .properties, .names _ => true
  | .ids, .consts _ => true
  | .predicate, .expr _ => true
  | .limit, .int _ => true
  | .direction, .direction _ => true
  | .isEdge, .bool _ => true
  | .lower, .int _ => true
  | .upper, .int _ => true
  | .exprWithAlias, .exprAliases _ => true
  | .orderPairs, .orderPairs _ => true
  | .groupKeys, .keyAliases _ => true
  | .groupValues, .aggFns _ => true
  | .dedupKeys, .references _ => true
  | .sinkColumns, .names _ => true
  | .wholePath, .bool _ => true
  | .vertexOpt, .vopt _ => true
  | .subCollection, .collection _ => true
  | .subRootId, .int _ => true
  | .joinKind, .joinKind _ => true
  | .subCollections, .collections _ => true
  | .parentIds, .ints _ => true
  | _, _ => false

/-- A value has been written into one of some cells, where it fits, and into no other. -/
structure Stored (slots : List Slot) (before after : Slot → Option SlotValue) (slot : Slot) (value : SlotValue) :
    Prop where
  has : slot ∈ slots
  takes : slot.takes value = true
  reads : ∀ other, after other = if other = slot then some value else before other

attribute [ext] ScanArguments ExpandArguments

theorem ScanArguments.stored_of_set? {args after : ScanArguments} {slot : Slot} {value : SlotValue}
    (written : args.set? slot value = some after) :
    Stored OperatorKind.scan.slots args.get? after.get? slot value := by
  revert written
  fun_cases ScanArguments.set? args slot value <;> intro written <;> cases written
  all_goals exact ⟨by decide, rfl, fun other => by cases other <;> rfl⟩

theorem ExpandArguments.stored_of_set? {args after : ExpandArguments} {slot : Slot} {value : SlotValue}
    (written : args.set? slot value = some after) :
    Stored OperatorKind.expand.slots args.get? after.get? slot value := by
  revert written
  fun_cases ExpandArguments.set? args slot value <;> intro written <;> cases written
  all_goals exact ⟨by decide, rfl, fun other => by cases other <;> rfl⟩

namespace OperatorArguments

variable {args after other : OperatorArguments} {slot : Slot} {value : SlotValue}

/-- Arguments that are written to stay those of their kind. -/
theorem stored_of_set? (written : args.set? slot value = some after) :
    after.kind = args.kind ∧ Stored args.kind.slots args.get? after.get? slot value := by
  revert written
  fun_cases OperatorArguments.set? args slot value <;> intro written
  case case1 =>
    obtain ⟨scanned, within, rfl⟩ := Option.map_eq_some_iff.mp written
    exact ⟨rfl, ScanArguments.stored_of_set? within⟩
  case case3 =>
    obtain ⟨expanded, within, rfl⟩ := Option.map_eq_some_iff.mp written
    exact ⟨rfl, ExpandArguments.stored_of_set? within⟩
  case case17 =>
    obtain ⟨expanded, within, rfl⟩ := Option.map_eq_some_iff.mp written
    obtain ⟨has, takes, reads⟩ := ExpandArguments.stored_of_set? within
    refine ⟨rfl, List.mem_append_left ([.lower, .upper, .wholePath] : List Slot) has, takes, fun other => ?_⟩
    have inner := reads other
    cases other with
    -- These three are the path's own, and no slot of an expansion is one of them.
    | lower | upper | wholePath => exact (if_neg fun same => absurd (same ▸ has) (by decide)).symm
    | _ => exact inner
  all_goals
    cases written
  all_goals exact ⟨rfl, by simp [kind, OperatorKind.slots], rfl, fun other => by cases other <;> rfl⟩

/-- Every slot of the kind can be written with a value that fits. -/
theorem exists_set? (has : slot ∈ args.kind.slots) (takes : slot.takes value = true) :
    ∃ after, args.set? slot value = some after := by
  rw [← Option.isSome_iff_exists]
  revert takes
  fun_cases Slot.takes slot value
  case case24 => exact nofun
  all_goals
    intro
    cases args <;> first
      | rfl
      | simp [kind, OperatorKind.slots] at has

/-- What is read from a slot could have been written there. -/
theorem fits_of_get? (held : args.get? slot = some value) : slot ∈ args.kind.slots ∧ slot.takes value = true := by
  cases args <;> cases slot <;> first
    | cases held
    | obtain ⟨_, _, rfl⟩ := Option.map_eq_some_iff.mp held
      exact ⟨by simp [kind, OperatorKind.slots], rfl⟩

/-- There is nothing more to arguments than what their kind's slots hold. -/
theorem eq_of_get? (same : args.kind = other.kind) (each : ∀ slot ∈ args.kind.slots, args.get? slot = other.get? slot) :
    args = other := by
  cases args <;> cases other <;> cases same
  all_goals
    simpa [kind, OperatorKind.slots, get?, ScanArguments.get?, ExpandArguments.get?, Option.map_inj_right,
      ScanArguments.ext_iff, ExpandArguments.ext_iff, and_assoc] using each

end OperatorArguments

namespace Operator

variable {operator after built : Operator} {slot : Slot} {value : SlotValue}

/-- What becomes of an operator that is offered a value for a slot. -/
def offer (operator : Operator) (entry : Slot × SlotValue) : Operator :=
  match operator.set entry.1 entry.2 with
  | .ok after => after
  | .error _ => operator

/-- The last value that fits among those offered for a slot of some kind. -/
def lastFitting (kind : OperatorKind) (offers : List (Slot × SlotValue)) (slot : Slot) : Option SlotValue :=
  (offers.reverse.find? fun entry => entry.1 = slot ∧ slot ∈ kind.slots ∧ slot.takes entry.2 = true).map Prod.snd

/-- Puts what another operator holds in a slot into the same slot, if it holds anything there. -/
def copySlot (source built : Operator) (slot : Slot) : Except Error Operator :=
  match source.get? slot with
  | some value => built.set slot value
  | none => .ok built

/-- A new operator of the same kind that is given all that the slots hold, and then the alias. -/
def rebuilt (operator : Operator) : Except Error Operator := do
  let filled ← operator.kind.slots.foldlM operator.copySlot (new operator.kind)
  return { filled with tag := operator.tag }

theorem set_eq_ok (written : operator.set slot value = .ok after) :
    after.kind = operator.kind ∧ after.tag = operator.tag ∧
      Stored operator.kind.slots operator.get? after.get? slot value := by
  unfold set at written
  split at written
  · next args stored =>
    cases written
    obtain ⟨kind, stored⟩ := OperatorArguments.stored_of_set? stored
    exact ⟨kind, rfl, stored⟩
  · cases written

theorem exists_set (has : slot ∈ operator.kind.slots) (takes : slot.takes value = true) :
    ∃ after, operator.set slot value = .ok after := by
  obtain ⟨args, stored⟩ := OperatorArguments.exists_set? has takes
  exact ⟨{ operator with args }, by rw [set, stored]⟩

theorem set_eq_error {error : Error} (refused : operator.set slot value = .error error) :
    (slot ∉ operator.kind.slots ∨ slot.takes value = false) ∧
      error = .illegalSlot operator.kind slot
        (if operator.kind.accepts slot then .wrongType value.typeWord else .undefinedSlot) := by
  refine ⟨?_, ?_⟩
  · by_contra fits
    rw [not_or, not_not, Bool.not_eq_false] at fits
    obtain ⟨after, written⟩ := exists_set fits.1 fits.2
    cases refused.symm.trans written
  · unfold set at refused
    split at refused
    · cases refused
    · exact (Except.error.inj refused).symm

/-- The reason names the type of the value or says that there is no such slot, and no type reads like the latter. -/
theorem undefined_iff (kind : OperatorKind) (slot : Slot) (value : SlotValue) :
    "not defined".toList <:+:
        (if kind.accepts slot then SlotFault.wrongType value.typeWord else .undefinedSlot).message.toList ↔
      kind.accepts slot = false := by
  cases kind.accepts slot with
  | true =>
    refine iff_of_false ?_ (by decide)
    rw [if_pos rfl]
    cases value <;> rw [SlotValue.typeWord] <;> decide +kernel
  | false =>
    rw [if_neg Bool.false_ne_true]
    exact iff_of_true (by decide) rfl

theorem get?_offer (operator : Operator) (entry : Slot × SlotValue) (slot : Slot) :
    (operator.offer entry).get? slot =
      if entry.1 = slot ∧ slot ∈ operator.kind.slots ∧ slot.takes entry.2 = true then some entry.2
      else operator.get? slot := by
  unfold offer
  cases tried : operator.set entry.1 entry.2 with
  | ok after =>
    obtain ⟨-, -, has, takes, reads⟩ := set_eq_ok tried
    simp only [reads]
    grind
  | error error =>
    obtain ⟨unfit, -⟩ := set_eq_error tried
    rw [if_neg]
    grind

theorem offer_keeps (operator : Operator) (entry : Slot × SlotValue) :
    (operator.offer entry).kind = operator.kind ∧ (operator.offer entry).tag = operator.tag := by
  unfold offer
  split
  · next tried =>
    obtain ⟨kind, tag, -⟩ := set_eq_ok tried
    exact ⟨kind, tag⟩
  · exact ⟨rfl, rfl⟩

/-- Whatever is offered to an operator, its kind and its alias stay, and each slot holds the last value offered for it
that fits, or else what it held before. -/
theorem foldl_offer (operator : Operator) (offers : List (Slot × SlotValue)) :
    (offers.foldl offer operator).kind = operator.kind ∧ (offers.foldl offer operator).tag = operator.tag ∧
      ∀ slot, (offers.foldl offer operator).get? slot =
        (lastFitting operator.kind offers slot).or (operator.get? slot) := by
  induction offers generalizing operator with
  | nil => exact ⟨rfl, rfl, fun _ => rfl⟩
  | cons entry rest later =>
    obtain ⟨kind, tag⟩ := offer_keeps operator entry
    obtain ⟨kinds, tags, reads⟩ := later (operator.offer entry)
    refine ⟨kinds.trans kind, tags.trans tag, fun slot => ?_⟩
    rw [List.foldl_cons, reads, kind, get?_offer]
    simp only [lastFitting, List.reverse_cons, List.find?_append, List.find?_singleton]
    grind

theorem eq_of_get? (kind : operator.kind = after.kind) (tag : operator.tag = after.tag)
    (each : ∀ slot ∈ operator.kind.slots, operator.get? slot = after.get? slot) : operator = after := by
  obtain ⟨args, _⟩ := operator
  obtain ⟨others, _⟩ := after
  cases tag
  exact congrArg (Operator.mk · _) (OperatorArguments.eq_of_get? kind each)

theorem get?_new (kind : OperatorKind) (slot : Slot) : (new kind).get? slot = none := by
  cases kind <;> cases slot <;> rfl

theorem copySlot_eq (source : Operator) (has : slot ∈ built.kind.slots) :
    ∃ middle, source.copySlot built slot = .ok middle ∧ middle.kind = built.kind ∧ middle.tag = built.tag ∧
      ∀ other, middle.get? other =
        if other = slot then (source.get? other).or (built.get? other) else built.get? other := by
  unfold copySlot
  cases held : source.get? slot with
  | none =>
    refine ⟨built, rfl, rfl, rfl, fun other => ?_⟩
    split
    · next same => rw [same, held, Option.none_or]
    · rfl
  | some value =>
    obtain ⟨middle, written⟩ := exists_set has (OperatorArguments.fits_of_get? held).2
    obtain ⟨kind, tag, stored⟩ := set_eq_ok written
    refine ⟨middle, written, kind, tag, fun other => ?_⟩
    rw [stored.reads]
    split
    · next same => rw [same, held, Option.some_or]
    · rfl

/-- Slots that are copied hold what they hold in the source, if that is anything; nothing else changes. -/
theorem foldlM_copySlot (source : Operator) {slots : List Slot} (known : ∀ slot ∈ slots, slot ∈ built.kind.slots) :
    ∃ filled, slots.foldlM source.copySlot built = .ok filled ∧ filled.kind = built.kind ∧ filled.tag = built.tag ∧
      ∀ slot, filled.get? slot = if slot ∈ slots then (source.get? slot).or (built.get? slot) else built.get? slot := by
  induction slots generalizing built with
  | nil => exact ⟨built, rfl, rfl, rfl, fun slot => (if_neg List.not_mem_nil).symm⟩
  | cons first rest later =>
    obtain ⟨has, others⟩ := List.forall_mem_cons.mp known
    obtain ⟨middle, copied, kind, tag, reads⟩ := copySlot_eq source has
    obtain ⟨filled, ran, kinds, tags, each⟩ := later (kind ▸ others)
    refine ⟨filled, ?_, kinds.trans kind, tags.trans tag, fun slot => ?_⟩
    · rw [List.foldlM_cons, copied]
      exact ran
    · rw [each, reads]
      simp only [List.mem_cons]
      cases source.get? slot <;> grind

theorem kind_new (kind : OperatorKind) : (new kind).kind = kind := by
  cases kind <;> rfl

theorem rebuilt_eq (operator : Operator) : operator.rebuilt = .ok operator := by
  have known : ∀ slot ∈ operator.kind.slots, slot ∈ (new operator.kind).kind.slots := fun _ has => by rwa [kind_new]
  obtain ⟨filled, copied, kind, -, reads⟩ := foldlM_copySlot operator known
  rw [kind_new] at kind
  unfold rebuilt
  rw [copied]
  refine congrArg Except.ok (eq_of_get? kind rfl fun slot has => ?_)
  have held : slot ∈ operator.kind.slots := kind ▸ has
  exact (reads slot).trans (by rw [if_pos held, get?_new, Option.or_none])

/-- The slots of an operator are cells. What a slot holds is of the slot's type; a value can be written just where the
kind has a slot of its type, is read back from there and changes nothing else; one that cannot be written changes
nothing at all, and the reason tells whether there is such a slot. So each slot holds what was last written to it, and
the slots hold the whole operator besides its kind and its alias. -/
theorem slots_are_cells (operator : Operator) :
    (∀ slot value, operator.get? slot = some value → slot ∈ operator.kind.slots ∧ slot.takes value = true) ∧
    (∀ slot value, (operator.set slot value).isOk = true ↔ slot ∈ operator.kind.slots ∧ slot.takes value = true) ∧
    (∀ slot value after, operator.set slot value = .ok after →
      after.kind = operator.kind ∧ after.tag = operator.tag ∧ after.get? slot = some value ∧
        ∀ other, other ≠ slot → after.get? other = operator.get? other) ∧
    (∀ slot value error, operator.set slot value = .error error →
      operator.offer (slot, value) = operator ∧ ∃ fault, error = .illegalSlot operator.kind slot fault ∧
        ("not defined".toList <:+: fault.message.toList ↔ operator.kind.accepts slot = false)) ∧
    (∀ offers, (offers.foldl offer operator).kind = operator.kind ∧ (offers.foldl offer operator).tag = operator.tag ∧
      ∀ slot, (offers.foldl offer operator).get? slot =
        (lastFitting operator.kind offers slot).or (operator.get? slot)) ∧
    operator.rebuilt = .ok operator := by
  refine ⟨fun slot value held => ?_, fun slot value => ?_, fun slot value after written => ?_,
    fun slot value error refused => ?_, foldl_offer operator, rebuilt_eq operator⟩
  · exact OperatorArguments.fits_of_get? held
  · refine ⟨fun passes => ?_, fun fits => ?_⟩
    · obtain ⟨after, written⟩ := ok_of_isOk passes
      obtain ⟨-, -, stored⟩ := set_eq_ok written
      exact ⟨stored.has, stored.takes⟩
    · obtain ⟨after, written⟩ := exists_set fits.1 fits.2
      rw [written]
      rfl
  · obtain ⟨kind, tag, stored⟩ := set_eq_ok written
    exact ⟨kind, tag, by rw [stored.reads, if_pos rfl], fun other apart => by rw [stored.reads, if_neg apart]⟩
  · obtain ⟨_, same⟩ := set_eq_error refused
    exact ⟨by rw [offer, refused], _, same, undefined_iff operator.kind slot value⟩

/-- Those without a way out, under a name. -/
def deadEnds : Operator :=
  let onward : Operator := ⟨.expand { ExpandArguments.empty with direction := some .outgoing }, none⟩
  ⟨.apply (some [onward]) none (some .anti), some (.written "ends")⟩

theorem deadEnds_cells : ∃ after error, deadEnds.set .joinKind (.joinKind .semi) = .ok after ∧
    after.get? .joinKind = some (.joinKind .semi) ∧ after.get? .subCollection = deadEnds.get? .subCollection ∧
    after.tag = deadEnds.tag ∧
    deadEnds.set .limit (.int 3) = .error error ∧ deadEnds.offer (.limit, .int 3) = deadEnds ∧
    (∃ fault, error = .illegalSlot .apply .limit fault ∧ "not defined".toList <:+: fault.message.toList) ∧
    deadEnds.rebuilt = .ok deadEnds := by
  obtain ⟨-, -, writes, refuses, -, whole⟩ := slots_are_cells deadEnds
  have written : deadEnds.set .joinKind (.joinKind .semi) = .ok _ := rfl
  have refused : deadEnds.set .limit (.int 3) = .error _ := rfl
  obtain ⟨-, tag, own, others⟩ := writes _ _ _ written
  obtain ⟨same, fault, given, told⟩ := refuses _ _ _ refused
  exact ⟨_, _, written, own, others .subCollection (by decide), tag, refused, same,
    ⟨fault, given, told.mpr rfl⟩, whole⟩

end Operator

end TraversalPlanner
