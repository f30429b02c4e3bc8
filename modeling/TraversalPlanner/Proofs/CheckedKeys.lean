import TraversalPlanner.Proofs.Placing
import TraversalPlanner.Proofs.ScanFusion
import TraversalPlanner.Proofs.SchemaFilter
import TraversalPlanner.Proofs.WrittenKeys

/-! What a schema has to know of the properties that a traversal names. A key that stands in an expression is checked
as it is read from there, so the schema knows what can be read of it. -/

namespace TraversalPlanner

open Proofs Expression

/-- The properties that a step reads of the elements it gets. -/
def Action.keys : Action → List String
  | .has filters => filters.map Filter.key
  | .values keys => keys
  | .valueMap keys => keys
  | _ => []

namespace ScanDraft

/-- Behind a scan a step is either taken in or stands in what the scan leaves. -/
theorem left_splits (draft : ScanDraft) (before : List Step) (step : Step) (after : List Step) :
    draft.left (before ++ [step]) = [] ∨
      ∃ front rest, before = front ++ rest ∧ draft.left (before ++ step :: after) = rest ++ step :: after := by
  induction before generalizing draft with
  | nil =>
    cases took : draft.take? step with
    | none => exact .inr ⟨[], [], rfl, by simp only [List.nil_append, left, took]⟩
    | some wider => exact .inl (by simp only [List.nil_append, left, took])
  | cons first before tail =>
    cases took : draft.take? first with
    | none => exact .inr ⟨[], first :: before, rfl, by simp only [List.cons_append, left, took]⟩
    | some wider =>
      rcases tail wider with none | ⟨front, rest, same, onward⟩
      · exact .inl (by simp only [List.cons_append, left, took, none])
      · exact .inr ⟨first :: front, rest, congrArg _ same, by simp only [List.cons_append, left, took, onward]⟩

theorem mem_residue_foldl {filters : List Filter} {filter : Filter} (draft : ScanDraft) (member : filter ∈ filters)
    (other : filter.key ≠ "~id" ∧ filter.key ≠ "~label") : filter ∈ (filters.foldl takeFilter draft).residue := by
  have labels : filter.asksLabels ≠ true := fun asks => other.2 (Filter.lookupLabels_ne_nil (Filter.asksLabels_iff.mp asks)).1
  have ids : filter.asksIds ≠ true := fun asks => other.1 (Filter.lookupIds_ne_nil (Filter.asksIds_iff.mp asks)).1
  have tested : filter ∈ if draft.labels = [] then filters.eraseP Filter.asksLabels else filters := by
    split
    · exact (List.mem_eraseP_of_neg labels).mpr member
    · exact member
  rw [foldl_takeFilter]
  refine List.mem_append_right _ ?_
  simp only
  split
  · exact (List.mem_eraseP_of_neg ids).mpr tested
  · exact tested

/-- A scan tests the keys of the steps that it takes in, but for ids and labels. -/
theorem mem_residue_filled {draft : ScanDraft} {before after : List Step} {step : Step} {key : String}
    (fused : draft.left (before ++ [step]) = []) (named : key ∈ step.action.keys) (other : key ≠ "~id" ∧ key ≠ "~label") :
    key ∈ (draft.filled (before ++ step :: after)).residue.map Filter.key := by
  induction before generalizing draft with
  | nil =>
    cases took : draft.take? step with
    | none =>
      simp only [List.nil_append, left, took] at fused
      cases fused
    | some wider =>
      simp only [List.nil_append, filled, took]
      obtain ⟨tested, _, same⟩ := residue_filled wider after
      obtain ⟨_, ⟨filters, has, become⟩ | ⟨_, has, _, _, _⟩ | ⟨_, has, _, _, _⟩⟩ := take?_cases took
      · rw [has] at named
        obtain ⟨filter, member, rfl⟩ := List.mem_map.mp named
        have residue := mem_residue_foldl draft member other
        rw [same, become]
        exact List.mem_map_of_mem (List.mem_append_left _ residue)
      · rw [has] at named
        cases named
      · rw [has] at named
        cases named
  | cons first before tail =>
    cases took : draft.take? first with
    | none =>
      simp only [List.cons_append, left, took] at fused
      cases fused
    | some wider =>
      simp only [List.cons_append, left, took] at fused
      simp only [List.cons_append, filled, took]
      exact tail fused

end ScanDraft

namespace Traversal

/-- Modulators that are passed over hide no other step. -/
theorem behindModulators_splits (before after : List Step) {step : Step}
    (other : ∀ modifier order, step.action.role ≠ .modulator modifier order) :
    ∃ front rest, before = front ++ rest ∧ behindModulators (before ++ step :: after) = rest ++ step :: after := by
  induction before with
  | nil =>
    refine ⟨[], [], rfl, ?_⟩
    rw [List.nil_append, behindModulators]
    split
    · next modifier order role => exact absurd role (other modifier order)
    · rfl
  | cons first before tail =>
    rw [List.cons_append, behindModulators]
    split
    · obtain ⟨front, rest, same, onward⟩ := tail
      exact ⟨first :: front, rest, congrArg _ same, onward⟩
    · exact ⟨[], first :: before, rfl, rfl⟩

theorem Fused.further {before : List Step} {step : Step} (fused : Fused before step) (front : List Step) :
    Fused (front ++ before) step := by
  obtain ⟨earlier, look, between, target, ids, same, role, taken⟩ := fused
  exact ⟨front ++ earlier, look, between, target, ids, by rw [same, List.append_assoc], role, taken⟩

end Traversal

open Traversal

/-- A step that no scan takes in and that modulates nothing stands alone. -/
theorem Cuts.mem_single {steps before after : List Step} {step : Step} {segments : List Segment} (cut : Cuts steps segments)
    (same : steps = before ++ step :: after) (role : step.action.role = .single) (unfused : ¬ Fused before step) :
    .single step.prepared ∈ segments := by
  have modulates {modifier order} : step.action.role ≠ .modulator modifier order := by
    rw [role]
    exact nofun
  induction cut generalizing before with
  | done => simp at same
  | @scan look rest target ids segments looks _ tail =>
    cases before with
    | nil =>
      cases (List.cons.inj same).1
      cases looks.symm.trans role
    | cons first before =>
      cases (List.cons.inj same).1
      have others : rest = before ++ step :: after := (List.cons.inj same).2
      rcases ScanDraft.left_splits (.start target ids look.tag) before step after with fused | ⟨front, left, split, onward⟩
      · exact absurd ⟨[], look, before, target, ids, rfl, looks, fused⟩ unfused
      · refine List.mem_cons_of_mem _ (tail (by rw [others, onward]) fun fused => unfused ?_)
        rw [split]
        exact fused.further (look :: front)
  | @modulated host rest segments hosts _ tail =>
    cases before with
    | nil =>
      cases (List.cons.inj same).1
      cases hosts.symm.trans role
    | cons first before =>
      cases (List.cons.inj same).1
      have others : rest = before ++ step :: after := (List.cons.inj same).2
      obtain ⟨front, left, split, onward⟩ := behindModulators_splits before after fun _ _ => modulates
      refine List.mem_cons_of_mem _ (tail (by rw [others, onward]) fun fused => unfused ?_)
      rw [split]
      exact fused.further (host :: front)
  | @single first rest segments _ _ tail =>
    cases before with
    | nil =>
      cases (List.cons.inj same).1
      exact List.mem_cons_self
    | cons head before =>
      cases (List.cons.inj same).1
      exact List.mem_cons_of_mem _ (tail (List.cons.inj same).2 fun fused => unfused (fused.further [first]))
  | @stray first rest modifier order segments index modulator _ tail =>
    cases before with
    | nil =>
      cases (List.cons.inj same).1
      exact absurd modulator modulates
    | cons head before =>
      cases (List.cons.inj same).1
      exact List.mem_cons_of_mem _ (tail (List.cons.inj same).2 fun fused => unfused (fused.further [first]))

namespace Traversal

/-- The keys that stand in one expression, in their order. -/
inductive Writes : List Step → List String → Prop
  | alone {before step after} (unfused : ¬ Fused before step) : Writes (before ++ step :: after) step.action.keys
  | scan {before look after target ids} (role : look.action.role = .lookup target ids) :
      Writes (before ++ look :: after) (((ScanDraft.start target ids look.tag).filled after).residue.map Filter.key)

/-- Of all keys only ids and labels may not be written, since they may be looked up. -/
theorem exists_writes {part : List Step} {step : Step} {key : String} (member : step ∈ part) (named : key ∈ step.action.keys)
    (other : key ≠ "~id" ∧ key ≠ "~label") : ∃ keys, Writes part keys ∧ key ∈ keys := by
  obtain ⟨before, after, same⟩ := List.append_of_mem member
  subst same
  by_cases fused : Fused before step
  · obtain ⟨earlier, look, between, target, ids, same, role, taken⟩ := fused
    subst same
    rw [List.append_assoc, List.cons_append]
    exact ⟨_, .scan role, ScanDraft.mem_residue_filled taken named other⟩
  · exact ⟨_, .alone fused, named⟩

end Traversal

namespace Operator

variable {reference : Variable} {text : String} {tag : Option Alias}

/-- Every node that the operator may become reads the reference. -/
def Reads (operator : Operator) (reference : Variable) : Prop :=
  ∀ links op, operator.toNode links = .ok op → reference ∈ op.references

theorem reads_select (found : reference ∈ referencesOf text) : Reads ⟨select text, tag⟩ reference := by
  intro links op lowered
  simp only [toNode, select, present, bind, Except.bind] at lowered
  split at lowered
  · cases lowered
  · cases lowered
    exact found

theorem reads_projectOne (found : reference ∈ referencesOf text) : Reads ⟨projectOne text, tag⟩ reference := by
  intro links op lowered
  cases tag with
  | none | some =>
    cases lowered
    simpa [NodeOp.references] using found

theorem reads_scan {args : ScanArguments} (tests : args.predicate = some text) (found : reference ∈ referencesOf text) :
    Reads ⟨.scan args, tag⟩ reference := by
  intro links op lowered
  simp only [toNode, scanNode, bind_eq_ok] at lowered
  obtain ⟨target, _, lowered⟩ := lowered
  split at lowered
  · cases lowered
  · obtain ⟨_, _, lowered⟩ := bind_eq_ok.mp lowered
    cases lowered
    simpa [NodeOp.references, NodeOp.TableRead.references, tests] using found

end Operator

namespace Traversal

open Operator

theorem read_alone {step : Step} {operator : Operator} {before after : List String} {key : String}
    (built : ofSingle step.prepared = .ok operator) (keys : step.action.keys = before ++ key :: after)
    (unquoted : ∀ other ∈ before, Unquoted other) (legible : stem key ≠ "") :
    operator.Reads (Variable.ofKey (stem key)) := by
  obtain ⟨action, tag⟩ := step
  cases action with
  | has filters =>
    simp only [ofSingle, Step.prepared, ofFilters, bind_eq_ok] at built
    obtain ⟨_, ⟨texts, written, same⟩, done⟩ := built
    cases same
    cases done
    exact reads_select (stem_found_conjunction written keys unquoted legible)
  | values names =>
    change names = _ at keys
    cases before with
    | nil =>
      cases after with
      | nil =>
        subst keys
        cases built
        exact reads_projectOne (stem_found_single legible)
      | cons next after =>
        subst keys
        cases built
    | cons first before =>
      subst keys
      cases before <;> cases built
  | valueMap names =>
    change names = _ at keys
    subst keys
    have made : operator =
        ⟨projectOne (Projection.braces ((before ++ key :: after).map Variable.ofKey)), tag.map Alias.written⟩ := by
      cases before with
      | nil | cons => cases built; rfl
    rw [made]
    exact reads_projectOne (stem_found_braces unquoted legible)
  | _ => simp [Action.keys] at keys

theorem Writes.read {part : Traversal} {keys before after : List String} {key : String} {operators : List Operator}
    (writes : Writes part keys) (same : keys = before ++ key :: after) (built : part.build = .ok operators)
    (unquoted : ∀ other ∈ before, Unquoted other) (legible : stem key ≠ "") :
    ∃ operator ∈ operators, operator.Reads (Variable.ofKey (stem key)) := by
  cases writes with
  | @alone earlier step later unfused =>
    have role : step.action.role = .single := by
      obtain ⟨action, tag⟩ := step
      cases action with
      | has | values | valueMap => rfl
      | _ => simp [Action.keys] at same
    obtain ⟨segments, cut, made⟩ := build_eq_ok.mp built
    obtain ⟨operator, member, done⟩ := mapM_result made (cut.mem_single rfl role unfused)
    exact ⟨operator, member, read_alone done same unquoted legible⟩
  | @scan earlier look later target ids role =>
    obtain ⟨_, operators, _, second, whole⟩ := build_append (fresh_of_lookup role) built
    obtain ⟨segments, cut, made⟩ := build_eq_ok.mp second
    cases cut with
    | scan again _ =>
      cases role.symm.trans again
      obtain ⟨operator, member, done⟩ := mapM_result made List.mem_cons_self
      obtain ⟨args, writes, made⟩ := ScanDraft.ofScan_eq_ok done
      obtain ⟨text, tested, predicate⟩ := writes.residue
      obtain ⟨texts, written, conjoined⟩ := bind_eq_ok.mp tested
      cases conjoined
      have some : ((ScanDraft.start target ids look.tag).filled later).residue.isEmpty = false := by
        rw [Bool.eq_false_iff, ne_eq, List.isEmpty_iff]
        intro none
        rw [none] at same
        simp at same
      rw [some, if_neg Bool.false_ne_true] at predicate
      refine ⟨operator, whole ▸ List.mem_append_right _ member, ?_⟩
      rw [made]
      exact reads_scan predicate (stem_found_conjunction written same unquoted legible)
    | modulated again | single again | stray _ again => cases role.symm.trans again

end Traversal

namespace Assembly

variable {schema : Schema}

/-- The node of the operator, whichever it has become, reads only properties that the schema knows. -/
def Vouched (schema : Schema) (operator : Operator) : Prop :=
  ∃ links op, operator.toNode links = .ok op ∧
    ∀ reference ∈ op.references, ∀ name, reference.property = some (.key name) → schema.knowsProperty name = true

/-- A node only enters a plan if the schema knows the properties it reads. -/
theorem vouches : Attests PlanGraph.accumulator (fun assembly => assembly.store.schema = some schema) (Vouched schema) := by
  intro parent scope operator links before kept
  refine placeLinked_ends_of_checks (fun _ _ => kept) (fun _ _ _ _ => kept) fun op own plan lowered entered => ?_
  have appends : before.store.Appends op _ _ := PlanGraph.enter_appends (op.inputs parent) scope
  rw [entered] at appends
  cases appends with
  | grown _ _ known _ =>
    have same : before.store.under (some schema) = before.store := by rw [PlanGraph.under, ← kept]
    rw [← same, PlanGraph.checkSchema_eq_ok] at known
    refine ⟨?_, links, op, lowered, known.2⟩
    cases operator.trailing <;> exact kept

end Assembly

namespace Compiler

open Traversal

/-- What can be read of a key that comes behind no quote in its expression is nothing, an id, a label or a property
that the schema knows. So the schema knows all keys that can be read as a whole. -/
theorem compiled_keys_known {deployment : Deployment} {schema : Schema} {traversal : Traversal} {compiled : Compiled}
    (done : compile deployment (some schema) traversal = .ok compiled) : ∀ part ∈ traversal.parts,
      (∀ step ∈ part, ∀ key ∈ step.action.keys, key ≠ "~id" ∧ key ≠ "~label" → ∃ keys, Writes part keys ∧ key ∈ keys) ∧
      ∀ before key after, Writes part (before ++ key :: after) → (∀ other ∈ before, Unquoted other) →
        (stem key ∈ ["", "~id", "~label"] ∨ schema.knowsProperty (stem key) = true) ∧
          (key ∉ ["", "~id", "~label"] → (∀ c ∈ key.toList, isPropertyCharacter c = true) →
            schema.knowsProperty key = true) := by
  intro part nested
  refine ⟨fun step member key named other => exists_writes member named other, fun before key after writes unquoted => ?_⟩
  obtain ⟨plan, ⟨operators, placed, assembly, built, ran, _⟩, _⟩ := assembles_of_compile done
  obtain ⟨level, within, made⟩ := related_right (builds_levels built) nested
  have stemmed : stem key ∈ ["", "~id", "~label"] ∨ schema.knowsProperty (stem key) = true := by
    by_cases special : stem key ∈ ["", "~id", "~label"]
    · exact .inl special
    simp only [List.mem_cons, List.not_mem_nil, or_false, not_or] at special
    obtain ⟨legible, noId, noLabel⟩ := special
    obtain ⟨operator, member, reads⟩ := writes.read rfl made unquoted legible
    have vouched := (Assembly.placeFrom_attests Assembly.vouches rfl).answer ran
    obtain ⟨links, op, lowered, known⟩ := vouched.2 operator ⟨level, within, member⟩
    refine .inr (known _ (reads links op lowered) (stem key) ?_)
    simp [Variable.ofKey, Property.ofName, noId, noLabel]
  refine ⟨stemmed, fun other plain => ?_⟩
  rw [stem_eq_self plain] at stemmed
  exact stemmed.resolve_left other

/-- Looks people up by their names. -/
def namesakes : Traversal := (Traversal.vertices []).add (.has [⟨"name", some ⟨.eq, .text "marko"⟩⟩])

theorem namesakes_keys_known : ∃ compiled, compile .standalone (some people) namesakes = .ok compiled ∧
    Writes namesakes ["name"] ∧ people.knowsProperty "name" = true := by
  have passes : (compile .standalone (some people) namesakes).isOk = true := by decide +kernel
  obtain ⟨compiled, done⟩ := ok_of_isOk passes
  have writes : Writes namesakes ([] ++ "name" :: []) := @Writes.scan [] ⟨.vertices [], none⟩ _ _ _ rfl
  have known := (compiled_keys_known done namesakes List.mem_cons_self).2 [] "name" [] writes nofun
  exact ⟨compiled, done, writes, known.2 (by decide) (List.all_eq_true.mp (by decide))⟩

/-- Asks for a property of which only the first half is known. -/
def salaries : Traversal := (Traversal.vertices []).add (.values ["name.salary"])

/-- Hides the second key from the scan with the quote in the first. -/
def hiddenSalaries : Traversal :=
  (Traversal.vertices []).add (.has [⟨"name\"", none⟩, ⟨"salary", some ⟨.eq, .text "high"⟩⟩])

theorem salaries_compile_unknown :
    (people.knowsProperty "name.salary" = false ∧ (compile .standalone (some people) salaries).isOk = true) ∧
      people.knowsProperty "salary" = false ∧ (compile .standalone (some people) hiddenSalaries).isOk = true := by
  decide +kernel

end Compiler

end TraversalPlanner
