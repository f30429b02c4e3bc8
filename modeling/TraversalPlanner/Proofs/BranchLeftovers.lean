import TraversalPlanner.Proofs.NodeCounts
import TraversalPlanner.Proofs.Permanence
import TraversalPlanner.Proofs.Refusals
import TraversalPlanner.Proofs.TwinRuns

/-! What a branching operator leaves behind when its parts have entered the plan and it is refused itself. Its
arguments are checked before the parts, and its node reads no tags or tables, so all that can still be wrong is what
it is to stand under. Only a union has a say in that: without a parent, an empty branch of it ends nowhere, which is
found out when the other branches are in. -/

namespace TraversalPlanner

open Proofs

namespace Operator

/-- A union with a branch that is empty and one that is not. -/
def Gapped (operator : Operator) : Prop :=
  ∃ branches parents tag, operator = ⟨.union (some branches) parents, tag⟩ ∧ [] ∈ branches ∧ ∃ branch ∈ branches, branch ≠ []

variable {links : Links} {tag : Option Alias}

/-- The sub-plan's root is all that an apply lacks when it has been checked. -/
theorem toNode_of_checked_apply {sub : List Operator} {subRoot : Option Int32} {join : Option JoinKind} {root : Int}
    (passed : checkBranching ⟨.apply (some sub) subRoot join, tag⟩ = .ok ()) (given : links.subRoot = some root)
    (there : 0 ≤ root) : ∃ kind, toNode ⟨.apply (some sub) subRoot join, tag⟩ links = .ok (.apply kind root none) := by
  cases tag with
  | some name => cases passed
  | none =>
    cases join with
    | none => cases passed
    | some kind =>
      refine ⟨kind, ?_⟩
      simp only [toNode, refuseAlias, present, given]
      change (if root < 0 then _ else _ : Except Error (NodeOp Int)) = _
      exact if_neg (Int.not_lt.mpr there)

theorem toNode_of_joined {branches : Option (List (List Operator))} {parents : Option (List Int32)} {lasts : List Int}
    (given : links.parents = some lasts) (joined : lasts ≠ []) :
    toNode ⟨.union branches parents, tag⟩ links = .ok (.union lasts) := by
  have filled : lasts.isEmpty = false := List.isEmpty_eq_false_iff.mpr joined
  simp only [toNode, Operator.filled, given, present]
  change (if lasts.isEmpty = true then _ else _ : Except Error (List Int)) >>= _ = _
  rw [filled]
  rfl

theorem checkBranching_union {branches : List (List Operator)} {parents : Option (List Int32)} (filled : branches ≠ []) :
    checkBranching ⟨.union (some branches) parents, tag⟩ = .ok () :=
  if_neg (by simpa using filled)

end Operator

namespace PlanGraph

variable {plan after : PlanGraph} {op : NodeOp Int} {inputs : List Int} {scope : Int} {refusal : Refusal}

/-- A node that has nothing to look up in the schema or among the tags. -/
structure Blank (op : NodeOp Int) : Prop where
  tables : tablesOf op = ([], false)
  references : op.references = []

theorem Blank.checkSchema (blank : Blank op) : plan.checkSchema op = .ok () := by
  unfold PlanGraph.checkSchema checkAgainst
  cases plan.schema with
  | none => rfl
  | some schema =>
    rw [blank.tables, blank.references]
    rfl

theorem Blank.checkTags {visible : List Identifier} (blank : Blank op) : checkTags visible op = .ok () := by
  rw [checkTags_eq_ok, blank.references]
  exact List.forall_mem_nil _

/-- Such a node is refused for what it is to stand under or not at all. -/
theorem Blank.enter_refused (blank : Blank op) (kept : plan.released = false)
    (refused : plan.enter op inputs scope = .error refusal) : plan.footing inputs scope = .error refusal := by
  have appends : plan.Appends op _ _ := enter_appends inputs scope
  rw [refused] at appends
  cases appends with
  | released gone => cases kept.symm.trans gone
  | groundless groundless => exact groundless
  | schema unknown => cases blank.checkSchema.symm.trans unknown
  | tags _ unseen => cases blank.checkTags.symm.trans unseen

/-- A plan that has nodes has none with the number `-1`. -/
theorem footing_negative (each : ∀ input ∈ inputs, plan.Knows input) (knowsScope : plan.Knows scope) (begun : 0 < plan.size)
    (several : inputs ≠ [-1]) (detached : -1 ∈ inputs) : plan.footing inputs scope = .error .negativeIndex := by
  cases stands : plan.footing inputs scope with
  | error refusal => rw [(footing_refused each knowsScope stands).1]
  | ok ground =>
    rw [footing, if_neg several, PlanGraph.ground] at stands
    cases resolved : plan.resolveAll inputs with
    | error refusal =>
      rw [resolved] at stands
      cases stands
    | ok found =>
      have there : plan.nodes ≠ [] := List.ne_nil_of_length_pos begun
      rcases (resolveAll_eq_ok resolved).2 with ⟨_, none | alone⟩ | same
      · exact absurd none there
      · exact absurd alone several
      · rw [same] at detached
        obtain ⟨id, _, negative⟩ := List.mem_map.mp detached
        omega

/-- More nodes have been put in, the given one among them, and there may be further ones. -/
structure Continued (plan after : PlanGraph) (id : Int) : Prop where
  behind : (plan.size : Int) ≤ id
  inside : id < after.size
  kept : after.released = false

theorem Continued.of_le {older : PlanGraph} {id : Int} (continued : plan.Continued after id) (grown : older.size ≤ plan.size) :
    older.Continued after id where
  behind := Int.le_trans (Int.ofNat_le.mpr grown) continued.behind
  inside := continued.inside
  kept := continued.kept

theorem continued_bindBehind {own : Nat} {older : PlanGraph} (newest : plan.size = own + 1) (kept : plan.released = false)
    (grown : older.size ≤ own) (trailing : Option Identifier) :
    older.Continued (plan.bindBehind own trailing).2 own ∧
      older.Continued (plan.bindBehind own trailing).2 (plan.bindBehind own trailing).1 := by
  cases trailing with
  | none =>
    have continued : older.Continued plan own := ⟨by omega, by omega, kept⟩
    exact ⟨continued, continued⟩
  | some tag =>
    have size : (plan.bindBehind own (some tag)).2.size = plan.size + 1 := size_grow _ _
    have last : (plan.bindBehind own (some tag)).1 = plan.size := rfl
    exact ⟨⟨by omega, by omega, kept⟩, by omega, by omega, kept⟩

theorem Continued.size_lt {id : Int} (continued : plan.Continued after id) : plan.size < after.size :=
  Int.ofNat_lt.mp (Int.lt_of_le_of_lt continued.behind continued.inside)

end PlanGraph

namespace Assembly

open Assembling

section Parts

variable {σ : Type} {accumulator : Accumulator σ} {parent scope : Int} {operator : Operator} {before : Assembly σ}

/-- Appends the operators in one and gives the nodes that it will refer to. -/
def placeParts (accumulator : Accumulator σ) (parent scope : Int) (operator : Operator) : Assembling σ Links :=
  match operator.args with
  | .apply (some sub) _ _ => do
    let first ← placeFrom accumulator none (-1) (if 0 ≤ parent then parent else scope) sub
    return { operator.links with subRoot := some first.1 }
  | .union (some branches) _ => do
    let lasts ← placeBranches accumulator parent scope branches
    return { operator.links with parents := some lasts }
  | _ => return operator.links

theorem placeParts_bare (bare : operator.Bare) : placeParts accumulator parent scope operator = pure operator.links := by
  obtain ⟨args, tag⟩ := operator
  unfold placeParts
  split
  · next sub subRoot join same => exact absurd (congrArg (Operator.mk · tag) same) (bare.1 sub subRoot join tag)
  · next branches parents same => exact absurd (congrArg (Operator.mk · tag) same) (bare.2 branches parents tag)
  · rfl

/-- An operator is placed behind its parts. -/
theorem place_eq_parts : place accumulator parent scope operator = (do
    checkOpen
    operator.checkBranching
    let links ← placeParts accumulator parent scope operator
    placeLinked accumulator parent scope operator links) := by
  rcases operator.bare_or_branching with bare | ⟨sub, subRoot, join, tag, rfl⟩ | ⟨branches, parents, tag, rfl⟩
  · rw [place.eq_3 _ _ _ _ bare.1 bare.2, placeParts_bare bare, pure_bind]
  · rw [place.eq_1]
    simp only [placeParts, bind_assoc, pure_bind]
  · rw [place.eq_2]
    simp only [placeParts, bind_assoc, pure_bind]

/-- Where the parts enter, the operator is checked before them and its node put in behind them. -/
theorem run_append_of_parts {links : Links} {inner : Assembly σ} (opened : before.state ≠ .closed)
    (entered : (placeParts accumulator parent (-1) operator).run before = (.ok links, inner)) :
    (append accumulator parent operator).run before =
      match operator.checkBranching with
      | .error error => (.error error, before)
      | .ok _ => ((placeLinked accumulator parent (-1) operator links) >>= fun placed => pure placed.2).run inner := by
  have checked (outcome : Except Error Unit) :
      (liftM outcome : Assembling σ Unit).run before = (outcome, before) := by
    cases outcome <;> rfl
  rw [append, place_eq_parts]
  simp only [bind_assoc, run_bind, run_checkOpen opened, checked]
  cases operator.checkBranching with
  | error error => rfl
  | ok _ => simp only [entered]

end Parts

variable {parent scope : Int} {operator : Operator} {before : Assembly PlanGraph}

theorem placeLinked_continued {links : Links} : (placeLinked PlanGraph.accumulator parent scope operator links).Ends before
    (fun placed after => before.store.Continued after.store placed.1 ∧ before.store.Continued after.store placed.2)
    fun _ _ => True := by
  refine placeLinked_ends_of_checks (fun _ _ => trivial) (fun _ _ _ _ => trivial) fun op own plan _ entered => ?_
  obtain ⟨rfl, _, kept⟩ := PlanGraph.lt_size_of_enter entered
  obtain ⟨_, parents, visible, rfl⟩ := PlanGraph.grown_of_enter entered
  exact PlanGraph.continued_bindBehind (PlanGraph.size_grow parents visible) kept (Nat.le_refl _) operator.trailing

theorem place_continued : (place PlanGraph.accumulator parent scope operator).Ends before
    (fun placed after => before.store.Continued after.store placed.1 ∧ before.store.Continued after.store placed.2)
    fun _ _ => True := by
  refine place_ends_behind fun _ _ houses => ?_
  refine placeLinked_continued.weaken (fun _ _ held => ?_) fun _ _ _ => trivial
  exact ⟨held.1.of_le houses.size_le, held.2.of_le houses.size_le⟩

/-- What a chain comes to: an empty one leaves everything as it is, and any other ends at a node of its own. -/
inductive Chained (before : Assembly PlanGraph) (first : Option Int) (parent : Int) :
    List Operator → Int × Int → Assembly PlanGraph → Prop
  | none : Chained before first parent [] (first.getD parent, parent) before
  | some {operators own last after} (filled : operators ≠ []) (front : first.getD before.store.size ≤ own)
      (back : before.store.Continued after.store last) : Chained before first parent operators (own, last) after

theorem placeFrom_chained {first : Option Int} {operators : List Operator} :
    (placeFrom PlanGraph.accumulator first parent scope operators).Ends before
      (fun placed after => Chained before first parent operators placed after) fun _ _ => True := by
  induction operators generalizing first parent before with
  | nil => exact .pure .none
  | cons operator rest later =>
    refine placeFrom_cons_ends place_continued fun own last middle held => ?_
    obtain ⟨front, back⟩ := held
    refine later.weaken (fun placed after chained => ?_) fun _ _ _ => trivial
    cases chained with
    | none =>
      refine .some (List.cons_ne_nil operator []) ?_ back
      cases first with
      | none => exact front.behind
      | some given => exact Int.le_refl given
    | some _ further continued =>
      refine .some (List.cons_ne_nil operator rest) ?_ (continued.of_le (Nat.le_of_lt back.size_lt))
      cases first with
      | none => exact Int.le_trans front.behind further
      | some given => exact further

/-- What branches come to: each ends at a node of its own or, if it is empty, where it was to begin. -/
structure Branched (before : Assembly PlanGraph) (parent : Int) (branches : List (List Operator)) (lasts : List Int)
    (after : Assembly PlanGraph) : Prop where
  ends : List.Forall₂ (fun branch last => branch = [] ∧ last = parent ∨ branch ≠ [] ∧ 0 ≤ last ∧ last < after.store.size)
    branches lasts
  grown : (∀ branch ∈ branches, branch = []) ∧ after = before ∨
    (∃ branch ∈ branches, branch ≠ []) ∧ before.store.size < after.store.size ∧ after.store.released = false

theorem placeBranches_branched {branches : List (List Operator)} :
    (placeBranches PlanGraph.accumulator parent scope branches).Ends before
      (fun lasts after => Branched before parent branches lasts after) fun _ _ => True := by
  induction branches generalizing before with
  | nil => exact .pure ⟨.nil, .inl ⟨List.forall_mem_nil _, rfl⟩⟩
  | cons branch rest later =>
    refine placeBranches_cons_ends placeFrom_chained fun first last middle chained => ?_
    refine later.weaken (fun lasts after branched => ?_) fun _ _ _ => trivial
    cases chained with
    | none =>
      refine ⟨.cons (.inl ⟨rfl, rfl⟩) branched.ends, ?_⟩
      rcases branched.grown with ⟨none, same⟩ | ⟨⟨other, member, filled⟩, grown⟩
      · exact .inl ⟨List.forall_mem_cons.mpr ⟨rfl, none⟩, same⟩
      · exact .inr ⟨⟨other, List.mem_cons_of_mem _ member, filled⟩, grown⟩
    | some filled _ continued =>
      have behind := continued.behind
      have inside := continued.inside
      have size := continued.size_lt
      have one : ∃ other ∈ branch :: rest, other ≠ [] := ⟨branch, List.mem_cons_self, filled⟩
      rcases branched.grown with ⟨_, rfl⟩ | ⟨_, grown, kept⟩
      · exact ⟨.cons (.inr ⟨filled, by omega, inside⟩) branched.ends, .inr ⟨one, size, continued.kept⟩⟩
      · exact ⟨.cons (.inr ⟨filled, by omega, by omega⟩) branched.ends, .inr ⟨one, by omega, kept⟩⟩

variable {inner after : Assembly PlanGraph} {links : Links} {error : Error}

/-- An operator that is refused when its parts are in has passed its checks. -/
theorem refused_behind_parts (opened : before.state ≠ .closed)
    (entered : (placeParts PlanGraph.accumulator parent (-1) operator).run before = (.ok links, inner))
    (failed : (append PlanGraph.accumulator parent operator).run before = (.error error, after)) :
    after = before ∨ after = inner ∧ operator.checkBranching = .ok () ∧
      ∀ op, operator.toNode links = .ok op → ∃ refusal, inner.store.enter op (op.inputs parent) (-1) = .error refusal := by
  rw [run_append_of_parts opened entered] at failed
  cases checked : operator.checkBranching with
  | error fault =>
    rw [checked] at failed
    cases failed
    exact .inl rfl
  | ok _ =>
    rw [checked] at failed
    simp only [run_bind, run_placeLinked] at failed
    cases lowered : operator.toNode links with
    | error fault =>
      rw [lowered] at failed
      cases failed
      exact .inr ⟨rfl, rfl, nofun⟩
    | ok op =>
      rw [lowered] at failed
      cases ended : inner.store.enter op (op.inputs parent) (-1) with
      | error refusal =>
        simp only [ended, settle] at failed
        cases failed
        refine .inr ⟨rfl, rfl, fun other same => ?_⟩
        cases same
        exact ⟨refusal, ended⟩
      | ok grown =>
        simp only [ended, settle] at failed
        cases failed

theorem Branched.knows {branches : List (List Operator)} {lasts : List Int} {last : Int}
    (branched : Branched before parent branches lasts after) (knows : before.store.Knows parent) (member : last ∈ lasts) :
    after.store.Knows last := by
  obtain ⟨_, _, ⟨_, same⟩ | ⟨_, there, inside⟩⟩ := related_left branched.ends member
  · rw [same]
    rcases branched.grown with ⟨_, unchanged⟩ | ⟨_, grown, _⟩
    · rwa [unchanged]
    · exact knows.mono (Nat.le_of_lt grown)
  · exact PlanGraph.knows_of_inside there inside

/-- Only an empty branch of a union without a parent ends nowhere. -/
theorem Branched.gap {branches : List (List Operator)} {lasts : List Int}
    (branched : Branched before parent branches lasts after) (nowhere : -1 ∈ lasts) : parent = -1 ∧ [] ∈ branches := by
  obtain ⟨_, member, ⟨rfl, same⟩ | ⟨_, there, _⟩⟩ := related_left branched.ends nowhere
  · exact ⟨same.symm, member⟩
  · exact absurd there (by decide)

theorem Branched.nowhere {branches : List (List Operator)} {lasts : List Int}
    (branched : Branched before (-1) branches lasts after) (empty : [] ∈ branches)
    (filled : ∃ branch ∈ branches, branch ≠ []) : -1 ∈ lasts ∧ lasts ≠ [-1] := by
  constructor
  · obtain ⟨_, listed, ⟨_, rfl⟩ | ⟨some, _⟩⟩ := related_right branched.ends empty
    · exact listed
    · exact absurd rfl some
  · rintro rfl
    obtain ⟨branch, member, some⟩ := filled
    obtain ⟨last, listed, ⟨none, _⟩ | ⟨_, there, _⟩⟩ := related_right branched.ends member
    · exact absurd none some
    · rw [List.mem_singleton.mp listed] at there
      exact absurd there (by decide)

/-- The parts of an apply are a chain, and those of a union are its branches. -/
theorem chained_of_parts {sub : List Operator} {subRoot : Option Int32} {join : Option JoinKind} {tag : Option Alias}
    (entered : (placeParts PlanGraph.accumulator parent scope ⟨.apply (some sub) subRoot join, tag⟩).run before =
      (.ok links, inner)) : ∃ placed, links.subRoot = some placed.1 ∧ Chained before none (-1) sub placed inner := by
  have ends : (placeParts PlanGraph.accumulator parent scope ⟨.apply (some sub) subRoot join, tag⟩).Ends before
      (fun links inner => ∃ placed, links.subRoot = some placed.1 ∧ Chained before none (-1) sub placed inner)
      fun _ _ => True :=
    placeFrom_chained.bind _ fun placed _ chained => .pure ⟨placed, rfl, chained⟩
  exact ends.answer entered

theorem branched_of_parts {branches : List (List Operator)} {parents : Option (List Int32)} {tag : Option Alias}
    (entered : (placeParts PlanGraph.accumulator parent scope ⟨.union (some branches) parents, tag⟩).run before =
      (.ok links, inner)) : ∃ lasts, links.parents = some lasts ∧ Branched before parent branches lasts inner := by
  have ends : (placeParts PlanGraph.accumulator parent scope ⟨.union (some branches) parents, tag⟩).Ends before
      (fun links inner => ∃ lasts, links.parents = some lasts ∧ Branched before parent branches lasts inner)
      fun _ _ => True :=
    placeBranches_branched.bind _ fun lasts _ branched => .pure ⟨lasts, rfl, branched⟩
  exact ends.answer entered

theorem leaves_nothing_of_apply {sub : List Operator} {subRoot : Option Int32} {join : Option JoinKind} {tag : Option Alias}
    (opened : before.state ≠ .closed) (knows : before.store.Knows parent)
    (entered : (placeParts PlanGraph.accumulator parent (-1) ⟨.apply (some sub) subRoot join, tag⟩).run before =
      (.ok links, inner))
    (failed : (append PlanGraph.accumulator parent ⟨.apply (some sub) subRoot join, tag⟩).run before = (.error error, after)) :
    after = before := by
  rcases refused_behind_parts opened entered failed with same | ⟨rfl, passed, refused⟩
  · exact same
  obtain ⟨placed, given, chained⟩ := chained_of_parts entered
  cases chained with
  | none => rfl
  | @some _ own _ _ _ front back =>
    -- A node that stands under a node that is there is not refused.
    obtain ⟨kind, lowered⟩ := Operator.toNode_of_checked_apply passed given (Int.le_trans (Int.natCast_nonneg _) front)
    obtain ⟨refusal, refused⟩ := refused _ lowered
    have blank : PlanGraph.Blank (.apply kind own none) := ⟨rfl, rfl⟩
    have groundless := blank.enter_refused back.kept refused
    have each : ∀ input ∈ [parent], after.store.Knows input :=
      List.forall_mem_singleton.mpr (knows.mono (Nat.le_of_lt back.size_lt))
    obtain ⟨_, several, detached⟩ := PlanGraph.footing_refused each (.inl rfl) groundless
    exact absurd (congrArg List.singleton (List.mem_singleton.mp detached).symm) several

theorem leaves_nothing_of_union {branches : List (List Operator)} {parents : Option (List Int32)} {tag : Option Alias}
    (opened : before.state ≠ .closed) (knows : before.store.Knows parent)
    (entered : (placeParts PlanGraph.accumulator parent (-1) ⟨.union (some branches) parents, tag⟩).run before =
      (.ok links, inner))
    (joined : ¬ (parent = -1 ∧ [] ∈ branches ∧ ∃ branch ∈ branches, branch ≠ []))
    (failed : (append PlanGraph.accumulator parent ⟨.union (some branches) parents, tag⟩).run before = (.error error, after)) :
    after = before := by
  rcases refused_behind_parts opened entered failed with same | ⟨rfl, passed, refused⟩
  · exact same
  obtain ⟨lasts, given, branched⟩ := branched_of_parts entered
  rcases branched.grown with ⟨_, same⟩ | ⟨filled, _, kept⟩
  · exact same
  have ends : lasts ≠ [] := by
    rintro rfl
    obtain ⟨branch, member, _⟩ := filled
    obtain ⟨_, listed, _⟩ := related_right branched.ends member
    cases listed
  obtain ⟨refusal, refused⟩ := refused _ (Operator.toNode_of_joined given ends)
  have blank : PlanGraph.Blank (.union lasts) := ⟨rfl, rfl⟩
  obtain ⟨_, _, nowhere⟩ := PlanGraph.footing_refused (fun _ => branched.knows knows) (.inl rfl)
    (blank.enter_refused kept refused)
  obtain ⟨detached, empty⟩ := branched.gap nowhere
  exact absurd ⟨detached, empty, filled⟩ joined

/-- A union that goes on from nowhere in one of its branches finds that out when the others are in. -/
theorem run_append_gapped {branches : List (List Operator)} {parents : Option (List Int32)} {tag : Option Alias}
    (opened : before.state ≠ .closed) (empty : [] ∈ branches) (filled : ∃ branch ∈ branches, branch ≠ [])
    (entered : (placeParts PlanGraph.accumulator (-1) (-1) ⟨.union (some branches) parents, tag⟩).run before =
      (.ok links, inner)) :
    (append PlanGraph.accumulator (-1) ⟨.union (some branches) parents, tag⟩).run before =
      (.error (.appendFailed .union .negativeIndex), inner) ∧ before.store.size < inner.store.size := by
  obtain ⟨lasts, given, branched⟩ := branched_of_parts entered
  obtain ⟨nowhere, several⟩ := branched.nowhere empty filled
  rcases branched.grown with ⟨none, _⟩ | ⟨_, grown, kept⟩
  · obtain ⟨branch, member, some⟩ := filled
    exact absurd (none branch member) some
  refine ⟨?_, grown⟩
  have lowered : Operator.toNode ⟨.union (some branches) parents, tag⟩ links = .ok (.union lasts) :=
    Operator.toNode_of_joined given (List.ne_nil_of_mem nowhere)
  have groundless : inner.store.footing lasts (-1) = .error .negativeIndex :=
    PlanGraph.footing_negative (fun _ => branched.knows (.inl rfl)) (.inl rfl) (Nat.zero_lt_of_lt grown) several nowhere
  have refused : inner.store.enter (.union lasts) (NodeOp.inputs (-1) (.union lasts)) (-1) = .error .negativeIndex := by
    rw [NodeOp.inputs, PlanGraph.enter_eq kept, groundless]
    rfl
  rw [run_append_of_parts opened entered, Operator.checkBranching_union (List.ne_nil_of_mem empty)]
  simp only [run_bind, run_placeLinked, lowered, refused]
  rfl

/-- An operator that is refused although all of its parts have entered the plan leaves it as it was, unless it is a union
without a parent that has empty branches beside others: that one is refused whenever they have entered, and they
stay behind. -/
theorem leaves_nothing_behind {operator : Operator} (opened : before.state ≠ .closed) (knows : before.store.Knows parent)
    (entered : (placeParts PlanGraph.accumulator parent (-1) operator).run before = (.ok links, inner)) :
    (¬ (parent = -1 ∧ operator.Gapped) → ∀ error after,
      (append PlanGraph.accumulator parent operator).run before = (.error error, after) → after = before) ∧
    (parent = -1 → operator.Gapped →
      (append PlanGraph.accumulator parent operator).run before =
        (.error (.appendFailed .union .negativeIndex), inner) ∧ before.store.size < inner.store.size) := by
  constructor
  · intro joined error after failed
    rcases operator.bare_or_branching with bare | ⟨sub, subRoot, join, tag, rfl⟩ | ⟨branches, parents, tag, rfl⟩
    · exact append_whole bare failed
    · exact leaves_nothing_of_apply opened knows entered failed
    · refine leaves_nothing_of_union opened knows entered (fun gapped => joined ?_) failed
      obtain ⟨detached, empty, filled⟩ := gapped
      exact ⟨detached, branches, parents, tag, rfl, empty, filled⟩
  · rintro rfl ⟨branches, parents, tag, rfl, empty, filled⟩
    exact run_append_gapped opened empty filled entered

/-- All vertices, beside nothing at all. -/
def allOrNone : Operator :=
  ⟨.union (some [[], [⟨.scan { ScanArguments.empty with target := some .vertex }, none⟩]]) none, none⟩

/-- Two ways on that lead nowhere. -/
def noneTwice : Operator := ⟨.union (some [[], []]) none, none⟩

theorem allOrNone_left_behind : ∃ links inner,
    (placeParts PlanGraph.accumulator (-1) (-1) allOrNone).run (start (.empty none)) = (.ok links, inner) ∧
    (append PlanGraph.accumulator (-1) allOrNone).run (start (.empty none)) =
      (.error (.appendFailed .union .negativeIndex), inner) ∧
    (start (PlanGraph.empty none)).store.size = 0 ∧ inner.store.size = 1 :=
  ⟨_, _, rfl, rfl, rfl, rfl⟩

theorem noneTwice_leaves_nothing :
    let before := session PlanGraph.accumulator (start (.empty none))
      [.append (-1) ⟨.scan { ScanArguments.empty with target := some .vertex }, none⟩]
    ((append PlanGraph.accumulator (-1) noneTwice).run before = (.error (.appendFailed .union .negativeIndex), before)) ∧
    ∃ inner, (append PlanGraph.accumulator (-1) allOrNone).run before =
      (.error (.appendFailed .union .negativeIndex), inner) ∧ before.store.size < inner.store.size := by
  intro before
  have opened : before.state ≠ .closed := by decide
  constructor
  · have entered : (placeParts PlanGraph.accumulator (-1) (-1) noneTwice).run before =
      (.ok { subRoot := none, parents := some [-1, -1] }, before) := rfl
    have joined : ¬ ((-1 : Int) = -1 ∧ noneTwice.Gapped) := by
      rintro ⟨_, branches, _, _, same, _, branch, member, filled⟩
      cases same
      simp only [List.mem_cons, List.not_mem_nil, or_false, or_self] at member
      exact filled member
    cases ran : (append PlanGraph.accumulator (-1) noneTwice).run before with
    | mk outcome after =>
      have refused : outcome = .error (.appendFailed .union .negativeIndex) := (congrArg Prod.fst ran).symm
      subst refused
      rw [(leaves_nothing_behind opened (.inl rfl) entered).1 joined _ after ran]
  · have gapped : allOrNone.Gapped := ⟨_, _, _, rfl, by simp, _, List.mem_cons_of_mem _ List.mem_cons_self, by simp⟩
    exact ⟨_, (leaves_nothing_behind opened (.inl rfl) rfl).2 rfl gapped⟩

end Assembly

end TraversalPlanner
