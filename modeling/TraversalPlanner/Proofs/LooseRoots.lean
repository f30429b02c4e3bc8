import TraversalPlanner.Proofs.SubPlanRoots

/-! Roots that no apply names. How many there are is seen from the operators: a chain without a parent begins
once, unless it begins with a union whose branches each begin on their own. An apply whose sub-plan begins
with such a union cannot name a root at all. -/

namespace TraversalPlanner

namespace Operator

/-- The first operator's own node is where the operators begin. -/
def Opens : List Operator → Prop
  | ⟨.union (some branches) _, _⟩ :: _ => ∀ branch ∈ branches, branch = []
  | _ => True

mutual
/-- All applies have sub-plans whose first node is their root. -/
def Rooted : Operator → Prop
  | ⟨.apply (some sub) _ _, _⟩ => Opens sub ∧ RootedAll sub
  | ⟨.union (some branches) _, _⟩ => RootedBranches branches
  | _ => True
termination_by structural operator => operator

def RootedAll : List Operator → Prop
  | [] => True
  | operator :: rest => operator.Rooted ∧ RootedAll rest
termination_by structural operators => operators

def RootedBranches : List (List Operator) → Prop
  | [] => True
  | branch :: rest => RootedAll branch ∧ RootedBranches rest
termination_by structural branches => branches
end

mutual
/-- How many roots there are when it has no parent. -/
def entries : Operator → Nat
  | ⟨.union (some branches) _, _⟩ => max 1 (entriesEach branches)
  | _ => 1
termination_by structural operator => operator

def entriesAll : List Operator → Nat
  | [] => 0
  | operator :: _ => operator.entries
termination_by structural operators => operators

def entriesEach : List (List Operator) → Nat
  | [] => 0
  | branch :: rest => entriesAll branch + entriesEach rest
termination_by structural branches => branches
end

theorem one_le_entries (operator : Operator) : 1 ≤ operator.entries := by
  unfold entries
  split <;> omega

theorem entriesAll_eq_zero {operators : List Operator} : entriesAll operators = 0 ↔ operators = [] := by
  cases operators with
  | nil => simp [entriesAll]
  | cons operator rest =>
    have some := operator.one_le_entries
    simp only [entriesAll, reduceCtorEq, iff_false]
    omega

theorem entriesEach_eq_zero {branches : List (List Operator)} :
    entriesEach branches = 0 ↔ ∀ branch ∈ branches, branch = [] := by
  induction branches with
  | nil => simp [entriesEach]
  | cons branch rest step => simp [entriesEach, step, entriesAll_eq_zero]

theorem entriesAll_of_opens {operators : List Operator} (opens : Opens operators) (some : operators ≠ []) :
    entriesAll operators = 1 := by
  cases operators with
  | nil => exact absurd rfl some
  | cons operator rest =>
    simp only [entriesAll]
    unfold entries
    split
    · rw [entriesEach_eq_zero.mpr opens]
      rfl
    · rfl

theorem opens_of_bare {operator : Operator} {rest : List Operator} (bare : operator.Bare) : Opens (operator :: rest) := by
  unfold Opens
  split
  · next branches parents tag _ same =>
    cases same
    exact absurd rfl (bare.2 branches parents tag)
  · trivial

theorem rooted_of_bare {operator : Operator} (bare : operator.Bare) : operator.Rooted := by
  rw [Rooted.eq_3 operator bare.1 bare.2]
  trivial

theorem entries_of_bare {operator : Operator} (bare : operator.Bare) : operator.entries = 1 :=
  entries.eq_2 operator bare.2

end Operator

namespace PlanGraph

variable {plan middle after : PlanGraph} {op : NodeOp Int} {inputs : List Int} {own last id start : Nat} {parents : List Nat}

/-- A root among the nodes from a place on that no apply behind that place names. -/
structure Loose (plan : PlanGraph) (start id : Nat) : Prop where
  new : start ≤ id
  parentless : plan.Parentless id
  unnamed : ∀ apply, start ≤ apply → ¬ plan.Names apply id

/-- An apply names a node that has parents. -/
def Spoiled (plan : PlanGraph) : Prop :=
  ∃ apply root node, plan.Names apply root ∧ plan.nodes[root]? = some node ∧ node.parents ≠ []

theorem Extends.spoiled (grown : plan.Extends after) (spoiled : plan.Spoiled) : after.Spoiled := by
  obtain ⟨apply, root, node, names, found, some⟩ := spoiled
  exact ⟨apply, root, node, grown.names names, grown _ _ found, some⟩

/-- Asked for a node that cannot be there, a node only lands if it becomes a root. -/
theorem Resolves.parentless (resolves : plan.Resolves inputs parents) {input : Int} (asked : input ∈ inputs)
    (negative : input < 0) : parents = [] := by
  rcases resolves.asked with ⟨none, _⟩ | same
  · exact none
  · rw [same] at asked
    obtain ⟨id, _, rfl⟩ := List.mem_map.mp asked
    omega

/-- Asked for nodes that are there, a node gets them. -/
theorem Resolves.parents_eq (resolves : plan.Resolves inputs parents) {input : Int} (asked : input ∈ inputs)
    (positive : 0 ≤ input) (some : plan.nodes ≠ []) : inputs = parents.map fun id : Nat => (id : Int) := by
  rcases resolves.asked with ⟨_, none | root⟩ | same
  · exact absurd none some
  · rw [root, List.mem_singleton] at asked
    omega
  · exact same

theorem Lands.parentless (lands : plan.Lands op inputs own last after) {input : Int} (asked : input ∈ inputs)
    (negative : input < 0) : after.Parentless own := by
  obtain ⟨parents, visible, resolves, found, _⟩ := lands.nodes
  exact ⟨_, found, resolves.parentless asked negative⟩

/-- A root stays loose when a node lands that is no apply. -/
theorem Lands.keeps_loose (lands : plan.Lands op inputs own last after) (apart : op.subRoot? = none)
    (loose : plan.Loose start id) : after.Loose start id where
  new := loose.new
  parentless := lands.extends.parentless loose.parentless
  unnamed := by
    intro apply new names
    by_cases earlier : apply < plan.size
    · exact loose.unnamed apply new (lands.extends.named names earlier)
    · have named := (lands.names names (Nat.le_of_not_lt earlier)).2
      rw [apart] at named
      cases named

end PlanGraph

namespace Cargo

def Rooted : Cargo → Prop
  | .operator single => single.Rooted
  | .chain operators => Operator.RootedAll operators
  | .branches each => Operator.RootedBranches each

def entries : Cargo → Nat
  | .operator single => single.entries
  | .chain operators => Operator.entriesAll operators
  | .branches each => Operator.entriesEach each

end Cargo

namespace Planted

open PlanGraph

variable {plan middle after : PlanGraph} {parent : Int} {cargo : Cargo} {yield : Yield}

/-- A root stays loose when operators are planted behind it. -/
theorem keeps_loose {start id : Nat} (planted : Planted middle parent cargo after yield)
    (loose : middle.Loose start id) : after.Loose start id where
  new := loose.new
  parentless := planted.grows.parentless loose.parentless
  unnamed := by
    intro apply new names
    have old := loose.parentless.lt_size
    by_cases earlier : apply < middle.size
    · exact loose.unnamed apply new (planted.grows.named names earlier)
    · have within := planted.names_within apply id names (Nat.le_of_not_lt earlier)
      omega

/-- The applies planted before a loose root do not name it either. -/
theorem loose_from_start {id : Nat} (planted : Planted plan parent cargo middle yield) (grown : middle.Extends after)
    (loose : after.Loose middle.size id) : after.Loose plan.size id where
  new := Nat.le_trans planted.grows.size_le loose.new
  parentless := loose.parentless
  unnamed := by
    intro apply new names
    by_cases earlier : apply < middle.size
    · have within := planted.names_within apply id (grown.named names earlier) new
      have behind := loose.new
      omega
    · exact loose.unnamed apply (Nat.le_of_not_lt earlier) names

private theorem own_loose {own : Nat} {last : Int} (planted : Planted plan parent cargo after (.ends own last))
    (inside : plan.size ≤ own) (parentless : after.Parentless own) : after.Loose plan.size own :=
  ⟨inside, parentless, fun apply new names => planted.own_unnamed rfl apply own names new rfl⟩

private theorem size_le_own {op : NodeOp Int} {inputs : List Int} {own last : Nat} (grown : plan.Extends middle)
    (lands : middle.Lands op inputs own last after) : plan.size ≤ own := by
  rw [lands.own_eq]
  exact grown.size_le

theorem lasts_of_empty {branches : List (List Operator)} {lasts : List Int}
    (planted : Planted plan parent (.branches branches) after (.lasts lasts)) (empty : ∀ branch ∈ branches, branch = []) :
    ∀ last ∈ lasts, last = parent := by
  have inside : List.Forall₂ _ branches lasts := planted.inside
  clear planted
  induction inside with
  | nil => simp
  | cons first _ step =>
    obtain ⟨none, others⟩ := List.forall_mem_cons.mp empty
    refine List.forall_mem_cons.mpr ⟨?_, step others⟩
    rcases first with ⟨_, same⟩ | ⟨some, _⟩
    · exact same
    · exact absurd none some

theorem eq_of_empty {branches : List (List Operator)} {lasts : List Int}
    (planted : Planted plan parent (.branches branches) after (.lasts lasts)) (empty : ∀ branch ∈ branches, branch = []) :
    after = plan := by
  induction branches generalizing plan lasts with
  | nil => cases planted; rfl
  | cons branch rest step =>
    obtain ⟨none, others⟩ := List.forall_mem_cons.mp empty
    subst none
    cases planted with
    | branch here later =>
      cases here
      exact step later others

theorem last_of_filled {branches : List (List Operator)} {lasts : List Int} {branch : List Operator}
    (planted : Planted plan parent (.branches branches) after (.lasts lasts)) (member : branch ∈ branches)
    (filled : branch ≠ []) : ∃ last ∈ lasts, (plan.size : Int) ≤ last ∧ last < after.size := by
  have inside : List.Forall₂ _ branches lasts := planted.inside
  clear planted
  induction inside with
  | nil => cases member
  | cons first _ step =>
    rcases List.mem_cons.mp member with here | later
    · subst here
      rcases first with ⟨none, _⟩ | ⟨_, inside⟩
      · exact absurd none filled
      · exact ⟨_, List.mem_cons_self, inside⟩
    · obtain ⟨last, found, inside⟩ := step later
      exact ⟨last, List.mem_cons_of_mem _ found, inside⟩

private theorem union_parentless {branches : List (List Operator)} {lasts : List Int} {own last : Nat}
    (inner : Planted plan parent (.branches branches) middle (.lasts lasts)) (joined : lasts ≠ [])
    (lands : middle.Lands (.union lasts) lasts own last after) (negative : parent < 0)
    (empty : ∀ branch ∈ branches, branch = []) : after.Parentless own := by
  obtain ⟨last, asked⟩ := List.exists_mem_of_ne_nil lasts joined
  have same := inner.lasts_of_empty empty last asked
  exact lands.parentless asked (same ▸ negative)

private theorem union_parents {branches : List (List Operator)} {lasts : List Int} {own last : Nat} {branch : List Operator}
    (inner : Planted plan parent (.branches branches) middle (.lasts lasts))
    (lands : middle.Lands (.union lasts) lasts own last after) (member : branch ∈ branches) (filled : branch ≠ []) :
    ∃ node, after.nodes[own]? = some node ∧ node.parents ≠ [] := by
  obtain ⟨last, asked, inside⟩ := inner.last_of_filled member filled
  have some : middle.nodes ≠ [] := by
    intro none
    have size : middle.size = 0 := congrArg List.length none
    omega
  obtain ⟨parents, visible, resolves, found, _⟩ := lands.nodes
  have same := resolves.parents_eq asked (by omega) some
  refine ⟨_, found, fun none => ?_⟩
  change parents = [] at none
  rw [same, none] at asked
  cases asked

/-- Without a parent there are as many loose roots as the operators say. -/
theorem loose (planted : Planted plan parent cargo after yield) (negative : parent < 0) :
    ∃ ids : List Nat, ids.Nodup ∧ ids.length = cargo.entries ∧ ∀ id ∈ ids, after.Loose plan.size id := by
  have planted' := planted
  induction planted with
  | @bare _ _ _ operator _ own last bare _ _ lands =>
    have here := own_loose planted' (size_le_own (.refl _) lands) (lands.parentless (List.mem_singleton_self _) negative)
    exact ⟨[own], by simp, (Operator.entries_of_bare bare).symm, by simpa using here⟩
  | @apply _ _ _ _ _ _ _ _ _ _ _ own _ inner _ lands _ =>
    have here := own_loose planted' (size_le_own inner.grows lands) (lands.parentless (List.mem_singleton_self _) negative)
    exact ⟨[own], by simp, rfl, by simpa using here⟩
  | @union _ _ _ _ branches _ _ _ own _ inner joined lands step =>
    by_cases none : Operator.entriesEach branches = 0
    · have each := Operator.entriesEach_eq_zero.mp none
      have here := own_loose planted' (size_le_own inner.grows lands) (union_parentless inner joined lands negative each)
      exact ⟨[own], by simp, by simp [Cargo.entries, Operator.entries, none], by simpa using here⟩
    · obtain ⟨ids, apart, count, loose⟩ := step negative inner
      refine ⟨ids, apart, ?_, fun id member => ?_⟩
      · simp only [count, Cargo.entries, Operator.entries]
        omega
      · exact lands.keeps_loose rfl (loose id member)
  | done => exact ⟨[], by simp, rfl, by simp⟩
  | next here later first _ =>
    obtain ⟨ids, apart, count, loose⟩ := first negative here
    exact ⟨ids, apart, count, fun id member => later.keeps_loose (loose id member)⟩
  | unbranched => exact ⟨[], by simp, rfl, by simp⟩
  | branch here later first rest =>
    obtain ⟨ids, apart, count, loose⟩ := first negative here
    obtain ⟨others, different, number, free⟩ := rest negative later
    refine ⟨ids ++ others, List.nodup_append.mpr ⟨apart, different, ?_⟩, ?_, ?_⟩
    · intro id member other another
      have old := (loose id member).parentless.lt_size
      have new := (free other another).new
      omega
    · rw [List.length_append, count, number]
      rfl
    · intro id member
      rcases List.mem_append.mp member with one | other
      · exact later.keeps_loose (loose id one)
      · exact here.loose_from_start later.grows (free id other)

/-- The first operator's own node has no parents just when the operators begin there. -/
theorem own_parentless_iff {operators : List Operator} {own last : Int}
    (planted : Planted plan parent (.chain operators) after (.ends own last)) (negative : parent < 0) (entered : 0 ≤ own) :
    ∃ node, after.nodes[own.toNat]? = some node ∧ (node.parents = [] ↔ Operator.Opens operators) := by
  cases planted with
  | done => omega
  | @next _ middle _ _ _ _ _ _ operator rest here later =>
    cases here with
    | bare bare _ _ lands =>
      obtain ⟨node, found, none⟩ := later.grows.parentless (lands.parentless (List.mem_singleton_self _) negative)
      exact ⟨node, found, iff_of_true none (Operator.opens_of_bare bare)⟩
    | apply _ _ lands =>
      obtain ⟨node, found, none⟩ := later.grows.parentless (lands.parentless (List.mem_singleton_self _) negative)
      exact ⟨node, found, iff_of_true none trivial⟩
    | @union _ _ _ _ branches _ _ lasts own _ inner joined lands =>
      by_cases empty : ∀ branch ∈ branches, branch = []
      · obtain ⟨node, found, none⟩ := later.grows.parentless (union_parentless inner joined lands negative empty)
        exact ⟨node, found, iff_of_true none empty⟩
      · obtain ⟨branch, member, filled⟩ : ∃ branch ∈ branches, branch ≠ [] := by simpa using empty
        obtain ⟨node, found, some⟩ := union_parents inner lands member filled
        exact ⟨node, later.grows _ _ found, iff_of_false some empty⟩

/-- An apply whose sub-plan begins elsewhere names a node with parents. -/
theorem spoiled (planted : Planted plan parent cargo after yield) (unrooted : ¬ cargo.Rooted) : after.Spoiled := by
  induction planted with
  | bare bare => exact absurd (Operator.rooted_of_bare bare) unrooted
  | @apply _ middle after _ sub _ _ _ _ first _ own _ inner entered lands step =>
    by_cases rooted : Operator.RootedAll sub
    · obtain ⟨node, found, parentless⟩ := inner.own_parentless_iff (by decide) entered
      obtain ⟨parents, visible, _, here, _⟩ := lands.nodes
      have closed : ¬ Operator.Opens sub := fun opens => unrooted ⟨opens, rooted⟩
      refine ⟨own, first.toNat, node, ⟨_, here, ?_⟩, lands.extends _ _ found, fun none => closed (parentless.mp none)⟩
      rw [Int.toNat_of_nonneg entered]
      rfl
    · exact lands.extends.spoiled (step rooted)
  | union _ _ lands step => exact lands.extends.spoiled (step unrooted)
  | done => exact absurd trivial unrooted
  | @next _ _ _ _ _ _ _ _ operator _ _ later first rest =>
    by_cases rooted : operator.Rooted
    · exact rest fun others => unrooted ⟨rooted, others⟩
    · exact later.grows.spoiled (first rooted)
  | unbranched => exact absurd trivial unrooted
  | @branch _ _ _ _ _ _ _ branch _ _ later first rest =>
    by_cases rooted : Operator.RootedAll branch
    · exact rest fun others => unrooted ⟨rooted, others⟩
    · exact later.grows.spoiled (first rooted)

end Planted

end TraversalPlanner
