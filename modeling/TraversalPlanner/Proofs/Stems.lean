import Mathlib.Logic.Relation
import TraversalPlanner.Proofs.LooseRoots

/-! Where nodes stem from. All nodes of a chain stem from its parent, or from its root if it has no parent, and
those of a sub-plan from the root that its apply names. So every node stems from one root, and is found from
the root of the plan along children and along applies. -/

namespace TraversalPlanner

namespace PlanGraph

variable {plan middle after : PlanGraph} {op : NodeOp Int} {inputs : List Int} {own last id base root link : Nat}

/-- All ways up from a node come to the base. -/
inductive Stems (plan : PlanGraph) (base : Nat) : Nat → Prop
  | here : Stems plan base base
  | under {id node} (found : plan.nodes[id]? = some node) (some : node.parents ≠ [])
      (each : ∀ parent ∈ node.parents, Stems plan base parent) : Stems plan base id

def Descends (plan : PlanGraph) : Nat → Nat → Prop := Relation.ReflTransGen plan.Child

/-- A step to a child, or from an apply to the root of its plan. -/
inductive Leads (plan : PlanGraph) : Nat → Nat → Prop
  | child {parent id} (edge : plan.Child parent id) : Leads plan parent id
  | link {apply root} (names : plan.Names apply root) : Leads plan apply root

def Follows (plan : PlanGraph) : Nat → Nat → Prop := Relation.ReflTransGen plan.Leads

theorem Stems.mono (stems : plan.Stems base id) (grown : plan.Extends after) : after.Stems base id := by
  induction stems with
  | here => exact .here
  | under found some _ step => exact .under (grown _ _ found) some step

theorem Stems.trans (first : plan.Stems base link) (second : plan.Stems link id) : plan.Stems base id := by
  induction second with
  | here => exact first
  | under found some _ step => exact .under found some step

/-- Nothing is above a root. -/
theorem Stems.eq_of_parentless (stems : plan.Stems base id) (alone : plan.Parentless id) : id = base := by
  cases stems with
  | here => rfl
  | under found some _ =>
    obtain ⟨node, there, none⟩ := alone
    cases found.symm.trans there
    exact absurd none some

theorem Stems.descends (stems : plan.Stems base id) : plan.Descends base id := by
  induction stems with
  | here => exact .refl
  | under found some _ step =>
    obtain ⟨parent, member⟩ := List.exists_mem_of_ne_nil _ some
    exact (step parent member).tail ⟨_, found, member⟩

theorem Stems.follows (stems : plan.Stems base id) : plan.Follows base id :=
  Relation.ReflTransGen.mono (fun _ _ edge => .child edge) _ _ stems.descends

/-- A root from which one comes down to a node is the one that the node stems from. -/
theorem Stems.eq_of_descends (stems : plan.Stems base id) (bottom : plan.Parentless base) (alone : plan.Parentless root)
    (descends : plan.Descends root id) : root = base := by
  induction stems with
  | here =>
    rcases Relation.ReflTransGen.cases_tail descends with same | ⟨parent, _, node, found, member⟩
    · exact same.symm
    · obtain ⟨node', there, none⟩ := bottom
      cases found.symm.trans there
      rw [none] at member
      cases member
  | under found some _ step =>
    rcases Relation.ReflTransGen.cases_tail descends with same | ⟨parent, above, node, there, member⟩
    · obtain ⟨node', there, none⟩ := alone
      rw [← same] at there
      cases found.symm.trans there
      exact absurd none some
    · cases found.symm.trans there
      exact step parent member above

theorem Leads.mono (leads : plan.Leads base id) (grown : plan.Extends after) : after.Leads base id := by
  cases leads with
  | child edge =>
    obtain ⟨node, found, member⟩ := edge
    exact .child ⟨node, grown _ _ found, member⟩
  | link names => exact .link (grown.names names)

theorem Follows.mono (follows : plan.Follows base id) (grown : plan.Extends after) : after.Follows base id :=
  Relation.ReflTransGen.mono (fun _ _ (leads : plan.Leads _ _) => leads.mono grown) _ _ follows

/-- Roots of sub-plans are roots, and every new node is accounted for. -/
structure Sprouts (plan after : PlanGraph) (base : Nat) : Prop where
  stems : ∀ id, plan.size ≤ id → id < after.size →
    after.Stems base id ∨ ∃ apply root, after.Names apply root ∧ after.Stems root id
  followed : ∀ id, plan.size ≤ id → id < after.size → after.Follows base id
  targets : ∀ apply root, plan.size ≤ apply → after.Names apply root → after.Parentless root

theorem Sprouts.refl (plan : PlanGraph) (base : Nat) : plan.Sprouts plan base where
  stems := fun _ new old => absurd old (Nat.not_lt.mpr new)
  followed := fun _ new old => absurd old (Nat.not_lt.mpr new)
  targets := fun _ _ new names => absurd names.lt_size (Nat.not_lt.mpr new)

theorem Sprouts.trans (grown : middle.Extends after) (first : plan.Sprouts middle base) (stems : middle.Stems base link)
    (second : middle.Sprouts after link) : plan.Sprouts after base where
  stems := by
    intro id new inside
    by_cases old : id < middle.size
    · rcases first.stems id new old with main | ⟨apply, root, names, sub⟩
      · exact .inl (main.mono grown)
      · exact .inr ⟨apply, root, grown.names names, sub.mono grown⟩
    · rcases second.stems id (Nat.le_of_not_lt old) inside with main | sub
      · exact .inl ((stems.mono grown).trans main)
      · exact .inr sub
  followed := by
    intro id new inside
    by_cases old : id < middle.size
    · exact (first.followed id new old).mono grown
    · exact ((stems.mono grown).follows).trans (second.followed id (Nat.le_of_not_lt old) inside)
  targets := by
    intro apply root new names
    by_cases old : apply < middle.size
    · exact grown.parentless (first.targets apply root new (grown.named names old))
    · exact second.targets apply root (Nat.le_of_not_lt old) names

/-! Nodes that land. -/

theorem Lands.new_cases (lands : plan.Lands op inputs own last after) (new : plan.size ≤ id) (inside : id < after.size) :
    id = own ∨ id = last := by
  obtain ⟨_, _, _, _, each⟩ := lands.nodes
  rcases each id _ (List.getElem?_eq_getElem inside) new with ⟨same, _⟩ | ⟨same, _⟩
  · exact .inl same
  · exact .inr same

theorem Lands.last_stems (lands : plan.Lands op inputs own last after) : after.Stems own last := by
  have own_eq := lands.own_eq
  have size := lands.size
  obtain ⟨_, _, _, _, each⟩ := lands.nodes
  have inside : last < after.nodes.length := by
    have same : after.nodes.length = last + 1 := size.2
    omega
  have found := List.getElem?_eq_getElem inside
  rcases each last _ found (by omega) with ⟨same, _⟩ | ⟨_, _, _, under⟩
  · rw [same]
    exact .here
  · refine .under found (by simp [under]) fun parent member => ?_
    rw [under, List.mem_singleton] at member
    rw [member]
    exact .here

/-- A node of a plan. -/
def Stemming (plan : PlanGraph) (base : Nat) (node : Int) : Prop := ∃ id : Nat, node = id ∧ plan.Stems base id

theorem Stemming.mono {node : Int} (stemming : plan.Stemming base node) (grown : plan.Extends after) :
    after.Stemming base node := by
  obtain ⟨id, same, stems⟩ := stemming
  exact ⟨id, same, stems.mono grown⟩

theorem Lands.stems (lands : plan.Lands op inputs own last after) (filled : plan.nodes ≠ []) (asked : inputs ≠ [])
    (each : ∀ input ∈ inputs, plan.Stemming base input) : after.Stems base own := by
  obtain ⟨input, member⟩ := List.exists_mem_of_ne_nil inputs asked
  obtain ⟨id, same, _⟩ := each input member
  obtain ⟨parents, visible, resolves, found, _⟩ := lands.nodes
  have given := resolves.parents_eq member (by omega) filled
  refine .under found ?_ fun parent named => ?_
  · intro none
    change parents = [] at none
    rw [given, none] at asked
    exact asked rfl
  · have input : (parent : Int) ∈ inputs := by
      rw [given]
      exact List.mem_map_of_mem named
    obtain ⟨id, same, stems⟩ := each _ input
    cases Int.ofNat.inj same
    exact stems.mono lands.extends

theorem sprouts_lands (lands : plan.Lands op inputs own last after) (apart : op.subRoot? = none)
    (stems : after.Stems base own) : plan.Sprouts after base := by
  have each : ∀ id, plan.size ≤ id → id < after.size → after.Stems base id := by
    intro id new inside
    rcases lands.new_cases new inside with same | same
    · exact same ▸ stems
    · exact same ▸ stems.trans lands.last_stems
  refine ⟨fun id new inside => .inl (each id new inside), fun id new inside => (each id new inside).follows, ?_⟩
  intro apply root new names
  have named := (lands.names names new).2
  rw [apart] at named
  cases named

/-- The apply leads to the root of its plan, and so to all of the plan. -/
theorem sprouts_apply {kind : JoinKind} (inner : plan.Sprouts middle root) (entry : middle.Parentless root)
    (lands : middle.Lands (.apply kind root none) inputs own last after) (stems : after.Stems base own) :
    plan.Sprouts after base := by
  have grown := lands.extends
  have behind : ∀ id, middle.size ≤ id → id < after.size → after.Stems base id := by
    intro id new inside
    rcases lands.new_cases new inside with same | same
    · exact same ▸ stems
    · exact same ▸ stems.trans lands.last_stems
  have names : after.Names own root := by
    obtain ⟨_, _, _, found, _⟩ := lands.nodes
    exact ⟨_, found, rfl⟩
  refine ⟨?_, ?_, ?_⟩
  · intro id new inside
    by_cases old : id < middle.size
    · rcases inner.stems id new old with main | ⟨apply, root, names, sub⟩
      · exact .inr ⟨own, root, names, main.mono grown⟩
      · exact .inr ⟨apply, root, grown.names names, sub.mono grown⟩
    · exact .inl (behind id (Nat.le_of_not_lt old) inside)
  · intro id new inside
    by_cases old : id < middle.size
    · exact (stems.follows.tail (.link names)).trans ((inner.followed id new old).mono grown)
    · exact (behind id (Nat.le_of_not_lt old) inside).follows
  · intro apply target new named
    by_cases old : apply < middle.size
    · exact grown.parentless (inner.targets apply target new (grown.named named old))
    · have same : (root : Int) = target := Option.some.inj (lands.names named (Nat.le_of_not_lt old)).2
      cases Int.ofNat.inj same
      exact grown.parentless entry

end PlanGraph

def Yield.Stem (plan : PlanGraph) (base : Nat) : Yield → Prop
  | .ends own last => plan.Stemming base own ∧ plan.Stemming base last
  | .lasts nodes => ∀ last ∈ nodes, plan.Stemming base last

namespace Planted

open PlanGraph

variable {plan middle after : PlanGraph} {parent : Int} {cargo : Cargo} {yield : Yield} {base : Nat}

/-- Planted on a base: the parent or, without one, a new root. -/
structure On (plan after : PlanGraph) (base : Nat) (yield : Yield) : Prop where
  sprouts : plan.Sprouts after base
  stem : yield.Stem after base

private theorem on_of_lands {op : NodeOp Int} {inputs : List Int} {own last : Nat}
    (lands : middle.Lands op inputs own last after) (sprouts : plan.Sprouts after base)
    (stems : after.Stems base own) : On plan after base (.ends own last) :=
  ⟨sprouts, ⟨own, rfl, stems⟩, last, rfl, stems.trans lands.last_stems⟩

/-- What is asserted of cargo that is planted; branches without a parent are only planted alone. -/
private def Rises (plan : PlanGraph) (parent : Int) (cargo : Cargo) (after : PlanGraph) (yield : Yield) : Prop :=
  cargo.Rooted →
    (∀ base : Nat, parent = base → base < plan.size → On plan after base yield) ∧
      (parent < 0 → cargo.entries = 1 → (∀ lasts, yield = .lasts lasts → ∀ last ∈ lasts, 0 ≤ last) →
        ∃ base, plan.size ≤ base ∧ after.Parentless base ∧ On plan after base yield)

private theorem rises_bare {operator : Operator} {op : NodeOp Int} {own last : Nat} (apart : op.subRoot? = none)
    (lands : plan.Lands op [parent] own last after) :
    Rises plan parent (.operator operator) after (.ends own last) := by
  refine fun _ => ⟨fun base same inside => ?_, fun negative _ _ => ?_⟩
  · have filled : plan.nodes ≠ [] := List.ne_nil_of_length_pos (Nat.zero_lt_of_lt inside)
    have stems := lands.stems filled (by simp) (by simpa using ⟨base, same, .here⟩)
    exact on_of_lands lands (sprouts_lands lands apart stems) stems
  · have root := lands.parentless (List.mem_singleton_self _) negative
    exact ⟨own, lands.own_eq ▸ Nat.le_refl _, root, on_of_lands lands (sprouts_lands lands apart .here) .here⟩

private theorem rises_apply {sub : List Operator} {subRoot : Option Int32} {join : Option JoinKind} {tag : Option Alias}
    {kind : JoinKind} {first subLast : Int} {own last : Nat}
    (inner : Planted plan (-1) (.chain sub) middle (.ends first subLast)) (entered : 0 ≤ first)
    (lands : middle.Lands (.apply kind first none) [parent] own last after)
    (rises : Rises plan (-1) (.chain sub) middle (.ends first subLast)) :
    Rises plan parent (.operator ⟨.apply (some sub) subRoot join, tag⟩) after (.ends own last) := by
  intro rooted
  -- The sub-plan is planted on the node that the apply names.
  obtain ⟨root, parentless, sprouts, same⟩ : ∃ root, middle.Parentless root ∧ plan.Sprouts middle root ∧ first = root := by
    have opened : Operator.entriesAll sub = 1 := by
      refine Operator.entriesAll_of_opens rooted.1 fun none => ?_
      rcases inner.inside with ⟨_, same, _⟩ | ⟨some, _⟩
      · omega
      · exact some none
    obtain ⟨root, _, parentless, on⟩ := (rises rooted.2).2 (by decide) opened (by simp)
    obtain ⟨id, same, stems⟩ := on.stem.1
    obtain ⟨node, found, none⟩ := inner.own_parentless_iff (by decide) entered
    rw [same, Int.toNat_natCast] at found
    have top := stems.eq_of_parentless ⟨node, found, none.mpr rooted.1⟩
    exact ⟨root, parentless, on.sprouts, top ▸ same⟩
  subst same
  have grown := inner.grows
  refine ⟨fun base same inside => ?_, fun negative _ _ => ?_⟩
  · have filled : middle.nodes ≠ [] :=
      List.ne_nil_of_length_pos (Nat.zero_lt_of_lt (Nat.lt_of_lt_of_le inside grown.size_le))
    have stems := lands.stems filled (by simp) (by simpa using ⟨base, same, .here⟩)
    exact on_of_lands lands (sprouts_apply sprouts parentless lands stems) stems
  · have top := lands.parentless (List.mem_singleton_self _) negative
    refine ⟨own, lands.own_eq ▸ grown.size_le, top, on_of_lands lands (sprouts_apply sprouts parentless lands .here) .here⟩

private theorem on_union {lasts : List Int} {own last : Nat} (joined : lasts ≠ []) (filled : middle.nodes ≠ [])
    (lands : middle.Lands (.union lasts) lasts own last after) (on : On plan middle base (.lasts lasts)) :
    On plan after base (.ends own last) := by
  have stems := lands.stems filled joined on.stem
  exact on_of_lands lands (on.sprouts.trans lands.extends .here (sprouts_lands lands rfl stems)) stems

private theorem rises_union {branches : List (List Operator)} {parents : Option (List Int32)} {tag : Option Alias}
    {lasts : List Int} {own last : Nat} (inner : Planted plan parent (.branches branches) middle (.lasts lasts))
    (joined : lasts ≠ []) (lands : middle.Lands (.union lasts) lasts own last after)
    (rises : Rises plan parent (.branches branches) middle (.lasts lasts)) :
    Rises plan parent (.operator ⟨.union (some branches) parents, tag⟩) after (.ends own last) := by
  intro rooted
  have grown := inner.grows
  refine ⟨fun base same inside => ?_, fun negative single _ => ?_⟩
  · have filled : middle.nodes ≠ [] :=
      List.ne_nil_of_length_pos (Nat.zero_lt_of_lt (Nat.lt_of_lt_of_le inside grown.size_le))
    exact on_union joined filled lands ((rises rooted).1 base same inside)
  · by_cases empty : ∀ branch ∈ branches, branch = []
    · obtain ⟨asked, member⟩ := List.exists_mem_of_ne_nil lasts joined
      have same := inner.lasts_of_empty empty asked member
      have unchanged := inner.eq_of_empty empty
      subst unchanged
      have top := lands.parentless member (same ▸ negative)
      exact ⟨own, lands.own_eq ▸ Nat.le_refl _, top, on_of_lands lands (sprouts_lands lands rfl .here) .here⟩
    · obtain ⟨branch, member, some⟩ : ∃ branch ∈ branches, branch ≠ [] := by simpa using empty
      obtain ⟨asked, found, inside⟩ := inner.last_of_filled member some
      have filled : middle.nodes ≠ [] := by
        intro none
        have size : middle.size = 0 := congrArg List.length none
        omega
      -- One branch has a last node, so they all have, and there is no other branch.
      have positive : ∀ last ∈ lasts, 0 ≤ last := by
        obtain ⟨parents, _, resolves, _⟩ := lands.nodes
        have given := resolves.parents_eq found (by omega) filled
        intro last member
        rw [given] at member
        obtain ⟨id, _, rfl⟩ := List.mem_map.mp member
        exact Int.natCast_nonneg id
      have one : Operator.entriesEach branches = 1 := by
        have some : Operator.entriesEach branches ≠ 0 := fun none => empty (Operator.entriesEach_eq_zero.mp none)
        simp only [Cargo.entries, Operator.entries] at single
        omega
      obtain ⟨base, new, top, on⟩ := (rises rooted).2 negative one (by rintro _ ⟨⟩; exact positive)
      exact ⟨base, new, lands.extends.parentless top, on_union joined filled lands on⟩

private theorem on_next {own link : Int} {first last : Int} {rest : List Operator}
    (on : On plan middle base (.ends own link))
    (later : Planted middle link (.chain rest) after (.ends first last)) (inside : link < middle.size)
    (rises : Rises middle link (.chain rest) after (.ends first last)) (rooted : Operator.RootedAll rest) :
    On plan after base (.ends own last) := by
  obtain ⟨id, same, stems⟩ := on.stem.2
  have next := (rises rooted).1 id same (by omega)
  obtain ⟨final, there, behind⟩ := next.stem.2
  exact ⟨on.sprouts.trans later.grows stems next.sprouts, on.stem.1.mono later.grows, final, there,
    (stems.mono later.grows).trans behind⟩

private theorem rises_next {own link first last : Int} {operator : Operator} {rest : List Operator}
    (here : Planted plan parent (.operator operator) middle (.ends own link))
    (later : Planted middle link (.chain rest) after (.ends first last))
    (one : Rises plan parent (.operator operator) middle (.ends own link))
    (others : Rises middle link (.chain rest) after (.ends first last)) :
    Rises plan parent (.chain (operator :: rest)) after (.ends own last) := by
  intro rooted
  have inside := here.inside.2.2
  refine ⟨fun base same known => ?_, fun negative single _ => ?_⟩
  · exact on_next ((one rooted.1).1 base same known) later inside others rooted.2
  · obtain ⟨base, new, top, on⟩ := (one rooted.1).2 negative single nofun
    exact ⟨base, new, later.grows.parentless top, on_next on later inside others rooted.2⟩

private theorem rises_branch {first last : Int} {lasts : List Int} {branch : List Operator} {rest : List (List Operator)}
    (here : Planted plan parent (.chain branch) middle (.ends first last))
    (later : Planted middle parent (.branches rest) after (.lasts lasts))
    (one : Rises plan parent (.chain branch) middle (.ends first last))
    (others : Rises middle parent (.branches rest) after (.lasts lasts)) :
    Rises plan parent (.branches (branch :: rest)) after (.lasts (last :: lasts)) := by
  intro rooted
  refine ⟨fun base same known => ?_, fun negative single positive => ?_⟩
  · have on := (one rooted.1).1 base same known
    have next := (others rooted.2).1 base same (Nat.lt_of_lt_of_le known here.grows.size_le)
    refine ⟨on.sprouts.trans later.grows .here next.sprouts, List.forall_mem_cons.mpr ⟨?_, next.stem⟩⟩
    exact on.stem.2.mono later.grows
  · obtain ⟨known, unknown⟩ := List.forall_mem_cons.mp (positive _ rfl)
    have some : branch ≠ [] := by
      rcases here.inside with ⟨_, _, same⟩ | ⟨some, _⟩
      · omega
      · exact some
    have entered : Operator.entriesAll branch ≠ 0 := fun none => some (Operator.entriesAll_eq_zero.mp none)
    have total : Operator.entriesAll branch + Operator.entriesEach rest = 1 := single
    have empty := Operator.entriesEach_eq_zero.mp (show Operator.entriesEach rest = 0 by omega)
    have same := later.eq_of_empty empty
    subst same
    have none : ∀ last ∈ lasts, False := by
      intro last member
      have parent_eq := later.lasts_of_empty empty last member
      have positive := unknown last member
      omega
    obtain ⟨base, new, top, on⟩ := (one rooted.1).2 negative (show Operator.entriesAll branch = 1 by omega) nofun
    exact ⟨base, new, top, on.sprouts, List.forall_mem_cons.mpr ⟨on.stem.2, fun last member => absurd member (none last)⟩⟩

private theorem rises (planted : Planted plan parent cargo after yield) : Rises plan parent cargo after yield := by
  induction planted with
  | bare _ apart _ lands => exact rises_bare apart lands
  | apply inner entered lands step => exact rises_apply inner entered lands step
  | union inner joined lands step => exact rises_union inner joined lands step
  | done =>
    refine fun _ => ⟨fun base same _ => ⟨.refl _ _, ⟨base, same, .here⟩, base, same, .here⟩, fun _ none => ?_⟩
    cases none
  | next here later one others => exact rises_next here later one others
  | unbranched =>
    refine fun _ => ⟨fun base _ _ => ⟨.refl _ _, by simp [Yield.Stem]⟩, fun _ none => ?_⟩
    cases none
  | branch here later one others => exact rises_branch here later one others

/-- Operators that begin once and whose applies name roots are planted on one root. -/
theorem on_root {operators : List Operator} {own last : Int}
    (planted : Planted plan parent (.chain operators) after (.ends own last))
    (negative : parent < 0) (rooted : Operator.RootedAll operators) (single : Operator.entriesAll operators = 1) :
    ∃ base, plan.size ≤ base ∧ after.Parentless base ∧ On plan after base (.ends own last) :=
  (planted.rises rooted).2 negative single nofun

end Planted

end TraversalPlanner
