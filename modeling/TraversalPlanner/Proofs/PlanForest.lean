import TraversalPlanner.Proofs.Acceptance

/-! The shape of the plans that can be laid out. They are made of one main plan and of the plans of applies,
each with a root of its own that all its nodes stem from. -/

namespace TraversalPlanner

namespace PlanGraph

variable {plan : PlanGraph} {root id : Nat}

/-- A node without parents is the root of the main plan or of the plan of an apply. -/
theorem Accepted.exists_child (accepted : plan.Accepted root) (inside : id < plan.size) (other : id ≠ root)
    (unnamed : ¬ ∃ apply, plan.Names apply id) : ∃ parent, plan.Child parent id := by
  by_contra none
  have alone : plan.Parentless id := by
    have found : plan.nodes[id]? = some plan.nodes[id] := List.getElem?_eq_getElem inside
    refine ⟨_, found, List.eq_nil_iff_forall_not_mem.mpr fun parent member => ?_⟩
    exact none ⟨parent, _, found, member⟩
  exact other (accepted.sole id alone fun apply names => unnamed ⟨apply, names⟩)

structure Forest (plan : PlanGraph) (root : Nat) : Prop where
  accepted : plan.Accepted root
  tidy : ∀ id node, plan.nodes[id]? = some node → Planted.Tidy id node
  behind : ∀ apply sub, plan.Names apply sub → sub < apply
  once : ∀ apply other sub, plan.Names apply sub → plan.Names other sub → apply = other
  stems : ∀ id, id < plan.size → ∃ top, (top = root ∨ ∃ apply, plan.Names apply top) ∧ plan.Stems top id
  followed : ∀ id, id < plan.size → plan.Follows root id

namespace Forest

theorem top_parentless (forest : plan.Forest root) {top : Nat} (tops : top = root ∨ ∃ apply, plan.Names apply top) :
    plan.Parentless top := by
  rcases tops with same | ⟨apply, node, found, named⟩
  · rw [same]
    exact forest.accepted.parentless
  · obtain ⟨place, same, alone⟩ := forest.accepted.targets apply node top found named
    cases Int.ofNat.inj same
    exact alone

theorem child_lt (forest : plan.Forest root) {parent : Nat} (edge : plan.Child parent id) : parent < id := by
  obtain ⟨node, found, member⟩ := edge
  exact (forest.tidy id node found).behind parent member

theorem child_lt_size {parent : Nat} (edge : plan.Child parent id) : id < plan.size := by
  obtain ⟨_, found, _⟩ := edge
  exact (List.getElem?_eq_some_iff.mp found).1

/-- From just one root one comes down to a node. -/
theorem exists_unique_top (forest : plan.Forest root) (inside : id < plan.size) :
    ∃ top, (top = root ∨ ∃ apply, plan.Names apply top) ∧ plan.Descends top id ∧
      ∀ other, (other = root ∨ ∃ apply, plan.Names apply other) → plan.Descends other id → other = top := by
  obtain ⟨top, tops, stems⟩ := forest.stems id inside
  refine ⟨top, tops, stems.descends, fun other others descends => ?_⟩
  exact stems.eq_of_descends (forest.top_parentless tops) (forest.top_parentless others) descends

end Forest

variable {schema : Option Schema} {operators : List Operator} {own last : Int}

theorem forest_of_accepted (planted : Planted (.empty schema) (-1) (.chain operators) plan (.ends own last))
    (accepted : plan.Accepted root) : plan.Forest root := by
  have rooted := rooted_of_accepted planted accepted
  have single := single_of_accepted planted accepted
  obtain ⟨base, _, _, on⟩ := planted.on_root (by decide) rooted single
  have same : base = root := by
    have other := accepted_of_on planted single on
    exact accepted.sole base other.parentless other.unnamed
  subst same
  refine ⟨accepted, fun id node found => ?_, fun apply sub names => ?_, fun apply other sub names again => ?_, ?_, ?_⟩
  · exact planted.tidy id node found (Nat.zero_le id)
  · exact (planted.names_within apply sub names (Nat.zero_le apply)).2
  · exact planted.names_once apply other sub names again (Nat.zero_le apply) (Nat.zero_le other)
  · intro id inside
    rcases on.sprouts.stems id (Nat.zero_le id) inside with main | ⟨apply, sub, names, stems⟩
    · exact ⟨base, .inl rfl, main⟩
    · exact ⟨sub, .inr ⟨apply, names⟩, stems⟩
  · intro id inside
    exact on.sprouts.followed id (Nat.zero_le id) inside

end PlanGraph

end TraversalPlanner
