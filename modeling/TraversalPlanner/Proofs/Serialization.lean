import TraversalPlanner.Compiler
import TraversalPlanner.Proofs.Acceptance
import TraversalPlanner.Proofs.BuiltOperators
import TraversalPlanner.Proofs.FrameRoundTrip
import TraversalPlanner.Traversal.Fluent

/-! Which traversals compile. Once a traversal has become a plan, only laying out that plan can fail, and it
does when an apply names a node that is not the root of its plan. -/

namespace TraversalPlanner

open Proofs

namespace PlanGraph

variable {plan after : PlanGraph}

theorem Lands.released {op : NodeOp Int} {inputs : List Int} {own last : Nat} (lands : plan.Lands op inputs own last after) :
    after.released = plan.released := by
  cases lands <;> rfl

theorem bytes_eq {workers servers : UInt32} (kept : plan.released = false) : plan.bytes workers servers =
    match PhysicalPlan.ofGraph plan workers servers with
    | .ok physical => physical.encode?.getD []
    | .error _ => [] :=
  if_neg (by simp [tables, kept])

theorem bytes_of_encoded {workers servers : UInt32} {physical : PhysicalPlan} {bytes : List UInt8}
    (kept : plan.released = false) (laid : PhysicalPlan.ofGraph plan workers servers = .ok physical)
    (encoded : physical.encode? = some bytes) : plan.bytes workers servers = bytes := by
  rw [bytes_eq kept, laid]
  change physical.encode?.getD [] = bytes
  rw [encoded]
  rfl

/-- Where there are bytes, they are those of the plan as it is laid out. -/
theorem encoded_of_bytes {workers servers : UInt32} (filled : plan.bytes workers servers ≠ []) :
    ∃ physical, PhysicalPlan.ofGraph plan workers servers = .ok physical ∧
      physical.encode? = some (plan.bytes workers servers) := by
  have kept : plan.released = false := by
    by_contra gone
    exact filled (if_pos (by simpa [tables] using gone))
  cases laid : PhysicalPlan.ofGraph plan workers servers with
  | error fault =>
    rw [bytes_eq kept, laid] at filled
    exact absurd rfl filled
  | ok physical =>
    refine ⟨physical, rfl, ?_⟩
    cases encoded : physical.encode? with
    | none =>
      rw [bytes_eq kept, laid] at filled
      change physical.encode?.getD [] ≠ [] at filled
      rw [encoded] at filled
      exact absurd rfl filled
    | some bytes => rw [bytes_of_encoded kept laid encoded]

end PlanGraph

/-- A plan whose payload has a length that fits into a word has no more nodes than there are numbers for them. -/
theorem PhysicalPlan.length_nodes_lt {physical : PhysicalPlan}
    (short : (Codec.physicalPlan.write physical).length < UInt32.size) : physical.nodes.length < 2 ^ 31 := by
  have filled : ∀ node, 4 ≤ (Codec.physicalNode.write node).length := by
    intro node
    change 4 ≤ (Codec.int32.write node.id ++ _).length
    rw [List.length_append]
    exact Nat.le_add_right 4 _
  have count : 4 * physical.nodes.length ≤ (physical.nodes.flatMap Codec.physicalNode.write).length :=
    Codec.length_le_flatMap filled
  have inside : (physical.nodes.flatMap Codec.physicalNode.write).length ≤ (Codec.physicalPlan.write physical).length := by
    simp only [Codec.physicalPlan, Codec.via, Codec.pair, Codec.list, List.length_append]
    omega
  have size : UInt32.size = 4294967296 := rfl
  omega

theorem PhysicalPlan.encode?_ne_nil {physical : PhysicalPlan} {bytes : List UInt8}
    (encoded : physical.encode? = some bytes) : bytes ≠ [] := by
  obtain ⟨_, same⟩ := PhysicalPlan.encode?_eq_some.mp encoded
  rw [same]
  simp [PhysicalPlan.framed, Codec.word32, Codec.via, Codec.pair, Codec.word16, Codec.byte]

theorem Planted.released {plan after : PlanGraph} {parent : Int} {cargo : Cargo} {yield : Yield}
    (planted : Planted plan parent cargo after yield) : after.released = plan.released := by
  induction planted with
  | bare _ _ _ lands => exact lands.released
  | apply _ _ lands inner => exact lands.released.trans inner
  | union _ _ lands inner => exact lands.released.trans inner
  | done => rfl
  | next _ _ here later => exact later.trans here
  | unbranched => rfl
  | branch _ _ here later => exact later.trans here

namespace Assembly

theorem run_physicalBytes {assembly : Assembly PlanGraph} {workers servers : UInt32} (opened : assembly.state ≠ .closed) :
    (physicalBytes PlanGraph.accumulator workers servers).run assembly =
      if (assembly.store.bytes workers servers).isEmpty then (.error (.emptyBuild workers servers), assembly)
      else (.ok (assembly.store.bytes workers servers), { assembly with state := .serialized }) := by
  have called : (call (PlanGraph.accumulator.bytes workers servers) : Assembling PlanGraph (List UInt8)).run assembly =
    (.ok (assembly.store.bytes workers servers), assembly) := rfl
  change ((if assembly.state = .closed then throw .closedBeforeBuild else pure PUnit.unit >>= fun _ => do
    let bytes ← call (PlanGraph.accumulator.bytes workers servers)
    if bytes.isEmpty then throw (.emptyBuild workers servers)
    modify fun assembly => { assembly with state := .serialized }
    return bytes) : Assembling PlanGraph (List UInt8)).run assembly = _
  rw [if_neg opened, pure_bind, Assembling.run_bind, called]
  generalize assembly.store.bytes workers servers = bytes
  change ((if bytes.isEmpty then throw (.emptyBuild workers servers) else
    pure PUnit.unit >>= fun _ => do
      modify fun assembly => { assembly with state := .serialized }
      return bytes) : Assembling PlanGraph (List UInt8)).run assembly = _
  split <;> rfl

end Assembly

namespace Compiler

variable {deployment : Deployment} {schema : Option Schema} {traversal : Traversal} {plan : PlanGraph} {compiled : Compiled}

/-- The traversal's operators have all entered a plan that was empty. -/
def Assembles (schema : Option Schema) (traversal : Traversal) (plan : PlanGraph) : Prop :=
  ∃ operators placed assembly, traversal.build = .ok operators ∧
    (Assembly.appendAll PlanGraph.accumulator (-1) operators).run (Assembly.start (.empty schema)) = (.ok placed, assembly) ∧
    assembly.store = plan

theorem exists_assembles (passes : (explain schema traversal).isOk = true) : ∃ plan, Assembles schema traversal plan := by
  unfold explain explainWith run at passes
  cases built : traversal.build with
  | error error =>
    rw [built] at passes
    cases passes
  | ok operators =>
    rw [built] at passes
    simp only [Assembling.run_bind] at passes
    rcases ran : (Assembly.appendAll PlanGraph.accumulator (-1) operators).run (Assembly.start (.empty schema)) with
      ⟨answer, assembly⟩
    cases answer with
    | error error =>
      rw [ran] at passes
      cases passes
    | ok placed => exact ⟨_, operators, placed, assembly, built, ran, rfl⟩

theorem Assembles.planted (assembles : Assembles schema traversal plan) : ∃ operators own last,
    traversal.build = .ok operators ∧ Planted (.empty schema) (-1) (.chain operators) plan (.ends own last) := by
  obtain ⟨operators, placed, assembly, built, ran, same⟩ := assembles
  have plants := Assembly.appendAll_plants (Traversal.faithful traversal operators built).unlinked ran
  exact ⟨operators, placed.1, placed.2, built, same ▸ plants.planted⟩

theorem Assembles.opened (assembles : Assembles schema traversal plan) : ∃ operators placed assembly,
    traversal.build = .ok operators ∧
    (Assembly.appendAll PlanGraph.accumulator (-1) operators).run (Assembly.start (.empty schema)) = (.ok placed, assembly) ∧
    assembly.state ≠ .closed ∧ assembly.store = plan := by
  obtain ⟨operators, placed, assembly, built, ran, same⟩ := assembles
  have plants := Assembly.appendAll_plants (Traversal.faithful traversal operators built).unlinked ran
  exact ⟨operators, placed, assembly, built, ran, plants.opened (by simp [Assembly.start]), same⟩

/-- Once the operators have entered a plan, only its layout decides. -/
theorem Assembles.compile_cases (assembles : Assembles schema traversal plan) (deployment : Deployment) :
    plan.bytes deployment.workers deployment.servers = [] ∧
      compile deployment schema traversal = .error (.emptyBuild deployment.workers deployment.servers) ∨
    plan.bytes deployment.workers deployment.servers ≠ [] ∧ ∃ compiled,
      compile deployment schema traversal = .ok compiled ∧
        compiled.bytes = plan.bytes deployment.workers deployment.servers := by
  obtain ⟨operators, placed, assembly, built, ran, opened, rfl⟩ := assembles.opened
  unfold compile compileWith run
  rw [built]
  simp only [Assembling.run_bind, ran, Assembly.run_physicalBytes opened, List.isEmpty_iff]
  by_cases empty : assembly.store.bytes deployment.workers deployment.servers = []
  · rw [if_pos empty]
    exact .inl ⟨empty, rfl⟩
  · rw [if_neg empty]
    exact .inr ⟨empty, _, rfl, rfl⟩

/-- Bytes come of no other plan than the one that the operators have entered. -/
theorem assembles_of_compile (done : compile deployment schema traversal = .ok compiled) :
    ∃ plan, Assembles schema traversal plan ∧ plan.bytes deployment.workers deployment.servers ≠ [] ∧
      compiled.bytes = plan.bytes deployment.workers deployment.servers := by
  cases built : traversal.build with
  | error error =>
    unfold compile compileWith run at done
    rw [built] at done
    cases done
  | ok operators =>
    rcases ran : (Assembly.appendAll PlanGraph.accumulator (-1) operators).run (Assembly.start (.empty schema)) with
      ⟨answer, assembly⟩
    cases answer with
    | error error =>
      unfold compile compileWith run at done
      rw [built] at done
      simp only [Assembling.run_bind, ran] at done
      cases done
    | ok placed =>
      have assembles : Assembles schema traversal assembly.store := ⟨operators, placed, assembly, built, ran, rfl⟩
      rcases assembles.compile_cases deployment with ⟨_, failed⟩ | ⟨filled, made, again, bytes⟩
      · cases done.symm.trans failed
      · cases done.symm.trans again
        exact ⟨assembly.store, assembles, filled, bytes⟩

/-- The plan of a traversal that begins with a look-up has the roots it should exactly if the traversal has. -/
theorem Assembles.accepted_iff (assembles : Assembles schema traversal plan) (starts : Traversal.Starts traversal) :
    (∃ root, plan.Accepted root) ↔ Traversal.Rooted traversal := by
  obtain ⟨operators, own, last, built, planted⟩ := assembles.planted
  have single : Operator.entriesAll operators = 1 := by
    obtain ⟨args, tag, rest, same⟩ := Traversal.scan_of_starts starts built
    rw [same]
    rfl
  rw [TraversalPlanner.accepted_iff planted, and_iff_left single]
  exact (Traversal.faithful traversal operators built).rooted

/-- Operators that enter a plan come after all that they continue. -/
theorem Assembles.acyclic (assembles : Assembles schema traversal plan) (id : Nat) :
    ¬ Relation.TransGen plan.Child id id := by
  obtain ⟨_, _, _, _, planted⟩ := assembles.planted
  refine fun way => Nat.lt_irrefl id (lt_of_way (fun parent child edge => ?_) way)
  obtain ⟨node, found, member⟩ := edge
  exact (planted.tidy child node found (Nat.zero_le child)).behind parent member

theorem Assembles.bytes_iff (assembles : Assembles schema traversal plan) {workers servers : UInt32}
    (short : ∀ physical, PhysicalPlan.layOutByRoots plan workers servers = .ok physical →
      (Codec.physicalPlan.write physical).length < UInt32.size) :
    plan.bytes workers servers ≠ [] ↔ workers ≠ 0 ∧ servers ≠ 0 ∧ ∃ root, plan.Accepted root := by
  constructor
  · intro filled
    obtain ⟨physical, laid, _⟩ := PlanGraph.encoded_of_bytes filled
    exact (PhysicalPlan.isOk_ofGraph_iff.mp ⟨physical, laid⟩).2.2
  · intro accepted
    obtain ⟨physical, byRoots⟩ := PhysicalPlan.isOk_byRoots_iff.mpr accepted
    -- There are few enough nodes for a payload that is short.
    have few : plan.size < 2 ^ 31 := by
      have nodes := PhysicalPlan.length_nodes_lt (short physical byRoots)
      obtain ⟨_, _, _, _, _, rfl⟩ := PhysicalPlan.layout_of_byRoots byRoots
      simpa [PhysicalPlan.layOut, PlanGraph.size] using nodes
    have laid : PhysicalPlan.ofGraph plan workers servers = .ok physical :=
      PhysicalPlan.ofTables_eq_ok.mpr ⟨PhysicalPlan.hasCycle_tables.mpr assembles.acyclic, few, byRoots⟩
    obtain ⟨_, _, _, _, planted⟩ := assembles.planted
    have encoded := PhysicalPlan.encode?_eq_some.mpr ⟨short physical byRoots, rfl⟩
    rw [PlanGraph.bytes_of_encoded planted.released laid encoded]
    exact PhysicalPlan.encode?_ne_nil encoded

theorem servers_eq_zero : deployment.servers = 0 ↔ UInt32.size ∣ deployment.hosts.length := by
  rw [← UInt32.toNat_inj, Deployment.servers, UInt32.toNat_ofNat]
  exact Nat.dvd_iff_mod_eq_zero.symm

/-- A traversal that begins with a look-up compiles once it has been assembled, if it is to run anywhere and
each of its applies has a plan with one root. Otherwise there is nothing to build, and nothing else fails. -/
theorem compiles_iff_rooted (starts : Traversal.Starts traversal) (assembles : Assembles schema traversal plan)
    (workers : deployment.workers ≠ 0)
    (short : ∀ physical, PhysicalPlan.layOutByRoots plan deployment.workers deployment.servers = .ok physical →
      (Codec.physicalPlan.write physical).length < UInt32.size) :
    ((∃ root, plan.Accepted root) ↔ Traversal.Rooted traversal) ∧
      ((∃ compiled, compile deployment schema traversal = .ok compiled) ↔
        ¬ UInt32.size ∣ deployment.hosts.length ∧ Traversal.Rooted traversal) ∧
      (compile deployment schema traversal = .error (.emptyBuild deployment.workers deployment.servers) ↔
        UInt32.size ∣ deployment.hosts.length ∨ ¬ Traversal.Rooted traversal) := by
  have accepted := assembles.accepted_iff starts
  have running : deployment.servers ≠ 0 ↔ ¬ UInt32.size ∣ deployment.hosts.length := not_congr servers_eq_zero
  have filled := assembles.bytes_iff short
  rw [accepted, and_iff_right workers, running] at filled
  have refused : UInt32.size ∣ deployment.hosts.length ∨ ¬ Traversal.Rooted traversal ↔
      plan.bytes deployment.workers deployment.servers = [] := by
    rw [← not_iff_not, not_or, not_not, ← filled]
  rw [← filled, refused]
  rcases assembles.compile_cases deployment with ⟨empty, failed⟩ | ⟨some, compiled, made, _⟩
  · simp [accepted, empty, failed]
  · simp [accepted, some, made]

/-- The vertices that have an outgoing edge. -/
def departing : Traversal := (Traversal.vertices []).add (.whereTraversal (Traversal.out [] []))

theorem departing_compiles : Traversal.Starts departing ∧ ∃ plan, Assembles none departing plan ∧
    (∃ root, plan.Accepted root) ∧ ∃ compiled, compile .standalone none departing = .ok compiled := by
  have passes : (compile .standalone none departing).isOk = true := by decide +kernel
  cases done : compile .standalone none departing with
  | error error =>
    rw [done] at passes
    cases passes
  | ok compiled =>
    obtain ⟨plan, assembles, filled, _⟩ := assembles_of_compile done
    have short : ∀ physical, PhysicalPlan.layOutByRoots plan 1 1 = .ok physical →
        (Codec.physicalPlan.write physical).length < UInt32.size := by
      intro physical byRoots
      obtain ⟨_, laid, encoded⟩ := PlanGraph.encoded_of_bytes filled
      cases byRoots.symm.trans (PhysicalPlan.ofTables_eq_ok.mp laid).2.2
      exact (PhysicalPlan.encode?_eq_some.mp encoded).1
    have starts : Traversal.Starts departing := trivial
    have rooted : Traversal.Rooted departing := ⟨trivial, ⟨trivial, trivial, trivial⟩, trivial⟩
    have workers : Deployment.standalone.workers ≠ 0 := by decide
    obtain ⟨accepted, compiles, _⟩ := compiles_iff_rooted starts assembles workers short
    exact ⟨starts, plan, assembles, accepted.mpr rooted, done ▸ compiles.mpr ⟨by decide, rooted⟩⟩

/-- The same with a union of one branch, whose node is not the root of the plan that its apply stands for. -/
def forkedDeparting : Traversal :=
  (Traversal.vertices []).add (.whereTraversal (Traversal.add [] (.union [Traversal.out [] []])))

theorem forkedDeparting_refused : Traversal.Starts forkedDeparting ∧
    (∃ plan, Assembles none forkedDeparting plan ∧ ∀ physical, PhysicalPlan.ofGraph plan 1 1 ≠ .ok physical) ∧
      compile .standalone none forkedDeparting = .error (.emptyBuild 1 1) := by
  obtain ⟨plan, assembles⟩ : ∃ plan, Assembles none forkedDeparting plan := exists_assembles (by decide +kernel)
  have starts : Traversal.Starts forkedDeparting := trivial
  have unlaid : ∀ physical, PhysicalPlan.ofGraph plan 1 1 ≠ .ok physical := by
    intro physical laid
    obtain ⟨_, _, _, _, accepted⟩ := PhysicalPlan.isOk_ofGraph_iff.mp ⟨physical, laid⟩
    obtain ⟨_, ⟨opens, _⟩, _⟩ := (assembles.accepted_iff starts).mp accepted
    cases opens (Traversal.out [] []) (List.mem_singleton_self _)
  refine ⟨starts, ⟨plan, assembles, unlaid⟩, ?_⟩
  rcases assembles.compile_cases .standalone with ⟨_, refused⟩ | ⟨filled, _⟩
  · exact refused
  · obtain ⟨physical, laid, _⟩ := PlanGraph.encoded_of_bytes filled
    exact absurd laid (unlaid physical)

end Compiler

end TraversalPlanner
