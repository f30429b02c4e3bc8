import TraversalPlanner.Proofs.Serialization

/-! What a schema does to the plan of a traversal: it may refuse nodes, and apart from that nothing depends on it.
Two runs of the same steps are followed, from states that differ in their schemas alone. As long as the stricter
schema refuses nothing, they come to the same. -/

namespace TraversalPlanner

open Proofs

/-- Everything that the schema knows, the other knows too. -/
structure Schema.Within (schema other : Schema) : Prop where
  vertices : ∀ label, schema.knowsVertexLabel label = true → other.knowsVertexLabel label = true
  edges : ∀ label, schema.knowsEdgeLabel label = true → other.knowsEdgeLabel label = true
  properties : ∀ name, schema.knowsProperty name = true → other.knowsProperty name = true

/-- What passes under the stricter schema passes under the wider one, if that is one at all. -/
def Schema.Stricter (strict wider : Option Schema) : Prop :=
  ∀ other, wider = some other → ∃ schema, strict = some schema ∧ schema.Within other

/-- The schema does not know a table or a column. -/
def Refusal.Unknown (refusal : Refusal) : Prop := refusal = .tableNotExist ∨ refusal = .columnNotExist

namespace PlanGraph

variable {plan : PlanGraph} {op : NodeOp Int} {strict wider : Option Schema}

/-- The same plan under another schema. -/
def under (plan : PlanGraph) (schema : Option Schema) : PlanGraph := { plan with schema }

private theorem checked_twice {first second : Bool} {one other : Refusal} :
    (if !first then .error one else if !second then .error other else .ok () : Except Refusal Unit) = .ok () ↔
      first = true ∧ second = true := by
  cases first <;> cases second <;> simp

theorem checkSchema_eq_ok {schema : Schema} : (plan.under (some schema)).checkSchema op = .ok () ↔
    (∀ table ∈ (tablesOf op).1,
      (if (tablesOf op).2 then schema.knowsVertexLabel table else schema.knowsEdgeLabel table) = true) ∧
    ∀ reference ∈ op.references, ∀ name, reference.property = some (.key name) → schema.knowsProperty name = true := by
  refine checked_twice.trans (and_congr List.all_eq_true (List.all_eq_true.trans (forall₂_congr fun reference _ => ?_)))
  split
  · next name given => simp [given]
  · next other => exact iff_of_true rfl fun name given => absurd given (other name)

theorem checkSchema_mono (stricter : Schema.Stricter strict wider) (passed : (plan.under strict).checkSchema op = .ok ()) :
    (plan.under wider).checkSchema op = .ok () := by
  cases wider with
  | none => rfl
  | some other =>
    obtain ⟨schema, same, inside⟩ := stricter other rfl
    subst same
    rw [checkSchema_eq_ok] at passed ⊢
    refine ⟨fun table member => ?_, fun reference member name given =>
      inside.properties name (passed.2 reference member name given)⟩
    have known := passed.1 table member
    by_cases ofVertices : (tablesOf op).2 = true
    · rw [if_pos ofVertices] at known ⊢
      exact inside.vertices table known
    · rw [if_neg ofVertices] at known ⊢
      exact inside.edges table known

/-- What an append comes to, with the plan under a schema. -/
def grownUnder (schema : Option Schema) : Except Refusal (Nat × PlanGraph) → Except Refusal (Nat × PlanGraph) :=
  Except.map fun grown => (grown.1, grown.2.under schema)

theorem enter_released {inputs : List Int} {scope : Int} (gone : plan.released = true) :
    plan.enter op inputs scope = .error .planReleased := by
  unfold enter append appendRoot
  rw [gone]
  split <;> rfl

/-- Tables and columns are checked before tags, so a tag is only missed where both schemas have let the node pass. -/
theorem insert_filtered (stricter : Schema.Stricter strict wider) (parents : List Nat) (visible : List Identifier) :
    (∃ refusal, Refusal.Unknown refusal ∧ (plan.under strict).insert op parents visible = .error refusal) ∨
      ∃ result, (plan.under strict).insert op parents visible = grownUnder strict result ∧
        (plan.under wider).insert op parents visible = grownUnder wider result := by
  unfold insert
  cases known : (plan.under strict).checkSchema op with
  | error refusal => exact .inl ⟨refusal, checkSchema_eq_error known, rfl⟩
  | ok _ =>
    rw [checkSchema_mono stricter known]
    cases seen : checkTags visible op with
    | error refusal => exact .inr ⟨.error refusal, rfl, rfl⟩
    | ok _ => exact .inr ⟨.ok (plan.size, plan.grow op parents visible), rfl, rfl⟩

theorem enter_filtered (stricter : Schema.Stricter strict wider) (inputs : List Int) (scope : Int) :
    (∃ refusal, Refusal.Unknown refusal ∧ (plan.under strict).enter op inputs scope = .error refusal) ∨
      ∃ result, (plan.under strict).enter op inputs scope = grownUnder strict result ∧
        (plan.under wider).enter op inputs scope = grownUnder wider result := by
  cases kept : plan.released with
  | true =>
    have refused (schema : Option Schema) : (plan.under schema).enter op inputs scope = .error .planReleased :=
      enter_released kept
    exact .inr ⟨.error .planReleased, refused strict, refused wider⟩
  | false =>
    have entered (schema : Option Schema) : (plan.under schema).enter op inputs scope =
        plan.footing inputs scope >>= fun ground => (plan.under schema).insert op ground.1 ground.2 := enter_eq kept
    rw [entered, entered]
    cases plan.footing inputs scope with
    | error refusal => exact .inr ⟨.error refusal, rfl, rfl⟩
    | ok ground => exact insert_filtered stricter ground.1 ground.2

end PlanGraph

namespace Assembly

open Assembling

variable {α β : Type} {strict wider : Option Schema} {operator : Operator}

def under (assembly : Assembly PlanGraph) (schema : Option Schema) : Assembly PlanGraph :=
  { assembly with store := assembly.store.under schema }

/-- The ends of two runs: the stricter schema does not know something, or they are the same. -/
inductive Filtered (strict wider : Option Schema) :
    Except Error α × Assembly PlanGraph → Except Error α × Assembly PlanGraph → Prop
  | refused {kind : OperatorKind} {refusal : Refusal} {after : Assembly PlanGraph}
      {other : Except Error α × Assembly PlanGraph} (unknown : refusal.Unknown) :
      Filtered strict wider (.error (.appendFailed kind refusal), after) other
  | same (result : Except Error α) (after : Assembly PlanGraph) :
      Filtered strict wider (result, after.under strict) (result, after.under wider)

structure Filters (strict wider : Option Schema) (program : Assembling PlanGraph α) : Prop where
  holds : ∀ before : Assembly PlanGraph,
    Filtered strict wider (program.run (before.under strict)) (program.run (before.under wider))

theorem Filters.pure (value : α) : Filters strict wider (pure value) := ⟨fun before => .same (.ok value) before⟩

theorem Filters.throw (error : Error) : Filters strict wider (throw error : Assembling PlanGraph α) :=
  ⟨fun before => .same (.error error) before⟩

theorem Filters.bind {program : Assembling PlanGraph β} {next : β → Assembling PlanGraph α}
    (first : Filters strict wider program) (rest : ∀ value, Filters strict wider (next value)) :
    Filters strict wider (program >>= next) := by
  constructor
  intro before
  have ends := first.holds before
  rw [run_bind, run_bind]
  generalize program.run (before.under strict) = ended at ends ⊢
  generalize program.run (before.under wider) = finished at ends ⊢
  cases ends with
  | refused unknown => exact .refused unknown
  | same result after =>
    cases result with
    | error error => exact .same (.error error) after
    | ok value => exact (rest value).holds after

theorem Filters.checks (check : Except Error α) : Filters strict wider (liftM check) := by
  cases check with
  | error error => exact .throw error
  | ok value => exact .pure value

theorem Filters.checkOpen : Filters strict wider Assembly.checkOpen := by
  constructor
  intro before
  obtain ⟨store, state⟩ := before
  cases state with
  | closed => exact .same (.error .useAfterClose) ⟨store, .closed⟩
  | _ => exact .same (.ok ()) ⟨store, _⟩

theorem settle_under (before : Assembly PlanGraph) (operator : Operator) (result : Except Refusal (Nat × PlanGraph))
    (schema : Option Schema) : (before.under schema).settle operator (PlanGraph.grownUnder schema result) =
      ((before.settle operator result).1, (before.settle operator result).2.under schema) := by
  cases result with
  | error refusal => rfl
  | ok grown =>
    simp only [PlanGraph.grownUnder, Except.map, settle]
    cases operator.trailing <;> rfl

theorem placeLinked_filters (stricter : Schema.Stricter strict wider) (parent scope : Int) (operator : Operator)
    (links : Links) : Filters strict wider (placeLinked PlanGraph.accumulator parent scope operator links) := by
  constructor
  intro before
  rw [run_placeLinked, run_placeLinked]
  cases operator.toNode links with
  | error error => exact .same (.error error) before
  | ok op =>
    change Filtered strict wider
      ((before.under strict).settle operator ((before.store.under strict).enter op (op.inputs parent) scope))
      ((before.under wider).settle operator ((before.store.under wider).enter op (op.inputs parent) scope))
    rcases PlanGraph.enter_filtered stricter (op.inputs parent) scope with ⟨refusal, unknown, refused⟩ | ⟨result, one, other⟩
    · rw [refused]
      exact .refused unknown
    · rw [one, other, settle_under, settle_under]
      exact .same _ _

private theorem checked_filters {next : Assembling PlanGraph α} (operator : Operator) (rest : Filters strict wider next) :
    Filters strict wider (do
      checkOpen
      operator.checkBranching
      next) :=
  .bind .checkOpen fun _ => .bind (.checks operator.checkBranching) fun _ => rest

theorem placeFrom_filters (stricter : Schema.Stricter strict wider) (first : Option Int) (parent scope : Int)
    (operators : List Operator) : Filters strict wider (placeFrom PlanGraph.accumulator first parent scope operators) := by
  refine (place.mutual_induct
    (fun parent scope operator => Filters strict wider (place PlanGraph.accumulator parent scope operator))
    (fun parent scope branches => Filters strict wider (placeBranches PlanGraph.accumulator parent scope branches))
    (fun first parent scope operators => Filters strict wider (placeFrom PlanGraph.accumulator first parent scope operators))
    ?_ ?_ ?_ ?_ ?_ ?_ ?_).2.2 first parent scope operators
  · intro parent scope sub subRoot join tag inner
    rw [place.eq_1]
    exact checked_filters _ (inner.bind fun _ => placeLinked_filters stricter parent scope _ _)
  · intro parent scope branches parents tag inner
    rw [place.eq_2]
    exact checked_filters _ (inner.bind fun _ => placeLinked_filters stricter parent scope _ _)
  · intro parent scope operator noApply noUnion
    rw [place.eq_3 _ _ _ _ noApply noUnion]
    exact checked_filters _ (placeLinked_filters stricter parent scope _ _)
  · intro first parent scope
    exact .pure _
  · intro first parent scope operator rest here later
    rw [placeFrom.eq_2]
    exact here.bind fun placed => later placed.1 placed.2
  · intro parent scope
    exact .pure _
  · intro parent scope branch rest here later
    rw [placeBranches.eq_2]
    exact here.bind fun _ => later.bind fun _ => .pure _

theorem physicalBytes_filters (workers servers : UInt32) :
    Filters strict wider (physicalBytes PlanGraph.accumulator workers servers) := by
  constructor
  intro before
  by_cases opened : before.state = .closed
  · obtain ⟨store, state⟩ := before
    cases opened
    exact .same (.error .closedBeforeBuild) ⟨store, .closed⟩
  · have ran (schema : Option Schema) :
        (physicalBytes PlanGraph.accumulator workers servers).run (before.under schema) = _ := run_physicalBytes opened
    rw [ran, ran]
    change Filtered strict wider
      (if (before.store.bytes workers servers).isEmpty then (.error (.emptyBuild workers servers), before.under strict)
        else (.ok (before.store.bytes workers servers), { before.under strict with state := .serialized }))
      (if (before.store.bytes workers servers).isEmpty then (.error (.emptyBuild workers servers), before.under wider)
        else (.ok (before.store.bytes workers servers), { before.under wider with state := .serialized }))
    split
    · exact .same (.error (.emptyBuild workers servers)) before
    · exact .same (.ok (before.store.bytes workers servers)) { before with state := .serialized }

end Assembly

namespace Compiler

open Assembly

variable {strict wider : Option Schema} {deployment : Deployment} {traversal : Traversal}

theorem run_filtered {α : Type} {finish : List Operator → Nat → Assembling PlanGraph α}
    (stricter : Schema.Stricter strict wider)
    (finishes : ∀ operators count, Filters strict wider (finish operators count)) :
    (∃ kind refusal, (run PlanGraph.accumulator (.empty strict) traversal finish).answer =
        .error (.appendFailed kind refusal) ∧ Refusal.Unknown refusal) ∨
      (run PlanGraph.accumulator (.empty strict) traversal finish).answer =
        (run PlanGraph.accumulator (.empty wider) traversal finish).answer := by
  unfold run
  cases traversal.build with
  | error error => exact .inr rfl
  | ok operators =>
    let program : Assembling PlanGraph α :=
      appendAll PlanGraph.accumulator (-1) operators >>= fun placed => finish operators (placed.2 + 1).toNat
    have filters : Filters strict wider program :=
      (placeFrom_filters stricter none (-1) (-1) operators).bind fun _ => finishes operators _
    have ends := filters.holds (start (.empty none))
    change (∃ kind refusal, (program.run (start (.empty strict))).1 = .error (.appendFailed kind refusal) ∧
      Refusal.Unknown refusal) ∨ (program.run (start (.empty strict))).1 = (program.run (start (.empty wider))).1
    change Filtered strict wider (program.run (start (.empty strict))) (program.run (start (.empty wider))) at ends
    generalize program.run (start (.empty strict)) = ended at ends ⊢
    generalize program.run (start (.empty wider)) = finished at ends ⊢
    cases ends with
    | refused unknown => exact .inl ⟨_, _, rfl, unknown⟩
    | same => exact .inr rfl

/-- A traversal compiles to the same under both schemas, unless the stricter one does not know something. -/
theorem compile_filtered (stricter : Schema.Stricter strict wider) :
    (∃ kind refusal, compile deployment strict traversal = .error (.appendFailed kind refusal) ∧ Refusal.Unknown refusal) ∨
      compile deployment strict traversal = compile deployment wider traversal :=
  run_filtered stricter fun _ _ => (physicalBytes_filters deployment.workers deployment.servers).bind fun _ => .pure _

/-- What compiles under a schema compiles to the same under each that knows more, and under none. What does not
compile under none does not for the same reason under any, unless the schema finds one before. -/
theorem compile_schema_filters (schema : Schema) (deployment : Deployment) (traversal : Traversal) :
    (∀ compiled, compile deployment (some schema) traversal = .ok compiled →
      (∀ other, schema.Within other → compile deployment (some other) traversal = .ok compiled) ∧
        compile deployment none traversal = .ok compiled) ∧
      ∀ error, compile deployment none traversal = .error error →
        compile deployment (some schema) traversal = .error error ∨
          ∃ kind refusal, compile deployment (some schema) traversal = .error (.appendFailed kind refusal) ∧
            (refusal = .tableNotExist ∨ refusal = .columnNotExist) := by
  have unschemed : Schema.Stricter (some schema) none := nofun
  have kept {wider : Option Schema} (stricter : Schema.Stricter (some schema) wider) {compiled : Compiled}
      (done : compile deployment (some schema) traversal = .ok compiled) :
      compile deployment wider traversal = .ok compiled := by
    rcases compile_filtered stricter with ⟨_, _, refused, _⟩ | same
    · cases done.symm.trans refused
    · exact same.symm.trans done
  refine ⟨fun compiled done => ⟨fun other inside => kept ?_ done, kept unschemed done⟩, fun error failed => ?_⟩
  · intro wider same
    cases same
    exact ⟨schema, rfl, inside⟩
  · rcases compile_filtered unschemed with refused | same
    · exact .inr refused
    · exact .inl (same.trans failed)

/-- People who know each other. -/
def people : Schema where
  vertexLabels := [{ id := 0, name := "person", properties := [{ id := 0, name := "name" }] }]
  edgeLabels := [{ id := 0, name := "knows", properties := [] }]

/-- The same people, and software that they have created. -/
def creators : Schema where
  vertexLabels := people.vertexLabels ++ [{ id := 1, name := "software", properties := [] }]
  edgeLabels := people.edgeLabels ++ [{ id := 1, name := "created", properties := [] }]

theorem people_within_creators : people.Within creators := by
  have any_append {definitions : List SchemaLabel} (more : List SchemaLabel) {holds : SchemaLabel → Bool}
      (found : definitions.any holds = true) : (definitions ++ more).any holds = true := by
    rw [List.any_append, found, Bool.true_or]
  refine ⟨fun label => any_append _, fun label => any_append _, fun name known => ?_⟩
  simp only [Schema.knowsProperty, creators, List.any_append, Bool.or_eq_true] at known ⊢
  exact known.imp .inl .inl

/-- The names of the acquaintances of people. -/
def acquaintances : Traversal :=
  (Traversal.out ((Traversal.vertices []).add (.hasLabel ["person"])) ["knows"]).add (.values ["name"])

def nobody : Traversal := (Traversal.vertices []).add (.limit (-1))

theorem acquaintances_filtered :
    (∃ compiled, compile .standalone (some people) acquaintances = .ok compiled ∧ people.Within creators ∧
      compile .standalone (some creators) acquaintances = .ok compiled ∧
      compile .standalone none acquaintances = .ok compiled) ∧
    ∃ error, compile .standalone none nobody = .error error ∧
      (compile .standalone (some people) nobody = .error error ∨
        ∃ kind refusal, compile .standalone (some people) nobody = .error (.appendFailed kind refusal) ∧
          (refusal = .tableNotExist ∨ refusal = .columnNotExist)) := by
  have passes : (compile .standalone (some people) acquaintances).isOk = true := by decide +kernel
  obtain ⟨compiled, done⟩ := ok_of_isOk passes
  obtain ⟨wider, unschemed⟩ := (compile_schema_filters people .standalone acquaintances).1 compiled done
  have failed : compile .standalone none nobody = .error (.illegalSlot .limit .upper (.crossedBounds 0 (-1))) := rfl
  exact ⟨⟨compiled, done, people_within_creators, wider creators people_within_creators, unschemed⟩, _, failed,
    (compile_schema_filters people .standalone nobody).2 _ failed⟩

end Compiler

end TraversalPlanner
