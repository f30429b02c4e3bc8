import TraversalPlanner.Compiler
import TraversalPlanner.Proofs.Sessions

/-! Accumulators that answer alike. Where one accumulator answers like another and the other's state can be seen in its
own, an assembly with the one mirrors the assembly with the other, request by request. A record of all calls is added
in this way. The answers may come apart where the state is too large for the other accumulator, as long as a state that
has become so stays so. -/

namespace TraversalPlanner

namespace Accumulator

variable {τ σ α : Type}

/-- If there is room left behind a call there was room before, and it answers alike and leaves alike what is seen of the
state. -/
def Reflects (room : τ → Prop) (view : τ → σ) (action : τ → α × τ) (seen : σ → α × σ) : Prop :=
  ∀ store, room (action store).2 → room store ∧ seen (view store) = (action store).map id view

structure Mirrors (room : τ → Prop) (view : τ → σ) (detailed : Accumulator τ) (plain : Accumulator σ) : Prop where
  append : ∀ op parents, Reflects room view (detailed.append op parents) (plain.append op parents)
  appendRoot : ∀ op scope, Reflects room view (detailed.appendRoot op scope) (plain.appendRoot op scope)
  text : Reflects room view detailed.text plain.text
  bytes : ∀ workers servers, Reflects room view (detailed.bytes workers servers) (plain.bytes workers servers)
  release : ∀ store, plain.release (view store) = view (detailed.release store)

theorem recorded_mirrors (base : Accumulator σ) : Mirrors (fun _ => True) Prod.fst base.recorded base where
  append _ _ _ _ := ⟨trivial, rfl⟩
  appendRoot _ _ _ _ := ⟨trivial, rfl⟩
  text _ _ := ⟨trivial, rfl⟩
  bytes _ _ _ _ := ⟨trivial, rfl⟩
  release _ := rfl

end Accumulator

def Assembly.seen {τ σ : Type} (view : τ → σ) (assembly : Assembly τ) : Assembly σ :=
  { store := view assembly.store, state := assembly.state }

namespace Assembling

variable {τ σ α β : Type} {room : τ → Prop} {view : τ → σ} {detailed : Accumulator τ} {plain : Accumulator σ}

/-- If there is room left behind the steps there was room before, and they answer alike and leave alike what is seen of
the assembly. -/
structure Mirrors (room : τ → Prop) (view : τ → σ) (program : Assembling τ α) (seen : Assembling σ α) : Prop where
  runs : ∀ before : Assembly τ, room (program.run before).2.store →
    room before.store ∧ seen.run (before.seen view) = (program.run before).map id (Assembly.seen view)

theorem Mirrors.pure (value : α) : Mirrors room view (pure value) (pure value) := ⟨fun _ left => ⟨left, rfl⟩⟩

theorem Mirrors.throw (error : Error) : Mirrors room view (throw error : Assembling τ α) (throw error) :=
  ⟨fun _ left => ⟨left, rfl⟩⟩

theorem Mirrors.bind {program : Assembling τ β} {seen : Assembling σ β} {next : β → Assembling τ α}
    {follow : β → Assembling σ α} (first : Mirrors room view program seen)
    (rest : ∀ value, Mirrors room view (next value) (follow value)) :
    Mirrors room view (program >>= next) (seen >>= follow) := by
  constructor
  intro before
  have start := first.runs before
  rw [run_bind, run_bind]
  generalize program.run before = outcome at start ⊢
  rcases outcome with ⟨error | value, after⟩
  · intro left
    obtain ⟨begun, same⟩ := start left
    rw [same]
    exact ⟨begun, rfl⟩
  · intro left
    obtain ⟨middle, alike⟩ := (rest value).runs after left
    obtain ⟨begun, same⟩ := start middle
    rw [same]
    exact ⟨begun, alike⟩

theorem Mirrors.checks (check : Except Error α) : Mirrors room view (liftM check) (liftM check) := by
  cases check with
  | error error => exact .throw error
  | ok value => exact .pure value

theorem Mirrors.call {action : τ → α × τ} {seen : σ → α × σ} (alike : Accumulator.Reflects room view action seen) :
    Mirrors room view (Assembly.call action) (Assembly.call seen) := by
  constructor
  intro before left
  obtain ⟨begun, same⟩ := alike before.store left
  refine ⟨begun, ?_⟩
  change ((.ok (seen (view before.store)).1, { store := (seen (view before.store)).2, state := before.state }) :
    Except Error α × Assembly σ) = _
  rw [same]
  rfl

theorem Mirrors.modify {change : Assembly τ → Assembly τ} {seen : Assembly σ → Assembly σ}
    (kept : ∀ assembly, (change assembly).store = assembly.store)
    (alike : ∀ assembly : Assembly τ, seen (assembly.seen view) = (change assembly).seen view) :
    Mirrors room view (modify change) (modify seen) := by
  constructor
  intro before left
  exact ⟨kept before ▸ left, congrArg (Prod.mk (Except.ok PUnit.unit)) (alike before)⟩

/-- What follows may depend on how far the assembly has come. -/
theorem Mirrors.reads {next : Assembly τ → Assembling τ α} {follow : Assembly σ → Assembling σ α}
    (alike : ∀ assembly : Assembly τ, Mirrors room view (next assembly) (follow (assembly.seen view))) :
    Mirrors room view (get >>= next) (get >>= follow) := ⟨fun before => (alike before).runs before⟩

theorem Mirrors.checkOpen : Mirrors room view Assembly.checkOpen Assembly.checkOpen := by
  refine .reads fun assembly => ?_
  change Mirrors room view (if assembly.state = .closed then _ else _) (if assembly.state = .closed then _ else _)
  split
  · exact .throw _
  · exact .pure _

end Assembling

namespace Assembly

open Assembling

variable {τ σ α : Type} {room : τ → Prop} {view : τ → σ} {detailed : Accumulator τ} {plain : Accumulator σ}

theorem placeLinked_mirrors (mirrors : Accumulator.Mirrors room view detailed plain) (parent scope : Int) (operator : Operator)
    (links : Links) :
    Mirrors room view (placeLinked detailed parent scope operator links) (placeLinked plain parent scope operator links) := by
  have begins (own last : Int) : Mirrors room view (do
      modify fun assembly : Assembly τ => if assembly.state = .created then { assembly with state := .building } else assembly
      return (own, last)) (do
      modify fun assembly : Assembly σ => if assembly.state = .created then { assembly with state := .building } else assembly
      return (own, last)) := by
    refine .bind (.modify (fun ⟨_, state⟩ => ?_) fun ⟨_, state⟩ => ?_) fun _ => .pure _
    · cases state <;> rfl
    · cases state <;> rfl
  have enters (op : NodeOp Int) (parents : List Int) : Accumulator.Reflects room view
      (fun store => if parents = [-1] then detailed.appendRoot op scope store else detailed.append op parents store)
      fun store => if parents = [-1] then plain.appendRoot op scope store else plain.append op parents store := by
    by_cases root : parents = [-1]
    · simp only [root, if_true]
      exact mirrors.appendRoot op scope
    · simp only [root, if_false]
      exact mirrors.append op parents
  refine .bind (.checks _) fun op => .bind (.call (enters op _)) fun _ => .bind (.checks _) fun own => ?_
  cases operator.tag with
  | none => exact begins own own
  | some tag =>
    cases operator.kind.carriesAlias with
    | true => exact begins own own
    | false => exact .bind (.call (mirrors.append _ _)) fun _ => .bind (.checks _) fun last => begins own last

private theorem checked_mirrors {next : Assembling τ α} {follow : Assembling σ α} (operator : Operator)
    (rest : Mirrors room view next follow) :
    Mirrors room view (do
      checkOpen
      operator.checkBranching
      next) (do
      checkOpen
      operator.checkBranching
      follow) :=
  .bind .checkOpen fun _ => .bind (.checks operator.checkBranching) fun _ => rest

private theorem mirroring (mirrors : Accumulator.Mirrors room view detailed plain) :
    (∀ parent scope operator, Mirrors room view (place detailed parent scope operator) (place plain parent scope operator)) ∧
      (∀ parent scope branches,
        Mirrors room view (placeBranches detailed parent scope branches) (placeBranches plain parent scope branches)) ∧
      ∀ first parent scope operators,
        Mirrors room view (placeFrom detailed first parent scope operators) (placeFrom plain first parent scope operators) := by
  refine place.mutual_induct _ _ _ ?_ ?_ ?_ ?_ ?_ ?_ ?_
  · intro parent scope sub subRoot join tag inner
    rw [place.eq_1, place.eq_1]
    exact checked_mirrors _ (inner.bind fun _ => placeLinked_mirrors mirrors parent scope _ _)
  · intro parent scope branches parents tag inner
    rw [place.eq_2, place.eq_2]
    exact checked_mirrors _ (inner.bind fun _ => placeLinked_mirrors mirrors parent scope _ _)
  · intro parent scope operator noApply noUnion
    rw [place.eq_3 _ _ _ _ noApply noUnion, place.eq_3 _ _ _ _ noApply noUnion]
    exact checked_mirrors _ (placeLinked_mirrors mirrors parent scope _ _)
  · intro first parent scope
    exact .pure _
  · intro first parent scope operator rest here later
    rw [placeFrom.eq_2, placeFrom.eq_2]
    exact here.bind fun placed => later placed.1 placed.2
  · intro parent scope
    exact .pure _
  · intro parent scope branch rest here later
    rw [placeBranches.eq_2, placeBranches.eq_2]
    exact here.bind fun _ => later.bind fun _ => .pure _

theorem appendAll_mirrors (mirrors : Accumulator.Mirrors room view detailed plain) (parent : Int) (operators : List Operator) :
    Mirrors room view (appendAll detailed parent operators) (appendAll plain parent operators) :=
  (mirroring mirrors).2.2 none parent (-1) operators

theorem physicalBytes_mirrors (mirrors : Accumulator.Mirrors room view detailed plain) (workers servers : UInt32) :
    Mirrors room view (physicalBytes detailed workers servers) (physicalBytes plain workers servers) := by
  refine .reads fun assembly => ?_
  change Mirrors room view (if assembly.state = .closed then _ else _) (if assembly.state = .closed then _ else _)
  split
  · exact .throw _
  refine .bind (.call (mirrors.bytes workers servers)) fun bytes => ?_
  cases bytes.isEmpty with
  | true => exact .throw _
  | false => exact .bind (.modify (fun _ => rfl) fun _ => rfl) fun _ => .pure _

theorem planText_mirrors (mirrors : Accumulator.Mirrors room view detailed plain) :
    Mirrors room view (planText detailed) (planText plain) :=
  .bind .checkOpen fun _ => .bind (.call mirrors.text) fun _ => .checks _

theorem seen_close (mirrors : Accumulator.Mirrors room view detailed plain) (assembly : Assembly τ) :
    (assembly.seen view).close plain = (assembly.close detailed).seen view := by
  unfold close
  change (if assembly.state = .closed then _ else _) = _
  split
  · rfl
  · exact congrArg (Assembly.mk · .closed) (mirrors.release assembly.store)

theorem seen_perform (mirrors : Accumulator.Mirrors room view detailed plain) (roomy : ∀ store, room store)
    (assembly : Assembly τ) (request : Request) :
    perform plain (assembly.seen view) request = (perform detailed assembly request).seen view := by
  cases request with
  | append parent operator =>
    have appends := ((mirroring mirrors).1 parent (-1) operator).bind fun placed => Mirrors.pure placed.2
    exact congrArg Prod.snd (appends.runs assembly (roomy _)).2
  | appendAll parent operators =>
    exact congrArg Prod.snd ((appendAll_mirrors mirrors parent operators).runs assembly (roomy _)).2
  | physicalBytes workers servers =>
    exact congrArg Prod.snd ((physicalBytes_mirrors mirrors workers servers).runs assembly (roomy _)).2
  | planText => exact congrArg Prod.snd ((planText_mirrors mirrors).runs assembly (roomy _)).2
  | close => exact seen_close mirrors assembly

theorem seen_session (mirrors : Accumulator.Mirrors room view detailed plain) (roomy : ∀ store, room store)
    (assembly : Assembly τ) (requests : List Request) :
    session plain (assembly.seen view) requests = (session detailed assembly requests).seen view := by
  induction requests generalizing assembly with
  | nil => rfl
  | cons request rest step =>
    change session plain (perform plain (assembly.seen view) request) rest = _
    rw [seen_perform mirrors roomy]
    exact step _

end Assembly

namespace Compiler

open Assembly Assembling

variable {τ σ α : Type} {room : τ → Prop} {view : τ → σ} {detailed : Accumulator τ} {plain : Accumulator σ}

/-- What is seen of an outcome. -/
def Outcome.seen (view : τ → σ) (outcome : Outcome τ α) : Outcome σ α :=
  { answer := outcome.answer, store := outcome.store.map view }

theorem seen_run (mirrors : Accumulator.Mirrors room view detailed plain) {fresh : τ} {traversal : Traversal}
    {finish : List Operator → Nat → Assembling τ α} {seen : List Operator → Nat → Assembling σ α}
    (fits : ∀ operators, traversal.build = .ok operators →
      room ((appendAll detailed (-1) operators >>= fun placed => finish operators (placed.2 + 1).toNat).run
        (start fresh)).2.store)
    (finishes : ∀ operators count, Mirrors room view (finish operators count) (seen operators count)) :
    run plain (view fresh) traversal seen = (run detailed fresh traversal finish).seen view := by
  unfold run
  cases built : traversal.build with
  | error error => rfl
  | ok operators =>
    let program := appendAll detailed (-1) operators >>= fun placed => finish operators (placed.2 + 1).toNat
    let follow := appendAll plain (-1) operators >>= fun placed => seen operators (placed.2 + 1).toNat
    have mirrored : Mirrors room view program follow :=
      (appendAll_mirrors mirrors (-1) operators).bind fun _ => finishes operators _
    have alike : follow.run (start (view fresh)) = (program.run (start fresh)).map id (Assembly.seen view) :=
      (mirrored.runs (start fresh) (fits operators built)).2
    change Outcome.mk (follow.run (start (view fresh))).1
      (some ((follow.run (start (view fresh))).2.close plain).store) = _
    rw [alike]
    exact congrArg (fun closed => Outcome.mk _ (some closed.store)) (seen_close mirrors (program.run (start fresh)).2)

theorem seen_compileWith (mirrors : Accumulator.Mirrors room view detailed plain) (roomy : ∀ store, room store) (fresh : τ)
    (deployment : Deployment) (traversal : Traversal) : compileWith plain (view fresh) deployment traversal =
      (compileWith detailed fresh deployment traversal).seen view :=
  seen_run mirrors (fun _ _ => roomy _) fun _ _ => .bind (physicalBytes_mirrors mirrors _ _) fun _ => .pure _

theorem seen_explainWith (mirrors : Accumulator.Mirrors room view detailed plain) (roomy : ∀ store, room store) (fresh : τ)
    (traversal : Traversal) : explainWith plain (view fresh) traversal = (explainWith detailed fresh traversal).seen view :=
  seen_run mirrors (fun _ _ => roomy _) fun _ _ => planText_mirrors mirrors

end Compiler

end TraversalPlanner
