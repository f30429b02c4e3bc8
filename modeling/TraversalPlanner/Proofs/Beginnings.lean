import TraversalPlanner.Proofs.Release
import TraversalPlanner.Proofs.Serialization

/-! How far an assembly has come, told from the calls that it has made. It begins when an operator has been put in
whole, its name included. So it has not begun when nothing has been accepted, and neither when nodes have been
accepted only to be refused their names at once. -/

namespace TraversalPlanner

namespace Accumulator

namespace Call

/-- A node has been appended. -/
def accepted : Call → Bool
  | .append _ _ answer => answer.isOk
  | .appendRoot _ _ answer => answer.isOk
  | _ => false

/-- A node has been refused its name. -/
def unnames : Call → Bool
  | .append (.bind _) _ answer => !answer.isOk
  | _ => false

/-- The plan has been laid out. -/
def builds : Call → Bool
  | .bytes _ _ answer => !answer.isEmpty
  | _ => false

variable {call : Call}

theorem builds_of_accepted (accepted : call.accepted = true) : call.builds = false := by
  cases call with
  | append | appendRoot => rfl
  | _ => cases accepted

theorem vain_of_unnames (unnames : call.unnames = true) : call.accepted = false ∧ call.builds = false := by
  cases call with
  | append op parents answer =>
    refine ⟨?_, rfl⟩
    cases op with
    | bind tag => simpa [Call.unnames, Call.accepted] using unnames
    | _ => cases unnames
  | _ => cases unnames

end Call

/-- Nothing has come of the calls: each node that was accepted was refused its name right away, and no plan has been
laid out. -/
structure Fruitless (calls : List Call) : Prop where
  undone : ∀ place call, calls[place]? = some call → call.accepted = true →
    ∃ next, calls[place + 1]? = some next ∧ next.unnames = true
  unbuilt : ∀ call ∈ calls, call.builds = false

variable {calls : List Call}

theorem fruitless_nil : Fruitless [] where
  undone place call found := by simp at found
  unbuilt := List.forall_mem_nil _

private theorem getElem?_snoc {call found : Call} {place : Nat} :
    (calls ++ [call])[place]? = some found ↔ calls[place]? = some found ∨ place = calls.length ∧ call = found := by
  rw [List.getElem?_append, List.getElem?_singleton]
  grind

/-- A call that refuses no name leaves things as they are only if it comes to nothing itself. -/
theorem fruitless_snoc {call : Call} (plain : call.unnames = false) :
    Fruitless (calls ++ [call]) ↔ Fruitless calls ∧ call.accepted = false ∧ call.builds = false := by
  constructor
  · intro fruitless
    refine ⟨⟨fun place earlier found accepted => ?_, fun earlier member => ?_⟩, ?_, ?_⟩
    · obtain ⟨next, behind, unnames⟩ := fruitless.undone place earlier (getElem?_snoc.mpr (.inl found)) accepted
      rcases getElem?_snoc.mp behind with behind | ⟨_, rfl⟩
      · exact ⟨next, behind, unnames⟩
      · cases plain.symm.trans unnames
    · exact fruitless.unbuilt earlier (List.mem_append_left _ member)
    · by_contra accepted
      obtain ⟨next, behind, _⟩ :=
        fruitless.undone calls.length call (getElem?_snoc.mpr (.inr ⟨rfl, rfl⟩)) (by simpa using accepted)
      simp at behind
    · exact fruitless.unbuilt call (List.mem_append_right _ List.mem_cons_self)
  · rintro ⟨fruitless, vain, unbuilt⟩
    refine ⟨fun place earlier found accepted => ?_, List.forall_mem_append.mpr ⟨fruitless.unbuilt, ?_⟩⟩
    · rcases getElem?_snoc.mp found with found | ⟨_, rfl⟩
      · obtain ⟨next, behind, unnames⟩ := fruitless.undone place earlier found accepted
        exact ⟨next, getElem?_snoc.mpr (.inl behind), unnames⟩
      · cases vain.symm.trans accepted
    · exact List.forall_mem_singleton.mpr unbuilt

/-- A node that is refused its name has been appended in vain. -/
theorem fruitless_unnamed {entered refused : Call} (plain : entered.unnames = false) (accepted : entered.accepted = true)
    (unnames : refused.unnames = true) : Fruitless (calls ++ [entered] ++ [refused]) ↔ Fruitless calls := by
  obtain ⟨vain, unbuilt⟩ := Call.vain_of_unnames unnames
  constructor
  · intro fruitless
    refine ⟨fun place earlier found accepted => ?_, fun earlier member => ?_⟩
    · obtain ⟨next, behind, later⟩ :=
        fruitless.undone place earlier (getElem?_snoc.mpr (.inl (getElem?_snoc.mpr (.inl found)))) accepted
      have inside : place < calls.length := (List.getElem?_eq_some_iff.mp found).1
      rcases getElem?_snoc.mp behind with behind | ⟨beyond, _⟩
      · rcases getElem?_snoc.mp behind with behind | ⟨_, rfl⟩
        · exact ⟨next, behind, later⟩
        · cases plain.symm.trans later
      · rw [List.length_append, List.length_singleton] at beyond
        omega
    · exact fruitless.unbuilt earlier (List.mem_append_left _ (List.mem_append_left _ member))
  · intro fruitless
    refine ⟨fun place earlier found accepted => ?_, ?_⟩
    · rcases getElem?_snoc.mp found with found | ⟨_, rfl⟩
      · rcases getElem?_snoc.mp found with found | ⟨rfl, _⟩
        · obtain ⟨next, behind, later⟩ := fruitless.undone place earlier found accepted
          exact ⟨next, getElem?_snoc.mpr (.inl (getElem?_snoc.mpr (.inl behind))), later⟩
        · exact ⟨refused, getElem?_snoc.mpr (.inr ⟨by simp, rfl⟩), unnames⟩
      · cases vain.symm.trans accepted
    · refine List.forall_mem_append.mpr ⟨List.forall_mem_append.mpr ⟨fruitless.unbuilt, ?_⟩, ?_⟩
      · exact List.forall_mem_singleton.mpr (Call.builds_of_accepted accepted)
      · exact List.forall_mem_singleton.mpr unbuilt

/-- The states that an accumulator comes to before it accepts a node. -/
inductive Idle {σ : Type} (accumulator : Accumulator σ) (fresh : σ) : σ → Prop
  | fresh : Idle accumulator fresh fresh
  | append {store} (op : NodeOp Int) (parents : List Int) (idle : Idle accumulator fresh store)
      (refused : (accumulator.append op parents store).1.isOk = false) :
      Idle accumulator fresh (accumulator.append op parents store).2
  | appendRoot {store} (op : NodeOp Int) (scope : Int) (idle : Idle accumulator fresh store)
      (refused : (accumulator.appendRoot op scope store).1.isOk = false) :
      Idle accumulator fresh (accumulator.appendRoot op scope store).2
  | text {store} (idle : Idle accumulator fresh store) : Idle accumulator fresh (accumulator.text store).2
  | bytes {store} (workers servers : UInt32) (idle : Idle accumulator fresh store) :
      Idle accumulator fresh (accumulator.bytes workers servers store).2

end Accumulator

namespace Assembly

open Accumulator Assembling

variable {σ : Type} {accumulator : Accumulator σ} {fresh : σ} {parent scope : Int} {operator : Operator} {links : Links}
  {before : Assembly (σ × List Call)}

/-- The assembly is open, and has not begun if its calls have come to nothing. -/
structure Accounted (assembly : Assembly (σ × List Call)) : Prop where
  opened : assembly.state ≠ .closed
  created : assembly.state = .created ↔ Fruitless assembly.store.2

/-- What a call for a node leaves behind. -/
structure Asked (before : Assembly (σ × List Call)) (accepted : Bool) (after : Assembly (σ × List Call)) : Prop where
  state : after.state = before.state
  called : ∃ call : Call, after.store.2 = before.store.2 ++ [call] ∧ call.unnames = false ∧ call.builds = false ∧
    call.accepted = accepted

theorem Accounted.asked {after : Assembly (σ × List Call)} (accounted : Accounted before) (asked : Asked before false after) :
    Accounted after := by
  obtain ⟨state, call, called, plain, unbuilt, vain⟩ := asked
  refine ⟨state ▸ accounted.opened, ?_⟩
  rw [state, accounted.created, called, fruitless_snoc plain]
  simp [vain, unbuilt]

/-- An assembly that has made something of a call has begun. -/
theorem accounted_begun {middle : Assembly (σ × List Call)} (opened : middle.state ≠ .closed)
    (fruitful : ¬ Fruitless middle.store.2) (own last : Int) :
    Ends (do
      modify fun assembly => if assembly.state = .created then { assembly with state := .building } else assembly
      return (own, last)) middle (fun _ after => Accounted after ∧ True) fun _ after => Accounted after := by
  refine Ends.bind (fun _ after => Accounted after) (.modify ?_) fun _ _ held => .pure ⟨held, trivial⟩
  obtain ⟨store, state⟩ := middle
  cases state with
  | created => exact ⟨nofun, iff_of_false nofun fruitful⟩
  | building | serialized => exact ⟨nofun, iff_of_false nofun fruitful⟩
  | closed => exact absurd rfl opened

theorem unnames_of_lowered {op : NodeOp Int} (lowered : operator.toNode links = .ok op) (parents : List Int)
    (answer : Except Refusal Int) : (Call.append op parents answer).unnames = false := by
  have kind := (Operator.lowersTo_of_toNode lowered).kind
  cases op with
  | bind tag => cases kind
  | _ => rfl

theorem asked_of_call {op : NodeOp Int} (lowered : operator.toNode links = .ok op) (parents : List Int) :
    (call fun store => if parents = [-1] then accumulator.recorded.appendRoot op scope store
      else accumulator.recorded.append op parents store).Ends before (fun answer after => Asked before answer.isOk after)
      fun _ after => Accounted after := by
  refine .call ⟨rfl, ?_⟩
  split
  · exact ⟨_, rfl, rfl, rfl, rfl⟩
  · exact ⟨_, rfl, unnames_of_lowered lowered parents _, rfl, rfl⟩

theorem Asked.fruitful {after : Assembly (σ × List Call)} (asked : Asked before true after) :
    ¬ Fruitless after.store.2 := by
  obtain ⟨_, call, called, plain, _, accepted⟩ := asked
  rw [called, fruitless_snoc plain, accepted]
  simp

/-- The name of a node that has been accepted is asked for in the next call. -/
structure Named (before : Assembly (σ × List Call)) (accepted : Bool) (after : Assembly (σ × List Call)) : Prop where
  state : after.state = before.state
  called : ∃ entered bound : Call, after.store.2 = before.store.2 ++ [entered] ++ [bound] ∧ entered.unnames = false ∧
    entered.accepted = true ∧ bound.unnames = !accepted ∧ bound.accepted = accepted

theorem Asked.named {after : Assembly (σ × List Call)} (asked : Asked before true after) (tag : Identifier) (own : Int) :
    (call (accumulator.recorded.append (.bind tag) [own])).Ends after (fun answer named => Named before answer.isOk named)
      fun _ after => Accounted after := by
  obtain ⟨state, entered, called, plain, _, accepted⟩ := asked
  exact .call ⟨state, entered, _, congrArg (· ++ [_]) called, plain, accepted, rfl, rfl⟩

theorem Named.fruitful {after : Assembly (σ × List Call)} (named : Named before true after) :
    ¬ Fruitless after.store.2 := by
  obtain ⟨_, entered, bound, called, _, _, plain, accepted⟩ := named
  rw [called, fruitless_snoc plain, accepted]
  simp

theorem Accounted.unnamed {after : Assembly (σ × List Call)} (accounted : Accounted before) (named : Named before false after) :
    Accounted after := by
  obtain ⟨state, entered, bound, called, plain, accepted, unnames, _⟩ := named
  refine ⟨state ▸ accounted.opened, ?_⟩
  rw [state, accounted.created, called, fruitless_unnamed plain accepted unnames]

theorem placeLinked_accounted : Attests accumulator.recorded Accounted fun _ => True := by
  intro parent scope operator links before accounted
  refine Ends.bind (fun op after => operator.toNode links = .ok op ∧ after = before) ?_ fun op middle lowering => ?_
  · exact .checks (fun op lowered => ⟨lowered, rfl⟩) fun _ _ => accounted
  obtain ⟨lowered, rfl⟩ := lowering
  refine Ends.bind _ (asked_of_call lowered _) fun answer after asked => ?_
  refine Ends.bind (fun _ later => later = after ∧ Asked middle true after) ?_ fun own later entered => ?_
  · cases answer with
    | error refusal => exact .throw (accounted.asked asked)
    | ok own => exact .pure ⟨rfl, asked⟩
  obtain ⟨rfl, asked⟩ := entered
  have opened : later.state ≠ .closed := asked.state ▸ accounted.opened
  cases operator.tag with
  | none => exact accounted_begun opened asked.fruitful own own
  | some tag =>
    cases operator.kind.carriesAlias with
    | true => exact accounted_begun opened asked.fruitful own own
    | false =>
      refine Ends.bind _ (asked.named tag.name own) fun answer named ends => ?_
      cases answer with
      | error refusal => exact .throw (accounted.unnamed ends)
      | ok last => exact Ends.of_ran rfl (accounted_begun (ends.state ▸ accounted.opened) ends.fruitful own last)

theorem planText_accounted (accounted : Accounted before) : (planText accumulator.recorded).Ends before
    (fun _ after => Accounted after) fun _ after => Accounted after := by
  refine Ends.bind (fun _ after => Accounted after) (.checkOpen (fun _ => accounted) fun _ => accounted)
    fun _ middle accounted => ?_
  refine Ends.bind (fun _ after => Accounted after) (.call (accounted.asked ⟨rfl, _, rfl, rfl, rfl, rfl⟩))
    fun _ _ accounted => ?_
  exact .checks (fun _ _ => accounted) fun _ _ => accounted

theorem physicalBytes_accounted (accounted : Accounted before) (workers servers : UInt32) :
    (physicalBytes accumulator.recorded workers servers).Ends before
      (fun _ after => Accounted after) fun _ after => Accounted after := by
  refine Ends.of_ran (show (get : Assembling _ (Assembly (σ × List Call))).run before = (.ok before, before) from rfl) ?_
  rw [if_neg accounted.opened]
  refine Ends.bind (fun bytes after => after.store.2 = before.store.2 ++ [.bytes workers servers bytes] ∧
    after.state = before.state) (.call ⟨rfl, rfl⟩) fun bytes middle called => ?_
  obtain ⟨called, state⟩ := called
  cases bytes with
  | nil => exact .throw (accounted.asked ⟨state, _, called, rfl, rfl, rfl⟩)
  | cons first rest =>
    refine Ends.bind (fun _ after => Accounted after) (.modify ⟨nofun, iff_of_false nofun ?_⟩) fun _ _ held => .pure held
    rw [called, fruitless_snoc rfl]
    simp [Call.builds]

theorem start_accounted (fresh : σ) : Accounted (start (fresh, [])) where
  opened := nofun
  created := iff_of_true rfl fruitless_nil

/-- What all requests but the closing one keep is kept until the assembly is closed. -/
theorem session_open_keeps {τ : Type} {accumulator : Accumulator τ} {keeps : Assembly τ → Prop} {assembly : Assembly τ}
    (each : ∀ assembly request, keeps assembly → request ≠ .close → keeps (perform accumulator assembly request))
    (holds : keeps assembly) {requests : List Request}
    (opened : (session accumulator assembly requests).state ≠ .closed) : keeps (session accumulator assembly requests) := by
  have step (assembly : Assembly τ) (request : Request) (held : assembly.state = .closed ∨ keeps assembly) :
      (perform accumulator assembly request).state = .closed ∨ keeps (perform accumulator assembly request) := by
    rcases held with closed | holds
    · rw [perform_closed closed]
      exact .inl closed
    by_cases last : request = .close
    · subst last
      exact .inl (state_close accumulator assembly)
    · exact .inr (each assembly request holds last)
  have kept := session_keeps step (.inr holds) requests
  exact kept.resolve_left opened

theorem session_accounted {requests : List Request}
    (opened : (session accumulator.recorded (start (fresh, [])) requests).state ≠ .closed) :
    Accounted (session accumulator.recorded (start (fresh, [])) requests) := by
  have each : Attests accumulator.recorded Accounted fun _ => True := placeLinked_accounted
  refine session_open_keeps (fun assembly request accounted more => ?_) (start_accounted fresh) opened
  exact perform_attests each accounted (physicalBytes_accounted accounted) (planText_accounted accounted) more

/-! Calls before the first node. -/

/-- As long as no node has been accepted the accumulator is as good as fresh, and nothing has been laid out. -/
def Unbegun (accumulator : Accumulator σ) (fresh : σ) (assembly : Assembly (σ × List Call)) : Prop :=
  (∀ call ∈ assembly.store.2, call.accepted = false) →
    Idle accumulator fresh assembly.store.1 ∧ ∀ call ∈ assembly.store.2, call.builds = false

theorem Unbegun.call {assembly : Assembly (σ × List Call)} (unbegun : Unbegun accumulator fresh assembly) {call : Call}
    {store : σ} (step : Idle accumulator fresh assembly.store.1 → call.accepted = false →
      Idle accumulator fresh store ∧ call.builds = false) :
    Unbegun accumulator fresh { assembly with store := (store, assembly.store.2 ++ [call]) } := by
  intro none
  obtain ⟨earlier, here⟩ := List.forall_mem_append.mp none
  obtain ⟨idle, unbuilt⟩ := unbegun earlier
  obtain ⟨next, silent⟩ := step idle (here call List.mem_cons_self)
  exact ⟨next, List.forall_mem_append.mpr ⟨unbuilt, List.forall_mem_singleton.mpr silent⟩⟩

theorem unbegun_kept (silent : ∀ store, Idle accumulator fresh store → ∀ workers servers,
    (accumulator.bytes workers servers store).1 = []) :
    KeptByCalls accumulator.recorded (fun _ => True) (Unbegun accumulator fresh) where
  append op parents _ _ unbegun := unbegun.call fun idle refused => ⟨.append op parents idle refused, rfl⟩
  appendRoot op scope _ _ unbegun := unbegun.call fun idle refused => ⟨.appendRoot op scope idle refused, rfl⟩
  text _ unbegun := unbegun.call fun idle _ => ⟨.text idle, rfl⟩
  bytes workers servers assembly unbegun := by
    refine unbegun.call fun idle _ => ⟨.bytes workers servers idle, ?_⟩
    simp [Call.builds, silent _ idle]
  begin _ unbegun := unbegun
  serialize _ unbegun := unbegun

theorem session_unbegun (silent : ∀ store, Idle accumulator fresh store → ∀ workers servers,
    (accumulator.bytes workers servers store).1 = []) {requests : List Request}
    (opened : (session accumulator.recorded (start (fresh, [])) requests).state ≠ .closed) :
    Unbegun accumulator fresh (session accumulator.recorded (start (fresh, [])) requests) := by
  have unbegun : Unbegun accumulator fresh (start (fresh, [])) := fun _ => ⟨.fresh, List.forall_mem_nil _⟩
  refine session_open_keeps (fun assembly request unbegun more => ?_) unbegun opened
  exact perform_keeps includes_all (unbegun_kept silent) unbegun more

/-! Plans that refuse a node at some time. -/

theorem answer_refused {plan : PlanGraph} {result : Except Refusal (Nat × PlanGraph)}
    (refused : (plan.answer result).1.isOk = false) : (plan.answer result).2 = plan := by
  cases result with
  | ok grown => cases refused
  | error refusal => rfl

theorem idle_failing {schema : Option Schema} {refusal : Refusal} {ahead : Option Nat} {store : PlanGraph × Option Nat}
    (idle : Idle (PlanGraph.accumulator.failingAt refusal) (.empty schema, ahead) store) : store.1 = .empty schema := by
  induction idle with
  | fresh => rfl
  | @append store op parents _ refused same =>
    obtain ⟨plan, ahead⟩ := store
    rcases ahead with _ | _ | ahead
    · exact (answer_refused refused).trans same
    · exact same
    · exact (answer_refused refused).trans same
  | @appendRoot store op scope _ refused same =>
    obtain ⟨plan, ahead⟩ := store
    rcases ahead with _ | _ | ahead
    · exact (answer_refused refused).trans same
    · exact same
    · exact (answer_refused refused).trans same
  | text _ same => exact same
  | bytes _ _ _ same => exact same

theorem bytes_empty (schema : Option Schema) (workers servers : UInt32) :
    (PlanGraph.empty schema).bytes workers servers = [] := by
  by_contra filled
  obtain ⟨physical, laid, _⟩ := PlanGraph.encoded_of_bytes filled
  obtain ⟨_, _, _, _, root, accepted⟩ := PhysicalPlan.isOk_ofGraph_iff.mp ⟨physical, laid⟩
  exact Nat.not_lt_zero root accepted.parentless.lt_size

theorem silent_failing {schema : Option Schema} {refusal : Refusal} {ahead : Option Nat} (store : PlanGraph × Option Nat)
    (idle : Idle (PlanGraph.accumulator.failingAt refusal) (.empty schema, ahead) store) (workers servers : UInt32) :
    ((PlanGraph.accumulator.failingAt refusal).bytes workers servers store).1 = [] := by
  rw [← bytes_empty schema workers servers, ← idle_failing idle]
  rfl

/-- An open assembly has not begun exactly if its calls have come to nothing. Where its accumulator lays out no plan
before it has accepted a node, it has not begun before that; and it has begun by then, as long as no node that was
accepted is refused its name. -/
theorem begins_with_operators (accumulator : Accumulator σ) (fresh : σ)
    (silent : ∀ store, Idle accumulator fresh store → ∀ workers servers, (accumulator.bytes workers servers store).1 = [])
    (requests : List Request) :
    let state := (session accumulator (start fresh) requests).state
    let calls := (session accumulator.recorded (start (fresh, [])) requests).store.2
    state ≠ .closed →
      (state = .created ↔ Fruitless calls) ∧
      ((∀ call ∈ calls, call.accepted = false) → state = .created) ∧
      ((∀ call ∈ calls, call.unnames = false) → (state = .created ↔ ∀ call ∈ calls, call.accepted = false)) := by
  intro state calls opened
  have seen : state = (session accumulator.recorded (start (fresh, [])) requests).state :=
    congrArg Assembly.state (seen_session accumulator.recorded_mirrors (fun _ => trivial) (start (fresh, [])) requests)
  rw [seen] at opened
  have created := (session_accounted opened).created
  have vain (none : ∀ call ∈ calls, call.accepted = false) : state = .created := by
    refine seen.trans (created.mpr ⟨fun place call found accepted => ?_, (session_unbegun silent opened none).2⟩)
    cases (none call (List.mem_of_getElem? found)).symm.trans accepted
  rw [← seen] at created
  refine ⟨created, vain, fun named => ⟨fun unbegun call member => ?_, vain⟩⟩
  by_contra accepted
  obtain ⟨place, found⟩ := List.mem_iff_getElem?.mp member
  obtain ⟨next, behind, unnames⟩ := (created.mp unbegun).undone place call found (by simpa using accepted)
  cases (named next (List.mem_of_getElem? behind)).symm.trans unnames

/-- A few, under a name. -/
def fewNamed : Operator := ⟨.limit (some 0) (some 3), some (.written "few")⟩

def grudging : Accumulator (PlanGraph × Option Nat) := PlanGraph.accumulator.failingAt .unsupported

/-- The node is there, and its name is refused. -/
theorem fewNamed_forgotten :
    let fresh := (PlanGraph.empty none, some 1)
    (∀ store, Idle grudging fresh store → ∀ workers servers, (grudging.bytes workers servers store).1 = []) ∧
    (session grudging (start fresh) [.append (-1) fewNamed]).state = .created ∧
    ∃ call ∈ (session grudging.recorded (start (fresh, [])) [.append (-1) fewNamed]).store.2, call.accepted = true :=
  ⟨silent_failing, rfl, _, List.mem_cons_self, rfl⟩

theorem fewNamed_begins :
    let fresh := (PlanGraph.empty none, some 0)
    let early : List Request := [.append (-1) fewNamed, .physicalBytes 1 1]
    let late : List Request := [.append (-1) fewNamed, .physicalBytes 1 1, .append (-1) fewNamed]
    (session grudging (start fresh) early).state = .created ∧ (session grudging (start fresh) late).state ≠ .created := by
  intro fresh early late
  have begins := begins_with_operators grudging fresh silent_failing
  obtain ⟨_, vain, _⟩ := begins early (by decide +kernel)
  obtain ⟨_, _, begun⟩ := begins late (by decide +kernel)
  refine ⟨vain (by decide +kernel), fun created => ?_⟩
  have none := (begun (by decide +kernel)).mp created
  revert none
  decide +kernel

end Assembly

end TraversalPlanner
