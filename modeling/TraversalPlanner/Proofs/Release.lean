import TraversalPlanner.Proofs.Mirroring

/-! An accumulator is released once, by the last call of all, however the requests to its assembly go and whatever
the accumulator answers. The life of an assembly only goes forward, and once it is closed nothing is done for it. -/

namespace TraversalPlanner

/-- How far a life has come. -/
def Lifecycle.rank : Lifecycle → Nat
  | .created => 0
  | .building => 1
  | .serialized => 2
  | .closed => 3

namespace Lifecycle

theorem rank_le_begun (state : Lifecycle) : state.rank ≤ state.begun.rank := by
  cases state <;> decide

theorem rank_le_serialized {state : Lifecycle} (opened : state ≠ .closed) : state.rank ≤ serialized.rank := by
  cases state with
  | closed => exact absurd rfl opened
  | _ => decide

theorem rank_le_closed (state : Lifecycle) : state.rank ≤ closed.rank := by
  cases state <;> decide

end Lifecycle

/-- There is one release, and nothing is called after it. -/
def Accumulator.ReleasedLast (calls : List Accumulator.Call) : Prop :=
  ∃ earlier, calls = earlier ++ [.release] ∧ .release ∉ earlier

namespace Assembly

open Accumulator Assembling

variable {σ : Type} {accumulator : Accumulator σ}

/-- Every node will do. -/
theorem includes_all : Includes fun _ => True := ⟨fun _ _ _ _ => trivial, fun _ => trivial⟩

/-! Open assemblies. -/

/-- The assembly is still open and has come as far as some state. -/
structure Running (reached : Lifecycle) (assembly : Assembly σ) : Prop where
  opened : assembly.state ≠ .closed
  forward : reached.rank ≤ assembly.state.rank

theorem running_kept (accumulator : Accumulator σ) (reached : Lifecycle) :
    KeptByCalls accumulator (fun _ => True) (Running reached) where
  append _ _ _ _ running := ⟨running.opened, running.forward⟩
  appendRoot _ _ _ _ running := ⟨running.opened, running.forward⟩
  text _ running := ⟨running.opened, running.forward⟩
  bytes _ _ _ running := ⟨running.opened, running.forward⟩
  begin _ running := ⟨Lifecycle.begun_ne_closed running.opened, Nat.le_trans running.forward (Lifecycle.rank_le_begun _)⟩
  serialize _ running := ⟨nofun, Nat.le_trans running.forward (Lifecycle.rank_le_serialized running.opened)⟩

/-- The record of an open assembly tells of no release. -/
structure Unreleased (assembly : Assembly (σ × List Call)) : Prop where
  opened : assembly.state ≠ .closed
  kept : .release ∉ assembly.store.2

private theorem not_mem_snoc {calls : List Call} {call : Call} (kept : .release ∉ calls) (other : call ≠ .release) :
    .release ∉ calls ++ [call] := by
  rw [List.mem_append, List.mem_singleton, not_or]
  exact ⟨kept, other.symm⟩

theorem unreleased_kept (accumulator : Accumulator σ) :
    KeptByCalls accumulator.recorded (fun _ => True) Unreleased where
  append _ _ _ _ unreleased := ⟨unreleased.opened, not_mem_snoc unreleased.kept nofun⟩
  appendRoot _ _ _ _ unreleased := ⟨unreleased.opened, not_mem_snoc unreleased.kept nofun⟩
  text _ unreleased := ⟨unreleased.opened, not_mem_snoc unreleased.kept nofun⟩
  bytes _ _ _ unreleased := ⟨unreleased.opened, not_mem_snoc unreleased.kept nofun⟩
  begin _ unreleased := ⟨Lifecycle.begun_ne_closed unreleased.opened, unreleased.kept⟩
  serialize _ unreleased := ⟨nofun, unreleased.kept⟩

theorem start_unreleased (fresh : σ) : Unreleased (start (fresh, [])) := ⟨nofun, nofun⟩

theorem Unreleased.close {assembly : Assembly (σ × List Call)} (unreleased : assembly.Unreleased) :
    ReleasedLast (assembly.close accumulator.recorded).store.2 := by
  unfold Assembly.close
  rw [if_neg unreleased.opened]
  exact ⟨assembly.store.2, rfl, unreleased.kept⟩

/-! Closed assemblies. -/

theorem state_close (accumulator : Accumulator σ) (assembly : Assembly σ) : (assembly.close accumulator).state = .closed := by
  unfold close
  split
  · assumption
  · rfl

/-- What is asked of a closed assembly fails, unless it is to append nothing at all. -/
structure Refuses (accumulator : Accumulator σ) (assembly : Assembly σ) : Prop where
  append : ∀ parent operator, (append accumulator parent operator).run assembly = (.error .useAfterClose, assembly)
  appendAll : ∀ parent first rest,
    (appendAll accumulator parent (first :: rest)).run assembly = (.error .useAfterClose, assembly)
  physicalBytes : ∀ workers servers,
    (physicalBytes accumulator workers servers).run assembly = (.error .closedBeforeBuild, assembly)
  planText : (planText accumulator).run assembly = (.error .useAfterClose, assembly)

private theorem place_closed (parent scope : Int) (operator : Operator) (store : σ) :
    (place accumulator parent scope operator).run ⟨store, .closed⟩ = (.error .useAfterClose, ⟨store, .closed⟩) := by
  obtain ⟨args, tag⟩ := operator
  cases args with
  | apply sub subRoot join => cases sub <;> rfl
  | union branches parents => cases branches <;> rfl
  | _ => rfl

theorem refuses_of_closed {assembly : Assembly σ} (closed : assembly.state = .closed) : Refuses accumulator assembly := by
  obtain ⟨store, state⟩ := assembly
  cases closed
  constructor
  · intro parent operator
    change (place accumulator parent (-1) operator >>= fun placed => Pure.pure placed.2).run _ = _
    rw [run_bind, place_closed]
  · intro parent first rest
    change (place accumulator parent (-1) first >>= fun placed => _).run _ = _
    rw [run_bind, place_closed]
  · intro workers servers
    rfl
  · rfl

/-- Nothing becomes of a closed assembly. -/
theorem perform_closed {assembly : Assembly σ} (closed : assembly.state = .closed) (request : Request) :
    perform accumulator assembly request = assembly := by
  have refuses : Refuses accumulator assembly := refuses_of_closed closed
  cases request with
  | append parent operator => exact congrArg Prod.snd (refuses.append parent operator)
  | appendAll parent operators =>
    cases operators with
    | nil => rfl
    | cons first rest => exact congrArg Prod.snd (refuses.appendAll parent first rest)
  | physicalBytes workers servers => exact congrArg Prod.snd (refuses.physicalBytes workers servers)
  | planText => exact congrArg Prod.snd refuses.planText
  | close => exact if_pos closed

/-! Sessions. -/

theorem perform_forward (reached : Lifecycle) (assembly : Assembly σ) (request : Request)
    (forward : reached.rank ≤ assembly.state.rank) :
    reached.rank ≤ (perform accumulator assembly request).state.rank := by
  by_cases closed : assembly.state = .closed
  · rw [perform_closed closed]
    exact forward
  by_cases last : request = .close
  · subst last
    change reached.rank ≤ (assembly.close accumulator).state.rank
    rw [state_close]
    exact reached.rank_le_closed
  · exact (perform_keeps includes_all (running_kept accumulator reached) ⟨closed, forward⟩ last).forward

theorem session_forward (assembly : Assembly σ) (requests : List Request) :
    assembly.state.rank ≤ (session accumulator assembly requests).state.rank :=
  session_keeps (perform_forward assembly.state) (Nat.le_refl assembly.state.rank) requests

theorem session_closed {assembly : Assembly σ} (closed : assembly.state = .closed) (requests : List Request) :
    session accumulator assembly requests = assembly := by
  induction requests with
  | nil => rfl
  | cons request rest step =>
    rw [session, List.foldl_cons, perform_closed closed]
    exact step

theorem state_of_close_mem (assembly : Assembly σ) {requests : List Request} (asked : .close ∈ requests) :
    (session accumulator assembly requests).state = .closed := by
  obtain ⟨earlier, later, same⟩ := List.append_of_mem asked
  rw [same, session, List.foldl_append, List.foldl_cons]
  change (session accumulator ((earlier.foldl (perform accumulator) assembly).close accumulator) later).state = .closed
  rw [session_closed (state_close accumulator _)]
  exact state_close accumulator _

/-- Either nothing has been released yet, or it has and all is over. -/
inductive Settled (assembly : Assembly (σ × List Call)) : Prop
  | unreleased (unreleased : assembly.Unreleased)
  | released (closed : assembly.state = .closed) (last : ReleasedLast assembly.store.2)

theorem perform_settled (assembly : Assembly (σ × List Call)) (request : Request) (settled : assembly.Settled) :
    (perform accumulator.recorded assembly request).Settled := by
  cases settled with
  | released closed last =>
    rw [perform_closed closed]
    exact .released closed last
  | unreleased unreleased =>
    by_cases last : request = .close
    · subst last
      exact .released (state_close _ assembly) unreleased.close
    · exact .unreleased (perform_keeps includes_all (unreleased_kept accumulator) unreleased last)

theorem Settled.close {assembly : Assembly (σ × List Call)} (settled : assembly.Settled) :
    ReleasedLast (assembly.close accumulator.recorded).store.2 := by
  cases settled with
  | unreleased unreleased => exact unreleased.close
  | released closed last =>
    unfold Assembly.close
    rw [if_pos closed]
    exact last

/-- All calls that a session makes of a fresh accumulator, up to the end of the assembly. -/
def callsOf (accumulator : Accumulator σ) (fresh : σ) (requests : List Request) : List Call :=
  ((session accumulator.recorded (start (fresh, [])) requests).close accumulator.recorded).store.2

theorem callsOf_released (fresh : σ) (requests : List Request) : ReleasedLast (callsOf accumulator fresh requests) :=
  (session_keeps perform_settled (.unreleased (start_unreleased fresh)) requests).close

end Assembly

namespace Compiler

open Accumulator Assembly Assembling

variable {σ α : Type} {accumulator : Accumulator σ}

/-- What must have become of the accumulator: none is opened for a traversal that cannot be built, any other is
released at the end. -/
def Outcome.Settled (traversal : Traversal) (outcome : Outcome (σ × List Call) α) : Prop :=
  match traversal.build with
  | .error error => outcome.answer = .error error ∧ outcome.store = none
  | .ok _ => ∃ store calls, outcome.store = some (store, calls) ∧ ReleasedLast calls

theorem run_settled (fresh : σ) (traversal : Traversal) {finish : List Operator → Nat → Assembling (σ × List Call) α}
    (finishes : ∀ operators count before, before.Unreleased →
      (finish operators count).Ends before (fun _ after => after.Unreleased) fun _ after => after.Unreleased) :
    (run accumulator.recorded (fresh, []) traversal finish).Settled traversal := by
  unfold Outcome.Settled run
  cases traversal.build with
  | error error => exact ⟨rfl, rfl⟩
  | ok operators =>
    have each : Attests accumulator.recorded Unreleased fun _ => True :=
      placeLinked_keeps includes_all (unreleased_kept accumulator)
    have assembled : Ends (appendAll accumulator.recorded (-1) operators >>= fun placed => finish operators (placed.2 + 1).toNat)
        (start (fresh, [])) (fun _ after => after.Unreleased) fun _ after => after.Unreleased :=
      Ends.bind _ (placeFrom_attests each (start_unreleased fresh)) fun _ middle kept => finishes _ _ middle kept.1
    exact ⟨_, _, rfl, assembled.left.close⟩

theorem compileWith_settled (fresh : σ) (deployment : Deployment) (traversal : Traversal) :
    (compileWith accumulator.recorded (fresh, []) deployment traversal).Settled traversal := by
  refine run_settled fresh traversal fun operators count before unreleased => ?_
  exact Ends.bind _ (physicalBytes_keeps (unreleased_kept accumulator) unreleased _ _) fun _ _ kept => .pure kept

theorem explainWith_settled (fresh : σ) (traversal : Traversal) :
    (explainWith accumulator.recorded (fresh, []) traversal).Settled traversal :=
  run_settled fresh traversal fun _ _ _ unreleased => planText_keeps (unreleased_kept accumulator) unreleased

/-- Whatever an accumulator answers and whatever is asked of its assembly, it is released by the last of its calls
and by no other; the assembly never goes back, and once closed it refuses all that would concern its plan. So a
compilation releases the accumulator that it opens, and opens none for a traversal that cannot be built. Recording
the calls changes nothing. -/
theorem released_last (accumulator : Accumulator σ) (fresh : σ) :
    (∀ requests, ReleasedLast (callsOf accumulator fresh requests) ∧
      session accumulator (start fresh) requests =
        (session accumulator.recorded (start (fresh, [])) requests).seen Prod.fst) ∧
    (∀ assembly requests, assembly.state.rank ≤ (session accumulator assembly requests).state.rank ∧
      (.close ∈ requests → (session accumulator assembly requests).state = .closed)) ∧
    (∀ assembly, assembly.state = .closed → Refuses accumulator assembly) ∧
    (∀ deployment traversal, (compileWith accumulator.recorded (fresh, []) deployment traversal).Settled traversal ∧
      compileWith accumulator fresh deployment traversal =
        (compileWith accumulator.recorded (fresh, []) deployment traversal).seen Prod.fst) ∧
    ∀ traversal, (explainWith accumulator.recorded (fresh, []) traversal).Settled traversal ∧
      explainWith accumulator fresh traversal = (explainWith accumulator.recorded (fresh, []) traversal).seen Prod.fst := by
  have mirrors := accumulator.recorded_mirrors
  have roomy (store : σ × List Call) : True := trivial
  refine ⟨fun requests => ?_, fun assembly requests => ?_, fun assembly closed => refuses_of_closed closed,
    fun deployment traversal => ?_, fun traversal => ?_⟩
  · exact ⟨callsOf_released fresh requests, seen_session mirrors roomy (start (fresh, [])) requests⟩
  · exact ⟨session_forward assembly requests, state_of_close_mem assembly⟩
  · exact ⟨compileWith_settled fresh deployment traversal, seen_compileWith mirrors roomy (fresh, []) deployment traversal⟩
  · exact ⟨explainWith_settled fresh traversal, seen_explainWith mirrors roomy (fresh, []) traversal⟩

/-- A plan of all vertices that is still asked for things when it has been closed. -/
def belatedRequests : List Request :=
  let vertices : Operator := ⟨.scan { ScanArguments.empty with target := some .vertex }, none⟩
  [.append (-1) vertices, .append 5 vertices, .physicalBytes 1 1, .close, .append 0 vertices, .close]

theorem belatedRequests_released :
    let ended := session PlanGraph.accumulator (start (.empty none)) belatedRequests
    (callsOf PlanGraph.accumulator (.empty none) belatedRequests).length = 4 ∧
      ReleasedLast (callsOf PlanGraph.accumulator (.empty none) belatedRequests) ∧ ended.state = .closed ∧
      Refuses PlanGraph.accumulator ended := by
  obtain ⟨sessions, lives, closed, _⟩ := released_last PlanGraph.accumulator (.empty none)
  have asked : .close ∈ belatedRequests := by simp [belatedRequests]
  have shut := (lives (start (.empty none)) belatedRequests).2 asked
  exact ⟨by decide +kernel, (sessions belatedRequests).1, shut, closed _ shut⟩

end Compiler

end TraversalPlanner
