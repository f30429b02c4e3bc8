import TraversalPlanner.Proofs.Placing

/-! Sessions: any number of requests to one assembly, each dealt with whatever became of those before. What an
assembly does to its accumulator comes down to single calls, so what they keep is kept by every request. -/

namespace TraversalPlanner

namespace Assembling

variable {σ α : Type} {before : Assembly σ} {answers : α → Assembly σ → Prop} {fails : Error → Assembly σ → Prop}

theorem Ends.checks {check : Except Error α} (passed : ∀ value, check = .ok value → answers value before)
    (failed : ∀ error, check = .error error → fails error before) :
    Ends (liftM check : Assembling σ α) before answers fails := by
  cases check with
  | ok value => exact .pure (passed value rfl)
  | error error => exact .throw (failed error rfl)

theorem Ends.call {action : σ → α × σ}
    (holds : answers (action before.store).1 { before with store := (action before.store).2 }) :
    (Assembly.call action).Ends before answers fails := ⟨holds⟩

/-- What holds of the assembly at either end. -/
theorem Ends.left {program : Assembling σ α} {keeps : Assembly σ → Prop}
    (ends : program.Ends before (fun _ after => keeps after) fun _ after => keeps after) :
    keeps (program.run before).2 := by
  have held := ends.holds
  split at held
  · next ran => rw [ran]; exact held
  · next ran => rw [ran]; exact held

end Assembling

namespace Assembly

open Assembling

/-- What may be asked of an assembly. -/
inductive Request where
  | append (parent : Int) (operator : Operator)
  | appendAll (parent : Int) (operators : List Operator)
  | physicalBytes (workers servers : UInt32)
  | planText
  | close

variable {σ : Type} {accumulator : Accumulator σ} {nodes : NodeOp Int → Prop} {keeps : Assembly σ → Prop}

/-- The assembly once a request has been dealt with, whatever the answer was. -/
def perform (accumulator : Accumulator σ) (assembly : Assembly σ) : Request → Assembly σ
  | .append parent operator => ((append accumulator parent operator).run assembly).2
  | .appendAll parent operators => ((appendAll accumulator parent operators).run assembly).2
  | .physicalBytes workers servers => ((physicalBytes accumulator workers servers).run assembly).2
  | .planText => ((planText accumulator).run assembly).2
  | .close => assembly.close accumulator

/-- The assembly at the end of a session. -/
def session (accumulator : Accumulator σ) (assembly : Assembly σ) (requests : List Request) : Assembly σ :=
  requests.foldl (perform accumulator) assembly

theorem session_keeps {assembly : Assembly σ}
    (each : ∀ assembly request, keeps assembly → keeps (perform accumulator assembly request)) (holds : keeps assembly)
    (requests : List Request) : keeps (session accumulator assembly requests) := by
  induction requests generalizing assembly with
  | nil => exact holds
  | cons request rest later => exact later (each assembly request holds)

/-- Kept by every call but the release, provided that the nodes which are appended are of some kind. -/
structure KeptByCalls (accumulator : Accumulator σ) (nodes : NodeOp Int → Prop) (keeps : Assembly σ → Prop) : Prop where
  append : ∀ op parents assembly, nodes op → keeps assembly →
    keeps { assembly with store := (accumulator.append op parents assembly.store).2 }
  appendRoot : ∀ op scope assembly, nodes op → keeps assembly →
    keeps { assembly with store := (accumulator.appendRoot op scope assembly.store).2 }
  text : ∀ assembly, keeps assembly → keeps { assembly with store := (accumulator.text assembly.store).2 }
  bytes : ∀ workers servers assembly, keeps assembly →
    keeps { assembly with store := (accumulator.bytes workers servers assembly.store).2 }
  begin : ∀ assembly, keeps assembly → keeps { assembly with state := assembly.state.begun }
  serialize : ∀ assembly, keeps assembly → keeps { assembly with state := .serialized }

/-- The nodes that operators may become, with those that only bind an alias. -/
structure Includes (nodes : NodeOp Int → Prop) : Prop where
  lowered : ∀ (operator : Operator) links op, operator.toNode links = .ok op → nodes op
  bound : ∀ tag, nodes (.bind tag)

theorem placeLinked_keeps (includes : Includes nodes) (kept : KeptByCalls accumulator nodes keeps) :
    Attests accumulator keeps fun _ => True := by
  intro parent scope operator links before holds
  have begins (own last : Int) {middle : Assembly σ} (holds : keeps middle) :
      Ends (do
        modify fun assembly => if assembly.state = .created then { assembly with state := .building } else assembly
        return (own, last)) middle (fun _ after => keeps after ∧ True) fun _ after => keeps after := by
    refine Ends.bind (fun _ after => keeps after) (.modify ?_) fun _ _ holds => .pure ⟨holds, trivial⟩
    have begun := kept.begin middle holds
    obtain ⟨_, state⟩ := middle
    cases state <;> exact begun
  have enters {op : NodeOp Int} (known : nodes op) (parents : List Int) {middle : Assembly σ} (holds : keeps middle) :
      keeps { middle with store :=
        (if parents = [-1] then accumulator.appendRoot op scope middle.store
          else accumulator.append op parents middle.store).2 } := by
    split
    · exact kept.appendRoot op scope middle known holds
    · exact kept.append op parents middle known holds
  refine Ends.bind (fun op after => nodes op ∧ keeps after) ?_ fun op middle entering => ?_
  · exact .checks (fun op lowered => ⟨includes.lowered operator links op lowered, holds⟩) fun _ _ => holds
  obtain ⟨known, holds⟩ := entering
  refine Ends.bind (fun _ after => keeps after) (.call (enters known _ holds)) fun answer middle holds => ?_
  refine Ends.bind (fun _ after => keeps after) (.checks (fun _ _ => holds) fun _ _ => holds) fun own middle holds => ?_
  cases operator.tag with
  | none => exact begins own own holds
  | some tag =>
    cases operator.kind.carriesAlias with
    | true => exact begins own own holds
    | false =>
      refine Ends.bind (fun _ after => keeps after) (.call (kept.append _ _ _ (includes.bound _) holds)) fun _ _ holds => ?_
      exact Ends.bind _ (.checks (fun _ _ => holds) fun _ _ => holds) fun last _ holds => begins own last holds

theorem physicalBytes_keeps (kept : KeptByCalls accumulator nodes keeps) {before : Assembly σ} (holds : keeps before)
    (workers servers : UInt32) : (physicalBytes accumulator workers servers).Ends before
      (fun _ after => keeps after) fun _ after => keeps after := by
  refine Ends.of_ran (show (get : Assembling σ (Assembly σ)).run before = (.ok before, before) from rfl) ?_
  by_cases closed : before.state = .closed
  · rw [if_pos closed]
    exact .throw holds
  rw [if_neg closed]
  refine Ends.bind (fun _ after => keeps after) (.call (kept.bytes workers servers before holds)) fun bytes middle holds => ?_
  cases bytes.isEmpty with
  | true => exact .throw holds
  | false => exact Ends.bind _ (.modify (kept.serialize middle holds)) fun _ _ holds => .pure holds

theorem planText_keeps (kept : KeptByCalls accumulator nodes keeps) {before : Assembly σ} (holds : keeps before) :
    (planText accumulator).Ends before (fun _ after => keeps after) fun _ after => keeps after := by
  refine Ends.bind (fun _ after => keeps after) (.checkOpen (fun _ => holds) fun _ => holds) fun _ middle holds => ?_
  refine Ends.bind (fun _ after => keeps after) (.call (kept.text middle holds)) fun _ _ holds => ?_
  exact .checks (fun _ _ => holds) fun _ _ => holds

/-- Every request but the closing one puts in nodes or makes a call of its own. -/
theorem perform_attests (each : Attests accumulator keeps fun _ => True) {assembly : Assembly σ} (holds : keeps assembly)
    (bytes : ∀ workers servers, (physicalBytes accumulator workers servers).Ends assembly
      (fun _ after => keeps after) fun _ after => keeps after)
    (text : (planText accumulator).Ends assembly (fun _ after => keeps after) fun _ after => keeps after)
    {request : Request} (more : request ≠ .close) : keeps (perform accumulator assembly request) := by
  cases request with
  | append parent operator =>
    exact (Ends.bind _ (place_attests each holds) fun _ _ held => .pure held.1).left
  | appendAll parent operators =>
    exact ((placeFrom_attests each holds).weaken (fun _ _ held => held.1) fun _ _ held => held).left
  | physicalBytes workers servers => exact (bytes workers servers).left
  | planText => exact text.left
  | close => exact absurd rfl more

theorem perform_keeps (includes : Includes nodes) (kept : KeptByCalls accumulator nodes keeps) {assembly : Assembly σ}
    (holds : keeps assembly) {request : Request} (more : request ≠ .close) :
    keeps (perform accumulator assembly request) :=
  perform_attests (placeLinked_keeps includes kept) holds (physicalBytes_keeps kept holds) (planText_keeps kept holds) more

end Assembly

end TraversalPlanner
