import TraversalPlanner.Plan.Graph

/-! What an assembler needs of the place where a plan grows: a state, and operations that answer and
change it. -/

namespace TraversalPlanner

structure Accumulator (σ : Type) where
  /-- Appends a node under parents; no parents or only `-1` make it a root. -/
  append : NodeOp Int → List Int → σ → Except Refusal Int × σ
  /-- Appends a root that sees the tags that are visible at a node, or none for `-1`. -/
  appendRoot : NodeOp Int → Int → σ → Except Refusal Int × σ
  text : σ → Except Refusal String × σ
  /-- No bytes at all mean that the plan cannot be laid out. -/
  bytes : UInt32 → UInt32 → σ → List UInt8 × σ
  release : σ → σ

namespace Accumulator

variable {σ : Type}

/-- An accumulator that knows no scopes: a detached node is any node under `-1`. -/
def withoutScopes (base : Accumulator σ) : Accumulator σ :=
  { base with appendRoot := fun op _ state => base.append op [-1] state }

/-- A call of an accumulator and its answer. -/
inductive Call where
  | append (op : NodeOp Int) (parents : List Int) (answer : Except Refusal Int)
  | appendRoot (op : NodeOp Int) (scope : Int) (answer : Except Refusal Int)
  | text (answer : Except Refusal String)
  | bytes (workers servers : UInt32) (answer : List UInt8)
  | release

/-- The same accumulator with a record of all calls, the first call first. -/
def recorded (base : Accumulator σ) : Accumulator (σ × List Call) where
  append := fun op parents (state, calls) =>
    let (answer, state) := base.append op parents state
    (answer, state, calls ++ [.append op parents answer])
  appendRoot := fun op scope (state, calls) =>
    let (answer, state) := base.appendRoot op scope state
    (answer, state, calls ++ [.appendRoot op scope answer])
  text := fun (state, calls) =>
    let (answer, state) := base.text state
    (answer, state, calls ++ [.text answer])
  bytes := fun workers servers (state, calls) =>
    let (answer, state) := base.bytes workers servers state
    (answer, state, calls ++ [.bytes workers servers answer])
  release := fun (state, calls) => (base.release state, calls ++ [.release])

/-- The same accumulator, but the append call with the given number fails. The state counts the append
calls that are still to succeed before it. -/
def failingAt (base : Accumulator σ) (refusal : Refusal) : Accumulator (σ × Option Nat) where
  append := fun op parents (state, ahead) =>
    match ahead with
    | some 0 => (.error refusal, state, none)
    | ahead =>
      let (answer, state) := base.append op parents state
      (answer, state, ahead.map Nat.pred)
  appendRoot := fun op scope (state, ahead) =>
    match ahead with
    | some 0 => (.error refusal, state, none)
    | ahead =>
      let (answer, state) := base.appendRoot op scope state
      (answer, state, ahead.map Nat.pred)
  text := fun (state, ahead) =>
    let (answer, state) := base.text state
    (answer, state, ahead)
  bytes := fun workers servers (state, ahead) =>
    let (answer, state) := base.bytes workers servers state
    (answer, state, ahead)
  release := fun (state, ahead) => (base.release state, ahead)

end Accumulator

end TraversalPlanner
