import TraversalPlanner.Job
import TraversalPlanner.Proofs.UnionParents

/-! Many submissions, one after the other. Ids are only drawn for what compiles, so the requests carry them without a
gap, whether they are accepted or not; and the settings of a request agree with the numbers that are written into the
bytes of its plan. -/

namespace TraversalPlanner

/-- The id that a request was handed over with, if there was one. -/
def Submission.jobId? (submission : Submission) : Option Nat := submission.request.map fun job => job.settings.id

namespace Compiler

/-- A traversal that is to be run, under the schema of the time, and how the runtime takes it. -/
structure Commission where
  schema : Option Schema
  traversal : Traversal
  refuse : Job → Option String

namespace Commission

def compiled (commission : Commission) (deployment : Deployment) : Except Error Compiled :=
  compile deployment commission.schema commission.traversal

def submitted (commission : Commission) (deployment : Deployment) (ids : JobIds) : Submission :=
  submit deployment commission.schema commission.refuse ids commission.traversal

end Commission

/-- Each is submitted with the ids that those before it have left. -/
def submitAll (deployment : Deployment) (ids : JobIds) : List Commission → List Submission
  | [] => []
  | commission :: rest =>
    let submission := commission.submitted deployment ids
    submission :: submitAll deployment submission.ids rest

/-- What comes of one submission. -/
structure Booked (deployment : Deployment) (commission : Commission) (submission : Submission) : Prop where
  requested : submission.request.isSome = (commission.compiled deployment).isOk
  accepted : ∀ id, submission.answer = .ok id ↔
    ∃ job, submission.request = some job ∧ commission.refuse job = none ∧ job.settings.id = id
  planned : ∀ job, submission.request = some job → ∃ compiled plan,
    commission.compiled deployment = .ok compiled ∧ job.plan = compiled.bytes ∧ PhysicalPlan.decode job.plan = .ok plan ∧
      plan.workers = job.settings.workers ∧ plan.servers.toNat = job.settings.servers.length ∧
      job.settings.servers = List.range plan.servers.toNat

variable {deployment : Deployment} {ids : JobIds} {commission : Commission} {compiled : Compiled}

/-- The request for a plan with the next id. -/
def requestFor (deployment : Deployment) (ids : JobIds) (compiled : Compiled) : Job :=
  { plan := compiled.bytes, settings := .new (ids.last + 1) deployment }

theorem submitted_of_error {error : Error} (failed : commission.compiled deployment = .error error) :
    commission.submitted deployment ids = { answer := .error error, ids, request := none } := by
  have unfinished : compile deployment commission.schema commission.traversal = .error error := failed
  rw [Commission.submitted, submit, unfinished]

/-- An id is used up as soon as there is a request. -/
theorem submitted_of_ok (done : commission.compiled deployment = .ok compiled) :
    commission.submitted deployment ids = {
      answer := match commission.refuse (requestFor deployment ids compiled) with
        | some reason => .error (.refusedJob reason)
        | none => .ok (ids.last + 1)
      ids := { last := ids.last + 1 }
      request := some (requestFor deployment ids compiled) } := by
  have finished : compile deployment commission.schema commission.traversal = .ok compiled := done
  rw [Commission.submitted, submit, finished]
  rfl

/-- The numbers in the bytes are those of the settings. -/
theorem planned_of_ok (done : commission.compiled deployment = .ok compiled) : ∃ plan,
    PhysicalPlan.decode compiled.bytes = .ok plan ∧ plan.workers = deployment.workers ∧ plan.servers = deployment.servers := by
  obtain ⟨_, _, _, _, decoded, _⟩ := decoded_of_compile done
  exact ⟨_, decoded, rfl, rfl⟩

theorem booked_submitted : Booked deployment commission (commission.submitted deployment ids) := by
  cases done : commission.compiled deployment with
  | error error =>
    rw [submitted_of_error done]
    exact ⟨by rw [done]; rfl, by simp, by simp⟩
  | ok compiled =>
    rw [submitted_of_ok done]
    refine ⟨by rw [done]; rfl, fun id => ?_, fun job requested => ?_⟩
    · simp only [Option.some.injEq, exists_eq_left']
      cases commission.refuse (requestFor deployment ids compiled) with
      | some reason => simp
      | none => simp [requestFor, JobSettings.new]
    · cases requested
      obtain ⟨plan, decoded, workers, servers⟩ := planned_of_ok done
      refine ⟨compiled, plan, done, rfl, decoded, workers, ?_, ?_⟩
      · rw [servers]
        exact List.length_range.symm
      · rw [servers]
        rfl

/-- All submissions come to what single ones do, and the ids of the requests follow one upon the other: there is one for
each traversal that compiles, whatever becomes of its request. -/
theorem submissions_booked (deployment : Deployment) (ids : JobIds) (commissions : List Commission) :
    List.Forall₂ (Booked deployment) commissions (submitAll deployment ids commissions) ∧
      (submitAll deployment ids commissions).filterMap Submission.jobId? =
        List.range' (ids.last + 1) (commissions.countP fun commission => (commission.compiled deployment).isOk) := by
  induction commissions generalizing ids with
  | nil => exact ⟨.nil, rfl⟩
  | cons commission rest later =>
    obtain ⟨booked, numbered⟩ := later (commission.submitted deployment ids).ids
    refine ⟨.cons booked_submitted booked, ?_⟩
    cases done : commission.compiled deployment with
    | error error =>
      rw [submitted_of_error done] at numbered
      rw [submitAll, submitted_of_error done, List.countP_cons_of_neg (by rw [done]; nofun)]
      exact numbered
    | ok compiled =>
      rw [submitted_of_ok done] at numbered
      rw [submitAll, submitted_of_ok done, List.countP_cons_of_pos (by rw [done]; rfl), List.range'_succ, ← numbered]
      rfl

/-- A request that is turned down, a traversal that has no plan, and a request that is taken. -/
def mixed : List Commission :=
  [{ schema := none, traversal := departing, refuse := fun _ => some "busy" },
    { schema := none, traversal := (Traversal.vertices []).add (.values []), refuse := fun _ => none },
    { schema := none, traversal := departing, refuse := fun _ => none }]

theorem mixed_booked : List.Forall₂ (Booked .standalone) mixed (submitAll .standalone .start mixed) ∧
    (submitAll .standalone .start mixed).map Submission.jobId? = [some 1, none, some 2] ∧
    (submitAll .standalone .start mixed).map Submission.answer =
      [.error (.refusedJob "busy"), .error (.unsupportedPattern .valuesArity), .ok 2] := by
  have passes : (compile .standalone none departing).isOk = true := by decide +kernel
  obtain ⟨compiled, done⟩ := Proofs.ok_of_isOk passes
  have refused (ids : JobIds) : Commission.submitted ⟨none, departing, fun _ => some "busy"⟩ .standalone ids = _ :=
    submitted_of_ok done
  have failing (ids : JobIds) :
      Commission.submitted ⟨none, (Traversal.vertices []).add (.values []), fun _ => none⟩ .standalone ids = _ :=
    submitted_of_error rfl
  have taken (ids : JobIds) : Commission.submitted ⟨none, departing, fun _ => none⟩ .standalone ids = _ :=
    submitted_of_ok done
  obtain ⟨booked, _⟩ := submissions_booked .standalone .start mixed
  refine ⟨booked, ?_⟩
  simp only [mixed, submitAll, refused, failing, taken, List.map_cons, List.map_nil]
  exact ⟨rfl, rfl⟩

end Compiler

end TraversalPlanner
