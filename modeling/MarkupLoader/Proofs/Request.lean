import MarkupLoader.Load.Loader

/-!
# Requests

What a loader can be asked for, as a value of its own, so that a statement about loads speaks of
all ways of loading at once.

* **The outcome** of a request (`Request.outcome`) is what the loader answers.
* **The run** of a request (`Request.run`) starts the steps that the request takes from the state
  that it begins in, and keeps the state that they leave. A request without a document to load
  has no run.
* **The record** of a request (`Request.recorded`) is the failures that have been passed over by
  the time the load has ended, also where the load is given up and reports none of them.

Main statements: `outcome_eq`, `diagnostics_of_report`.
-/

namespace MarkupLoader

namespace Run

theorem heap_outcome (r : Run) : r.outcome.heap = r.state.heap := by
  unfold outcome
  cases r.ended <;> rfl

/-- A report says what is known at the end of the run. -/
theorem eq_of_result {r : Run} {report : Report} (reported : r.outcome.result = .ok report) :
    ∃ root, r.state.context.rootElement = some root ∧
      report = ⟨root, r.state.names, r.state.context.diagnostics, r.state.context.passes⟩ := by
  unfold outcome LoadState.report at reported
  split at reported
  · split at reported
    case h_1 root is =>
      cases reported
      exact ⟨root, is, rfl⟩
    case h_2 => cases reported
  · cases reported

/-- A load that is reported has come to its end. -/
theorem ended_of_report {r : Run} {report : Report} (reported : r.outcome.result = .ok report) :
    r.ended = .ok () := by
  unfold outcome at reported
  split at reported
  · assumption
  · cases reported

end Run

/-- What a loader is asked for. -/
inductive Request where
  /-- To make a new object from markup. -/
  | create (markup : String)
  /-- To load markup into an object. -/
  | loadInto (target : ObjectId) (markup : String)
  /-- To make new objects from the content of a template. -/
  | instantiate (template : ObjectId)

namespace Request

/-- What the loader answers. -/
def outcome (env : Environment) (tolerant : Bool) (h : Heap) : Request → Outcome
  | create markup => (Loader.mk env tolerant).create h markup tolerant
  | loadInto target markup => (Loader.mk env tolerant).loadInto h target markup
  | instantiate template => (Loader.mk env tolerant).instantiate h template

/-- The state that the load begins in, or why there is no document to load. -/
def initial (tolerant : Bool) (h : Heap) : Request → Except LoadError LoadState
  | create markup =>
    match NodeTree.read markup with
    | .error fault => .error (.ofFault fault)
    | .ok tree => .ok (.initial tree none (.start none tolerant []) h)
  | loadInto target markup =>
    match NodeTree.read markup with
    | .error fault => .error (.ofFault fault)
    | .ok tree => .ok (.initial tree (some target) (.start (some target) tolerant []) h)
  | instantiate template =>
    match (h.object template).template with
    | some content =>
      let alive := content.outerScope.filter fun id => !h.dead.contains id
      .ok (.initial content.tree none (.start none tolerant alive) h)
    | none =>
      .error
        (.coercion (h.object template).typeName "object has no template content" .nowhere)

/-- The steps that the load takes. An object to load into is not made first. -/
def steps (env : Environment) : Request → Load Unit
  | create _ => Loader.createThenRun env
  | loadInto _ _ => Load.runPasses env
  | instantiate _ => Loader.createThenRun env

/-- The run of the load, or why there is no document to load. -/
def run (env : Environment) (tolerant : Bool) (h : Heap) (request : Request) :
    Except LoadError Run :=
  (request.initial tolerant h).map (Run.ofStep (request.steps env))

/-- The failures that have been passed over by the time the load has ended. -/
def recorded (env : Environment) (tolerant : Bool) (h : Heap) (request : Request) :
    List LoadError :=
  match request.run env tolerant h with
  | .ok run => run.state.context.diagnostics
  | .error _ => []

/-- The loader answers with the outcome of the run, and leaves the heap as it is if there is no
document to load. -/
theorem outcome_eq (env : Environment) (tolerant : Bool) (h : Heap) (request : Request) :
    request.outcome env tolerant h =
      match request.run env tolerant h with
      | .ok run => run.outcome
      | .error error => ⟨.error error, h⟩ := by
  cases request with
  | create markup =>
    simp only [outcome, Loader.create, run, initial]
    cases NodeTree.read markup <;> rfl
  | loadInto target markup =>
    simp only [outcome, Loader.loadInto, run, initial]
    cases NodeTree.read markup <;> rfl
  | instantiate template =>
    simp only [outcome, Loader.instantiate, run, initial]
    cases (h.object template).template <;> rfl

section Reported

variable {env : Environment} {tolerant : Bool} {h : Heap} {request : Request} {report : Report}
  (reported : (request.outcome env tolerant h).result = .ok report)

include reported

/-- There is a run where there is a report, and the report is that of the run. -/
theorem exists_run_of_report :
    ∃ run, request.run env tolerant h = .ok run ∧ run.outcome.result = .ok report := by
  rw [outcome_eq] at reported
  cases ran : request.run env tolerant h with
  | error error =>
    rw [ran] at reported
    cases reported
  | ok run =>
    rw [ran] at reported
    exact ⟨run, rfl, reported⟩

/-- A report holds all failures that have been passed over. -/
theorem diagnostics_of_report : report.diagnostics = request.recorded env tolerant h := by
  obtain ⟨run, ran, reported⟩ := exists_run_of_report reported
  obtain ⟨_, -, rfl⟩ := Run.eq_of_result reported
  unfold recorded
  rw [ran]

end Reported

end Request

end MarkupLoader
