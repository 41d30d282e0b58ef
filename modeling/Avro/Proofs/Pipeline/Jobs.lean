import Avro.Pipeline.Basic
import Avro.Proofs.FileTree.Evolves

/-!
# What jobs do to files

A job may fail, and its effects remain. `Job.Meets` says which files it may have written in either
case, and what is known of its outcome.
-/

set_option autoImplicit false

namespace Avro

variable {session : Session}

namespace Job

variable {α β : Type} {next : α → Job β}

theorem run_bind (job : Job α) (next : α → Job β) (session : Session) :
    (job >>= next).run.run session =
      match job.run.run session with
      | (.ok value, after) => (next value).run.run after
      | (.error failure, after) => (.error failure, after) := by
  rw [ExceptT.run_bind, StateT.run_bind]
  obtain ⟨result, after⟩ := job.run.run session
  cases result <;> rfl

theorem run_bind_ok {job : Job α} {after : Session} {result : β}
    (ran : (job >>= next).run.run session = (.ok result, after)) :
    ∃ value middle, job.run.run session = (.ok value, middle) ∧
      (next value).run.run middle = (.ok result, after) := by
  rw [run_bind] at ran
  split at ran
  · rename_i value middle first
    exact ⟨value, middle, first, ran⟩
  · cases ran

theorem run_bind_error {job after failure}
    (failed : (job >>= next).run.run session = (.error failure, after)) :
    job.run.run session = (.error failure, after) ∨
      ∃ value middle, job.run.run session = (.ok value, middle) ∧
        (next value).run.run middle = (.error failure, after) := by
  rw [run_bind] at failed
  split at failed
  · rename_i value middle first
    exact .inr ⟨value, middle, first, failed⟩
  · rename_i first
    cases failed
    exact .inl first

theorem run_of_ok {job : Job α} {value : α} (done : (job.run.run session).1 = .ok value) :
    job.run.run session = (.ok value, (job.run.run session).2) := Prod.ext done rfl

@[simp] theorem run_get (session : Session) :
    (get : Job Session).run.run session = (.ok session, session) := rfl

@[simp] theorem run_modify (change : Session → Session) (session : Session) :
    (modify change : Job PUnit).run.run session = (.ok (), change session) := rfl

@[simp] theorem run_outcome (job : Job α) (session : Session) :
    (outcome job).run.run session = (.ok (job.run.run session).1, (job.run.run session).2) := rfl

/-- Whether it fails or not, a job writes files only at places of a kind, and its outcome is one
that is allowed. -/
def Meets (touched : List Text → Prop) (allowed : Except Failure α → Prop) (job : Job α) : Prop :=
  ∀ session, session.files.Evolves touched (job.run.run session).2.files ∧
    allowed (job.run.run session).1

section Rules

variable {touched : List Text → Prop} {allowed more : Except Failure α → Prop}
  {later : Except Failure β → Prop} {job : Job α}

theorem Meets.weaken (meets : Meets touched allowed job)
    (within : ∀ result, allowed result → more result) : Meets touched more job :=
  fun session => ⟨(meets session).1, within _ (meets session).2⟩

theorem Meets.bind (first : Meets touched allowed job)
    (second : ∀ value, allowed (.ok value) → Meets touched later (next value))
    (failed : ∀ failure, allowed (.error failure) → later (.error failure)) :
    Meets touched later (job >>= next) := by
  intro session
  have done := first session
  rw [run_bind]
  generalize job.run.run session = outcome at done
  obtain ⟨result, after⟩ := outcome
  obtain ⟨evolves, allowed⟩ := done
  cases result with
  | error failure => exact ⟨evolves, failed failure allowed⟩
  | ok value =>
    obtain ⟨further, done⟩ := second value allowed after
    exact ⟨evolves.trans further, done⟩

theorem meets_pure (value : α) : Meets touched (· = .ok value) (pure value : Job α) :=
  fun _ => ⟨.refl _ _, rfl⟩

theorem meets_throw (failure : Failure) :
    Meets touched (· = .error failure) (throw failure : Job α) :=
  fun _ => ⟨.refl _ _, rfl⟩

theorem meets_get :
    Meets touched (fun result => ∃ session, result = .ok session) (get : Job Session) :=
  fun session => ⟨.refl _ _, session, rfl⟩

theorem meets_modify {change} (keeps : ∀ session, (change session).files = session.files) :
    Meets touched (· = .ok ()) (modify change : Job PUnit) := by
  intro session
  refine ⟨?_, rfl⟩
  rw [run_modify, keeps]
  exact .refl _ _

theorem meets_log (level : LogLevel) (message : Text) (fields : List LogField) :
    Meets touched (· = .ok ()) (log level message fields) := meets_modify fun _ => rfl

theorem meets_measure (change : Metrics → Metrics) : Meets touched (· = .ok ()) (measure change) :=
  meets_modify fun _ => rfl

theorem Meets.outcome (meets : Meets touched allowed job) :
    Meets touched (fun result => ∃ inner, result = .ok inner ∧ allowed inner) (outcome job) :=
  fun session => ⟨(meets session).1, _, rfl, (meets session).2⟩

theorem Meets.andThen (first : Meets touched (fun result => ∃ value, result = .ok value) job)
    (second : ∀ value, Meets touched later (next value)) : Meets touched later (job >>= next) := by
  refine first.bind (fun value _ => second value) ?_
  rintro failure ⟨_, impossible⟩
  cases impossible

theorem meets_update {change : Session → Session} {next : Session → Job β}
    (evolves : ∀ session : Session, session.files.Evolves touched (change session).files)
    (second : ∀ session, Meets touched later (next session)) :
    Meets touched later
      (get >>= fun session => set (change session) >>= fun _ => next session) := by
  intro session
  obtain ⟨further, done⟩ := second session (change session)
  exact ⟨(evolves session).trans further, done⟩

theorem meets_forM {step : α → Job PUnit} (values : List α)
    (each : ∀ value, Meets touched (· = .ok ()) (step value)) :
    Meets touched (· = .ok ()) (values.forM step) := by
  induction values with
  | nil => exact meets_pure ()
  | cons value _ ih =>
    refine ((each value).weaken fun _ done => ⟨_, done⟩).andThen fun _ => ih

theorem Meets.forM {step : α → Job PUnit} (values : List α)
    (each : ∀ value, Meets touched (fun _ => True) (step value)) :
    Meets touched (fun _ => True) (values.forM step) := by
  induction values with
  | nil => exact (meets_pure ()).weaken fun _ _ => trivial
  | cons value _ ih => exact (each value).bind (fun _ _ => ih) fun _ _ => trivial

end Rules

/-- An outcome is reported and, up to how a failure is wrapped, passed on. -/
def Echoes (wrap : Failure → Failure) (handle : Except Failure α → Job α) : Prop :=
  ∀ result session, ((handle result).run.run session).1 = result.mapError wrap ∧
    ((handle result).run.run session).2.files = session.files

theorem Echoes.run {wrap handle} (echoes : Echoes wrap handle) (job : Job α) (session : Session) :
    ((outcome job >>= handle).run.run session).1 = (job.run.run session).1.mapError wrap ∧
      ((outcome job >>= handle).run.run session).2.files = (job.run.run session).2.files := by
  rw [run_bind, run_outcome]
  exact echoes _ _

theorem Meets.echo {touched : List Text → Prop} {allowed : Except Failure α → Prop} {job : Job α}
    (meets : Meets touched allowed job) (wrap : Failure → Failure)
    {handle : Except Failure α → Job α} (echoes : Echoes wrap handle) :
    Meets touched (fun result => ∃ inner, allowed inner ∧ result = inner.mapError wrap)
      (Job.outcome job >>= handle) := by
  intro session
  obtain ⟨result, files⟩ := echoes.run job session
  rw [result, files]
  exact ⟨(meets session).1, _, (meets session).2, rfl⟩

end Job

theorem Stage.run_run {α : Type} (stage : Stage) (context : StageContext) (work : Job α)
    (session : Session) :
    ∃ started done, started.files = session.files ∧
      done = (if context.canceled || session.canceled then (.error .canceled, started)
        else work.run.run started) ∧
      ((stage.run context work).run.run session).1 =
        done.1.mapError (.stage stage.name context.group) ∧
      ((stage.run context work).run.run session).2.files = done.2.files := by
  let checked : Job α := do
    if ← context.isCanceled then throw .canceled
    work
  let start := Job.log .info "Stage started" (context.fields ++ [.stage stage.name])
  refine ⟨(start.run.run session).2, checked.run.run (start.run.run session).2, rfl, ?_, ?_⟩
  · have peeked : context.isCanceled.run.run (start.run.run session).2 =
        (.ok (context.canceled || session.canceled), (start.run.run session).2) := rfl
    rw [Job.run_bind, peeked]
    cases context.canceled || session.canceled <;> rfl
  · rw [Stage.run, Job.run_bind]
    refine Job.Echoes.run ?_ checked (start.run.run session).2
    intro result session
    cases result <;> exact ⟨rfl, rfl⟩

theorem Stage.run_ok {α : Type} {stage : Stage} {context : StageContext} {work : Job α}
    {after : Session} {value : α}
    (ran : (stage.run context work).run.run session = (.ok value, after)) :
    ∃ started done, started.files = session.files ∧ work.run.run started = (.ok value, done) ∧
      after.files = done.files := by
  obtain ⟨started, done, same, did, result, files⟩ := stage.run_run context work session
  rw [ran] at result files
  have succeeded := mapError_ok.mp result.symm
  split at did
  · rw [did] at succeeded
    cases succeeded
  · refine ⟨started, done.2, same, ?_, files⟩
    rw [← did, ← succeeded]

/-- What a stage makes of an outcome: a failure, which may also be that it was canceled, is wrapped. -/
def Stage.Wraps {α : Type} (stage : Stage) (group : Text) (allowed : Except Failure α → Prop) :
    Except Failure α → Prop
  | .ok value => allowed (.ok value)
  | .error failure => ∃ cause, failure = .stage stage.name group cause ∧
      (cause = .canceled ∨ allowed (.error cause))

theorem Stage.meets_run {α : Type} {touched : List Text → Prop} {allowed : Except Failure α → Prop}
    {work : Job α} (meets : Job.Meets touched allowed work) (stage : Stage)
    (context : StageContext) :
    Job.Meets touched (stage.Wraps context.group allowed) (stage.run context work) := by
  intro session
  obtain ⟨started, done, same, rfl, result, files⟩ := stage.run_run context work session
  rw [result, files, ← same]
  split
  · exact ⟨.refl _ _, .canceled, rfl, .inl rfl⟩
  · obtain ⟨evolves, done⟩ := meets started
    refine ⟨evolves, ?_⟩
    generalize (work.run.run started).1 = outcome at done
    cases outcome with
    | ok => exact done
    | error cause => exact ⟨cause, rfl, .inr done⟩

end Avro
