/-
S3rm/Pipeline.lean

The running pipeline (src/pipeline.rs): which tasks `execute_pipeline` starts,
the programs of the lister, the supervisors, the terminator and of the rest of
`run()`, and the state they share, put together as a machine.

Channels are numbered along the chain.  With `n` filter stages,

    lister → 0 → filter 0 → 1 → … → filter (n-1) → n → workers → n+1 → terminator

and a channel is closed when all its senders or all its receivers are gone,
that is, when the tasks that own them have ended.
-/
import S3rm.Deleter.Worker

namespace S3rm

open Conc Conc.Prog

/-! ### Programs -/

/-- One step of the listing, with the error of the first failed sub-listing. -/
def listTurn (sender : Nat) (failed : Option Error) : Act (Option Error ⊕ Unit) := do
  match ← nextListed with
  | .object o =>
    let _ ← send sender o
    return .inl failed
  | .subListingFailed e =>
    cancel
    return .inl (some (failed.getD e))
  | .finished result =>
    match failed with
    | some e => throw e
    | none =>
      ofResult result
      return .inr ()

/-- `ObjectLister::list_target`.  What the storage lists, in which order and
with which result is up to the outside (`Storage.Listing` is its model); a
failed sub-listing cancels the pipeline and makes the listing fail.  The tasks of
a parallel listing appear as one here, with their sends in the order in which the
channel takes them: what each of them holds unsent is not in this model. -/
def listTarget (sender : Nat) : Act Unit := loop (listTurn sender) none

/-- `Terminator::terminate`. -/
def terminate (receiver : Nat) : Act Unit :=
  loop (fun _ => do
    match ← recv receiver with
    | some _ => return .inl ()
    | none => return .inr ()) ()

/-- The supervisor's text for a panicked stage, before the join error's own. -/
def panicMessage (config : Config) : StageId → String
  | .lister => "object lister task panicked: "
  | .filter n =>
    match (filterObjects config)[n]? with
    | some .userDefined => "user defined filter panicked: "
    | _ => "filter task panicked: "
  | .worker _ => "delete worker panicked: "

/-- Errors a supervisor does not report: a worker's cancellation. -/
def StageId.ignores : StageId → Error → Bool
  | .worker _, e => e.isCancelledError
  | _, _ => false

/-- The supervising task around a stage. -/
def supervise (config : Config) (stage : StageId) : Act Unit := do
  match ← join (.stage stage) with
  | .done (.ok ()) => return ()
  | .done (.error e) =>
    if stage.ignores e then return ()
    cancel
    setError
    pushError e
  | .panicked =>
    cancel
    setError
    setPanic
    pushError (.other (panicMessage config stage))

/-- `record_error`. -/
def recordError (error : Error) : Task Unit := do
  setError
  pushError error

/-- The end of `execute_pipeline`: waiting for the terminator. -/
def awaitTerminator : Task Unit := do
  match ← join .terminator with
  | .done _ => return ()
  | .panicked =>
    setPanic
    recordError (.other "terminator task panicked: ")

/-- `--warn-as-error` at the end of `execute_pipeline`. -/
def promoteWarnings (config : Config) : Task Unit :=
  if config.warnAsError then do
    if ← hasWarning then recordError (.other "warnings promoted to errors (--warn-as-error)")
  else pure ()

/-- `get_error_messages`. -/
def getErrorMessages : Task (Option (List String)) := do
  if ← hasError then return some (← errorMessages)
  return none

/-- The PIPELINE_ERROR event with the first error. -/
def errorEvent (messages : Option (List String)) : EventData :=
  { EventData.new .pipelineError with
    message := some ((messages.getD []).head?.getD "Unknown error") }

/-- The PIPELINE_ERROR part of `fire_completion_events`. -/
def fireErrorEvent (config : Config) : Task Unit := do
  if ← hasError then triggerEvent config.eventManager (errorEvent (← getErrorMessages))

/-- The DELETE_CANCEL part of `fire_completion_events`. -/
def fireCancelEvent (config : Config) : Task Unit := do
  if ← isCancelled then
    triggerEvent config.eventManager
      { EventData.new .deleteCancel with message := some "Pipeline was cancelled" }

/-- `fire_completion_events`. -/
def fireCompletionEvents (config : Config) : Task Unit := do
  fireErrorEvent config
  fireCancelEvent config
  triggerEvent config.eventManager (EventData.new .pipelineEnd)

/-- `run()` from the moment the stages are started. -/
def runStarted (config : Config) : Task (Except Error Unit) := do
  awaitTerminator
  promoteWarnings config
  closeStatsSender
  fireCompletionEvents config
  return .ok ()

/-! ### Tasks and channels -/

/-- The number of filter stages. -/
def filterCount (config : Config) : Nat := (filterObjects config).length

/-- The stages of a run. -/
def StageId.exists (config : Config) : StageId → Bool
  | .lister => true
  | .filter n => decide (n < filterCount config)
  | .worker n => decide (n < config.workerSize)

/-- The program of a stage. -/
def StageId.program (config : Config) : StageId → Option (Act Unit)
  | .lister => some (listTarget 0)
  | .filter n => (filterObjects config)[n]?.map fun kind => kind.filter ⟨config, n, n + 1⟩
  | .worker n =>
    if n < config.workerSize then
      some (receiveAndDelete ⟨config, filterCount config, filterCount config + 1⟩)
    else none

/-- The program of a task. -/
def TaskId.program (config : Config) : TaskId → Option (Act Unit)
  | .stage s => s.program config
  | .supervisor s => if s.exists config then some (supervise config s) else none
  | .terminator => some (terminate (filterCount config + 1))
  | .main => some (runStarted config)

/-- The workers. -/
def workers (config : Config) : List TaskId :=
  (List.range config.workerSize).map fun n => .stage (.worker n)

/-- The owners of a channel's senders. -/
def senders (config : Config) (chan : Nat) : List TaskId :=
  if chan = 0 then [.stage .lister]
  else if chan ≤ filterCount config then [.stage (.filter (chan - 1))]
  else workers config

/-- The owners of a channel's receivers. -/
def receivers (config : Config) (chan : Nat) : List TaskId :=
  if chan < filterCount config then [.stage (.filter chan)]
  else if chan = filterCount config then workers config
  else [.terminator]

/-! ### Shared state -/

structure Shared where
  queues : Nat → List S3Object := fun _ => []
  cancelled : Bool := false
  deleteCounter : Nat := 0
  report : DeletionStatsReport := {}
  hasWarning : Bool := false
  hasError : Bool := false
  hasPanic : Bool := false
  errors : List Error := []
  stats : List DeletionStatistics := []
  statsClosed : Bool := false
  pipelineStats : PipelineStats := {}

/-- Outcomes of tasks so far. -/
abbrev Outcomes := TaskId → Option (Outcome (Except Error Unit))

/-- The channel is closed. -/
def isChannelClosed (config : Config) (out : Outcomes) (chan : Nat) : Bool :=
  (senders config chan).all (fun i => (out i).isSome) ||
    (receivers config chan).all fun i => (out i).isSome

namespace Shared

/-- Take the head of a channel's queue, or find it closed and empty. -/
def receive (config : Config) (out : Outcomes) (s : Shared) (chan : Nat) :
    Option S3Object → Option Shared
  | some object =>
    match s.queues chan with
    | head :: rest =>
      if head = object then some { s with queues := Function.update s.queues chan rest } else none
    | [] => none
  | none =>
    if isChannelClosed config out chan && (s.queues chan).isEmpty then some s else none

/-- What an operation with a given response does to the shared state; `none`
when it cannot have that response now. -/
def handle (config : Config) (out : Outcomes) (s : Shared) : (o : Op) → Resp o → Option Shared
  | .recv chan, r => s.receive config out chan r
  | .select chan, .received r => s.receive config out chan r
  | .select _, .cancelled => if s.cancelled then some s else none
  | .send chan object, true =>
    if !isChannelClosed config out chan &&
        decide ((s.queues chan).length < config.objectListingQueueSize) then
      some { s with queues := Function.update s.queues chan (s.queues chan ++ [object]) }
    else none
  | .send chan _, false => if isChannelClosed config out chan then some s else none
  | .isClosed chan, r => if r = isChannelClosed config out chan then some s else none
  | .isCancelled, r => if r = s.cancelled then some s else none
  | .cancel, _ => some { s with cancelled := true }
  | .fetchAdd, r =>
    if r = s.deleteCounter then some { s with deleteCounter := s.deleteCounter + 1 } else none
  | .incrementDeleted bytes, _ => some { s with report := s.report.incrementDeleted bytes }
  | .incrementFailed, _ => some { s with report := s.report.incrementFailed }
  | .setWarning, _ => some { s with hasWarning := true }
  | .hasWarning, r => if r = s.hasWarning then some s else none
  | .setError, _ => some { s with hasError := true }
  | .hasError, r => if r = s.hasError then some s else none
  | .setPanic, _ => some { s with hasPanic := true }
  | .pushError error, _ => some { s with errors := s.errors ++ [error] }
  | .errorMessages, r => if r = s.errors.map Error.display then some s else none
  | .sendStats stats, _ => some (if s.statsClosed then s else { s with stats := s.stats ++ [stats] })
  | .closeStatsSender, _ => some { s with statsClosed := true }
  | .updatePipelineStats event, _ =>
    some { s with pipelineStats := s.pipelineStats.update event }
  | .pipelineStats, r => if r = s.pipelineStats then some s else none
  | .join task, r => if out task = some r then some s else none
  | .onEvent _, _ | .nextListed, _ | .executeFilter _, _ | .headObject _ _, _
  | .getObjectTagging _ _, _ | .deleteObject _ _ _, _ | .deleteObjects _, _ | .sleep _, _
  | .beginDelete _, _ => some s

end Shared

/-! ### The machine -/

/-- What is outside the pipeline: the answers it may give, and whether the
cancellation token may be cancelled from there. -/
structure Outside where
  admits : Event → Prop
  mayCancel : Prop

/-- The stages and the terminator can panic at any moment. -/
def TaskId.mayPanic : TaskId → Prop
  | .stage _ | .terminator => True
  | .supervisor _ | .main => False

abbrev PipelineMachine := Machine TaskId Op Resp (Except Error Unit) Shared

abbrev PipelineWorld := World TaskId Op Resp (Except Error Unit) Shared

/-- The pipeline as a machine. -/
def pipeline (config : Config) (outside : Outside) : PipelineMachine where
  handle out _ s o r := s.handle config out o r
  admits := outside.admits
  spawn _ _ _ := none
  retire _ _ s := s
  mayPanic := TaskId.mayPanic
  env s s' := outside.mayCancel ∧ s' = { s with cancelled := true }

/-- The pipeline with all its tasks just started. -/
def start (config : Config) : PipelineWorld where
  tasks i :=
    match i.program config with
    | some p => .running p
    | none => .idle
  code i := i.program config
  shared := {}
  log := []

/-- The states a run of the pipeline can be in. -/
def Running (config : Config) (outside : Outside) (w : PipelineWorld) : Prop :=
  (pipeline config outside).Reachable (start config) w

theorem start_initial (config : Config) : (start config).Initial := by
  refine ⟨rfl, fun i => ?_⟩
  rcases h : i.program config with - | p
  · exact .inl ⟨h, by simp [start, h]⟩
  · exact .inr ⟨p, h, by simp [start, h]⟩

end S3rm
