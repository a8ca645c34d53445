/-
S3rm/Effects.lean

The operations pipeline tasks perform on what they share (channels, the
cancellation token, counters, flags, events) and on the outside (S3, the filter
callback, the listing), and the monads the translated code is written in:

    Task α   code that cannot fail           (a plain async fn)
    Act α    code that returns a Result<α>   (`?` is the monad's bind)

Logging and `yield_now` are left out: they touch nothing that is shared.
-/
import S3rm.Conc.Fallible
import S3rm.Conc.Machine
import S3rm.Config

namespace S3rm

open Conc

/-- The stages that do the work of a run. -/
inductive StageId where
  | lister
  | filter (n : Nat)
  | worker (n : Nat)
  deriving DecidableEq, Repr

/-- The tasks of a run: each stage, its supervisor, the terminator, and the
task that called `run()`. -/
inductive TaskId where
  | stage (s : StageId)
  | supervisor (s : StageId)
  | terminator
  | main
  deriving DecidableEq, Repr

/-- What a `tokio::select!` of `recv()` and `cancelled()` came back with. -/
inductive Selected where
  | received (object : Option S3Object)
  | cancelled
  deriving DecidableEq, Repr

/-- What the storage's listing does next: hand over an object, lose a
sub-listing, or return. -/
inductive ListStep where
  | object (o : S3Object)
  | subListingFailed (error : Error)
  | finished (result : Except Error Unit)
  deriving DecidableEq

/-- Operations.  Channels are numbered along the pipeline. -/
inductive Op where
  -- object channels
  | recv (chan : Nat)
  | select (chan : Nat)
  | send (chan : Nat) (object : S3Object)
  | isClosed (chan : Nat)
  -- cancellation token
  | isCancelled
  | cancel
  -- shared counters and flags
  | fetchAdd
  | incrementDeleted (bytes : Nat)
  | incrementFailed
  | setWarning
  | hasWarning
  | setError
  | hasError
  | setPanic
  | pushError (error : Error)
  | errorMessages
  -- statistics channel and events
  | sendStats (stats : DeletionStatistics)
  | closeStatsSender
  | updatePipelineStats (event : EventData)
  | pipelineStats
  | onEvent (event : EventData)
  -- the outside
  | nextListed
  | executeFilter (object : S3Object)
  | headObject (key : String) (versionId : Option String)
  | getObjectTagging (key : String) (versionId : Option String)
  | deleteObject (key : String) (versionId : Option String) (ifMatch : Option String)
  | deleteObjects (objects : List ObjectIdentifier)
  | sleep (milliseconds : Nat)
  -- the call of `Deleter::delete`
  | beginDelete (objects : List S3Object)
  -- awaiting another task
  | join (task : TaskId)
  deriving DecidableEq

/-- What an operation is answered with. -/
abbrev Resp : Op → Type
  | .recv _ => Option S3Object
  | .select _ => Selected
  | .send _ _ | .isClosed _ | .isCancelled | .hasWarning | .hasError => Bool
  | .fetchAdd => Nat
  | .errorMessages => List String
  | .pipelineStats => PipelineStats
  | .nextListed => ListStep
  | .executeFilter _ => Except Error Bool
  | .headObject _ _ => Except Error HeadObjectOutput
  | .getObjectTagging _ _ => Except Error GetObjectTaggingOutput
  | .deleteObject _ _ _ => Except Error Unit
  | .deleteObjects _ => Except Error DeleteObjectsOutput
  | .join _ => Outcome (Except Error Unit)
  | _ => Unit

instance : (o : Op) → DecidableEq (Resp o)
  | .recv _ => inferInstanceAs (DecidableEq (Option S3Object))
  | .select _ => inferInstanceAs (DecidableEq Selected)
  | .send _ _ | .isClosed _ | .isCancelled | .hasWarning | .hasError =>
    inferInstanceAs (DecidableEq Bool)
  | .fetchAdd => inferInstanceAs (DecidableEq Nat)
  | .errorMessages => inferInstanceAs (DecidableEq (List String))
  | .pipelineStats => inferInstanceAs (DecidableEq PipelineStats)
  | .nextListed => inferInstanceAs (DecidableEq ListStep)
  | .executeFilter _ => inferInstanceAs (DecidableEq (Except Error Bool))
  | .headObject _ _ => inferInstanceAs (DecidableEq (Except Error HeadObjectOutput))
  | .getObjectTagging _ _ => inferInstanceAs (DecidableEq (Except Error GetObjectTaggingOutput))
  | .deleteObject _ _ _ => inferInstanceAs (DecidableEq (Except Error Unit))
  | .deleteObjects _ => inferInstanceAs (DecidableEq (Except Error DeleteObjectsOutput))
  | .join _ => inferInstanceAs (DecidableEq (Outcome (Except Error Unit)))
  | .cancel | .incrementDeleted _ | .incrementFailed | .setWarning | .setError | .setPanic
  | .pushError _ | .sendStats _ | .closeStatsSender | .updatePipelineStats _ | .onEvent _
  | .sleep _ | .beginDelete _ => inferInstanceAs (DecidableEq Unit)

abbrev Event := Ev Op Resp

abbrev Trace := List Event

/-- Code that always returns. -/
abbrev Task := Prog Op Resp

/-- Code that returns a `Result`. -/
abbrev Act := Fallible Error Op Resp

/-! ### The operations under their names -/

section operations

/-- Perform one operation. -/
abbrev ask (o : Op) : Task (Resp o) := Prog.perform o

abbrev recv (chan : Nat) : Task (Option S3Object) := ask (.recv chan)
abbrev select (chan : Nat) : Task Selected := ask (.select chan)
abbrev send (chan : Nat) (object : S3Object) : Task Bool := ask (.send chan object)
abbrev isClosed (chan : Nat) : Task Bool := ask (.isClosed chan)
abbrev isCancelled : Task Bool := ask .isCancelled
abbrev cancel : Task Unit := ask .cancel
abbrev fetchAdd : Task Nat := ask .fetchAdd
abbrev incrementDeleted (bytes : Nat) : Task Unit := ask (.incrementDeleted bytes)
abbrev incrementFailed : Task Unit := ask .incrementFailed
abbrev setWarning : Task Unit := ask .setWarning
abbrev hasWarning : Task Bool := ask .hasWarning
abbrev setError : Task Unit := ask .setError
abbrev hasError : Task Bool := ask .hasError
abbrev setPanic : Task Unit := ask .setPanic
abbrev pushError (error : Error) : Task Unit := ask (.pushError error)
abbrev errorMessages : Task (List String) := ask .errorMessages
abbrev sendStats (stats : DeletionStatistics) : Task Unit := ask (.sendStats stats)
abbrev closeStatsSender : Task Unit := ask .closeStatsSender
abbrev updatePipelineStats (event : EventData) : Task Unit := ask (.updatePipelineStats event)
abbrev pipelineStats : Task PipelineStats := ask .pipelineStats
abbrev onEvent (event : EventData) : Task Unit := ask (.onEvent event)
abbrev nextListed : Task ListStep := ask .nextListed
abbrev executeFilter (object : S3Object) : Act Bool := ask (.executeFilter object)
abbrev headObject (key : String) (versionId : Option String) : Act HeadObjectOutput :=
  ask (.headObject key versionId)
abbrev getObjectTagging (key : String) (versionId : Option String) : Act GetObjectTaggingOutput :=
  ask (.getObjectTagging key versionId)
abbrev deleteObject (key : String) (versionId ifMatch : Option String) : Act Unit :=
  ask (.deleteObject key versionId ifMatch)
abbrev deleteObjects (objects : List ObjectIdentifier) : Act DeleteObjectsOutput :=
  ask (.deleteObjects objects)
abbrev sleep (milliseconds : Nat) : Task Unit := ask (.sleep milliseconds)
abbrev beginDelete (objects : List S3Object) : Task Unit := ask (.beginDelete objects)
abbrev join (task : TaskId) : Task (Outcome (Except Error Unit)) := ask (.join task)

end operations

/-! ### Code shared by the stages -/

/-- `SendResult`. -/
inductive SendResult where
  | success
  | closed
  deriving DecidableEq, Repr

/-- `Stage::send`. -/
def stageSend (chan : Nat) (object : S3Object) : Act SendResult := do
  if ← send chan object then
    return .success
  else if ← isClosed chan then
    return .closed
  else
    throw (.context "async_channel::Sender::send() failed." (.other "sending into a closed channel"))

/-- `EventManager::trigger_event`. -/
def triggerEvent (manager : EventManager) (event : EventData) : Task Unit := do
  updatePipelineStats event
  if manager.callbackRegistered then
    if manager.eventFlags event.eventType then
      onEvent { event with dryRun := manager.dryRun }
    if event.eventType = .pipelineEnd ∧ manager.eventFlags .statsReport then
      let stats ← pipelineStats
      onEvent { EventData.new .statsReport with stats := some stats, dryRun := manager.dryRun }

/-- `if event_manager.is_callback_registered() { trigger_event(..) }`. -/
def triggerEventIfRegistered (manager : EventManager) (event : EventData) : Task Unit :=
  if manager.callbackRegistered then triggerEvent manager event else pure ()

/-- The DELETE_FILTERED event of an object, as every filter builds it. -/
def filteredEvent (object : S3Object) (message : String) : EventData :=
  { EventData.new .deleteFiltered with
    key := some object.key, versionId := object.versionId, size := some (asU64 object.size),
    lastModified := some object.lastModified, message := some message }

end S3rm
