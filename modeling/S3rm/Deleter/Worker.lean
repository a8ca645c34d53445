/-
S3rm/Deleter/Worker.lean

`ObjectDeleter` (src/deleter/mod.rs): the worker that reads objects from the
shared channel, applies the content-type, metadata and tag filters, takes a
ticket against `--max-delete`, buffers the object and hands full buffers to the
deletion backend.  The buffer is the loop state.
-/
import S3rm.Deleter.Batch
import S3rm.Filters
import S3rm.Format

namespace S3rm

open Conc Conc.Prog

/-! ### Regex filters -/

/-- `decide_delete_by_regex`: `true` lets the object through. -/
def decideDeleteByRegex (key : String) (regex : Option Regex) (formattedValue : Option String)
    (filterName : String) (isInclude : Bool) : Except Error Bool :=
  match regex with
  | none => .ok true
  | some regex =>
    match formattedValue with
    | none => .ok !isInclude
    | some value =>
      match regex.isMatch value with
      | .error e => .error (.other ("regex match failed for filter '" ++ filterName ++ "', key '" ++
          key ++ "': " ++ e))
      | .ok isMatch => .ok (if isInclude then isMatch else !isMatch)

/-- `emit_filter_skip`. -/
def emitFilterSkip (config : Config) (object : S3Object) (filterName : String) : Task Unit := do
  sendStats (.deleteSkip object.key)
  triggerEventIfRegistered config.eventManager
    (filteredEvent object ("Object filtered by " ++ filterName))

/-- One regex filter of the worker: `true` when the object was filtered out. -/
def skipByRegex (config : Config) (object : S3Object) (regex : Option Regex)
    (formattedValue : Option String) (filterName : String) (isInclude : Bool) : Act Bool := do
  if !(← ofResult (decideDeleteByRegex object.key regex formattedValue filterName isInclude)) then
    emitFilterSkip config object filterName
    return true
  return false

/-- `handle_api_error`. -/
def handleApiError (error : Error) (key operation : String) : Act Bool := do
  if error.isNotFoundError then
    sendStats (.deleteSkip key)
    return true
  cancel
  throw (.context (operation ++ " failed for key: " ++ key) (.other error.displayChain))

/-- `needs_head_object`. -/
def needsHeadObject (fc : FilterConfig) : Bool :=
  fc.includeContentTypeRegex.isSome || fc.excludeContentTypeRegex.isSome ||
    fc.includeMetadataRegex.isSome || fc.excludeMetadataRegex.isSome

/-- `formatted_metadata`: an empty map counts as none. -/
def formattedMetadata (fc : FilterConfig) (output : HeadObjectOutput) : Option String :=
  (output.metadata.filter fun m => !m.entries.isEmpty).map (formatMetadata fc.encode)

/-- `apply_head_object_filters`: `true` when the object was filtered out or not
found. -/
def applyHeadObjectFilters (config : Config) (object : S3Object) : Act Bool := do
  let fc := config.filterConfig
  if !needsHeadObject fc then return false
  if object.isDeleteMarker then
    emitFilterSkip config object "delete_marker_attribute_filter"
    return true
  match ← attempt (headObject object.key object.versionId) with
  | .error e => handleApiError e object.key "head_object"
  | .ok output =>
    if ← skipByRegex config object fc.includeContentTypeRegex output.contentType
        "include_content_type_regex_filter" true then return true
    if ← skipByRegex config object fc.excludeContentTypeRegex output.contentType
        "exclude_content_type_regex_filter" false then return true
    if ← skipByRegex config object fc.includeMetadataRegex (formattedMetadata fc output)
        "include_metadata_regex_filter" true then return true
    skipByRegex config object fc.excludeMetadataRegex (formattedMetadata fc output)
      "exclude_metadata_regex_filter" false

/-- `needs_tagging`. -/
def needsTagging (fc : FilterConfig) : Bool :=
  fc.includeTagRegex.isSome || fc.excludeTagRegex.isSome

/-- `apply_tag_filters`: `true` when the object was filtered out or not found. -/
def applyTagFilters (config : Config) (object : S3Object) : Act Bool := do
  let fc := config.filterConfig
  if !needsTagging fc then return false
  if object.isDeleteMarker then
    emitFilterSkip config object "delete_marker_attribute_filter"
    return true
  match ← attempt (getObjectTagging object.key object.versionId) with
  | .error e => handleApiError e object.key "get_object_tagging"
  | .ok output =>
    if ← skipByRegex config object fc.includeTagRegex (some (formatTags fc.encode output.tagSet))
        "include_tag_regex_filter" true then return true
    skipByRegex config object fc.excludeTagRegex (some (formatTags fc.encode output.tagSet))
      "exclude_tag_regex_filter" false

/-! ### Deleting what is buffered -/

/-- The result of a dry run: everything deleted. -/
def dryRunResult (batch : List S3Object) : DeleteResult :=
  { deleted := batch.map fun o => { key := o.key, versionId := o.versionId } }

/-- The call of the backend; its error cancels the pipeline. -/
def callDeleter (config : Config) (object : S3Object) (rest : List S3Object) :
    Act DeleteResult := do
  beginDelete (object :: rest)
  match ← attempt (deleterDelete config object rest) with
  | .ok result => return result
  | .error e =>
    cancel
    throw (.context "delete worker has been cancelled with error." e)

/-- The size counted for a deleted key: 0 when the batch has no such object. -/
def deletedSize (batch : List S3Object) (dk : DeletedKey) : Nat :=
  ((objLookup batch (dk.key, dk.versionId)).map fun o => asU64 o.size).getD 0

/-- The DELETE_COMPLETE event of a deleted key. -/
def completeEvent (config : Config) (batch : List S3Object) (dk : DeletedKey) : EventData :=
  { EventData.new .deleteComplete with
    dryRun := config.dryRun, key := some dk.key, versionId := dk.versionId,
    size := some (deletedSize batch dk),
    lastModified := (objLookup batch (dk.key, dk.versionId)).map S3Object.lastModified }

/-- Statistics and event of a deleted key. -/
def emitDeleted (config : Config) (batch : List S3Object) (dk : DeletedKey) : Task Unit := do
  incrementDeleted (deletedSize batch dk)
  sendStats (.deleteComplete dk.key)
  sendStats (.deleteBytes (deletedSize batch dk))
  triggerEvent config.eventManager (completeEvent config batch dk)

/-- The DELETE_FAILED event of a failed key. -/
def failedEvent (config : Config) (fk : FailedKey) : EventData :=
  { EventData.new .deleteFailed with
    dryRun := config.dryRun, key := some fk.key, versionId := fk.versionId,
    errorMessage := some (fk.errorCode ++ ": " ++ fk.errorMessage) }

/-- Counter and event of a failed key; its statistic was sent by the backend. -/
def emitFailed (config : Config) (fk : FailedKey) : Task Unit := do
  incrementFailed
  triggerEvent config.eventManager (failedEvent config fk)

/-- Forward a batch to the next stage, until that is closed. -/
def forwardBatch (stage : Stage) : List S3Object → Act Unit
  | [] => return ()
  | object :: rest => do
    if (← stageSend stage.sender object) = .closed then return ()
    forwardBatch stage rest

/-- Statistics and events of a whole result. -/
def emitResult (config : Config) (batch : List S3Object) (result : DeleteResult) : Task Unit := do
  result.deleted.forM (emitDeleted config batch)
  result.failed.forM (emitFailed config)

/-- What follows the backend's result. -/
def finishBatch (stage : Stage) (batch : List S3Object) (result : DeleteResult) : Act Unit := do
  emitResult stage.config batch result
  if result.failed.isEmpty then forwardBatch stage batch
  else
    setWarning
    if stage.config.warnAsError then cancel
    else forwardBatch stage batch

/-- The result of a batch: simulated in a dry run. -/
def batchResult (config : Config) (object : S3Object) (rest : List S3Object) : Act DeleteResult :=
  if config.dryRun then pure (dryRunResult (object :: rest)) else callDeleter config object rest

/-- `delete_buffered_objects`: returns the buffer it leaves. -/
def deleteBufferedObjects (stage : Stage) (buffer : List S3Object) : Act (List S3Object) := do
  match buffer with
  | [] => return []
  | object :: rest =>
    if ← isCancelled then return buffer
    let result ← batchResult stage.config object rest
    finishBatch stage buffer result
    return []

/-! ### The worker -/

/-- The message of an object over the limit. -/
def maxDeleteMessage : String :=
  "--max-delete has been reached. delete operation has been cancelled."

/-- The DELETE_FAILED event of an object over the limit. -/
def maxDeleteEvent (object : S3Object) : EventData :=
  { EventData.new .deleteFailed with key := some object.key, message := some maxDeleteMessage }

/-- `check_max_delete`: whether the object is over the limit, and the buffer. -/
def checkMaxDelete (stage : Stage) (buffer : List S3Object) (object : S3Object) :
    Act (Bool × List S3Object) := do
  let deletedCount := (← fetchAdd) + 1
  match stage.config.maxDelete with
  | none => return (false, buffer)
  | some maxDelete =>
    if deletedCount ≤ maxDelete then return (false, buffer)
    let buffer ← deleteBufferedObjects stage buffer
    sendStats (.deleteError object.key)
    setWarning
    triggerEvent stage.config.eventManager (maxDeleteEvent object)
    cancel
    return (true, buffer)

/-- `effective_batch_size`. -/
def effectiveBatchSize (config : Config) : Nat :=
  if config.batchSize ≤ 1 then 1 else min config.batchSize maxBatchSize

/-- `buffer_and_delete`. -/
def bufferAndDelete (stage : Stage) (buffer : List S3Object) (object : S3Object) :
    Act (List S3Object) :=
  let buffer := buffer ++ [object]
  if buffer.length ≥ effectiveBatchSize stage.config then deleteBufferedObjects stage buffer
  else pure buffer

/-- `process_object`. -/
def processObject (stage : Stage) (buffer : List S3Object) (object : S3Object) :
    Act (List S3Object) := do
  if ← applyHeadObjectFilters stage.config object then return buffer
  if ← applyTagFilters stage.config object then return buffer
  let (exceeded, buffer) ← checkMaxDelete stage buffer object
  if exceeded then return buffer
  bufferAndDelete stage buffer object

/-- One turn of `receive_and_delete`. -/
def workerTurn (stage : Stage) (buffer : List S3Object) : Act (List S3Object ⊕ Unit) := do
  match ← select stage.receiver with
  | .received (some object) =>
    let buffer ← processObject stage buffer object
    if ← isCancelled then return .inr ()
    return .inl buffer
  | .received none =>
    if ← isClosed stage.receiver then
      let _ ← deleteBufferedObjects stage buffer
      return .inr ()
    return .inr ()
  | .cancelled => return .inr ()

/-- `receive_and_delete`. -/
def receiveAndDelete (stage : Stage) : Act Unit := loop (workerTurn stage) []

end S3rm
