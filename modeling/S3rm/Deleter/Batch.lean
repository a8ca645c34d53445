/-
S3rm/Deleter/Batch.lean

The two deletion backends: `BatchDeleter` (src/deleter/batch.rs), which sends
DeleteObjects requests and falls back to single DeleteObject calls for the keys
that failed with a transient error, and `SingleDeleter`
(src/deleter/single.rs).
-/
import S3rm.Effects

namespace S3rm

open Conc Conc.Prog

/-! ### Chunks and lookups -/

/-- Maximum objects per DeleteObjects call. -/
def maxBatchSize : Nat := 1000

/-- At most `fuel` pieces of `n` elements, the last one shorter. -/
def chunksOf {α : Type} (n : Nat) : Nat → List α → List (List α)
  | 0, _ => []
  | _ + 1, [] => []
  | fuel + 1, x :: xs => (x :: xs).take n :: chunksOf n fuel ((x :: xs).drop n)

/-- `slice::chunks`, which panics on size 0: nothing after it happens. -/
def chunks {α : Type} (n : Nat) (xs : List α) : List (List α) :=
  if n = 0 then [] else chunksOf n xs.length xs

theorem chunksOf_flatten {α : Type} {n : Nat} (hn : 0 < n) (fuel : Nat) (xs : List α)
    (h : xs.length ≤ fuel) : (chunksOf n fuel xs).flatten = xs := by
  induction fuel generalizing xs with
  | zero =>
    obtain rfl : xs = [] := List.length_eq_zero_iff.mp (by omega)
    rfl
  | succ fuel ih =>
    cases xs with
    | nil => rfl
    | cons x xs =>
      have hdrop : ((x :: xs).drop n).length ≤ fuel := by
        simp only [List.length_drop, List.length_cons] at h ⊢
        omega
      rw [chunksOf, List.flatten_cons, ih _ hdrop, List.take_append_drop]

@[simp] theorem chunks_flatten {α : Type} {n : Nat} (hn : 0 < n) (xs : List α) :
    (chunks n xs).flatten = xs := by
  rw [chunks, if_neg (by omega), chunksOf_flatten hn _ _ le_rfl]

/-- Every object of a chunk is an object of the list. -/
theorem mem_of_mem_chunks {α : Type} {n : Nat} {xs chunk : List α} (h : chunk ∈ chunks n xs)
    {x : α} (hx : x ∈ chunk) : x ∈ xs := by
  by_cases hn : n = 0
  · simp [chunks, hn] at h
  · rw [← chunks_flatten (Nat.pos_of_ne_zero hn) xs]
    exact List.mem_flatten.mpr ⟨chunk, h, hx⟩

theorem length_le_of_mem_chunks {α : Type} {n : Nat} {xs chunk : List α}
    (h : chunk ∈ chunks n xs) : chunk.length ≤ n := by
  unfold chunks at h
  split_ifs at h
  · cases h
  generalize xs.length = fuel at h
  induction fuel generalizing xs with
  | zero => cases h
  | succ fuel ih =>
    cases xs with
    | nil => cases h
    | cons x xs =>
      rcases List.mem_cons.mp h with rfl | h
      · rw [List.length_take]
        exact Nat.min_le_left _ _
      · exact ih h

/-- A lookup map from (key, version id): the last object of an id wins. -/
def objLookup (objects : List S3Object) (id : ObjectId) : Option S3Object :=
  objects.reverse.find? fun object => object.id = id

theorem objLookup_some {objects : List S3Object} {id : ObjectId} {o : S3Object}
    (h : objLookup objects id = some o) : o ∈ objects ∧ o.id = id := by
  refine ⟨?_, by simpa using List.find?_some h⟩
  simpa using List.mem_of_find?_eq_some h

theorem objLookup_isSome {objects : List S3Object} {o : S3Object} (h : o ∈ objects) :
    ∃ o', objLookup objects o.id = some o' := by
  refine Option.isSome_iff_exists.mp ?_
  rw [objLookup, List.find?_isSome]
  exact ⟨o, List.mem_reverse.mpr h, by simp⟩

/-! ### BatchDeleter -/

/-- `is_retryable_error_code`. -/
def isRetryableErrorCode (code : String) : Bool :=
  code == "InternalError" || code == "SlowDown" || code == "ServiceUnavailable" ||
    code == "RequestTimeout" || code == "unknown"

/-- The ETag condition of an object: only with `if_match`. -/
def ifMatchETag (config : Config) (object : S3Object) : Option String :=
  if config.ifMatch then object.eTag else none

/-- The identifier of an object in a DeleteObjects request. -/
def objectIdentifier (config : Config) (object : S3Object) : ObjectIdentifier :=
  { key := object.key, versionId := object.versionId, eTag := ifMatchETag config object }

/-- The pause before every attempt but the first. -/
def pauseBefore (config : Config) (attempt : Nat) : Task Unit :=
  if attempt > 0 then sleep config.forceRetryConfig.forceRetryIntervalMilliseconds else pure ()

/-- The attempts of `retry_failed_key_with_single_delete`, from number `attempt`
with `left` of them to go. -/
def fallbackAttempts (config : Config) (key : String) (versionId ifMatch : Option String)
    (attempt : Nat) : (left : Nat) → Task (Option DeletedKey)
  | 0 => return none
  | left + 1 => do
    pauseBefore config attempt
    match ← (deleteObject key versionId ifMatch).run with
    | .ok _ => return some { key, versionId }
    | .error _ => fallbackAttempts config key versionId ifMatch (attempt + 1) left

/-- `retry_failed_key_with_single_delete`. -/
def retryFailedKeyWithSingleDelete (config : Config) (key : String)
    (versionId ifMatch : Option String) (code message : String) :
    Task (Except FailedKey DeletedKey) := do
  match ← fallbackAttempts config key versionId ifMatch 0
      (config.forceRetryConfig.forceRetryCount + 1) with
  | some deletedKey => return .ok deletedKey
  | none => return .error { key, versionId, errorCode := code, errorMessage := message }

namespace DeleteErrorEntry

/-- The fields of an error entry with their defaults. -/
def keyOr (err : DeleteErrorEntry) : String := err.key.getD "unknown"
def codeOr (err : DeleteErrorEntry) : String := err.code.getD "unknown"
def messageOr (err : DeleteErrorEntry) : String := err.message.getD "no message"

/-- What an error entry says it is about. -/
def id (err : DeleteErrorEntry) : ObjectId := (err.keyOr, err.versionId)

end DeleteErrorEntry

/-- The ETag the fallback sends for an error entry. -/
def fallbackETag (config : Config) (chunk : List S3Object) (err : DeleteErrorEntry) :
    Option String :=
  if config.ifMatch then (objLookup chunk err.id).bind S3Object.eTag else none

/-- A per-key error that is not retried as a result. -/
def DeleteErrorEntry.toFailedKey (err : DeleteErrorEntry) : FailedKey :=
  { key := err.keyOr, versionId := err.versionId, errorCode := err.codeOr,
    errorMessage := err.messageOr }

/-- What `BatchDeleter::delete` does about one error entry. -/
def handleErrorEntry (config : Config) (chunk : List S3Object) (result : DeleteResult)
    (err : DeleteErrorEntry) : Task DeleteResult := do
  if isRetryableErrorCode err.codeOr then
    match ← retryFailedKeyWithSingleDelete config err.keyOr err.versionId
        (fallbackETag config chunk err) err.codeOr err.messageOr with
    | .ok deletedKey => return { result with deleted := result.deleted ++ [deletedKey] }
    | .error failedKey =>
      sendStats (.deleteError err.keyOr)
      return { result with failed := result.failed ++ [failedKey] }
  else
    sendStats (.deleteError err.keyOr)
    return { result with failed := result.failed ++ [err.toFailedKey] }

/-- A `deleted` entry of the response as a result. -/
def DeletedObject.toDeletedKey (deleted : DeletedObject) : DeletedKey :=
  { key := deleted.key.getD "", versionId := deleted.versionId }

/-- One chunk of `BatchDeleter::delete`. -/
def deleteChunk (config : Config) (result : DeleteResult) (chunk : List S3Object) :
    Act DeleteResult := do
  let response ← deleteObjects (chunk.map (objectIdentifier config))
  let result := { result with
    deleted := result.deleted ++ response.deleted.map DeletedObject.toDeletedKey }
  (response.errors.foldlM (handleErrorEntry config chunk) result : Task DeleteResult)

/-- `BatchDeleter::delete`. -/
def batchDelete (config : Config) (objects : List S3Object) : Act DeleteResult :=
  (chunks (min config.batchSize maxBatchSize) objects).foldlM (deleteChunk config) {}

/-! ### SingleDeleter -/

/-- A failed DeleteObject call as a result. -/
def Error.toFailedKey (e : Error) (object : S3Object) : FailedKey :=
  { key := object.key, versionId := object.versionId,
    errorCode := e.extractDeleteObjectErrorCode, errorMessage := e.display }

/-- `SingleDeleter::delete` on its one object. -/
def singleDelete (config : Config) (object : S3Object) : Act DeleteResult := do
  match ← attempt (deleteObject object.key object.versionId (ifMatchETag config object)) with
  | .ok _ =>
    return { deleted := [{ key := object.key, versionId := object.versionId }] }
  | .error e =>
    sendStats (.deleteError object.key)
    return { failed := [e.toFailedKey object] }

/-- `Deleter::delete` on a batch `object :: rest`, for the backend
`ObjectDeleter::new` chose; the single one takes `objects[0]`. -/
def deleterDelete (config : Config) (object : S3Object) (rest : List S3Object) :
    Act DeleteResult :=
  if config.batchSize ≤ 1 then singleDelete config object else batchDelete config (object :: rest)

end S3rm
