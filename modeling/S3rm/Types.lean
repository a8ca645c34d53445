/-
S3rm/Types.lean

The data the deletion pipeline passes around: listed objects, statistics,
events, errors, and the answers of the S3 calls it makes
(src/types, src/deleter/mod.rs, src/callback, and the parts of the SDK types
they read).

A field the code reads with `expect` (key, size, last_modified) is a plain
field here: an entry without it panics the task that touches it, which a
machine allows at any moment anyway.  A field the code treats as optional is an
`Option`.
-/
import Mathlib.Algebra.Group.Nat.Defs
import Mathlib.Algebra.Ring.Int.Defs
import Mathlib.Data.List.Sort

namespace S3rm

/-! ### Times -/

/-- An SDK timestamp. -/
structure DateTime where
  seconds : Int
  subsecondNanos : Nat
  deriving DecidableEq, Repr

/-- A `chrono::DateTime<Utc>`, as nanoseconds since the epoch. -/
abbrev ChronoTime := Int

/-- Values of a Rust `i64`. -/
def inI64 (n : Int) : Bool := decide (-2 ^ 63 ≤ n) && decide (n < 2 ^ 63)

theorem inI64_uint32 (n : UInt32) : inI64 n.toNat := by
  have hlt := n.toNat_lt
  rw [inI64, Bool.and_eq_true, decide_eq_true_eq, decide_eq_true_eq]
  omega

/-- `DateTime::to_millis`: rounded down, an error when it leaves `i64`. -/
def DateTime.toMillis (d : DateTime) : Option Int :=
  let millis := d.seconds * 1000 + d.subsecondNanos / 1000000
  if inI64 millis then some millis else none

/-- `DateTime::from_millis(millis).to_chrono_utc()`: an error outside the years
chrono can hold (-262143 to 262142). -/
def chronoOfMillis (millis : Int) : Option ChronoTime :=
  if -8334601228800000 ≤ millis ∧ millis ≤ 8210266876799999 then some (millis * 1000000) else none

/-! ### Listed objects -/

/-- A Rust `i64`. -/
abbrev I64 := { n : Int // inI64 n }

theorem I64.lt (n : I64) : n.val < 2 ^ 63 := by
  have := n.prop
  simp only [inI64, Bool.and_eq_true, decide_eq_true_eq] at this
  exact this.2

/-- An entry of ListObjectsV2. -/
structure Object where
  key : String
  size : I64
  lastModified : DateTime
  eTag : Option String
  deriving DecidableEq, Repr

/-- A version entry of ListObjectVersions. -/
structure ObjectVersion where
  key : String
  versionId : Option String
  size : I64
  lastModified : DateTime
  eTag : Option String
  isLatest : Option Bool
  deriving DecidableEq, Repr

/-- A delete marker entry of ListObjectVersions. -/
structure DeleteMarkerEntry where
  key : String
  versionId : Option String
  lastModified : DateTime
  isLatest : Option Bool
  deriving DecidableEq, Repr

/-- `S3Object`: what the lister sends down the pipeline. -/
inductive S3Object where
  | notVersioning (object : Object)
  | versioning (object : ObjectVersion)
  | deleteMarker (marker : DeleteMarkerEntry)
  deriving DecidableEq, Repr

/-- What identifies an object in a delete request. -/
abbrev ObjectId := String × Option String

namespace S3Object

def key : S3Object → String
  | versioning object => object.key
  | notVersioning object => object.key
  | deleteMarker marker => marker.key

def lastModified : S3Object → DateTime
  | versioning object => object.lastModified
  | notVersioning object => object.lastModified
  | deleteMarker marker => marker.lastModified

def size : S3Object → Int
  | versioning object => object.size.val
  | notVersioning object => object.size.val
  | deleteMarker _ => 0

def versionId : S3Object → Option String
  | versioning object => object.versionId
  | notVersioning _ => none
  | deleteMarker marker => marker.versionId

def eTag : S3Object → Option String
  | versioning object => object.eTag
  | notVersioning object => object.eTag
  | deleteMarker _ => none

def isLatest : S3Object → Bool
  | versioning object => object.isLatest.getD true
  | notVersioning _ => true
  | deleteMarker marker => marker.isLatest.getD true

def isDeleteMarker : S3Object → Bool
  | deleteMarker _ => true
  | _ => false

/-- The composite (key, version id) the lookup maps are keyed by. -/
def id (o : S3Object) : ObjectId := (o.key, o.versionId)

/-- `is_latest` as the listing reported it; `none` where it did not. -/
def reportedLatest : S3Object → Option Bool
  | versioning object => object.isLatest
  | notVersioning _ => none
  | deleteMarker marker => marker.isLatest

theorem isLatest_eq_false {o : S3Object} : o.isLatest = false ↔ o.reportedLatest = some false := by
  rcases o with o | o | o
  · simp [isLatest, reportedLatest]
  · rcases h : o.isLatest with - | b <;> simp [isLatest, reportedLatest, h]
  · rcases h : o.isLatest with - | b <;> simp [isLatest, reportedLatest, h]

end S3Object

/-- A Rust cast of an `i64` to `u64`. -/
def asU64 (n : Int) : Nat := (n % 2 ^ 64).toNat

/-- The size of an object that is not negative is what the cast makes of it. -/
theorem S3Object.asU64_size {o : S3Object} (h : 0 ≤ o.size) : (asU64 o.size : Int) = o.size := by
  have hlt : o.size < 2 ^ 63 := by
    rcases o with o | o | o
    · exact o.size.lt
    · exact o.size.lt
    · exact Int.pow_pos (by decide)
  unfold asU64
  rw [Int.emod_eq_of_lt h (by omega), Int.toNat_of_nonneg h]

/-- Objects of the sample runs, none above 4 GiB. -/
def sampleObject (key : String) (size : UInt32) : S3Object :=
  .notVersioning { key, size := ⟨size.toNat, inI64_uint32 size⟩, lastModified := ⟨0, 0⟩, eTag := some key }

/-! ### Statistics -/

/-- `DeletionStatistics`: one message on the stats channel. -/
inductive DeletionStatistics where
  | deleteBytes (bytes : Nat)
  | deleteComplete (key : String)
  | deleteSkip (key : String)
  | deleteError (key : String)
  deriving DecidableEq, Repr

/-- `DeletionStatsReport`: the counters the workers share, of type `AtomicU64`. -/
structure DeletionStatsReport where
  statsDeletedObjects : Nat := 0
  statsDeletedBytes : Nat := 0
  statsFailedObjects : Nat := 0
  deriving DecidableEq, Repr

namespace DeletionStatsReport

def incrementDeleted (s : DeletionStatsReport) (bytes : Nat) : DeletionStatsReport :=
  { s with statsDeletedObjects := (s.statsDeletedObjects + 1) % 2 ^ 64,
           statsDeletedBytes := (s.statsDeletedBytes + bytes) % 2 ^ 64 }

def incrementFailed (s : DeletionStatsReport) : DeletionStatsReport :=
  { s with statsFailedObjects := (s.statsFailedObjects + 1) % 2 ^ 64 }

end DeletionStatsReport

/-! ### Events -/

/-- The single-bit values of `EventType` the pipeline triggers. -/
inductive EventType where
  | pipelineStart
  | pipelineEnd
  | deleteComplete
  | deleteFailed
  | deleteFiltered
  | pipelineError
  | deleteCancel
  | statsReport
  deriving DecidableEq, Repr

/-- `PipelineStats`, less its clock readings. -/
structure PipelineStats where
  statsDeletedObjects : Nat := 0
  statsDeletedBytes : Nat := 0
  statsFailedObjects : Nat := 0
  statsSkippedObjects : Nat := 0
  statsErrorCount : Nat := 0
  deriving DecidableEq, Repr

/-- `EventData`.  `lastModified` is the time itself, where the code formats it. -/
structure EventData where
  eventType : EventType
  dryRun : Bool := false
  key : Option String := none
  versionId : Option String := none
  size : Option Nat := none
  lastModified : Option DateTime := none
  errorMessage : Option String := none
  message : Option String := none
  stats : Option PipelineStats := none
  deriving DecidableEq, Repr

/-- `EventData::new`. -/
def EventData.new (eventType : EventType) : EventData := { eventType }

/-- `update_pipeline_stats`: the counting part, on `u64` fields.  In a release
build `+=` wraps, as `fetch_add` does in every build. -/
def PipelineStats.update (stats : PipelineStats) (event : EventData) : PipelineStats :=
  match event.eventType with
  | .deleteComplete =>
    { stats with statsDeletedObjects := (stats.statsDeletedObjects + 1) % 2 ^ 64,
                 statsDeletedBytes := (stats.statsDeletedBytes + event.size.getD 0) % 2 ^ 64 }
  | .deleteFailed =>
    { stats with statsFailedObjects := (stats.statsFailedObjects + 1) % 2 ^ 64 }
  | .deleteFiltered =>
    { stats with statsSkippedObjects := (stats.statsSkippedObjects + 1) % 2 ^ 64 }
  | .pipelineError => { stats with statsErrorCount := (stats.statsErrorCount + 1) % 2 ^ 64 }
  | _ => stats

/-! ### Errors -/

/-- `S3rmError`. -/
inductive S3rmError where
  | awsSdk (message : String)
  | invalidConfig (message : String)
  | invalidUri (message : String)
  | invalidRegex (message : String)
  | luaScript (message : String)
  | io (message : String)
  | cancelled
  | partialFailure (deleted failed : Nat)
  | pipeline (message : String)
  deriving DecidableEq, Repr

def S3rmError.display : S3rmError → String
  | awsSdk message => "AWS SDK error: " ++ message
  | invalidConfig message => "Invalid configuration: " ++ message
  | invalidUri message => "Invalid S3 URI: " ++ message
  | invalidRegex message => "Invalid regex pattern: " ++ message
  | luaScript message => "Lua script error: " ++ message
  | io message => "I/O error: " ++ message
  | cancelled => "Operation cancelled by user"
  | partialFailure deleted failed =>
    "Partial failure: " ++ toString deleted ++ " deleted, " ++ toString failed ++ " failed"
  | pipeline message => "Pipeline error: " ++ message

/-- `anyhow::Error`: a root error under layers of context. -/
inductive Error where
  | s3rm (error : S3rmError)
  /-- `SdkError::ServiceError` of HeadObject; `notFound` for its 404 variant. -/
  | headObject (notFound : Bool) (message : String)
  /-- `SdkError::ServiceError` of GetObjectTagging. -/
  | getObjectTagging (code : Option String) (status : Nat) (message : String)
  /-- `SdkError::ServiceError` of DeleteObject. -/
  | deleteObject (code : Option String) (message : String)
  | other (message : String)
  | context (message : String) (source : Error)
  deriving DecidableEq, Repr

namespace Error

/-- `Display`: the outermost layer. -/
def display : Error → String
  | s3rm error => error.display
  | headObject _ message => message
  | getObjectTagging _ _ message => message
  | deleteObject _ message => message
  | other message => message
  | context message _ => message

/-- The alternate form of `Display`: all layers. -/
def displayChain : Error → String
  | context message source => message ++ ": " ++ source.displayChain
  | error => error.display

/-- `is_cancelled_error`. -/
def isCancelledError : Error → Bool
  | s3rm error => error == .cancelled
  | context _ source => source.isCancelledError
  | _ => false

/-- `is_not_found_error`. -/
def isNotFoundError : Error → Bool
  | headObject notFound _ => notFound
  | getObjectTagging code status _ =>
    code == some "NoSuchKey" || code == some "NotFound" || status == 404
  | context _ source => source.isNotFoundError
  | _ => false

/-- `extract_delete_object_error_code`. -/
def extractDeleteObjectErrorCode : Error → String
  | deleteObject code _ => code.getD "unknown"
  | context _ source => source.extractDeleteObjectErrorCode
  | _ => "unknown"

end Error

/-! ### Answers of the S3 calls -/

/-- Object metadata: a map, so no key twice, in no particular order. -/
structure Metadata where
  entries : List (String × String)
  nodup : (entries.map Prod.fst).Nodup
  deriving DecidableEq

structure HeadObjectOutput where
  contentType : Option String
  metadata : Option Metadata
  deriving DecidableEq

structure Tag where
  key : String
  value : String
  deriving DecidableEq, Repr

structure GetObjectTaggingOutput where
  tagSet : List Tag
  deriving DecidableEq, Repr

/-- One object of a DeleteObjects request. -/
structure ObjectIdentifier where
  key : String
  versionId : Option String
  eTag : Option String
  deriving DecidableEq, Repr

/-- One entry of a DeleteObjects response's `deleted` list. -/
structure DeletedObject where
  key : Option String
  versionId : Option String
  deriving DecidableEq, Repr

/-- One entry of a DeleteObjects response's `errors` list. -/
structure DeleteErrorEntry where
  key : Option String
  versionId : Option String
  code : Option String
  message : Option String
  deriving DecidableEq, Repr

structure DeleteObjectsOutput where
  deleted : List DeletedObject
  errors : List DeleteErrorEntry
  deriving DecidableEq, Repr

/-! ### Results of a deletion -/

structure DeletedKey where
  key : String
  versionId : Option String
  deriving DecidableEq, Repr

structure FailedKey where
  key : String
  versionId : Option String
  errorCode : String
  errorMessage : String
  deriving DecidableEq, Repr

structure DeleteResult where
  deleted : List DeletedKey := []
  failed : List FailedKey := []
  deriving DecidableEq, Repr

end S3rm
