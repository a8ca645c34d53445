/-
S3rm/Config.lean

The configuration the modelled code reads (src/config/mod.rs).  Left out is
what none of it looks at: credentials and client settings, timeouts, tracing
levels, Lua settings, the progress switch and the shell completion.
-/
import S3rm.Format

namespace S3rm

/-- A compiled `fancy_regex::Regex`: matching can fail (backtracking limit). -/
structure Regex where
  isMatch : String → Except String Bool

structure FilterConfig where
  beforeTime : Option ChronoTime := none
  afterTime : Option ChronoTime := none
  includeRegex : Option Regex := none
  excludeRegex : Option Regex := none
  includeContentTypeRegex : Option Regex := none
  excludeContentTypeRegex : Option Regex := none
  includeMetadataRegex : Option Regex := none
  excludeMetadataRegex : Option Regex := none
  includeTagRegex : Option Regex := none
  excludeTagRegex : Option Regex := none
  largerSize : Option Nat := none
  smallerSize : Option Nat := none
  keepLatestOnly : Bool := false
  deleteMarkerOnly : Bool := false
  /-- `urlencoding::encode`, which the strings of the metadata and tag regexes
  are written with.  No field of the source, but like the regexes a function of
  another package. -/
  encode : String → String := urlEncode

structure ForceRetryConfig where
  forceRetryCount : Nat := 0
  forceRetryIntervalMilliseconds : Nat := 1000

/-- `StoragePath::S3`. -/
structure StoragePath where
  bucket : String
  pathPrefix : String
  deriving DecidableEq, Repr

/-- The switches of `TracingConfig` that `SafetyChecker` reads. -/
structure TracingConfig where
  jsonTracing : Bool
  disableColorTracing : Bool
  deriving DecidableEq, Repr

/-- `EventManager`, less the callback itself: whether one is registered, for
which events, and the dry-run mark it puts on them. -/
structure EventManager where
  callbackRegistered : Bool := false
  eventFlags : EventType → Bool := fun _ => true
  dryRun : Bool := false

structure Config where
  target : StoragePath := ⟨"", ""⟩
  forceRetryConfig : ForceRetryConfig := {}
  tracingConfig : Option TracingConfig := none
  workerSize : Nat := 16
  warnAsError : Bool := false
  dryRun : Bool := false
  rateLimitObjects : Option Nat := none
  maxParallelListings : Nat := 16
  objectListingQueueSize : Nat := 200000
  maxParallelListingMaxDepth : Nat := 2
  allowParallelListingsInExpressOneZone : Bool := false
  filterConfig : FilterConfig := {}
  maxKeys : Nat := 1000
  ifMatch : Bool := false
  maxDelete : Option Nat := none
  /-- `filter_manager.is_callback_registered()`. -/
  filterCallbackRegistered : Bool := false
  eventManager : EventManager := {}
  batchSize : Nat := 200
  deleteAllVersions : Bool := false
  force : Bool := false

/-- The callback is registered for all events. -/
structure Registered (config : Config) : Prop where
  callback : config.eventManager.callbackRegistered = true
  all : ∀ type, config.eventManager.eventFlags type = true

end S3rm
