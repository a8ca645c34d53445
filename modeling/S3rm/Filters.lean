/-
S3rm/Filters.lean

The filter stages (src/filters).  Eight of them are one receive-and-filter loop
around a predicate on the object and the filter configuration; the ninth asks a
callback and watches the cancellation token while it waits.
-/
import S3rm.Effects

namespace S3rm

open Conc Conc.Prog

/-! ### Predicates -/

/-- DeleteMarkerOnlyFilter's `is_delete_marker`. -/
def isDeleteMarker (object : S3Object) (_config : FilterConfig) : Bool := object.isDeleteMarker

/-- `last_modified` as both mtime filters read it: through milliseconds. -/
def lastModifiedChrono (object : S3Object) : Option ChronoTime :=
  object.lastModified.toMillis.bind chronoOfMillis

/-- MtimeBeforeFilter's `is_before`. -/
def isBefore (object : S3Object) (config : FilterConfig) : Bool :=
  match config.beforeTime with
  | none => false
  | some beforeTime =>
    match lastModifiedChrono object with
    | none => false
    | some lastModified => if beforeTime ≤ lastModified then false else true

/-- MtimeAfterFilter's `is_after_or_equal`. -/
def isAfterOrEqual (object : S3Object) (config : FilterConfig) : Bool :=
  match config.afterTime with
  | none => false
  | some afterTime =>
    match lastModifiedChrono object with
    | none => false
    | some lastModified => if lastModified < afterTime then false else true

/-- SmallerSizeFilter's `is_smaller`. -/
def isSmaller (object : S3Object) (config : FilterConfig) : Bool :=
  if object.isDeleteMarker then false
  else
    match config.smallerSize with
    | none => false
    | some smallerSize =>
      if object.size < 0 then false
      else if asU64 object.size ≥ smallerSize then false
      else true

/-- LargerSizeFilter's `is_larger_or_equal`. -/
def isLargerOrEqual (object : S3Object) (config : FilterConfig) : Bool :=
  if object.isDeleteMarker then false
  else
    match config.largerSize with
    | none => false
    | some largerSize =>
      if object.size < 0 then false
      else if asU64 object.size < largerSize then false
      else true

/-- IncludeRegexFilter's `is_match`. -/
def isMatch (object : S3Object) (config : FilterConfig) : Bool :=
  match config.includeRegex with
  | none => false
  | some regex =>
    match regex.isMatch object.key with
    | .ok matched => matched
    | .error _ => false

/-- ExcludeRegexFilter's `is_not_match`. -/
def isNotMatch (object : S3Object) (config : FilterConfig) : Bool :=
  match config.excludeRegex with
  | none => false
  | some regex =>
    match regex.isMatch object.key with
    | .ok matched => !matched
    | .error _ => false

/-- KeepLatestOnlyFilter's `is_not_latest`. -/
def isNotLatest (object : S3Object) (_config : FilterConfig) : Bool :=
  if object.isLatest then false else true

/-! ### The receive-and-filter loop -/

/-- `ObjectFilterBase`, with the predicate it is run with. -/
structure ObjectFilterBase where
  name : String
  filterFn : S3Object → FilterConfig → Bool

/-- `Stage`: the configuration and the two channels of a stage. -/
structure Stage where
  config : Config
  receiver : Nat
  sender : Nat

/-- One turn of `ObjectFilterBase::receive_and_filter`. -/
def ObjectFilterBase.turn (base : ObjectFilterBase) (stage : Stage) : Act (Unit ⊕ Unit) := do
  if ← isCancelled then return .inr ()
  match ← recv stage.receiver with
  | some object =>
    if !base.filterFn object stage.config.filterConfig then
      sendStats (.deleteSkip object.key)
      triggerEventIfRegistered stage.config.eventManager
        (filteredEvent object ("Object filtered by " ++ base.name))
      return .inl ()
    if (← stageSend stage.sender object) = .closed then return .inr ()
    return .inl ()
  | none => return .inr ()

/-- `ObjectFilterBase::receive_and_filter`. -/
def ObjectFilterBase.receiveAndFilter (base : ObjectFilterBase) (stage : Stage) : Act Unit :=
  loop (fun _ => base.turn stage) ()

/-- The error event of `UserDefinedFilter`. -/
def userDefinedFilterErrorEvent (e : Error) : EventData :=
  { EventData.new .pipelineError with message := some ("User defined filter error: " ++ e.display) }

/-- `need_delete` of `UserDefinedFilter`: the callback's answer; its error stops
the pipeline. -/
def needDelete (stage : Stage) (object : S3Object) : Act Bool :=
  if stage.config.filterCallbackRegistered then do
    match ← attempt (executeFilter object) with
    | .error e =>
      triggerEventIfRegistered stage.config.eventManager (userDefinedFilterErrorEvent e)
      cancel
      throw (.other ("user defined filter worker cancelled with error: " ++ e.display))
    | .ok needDelete => return needDelete
  else pure true

/-- One turn of `UserDefinedFilter::receive_and_filter`. -/
def userDefinedFilterTurn (stage : Stage) : Act (Unit ⊕ Unit) := do
  match ← select stage.receiver with
  | .received (some object) =>
    if !(← needDelete stage object) then
      triggerEventIfRegistered stage.config.eventManager
        (filteredEvent object "Object filtered by user defined filter")
      sendStats (.deleteSkip object.key)
      return .inl ()
    if (← stageSend stage.sender object) = .closed then return .inr ()
    return .inl ()
  | .received none => return .inr ()
  | .cancelled => return .inr ()

/-- `UserDefinedFilter::receive_and_filter`. -/
def userDefinedFilter (stage : Stage) : Act Unit := loop (fun _ => userDefinedFilterTurn stage) ()

/-! ### The chain -/

/-- The stages `filter_objects` may spawn. -/
inductive FilterKind where
  | base (filter : ObjectFilterBase)
  | userDefined

/-- The stages `filter_objects` spawns, in its order: each only if its setting
is there. -/
def filterObjects (config : Config) : List FilterKind :=
  let fc := config.filterConfig
  [ (fc.deleteMarkerOnly, FilterKind.base ⟨"DeleteMarkerOnlyFilter", isDeleteMarker⟩),
    (fc.beforeTime.isSome, .base ⟨"MtimeBeforeFilter", isBefore⟩),
    (fc.afterTime.isSome, .base ⟨"MtimeAfterFilter", isAfterOrEqual⟩),
    (fc.smallerSize.isSome, .base ⟨"SmallerSizeFilter", isSmaller⟩),
    (fc.largerSize.isSome, .base ⟨"LargerSizeFilter", isLargerOrEqual⟩),
    (fc.includeRegex.isSome, .base ⟨"IncludeRegexFilter", isMatch⟩),
    (fc.excludeRegex.isSome, .base ⟨"ExcludeRegexFilter", isNotMatch⟩),
    (fc.keepLatestOnly, .base ⟨"KeepLatestOnlyFilter", isNotLatest⟩),
    (config.filterCallbackRegistered, .userDefined) ].filterMap
      fun entry => if entry.1 then some entry.2 else none

/-- The program of a filter stage. -/
def FilterKind.filter (kind : FilterKind) (stage : Stage) : Act Unit :=
  match kind with
  | base filter => filter.receiveAndFilter stage
  | userDefined => userDefinedFilter stage

end S3rm
