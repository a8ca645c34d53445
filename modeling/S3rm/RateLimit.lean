/-
S3rm/RateLimit.lean

The rate limiter: what the arguments of the command line allow
(`Config::try_from` in src/config/args/mod.rs), what is built from them
(`create_storage` in src/storage/mod.rs), and what the requests of a run acquire
(`exec_rate_limit_objects_per_sec` and its `_n` in src/storage/s3/mod.rs).

    acquisitions_satisfiable    no request asks for more than the limiter can
                                ever hold
-/
import S3rm.Schedule
import S3rm.Storage.Permits
import S3rm.Target

namespace S3rm

open Conc Conc.Prog

/-! ### The arguments -/

/-- `CLIArgs`, less what the code here only hands on to other parts. -/
structure CLIArgs where
  target : String
  forceRetryCount : Nat := 0
  forceRetryIntervalMilliseconds : Nat := 1000
  workerSize : Nat := 16
  warnAsError : Bool := false
  dryRun : Bool := false
  rateLimitObjects : Option Nat := none
  maxParallelListings : Nat := 16
  objectListingQueueSize : Nat := 200000
  maxParallelListingMaxDepth : Nat := 2
  allowParallelListingsInExpressOneZone : Bool := false
  maxKeys : Nat := 1000
  ifMatch : Bool := false
  maxDelete : Option Nat := none
  batchSize : Nat := 200
  deleteAllVersions : Bool := false
  force : Bool := false

/-- The ranges that the argument parser checks, as far as they matter here. -/
structure CLIArgs.Parsed (args : CLIArgs) : Prop where
  batchSize : 1 ≤ args.batchSize ∧ args.batchSize ≤ 1000
  rateLimit : ∀ r, args.rateLimitObjects = some r → 10 ≤ r

/-- What other parts of the conversion make of the other arguments:
`build_filter_config`, `build_tracing_config`, and the Lua scripts, which may
register a filter callback and an event callback. -/
structure BuiltParts where
  filterConfig : Except String FilterConfig := .ok {}
  tracingConfig : Option TracingConfig := none
  callbacks : Except String (Bool × EventManager) := .ok (false, {})

/-- The batch size of a run: Express One Zone takes single objects, unless it is
listed in parallel. -/
def CLIArgs.batchSizeFor (args : CLIArgs) (target : StoragePath) : Nat :=
  if isExpressOnezoneBucket target.bucket ∧ ¬args.allowParallelListingsInExpressOneZone then 1
  else args.batchSize

/-- "Validate rate limit vs batch size". -/
def checkRateLimit (rateLimit : Option Nat) (batchSize : Nat) : Except String Unit :=
  match rateLimit with
  | some rateLimit =>
    if rateLimit < batchSize then
      .error ("--rate-limit-objects (" ++ toString rateLimit ++
        ") must be greater than or equal to --batch-size (" ++ toString batchSize ++ ").")
    else .ok ()
  | none => .ok ()

/-- `Config::try_from`.  `none` where the target is sliced outside its bounds. -/
def Config.tryFrom (args : CLIArgs) (built : BuiltParts) : Option (Except String Config) := do
  let target ← parseTarget args.target
  return do
    let target ← target
    let filterConfig ← built.filterConfig
    let batchSize := args.batchSizeFor target
    checkRateLimit args.rateLimitObjects batchSize
    let (filterCallbackRegistered, eventManager) ← built.callbacks
    return {
      target
      forceRetryConfig :=
        { forceRetryCount := args.forceRetryCount
          forceRetryIntervalMilliseconds := args.forceRetryIntervalMilliseconds }
      tracingConfig := built.tracingConfig
      workerSize := args.workerSize
      warnAsError := args.warnAsError
      dryRun := args.dryRun
      rateLimitObjects := args.rateLimitObjects
      maxParallelListings := args.maxParallelListings
      objectListingQueueSize := args.objectListingQueueSize
      maxParallelListingMaxDepth := args.maxParallelListingMaxDepth
      allowParallelListingsInExpressOneZone := args.allowParallelListingsInExpressOneZone
      filterConfig
      maxKeys := args.maxKeys
      ifMatch := args.ifMatch
      maxDelete := args.maxDelete
      filterCallbackRegistered
      eventManager
      batchSize
      deleteAllVersions := args.deleteAllVersions
      force := args.force }

variable {args : CLIArgs} {built : BuiltParts} {config : Config}

/-- A conversion accepts when each of its steps does. -/
theorem except_bind_ok {ε α β : Type} {x : Except ε α} {f : α → Except ε β} {b : β}
    (h : x >>= f = .ok b) : ∃ a, x = .ok a ∧ f a = .ok b := by
  rcases x with e | a
  · cases h
  · exact ⟨a, rfl, h⟩

/-- What an accepted configuration keeps of the arguments. -/
theorem Config.of_tryFrom (h : Config.tryFrom args built = some (.ok config)) :
    config.rateLimitObjects = args.rateLimitObjects ∧
      config.batchSize = args.batchSizeFor config.target ∧
      checkRateLimit args.rateLimitObjects config.batchSize = .ok () := by
  obtain ⟨parsed, -, h⟩ := Option.bind_eq_some_iff.mp h
  obtain ⟨target, -, h⟩ := except_bind_ok (Option.some.inj h)
  obtain ⟨filterConfig, -, h⟩ := except_bind_ok h
  obtain ⟨⟨⟩, hcheck, h⟩ := except_bind_ok h
  obtain ⟨⟨filterCallback, eventManager⟩, -, h⟩ := except_bind_ok h
  obtain rfl := Except.ok.inj h
  exact ⟨rfl, rfl, hcheck⟩

theorem checkRateLimit_ok {r n : Nat} (h : checkRateLimit (some r) n = .ok ()) : n ≤ r := by
  by_contra hlt
  simp only [checkRateLimit, if_pos (Nat.lt_of_not_le hlt)] at h
  cases h

/-- **An accepted limit covers the batches**, whatever became of their size. -/
theorem batchSize_le_rateLimit (h : Config.tryFrom args built = some (.ok config)) {r : Nat}
    (hr : args.rateLimitObjects = some r) : config.batchSize ≤ r := by
  obtain ⟨-, -, hcheck⟩ := Config.of_tryFrom h
  rw [hr] at hcheck
  exact checkRateLimit_ok hcheck

theorem one_le_batchSize (hparsed : args.Parsed) (target : StoragePath) :
    1 ≤ args.batchSizeFor target := by
  unfold CLIArgs.batchSizeFor
  split_ifs
  · exact Nat.le_refl 1
  · exact hparsed.batchSize.1

/-! ### The limiter -/

/-- `leaky_bucket::RateLimiter` as it is built. -/
structure RateLimiter where
  max : Nat
  initial : Nat
  refill : Nat
  fair : Bool
  deriving DecidableEq, Repr

def refillPerIntervalDivider : Nat := 10

/-- The limiter of `create_storage`. -/
def createRateLimiter (config : Config) : Option RateLimiter :=
  config.rateLimitObjects.map fun rateLimitValue =>
    { max := rateLimitValue
      initial := rateLimitValue
      refill :=
        if rateLimitValue ≤ refillPerIntervalDivider then 1
        else rateLimitValue / refillPerIntervalDivider
      fair := true }

/-- A limiter that can fill up: it starts full, and each interval adds something, but never
more than it holds. -/
structure RateLimiter.Fills (limiter : RateLimiter) : Prop where
  initial : limiter.initial = limiter.max
  refill_pos : 1 ≤ limiter.refill
  refill_le : limiter.refill ≤ limiter.max

theorem createRateLimiter_fills {r : Nat} (h : config.rateLimitObjects = some r) (hr : 1 ≤ r) :
    ∃ limiter, createRateLimiter config = some limiter ∧ limiter.max = r ∧ limiter.Fills := by
  rw [createRateLimiter, h]
  refine ⟨_, rfl, rfl, rfl, ?_, ?_⟩
  · show 1 ≤ if r ≤ 10 then 1 else r / 10
    split_ifs <;> omega
  · show (if r ≤ 10 then 1 else r / 10) ≤ r
    split_ifs <;> omega

/-! ### Acquisitions -/

/-- What a request of a stage acquires before it is sent. -/
def Op.acquires : Op → Option Nat
  | .headObject _ _ | .getObjectTagging _ _ | .deleteObject _ _ _ => some 1
  | .deleteObjects objects => if objects.length = 0 then none else some objects.length
  | _ => none

/-- What a page request acquires. -/
def ListOp.acquires : ListOp → Option Nat
  | .rateLimit => some 1
  | _ => none

/-- The operation acquires at most `m`, if anything. -/
def Op.Within (m : Nat) (o : Op) : Prop := ∀ n, o.acquires = some n → 1 ≤ n ∧ n ≤ m

section within

variable {m : Nat} {o : Op}

theorem Op.within_of_none (h : o.acquires = none) : o.Within m := by
  intro n hn
  rw [h] at hn
  cases hn

theorem Op.within_of_one (h : o.acquires = some 1) (hm : 1 ≤ m) : o.Within m := by
  intro n hn
  rw [h] at hn
  obtain rfl := Option.some.inj hn
  exact ⟨Nat.le_refl 1, hm⟩

theorem Op.within_deleteObjects {objects : List ObjectIdentifier} (h : objects.length ≤ m) :
    (Op.deleteObjects objects).Within m := by
  intro n hn
  simp only [acquires] at hn
  split_ifs at hn with hempty
  obtain rfl := Option.some.inj hn
  exact ⟨Nat.pos_of_ne_zero hempty, h⟩

/-- What is no request to the storage acquires nothing. -/
def Op.isRequest : Op → Bool
  | .headObject _ _ | .getObjectTagging _ _ | .deleteObject _ _ _ | .deleteObjects _ => true
  | _ => false

theorem Op.within_of_not_isRequest (h : o.isRequest = false) : o.Within m := by
  apply within_of_none
  cases o <;> first | rfl | cases h

end within

/-! ### What the tasks acquire -/

variable {m : Nat}

/-- **A worker acquires no more than its batches hold.** -/
theorem coversCalls_within (stage : Stage) (hm : 1 ≤ m) (hbatch : stage.config.batchSize ≤ m) :
    CoversCalls stage fun o => o.Within m where
  select := Op.within_of_not_isRequest rfl
  isClosed := Op.within_of_not_isRequest rfl
  isCancelled := Op.within_of_not_isRequest rfl
  fetchAdd := Op.within_of_not_isRequest rfl
  screens :=
    { headObject := fun _ _ => Op.within_of_one rfl hm
      getObjectTagging := fun _ _ => Op.within_of_one rfl hm
      sendStats := fun _ => Op.within_of_not_isRequest rfl
      cancel := Op.within_of_not_isRequest rfl
      events := ⟨fun _ _ => Op.within_of_not_isRequest rfl, fun _ _ => Op.within_of_not_isRequest rfl⟩ }
  finishes :=
    { sendStats := fun _ => Op.within_of_not_isRequest rfl
      incrementDeleted := fun _ => Op.within_of_not_isRequest rfl
      incrementFailed := Op.within_of_not_isRequest rfl
      setWarning := Op.within_of_not_isRequest rfl
      cancel := Op.within_of_not_isRequest rfl
      send := fun _ => Op.within_of_not_isRequest rfl
      isClosed := Op.within_of_not_isRequest rfl
      events := ⟨fun _ _ => Op.within_of_not_isRequest rfl, fun _ _ => Op.within_of_not_isRequest rfl⟩ }
  begins _ _ := Op.within_of_not_isRequest rfl
  calls _ o rest := by
    apply deleterDelete_covered
    · intro op hop
      cases op
      case deleteObject => exact Op.within_of_one rfl hm
      all_goals first | exact Op.within_of_not_isRequest rfl | cases hop
    · intro chunk hchunk
      apply Op.within_deleteObjects
      calc (chunk.map (objectIdentifier stage.config)).length
          = chunk.length := List.length_map _
        _ ≤ min stage.config.batchSize maxBatchSize := length_le_of_mem_chunks hchunk
        _ ≤ stage.config.batchSize := Nat.min_le_left _ _
        _ ≤ m := hbatch

/-- Only workers make requests; the lister's are those of its listing. -/
theorem TaskId.not_isRequest {i : TaskId} {o : Op} (ho : i.mayUse config o)
    (hw : ∀ n, i ≠ .stage (.worker n)) : o.isRequest = false := by
  rcases i with (_ | n | n) | s | _ | _
  case stage.worker => exact absurd rfl (hw n)
  all_goals
    cases o <;> first | rfl |
      simp [mayUse, Op.isListing, Op.isFiltering, Op.isSupervising, Op.isCompleting, Op.isNotice] at ho

theorem TaskId.program_within (hm : 1 ≤ m) (hbatch : config.batchSize ≤ m) {i : TaskId} {p : Act Unit}
    (h : i.program config = some p) : p.Uses fun o => o.Within m := by
  by_cases hw : ∃ n, i = .stage (.worker n)
  · obtain ⟨n, rfl⟩ := hw
    simp only [program, StageId.program] at h
    split_ifs at h
    obtain rfl := Option.some.inj h
    exact (coversCalls_within ⟨config, filterCount config, filterCount config + 1⟩ hm hbatch).uses
  · refine (TaskId.program_uses h).mono fun o ho => ?_
    exact Op.within_of_not_isRequest (TaskId.not_isRequest ho fun n hn => hw ⟨n, hn⟩)

theorem issued_within {outside : Outside} {w : PipelineWorld} (hm : 1 ≤ m)
    (hbatch : config.batchSize ≤ m) (h : Running config outside w) {i : TaskId} {o : Op}
    (hi : w.Issued i o) : o.Within m := by
  refine Machine.Reachable.issued_uses (start_initial config) h (fun i p hp => ?_) hi
  rw [h.code_eq] at hp
  exact TaskId.program_within hm hbatch hp

/-- A page request acquires one. -/
theorem ListOp.acquires_eq {o : ListOp} {n : Nat} (h : o.acquires = some n) : n = 1 := by
  cases o
  case rateLimit => exact (Option.some.inj h).symm
  all_goals cases h

/-- **Every acquisition is one the limiter can satisfy.** -/
theorem acquisitions_satisfiable {r : Nat} (hparsed : args.Parsed)
    (hconfig : Config.tryFrom args built = some (.ok config)) (hr : args.rateLimitObjects = some r) :
    ∃ limiter, createRateLimiter config = some limiter ∧ limiter.max = r ∧ limiter.Fills ∧
      (∀ outside w, Running config outside w → ∀ i o n, w.Issued i o → o.acquires = some n →
        1 ≤ n ∧ n ≤ limiter.max) ∧
      ∀ bucket pathPrefix endpoint mode maxKeys w,
        (listMachine ⟨config, bucket, pathPrefix⟩ endpoint).Reachable
          (listStart ⟨config, bucket, pathPrefix⟩ mode maxKeys) w →
        ∀ i o n, w.Issued i o → o.acquires = some n → 1 ≤ n ∧ n ≤ limiter.max := by
  have hbatch := batchSize_le_rateLimit hconfig hr
  obtain ⟨hlimit, hsize, -⟩ := Config.of_tryFrom hconfig
  have hpos : 1 ≤ config.batchSize := by
    rw [hsize]
    exact one_le_batchSize hparsed _
  have hr1 : 1 ≤ r := Nat.le_trans hpos hbatch
  obtain ⟨limiter, hlimiter, hmax, hfills⟩ := createRateLimiter_fills (hlimit.trans hr) hr1
  refine ⟨limiter, hlimiter, hmax, hfills, fun outside w hw i o n hi hn => ?_, ?_⟩
  · rw [hmax]
    exact issued_within hr1 hbatch hw hi n hn
  · intro bucket pathPrefix endpoint mode maxKeys w _ i o n _ hn
    obtain rfl := ListOp.acquires_eq hn
    rw [hmax]
    exact ⟨Nat.le_refl 1, hr1⟩

/-! ### A batch and its limit -/

def limitedArgs : CLIArgs where
  target := "s3://bucket--x-s3/logs"
  workerSize := 1
  rateLimitObjects := some 10
  allowParallelListingsInExpressOneZone := true
  batchSize := 10

def limitedConfig : Config where
  target := ⟨"bucket--x-s3", "logs"⟩
  workerSize := 1
  rateLimitObjects := some 10
  allowParallelListingsInExpressOneZone := true
  batchSize := 10

theorem limitedArgs_parsed : limitedArgs.Parsed where
  batchSize := by decide
  rateLimit r h := by
    obtain rfl := Option.some.inj h
    decide

theorem limitedConfig_tryFrom : Config.tryFrom limitedArgs {} = some (.ok limitedConfig) := rfl

def limitedScript : Script where
  listing := [.object (sampleObject "logs/a" 1), .object (sampleObject "logs/b" 2), .finished (.ok ())]

def limitedRun : PipelineWorld :=
  limitedScript.run limitedConfig limitedScript.outside
    (List.replicate 10 (.stage .lister) ++ List.replicate 20 (.stage (.worker 0)))

theorem limitedRun_running : Running limitedConfig limitedScript.outside limitedRun :=
  Script.running (fun _ _ _ => Script.agrees) _

def limitedBatch : List ObjectIdentifier := [⟨"logs/a", none, none⟩, ⟨"logs/b", none, none⟩]

/-- `acquisitions_satisfiable` on that run, at its request for a batch of two. -/
theorem acquisitions_satisfiable_limitedRun : ∃ limiter,
    createRateLimiter limitedConfig = some limiter ∧ limiter.max = 10 ∧ limiter.Fills ∧
      limitedRun.Issued (.stage (.worker 0)) (.deleteObjects limitedBatch) ∧
      (Op.deleteObjects limitedBatch).acquires = some 2 ∧ 2 ≤ limiter.max := by
  obtain ⟨limiter, hlimiter, hmax, hfills, hrun, -⟩ :=
    acquisitions_satisfiable limitedArgs_parsed limitedConfig_tryFrom rfl
  have hissued : limitedRun.Issued (.stage (.worker 0)) (.deleteObjects limitedBatch) :=
    .inl ⟨.ok (echoDeleted limitedBatch), by decide +kernel⟩
  exact ⟨limiter, hlimiter, hmax, hfills, hissued, rfl,
    (hrun _ _ limitedRun_running _ _ _ hissued rfl).2⟩

end S3rm
