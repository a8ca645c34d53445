/-
S3rm/Safety.lean

What stands between the public API and the stages: `SafetyChecker`
(src/safety/mod.rs) and `DeletionPipeline::check_prerequisites`
(src/pipeline.rs).  A check asks the prompt handler and the storage; its
program runs over these questions, so that its trace says what was asked and
answered.

`run_checkPrerequisites` is the specification: a check that returns Ok was
authorised, unless this is a dry run, and leaves a coherent configuration.
-/
import S3rm.Config
import S3rm.Conc.Fallible

namespace S3rm

open Conc Conc.Prog

/-! ### Questions of a check -/

/-- What a check asks: the prompt handler, and the storage. -/
inductive CheckOp where
  | isInteractive
  | readConfirmation (targetDisplay : String) (useColor wholeBucket : Bool)
  | isVersioningEnabled
  deriving DecidableEq, Repr

abbrev CheckResp : CheckOp → Type
  | .isInteractive => Bool
  | .readConfirmation _ _ _ => Except Error String
  | .isVersioningEnabled => Except Error Bool

abbrev CheckEvent := Ev CheckOp CheckResp

/-- A check: it returns a `Result`. -/
abbrev Check := Fallible Error CheckOp CheckResp

/-- Ask one question. -/
abbrev question (o : CheckOp) : Prog CheckOp CheckResp (CheckResp o) := perform o

abbrev isInteractive : Prog CheckOp CheckResp Bool := question .isInteractive

abbrev readConfirmation (targetDisplay : String) (useColor wholeBucket : Bool) : Check String :=
  question (.readConfirmation targetDisplay useColor wholeBucket)

abbrev isVersioningEnabled : Check Bool := question .isVersioningEnabled

/-! ### SafetyChecker -/

/-- `format_target`. -/
def formatTarget (target : StoragePath) : String :=
  if target.pathPrefix.isEmpty then "s3://" ++ target.bucket ++ "/"
  else "s3://" ++ target.bucket ++ "/" ++ target.pathPrefix

/-- `is_whole_bucket`. -/
def isWholeBucket (target : StoragePath) : Bool := target.pathPrefix.isEmpty

/-- `SafetyChecker`, less its prompt handler. -/
structure SafetyChecker where
  dryRun : Bool
  force : Bool
  jsonLogging : Bool
  disableColor : Bool
  targetDisplay : String
  wholeBucket : Bool

/-- `SafetyChecker::new`. -/
def SafetyChecker.new (config : Config) : SafetyChecker where
  dryRun := config.dryRun
  force := config.force
  jsonLogging := (config.tracingConfig.map TracingConfig.jsonTracing).getD false
  disableColor := (config.tracingConfig.map TracingConfig.disableColorTracing).getD false
  targetDisplay := formatTarget config.target
  wholeBucket := isWholeBucket config.target

/-- `is_non_interactive`: the handler is asked only without JSON logging. -/
def isNonInteractive (checker : SafetyChecker) : Check Bool :=
  if checker.jsonLogging then pure true
  else do
    let interactive ← isInteractive
    return !interactive

/-- `prompt_confirmation`. -/
def promptConfirmation (checker : SafetyChecker) : Check Unit := do
  let input ← readConfirmation checker.targetDisplay (!checker.disableColor) checker.wholeBucket
  throwIf (input != "yes") (.s3rm .cancelled)

def nonInteractiveMessage : String :=
  "Cannot run destructive operation without --force (-f) in a non-interactive environment " ++
    "(no TTY). Use --force to skip confirmation, or --dry-run to preview deletions."

/-- `check_before_deletion`. -/
def checkBeforeDeletion (checker : SafetyChecker) : Check Unit :=
  if checker.dryRun then pure ()
  else if checker.force then pure ()
  else do
    throwIf (← isNonInteractive checker) (.s3rm (.invalidConfig nonInteractiveMessage))
    promptConfirmation checker

/-! ### check_prerequisites -/

/-- The combinations of options that `check_prerequisites` refuses. -/
def checkOptions (config : Config) : Check Unit := do
  throwIf (config.filterConfig.keepLatestOnly && !config.deleteAllVersions)
    (.other "--keep-latest-only requires --delete-all-versions.")
  throwIf (config.filterConfig.deleteMarkerOnly && !config.deleteAllVersions)
    (.other "--filter-delete-marker-only requires --delete-all-versions.")
  throwIf (config.ifMatch && config.deleteAllVersions)
    (.other ("--if-match cannot be used with --delete-all-versions. S3 does not support " ++
      "If-Match conditional headers when deleting by version ID."))

/-- The versioning part of `check_prerequisites`: the flag is cleared on a
bucket that has no versioning. -/
def checkVersioning (config : Config) : Check Config :=
  if config.deleteAllVersions then do
    if ← isVersioningEnabled then return config
    throwIf config.filterConfig.keepLatestOnly
      (.other "--keep-latest-only cannot be used on a non-versioned bucket.")
    throwIf config.filterConfig.deleteMarkerOnly
      (.other "--filter-delete-marker-only cannot be used on a non-versioned bucket.")
    return { config with deleteAllVersions := false }
  else pure config

/-- `check_prerequisites`: returns the configuration it leaves. -/
def checkPrerequisites (config : Config) : Check Config := do
  checkBeforeDeletion (SafetyChecker.new config)
  checkOptions config
  checkVersioning config

/-! ### What an Ok check says -/

variable {config config' : Config} {t : List CheckEvent}

/-- The check was answered by force or by the user: an interactive prompt, not
under JSON logging, that returned exactly "yes". -/
def Authorised (config : Config) (t : List CheckEvent) : Prop :=
  config.force = true ∨
    (SafetyChecker.new config).jsonLogging = false ∧
      (⟨.isInteractive, true⟩ : CheckEvent) ∈ t ∧
      ∃ targetDisplay useColor wholeBucket,
        (⟨.readConfirmation targetDisplay useColor wholeBucket, .ok "yes"⟩ : CheckEvent) ∈ t

theorem Authorised.mono {u : List CheckEvent} (h : Authorised config t) (hsub : t ⊆ u) :
    Authorised config u := by
  rcases h with hforce | ⟨hjson, hinter, d, c, b, hprompt⟩
  · exact .inl hforce
  · exact .inr ⟨hjson, hsub hinter, d, c, b, hsub hprompt⟩

/-- The options of the configuration go together. -/
structure Coherent (config : Config) : Prop where
  keepLatestOnly : config.filterConfig.keepLatestOnly = true → config.deleteAllVersions = true
  deleteMarkerOnly : config.filterConfig.deleteMarkerOnly = true → config.deleteAllVersions = true
  ifMatch : ¬ (config.ifMatch = true ∧ config.deleteAllVersions = true)

/-- What the storage reported in a check. -/
def ReportsVersioned (t : List CheckEvent) : Prop :=
  (⟨.isVersioningEnabled, .ok true⟩ : CheckEvent) ∈ t

theorem run_isNonInteractive {checker : SafetyChecker}
    (h : Run (isNonInteractive checker) t (.ok false)) :
    checker.jsonLogging = false ∧ (⟨.isInteractive, true⟩ : CheckEvent) ∈ t := by
  unfold isNonInteractive at h
  split_ifs at h with hjson
  · cases h.2
  · obtain ⟨interactive, u, rfl, -, hb⟩ := run_ask_bind.mp h
    cases interactive with
    | true => exact ⟨by simpa using hjson, List.mem_cons_self⟩
    | false => cases hb

theorem run_promptConfirmation {checker : SafetyChecker}
    (h : Run (promptConfirmation checker) t (.ok ())) :
    ∃ targetDisplay useColor wholeBucket,
      (⟨.readConfirmation targetDisplay useColor wholeBucket, .ok "yes"⟩ : CheckEvent) ∈ t := by
  obtain ⟨u, input, v, rfl, hu, hv⟩ := run_bind_ok.mp h
  obtain rfl := run_perform.mp hu
  obtain ⟨-, hyes⟩ := run_throwIf.mp hv
  have hinput : input = "yes" := by simpa using hyes
  rw [hinput]
  exact ⟨_, _, _, List.mem_append_left _ (List.mem_singleton_self _)⟩

theorem run_checkBeforeDeletion (h : Run (checkBeforeDeletion (SafetyChecker.new config)) t (.ok ())) :
    config.dryRun = true ∨ Authorised config t := by
  unfold checkBeforeDeletion at h
  split_ifs at h with hdry hforce
  · exact .inl hdry
  · exact .inr (.inl hforce)
  · obtain ⟨u, nonInteractive, v, rfl, hu, hv⟩ := run_bind_ok.mp h
    obtain ⟨_, _, v, rfl, hthrow, hv⟩ := run_bind_ok.mp hv
    obtain ⟨rfl, rfl⟩ := run_throwIf.mp hthrow
    obtain ⟨hjson, hinter⟩ := run_isNonInteractive hu
    obtain ⟨d, c, b, hprompt⟩ := run_promptConfirmation hv
    refine .inr (.inr ⟨hjson, List.mem_append_left _ hinter, d, c, b, ?_⟩)
    exact List.mem_append_right _ (List.mem_append_right _ hprompt)

theorem run_checkOptions (h : Run (checkOptions config) t (.ok ())) :
    t = [] ∧ Coherent config := by
  obtain ⟨_, _, _, rfl, h₁, h⟩ := run_bind_ok.mp h
  obtain ⟨_, _, _, rfl, h₂, h₃⟩ := run_bind_ok.mp h
  obtain ⟨rfl, hkeep⟩ := run_throwIf.mp h₁
  obtain ⟨rfl, hmarker⟩ := run_throwIf.mp h₂
  obtain ⟨rfl, hmatch⟩ := run_throwIf.mp h₃
  refine ⟨rfl, ⟨fun hk => ?_, fun hm => ?_, ?_⟩⟩
  · simpa [hk] using hkeep
  · simpa [hm] using hmarker
  · simpa using hmatch

/-- The versioning part keeps the configuration, or clears the flag where
nothing depends on it. -/
theorem run_checkVersioning (h : Run (checkVersioning config) t (.ok config'))
    (hc : Coherent config) :
    Coherent config' ∧ config' = { config with deleteAllVersions := config'.deleteAllVersions } ∧
      (config'.deleteAllVersions = true → ReportsVersioned t) := by
  unfold checkVersioning at h
  split_ifs at h with hall
  · obtain ⟨u, versioned, v, rfl, hu, hv⟩ := run_bind_ok.mp h
    obtain rfl := run_perform.mp hu
    cases versioned with
    | true =>
      obtain ⟨rfl, hr⟩ := hv
      cases hr
      exact ⟨hc, rfl, fun _ => List.mem_singleton_self _⟩
    | false =>
      obtain ⟨_, _, _, rfl, h₁, hv⟩ := run_bind_ok.mp hv
      obtain ⟨_, _, _, rfl, h₂, hr⟩ := run_bind_ok.mp hv
      obtain ⟨rfl, hkeep⟩ := run_throwIf.mp h₁
      obtain ⟨rfl, hmarker⟩ := run_throwIf.mp h₂
      obtain ⟨rfl, hr⟩ := hr
      cases hr
      -- nothing that needs versions is asked for, so the flag can go
      refine ⟨⟨fun hk => ?_, fun hm => ?_, fun hm => ?_⟩, rfl, fun hd => ?_⟩
      · exact absurd hk (by simp [hkeep])
      · exact absurd hm (by simp [hmarker])
      · cases hm.2
      · cases hd
  · obtain ⟨rfl, hr⟩ := h
    cases hr
    exact ⟨hc, rfl, fun h => absurd h hall⟩

/-- **What a check that returns Ok says.** -/
theorem run_checkPrerequisites (h : Run (checkPrerequisites config) t (.ok config')) :
    (config.dryRun = true ∨ Authorised config t) ∧ Coherent config' ∧
      config' = { config with deleteAllVersions := config'.deleteAllVersions } ∧
      (config'.deleteAllVersions = true → ReportsVersioned t) := by
  obtain ⟨t₁, _, _, rfl, h₁, h⟩ := run_bind_ok.mp h
  obtain ⟨_, _, t₂, rfl, h₂, h₃⟩ := run_bind_ok.mp h
  obtain ⟨rfl, hc⟩ := run_checkOptions h₂
  obtain ⟨hc', hconfig, hversioned⟩ := run_checkVersioning h₃ hc
  refine ⟨(run_checkBeforeDeletion h₁).imp_right fun hauth => hauth.mono ?_, hc', hconfig,
    fun hd => List.mem_append_right _ (hversioned hd)⟩
  exact List.subset_append_left _ _

end S3rm
