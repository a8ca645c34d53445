/-
S3rm/Api.lean

The life of a `DeletionPipeline` under its public API: any sequence of calls of
`check_prerequisites()` and `run()`, and the tasks a call of `run()` leaves
behind.  Both calls take `&mut self`, so none is made while `run()` is going on;
the stages may outlive it.

`no_unauthorised_delete`: no order of calls, answers and steps makes the run
send a delete request that an earlier check has not authorised.
-/
import S3rm.Safety
import S3rm.Schedule

namespace S3rm

open Conc Conc.Prog

/-! ### run() after a failed check -/

/-- `run()` when its check failed. -/
def runRefused (config : Config) (error : Error) : Task (Except Error Unit) := do
  recordError error
  closeStatsSender
  fireCompletionEvents config
  return .ok ()

/-- The tasks of a refused run: there is no stage. -/
def refuse (config : Config) (error : Error) : PipelineWorld where
  tasks i := if i = .main then .running (runRefused config error) else .idle
  code i := if i = .main then some (runRefused config error) else none
  shared := {}
  log := []

/-! ### States and steps -/

/-- A call of `check_prerequisites` that has returned: what was asked and
answered, and the result, with the configuration it left. -/
structure CheckCall where
  trace : List CheckEvent
  result : Except Error Config

/-- The call returned Ok. -/
def CheckCall.Ok (call : CheckCall) : Prop := ∃ config, call.result = .ok config

/-- What became of `run()`. -/
inductive RunState : Type 1
  | notCalled
  | refused (config : Config) (w : PipelineWorld)
  /-- The stages are started, after the calls `calls`. -/
  | started (config : Config) (calls : List CheckCall) (w : PipelineWorld)

/-- A `DeletionPipeline`, with the calls made so far. -/
structure Api : Type 1 where
  config : Config
  ready : Bool := true
  prerequisitesChecked : Bool := false
  calls : List CheckCall := []
  /-- What `run()` did before it started the stages. -/
  opening : Trace := []
  run : RunState := .notCalled

namespace Api

/-- `DeletionPipeline::new`. -/
def new (config : Config) : Api := { config }

/-- No call of `run()` is going on. -/
def Idle (s : Api) : Prop :=
  match s.run with
  | .notCalled => True
  | .refused _ w | .started _ _ w => (w.outcome .main).isSome

/-- A check has returned. -/
def checked (s : Api) (call : CheckCall) : Api :=
  match call.result with
  | .ok config => { s with config, prerequisitesChecked := true, calls := s.calls ++ [call] }
  | .error _ => { s with calls := s.calls ++ [call] }

/-- `run()` goes on to the stages. -/
def start (s : Api) (opening : Trace) : Api :=
  { s with ready := false, opening, run := .started s.config s.calls (S3rm.start s.config) }

/-- `run()` goes on to its end, with the error of its check. -/
def refuse (s : Api) (opening : Trace) (error : Error) : Api :=
  { s with ready := false, opening, run := .refused s.config (S3rm.refuse s.config error) }

/-- `run()` fires PIPELINE_START. -/
def Opens (s : Api) (opening : Trace) : Prop :=
  (triggerEvent s.config.eventManager (EventData.new .pipelineStart)).Run opening ()

/-- The calls and steps there are. -/
inductive Step (outside : Outside) : Api → Api → Prop
  | check {s : Api} {call : CheckCall} (idle : s.Idle)
      (asked : Run (checkPrerequisites s.config) call.trace call.result) :
      Step outside s (s.checked call)
  | runChecked {s : Api} {opening : Trace} (idle : s.Idle) (ready : s.ready = true)
      (opens : s.Opens opening) (checked : s.prerequisitesChecked = true) :
      Step outside s (s.start opening)
  | runPassed {s : Api} {opening : Trace} {t : List CheckEvent} {config : Config} (idle : s.Idle)
      (ready : s.ready = true) (opens : s.Opens opening) (unchecked : s.prerequisitesChecked = false)
      (asked : Run (checkPrerequisites s.config) t (.ok config)) :
      Step outside s ((s.checked ⟨t, .ok config⟩).start opening)
  | runRefused {s : Api} {opening : Trace} {t : List CheckEvent} {error : Error} (idle : s.Idle)
      (ready : s.ready = true) (opens : s.Opens opening) (unchecked : s.prerequisitesChecked = false)
      (asked : Run (checkPrerequisites s.config) t (.error error)) :
      Step outside s ((s.checked ⟨t, .error error⟩).refuse opening error)
  | stages {s : Api} {config : Config} {calls : List CheckCall} {w w' : PipelineWorld}
      (at_ : s.run = .started config calls w) (step : (pipeline config outside).Step w w') :
      Step outside s { s with run := .started config calls w' }
  | ending {s : Api} {config : Config} {w w' : PipelineWorld} (at_ : s.run = .refused config w)
      (step : (pipeline config outside).Step w w') :
      Step outside s { s with run := .refused config w' }

/-- The states the API can bring a new pipeline to. -/
def Reachable (outside : Outside) (config : Config) (s : Api) : Prop :=
  Relation.ReflTransGen (Step outside) (new config) s

/-- The operation has been asked for by `run()` or one of its tasks, or is about to be. -/
def Issued (s : Api) (o : Op) : Prop :=
  (∃ r, (⟨o, r⟩ : Event) ∈ s.opening) ∨
    match s.run with
    | .notCalled => False
    | .refused _ w | .started _ _ w => ∃ i, w.Issued i o

end Api

/-! ### Nothing is deleted in a dry run -/

/-- What a dry run's worker may do. -/
theorem covers_dryRun (stage : Stage) :
    Covers stage fun o => o.isDeletion = true → stage.config.dryRun = false where
  select h := by cases h
  isClosed h := by cases h
  isCancelled h := by cases h
  fetchAdd h := by cases h
  screens := ⟨fun _ _ => nofun, fun _ _ => nofun, fun _ => nofun, nofun, fun _ _ => nofun,
    fun _ _ => nofun⟩
  finishes := ⟨fun _ => nofun, fun _ => nofun, nofun, nofun, nofun, fun _ => nofun, nofun,
    fun _ _ => nofun, fun _ _ => nofun⟩
  begins hdry _ _ := hdry
  backend hdry _ _ _ := hdry

/-- Only workers delete, and only if this is not a dry run. -/
theorem TaskId.program_uses_deletion {config : Config} {i : TaskId} {p : Act Unit}
    (h : i.program config = some p) :
    p.Uses fun o => o.isDeletion = true → config.dryRun = false := by
  by_cases hw : ∃ n, i = .stage (.worker n)
  · obtain ⟨n, rfl⟩ := hw
    simp only [program, StageId.program] at h
    split_ifs at h
    obtain rfl := Option.some.inj h
    exact (covers_dryRun ⟨config, filterCount config, filterCount config + 1⟩).uses
  · refine (TaskId.program_uses h).mono fun o ho hd => ?_
    rw [TaskId.not_isDeletion ho fun n hn => hw ⟨n, hn⟩] at hd
    cases hd

theorem runRefused_straight (config : Config) (error : Error) :
    (runRefused config error).Straight fun o => o.isCompleting :=
  (completes_isCompleting.recordError error).bind fun _ => ⟨rfl, fun _ =>
    (completes_isCompleting.fireCompletionEvents (triggerEvent_isCompleting _ _)).bind
      fun _ => trivial⟩

theorem refuse_initial (config : Config) (error : Error) : (refuse config error).Initial := by
  refine ⟨rfl, fun i => ?_⟩
  by_cases hi : i = .main
  · exact .inr ⟨_, if_pos hi, if_pos hi⟩
  · exact .inl ⟨if_neg hi, if_neg hi⟩

/-! ### The invariant of the API -/

variable {outside : Outside} {config : Config} {s s' : Api}

/-- What it takes for the stages to start with the configuration `effective`. -/
structure Cleared (config : Config) (calls : List CheckCall) (effective : Config) : Prop where
  options : effective = { config with deleteAllVersions := effective.deleteAllVersions }
  authorised : config.dryRun = true ∨ ∃ call ∈ calls, call.Ok ∧ Authorised config call.trace
  coherent : Coherent effective
  versioned : effective.deleteAllVersions = true →
    ∃ call ∈ calls, call.Ok ∧ ReportsVersioned call.trace

theorem Cleared.mono {calls calls' : List CheckCall} {effective : Config}
    (h : Cleared config calls effective) (hsub : calls ⊆ calls') :
    Cleared config calls' effective := by
  refine ⟨h.options, h.authorised.imp_right ?_, h.coherent, fun hd => ?_⟩
  · rintro ⟨call, hmem, hcall⟩
    exact ⟨call, hsub hmem, hcall⟩
  · obtain ⟨call, hmem, hcall⟩ := h.versioned hd
    exact ⟨call, hsub hmem, hcall⟩

namespace Api

/-- What holds of a pipeline made with `config`, whatever was called. -/
structure Inv (outside : Outside) (config : Config) (s : Api) : Prop where
  options : s.config = { config with deleteAllVersions := s.config.deleteAllVersions }
  cleared : s.prerequisitesChecked = true → Cleared config s.calls s.config
  opening : ∀ e ∈ s.opening, e.1.isNotice
  refused : ∀ c w, s.run = .refused c w →
    ∃ error, (pipeline c outside).Reachable (S3rm.refuse c error) w
  started : ∀ c calls w, s.run = .started c calls w → Cleared config calls c ∧ Running c outside w

/-- A check that returns Ok clears the configuration it leaves. -/
theorem Inv.cleared_of_ok (h : Inv outside config s) {t : List CheckEvent} {c : Config}
    (asked : Run (checkPrerequisites s.config) t (.ok c)) :
    Cleared config (s.calls ++ [⟨t, .ok c⟩]) c := by
  obtain ⟨hauth, hcoherent, hoptions, hversioned⟩ := run_checkPrerequisites asked
  have hmem : (⟨t, .ok c⟩ : CheckCall) ∈ s.calls ++ [⟨t, .ok c⟩] :=
    List.mem_append_right _ (List.mem_singleton_self _)
  refine ⟨?_, ?_, hcoherent, fun hd => ⟨_, hmem, ⟨c, rfl⟩, hversioned hd⟩⟩
  · rw [hoptions, h.options]
  · rw [h.options] at hauth
    exact hauth.imp_right fun ha => ⟨_, hmem, ⟨c, rfl⟩, ha⟩

theorem Inv.checked (h : Inv outside config s) {call : CheckCall}
    (asked : Run (checkPrerequisites s.config) call.trace call.result) :
    Inv outside config (s.checked call) := by
  rcases call with ⟨t, error | c⟩
  · exact ⟨h.options, fun hc => (h.cleared hc).mono (List.subset_append_left _ _), h.opening,
      h.refused, h.started⟩
  · have hc := h.cleared_of_ok asked
    exact ⟨hc.options, fun _ => hc, h.opening, h.refused, h.started⟩

theorem Opens.notices {opening : Trace} (h : s.Opens opening) : ∀ e ∈ opening, e.1.isNotice :=
  h.uses (triggerEvent_straight _ _).uses

theorem Inv.start (h : Inv outside config s) {opening : Trace}
    (notices : ∀ e ∈ opening, e.1.isNotice) (checked : s.prerequisitesChecked = true) :
    Inv outside config (s.start opening) := by
  refine ⟨h.options, h.cleared, notices, ?_, ?_⟩
  · intro c w hrun
    cases hrun
  · intro c calls w hrun
    cases hrun
    exact ⟨h.cleared checked, .refl⟩

theorem Inv.refuse (h : Inv outside config s) {opening : Trace}
    (notices : ∀ e ∈ opening, e.1.isNotice) (error : Error) :
    Inv outside config (s.refuse opening error) := by
  refine ⟨h.options, h.cleared, notices, ?_, ?_⟩
  · intro c w hrun
    cases hrun
    exact ⟨error, .refl⟩
  · intro c calls w hrun
    cases hrun

/-- **The invariant is kept by every call and every step.** -/
theorem Inv.step (h : Inv outside config s) (hs : Step outside s s') : Inv outside config s' := by
  cases hs with
  | check _ asked => exact h.checked asked
  | runChecked _ _ opens checked => exact h.start opens.notices checked
  | runPassed _ _ opens _ asked => exact (h.checked asked).start opens.notices rfl
  | runRefused _ _ opens _ asked => exact (h.checked asked).refuse opens.notices _
  | stages at_ step =>
    refine ⟨h.options, h.cleared, h.opening, ?_, ?_⟩
    · intro c w hrun
      cases hrun
    · intro c calls w hrun
      cases hrun
      obtain ⟨hcleared, hrunning⟩ := h.started _ _ _ at_
      exact ⟨hcleared, hrunning.tail step⟩
  | ending at_ step =>
    refine ⟨h.options, h.cleared, h.opening, ?_, ?_⟩
    · intro c w hrun
      cases hrun
      obtain ⟨error, hreach⟩ := h.refused _ _ at_
      exact ⟨error, hreach.tail step⟩
    · intro c calls w hrun
      cases hrun

theorem Reachable.inv (h : Reachable outside config s) : Inv outside config s := by
  induction h with
  | refl =>
    refine ⟨rfl, ?_, ?_, ?_, ?_⟩
    · intro h
      cases h
    · intro e he
      cases he
    · intro c w hrun
      cases hrun
    · intro c calls w hrun
      cases hrun
  | tail _ hs ih => exact ih.step hs

/-- A deletion is asked for by started stages, and not in a dry run. -/
theorem Inv.issued (h : Inv outside config s) {o : Op} (ho : s.Issued o)
    (hdel : o.isDeletion = true) :
    ∃ c calls w, s.run = .started c calls w ∧ c.dryRun = false := by
  rcases ho with ⟨r, hr⟩ | ho
  · rw [Op.not_isDeletion_of_isNotice (h.opening _ hr)] at hdel
    cases hdel
  · rcases hrun : s.run with - | ⟨c, w⟩ | ⟨c, calls, w⟩
    · rw [hrun] at ho
      exact ho.elim
    · rw [hrun] at ho
      obtain ⟨i, hi⟩ := ho
      obtain ⟨error, hreach⟩ := h.refused c w hrun
      have hcode := Machine.Reachable.code_eq (fun _ _ _ => rfl) hreach
      have hcompleting : o.isCompleting :=
        Machine.Reachable.issued_uses (refuse_initial c error) hreach
          (φ := fun o => o.isCompleting) (fun j p hp => by
            rw [hcode] at hp
            simp only [S3rm.refuse] at hp
            split_ifs at hp
            obtain rfl := Option.some.inj hp
            exact (runRefused_straight c error).uses) hi
      rw [Op.not_isDeletion_of_isCompleting hcompleting] at hdel
      cases hdel
    · rw [hrun] at ho
      obtain ⟨i, hi⟩ := ho
      have hrunning := (h.started c calls w hrun).2
      refine ⟨c, calls, w, rfl, ?_⟩
      refine Machine.Reachable.issued_uses (start_initial c) hrunning
        (φ := fun o => o.isDeletion = true → c.dryRun = false) (fun j p hp => ?_) hi hdel
      rw [hrunning.code_eq j] at hp
      exact TaskId.program_uses_deletion hp

end Api

/-! ### Authorisation -/

/-- **No destructive call without authorisation**, whatever is called and
answered and however the stages are scheduled: a DeleteObject or DeleteObjects
request is sent only outside dry runs and after a check that returned Ok
because of force or of a "yes", and stages run only with options that go
together, on a bucket reported to be versioned if all versions go. -/
theorem no_unauthorised_delete (h : Api.Reachable outside config s) :
    (∀ o, s.Issued o → o.isDeletion = true → config.dryRun = false ∧
      ∃ c calls w, s.run = .started c calls w ∧
        ∃ call ∈ calls, call.Ok ∧ Authorised config call.trace) ∧
      ∀ c calls w, s.run = .started c calls w → Coherent c ∧
        (c.deleteAllVersions = true → ∃ call ∈ calls, call.Ok ∧ ReportsVersioned call.trace) := by
  have hinv := h.inv
  refine ⟨fun o ho hdel => ?_, fun c calls w hrun => ?_⟩
  · obtain ⟨c, calls, w, hrun, hdry⟩ := hinv.issued ho hdel
    have hcleared := (hinv.started c calls w hrun).1
    have hdry' : config.dryRun = false := by
      rw [hcleared.options] at hdry
      exact hdry
    refine ⟨hdry', c, calls, w, hrun, hcleared.authorised.resolve_left ?_⟩
    rw [hdry']
    exact Bool.false_ne_true
  · have hcleared := (hinv.started c calls w hrun).1
    exact ⟨hcleared.coherent, hcleared.versioned⟩

/-- What the stages do, the API does. -/
theorem Api.Reachable.stages {c : Config} {calls : List CheckCall} {w w' : PipelineWorld}
    (h : Api.Reachable outside config s) (at_ : s.run = .started c calls w)
    (hw : (pipeline c outside).Reachable w w') :
    Api.Reachable outside config { s with run := .started c calls w' } := by
  induction hw with
  | refl =>
    rw [← at_]
    exact h
  | tail _ hs ih => exact ih.tail (.stages rfl hs)

/-- A request that was sent was asked for. -/
theorem issued_of_asked {w : PipelineWorld} {q : Request} (h : q ∈ w.proj asked) :
    ∃ i o, w.Issued i o ∧ o.isDeletion = true := by
  obtain ⟨⟨i, o, r⟩, hmem, hq⟩ := List.mem_flatMap.mp h
  refine ⟨i, o, .inl ⟨r, hmem⟩, ?_⟩
  cases o <;> first | rfl | cases hq

/-- A run over one object that the user confirms. -/
def confirmedConfig : Config where
  target := ⟨"bucket", "logs/"⟩
  workerSize := 1
  batchSize := 1

def confirmedScript : Script where
  listing := [.object (sampleObject "logs/a" 3), .finished (.ok ())]

def confirmedCall : CheckCall where
  trace := [⟨.isInteractive, true⟩, ⟨.readConfirmation "s3://bucket/logs/" true false, .ok "yes"⟩]
  result := .ok confirmedConfig

def confirmedOpening : Trace := [⟨.updatePipelineStats (EventData.new .pipelineStart), ()⟩]

def confirmedRun : PipelineWorld :=
  confirmedScript.run confirmedConfig confirmedScript.outside (roundRobin confirmedConfig 40)

def confirmedApi : Api :=
  { ((Api.new confirmedConfig).checked confirmedCall).start confirmedOpening with
    run := .started confirmedConfig [confirmedCall] confirmedRun }

theorem confirmedApi_reachable :
    Api.Reachable confirmedScript.outside confirmedConfig confirmedApi := by
  have hcheck : Run (checkPrerequisites confirmedConfig) confirmedCall.trace confirmedCall.result :=
    ⟨true, _, rfl, .ok "yes", _, rfl, rfl, rfl⟩
  have hopens : ((Api.new confirmedConfig).checked confirmedCall).Opens confirmedOpening :=
    ⟨(), _, rfl, rfl, rfl⟩
  have hstart : Api.Reachable confirmedScript.outside confirmedConfig
      (((Api.new confirmedConfig).checked confirmedCall).start confirmedOpening) :=
    (Relation.ReflTransGen.single (.check trivial hcheck)).tail
      (.runChecked trivial rfl hopens rfl)
  exact hstart.stages rfl (Script.running (fun _ _ _ => Script.agrees) _)

/-- `no_unauthorised_delete` on the confirmed run. -/
theorem no_unauthorised_delete_confirmedApi : confirmedConfig.dryRun = false ∧
    ∃ c calls w, confirmedApi.run = .started c calls w ∧
      ∃ call ∈ calls, call.Ok ∧ Authorised confirmedConfig call.trace := by
  have hasked : (⟨("logs/a", none), none⟩ : Request) ∈ confirmedRun.proj asked := by
    decide +kernel
  obtain ⟨i, o, hissued, hdel⟩ := issued_of_asked hasked
  exact (no_unauthorised_delete confirmedApi_reachable).1 o (.inr ⟨i, hissued⟩) hdel

end S3rm
