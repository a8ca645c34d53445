/-
S3rm/Failures.lean

Failures of stages and what `run()` reports of them.  A supervisor records the
failure of its stage after the stage, and the channel ends it held, are gone;
`run()` waits for the terminator only.  So a failure can come too late to be
seen (`failure_lost`).

    Timely            a step that is not too late: supervisors are done when
                      `run()` looks for errors, and no stage fails after that
    failures_reported in a run of timely steps every failure is reported
-/
import S3rm.Completion
import S3rm.Schedule

namespace S3rm

open Conc Conc.Prog

variable {config : Config} {outside : Outside} {w : PipelineWorld} {t : Trace}

/-! ### Failures -/

/-- The task ended with an error other than its cancellation, or in a panic. -/
def Failure : Outcome (Except Error Unit) → Prop
  | .done (.ok _) => False
  | .done (.error e) => e.isCancelledError = false
  | .panicked => True

/-- The task has failed. -/
def Failed (w : PipelineWorld) (i : TaskId) : Prop := ∃ o, w.outcome i = some o ∧ Failure o

/-- A supervisor records the failure it has waited for. -/
theorem run_supervise {s : StageId} {r : Except Error Unit} (h : Run (supervise config s) t r) :
    ∃ o u, t = ⟨.join (.stage s), o⟩ :: u ∧ (Failure o → Records (o = .panicked) u) := by
  obtain ⟨o, u, rfl, hu⟩ := run_ask_bind.mp h
  refine ⟨o, u, rfl, fun hfail => ?_⟩
  rcases o with (e | _) | -
  · have hcancelled : e.isCancelledError = false := hfail
    have hignores : s.ignores e = false := by
      cases s <;> first | rfl | exact hcancelled
    simp only [hignores, Bool.false_eq_true, if_false] at hu
    obtain ⟨_, v, rfl, hv⟩ := run_ask_bind.mp hu
    obtain ⟨_, x, rfl, hx⟩ := run_ask_bind.mp hv
    obtain ⟨_, hpush, -⟩ := run_fallible_lift.mp hx
    obtain rfl := run_perform.mp hpush
    exact ⟨by simp, by simp [pushed], fun hp => by cases hp⟩
  · exact hfail.elim
  · obtain ⟨_, v, rfl, hv⟩ := run_ask_bind.mp hu
    obtain ⟨_, x, rfl, hx⟩ := run_ask_bind.mp hv
    obtain ⟨_, y, rfl, hy⟩ := run_ask_bind.mp hx
    obtain ⟨_, hpush, -⟩ := run_fallible_lift.mp hy
    obtain rfl := run_perform.mp hpush
    exact ⟨by simp, by simp [pushed], fun _ => by simp⟩

/-- The supervisor of a failed stage, once done, has recorded the failure. -/
theorem recorded_of_supervised (h : Running config outside w) {s : StageId}
    (hfail : Failed w (.stage s)) (hdone : (w.outcome (.supervisor s)).isSome) :
    Records (w.outcome (.stage s) = some .panicked) (traceOf (.supervisor s) w.log) := by
  obtain ⟨out, hout, hf⟩ := hfail
  obtain ⟨r, hr⟩ := Option.isSome_iff_exists.mp hdone
  have hp : TaskId.program config (.supervisor s) = some (supervise config s) := by
    have hstarted := h.started_of_outcome hr
    simp only [TaskId.started, TaskId.program] at hstarted ⊢
    split_ifs at hstarted ⊢
    · rfl
    · cases hstarted
  rcases r with r | -
  · obtain ⟨o, u, hu, hrec⟩ := run_supervise (h.run hp hr)
    have hjoin := join_law h (i := .supervisor s) (t := .stage s) (r := o)
      (mem_traceOf.mp (hu ▸ List.mem_cons_self))
    obtain rfl := Option.some.inj (hout.symm.trans hjoin)
    have hall := (hrec hf).of_sublist (List.sublist_cons_self ⟨.join (.stage s), out⟩ u)
    rw [hu]
    exact ⟨hall.error, hall.errors, fun hpan => hall.panic (Option.some.inj (hout.symm.trans hpan))⟩
  · exact absurd hr (h.not_panicked id)

/-! ### Timely runs -/

/-- `run()` has looked whether there were errors. -/
def Looked (w : PipelineWorld) : Prop := ∃ b, (TaskId.main, (⟨.hasError, b⟩ : Event)) ∈ w.log

/-- The step from `u` to `v` does not come too late for `run()`: when it first
looks for errors, the supervisors of the stages that have failed are done; and
from then on, until it returns, no stage fails. -/
structure Timely (u v : PipelineWorld) : Prop where
  supervised : ¬ Looked u → Looked v →
    ∀ s, Failed u (.stage s) → (u.outcome (.supervisor s)).isSome
  settled : Looked u → u.outcome .main = none →
    ∀ s, Failed v (.stage s) → Failed u (.stage s)

/-- The states a run of timely steps can be in. -/
def TimelyRun (config : Config) (outside : Outside) : PipelineWorld → Prop :=
  Relation.ReflTransGen (fun u v => (pipeline config outside).Step u v ∧ Timely u v) (start config)

theorem TimelyRun.running (h : TimelyRun config outside w) : Running config outside w := by
  induction h with
  | refl => exact .refl
  | tail _ hs ih => exact ih.tail hs.1

/-- What `run()` relies on while it fires the completion events: every failed
stage is supervised to the end, and it saw so. -/
def Accounted (w : PipelineWorld) : Prop :=
  Looked w → w.outcome .main = none → ∀ s, Failed w (.stage s) →
    (w.outcome (.supervisor s)).isSome ∧
      ∀ b, (TaskId.main, (⟨.hasError, b⟩ : Event)) ∈ w.log → b = true

theorem Accounted.own {u v : PipelineWorld} (h : Accounted u) (htime : Timely u v)
    (hlog : v.log = u.log) (hmono : ∀ i o, u.outcome i = some o → v.outcome i = some o) :
    Accounted v := by
  intro hlooked hmain s hfail
  have hlooked' : Looked u := by
    rw [Looked, hlog] at hlooked
    exact hlooked
  have hmain' : u.outcome .main = none := by
    by_contra hne
    obtain ⟨o, ho⟩ := Option.ne_none_iff_exists'.mp hne
    rw [hmono _ _ ho] at hmain
    cases hmain
  obtain ⟨hsup, hb⟩ := h hlooked' hmain' s (htime.settled hlooked' hmain' s hfail)
  obtain ⟨o, ho⟩ := Option.isSome_iff_exists.mp hsup
  refine ⟨Option.isSome_iff_exists.mpr ⟨o, hmono _ _ ho⟩, fun b he => hb b ?_⟩
  rwa [← hlog]

/-- Timely steps keep it. -/
theorem TimelyRun.accounted (h : TimelyRun config outside w) : Accounted w := by
  induction h with
  | refl =>
    rintro ⟨b, hb⟩
    cases hb
  | @tail u v hu hs ih =>
    obtain ⟨hstep, htime⟩ := hs
    have hmono := fun i o (hi : u.outcome i = some o) => hstep.outcome_mono hi
    have hrun : Running config outside u := TimelyRun.running hu
    cases hstep with
    | @perform i o k r sh run handled admitted _ =>
      have hh := handled_of_handle handled
      have hout : ((u.put i (.running (k r))).record i ⟨o, r⟩ sh).outcome = u.outcome :=
        outcome_perform run
      intro hlooked hmain s hfail
      obtain ⟨out, hs, hf⟩ := hfail
      have hfail' : Failed u (.stage s) := ⟨out, (congrFun hout (.stage s)).symm.trans hs, hf⟩
      have hmain' : u.outcome .main = none := (congrFun hout .main).symm.trans hmain
      have hsup : (u.outcome (.supervisor s)).isSome := by
        by_cases hlooked' : Looked u
        · exact (ih hlooked' hmain' s hfail').1
        · exact htime.supervised hlooked' hlooked s hfail'
      have hflag : u.shared.hasError = true := by
        obtain ⟨e, he, heq⟩ := (recorded_of_supervised hrun hfail' hsup).error
        exact (error_law hrun).mpr ⟨_, mem_traceOf.mp he, heq⟩
      refine ⟨(congrArg Option.isSome (congrFun hout (.supervisor s))).trans hsup, fun b hb => ?_⟩
      have hb' : (TaskId.main, (⟨.hasError, b⟩ : Event)) ∈ u.log ++ [(i, ⟨o, r⟩)] := hb
      rcases List.mem_append.mp hb' with hb | hb
      · exact (ih ⟨b, hb⟩ hmain' s hfail').2 b hb
      · cases List.mem_singleton.mp hb
        exact (hh.loaded b rfl).trans hflag
    | unroll | finish | panic => exact ih.own htime rfl hmono
    | env => exact ih.own htime rfl hmono

/-! ### What is reported -/

/-- `run()` is about to return. -/
def isReturning (w : PipelineWorld) : Bool :=
  match w.tasks .main with
  | .running (.ret _) => true
  | _ => false

theorem exists_of_isReturning (h : isReturning w = true) :
    ∃ r, w.tasks .main = .running (.ret r) := by
  unfold isReturning at h
  split at h
  · rename_i r hr
    exact ⟨r, hr⟩
  · cases h

/-- A failure has been reported: by the flag, in the list of errors, and with an
event before the one that ends the pipeline. -/
structure Reported (w : PipelineWorld) : Prop where
  error : w.shared.hasError = true
  errors : w.shared.errors ≠ []
  events : [EventType.pipelineError, .pipelineEnd].Sublist ((w.proj fired).map EventData.eventType)

/-- What was recorded is there to be reported. -/
theorem Records.shared {i : TaskId} {panic : Prop} (h : Running config outside w)
    (hrec : Records panic (traceOf i w.log)) :
    w.shared.hasError = true ∧ w.shared.errors ≠ [] ∧ (panic → w.shared.hasPanic = true) := by
  refine ⟨?_, ?_, fun hp => ?_⟩
  · obtain ⟨e, he, heq⟩ := hrec.error
    exact (error_law h).mpr ⟨_, mem_traceOf.mp he, heq⟩
  · rw [errors_law h]
    intro hnil
    exact hrec.errors (List.sublist_nil.mp (hnil ▸ World.projOf_sublist pushed w i))
  · obtain ⟨e, he, heq⟩ := hrec.panic hp
    exact (panic_law h).mpr ⟨_, mem_traceOf.mp he, heq⟩

/-- The error event comes before the end of the pipeline. -/
theorem Completion.Ok.events {c : Completion} (h : c.Ok config) (hfailing : c.failing = true) :
    [EventType.pipelineError, .pipelineEnd].Sublist
      ((c.trace.flatMap fired).map EventData.eventType) := by
  obtain ⟨u, event, htype, hu, hsuffix⟩ := h.errorEvents hfailing
  have herr : [EventType.pipelineError].Sublist
      ((c.errorEvents.flatMap fired).map EventData.eventType) := by
    obtain ⟨v, hv⟩ := hsuffix
    rw [← hv, List.flatMap_append, fired_triggerEvent hu, List.map_append, List.map_singleton, htype]
    exact List.sublist_append_right _ _
  have hend : [EventType.pipelineEnd].Sublist
      ((c.endEvents.flatMap fired).map EventData.eventType) := by
    rw [fired_triggerEvent h.endEvents]
    exact List.Sublist.refl _
  have hall := herr.append (hend.trans (List.sublist_append_right
    ((c.cancelEvents.flatMap fired).map EventData.eventType) _))
  refine hall.trans ?_
  simp only [Completion.trace, Completion.after, List.flatMap_append, List.flatMap_cons,
    List.map_append]
  exact (List.sublist_append_right _ _).trans (List.sublist_append_right _ _)

/-- The terminator does not fail with an error. -/
theorem run_terminate_ok {chan : Nat} {e : Error} (h : Run (terminate chan) t (.error e)) : False := by
  obtain ⟨_, _, v, -, -, hv⟩ := run_loop.mp h
  obtain ⟨r, v, rfl, hr⟩ := run_ask_bind.mp hv
  rcases r with - | o <;> cases hr.2

/-- `run()` has seen the terminator's panic when it looks for errors. -/
theorem saw_panic (h : Running config outside w) {c : Completion} (hc : c.Ok config)
    (ht : traceOf .main w.log = c.trace) (hpanic : c.terminator = .panicked) :
    c.failing = true := by
  refine h.each_event (R := fun t₁ x => (∃ e ∈ t₁, e.1 = .setError) →
    ∀ b, x = ⟨.hasError, b⟩ → b = true) ?_ ht ?_ c.failing rfl
  · rintro u o r sh hu - hh ⟨e, he, heq⟩ b hb
    rw [hh.loaded b hb]
    exact (error_law hu).mpr ⟨_, mem_traceOf.mp he, heq⟩
  · obtain ⟨e, he, heq⟩ := (hc.recorded hpanic).error
    exact ⟨e, List.mem_cons_of_mem _ (List.mem_append_left _ he), heq⟩

/-- In a run of timely steps, when `run()` returns, a failure of a stage or of the
terminator is recorded, and `run()` has seen so. -/
theorem flagged_of_failed (h : TimelyRun config outside w) (hret : isReturning w) {i : TaskId}
    (hi : i = .terminator ∨ ∃ s, i = .stage s) (hfail : Failed w i) :
    (w.shared.hasError = true ∧ w.shared.errors ≠ [] ∧
      (w.outcome i = some .panicked → w.shared.hasPanic = true)) ∧
      ∃ c : Completion, traceOf .main w.log = c.trace ∧ c.Ok config ∧ c.failing = true := by
  have hrun := h.running
  obtain ⟨r, hr⟩ := exists_of_isReturning hret
  have hmain : w.outcome .main = none := running_of_tasks hr
  obtain ⟨c, ht, hc⟩ := run_runStarted (Machine.Reachable.run_of_ret (start_initial config) hrun
    (hrun.code_eq .main) hr)
  rcases hi with rfl | ⟨s, rfl⟩
  · obtain ⟨o, ho, hf⟩ := hfail
    -- the terminator has panicked, and `run()` records that itself
    rcases o with (e | _) | -
    · exact (run_terminate_ok (hrun.run rfl ho)).elim
    · exact hf.elim
    · have hjoin := join_law hrun (i := .main) (t := .terminator) (r := c.terminator)
        (mem_traceOf.mp (ht ▸ List.mem_append_left _ List.mem_cons_self))
      have hpanic : c.terminator = .panicked := Option.some.inj (hjoin.symm.trans ho)
      have hsub : c.recorded.Sublist (traceOf .main w.log) := by
        rw [ht]
        exact ((List.sublist_append_left _ _).trans (List.sublist_cons_self _ _)).trans
          (List.sublist_append_left _ _)
      obtain ⟨herror, herrors, hp⟩ := ((hc.recorded hpanic).of_sublist hsub).shared hrun
      exact ⟨⟨herror, herrors, fun _ => hp trivial⟩, c, ht, hc, saw_panic hrun hc ht hpanic⟩
  · have hsaw : (TaskId.main, (⟨.hasError, c.failing⟩ : Event)) ∈ w.log := by
      refine mem_traceOf.mp ?_
      rw [ht]
      exact List.mem_append_right _ List.mem_cons_self
    obtain ⟨hsup, hb⟩ := h.accounted ⟨_, hsaw⟩ hmain s hfail
    exact ⟨(recorded_of_supervised hrun hfail hsup).shared hrun, c, ht, hc, hb _ hsaw⟩

/-- **No failure is lost in time.**  In every run of timely steps, when `run()`
returns, the failure of a stage or of the terminator is reported. -/
theorem failures_reported (h : TimelyRun config outside w) (hret : isReturning w) {i : TaskId}
    (hi : i = .terminator ∨ ∃ s, i = .stage s) (hfail : Failed w i) :
    Reported w ∧ (w.outcome i = some .panicked → w.shared.hasPanic = true) := by
  obtain ⟨⟨herror, herrors, hpanic⟩, c, ht, hc, hfailing⟩ := flagged_of_failed h hret hi hfail
  refine ⟨⟨herror, herrors, (hc.events hfailing).trans (List.Sublist.map _ ?_)⟩, hpanic⟩
  rw [← ht]
  exact World.projOf_sublist fired w .main

/-! ### Schedules of timely steps -/

/-- All stages, their supervisors and the terminator have ended. -/
def Settled (config : Config) (w : PipelineWorld) : Prop :=
  ∀ i ∈ tasksOf config, i ≠ .main → (w.outcome i).isSome

instance (config : Config) (w : PipelineWorld) : Decidable (Settled config w) :=
  inferInstanceAs (Decidable (∀ i ∈ tasksOf config, i ≠ .main → (w.outcome i).isSome = true))

theorem Looked.mono {v : PipelineWorld} (h : Looked w) (hs : (pipeline config outside).Step w v) :
    Looked v := by
  obtain ⟨b, hb⟩ := h
  exact ⟨b, hs.log_isPrefix.subset hb⟩

/-- Once everything else has ended, `run()` may take its time. -/
theorem Settled.timely {u v : PipelineWorld} (h : Settled config u) (hu : Running config outside u)
    (hs : (pipeline config outside).Step u v) : Timely u v ∧ Settled config v := by
  have hmono := fun i o (hi : u.outcome i = some o) => hs.outcome_mono hi
  have hv : Running config outside v := hu.tail hs
  refine ⟨⟨fun _ _ s hfail => ?_, fun _ _ s hfail => ?_⟩, fun i hi hne => ?_⟩
  · obtain ⟨o, ho, -⟩ := hfail
    have hstage := StageId.exists_of_started (hu.started_of_outcome ho)
    refine h _ (mem_tasksOf ?_) (fun he => by cases he)
    simp [TaskId.started, TaskId.program, hstage]
  · obtain ⟨o, ho, hf⟩ := hfail
    obtain ⟨o', ho'⟩ := Option.isSome_iff_exists.mp
      (h _ (mem_tasksOf (hv.started_of_outcome ho)) (fun he => by cases he))
    obtain rfl := Option.some.inj ((hmono _ _ ho').symm.trans ho)
    exact ⟨o', ho', hf⟩
  · obtain ⟨o, ho⟩ := Option.isSome_iff_exists.mp (h i hi hne)
    exact Option.isSome_iff_exists.mpr ⟨o, hmono i o ho⟩

theorem TimelyRun.exec_settled {respond : PipelineWorld → TaskId → (o : Op) → Option (Resp o)}
    (hr : ∀ w i o r, respond w i o = some r → outside.admits ⟨o, r⟩) (is : List TaskId)
    (h : TimelyRun config outside w) (hs : Settled config w) :
    TimelyRun config outside ((pipeline config outside).exec respond w is) := by
  refine h.trans (Machine.exec_steps (M := pipeline config outside) hr w is fun u v hu hstep _ => ?_)
  have hsettled : Running config outside u ∧ Settled config u :=
    hu.invariant (P := fun u => Running config outside u ∧ Settled config u)
      (fun _ _ _ hx hy => ⟨hx.1.tail hy, (hx.2.timely hx.1 hy).2⟩) ⟨h.running, hs⟩
  exact (hsettled.2.timely hsettled.1 hstep).1

theorem TimelyRun.exec_unlooked {respond : PipelineWorld → TaskId → (o : Op) → Option (Resp o)}
    (hr : ∀ w i o r, respond w i o = some r → outside.admits ⟨o, r⟩) (is : List TaskId)
    (h : TimelyRun config outside w)
    (hnot : ¬ Looked ((pipeline config outside).exec respond w is)) :
    TimelyRun config outside ((pipeline config outside).exec respond w is) := by
  refine h.trans (Machine.exec_steps (M := pipeline config outside) hr w is fun u v _ hstep hv => ?_)
  have hv' : ¬ Looked v := fun hlooked =>
    hnot (hv.invariant (P := Looked) (fun _ _ _ hu hs => hu.mono hs) hlooked)
  exact ⟨fun _ hl => absurd hl hv', fun hl => absurd (hl.mono hstep) hv'⟩

/-! ### Two runs over a listing that fails -/

def failingConfig : Config where
  workerSize := 1

def failingScript : Script where
  listing := [.finished (.error (.other "AccessDenied"))]

/-- The stages and the terminator come to their end. -/
def stagesSchedule : List TaskId :=
  List.replicate 4 (.stage .lister) ++ List.replicate 4 (.stage (.worker 0)) ++
    List.replicate 4 .terminator

/-- `run()` gets to its end before the lister's supervisor takes a step. -/
def lateRun : PipelineWorld :=
  failingScript.run failingConfig failingScript.outside (stagesSchedule ++ List.replicate 5 .main)

theorem lateRun_running : Running failingConfig failingScript.outside lateRun :=
  Script.running (fun _ _ _ => Script.agrees) _

/-- **Not every failure is reported**: the listing fails, and `run()` returns
without an error. -/
theorem failure_lost :
    ¬ ∀ (config : Config) (outside : Outside) (w : PipelineWorld), Running config outside w →
      isReturning w → ∀ s, Failed w (.stage s) → Reported w := by
  intro hreported
  have hfail : Failed lateRun (.stage .lister) := ⟨.done (.error (.other "AccessDenied")), rfl, rfl⟩
  have herror := (hreported _ _ _ lateRun_running (by decide +kernel) .lister hfail).error
  have hlost : lateRun.shared.hasError = false := by decide +kernel
  rw [hlost] at herror
  cases herror

/-- The same with the supervisors first. -/
def timelySchedule : List TaskId :=
  stagesSchedule ++ List.replicate 5 (.supervisor .lister) ++ List.replicate 5 (.supervisor (.worker 0))

def settledRun : PipelineWorld :=
  failingScript.run failingConfig failingScript.outside timelySchedule

def timelyRun : PipelineWorld :=
  (pipeline failingConfig failingScript.outside).exec
    (fun w _ o => failingScript.respond failingConfig w o) settledRun (List.replicate 9 .main)

theorem timelyRun_timely : TimelyRun failingConfig failingScript.outside timelyRun := by
  have hunlooked : ¬ Looked settledRun := by
    rintro ⟨b, hb⟩
    have hnone : ∀ x ∈ settledRun.log, x.1 ≠ .main := by decide +kernel
    exact hnone _ hb rfl
  refine TimelyRun.exec_settled (fun _ _ _ _ => Script.agrees) _ ?_ (by decide +kernel)
  exact TimelyRun.exec_unlooked (fun _ _ _ _ => Script.agrees) _ .refl hunlooked

/-- `failures_reported` on that run. -/
theorem failures_reported_timelyRun : Reported timelyRun :=
  (failures_reported timelyRun_timely (by decide +kernel) (.inr ⟨.lister, rfl⟩)
    ⟨.done (.error (.other "AccessDenied")), rfl, rfl⟩).1

end S3rm
