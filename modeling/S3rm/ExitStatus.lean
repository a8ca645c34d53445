/-
S3rm/ExitStatus.lean

The exit status of the command line tool (`run` in src/bin/s3rm/main.rs).  It
reads the shared flags and the list of errors one after another when `run()` has
returned, while late tasks may still be going on; what it reads is a `Readings`.

    exit_status_means      which status stands for which end of the run
    exit_zero_certifies    status 0 says that everything selected was deleted
-/
import S3rm.Errors
import S3rm.Fates
import S3rm.MaxDelete
import S3rm.Safety
import S3rm.Selection
import S3rm.Warnings

namespace S3rm

open Conc Conc.Prog

variable {config : Config} {outside : Outside} {w x : PipelineWorld} {A : Answers} {t u : Trace}

/-! ### Exit codes -/

def exitCodeWarning : Nat := 3
def exitCodeAbnormalTermination : Nat := 101
def sigintExitCode : Nat := 130

/-- What `run` reads once the pipeline's `run()` has returned. -/
structure Readings where
  /-- Waiting for the indicator task gave a join error. -/
  indicatorPanicked : Bool
  ctrlCReceived : Bool
  hasError : Bool
  hasPanic : Bool
  /-- `get_errors_and_consume`. -/
  errors : Option (List Error)
  hasWarning : Bool

/-- The loop over the errors, from the highest code so far. -/
def exitOfErrors (code : Nat) : List Error → Nat
  | [] => code
  | e :: errors =>
    if e.isCancelledError then 0 else exitOfErrors (max code (exitCodeFromError e)) errors

/-- The exit status of `run`, after its check. -/
def exitStatus (r : Readings) : Nat :=
  if r.indicatorPanicked then exitCodeAbnormalTermination
  else if r.ctrlCReceived then sigintExitCode
  else if r.hasError then
    if r.hasPanic then exitCodeAbnormalTermination
    else
      match r.errors with
      | none => 1
      | some errors => exitOfErrors 1 errors
  else if r.hasWarning then exitCodeWarning
  else 0

/-- The errors are read when `has_error` is seen set. -/
def getErrors (w : PipelineWorld) : Option (List Error) :=
  if w.shared.hasError then some w.shared.errors else none

/-- The readings are made one after another from the moment `w` on, the last one
in the state `x`. -/
structure TakenAfter (config : Config) (outside : Outside) (w x : PipelineWorld) (r : Readings) : Prop where
  moments : ∃ w₁ w₂ w₃, (pipeline config outside).Reachable w w₁ ∧
    (pipeline config outside).Reachable w₁ w₂ ∧ (pipeline config outside).Reachable w₂ w₃ ∧
    (pipeline config outside).Reachable w₃ x ∧ r.hasError = w₁.shared.hasError ∧
    r.hasPanic = w₂.shared.hasPanic ∧ r.errors = getErrors w₃
  hasWarning : r.hasWarning = x.shared.hasWarning

/-- Errors from elsewhere end the tool with status 1. -/
theorem exitOfErrors_foreign {errors : List Error} (h : ∀ e ∈ errors, e.Foreign) :
    exitOfErrors 1 errors = 1 := by
  induction errors with
  | nil => rfl
  | cons e errors ih =>
    have he := h e List.mem_cons_self
    rw [exitOfErrors, if_neg (by simp [he.not_cancelled]), he.exitCode]
    exact ih fun e he => h e (List.mem_cons_of_mem _ he)

/-! ### A worker that cancels has warned -/

section worker

variable {stage : Stage} {b b' : List S3Object} {o : S3Object}

theorem finishBatch_live_or_warned {batch : List S3Object} {result : DeleteResult}
    {r : Except Error Unit} (h : Run (finishBatch stage batch result) t r) :
    t.flatMap cancels = [] ∨ Warned t := by
  by_cases hfailed : result.failed = []
  · unfold finishBatch at h
    obtain ⟨u, _, v, rfl, hu, hv⟩ := run_lift_bind.mp h
    rw [if_pos (by simp [hfailed])] at hv
    exact .inl (by rw [List.flatMap_append, (run_emitResult hu).live, (run_forwardBatch hv).live]; rfl)
  · exact .inr (finishBatch_warned h hfailed)

theorem Flush.live_or_warned (h : Flush stage b t (.ok b')) : t.flatMap cancels = [] ∨ Warned t := by
  rcases h.dealt with ⟨-, rfl, -⟩ | ⟨rfl, -⟩ | ⟨result, dealt, -⟩
  · exact .inl rfl
  · exact .inl rfl
  · cases dealt with
    | simulated dry finish =>
      refine (finishBatch_live_or_warned finish).imp (fun hv => by simp [cancels, hv]) fun hv => ?_
      exact hv.subset (List.subset_cons_self _ _)
    | deleted _ _ delete finish =>
      have hdelete := (run_deleterDelete_result delete).1.live
      refine (finishBatch_live_or_warned finish).imp (fun hv => by simp [cancels, hdelete, hv])
        fun hv => hv.subset ?_
      intro e he
      simp [he]

theorem WorkerTurn.live_or_warned {y : List S3Object ⊕ Except Error Unit}
    (h : WorkerTurn stage b t y) (hy : ∀ e, y ≠ .inr (.error e)) :
    t.flatMap cancels = [] ∨ Warned t := by
  have hcons : ∀ {v : Trace} {e : Event}, v.flatMap cancels = [] ∨ Warned v → cancels e = [] →
      (e :: v).flatMap cancels = [] ∨ Warned (e :: v) := fun hv he =>
    hv.imp (fun hv => by rw [List.flatMap_cons, he, hv]; rfl) fun hv => hv.subset (List.subset_cons_self _ _)
  cases h with
  | cancelled | lost => exact .inl rfl
  | @drained z r flush =>
    rcases r with e | b'
    · exact absurd rfl (hy e)
    · exact hcons (hcons flush.live_or_warned rfl) rfl
  | @received o p v r y process rest =>
    rcases r with e | b'
    · cases rest
      exact absurd rfl (hy e)
    have hprocess : p.flatMap cancels = [] ∨ Warned p := by
      generalize hr : (Except.ok b' : Except Error (List S3Object)) = r at process
      cases process with
      | failed | overFailed => cases hr
      | skipped hs => exact .inl (screen_live hs)
      | buffered hs => exact .inl (by simp [screen_live hs, cancels])
      | @flushed w z k _ hs within flush =>
        subst hr
        refine flush.live_or_warned.imp (fun hz => by simp [screen_live hs, cancels, hz])
          fun hz => hz.subset ?_
        intro e he
        simp [he]
      | @exceeded w z y k _ hs exceeded flush stop =>
        obtain ⟨-, -⟩ := stop
        exact .inr ⟨⟨.setWarning, ()⟩, by simp, rfl⟩
    refine hcons ?_ rfl
    cases rest <;> exact hprocess.imp (fun hp => by simp [cancels, hp]) fun hp =>
      hp.subset (List.subset_append_left _ _)

/-- **A worker that returned without an error has warned if it has cancelled.** -/
theorem worker_live_or_warned (h : Run (receiveAndDelete stage) t (.ok ())) :
    t.flatMap cancels = [] ∨ Warned t := by
  have append : ∀ {t u : Trace}, t.flatMap cancels = [] ∨ Warned t →
      u.flatMap cancels = [] ∨ Warned u → (t ++ u).flatMap cancels = [] ∨ Warned (t ++ u) := by
    rintro t u (ht | ht) (hu | hu)
    · exact .inl (by rw [List.flatMap_append, ht, hu]; rfl)
    · exact .inr (hu.subset (List.subset_append_right _ _))
    · exact .inr (ht.subset (List.subset_append_left _ _))
    · exact .inr (ht.subset (List.subset_append_left _ _))
  have all : ∀ e ∈ t, (fun _ : Event => True) e := fun _ _ => trivial
  obtain ⟨_, u, v, rfl, hI, hv, -⟩ := run_of_loop (I := fun _ t => t.flatMap cancels = [] ∨ Warned t)
    (.inl rfl) (fun _ t u _ hI hu _ => append hI ((run_workerTurn hu).live_or_warned (by simp))) h all
  exact append hI ((run_workerTurn hv).live_or_warned (by simp))

end worker

/-! ### Why a worker has warned -/

/-- No result of a deletion lists a failed key. -/
def NoFailedKeys (config : Config) (w : PipelineWorld) : Prop :=
  ∀ n t, t <+: traceOf (.stage (.worker n)) w.log → ¬ FailedKeys config t

theorem FailedKeys.append (h : FailedKeys config t) : FailedKeys config (u ++ t) := by
  obtain @⟨t, v, o, rest, result, delete, failed⟩ := h
  rw [← List.append_assoc]
  exact .mk delete failed

section cause

variable {stage : Stage} {b b' : List S3Object} {o : S3Object} {C D : Trace → Prop} {v z p : Trace}

/-- Before every warning in the trace there is something to warn of. -/
def WarnsOf (C : Trace → Prop) (t : Trace) : Prop :=
  ∀ t₁ t₂, t = t₁ ++ ⟨.setWarning, ()⟩ :: t₂ → ∃ y, y <+: t₁ ∧ C y

theorem WarnsOf.of_unwarned (h : ¬ Warned t) : WarnsOf C t := by
  rintro t₁ t₂ rfl
  exact absurd ⟨⟨.setWarning, ()⟩, by simp, rfl⟩ h

/-- All that follows may warn of what is there. -/
theorem WarnsOf.of_cause (h : C []) : WarnsOf C t :=
  fun _ _ _ => ⟨[], List.nil_prefix, h⟩

theorem WarnsOf.mono (hCD : ∀ y, C y → D y) (h : WarnsOf C t) : WarnsOf D t := by
  intro t₁ t₂ ht
  obtain ⟨y, hy, hC⟩ := h t₁ t₂ ht
  exact ⟨y, hy, hCD y hC⟩

theorem WarnsOf.of_isPrefix (h : WarnsOf C t) (hv : v <+: t) : WarnsOf C v := by
  obtain ⟨u, rfl⟩ := hv
  rintro t₁ t₂ rfl
  exact h t₁ (t₂ ++ u) (by simp)

theorem WarnsOf.append (ht : WarnsOf C t) (hu : WarnsOf (fun y => C (t ++ y)) u) :
    WarnsOf C (t ++ u) := by
  have hlater : ∀ {x u₂ : Trace}, u = x ++ ⟨.setWarning, ()⟩ :: u₂ →
      ∃ y, y <+: t ++ x ∧ C y := by
    intro x u₂ hx
    obtain ⟨y, hy, hC⟩ := hu x u₂ hx
    exact ⟨t ++ y, (List.prefix_append_right_inj t).mpr hy, hC⟩
  intro t₁ t₂ h
  rcases List.append_eq_append_iff.mp h with ⟨x, rfl, hx⟩ | ⟨x, rfl, hx⟩
  · exact hlater hx
  · -- the warning is the head of `u`, or stands in `t`
    rcases x with - | ⟨e, x⟩
    · obtain ⟨y, hy, hC⟩ := hlater (x := []) hx.symm
      exact ⟨y, by simpa using hy, hC⟩
    · obtain ⟨rfl, -⟩ := List.cons.inj hx
      exact ht t₁ x rfl

/-- A flush warns of failed keys. -/
theorem Flush.warnsOf {r : Except Error (List S3Object)} (h : Flush stage b z r) :
    WarnsOf (FailedKeys stage.config) z := by
  have hbackend : ∀ {o rest v} {r : Except Error DeleteResult},
      Run (deleterDelete stage.config o rest) v r → ¬ Warned v := by
    rintro o rest v r delete ⟨e, he, heq⟩
    have huse := delete.uses (deleterDelete_straight ..).uses e he
    rw [heq] at huse
    cases huse
  cases h with
  | empty | cancelled => exact .of_unwarned (by simp [Warned])
  | simulated h dry finish =>
    apply WarnsOf.of_unwarned
    intro hwarned
    rcases (warned_append (t := [⟨.isCancelled, false⟩])).mp hwarned with hnone | hw
    · simp [Warned] at hnone
    · exact (finishBatch_warned_iff finish).mp hw rfl
  | failed h wet delete =>
    apply WarnsOf.of_unwarned
    simpa [Warned] using hbackend delete
  | @deleted o rest v w result y h wet delete finish =>
    subst h
    have hcalled : ¬ Warned (⟨.isCancelled, false⟩ :: ⟨.beginDelete (o :: rest), ()⟩ :: v) := by
      simpa [Warned] using hbackend delete
    refine WarnsOf.append (t := ⟨.isCancelled, false⟩ :: ⟨.beginDelete (o :: rest), ()⟩ :: v)
      (.of_unwarned hcalled) ?_
    by_cases hfailed : result.failed = []
    · exact .of_unwarned fun hwarned => (finishBatch_warned_iff finish).mp hwarned hfailed
    · apply WarnsOf.of_cause
      rw [List.append_nil]
      exact FailedKeys.mk (t := [⟨.isCancelled, false⟩]) delete hfailed

/-- The object `o` gets through the filters and draws a ticket over the limit, and
the flush of the buffer `b` succeeds. -/
inductive Overruns (stage : Stage) (b : List S3Object) (o : S3Object) : Trace → Prop
  | mk {v z : Trace} {b' : List S3Object} {k : Nat} (screened : Run (screen stage.config o) v (.ok false))
      (exceeded : withinLimit stage.config k = false)
      (flushed : Run (deleteBufferedObjects stage b) z (.ok b')) :
      Overruns stage b o (v ++ ⟨.fetchAdd, k⟩ :: z)

theorem Process.warnsOf {r : Except Error (List S3Object)} (h : Process stage b o p r) :
    WarnsOf (fun y => FailedKeys stage.config y ∨ Overruns stage b o y) p := by
  have hdrawn : ∀ {w z : Trace} {k : Nat} {b : List S3Object} {s : Except Error Bool}
      {r : Except Error (List S3Object)} {C : Trace → Prop}, Run (screen stage.config o) w s →
      Flush stage b z r → WarnsOf (fun y => FailedKeys stage.config y ∨ C y) (w ++ ⟨.fetchAdd, k⟩ :: z) := by
    intro w z k b s r C hw flush
    have hhead : ¬ Warned (w ++ [⟨.fetchAdd, k⟩]) := by
      rw [warned_append]
      rintro (hwarned | hwarned)
      · exact screen_unwarned hw hwarned
      · simp [Warned] at hwarned
    have hall := WarnsOf.append (C := fun y => FailedKeys stage.config y ∨ C y) (.of_unwarned hhead)
      (flush.warnsOf.mono fun y hy => .inl hy.append)
    rwa [List.append_assoc] at hall
  cases h with
  | failed screened | skipped screened => exact .of_unwarned (screen_unwarned screened)
  | buffered screened =>
    apply WarnsOf.of_unwarned
    rw [warned_append]
    rintro (hwarned | hwarned)
    · exact screen_unwarned screened hwarned
    · simp [Warned] at hwarned
  | flushed screened _ flush | overFailed screened _ flush => exact hdrawn screened flush
  | @exceeded w z y k b' screened exceeded flush stop =>
    have hall := (hdrawn screened flush (k := k)).append (u := y) (C := fun y =>
      FailedKeys stage.config y ∨ Overruns stage b o y) (.of_cause (.inr ?_))
    · rwa [List.append_assoc] at hall
    · rw [List.append_nil]
      exact .mk screened exceeded flush.run

theorem WorkerTurn.warnsOf {x : List S3Object ⊕ Except Error Unit} (h : WorkerTurn stage b u x) :
    WarnsOf (fun y => FailedKeys stage.config y ∨ ∃ o y', Overruns stage b o y' ∧
      y = ⟨.select stage.receiver, .received (some o)⟩ :: y') u := by
  cases h with
  | cancelled | lost => exact .of_unwarned (by simp [Warned])
  | drained flush =>
    refine WarnsOf.append (t := [⟨.select stage.receiver, .received none⟩,
      ⟨.isClosed stage.receiver, true⟩]) (.of_unwarned (by simp [Warned])) ?_
    exact flush.warnsOf.mono fun y hy => .inl hy.append
  | @received o p v r x process rest =>
    have hrest : ¬ Warned v := by cases rest <;> simp [Warned]
    refine WarnsOf.append (t := [⟨.select stage.receiver, .received (some o)⟩])
      (.of_unwarned (by simp [Warned])) (.append (process.warnsOf.mono ?_) (.of_unwarned hrest))
    rintro y (hy | hy)
    · exact .inl hy.append
    · exact .inr ⟨o, y, hy, rfl⟩

/-- **A worker warns only of failed keys and of objects over the limit**, at any
moment. -/
theorem part_warnsOf (h : Part (receiveAndDelete stage) t) :
    WarnsOf (fun y => FailedKeys stage.config y ∨ Overdrawn stage y) t := by
  refine part_of_loop (I := fun b t => Rounds (Turn (workerTurn stage)) [] t b ∧
      WarnsOf (fun y => FailedKeys stage.config y ∨ Overdrawn stage y) t) ({} : Answers).agrees_total
    (fun b => (workerTurn_straight stage b).loopFree) ⟨.nil [], .of_unwarned (by simp [Warned])⟩
    (.of_unwarned (by simp [Warned])) ?_ ?_ h fun e _ => Answers.agrees_unknown e
  all_goals
    have hturn : ∀ {b t u x}, Rounds (Turn (workerTurn stage)) [] t b → Turn (workerTurn stage) b u x →
        WarnsOf (fun y => FailedKeys stage.config (t ++ y) ∨ Overdrawn stage (t ++ y)) u := by
      intro b t u x hrounds hu
      refine (run_workerTurn hu).warnsOf.mono ?_
      rintro y (hy | ⟨o, y', hy, rfl⟩)
      · exact .inl hy.append
      · obtain ⟨screened, exceeded, flushed⟩ := hy
        exact .inr (.mk hrounds screened exceeded flushed)
  · intro b t u x hI hu _ v hv
    exact hI.2.append ((hturn hI.1 hu).of_isPrefix hv)
  · intro b t u b' hI hu _
    refine ⟨hI.1.trans ?_, hI.2.append (hturn hI.1 hu)⟩
    have hone := Rounds.cons hu (.nil b')
    rwa [List.append_nil] at hone

theorem warned_cause (h : Part (receiveAndDelete stage) t) (hwarned : Warned t) :
    ∃ v, v <+: t ∧ (FailedKeys stage.config v ∨ Overdrawn stage v) := by
  obtain ⟨⟨o, r⟩, he, heq⟩ := hwarned
  obtain rfl : o = .setWarning := heq
  obtain ⟨t₁, t₂, rfl⟩ := List.append_of_mem he
  obtain ⟨v, hv, hcause⟩ := part_warnsOf h t₁ t₂ rfl
  exact ⟨v, hv.trans (List.prefix_append _ _), hcause⟩

/-- Who overdraws has a ticket over the limit. -/
theorem Overdrawn.exceeds (h : Overdrawn stage v) (hv : v <+: t) :
    ¬ ∀ k ∈ t.flatMap tickets, withinLimit stage.config k := by
  intro hwithin
  obtain @⟨x, y, z, b, b', o, k, turns, screened, exceeded, flushed⟩ := h
  have hk : k ∈ t.flatMap tickets := (hv.flatMap tickets).subset (by simp [tickets])
  rw [hwithin k hk] at exceeded
  cases exceeded

end cause

/-! ### The state `run()` returns in -/

/-- The terminator has returned when `run()` is about to, unless it panicked. -/
theorem terminator_ended (h : Running config outside w) (hret : isReturning w) :
    w.outcome .terminator = some (.done (.ok ())) ∨ w.outcome .terminator = some .panicked := by
  obtain ⟨r, hr⟩ := exists_of_isReturning hret
  obtain ⟨r', hjoin⟩ := main_joined (Machine.Reachable.run_of_ret (start_initial config) h
    (h.code_eq .main) hr)
  have hterm := join_law h (mem_traceOf.mp hjoin)
  rcases r' with (e | _) | -
  · exact (run_terminate_ok (h.run rfl hterm)).elim
  · exact .inl hterm
  · exact .inr hterm

theorem run_supervise_ok {s : StageId} {r : Except Error Unit} (h : Run (supervise config s) t r) :
    r = .ok () := by
  rcases r with e | _
  · have hraises : Raises (fun _ : Event => True) (fun _ : Error => False) (supervise config s) := by
      apply Raises.ask_bind
      rintro ((e | _) | -) -
      · dsimp only
        split_ifs
        · exact .pure _
        · exact .ask_bind fun _ _ => .ask_bind fun _ _ => .lift _
      · exact .pure _
      · exact .ask_bind fun _ _ => .ask_bind fun _ _ => .ask_bind fun _ _ => .lift _
    exact (hraises t e h fun _ _ => trivial).elim
  · rfl

/-- Nobody but a worker warns. -/
theorem warner (h : Running config outside w) (hwarning : w.shared.hasWarning = true) :
    ∃ n, Warned (traceOf (.stage (.worker n)) w.log) := by
  obtain ⟨⟨i, ev⟩, he, heq⟩ := (warning_law h).mp hwarning
  have hu := h.mayUse he
  rcases ev with ⟨o, r⟩
  obtain rfl : o = .setWarning := heq
  rcases i with (_ | n | n) | s | _ | _
  case stage.worker => exact ⟨n, ⟨_, mem_traceOf.mpr he, rfl⟩⟩
  all_goals cases hu

/-- A run that ended with neither flag set was clean. -/
theorem clean_of_unflagged (h : TimelyRun config outside w) (hret : isReturning w)
    (hended : Ended config w) (hforeign : ∀ e, outside.admits e → Event.Foreign e)
    (hmay : ¬ outside.mayCancel) (herror : w.shared.hasError = false)
    (hwarning : w.shared.hasWarning = false) : Clean w ∧ NoFailedKeys config w := by
  have hrun := h.running
  have hnone : ∀ i, (i = .terminator ∨ ∃ s, i = .stage s) → ¬ Failed w i := by
    intro i hi hfail
    have hflag := (flagged_of_failed h hret hi hfail).1.1
    rw [herror] at hflag
    cases hflag
  have hstage : ∀ s o, w.outcome (.stage s) = some o → o = .done (.ok ()) := by
    intro s o ho
    by_contra hne
    exact hnone _ (.inr ⟨s, rfl⟩) (failed_of_ended hrun hforeign ho hne)
  have hok : ∀ s : StageId, s.exists config → w.outcome (.stage s) = some (.done (.ok ())) := by
    intro s hs
    obtain ⟨o, ho⟩ := Option.isSome_iff_exists.mp (hended s hs)
    rw [ho, hstage s o ho]
  have hunwarned : ∀ n, ¬ Warned (traceOf (.stage (.worker n)) w.log) := by
    rintro n ⟨e, he, heq⟩
    have hflag := (warning_law hrun).mpr ⟨_, mem_traceOf.mp he, heq⟩
    rw [hwarning] at hflag
    cases hflag
  have hworker : ∀ {n : Nat}, n < config.workerSize →
      Run (receiveAndDelete (workerStage config)) (traceOf (.stage (.worker n)) w.log) (.ok ()) :=
    fun hn => hrun.run (worker_program hn) (hok (.worker _) (by simpa [StageId.exists] using hn))
  refine ⟨⟨fun i o ho => ?_, ?_⟩, fun n t hpre hfailed => ?_⟩
  · rcases i with s | s | _ | _
    · exact hstage s o ho
    · rcases o with r | -
      · obtain ⟨p, hp⟩ := Option.isSome_iff_exists.mp (hrun.started_of_outcome ho)
        have hprog : p = supervise config s := by
          simp only [TaskId.program] at hp
          split_ifs at hp
          exact (Option.some.inj hp).symm
        have hr := hrun.run hp ho
        rw [hprog] at hr
        rw [run_supervise_ok hr]
      · exact absurd ho (hrun.not_panicked id)
    · rcases terminator_ended hrun hret with hterm | hterm
      · exact Option.some.inj (ho.symm.trans hterm)
      · exact absurd ⟨_, hterm, trivial⟩ (hnone .terminator (.inl rfl))
    · obtain ⟨r, hr⟩ := exists_of_isReturning hret
      rw [running_of_tasks hr] at ho
      cases ho
  · rw [← Bool.not_eq_true]
    intro hcancelled
    obtain ⟨i, r, hi⟩ := (cancelled_law hrun hcancelled).resolve_left hmay
    obtain ⟨n, hn, rfl⟩ := mem_workers.mp (cancel_of_ok hrun hok hi)
    rcases worker_live_or_warned (hworker hn) with hlive | hwarned
    · exact cancels_eq_nil.mp hlive (mem_traceOf.mpr hi)
    · exact hunwarned n hwarned
  · have hn : n < config.workerSize := by
      have hne : t ≠ [] := by
        cases hfailed
        simp
      obtain ⟨e, he⟩ := List.exists_mem_of_ne_nil t hne
      exact hrun.worker_lt (hpre.subset he)
    exact hunwarned n (warned_of_failedKeys (hworker hn) hfailed hpre)

/-- What is set stays set. -/
theorem flags_mono (h : Running config outside w) (hx : (pipeline config outside).Reachable w x) :
    (w.shared.hasError = true → x.shared.hasError = true) ∧
      (w.shared.hasPanic = true → x.shared.hasPanic = true) ∧
      (w.shared.hasWarning = true → x.shared.hasWarning = true) := by
  have hrun : Running config outside x := h.trans hx
  have hlog := hx.log_isPrefix
  refine ⟨fun hw => ?_, fun hw => ?_, fun hw => ?_⟩
  · obtain ⟨y, hy, heq⟩ := (error_law h).mp hw
    exact (error_law hrun).mpr ⟨y, hlog.subset hy, heq⟩
  · obtain ⟨y, hy, heq⟩ := (panic_law h).mp hw
    exact (panic_law hrun).mpr ⟨y, hlog.subset hy, heq⟩
  · obtain ⟨y, hy, heq⟩ := (warning_law h).mp hw
    exact (warning_law hrun).mpr ⟨y, hlog.subset hy, heq⟩

/-- A flag that is only ever set is read between its values at the first and the
last moment. -/
structure ReadBetween (w x : PipelineWorld) (flag : PipelineWorld → Bool) (b : Bool) : Prop where
  after : flag w = true → b = true
  before : b = true → flag x = true

theorem TakenAfter.reachable {r : Readings} (hreads : TakenAfter config outside w x r) :
    (pipeline config outside).Reachable w x := by
  obtain ⟨w₁, w₂, w₃, h₁, h₂, h₃, h₄, -⟩ := hreads.moments
  exact ((h₁.trans h₂).trans h₃).trans h₄

section reads

variable {r : Readings} (h : Running config outside w) (hreads : TakenAfter config outside w x r)

include h hreads

theorem TakenAfter.running : Running config outside x := h.trans hreads.reachable

theorem TakenAfter.error : ReadBetween w x (fun v => v.shared.hasError) r.hasError := by
  obtain ⟨w₁, w₂, w₃, h₁, h₂, h₃, h₄, herror, -⟩ := hreads.moments
  rw [herror]
  exact ⟨(flags_mono h h₁).1, (flags_mono (h.trans h₁) ((h₂.trans h₃).trans h₄)).1⟩

theorem TakenAfter.panic : ReadBetween w x (fun v => v.shared.hasPanic) r.hasPanic := by
  obtain ⟨w₁, w₂, w₃, h₁, h₂, h₃, h₄, -, hpanic, -⟩ := hreads.moments
  rw [hpanic]
  exact ⟨(flags_mono h (h₁.trans h₂)).2.1,
    (flags_mono ((h.trans h₁).trans h₂) (h₃.trans h₄)).2.1⟩

theorem TakenAfter.warning : ReadBetween w x (fun v => v.shared.hasWarning) r.hasWarning := by
  obtain ⟨w₁, w₂, w₃, h₁, h₂, h₃, h₄, -⟩ := hreads.moments
  rw [hreads.hasWarning]
  exact ⟨(flags_mono h (((h₁.trans h₂).trans h₃).trans h₄)).2.2, id⟩

/-- **The exit status in terms of the flags**: no error of the tool's own is among
those it looks at. -/
theorem TakenAfter.status (hforeign : ∀ e, outside.admits e → Event.Foreign e) :
    exitStatus r = if r.indicatorPanicked then 101
      else if r.ctrlCReceived then 130
      else if r.hasError then (if r.hasPanic then 101 else 1)
      else if r.hasWarning then 3 else 0 := by
  obtain ⟨w₁, w₂, w₃, h₁, h₂, h₃, -, -, -, herrors⟩ := hreads.moments
  have hall : ∀ errors, r.errors = some errors → exitOfErrors 1 errors = 1 := by
    intro errors he
    rw [herrors, getErrors] at he
    split_ifs at he
    obtain rfl := Option.some.inj he
    exact exitOfErrors_foreign (errors_foreign (((h.trans h₁).trans h₂).trans h₃) hforeign)
  unfold exitStatus
  split_ifs
  · rfl
  · rfl
  · rfl
  · rcases he : r.errors with - | errors
    · rfl
    · exact hall errors he
  · rfl
  · rfl

end reads

/-- A warning that counts as an error is one when `run()` returns. -/
theorem promoted_of_warned (h : Running config outside w) (hpanic : ∀ i, w.outcome i ≠ some .panicked)
    (hret : isReturning w) (hwarn : config.warnAsError = true) {n : Nat}
    (hwarned : Warned (traceOf (.stage (.worker n)) w.log)) : w.shared.hasError = true := by
  obtain ⟨r, hr⟩ := exists_of_isReturning hret
  obtain ⟨c, ht, hc⟩ := run_runStarted (Machine.Reachable.run_of_ret (start_initial config) h
    (h.code_eq .main) hr)
  obtain ⟨b, u, hu, hrec⟩ := run_promoteWarnings hc.promoted hwarn
  have hsplit : traceOf .main w.log = (⟨.join .terminator, c.terminator⟩ :: c.recorded) ++
      ⟨.hasWarning, b⟩ :: (u ++ (⟨.closeStatsSender, ()⟩ :: ⟨.hasError, c.failing⟩ :: c.after)) := by
    simp [ht, Completion.trace, Completion.before, hu]
  have hrecords := hrec (saw_warning h hpanic hwarned hsplit List.mem_cons_self)
  obtain ⟨e, he, heq⟩ := hrecords.error
  refine (error_law h).mpr ⟨(.main, e), mem_traceOf.mp ?_, heq⟩
  rw [hsplit]
  simp [he]

/-- Nothing is flagged after a clean run without failed keys. -/
theorem unflagged_of_clean (h : Running config outside w) (hret : isReturning w)
    (hended : Ended config w) (hforeign : ∀ e, outside.admits e → Event.Foreign e)
    (hclean : Clean w) (hkeys : NoFailedKeys config w)
    (hx : (pipeline config outside).Reachable w x) :
    x.shared.hasError = false ∧ x.shared.hasWarning = false := by
  have hrun : Running config outside x := h.trans hx
  have hpast := Before.of_reachable hx
  have hunwarned : x.shared.hasWarning = false := by
    rw [← Bool.not_eq_true]
    intro hwarning
    obtain ⟨n, hwarned⟩ := warner hrun hwarning
    have hn : n < config.workerSize := by
      obtain ⟨e, he, -⟩ := hwarned
      exact hrun.worker_lt he
    -- the worker has done nothing since the end of the run
    have hok := hended.ok hclean (s := .worker n) (by simpa [StageId.exists] using hn)
    rw [← traceOf_eq_of_ended h hrun hpast (worker_program hn) hok] at hwarned
    obtain ⟨v, hv, hcause⟩ := warned_cause (h.part (worker_program hn)) hwarned
    rcases hcause with hfailed | hover
    · exact hkeys n v hv hfailed
    · rcases worker_within (h.run (worker_program hn) hok) with hwithin | hcancel
      · exact hover.exceeds hv hwithin
      · exact live_of_clean h hclean hcancel (.inr rfl)
  refine ⟨?_, hunwarned⟩
  rw [← Bool.not_eq_true]
  intro herror
  rcases error_cause hrun hforeign herror with ⟨i, hi, o, ho, hfail⟩ | ⟨-, hwarning⟩
  · have hok : x.outcome i = some (.done (.ok ())) := by
      rcases hi with rfl | ⟨s, rfl⟩
      · rcases terminator_ended h hret with hterm | hterm
        · exact hx.outcome_mono hterm
        · cases hclean.returned _ _ hterm
      · exact hx.outcome_mono (hended.ok hclean (StageId.exists_of_started (hrun.started_of_outcome ho)))
    obtain rfl := Option.some.inj (ho.symm.trans hok)
    exact hfail
  · rw [hunwarned] at hwarning
    cases hwarning

/-! ### What the exit status says -/

/-- A stage or the terminator has failed. -/
def SomeFailed (w : PipelineWorld) : Prop := ∃ i, (i = .terminator ∨ ∃ s, i = .stage s) ∧ Failed w i

/-- A deletion of some worker had failed keys, or an object was over the limit. -/
def SomeWarned (config : Config) (w : PipelineWorld) : Prop :=
  ∃ n t, t <+: traceOf (.stage (.worker n)) w.log ∧
    (FailedKeys config t ∨ Overdrawn (workerStage config) t)

theorem someWarned_of_warned (h : Running config outside w) {n : Nat}
    (hwarned : Warned (traceOf (.stage (.worker n)) w.log)) : SomeWarned config w := by
  have hn : n < config.workerSize := by
    obtain ⟨e, he, -⟩ := hwarned
    exact h.worker_lt he
  obtain ⟨v, hv, hcause⟩ := warned_cause (h.part (worker_program hn)) hwarned
  exact ⟨n, v, hv, hcause⟩

/-- Once the terminator has returned and no worker has panicked, no worker warns
any more. -/
theorem warned_before (h : Running config outside w) (hx : (pipeline config outside).Reachable w x)
    (hterm : w.outcome .terminator = some (.done (.ok ()))) (hpanic : ∀ i, w.outcome i ≠ some .panicked)
    {n : Nat} (hwarned : Warned (traceOf (.stage (.worker n)) x.log)) :
    Warned (traceOf (.stage (.worker n)) w.log) := by
  have hrun : Running config outside x := h.trans hx
  have hpast := Before.of_reachable hx
  have hn : n < config.workerSize := by
    obtain ⟨e, he, -⟩ := hwarned
    exact hrun.worker_lt he
  obtain ⟨o, ho⟩ := Option.isSome_iff_exists.mp (workers_ended h hterm hn)
  rcases o with r | -
  · rwa [traceOf_eq_of_ended h hrun hpast (worker_program hn) ho]
  · exact absurd ho (hpanic _)

/-- Without failed keys, what is passed on is listed as deleted. -/
theorem removed_of_begun (h : Running config outside w) (hecho : ∀ e, outside.admits e → Echoes e)
    (hdry : config.dryRun = false) (hended : Ended config w) (hclean : Clean w)
    (hkeys : NoFailedKeys config w) {o : S3Object} (ho : o ∈ w.proj begun) : Removed config w o := by
  obtain ⟨⟨i, ev⟩, hlog, hbegun⟩ := List.mem_flatMap.mp ho
  have hworker : i ∈ workers config := by
    by_contra hnot
    rw [begun_of_not_worker h hlog hnot] at hbegun
    cases hbegun
  obtain ⟨n, hn, rfl⟩ := mem_workers.mp hworker
  obtain ⟨ds, hist⟩ := worker_history h hclean
    (hended.ok hclean (s := .worker n) (by simpa [StageId.exists] using hn))
  obtain ⟨op, resp⟩ := ev
  cases op
  case beginDelete objects =>
    obtain ⟨t₁, t₂, htrace⟩ := List.append_of_mem (mem_traceOf.mpr hlog)
    obtain ⟨d, hd, b₁, u₁, u₂, b₂, v, hdid, -⟩ := hist.of_event htrace
    obtain ⟨result, -, -, -, -, rfl, -, -, -⟩ := hdid.of_begun
    obtain ⟨b, z, b', y₁, y₂, hz, hdid⟩ := hist.exists_did hd
    cases hdid with
    | settle dealt fits =>
      have hids := dealt.ids (fun e he => hecho e (h.admits _ e (by rw [hz]; simp [he]))) fits
      have hnone : result.failed = [] := by
        by_contra hfailed
        cases dealt with
        | simulated dry => exact absurd (hdry.symm.trans dry) (by decide)
        | @deleted x rest v w _ hb wet delete finish =>
          subst hb
          refine hkeys n (y₁ ++ ([⟨.isCancelled, false⟩] ++ ⟨.beginDelete (x :: rest), ()⟩ :: v)) ?_
            (FailedKeys.append (.mk delete hfailed))
          rw [hz]
          simp
      refine ⟨n, y₁, z, y₂, objects, result, hz, dealt, ?_⟩
      have hmem := hids.mem_iff.mpr (List.mem_map_of_mem (f := S3Object.id) hbegun)
      simpa [DeleteResult.ids, DeleteResult.deletedIds, hnone] using hmem
  all_goals cases hbegun

/-- A clean run that is over has passed on all selected objects. -/
theorem begun_of_clean [DecidablePred (Selects config A)] (h : Running config outside w)
    (hK : A.Known) (hA : ∀ e, outside.admits e → A.agrees e) (hsize : 0 < config.workerSize)
    (hdry : config.dryRun = false) (hended : Ended config w) (hclean : Clean w) :
    (w.proj begun : Multiset S3Object) = Multiset.filter (Selects config A) (w.proj listed) := by
  have hchain : ((w.proj listed).filter (chainKeeps config A (filterCount config)) : Multiset S3Object) =
      Multiset.filter (chainKeeps config A (filterCount config) ·) (w.proj listed) := by simp
  rw [books_closed h hK hA hclean hended hdry, got_of_ended h hA hsize hclean hended le_rfl,
    stream_complete h hK hA hsize hclean hended le_rfl, hchain, Multiset.filter_filter]
  refine Multiset.filter_congr fun o _ => ?_
  rw [selects_iff hK, passes, Bool.and_eq_true, and_comm]

/-- When all stages have ended as `run()` returns, and nobody but Ctrl+C cancels from
outside, the status is 0 exactly after a clean run without failed keys. -/
theorem exit_zero_iff {r : Readings} (h : TimelyRun config outside w) (hret : isReturning w)
    (hended : Ended config w) (hforeign : ∀ e, outside.admits e → Event.Foreign e)
    (hreads : TakenAfter config outside w x r) (hmay : outside.mayCancel → r.ctrlCReceived = true) :
    exitStatus r = 0 ↔ r.indicatorPanicked = false ∧ r.ctrlCReceived = false ∧ Clean w ∧
      NoFailedKeys config w := by
  have hrun := h.running
  have hstatus := hreads.status hrun hforeign
  constructor
  · intro hzero
    rw [hstatus] at hzero
    split_ifs at hzero with hind hctrl herror hpanic hwarning
    have hnot : r.ctrlCReceived = false := Bool.eq_false_iff.mpr hctrl
    refine ⟨Bool.eq_false_iff.mpr hind, hnot, clean_of_unflagged h hret hended hforeign (fun hm => hctrl (hmay hm)) ?_ ?_⟩
    · exact Bool.eq_false_iff.mpr fun hw => herror ((hreads.error hrun).after hw)
    · exact Bool.eq_false_iff.mpr fun hw => hwarning ((hreads.warning hrun).after hw)
  · rintro ⟨hind, hctrl, hclean, hkeys⟩
    obtain ⟨herror, hwarning⟩ := unflagged_of_clean hrun hret hended hforeign hclean hkeys
      hreads.reachable
    rw [hstatus, hind, hctrl, if_neg nofun, if_neg nofun, if_neg, if_neg]
    · intro hr
      have := (hreads.warning hrun).before hr
      simp [hwarning] at this
    · intro hr
      have := (hreads.error hrun).before hr
      simp [herror] at this

/-- **Exit status 0 certifies the deletion.**  Let all stages have ended when `run()`
returns, the storage fail with errors of its own only, and nobody but Ctrl+C cancel
from outside.  The status is 0 exactly when the indicator has not panicked, there
was no Ctrl+C, the run was clean and no result listed a failed key.  Then, outside a
dry run, the objects passed to `Deleter::delete` are all the selected ones; and each
of them is listed as deleted in a result, where DeleteObjects reports on what it is
asked to delete. -/
theorem exit_zero_certifies [DecidablePred (Selects config A)] {r : Readings}
    (h : TimelyRun config outside w) (hret : isReturning w) (hended : Ended config w)
    (hforeign : ∀ e, outside.admits e → Event.Foreign e) (hreads : TakenAfter config outside w x r)
    (hmay : outside.mayCancel → r.ctrlCReceived = true) :
    (exitStatus r = 0 ↔ r.indicatorPanicked = false ∧ r.ctrlCReceived = false ∧ Clean w ∧
      NoFailedKeys config w) ∧
      (exitStatus r = 0 → config.dryRun = false → 0 < config.workerSize → A.Known →
        (∀ e, outside.admits e → A.agrees e) →
        (w.proj begun : Multiset S3Object) = Multiset.filter (Selects config A) (w.proj listed) ∧
        ((∀ e, outside.admits e → Echoes e) →
          ∀ o ∈ w.proj listed, Selects config A o → Removed config w o)) := by
  have hiff := exit_zero_iff h hret hended hforeign hreads hmay
  refine ⟨hiff, fun hzero hdry hsize hK hA => ?_⟩
  obtain ⟨-, -, hclean, hkeys⟩ := hiff.mp hzero
  have hall := begun_of_clean h.running hK hA hsize hdry hended hclean
  refine ⟨hall, fun hecho o ho hsel => ?_⟩
  refine removed_of_begun h.running hecho hdry hended hclean hkeys ?_
  have hmem : o ∈ (w.proj begun : Multiset S3Object) := by
    rw [hall]
    exact Multiset.mem_filter.mpr ⟨ho, hsel⟩
  exact hmem

/-! ### A refused check -/

section refused

variable {t : List CheckEvent}

/-- `run` in main.rs, from the result of its check on. -/
def cliStatus (checked : Except Error Config) (r : Readings) : Nat :=
  match checked with
  | .error e => if e.isCancelledError then 0 else exitCodeFromError e
  | .ok _ => exitStatus r

/-- There is no terminal to ask on. -/
def NoTerminal (config : Config) (t : List CheckEvent) : Prop :=
  (SafetyChecker.new config).jsonLogging = true ∨ (⟨.isInteractive, false⟩ : CheckEvent) ∈ t

/-- The user has answered something else than "yes". -/
def Declined (t : List CheckEvent) : Prop :=
  ∃ d c b input, (⟨.readConfirmation d c b, .ok input⟩ : CheckEvent) ∈ t ∧ input ≠ "yes"

/-- The runs of `check_before_deletion`. -/
inductive Confirmed (config : Config) : List CheckEvent → Except Error Unit → Prop
  | skipped (h : config.dryRun = true ∨ config.force = true) : Confirmed config [] (.ok ())
  | noTerminal {t : List CheckEvent} (destructive : config.dryRun = false ∧ config.force = false)
      (h : NoTerminal config t) (nothing : t = [] ∨ t = [⟨.isInteractive, false⟩]) :
      Confirmed config t (.error (.s3rm (.invalidConfig nonInteractiveMessage)))
  | unread {d : String} {c b : Bool} {e : Error} (terminal : (SafetyChecker.new config).jsonLogging = false) :
      Confirmed config [⟨.isInteractive, true⟩, ⟨.readConfirmation d c b, .error e⟩] (.error e)
  | answered {d : String} {c b : Bool} {input : String}
      (terminal : (SafetyChecker.new config).jsonLogging = false) :
      Confirmed config [⟨.isInteractive, true⟩, ⟨.readConfirmation d c b, .ok input⟩]
        (if input = "yes" then .ok () else .error (.s3rm .cancelled))

theorem run_confirmed {r : Except Error Unit}
    (h : Run (checkBeforeDeletion (SafetyChecker.new config)) t r) : Confirmed config t r := by
  unfold checkBeforeDeletion isNonInteractive at h
  split_ifs at h with hdry hforce hjson
  · obtain ⟨rfl, rfl⟩ := h
    exact .skipped (.inl hdry)
  · obtain ⟨rfl, rfl⟩ := h
    exact .skipped (.inr hforce)
  all_goals have hdestructive : config.dryRun = false ∧ config.force = false :=
    ⟨Bool.eq_false_iff.mpr hdry, Bool.eq_false_iff.mpr hforce⟩
  · obtain ⟨rfl, rfl⟩ := h
    exact .noTerminal hdestructive (.inl hjson) (.inl rfl)
  · obtain ⟨interactive, u, rfl, hu⟩ : ∃ a u, t = ⟨.isInteractive, a⟩ :: u ∧ _ := h
    cases interactive with
    | false =>
      obtain ⟨rfl, rfl⟩ := hu
      exact .noTerminal hdestructive (.inr List.mem_cons_self) (.inr rfl)
    | true =>
      obtain ⟨answer, v, rfl, hv⟩ := hu
      have hterminal : (SafetyChecker.new config).jsonLogging = false := Bool.eq_false_iff.mpr hjson
      rcases answer with e | input
      · obtain ⟨rfl, rfl⟩ := hv
        exact .unread hterminal
      · by_cases hyes : input = "yes"
        · subst hyes
          obtain ⟨rfl, rfl⟩ := hv
          exact .answered hterminal
        · have hthrow : Run (throwIf (input != "yes") (.s3rm .cancelled) : Check Unit) v r := hv
          rw [throwIf, if_pos (by simpa using hyes)] at hthrow
          obtain ⟨rfl, rfl⟩ := hthrow
          have hanswered := @Confirmed.answered config (SafetyChecker.new config).targetDisplay
            (!(SafetyChecker.new config).disableColor) (SafetyChecker.new config).wholeBucket input hterminal
          rwa [if_neg hyes] at hanswered

/-- The prompt and the storage answer with errors of their own only. -/
def CheckForeign : CheckEvent → Prop
  | ⟨.readConfirmation _ _ _, .error e⟩ | ⟨.isVersioningEnabled, .error e⟩ => e.Foreign
  | _ => True

/-- The rest of the check asks for the versioning only. -/
theorem checkRest_straight (config : Config) : Straight (· = CheckOp.isVersioningEnabled) (do
    checkOptions config
    checkVersioning config : Check Config) := by
  have hthrow : ∀ (c : Bool) (e : Error), Straight (· = CheckOp.isVersioningEnabled)
      (throwIf c e : Check Unit) := by
    rintro (- | -) e <;> trivial
  refine Straight.fallible_bind ?_ fun _ => ?_
  · exact (hthrow _ _).fallible_bind fun _ => (hthrow _ _).fallible_bind fun _ => hthrow _ _
  · unfold checkVersioning
    split_ifs
    · refine Straight.fallible_bind (x := isVersioningEnabled) ⟨rfl, fun _ => trivial⟩ fun c => ?_
      split_ifs
      · trivial
      · exact (hthrow _ _).fallible_bind fun _ => (hthrow _ _).fallible_bind fun _ => trivial
    · trivial

/-- It fails with a text, or with the storage's error. -/
theorem raises_checkRest (config : Config) : Raises CheckForeign Error.Foreign (do
    checkOptions config
    checkVersioning config : Check Config) := by
  have hthrow : ∀ (c : Bool) (m : String), Raises CheckForeign Error.Foreign
      (throwIf c (.other m) : Check Unit) := by
    rintro (- | -) m
    · exact .pure _
    · exact .throw rfl
  refine Raises.bind ?_ fun _ => ?_
  · exact (hthrow _ _).bind fun _ => (hthrow _ _).bind fun _ => hthrow _ _
  · unfold checkVersioning
    split_ifs
    · refine Raises.bind (x := isVersioningEnabled) (.op fun r hr => .ofResult fun e he => ?_) fun c => ?_
      · subst he
        exact hr
      · split_ifs
        · exact .pure _
        · exact (hthrow _ _).bind fun _ => (hthrow _ _).bind fun _ => .pure _
    · exact .pure _

/-- **The exit status of a refused check.**  It is 0 exactly when the user has
declined, 2 exactly when there was no terminal to ask on, and 1 otherwise. -/
theorem refused_status {e : Error} (h : Run (checkPrerequisites config) t (.error e))
    (hforeign : ∀ ev ∈ t, CheckForeign ev) (r : Readings) :
    (cliStatus (.error e) r = 0 ↔ Declined t) ∧
      (cliStatus (.error e) r = 2 ↔
        config.dryRun = false ∧ config.force = false ∧ NoTerminal config t) ∧
      cliStatus (.error e) r ≤ 2 := by
  have hstatus : e.Foreign → cliStatus (.error e) r = 1 := by
    intro he
    show (if e.isCancelledError then 0 else exitCodeFromError e) = 1
    rw [if_neg (by simp [he.not_cancelled]), he.exitCode]
  rcases run_fallible_bind.mp h with ⟨e', hconfirm, he⟩ | ⟨t₁, _, t₂, rfl, hconfirm, hrest⟩
  · cases he
    generalize hr : (Except.error e : Except Error Unit) = res at hconfirm
    cases run_confirmed hconfirm with
    | skipped => cases hr
    | noTerminal destructive hno nothing =>
      cases hr
      refine ⟨⟨nofun, ?_⟩, ⟨fun _ => ⟨destructive.1, destructive.2, hno⟩, fun _ => rfl⟩,
        le_rfl⟩
      rintro ⟨d, c, b, input, hmem, -⟩
      rcases nothing with rfl | rfl <;> simp at hmem
    | @unread d c b e' terminal =>
      cases hr
      have hone := hstatus (hforeign ⟨.readConfirmation d c b, .error e⟩ (by simp))
      rw [hone]
      refine ⟨⟨nofun, ?_⟩, ⟨nofun, ?_⟩, by decide⟩
      · rintro ⟨d', c', b', input, hmem, -⟩
        simp at hmem
      · rintro ⟨-, -, hjson | hmem⟩
        · exact absurd (terminal.symm.trans hjson) (by decide)
        · simp at hmem
    | @answered d c b input terminal =>
      split_ifs at hr with hyes
      cases hr
      refine ⟨⟨fun _ => ⟨d, c, b, input, by simp, hyes⟩, fun _ => rfl⟩, ⟨nofun, ?_⟩, Nat.zero_le _⟩
      rintro ⟨-, -, hjson | hmem⟩
      · exact absurd (terminal.symm.trans hjson) (by decide)
      · simp at hmem
  · have hone := hstatus (raises_checkRest config t₂ e hrest fun ev hev =>
      hforeign ev (List.mem_append_right _ hev))
    have hquiet := hrest.uses (checkRest_straight config).uses
    rw [hone]
    generalize hr : (Except.ok _ : Except Error Unit) = res at hconfirm
    refine ⟨⟨nofun, ?_⟩, ⟨nofun, ?_⟩, by decide⟩
    · rintro ⟨d', c', b', input', hmem, hne⟩
      rcases List.mem_append.mp hmem with hmem | hmem
      · cases run_confirmed hconfirm with
        | skipped | unread => simp at hmem
        | noTerminal => cases hr
        | answered =>
          split_ifs at hr with hyes
          simp_all
      · cases hquiet _ hmem
    · rintro ⟨hdry, hforce, hno⟩
      cases run_confirmed hconfirm with
      | skipped hskip => simp [hdry, hforce] at hskip
      | noTerminal | unread => cases hr
      | answered terminal =>
        rcases hno with hjson | hmem
        · exact absurd (terminal.symm.trans hjson) (by decide)
        · rcases List.mem_append.mp hmem with hmem | hmem
          · simp at hmem
          · cases hquiet _ hmem

/-- `refused_status` for a user who answers "no". -/
theorem refused_status_declined :
    cliStatus (.error (.s3rm .cancelled)) ⟨false, false, false, false, none, false⟩ = 0 := by
  let asked : List CheckEvent :=
    [⟨.isInteractive, true⟩, ⟨.readConfirmation "s3:///" true true, .ok "no"⟩]
  have hrun : Run (checkPrerequisites {}) asked (.error (.s3rm .cancelled)) :=
    run_fallible_bind.mpr (.inl ⟨_, ⟨true, _, rfl, ⟨.ok "no", _, rfl, rfl, rfl⟩⟩, rfl⟩)
  have hforeign : ∀ ev ∈ asked, CheckForeign ev := by simp [asked, CheckForeign]
  exact (refused_status hrun hforeign _).1.mpr ⟨"s3:///", true, true, "no", by simp [asked], by decide⟩

end refused

/-! ### Two runs that are read -/

/-- A script of a listing, where everything else succeeds. -/
def listingScript (listing : List ListStep) : Script := { listing }

/-- Its outside, less what it does not answer. -/
def listingOutside (listing : List ListStep) : Outside where
  admits e := (listingScript listing).answers.agrees e ∧ Event.Foreign e ∧ Echoes e
  mayCancel := False

theorem listingScript_admits {listing : List ListStep}
    (hlist : ∀ step ∈ listing, Event.Foreign ⟨.nextListed, step⟩) {o : Op} {r : Resp o}
    (h : (listingScript listing).respond config w o = some r) :
    (listingOutside listing).admits ⟨o, r⟩ := by
  refine ⟨Script.agrees h, ?_, ?_⟩
  · cases o
    case nextListed => exact hlist r (List.mem_of_getElem? h)
    case executeFilter | headObject | getObjectTagging | deleteObject | deleteObjects =>
      obtain rfl := Option.some.inj h
      trivial
    all_goals trivial
  · cases o
    case deleteObjects objects =>
      obtain rfl := Option.some.inj h
      show List.Perm _ _
      rw [echoDeleted, List.map_nil, List.append_nil, List.map_map]
      exact .refl _
    all_goals trivial

/-- The stages, their supervisors and the terminator in turns, and then `n` steps of
`run()`. -/
def orderlyRun (config : Config) (listing : List ListStep) (n : Nat) : PipelineWorld :=
  (pipeline config (listingOutside listing)).exec
    (fun w _ o => (listingScript listing).respond config w o)
    ((listingScript listing).run config (listingOutside listing)
      ((roundRobin config 60).filter (· ≠ .main)))
    (List.replicate n .main)

theorem orderlyRun_timely {listing : List ListStep} {n : Nat}
    (hlist : ∀ step ∈ listing, Event.Foreign ⟨.nextListed, step⟩)
    (hmain : ∀ x ∈ (orderlyRun config listing 0).log, x.1 ≠ .main)
    (hsettled : Settled config (orderlyRun config listing 0)) :
    TimelyRun config (listingOutside listing) (orderlyRun config listing n) := by
  refine TimelyRun.exec_settled (fun _ _ _ _ => listingScript_admits hlist) _ ?_ hsettled
  refine TimelyRun.exec_unlooked (fun _ _ _ _ => listingScript_admits hlist) _ .refl ?_
  rintro ⟨b, hb⟩
  exact hmain _ hb rfl

theorem ended_of_settled (h : Settled config w) : Ended config w := by
  intro s hs
  exact h (.stage s) (mem_tasksOf (StageId.started_of_exists hs)) nofun

/-- All flags read at once. -/
def readingsAt (w : PipelineWorld) : Readings where
  indicatorPanicked := false
  ctrlCReceived := false
  hasError := w.shared.hasError
  hasPanic := w.shared.hasPanic
  errors := getErrors w
  hasWarning := w.shared.hasWarning

theorem takenAfter_readingsAt : TakenAfter config outside w w (readingsAt w) :=
  ⟨⟨w, w, w, .refl, .refl, .refl, .refl, rfl, rfl, rfl⟩, rfl⟩

/-- A listing that fails. -/
def failedListing : List ListStep :=
  [.object (sampleObject "a" 3), .finished (.error (.other "AccessDenied"))]

def failedRun : PipelineWorld := orderlyRun failingConfig failedListing 9

def certifiedConfig : Config where
  workerSize := 2
  batchSize := 2
  filterConfig := { largerSize := some 4 }

def certifiedListing : List ListStep :=
  [.object (sampleObject "a" 3), .object (sampleObject "b" 5), .object (sampleObject "c" 6),
    .finished (.ok ())]

def certifiedRun : PipelineWorld := orderlyRun certifiedConfig certifiedListing 5

/-- `exit_zero_certifies` on a run with a filter. -/
theorem exit_zero_certifies_certifiedRun :
    (certifiedRun.proj begun : Multiset S3Object) = Multiset.filter
        (Selects certifiedConfig (listingScript certifiedListing).answers) (certifiedRun.proj listed) ∧
      ∀ o ∈ certifiedRun.proj listed,
        Selects certifiedConfig (listingScript certifiedListing).answers o →
          Removed certifiedConfig certifiedRun o := by
  have htimely : TimelyRun certifiedConfig (listingOutside certifiedListing) certifiedRun :=
    orderlyRun_timely (by simp [certifiedListing, Event.Foreign]) (by decide +kernel)
      (by decide +kernel)
  have hended : Ended certifiedConfig certifiedRun := ended_of_settled (by decide +kernel)
  obtain ⟨-, hcertifies⟩ := exit_zero_certifies (A := (listingScript certifiedListing).answers) htimely
    (by decide +kernel) hended (fun _ he => he.2.1) takenAfter_readingsAt fun hmay => hmay.elim
  obtain ⟨hall, hremoved⟩ := hcertifies (by decide +kernel) rfl (by decide) (Script.known _)
    fun _ he => he.1
  exact ⟨hall, hremoved fun _ he => he.2.2⟩

end S3rm
