/-
S3rm/Warnings.lean

Warnings.  A worker raises the warning flag after a deletion with failed keys
and after an object over `--max-delete`; `run()` does not join the workers, but
the terminator returns only when they are all gone.  `warnings_reported`: so
none of these is missed, and `--warn-as-error` makes an error of it.
-/
import S3rm.Deleter.Results
import S3rm.Failures

namespace S3rm

open Conc Conc.Prog

variable {config : Config} {outside : Outside} {w : PipelineWorld} {stage : Stage} {t u v : Trace}
  {b : List S3Object} {o : S3Object}

/-! ### What a worker warns of -/

/-- A call of `Deleter::delete` returned a result with failed keys. -/
inductive FailedKeys (config : Config) : Trace → Prop
  | mk {t v : Trace} {o : S3Object} {rest : List S3Object} {result : DeleteResult}
      (delete : Run (deleterDelete config o rest) v (.ok result)) (failed : result.failed ≠ []) :
      FailedKeys config (t ++ ⟨.beginDelete (o :: rest), ()⟩ :: v)

/-- A worker whose buffer was `b` drew a ticket over the limit, and its flush
returned Ok. -/
inductive Overdrawn (stage : Stage) : Trace → Prop
  | mk {t v z : Trace} {b b' : List S3Object} {o : S3Object} {k : Nat}
      (turns : Rounds (Turn (workerTurn stage)) [] t b)
      (screened : Run (screen stage.config o) v (.ok false))
      (exceeded : withinLimit stage.config k = false)
      (flushed : Run (deleteBufferedObjects stage b) z (.ok b')) :
      Overdrawn stage (t ++ ⟨.select stage.receiver, .received (some o)⟩ ::
        (v ++ ⟨.fetchAdd, k⟩ :: z))

/-- The warning flag was raised. -/
def Warned (t : Trace) : Prop := ∃ e ∈ t, e.1 = .setWarning

theorem Warned.subset (h : Warned t) (hsub : t ⊆ u) : Warned u := by
  obtain ⟨e, he, heq⟩ := h
  exact ⟨e, hsub he, heq⟩

/-! ### Failed keys -/

/-- What follows a result with failed keys warns of them. -/
theorem finishBatch_warned {batch : List S3Object} {result : DeleteResult} {r : Except Error Unit}
    (h : Run (finishBatch stage batch result) t r) (hfailed : result.failed ≠ []) : Warned t := by
  unfold finishBatch at h
  obtain ⟨u, _, v, rfl, -, hv⟩ := run_lift_bind.mp h
  rw [if_neg (by simpa using hfailed)] at hv
  obtain ⟨_, w, rfl, -⟩ := run_ask_bind.mp hv
  exact ⟨⟨.setWarning, ()⟩, List.mem_append_right _ List.mem_cons_self, rfl⟩

/-- What is still to come after an operation: the backend returns, and failed
keys in its result are warned of. -/
def Answered (config : Config) : (o : Op) → Resp o → Trace → Prop
  | .beginDelete (o :: rest), _, t => ∃ v u r, t = v ++ u ∧ Run (deleterDelete config o rest) v r ∧
      ∀ result, r = .ok result → result.failed ≠ [] → Warned u
  | _, _, _ => True

theorem Answered.mono (o : Op) (r : Resp o) (t u : Trace) (h : Answered config o r t) :
    Answered config o r (t ++ u) := by
  cases o
  case beginDelete objects =>
    cases objects with
    | nil => trivial
    | cons o rest =>
      obtain ⟨v, w, r, rfl, hv, hw⟩ := h
      refine ⟨v, w ++ u, r, by simp, hv, fun result hr hf => ?_⟩
      exact (hw result hr hf).subset (List.subset_append_left _ _)
  all_goals trivial

theorem answered_of_beginsNone (o : Op) (r : Resp o) (t : Trace) (h : o.beginsNone = true) :
    Answered config o r t := by
  cases o
  case beginDelete => cases h
  all_goals trivial

/-- Where no deletion begins there is nothing to answer for. -/
theorem afterEach_answered {φ : Op → Prop} (hφ : ∀ o, φ o → o.beginsNone = true)
    (h : ∀ e ∈ t, φ e.1) : AfterEach (Answered config) t :=
  afterEach_of_forall fun e he u => answered_of_beginsNone e.1 e.2 u (hφ _ (h e he))

theorem afterEach_screening (h : ∀ e ∈ t, e.1.isScreening) : AfterEach (Answered config) t :=
  afterEach_answered (φ := fun o => o.isScreening) (fun _ => Op.beginsNone_of_isScreening) h

/-- An event that begins no deletion, first. -/
theorem afterEach_cons {e : Event} (he : e.1.beginsNone = true) (h : AfterEach (Answered config) t) :
    AfterEach (Answered config) (e :: t) := by
  rcases e with ⟨op, r⟩
  exact h.cons (answered_of_beginsNone op r t he)

theorem finishBatch_afterEach {batch : List S3Object} {result : DeleteResult} {r : Except Error Unit}
    (h : Run (finishBatch stage batch result) t r) : AfterEach (Answered config) t :=
  afterEach_answered (fun _ => Op.beginsNone_of_isFinish)
    (h.uses (finishBatch_straight ..).uses)

theorem deleterDelete_afterEach {rest : List S3Object} {r : Except Error DeleteResult}
    (h : Run (deleterDelete stage.config o rest) t r) : AfterEach (Answered config) t :=
  afterEach_answered (fun _ => Op.beginsNone_of_isBackend)
    (h.uses (deleterDelete_straight ..).uses)

/-- A flush warns of the failed keys it meets. -/
theorem Flush.afterEach {r : Except Error (List S3Object)} (h : Flush stage b t r) :
    AfterEach (Answered stage.config) t := by
  cases h with
  | empty => exact afterEach_screening (by simp)
  | cancelled => exact afterEach_cons rfl (afterEach_screening (by simp))
  | simulated h dry finish => exact afterEach_cons rfl (finishBatch_afterEach finish)
  | @failed o rest v e h wet delete =>
    subst h
    refine afterEach_cons rfl (.cons ?_ ⟨v, _, _, rfl, delete, fun _ hr => by cases hr⟩)
    refine (deleterDelete_afterEach delete).append Answered.mono ?_
    exact afterEach_cons rfl (afterEach_screening (by simp))
  | @deleted o rest v w result y h wet delete finish =>
    subst h
    refine afterEach_cons rfl (.cons ?_ ⟨v, w, _, rfl, delete, ?_⟩)
    · exact (deleterDelete_afterEach delete).append Answered.mono (finishBatch_afterEach finish)
    · intro result' hr
      obtain rfl := Except.ok.inj hr
      exact finishBatch_warned finish

theorem Process.afterEach {r : Except Error (List S3Object)} (h : Process stage b o t r) :
    AfterEach (Answered stage.config) t := by
  have hscreening : ∀ {w s}, Run (screen stage.config o) w s → AfterEach (Answered stage.config) w :=
    fun hw => afterEach_screening (hw.uses (screen_straight ..).uses)
  cases h with
  | failed screened | skipped screened => exact hscreening screened
  | buffered screened _ _ =>
    exact (hscreening screened).append Answered.mono (afterEach_cons rfl (afterEach_screening (by simp)))
  | flushed screened _ flush | overFailed screened _ flush =>
    exact (hscreening screened).append Answered.mono (afterEach_cons rfl flush.afterEach)
  | @exceeded w z y k b' screened _ flush stop =>
    refine (hscreening screened).append Answered.mono
      (afterEach_cons rfl (flush.afterEach.append Answered.mono ?_))
    obtain ⟨notices, -⟩ := stop
    refine afterEach_cons rfl (afterEach_cons rfl (afterEach_screening fun e he => ?_))
    rcases List.mem_append.mp he with he | he
    · exact Op.isScreening_of_isReport (Op.isReport_of_isNotice (notices e he))
    · rw [List.mem_singleton.mp he]
      rfl

theorem WorkerTurn.afterEach {x : List S3Object ⊕ Except Error Unit} (h : WorkerTurn stage b t x) :
    AfterEach (Answered stage.config) t := by
  have hnil : AfterEach (Answered stage.config) [] := afterEach_screening (by simp)
  cases h with
  | cancelled => exact afterEach_cons rfl hnil
  | lost => exact afterEach_cons rfl (afterEach_cons rfl hnil)
  | drained flush => exact afterEach_cons rfl (afterEach_cons rfl flush.afterEach)
  | received process rest =>
    refine afterEach_cons rfl (process.afterEach.append Answered.mono ?_)
    cases rest with
    | failed => exact hnil
    | cancelled | next => exact afterEach_cons rfl hnil

/-- **A worker warns of failed keys** before it returns. -/
theorem warned_of_failedKeys {r : Except Error Unit} (h : Run (receiveAndDelete stage) t r)
    (hfailed : FailedKeys stage.config u) (hu : u <+: t) : Warned t := by
  obtain ⟨b, t₁, t₂, rfl, hr, hlast⟩ := run_loop.mp h
  have hall : AfterEach (Answered stage.config) (t₁ ++ t₂) :=
    (hr.afterEach Answered.mono fun s v x hv => (run_workerTurn hv).afterEach).append Answered.mono
      (run_workerTurn hlast).afterEach
  obtain @⟨t₀, v, o, rest, result, delete, hne⟩ := hfailed
  obtain ⟨x, hx⟩ := hu
  obtain ⟨v', u', r', hrest, hv', hw⟩ := hall t₀ (.beginDelete (o :: rest)) () (v ++ x) (by
    rw [← hx]
    simp)
  obtain ⟨rfl, rfl⟩ := delete.deterministic hv' (List.prefix_append v x) ⟨u', hrest.symm⟩
  refine (hw result rfl hne).subset ?_
  rw [← hx, List.append_cancel_left hrest]
  intro e he
  simp [he]

/-! ### Objects over the limit -/

/-- Processing an object that draws a ticket over the limit warns of it. -/
theorem Process.warned {p q x z : Trace} {b' : List S3Object} {k : Nat}
    {r : Except Error (List S3Object)} (h : Process stage b o p r)
    (screened : Run (screen stage.config o) v (.ok false))
    (exceeded : withinLimit stage.config k = false)
    (flushed : Run (deleteBufferedObjects stage b) z (.ok b'))
    (he : v ++ ⟨.fetchAdd, k⟩ :: (z ++ x) = p ++ q) : Warned p := by
  -- the filters decide alike, and the ticket is the same one
  have hscreen : ∀ {w y : Trace} {s}, Run (screen stage.config o) w s →
      v ++ ⟨.fetchAdd, k⟩ :: (z ++ x) = w ++ y → s = .ok false ∧ y = ⟨.fetchAdd, k⟩ :: (z ++ x) := by
    intro w y s hw hy
    obtain ⟨rfl, rfl⟩ := screened.deterministic hw (List.prefix_append _ _) ⟨y, hy.symm⟩
    exact ⟨rfl, (List.append_cancel_left hy).symm⟩
  have hticket : ∀ {w y : Trace} {k' : Nat} {s}, Run (screen stage.config o) w s →
      v ++ ⟨.fetchAdd, k⟩ :: (z ++ x) = w ++ ⟨.fetchAdd, k'⟩ :: y → k' = k ∧ y = z ++ x := by
    intro w y k' s hw hy
    obtain ⟨-, htail⟩ := hscreen hw hy
    obtain ⟨hk, rfl⟩ := List.cons.inj htail
    cases hk
    exact ⟨rfl, rfl⟩
  cases h with
  | failed hw =>
    obtain ⟨hs, -⟩ := hscreen hw he
    cases hs
  | skipped hw =>
    obtain ⟨hs, -⟩ := hscreen hw he
    cases hs
  | buffered hw within room =>
    obtain ⟨rfl, -⟩ := hticket hw (he.trans (List.append_assoc _ _ _))
    simp [exceeded] at within
  | flushed hw within flush =>
    obtain ⟨rfl, -⟩ := hticket hw (he.trans (List.append_assoc _ _ _))
    simp [exceeded] at within
  | @overFailed w z' k' e hw exceeded' flush =>
    obtain ⟨rfl, hy⟩ := hticket hw (he.trans (List.append_assoc _ _ _))
    obtain ⟨-, hs⟩ := flushed.deterministic flush.run (List.prefix_append z x) ⟨q, hy⟩
    cases hs
  | exceeded hw exceeded' flush stop =>
    obtain ⟨notices, -⟩ := stop
    exact ⟨⟨.setWarning, ()⟩, by simp, rfl⟩

/-- **A worker warns of an object over the limit**, unless its flush fails. -/
theorem warned_of_overdrawn {r : Except Error Unit} (h : Run (receiveAndDelete stage) t r)
    (hover : Overdrawn stage u) (hu : u <+: t) : Warned t := by
  obtain @⟨t₀, v, z, b, b', o, k, turns, screened, exceeded, flushed⟩ := hover
  obtain ⟨x, rfl⟩ := hu
  rw [List.append_assoc] at h
  -- the turn that drew the ticket is the first one from the buffer `b` on
  obtain ⟨s, t₁, t₂, hsplit, hr, hlast⟩ := run_loop.mp (Run.of_rounds turns h)
  have hturn : ∃ y p q, WorkerTurn stage b p y ∧
      ⟨.select stage.receiver, .received (some o)⟩ :: (v ++ ⟨.fetchAdd, k⟩ :: (z ++ x)) = p ++ q := by
    cases hr with
    | nil => exact ⟨_, t₂, [], run_workerTurn hlast, by simpa using hsplit⟩
    | @cons _ p _ q _ hb _ => exact ⟨_, p, q ++ t₂, run_workerTurn hb, by simpa using hsplit⟩
  obtain ⟨y, p, q, hturn, hp⟩ := hturn
  have hwarned : Warned p := by
    cases hturn with
    | cancelled | lost | drained => cases (List.cons.inj hp).1
    | @received o' p' v' _ _ process rest =>
      obtain ⟨ho, htail⟩ := List.cons.inj hp
      cases ho
      refine (process.warned screened exceeded flushed (htail.trans (List.append_assoc _ _ _))).subset ?_
      intro e he
      simp [he]
  refine hwarned.subset ?_
  intro e he
  have hmem : e ∈ p ++ q := List.mem_append_left _ he
  rw [← hp] at hmem
  simp only [List.append_assoc, List.cons_append]
  exact List.mem_append_right t₀ hmem

/-! ### What run() sees of it -/

/-- The workers are gone when the terminator has returned. -/
theorem workers_ended (h : Running config outside w) {r : Except Error Unit}
    (hterm : w.outcome .terminator = some (.done r)) {n : Nat} (hn : n < config.workerSize) :
    (w.outcome (.stage (.worker n))).isSome := by
  rcases r with e | ⟨⟩
  · exact (run_terminate_ok (h.run rfl hterm)).elim
  · obtain ⟨e, he, hend⟩ := run_terminate (h.run rfl hterm)
    have hworkers := (drained_law h (mem_traceOf.mp he) hend).1
    rw [senders_last] at hworkers
    exact hworkers _ (mem_workers.mpr ⟨n, hn, rfl⟩)

/-- A task that had returned at some moment did nothing after it. -/
theorem traceOf_eq_of_ended {u : PipelineWorld} (hu : Running config outside u)
    (hw : Running config outside w) (hpast : Before u w) {i : TaskId} {p : Act Unit}
    (hp : i.program config = some p) {r : Except Error Unit} (hi : u.outcome i = some (.done r)) :
    traceOf i u.log = traceOf i w.log := by
  obtain ⟨l, hl⟩ := hpast.log
  refine ((hu.run hp hi).deterministic (hw.run hp (hpast.ended i _ hi)) ⟨traceOf i l, ?_⟩
    (List.prefix_refl _)).1
  rw [← hl]
  simp [traceOf]

/-- A warning of a worker is there when `run()`, back from the terminator, looks
for warnings. -/
theorem saw_warning (h : Running config outside w) (hpanic : ∀ i, w.outcome i ≠ some .panicked)
    {n : Nat} (hwarned : Warned (traceOf (.stage (.worker n)) w.log)) {t₁ t₂ : Trace} {b : Bool}
    {o : Outcome (Except Error Unit)} (ht : traceOf .main w.log = t₁ ++ ⟨.hasWarning, b⟩ :: t₂)
    (hjoin : (⟨.join .terminator, o⟩ : Event) ∈ t₁) : b = true := by
  refine h.each_event (R := fun t₁ x => (⟨.join .terminator, o⟩ : Event) ∈ t₁ →
    ∀ b, x = ⟨.hasWarning, b⟩ → b = true) ?_ ht hjoin b rfl
  intro u op r sh hu hpast hh hjoin b hb
  have hn : n < config.workerSize := by
    obtain ⟨e, he, -⟩ := hwarned
    exact h.worker_lt he
  have hterm := join_law hu (mem_traceOf.mp hjoin)
  rcases o with r' | -
  · obtain ⟨ow, how⟩ := Option.isSome_iff_exists.mp (workers_ended hu hterm hn)
    rcases ow with rw' | -
    · rw [← traceOf_eq_of_ended hu h hpast (worker_program hn) how] at hwarned
      obtain ⟨e, he, heq⟩ := hwarned
      rw [hh.warned b hb]
      exact (warning_law hu).mpr ⟨_, mem_traceOf.mp he, heq⟩
    · exact absurd (hpast.ended _ _ how) (hpanic _)
  · exact absurd (hpast.ended _ _ hterm) (hpanic _)

/-- Under `--warn-as-error`, a warning that was seen becomes an error. -/
theorem run_promoteWarnings {a : Unit} (h : (promoteWarnings config).Run t a)
    (hwarn : config.warnAsError = true) :
    ∃ b u, t = ⟨.hasWarning, b⟩ :: u ∧ (b = true → Records False u) := by
  unfold promoteWarnings at h
  rw [if_pos hwarn] at h
  obtain ⟨b, u, rfl, hu⟩ := run_perform_bind.mp h
  refine ⟨b, u, rfl, ?_⟩
  rintro rfl
  obtain ⟨_, v, rfl, hv⟩ := run_perform_bind.mp hu
  obtain rfl := run_perform.mp hv
  exact ⟨by simp, by simp [pushed], fun hf => hf.elim⟩

/-- **No warning is missed.**  In every run without panics, when `run()` returns,
a deletion with failed keys or an object over the limit of any worker has set
the warning flag, and under `--warn-as-error` it is an error. -/
theorem warnings_reported (h : Running config outside w) (hpanic : ∀ i, w.outcome i ≠ some .panicked)
    (hret : isReturning w) {n : Nat} (hpre : t <+: traceOf (.stage (.worker n)) w.log)
    (hwarns : FailedKeys config t ∨ Overdrawn (workerStage config) t) :
    w.shared.hasWarning = true ∧
      (config.warnAsError = true → w.shared.hasError = true ∧ w.shared.errors ≠ []) := by
  obtain ⟨r, hr⟩ := exists_of_isReturning hret
  obtain ⟨c, ht, hc⟩ := run_runStarted (Machine.Reachable.run_of_ret (start_initial config) h
    (h.code_eq .main) hr)
  have hn : n < config.workerSize := by
    have hne : t ≠ [] := by
      rcases hwarns with hf | hf <;> cases hf <;> simp
    obtain ⟨e, he⟩ := List.exists_mem_of_ne_nil t hne
    exact h.worker_lt (hpre.subset he)
  have hjoin : (TaskId.main, (⟨.join .terminator, c.terminator⟩ : Event)) ∈ w.log :=
    mem_traceOf.mp (ht ▸ List.mem_append_left _ List.mem_cons_self)
  -- the worker has returned, so the warning is in its trace
  have hwarned : Warned (traceOf (.stage (.worker n)) w.log) := by
    have hterm := join_law h hjoin
    rcases hterminator : c.terminator with r' | -
    · rw [hterminator] at hterm
      obtain ⟨o, ho⟩ := Option.isSome_iff_exists.mp (workers_ended h hterm hn)
      rcases o with rw' | -
      · have hrun := h.run (worker_program hn) ho
        exact hwarns.elim (fun hf => warned_of_failedKeys hrun hf hpre)
          fun hf => warned_of_overdrawn hrun hf hpre
      · exact absurd ho (hpanic _)
    · exact absurd (hterminator ▸ hterm) (hpanic _)
  refine ⟨?_, fun hwarn => ?_⟩
  · obtain ⟨e, he, heq⟩ := hwarned
    exact (warning_law h).mpr ⟨_, mem_traceOf.mp he, heq⟩
  · obtain ⟨b, u, hu, hrec⟩ := run_promoteWarnings hc.promoted hwarn
    have hsplit : traceOf .main w.log = (⟨.join .terminator, c.terminator⟩ :: c.recorded) ++
        ⟨.hasWarning, b⟩ :: (u ++ (⟨.closeStatsSender, ()⟩ :: ⟨.hasError, c.failing⟩ :: c.after)) := by
      simp [ht, Completion.trace, Completion.before, hu]
    have hb := saw_warning h hpanic hwarned hsplit List.mem_cons_self
    have hrecorded : Records False (traceOf .main w.log) := by
      rw [hsplit]
      refine (hrec hb).of_sublist (List.Sublist.trans ?_ (List.sublist_append_right _ _))
      exact (List.sublist_append_left _ _).trans (List.sublist_cons_self _ _)
    obtain ⟨herror, herrors, -⟩ := hrecorded.shared h
    exact ⟨herror, herrors⟩

/-! ### A run with a failed deletion -/

/-- A run under `--warn-as-error` whose one deletion fails. -/
def warnedConfig : Config where
  workerSize := 1
  batchSize := 1
  warnAsError := true

def warnedObject : S3Object := sampleObject "a" 3

def accessDenied : Error := .deleteObject (some "AccessDenied") "Access Denied"

def warnedScript : Script where
  listing := [.object warnedObject, .finished (.ok ())]
  deleteObject _ _ _ := .error accessDenied

def warnedRun : PipelineWorld :=
  warnedScript.run warnedConfig warnedScript.outside (List.replicate 9 (.stage .lister) ++
    List.replicate 30 (.stage (.worker 0)) ++ List.replicate 5 .terminator ++ List.replicate 12 .main)

/-- What the worker did up to the failed call. -/
def warnedTrace : Trace :=
  [⟨.select 0, .received (some warnedObject)⟩, ⟨.fetchAdd, (0 : Nat)⟩, ⟨.isCancelled, false⟩] ++
    ⟨.beginDelete [warnedObject], ()⟩ ::
      [⟨.deleteObject "a" none none, .error accessDenied⟩, ⟨.sendStats (.deleteError "a"), ()⟩]

theorem warnedTrace_failed : FailedKeys warnedConfig warnedTrace := by
  have hdelete : Run (deleterDelete warnedConfig warnedObject [])
      [⟨.deleteObject "a" none none, .error accessDenied⟩, ⟨.sendStats (.deleteError "a"), ()⟩]
      (.ok ⟨[], [accessDenied.toFailedKey warnedObject]⟩) := by
    refine run_attempt_bind.mpr ⟨[_], .error accessDenied, _, rfl, ⟨_, _, rfl, rfl, rfl⟩, ?_⟩
    exact ⟨_, _, rfl, rfl, rfl⟩
  exact .mk hdelete (by simp)

theorem warnedTrace_prefix : warnedTrace <+: traceOf (.stage (.worker 0)) warnedRun.log :=
  by decide +kernel

theorem warnedRun_running : Running warnedConfig warnedScript.outside warnedRun :=
  Script.running (fun _ _ _ => Script.agrees) _

/-- `warnings_reported` on that run. -/
theorem warnings_reported_warnedRun :
    warnedRun.shared.hasWarning = true ∧ warnedRun.shared.hasError = true ∧
      warnedRun.shared.errors ≠ [] := by
  obtain ⟨hwarning, herror⟩ := warnings_reported warnedRun_running
    (warnedRun_running.forall_outcome (by decide +kernel)) (by decide +kernel) warnedTrace_prefix
    (.inl warnedTrace_failed)
  exact ⟨hwarning, herror rfl⟩

end S3rm
