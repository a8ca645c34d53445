/-
S3rm/Errors.lean

The errors of a run (src/types/error.rs): where they come from, and why one is
recorded.  The stages fail with errors that were answered from outside, or with
texts; never with one of the tool's own `S3rmError` values, which have exit codes
of their own (`raises_stage`).  What is recorded was an error or a panic of a
stage, a panic of the terminator, or a warning that counts as an error
(`record_cause`).
-/
import S3rm.Conc.Raises
import S3rm.Failures
import S3rm.Stream

namespace S3rm

open Conc Conc.Prog

variable {config : Config} {outside : Outside} {w : PipelineWorld} {t : Trace}

/-! ### Errors of the tool's own -/

/-- `S3rmError::exit_code`. -/
def S3rmError.exitCode : S3rmError → Nat
  | cancelled => 0
  | invalidConfig _ | invalidUri _ | invalidRegex _ => 2
  | partialFailure _ _ => 3
  | _ => 1

/-- `downcast_ref::<S3rmError>()`, which looks through the layers of context. -/
def Error.downcast : Error → Option S3rmError
  | .s3rm error => some error
  | .context _ source => source.downcast
  | _ => none

/-- `exit_code_from_error`. -/
def exitCodeFromError (e : Error) : Nat :=
  match e.downcast with
  | some error => error.exitCode
  | none => 1

/-- The error is not one of the tool's own. -/
def Error.Foreign (e : Error) : Prop := e.downcast = none

theorem Error.isCancelledError_iff {e : Error} :
    e.isCancelledError = true ↔ e.downcast = some .cancelled := by
  induction e with
  | s3rm error => simp [isCancelledError, downcast]
  | context _ source ih => exact ih
  | headObject | getObjectTagging | deleteObject | other => simp [isCancelledError, downcast]

theorem Error.Foreign.not_cancelled {e : Error} (h : e.Foreign) : e.isCancelledError = false := by
  rw [← Bool.not_eq_true, isCancelledError_iff, h]
  nofun

theorem Error.Foreign.exitCode {e : Error} (h : e.Foreign) : exitCodeFromError e = 1 := by
  rw [exitCodeFromError, h]

/-! ### What the stages raise -/

/-- What is answered from outside carries no error of the tool's own. -/
def Event.Foreign : Event → Prop
  | ⟨.nextListed, .subListingFailed e⟩ | ⟨.nextListed, .finished (.error e)⟩
  | ⟨.executeFilter _, .error e⟩ | ⟨.headObject _ _, .error e⟩ | ⟨.getObjectTagging _ _, .error e⟩
  | ⟨.deleteObject _ _ _, .error e⟩ | ⟨.deleteObjects _, .error e⟩ => e.Foreign
  | _ => True

/-- A program that fails with errors from elsewhere only. -/
abbrev RaisesForeign {α : Type} (p : Act α) : Prop := Raises Event.Foreign Error.Foreign p

section raises

theorem raises_stageSend (chan : Nat) (o : S3Object) : RaisesForeign (stageSend chan o) := by
  apply Raises.ask_bind
  rintro (- | -) -
  · apply Raises.ask_bind
    rintro (- | -) -
    · exact .throw rfl
    · exact .pure _
  · exact .pure _

/-- The listing fails with the error of the storage, or of the first sub-listing
that failed. -/
theorem raises_listTarget : RaisesForeign (listTarget 0) := by
  refine Raises.loop_of (I := fun failed => ∀ e, failed = some e → e.Foreign) nofun ?_ ?_
  · intro failed u failed' hI hu hok
    generalize hx : (Sum.inl failed' : Option Error ⊕ Except Error Unit) = x at hu
    cases run_listTurn hu with
    | object =>
      cases hx
      exact hI
    | @subListing e' =>
      cases hx
      have he' : e'.Foreign := hok ⟨.nextListed, .subListingFailed e'⟩ List.mem_cons_self
      rintro e he
      rcases failed with - | e₀
      · rwa [← Option.some.inj he]
      · exact hI e he
    | finished => cases hx
  · intro failed hI
    apply Raises.ask_bind
    rintro (o | e | result) hok
    · exact .ask_bind fun _ _ => .pure _
    · exact .ask_bind fun _ _ => .pure _
    · rcases failed with - | e
      · refine Raises.bind (.ofResult fun e he => ?_) fun _ => .pure _
        subst he
        exact hok
      · exact .throw (hI e rfl)

theorem raises_receiveAndFilter (base : ObjectFilterBase) (stage : Stage) :
    RaisesForeign (base.receiveAndFilter stage) := by
  apply Raises.loop
  rintro -
  apply Raises.ask_bind
  rintro (- | -) -
  · apply Raises.ask_bind
    rintro (- | o) -
    · exact .pure _
    · dsimp only
      split_ifs
      · exact .ask_bind fun _ _ => (Raises.lift _).bind fun _ => .pure _
      · refine (raises_stageSend _ o).bind fun r => ?_
        split_ifs <;> exact .pure _
  · exact .pure _

/-- The error of the callback is wrapped in a text. -/
theorem raises_userDefinedFilter (stage : Stage) : RaisesForeign (userDefinedFilter stage) := by
  have hneed : ∀ o, RaisesForeign (needDelete stage o) := by
    intro o
    unfold needDelete
    split_ifs
    · refine Raises.attempt_bind (.op fun r hr => .ofResult fun e he => ?_) (fun _ => .pure _) fun e _ => ?_
      · subst he
        exact hr
      · exact (Raises.lift _).bind fun _ => .ask_bind fun _ _ => .throw rfl
    · exact .pure _
  apply Raises.loop
  rintro -
  apply Raises.ask_bind
  rintro ((- | o) | -) -
  · exact .pure _
  · refine (hneed o).bind fun c => ?_
    split_ifs
    · exact (Raises.lift _).bind fun _ => .ask_bind fun _ _ => .pure _
    · refine (raises_stageSend _ o).bind fun r => ?_
      split_ifs <;> exact .pure _
  · exact .pure _

/-! #### A worker -/

/-- Its own filters: a failed lookup is retold, a regex error is a text. -/
theorem raises_skipByRegex (o : S3Object) (regex : Option Regex) (value : Option String)
    (name : String) (isInclude : Bool) :
    RaisesForeign (skipByRegex config o regex value name isInclude) := by
  refine Raises.bind (.ofResult fun e he => ?_) fun c => ?_
  · unfold decideDeleteByRegex at he
    split at he
    · cases he
    · split at he
      · cases he
      · split at he
        · cases he
          rfl
        · cases he
  · split_ifs
    · exact (Raises.lift _).bind fun _ => .pure _
    · exact .pure _

theorem raises_handleApiError (e : Error) (key operation : String) :
    RaisesForeign (handleApiError e key operation) := by
  unfold handleApiError
  split_ifs
  · exact .ask_bind fun _ _ => .pure _
  · exact .ask_bind fun _ _ => .throw rfl

theorem raises_andThen {a b : Act Bool} (ha : RaisesForeign a) (hb : RaisesForeign b) :
    RaisesForeign (do if ← a then return true
                      b : Act Bool) := by
  refine ha.bind fun c => ?_
  split_ifs
  · exact .pure _
  · exact hb

theorem raises_applyHeadObjectFilters (o : S3Object) :
    RaisesForeign (applyHeadObjectFilters config o) := by
  unfold applyHeadObjectFilters
  dsimp only
  split_ifs
  · exact .pure _
  · exact (Raises.lift _).bind fun _ => .pure _
  · refine Raises.attempt_bind (.op fun r hr => .ofResult fun e he => ?_) (fun output => ?_)
      fun e _ => raises_handleApiError _ _ _
    · subst he
      exact hr
    · exact raises_andThen (raises_skipByRegex _ _ _ _ _) (raises_andThen (raises_skipByRegex _ _ _ _ _)
        (raises_andThen (raises_skipByRegex _ _ _ _ _) (raises_skipByRegex _ _ _ _ _)))

theorem raises_applyTagFilters (o : S3Object) : RaisesForeign (applyTagFilters config o) := by
  unfold applyTagFilters
  dsimp only
  split_ifs
  · exact .pure _
  · exact (Raises.lift _).bind fun _ => .pure _
  · refine Raises.attempt_bind (.op fun r hr => .ofResult fun e he => ?_) (fun output => ?_)
      fun e _ => raises_handleApiError _ _ _
    · subst he
      exact hr
    · exact raises_andThen (raises_skipByRegex _ _ _ _ _) (raises_skipByRegex _ _ _ _ _)

/-- Of the backends only a failed DeleteObjects call is an error. -/
theorem raises_deleterDelete (o : S3Object) (rest : List S3Object) :
    RaisesForeign (deleterDelete config o rest) := by
  unfold deleterDelete
  split_ifs
  · refine Raises.attempt_bind (.op fun r hr => .ofResult fun e he => ?_) (fun _ => .pure _)
      fun e _ => .ask_bind fun _ _ => .pure _
    subst he
    exact hr
  · apply Raises.foldlM
    intro result chunk
    refine Raises.bind (.op fun r hr => .ofResult fun e he => ?_) fun response => .lift _
    subst he
    exact hr

theorem raises_forwardBatch (stage : Stage) (batch : List S3Object) :
    RaisesForeign (forwardBatch stage batch) := by
  induction batch with
  | nil => exact .pure _
  | cons o rest ih =>
    refine (raises_stageSend _ o).bind fun r => ?_
    split_ifs
    · exact .pure _
    · exact ih

theorem raises_deleteBufferedObjects (stage : Stage) (buffer : List S3Object) :
    RaisesForeign (deleteBufferedObjects stage buffer) := by
  have hfinish : ∀ result, RaisesForeign (finishBatch stage buffer result) := by
    intro result
    refine (Raises.lift _).bind fun _ => ?_
    split_ifs
    · exact raises_forwardBatch _ _
    · exact .ask_bind fun _ _ => .lift _
    · exact .ask_bind fun _ _ => raises_forwardBatch _ _
  rcases buffer with - | ⟨o, rest⟩
  · exact .pure _
  · apply Raises.ask_bind
    rintro (- | -) -
    · refine Raises.bind ?_ fun result => (hfinish result).bind fun _ => .pure _
      unfold batchResult
      split_ifs
      · exact .pure _
      · refine .ask_bind fun _ _ => Raises.attempt_bind (raises_deleterDelete o rest)
          (fun _ => .pure _) fun e he => .ask_bind fun _ _ => .throw he
    · exact .pure _

theorem raises_checkMaxDelete (stage : Stage) (buffer : List S3Object) (o : S3Object) :
    RaisesForeign (checkMaxDelete stage buffer o) := by
  refine .ask_bind fun k _ => ?_
  dsimp only
  split
  · exact .pure _
  · split_ifs
    · exact .pure _
    · refine (raises_deleteBufferedObjects stage buffer).bind fun _ => .ask_bind fun _ _ =>
        .ask_bind fun _ _ => (Raises.lift _).bind fun _ => .ask_bind fun _ _ => .pure _

theorem raises_processObject (stage : Stage) (buffer : List S3Object) (o : S3Object) :
    RaisesForeign (processObject stage buffer o) := by
  refine (raises_applyHeadObjectFilters o).bind fun c => ?_
  split_ifs
  · exact .pure _
  refine (raises_applyTagFilters o).bind fun c => ?_
  split_ifs
  · exact .pure _
  refine (raises_checkMaxDelete stage buffer o).bind fun c => ?_
  dsimp only
  split_ifs
  · exact .pure _
  · unfold bufferAndDelete
    dsimp only
    split_ifs
    · exact raises_deleteBufferedObjects _ _
    · exact .pure _

theorem raises_receiveAndDelete (stage : Stage) : RaisesForeign (receiveAndDelete stage) := by
  apply Raises.loop
  intro buffer
  apply Raises.ask_bind
  rintro ((- | o) | -) -
  · apply Raises.ask_bind
    rintro (- | -) -
    · exact .pure _
    · exact (raises_deleteBufferedObjects _ _).bind fun _ => .pure _
  · refine (raises_processObject _ _ o).bind fun _ => .ask_bind fun c _ => ?_
    split_ifs <;> exact .pure _
  · exact .pure _

/-- **No stage fails with an error of the tool's own.** -/
theorem raises_stage {s : StageId} {p : Act Unit} (h : s.program config = some p) :
    RaisesForeign p := by
  rcases s with - | n | n
  · cases h
    exact raises_listTarget
  · obtain ⟨kind, -, rfl⟩ := Option.map_eq_some_iff.mp h
    cases kind with
    | base filter => exact raises_receiveAndFilter _ _
    | userDefined => exact raises_userDefinedFilter _
  · simp only [StageId.program] at h
    split_ifs at h
    cases h
    exact raises_receiveAndDelete _

end raises

/-! ### What is recorded, and why -/

/-- The operation records an error or a panic. -/
def Op.records : Op → Bool
  | .setError | .setPanic | .pushError _ => true
  | _ => false

/-- A supervisor records what it has waited for: an error, or a panic. -/
theorem supervisor_records {s : StageId} (h : Part (supervise config s) t) {ev : Event} (hev : ev ∈ t)
    (hrec : ev.1.records) : ∃ o, (⟨.join (.stage s), o⟩ : Event) ∈ t ∧ o ≠ .done (.ok ()) ∧
      (ev.1 = .setPanic → o = .panicked) ∧
      ∀ e, ev.1 = .pushError e → o = .done (.error e) ∨ ∃ m, e = .other m := by
  rcases h with rfl | ⟨o, u, rfl, hu⟩
  · cases hev
  have hmem : ev ∈ u := (List.mem_cons.mp hev).resolve_left fun heq => by
    rw [heq] at hrec
    cases hrec
  refine ⟨o, List.mem_cons_self, ?_⟩
  rcases o with (e | _) | -
  · have hstraight : (if s.ignores e then pure () else do
        cancel
        setError
        pushError e : Act Unit).Straight fun o => o ≠ .setPanic ∧ ∀ e', o = .pushError e' → e' = e := by
      split_ifs
      · trivial
      · exact ⟨⟨nofun, nofun⟩, fun _ => ⟨⟨nofun, nofun⟩, fun _ =>
          ⟨⟨nofun, fun _ he => (Op.pushError.inj he).symm⟩, fun _ => trivial⟩⟩⟩
    obtain ⟨hpanic, hpush⟩ := Part.uses hu hstraight.uses ev hmem
    exact ⟨nofun, fun hp => absurd hp hpanic, fun e' he => .inl (by rw [hpush e' he])⟩
  · obtain rfl : u = [] := hu
    cases hmem
  · have hstraight : (do
        cancel
        setError
        setPanic
        pushError (.other (panicMessage config s)) : Act Unit).Straight
          fun o => ∀ e, o = .pushError e → ∃ m, e = .other m :=
      ⟨nofun, fun _ => ⟨nofun, fun _ => ⟨nofun, fun _ =>
        ⟨fun _ he => ⟨_, (Op.pushError.inj he).symm⟩, fun _ => trivial⟩⟩⟩⟩
    exact ⟨nofun, fun _ => rfl, fun e he => .inr (Part.uses hu hstraight.uses ev hmem e he)⟩

/-- What follows the promotion of warnings records nothing. -/
theorem fireCompletionEvents_straight (config : Config) :
    (fireCompletionEvents config).Straight fun o => o.records = false := by
  have hevent : ∀ event, (triggerEvent config.eventManager event).Straight fun o => o.records = false :=
    fun event => (triggerEvent_straight _ _).mono fun o ho => by
      cases o <;> first | rfl | cases ho
  refine Straight.bind ?_ fun _ => Straight.bind ?_ fun _ => hevent _
  · refine straight_perform_bind.mpr ⟨rfl, fun b => ?_⟩
    split_ifs
    · refine Straight.bind (straight_perform_bind.mpr ⟨rfl, fun c => ?_⟩) fun _ => hevent _
      split_ifs
      · exact ⟨rfl, fun _ => trivial⟩
      · trivial
    · trivial
  · refine straight_perform_bind.mpr ⟨rfl, fun b => ?_⟩
    split_ifs
    · exact hevent _
    · trivial

/-- The end of `run()`, from the moment the statistics are closed. -/
def runClosed (config : Config) : Task (Except Error Unit) := do
  closeStatsSender
  fireCompletionEvents config
  return .ok ()

theorem runClosed_straight (config : Config) : (runClosed config).Straight fun o => o.records = false :=
  ⟨rfl, fun _ => (fireCompletionEvents_straight config).bind fun _ => trivial⟩

/-- Nothing is recorded but a text. -/
def Op.RecordsText (o : Op) : Prop := ∀ e, o = .pushError e → ∃ m, e = .other m

theorem Op.recordsText_of_not_records {o : Op} (h : o.records = false) : o.RecordsText := by
  rintro e rfl
  cases h

theorem recordError_straight (m : String) :
    (recordError (.other m)).Straight fun o => o ≠ .setPanic ∧ o.RecordsText :=
  ⟨⟨nofun, nofun⟩, fun _ => ⟨⟨nofun, fun _ he => ⟨m, (Op.pushError.inj he).symm⟩⟩, fun _ => trivial⟩⟩

/-- Once the terminator has returned, no panic is recorded. -/
theorem promoteWarnings_straight (config : Config) : ((promoteWarnings config).bind fun _ =>
    runClosed config).Straight fun o => o ≠ .setPanic ∧ o.RecordsText := by
  refine Straight.bind ?_ fun _ => (runClosed_straight config).mono fun o ho => ⟨?_, ?_⟩
  · unfold promoteWarnings
    split_ifs
    · refine straight_perform_bind.mpr ⟨⟨nofun, nofun⟩, fun b => ?_⟩
      split_ifs
      · exact recordError_straight _
      · trivial
    · trivial
  · rintro rfl
    cases ho
  · exact Op.recordsText_of_not_records ho

theorem runStarted_recordsText (config : Config) : (runStarted config).Straight Op.RecordsText := by
  have hmono : ∀ {α : Type} {p : Task α}, p.Straight (fun o => o ≠ .setPanic ∧ o.RecordsText) →
      p.Straight Op.RecordsText := fun hp => hp.mono fun _ ho => ho.2
  refine Straight.bind ?_ fun _ => hmono (promoteWarnings_straight config)
  refine straight_perform_bind.mpr ⟨nofun, ?_⟩
  rintro (r | -)
  · trivial
  · exact ⟨nofun, fun _ => hmono (recordError_straight _)⟩

/-- `run()` records the panic of the terminator, and warnings that count as errors. -/
theorem main_records (h : Part (runStarted config) t) {ev : Event} (hev : ev ∈ t)
    (hrec : ev.1.records) : (⟨.join .terminator, .panicked⟩ : Event) ∈ t ∨
      config.warnAsError = true ∧ (⟨.hasWarning, true⟩ : Event) ∈ t ∧ ev.1 ≠ .setPanic := by
  have hne : ∀ {o : Op} {r : Resp o} {v : Trace}, o.records = false → ev ∈ ⟨o, r⟩ :: v → ev ∈ v := by
    intro o r v ho he
    refine (List.mem_cons.mp he).resolve_left ?_
    rintro rfl
    rw [hrec] at ho
    cases ho
  have hquiet : ∀ {v : Trace}, Part (runClosed config) v → ev ∉ v := fun hv he => by
    have hnot := hv.uses (runClosed_straight config).uses ev he
    rw [hrec] at hnot
    cases hnot
  obtain rfl | ⟨o, u, rfl, hu⟩ : t = [] ∨ ∃ o u, t = ⟨.join .terminator, o⟩ :: u ∧ _ := h
  · cases hev
  have hmem : ev ∈ u := hne rfl hev
  rcases o with r | -
  · replace hu : Part ((promoteWarnings config).bind fun _ => runClosed config) u := hu
    have hpanic := (hu.uses (promoteWarnings_straight config).uses ev hmem).1
    by_cases hwarn : config.warnAsError = true
    · unfold promoteWarnings at hu
      rw [if_pos hwarn] at hu
      obtain rfl | ⟨b, v, rfl, hv⟩ : u = [] ∨ ∃ b v, u = ⟨.hasWarning, b⟩ :: v ∧ _ := hu
      · cases hmem
      · cases b with
        | true => exact .inr ⟨hwarn, List.mem_cons_of_mem _ List.mem_cons_self, hpanic⟩
        | false => exact absurd (hne rfl hmem) (hquiet hv)
    · unfold promoteWarnings at hu
      rw [if_neg hwarn] at hu
      exact absurd hmem (hquiet hu)
  · exact .inl List.mem_cons_self

section laws

variable (h : Running config outside w)

include h

/-- Only supervisors and `run()` record. -/
theorem recorder {i : TaskId} {ev : Event} (he : (i, ev) ∈ w.log) (hrec : ev.1.records) :
    i = .main ∨ ∃ s, i = .supervisor s ∧ TaskId.program config i = some (supervise config s) := by
  have hstarted := h.started he
  have hu := h.mayUse he
  rcases ev with ⟨o, r⟩
  rcases i with (_ | n | n) | s | _ | _
  case supervisor =>
    refine .inr ⟨s, rfl, ?_⟩
    simp only [TaskId.started, TaskId.program] at hstarted ⊢
    split_ifs at hstarted ⊢
    · rfl
    · cases hstarted
  case main => exact .inl rfl
  all_goals
    cases o <;> first
      | cases hrec; done
      | cases hu

/-- The warning that was seen is there. -/
theorem warned_law {i : TaskId} (he : (i, (⟨.hasWarning, true⟩ : Event)) ∈ w.log) :
    w.shared.hasWarning = true := by
  refine h.induction (P := fun w => ∀ i, (i, (⟨.hasWarning, true⟩ : Event)) ∈ w.log →
    w.shared.hasWarning = true) ?_ ?_ ?_ ?_ i he
  · simp [start]
  · intro u j o k r sh _ hP _ hh _ i he
    simp only [World.record_log, World.put_log, List.mem_append, List.mem_singleton] at he
    rcases he with he | he
    · exact hh.warning.mpr (.inl (hP i he))
    · cases he
      exact hh.warning.mpr (.inl (hh.warned true rfl).symm)
  · intro u v _ hP hlog hsh _
    simpa [hlog, hsh] using hP
  · exact fun u _ hP _ => hP

/-- **Why an error or a panic was recorded.** -/
theorem record_cause {i : TaskId} {ev : Event} (he : (i, ev) ∈ w.log) (hrec : ev.1.records) :
    (∃ s o, w.outcome (.stage s) = some o ∧ o ≠ .done (.ok ()) ∧ (ev.1 = .setPanic → o = .panicked)) ∨
      w.outcome .terminator = some .panicked ∨
      config.warnAsError = true ∧ w.shared.hasWarning = true ∧ ev.1 ≠ .setPanic := by
  have hmem := mem_traceOf.mpr he
  rcases recorder h he hrec with rfl | ⟨s, rfl, hprog⟩
  · rcases main_records (h.part rfl) hmem hrec with hjoin | ⟨hwarn, hsaw, hpanic⟩
    · exact .inr (.inl (join_law h (mem_traceOf.mp hjoin)))
    · exact .inr (.inr ⟨hwarn, warned_law h (mem_traceOf.mp hsaw), hpanic⟩)
  · obtain ⟨o, hjoin, hne, hpanic, -⟩ := supervisor_records (h.part hprog) hmem hrec
    exact .inl ⟨s, o, join_law h (mem_traceOf.mp hjoin), hne, hpanic⟩

/-- A recorded panic was one. -/
theorem panic_cause (hpanic : w.shared.hasPanic = true) : ∃ i, w.outcome i = some .panicked := by
  obtain ⟨⟨i, ev⟩, he, hev⟩ := (panic_law h).mp hpanic
  have hev : ev.1 = .setPanic := hev
  rcases record_cause h he (by rw [hev]; rfl) with ⟨s, o, ho, -, hp⟩ | hterm | ⟨-, -, hne⟩
  · exact ⟨_, by rw [ho, hp hev]⟩
  · exact ⟨_, hterm⟩
  · exact absurd hev hne

variable (hforeign : ∀ e, outside.admits e → Event.Foreign e)

include hforeign

/-- No stage fails with an error of the tool's own. -/
theorem stage_error_foreign {s : StageId} {e : Error}
    (hout : w.outcome (.stage s) = some (.done (.error e))) : e.Foreign := by
  obtain ⟨p, hp⟩ := Option.isSome_iff_exists.mp (h.started_of_outcome hout)
  have hp' : s.program config = some p := hp
  exact raises_stage hp' _ e (h.run hp hout) fun ev hev =>
    hforeign ev (h.admits _ ev hev)

/-- A stage that has ended without success has failed. -/
theorem failed_of_ended {s : StageId} {o : Outcome (Except Error Unit)}
    (hout : w.outcome (.stage s) = some o) (hne : o ≠ .done (.ok ())) : Failed w (.stage s) := by
  refine ⟨o, hout, ?_⟩
  rcases o with (e | _) | -
  · exact (stage_error_foreign h hforeign hout).not_cancelled
  · exact absurd rfl hne
  · trivial

/-- **The errors of a run are errors from elsewhere**, or texts. -/
theorem errors_foreign : ∀ e ∈ w.shared.errors, e.Foreign := by
  intro e he
  rw [errors_law h] at he
  obtain ⟨⟨i, ev⟩, hlog, hpushed⟩ := List.mem_flatMap.mp he
  obtain ⟨o, r⟩ := ev
  cases o
  case pushError e' =>
    obtain rfl : e = e' := List.mem_singleton.mp hpushed
    have hmem := mem_traceOf.mpr hlog
    rcases recorder h hlog rfl with rfl | ⟨s, rfl, hprog⟩
    · obtain ⟨m, rfl⟩ := (h.part rfl).uses (runStarted_recordsText config).uses _ hmem e rfl
      rfl
    · obtain ⟨o, hjoin, -, -, hpush⟩ := supervisor_records (h.part hprog) hmem rfl
      rcases hpush e rfl with rfl | ⟨m, rfl⟩
      · exact stage_error_foreign h hforeign (join_law h (mem_traceOf.mp hjoin))
      · rfl
  all_goals cases hpushed

/-- A recorded error is a failure, or a warning that counts as one. -/
theorem error_cause (herror : w.shared.hasError = true) :
    (∃ i, (i = .terminator ∨ ∃ s, i = .stage s) ∧ Failed w i) ∨
      config.warnAsError = true ∧ w.shared.hasWarning = true := by
  obtain ⟨⟨i, ev⟩, he, hev⟩ := (error_law h).mp herror
  have hev : ev.1 = .setError := hev
  rcases record_cause h he (by rw [hev]; rfl) with ⟨s, o, ho, hne, -⟩ | hterm | ⟨hwarn, hw, -⟩
  · exact .inl ⟨_, .inr ⟨s, rfl⟩, failed_of_ended h hforeign ho hne⟩
  · exact .inl ⟨_, .inl rfl, _, hterm, trivial⟩
  · exact .inr ⟨hwarn, hw⟩

end laws

end S3rm
