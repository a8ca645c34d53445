/-
S3rm/Deleter/Turns.lean

What a delete worker can do, one step of its loop at a time.  `Flush` lists the
ways `delete_buffered_objects` can go and `WorkerTurn` the turns of
`receive_and_delete`, each with the runs of the parts it is made of, so that a
later argument about workers is a case analysis on these two.
-/
import S3rm.Deleter.Screening

namespace S3rm

open Conc Conc.Prog

/-! ### What the parts of a worker may do -/

section straight

variable (config : Config)

/-- What is done about one object: calls about it, pauses, and statistics. -/
def Op.isSingle : Op → Bool
  | .deleteObject _ _ _ | .sleep _ | .sendStats _ => true
  | _ => false

theorem Op.isBackend_of_isSingle {o : Op} (h : o.isSingle) : o.isBackend := by
  cases o <;> first | rfl | cases h

theorem fallbackAttempts_straight (key : String) (versionId ifMatch : Option String)
    (attempt left : Nat) :
    (fallbackAttempts config key versionId ifMatch attempt left).Straight
      fun op => op.isSingle := by
  induction left generalizing attempt with
  | zero => trivial
  | succ left ih =>
    refine Straight.bind ?_ fun _ => Straight.bind (p := deleteObject key versionId ifMatch)
      ⟨rfl, fun _ => trivial⟩ fun r => ?_
    · unfold pauseBefore
      split_ifs <;> simp [Op.isSingle]
    · rcases r with e | -
      · exact ih _
      · trivial

theorem handleErrorEntry_straight (chunk : List S3Object) (result : DeleteResult)
    (err : DeleteErrorEntry) :
    (handleErrorEntry config chunk result err).Straight fun op => op.isSingle := by
  unfold handleErrorEntry
  split_ifs
  · refine Straight.bind (Straight.bind (fallbackAttempts_straight ..) fun r => ?_) fun r => ?_
    · cases r <;> trivial
    · rcases r with f | d
      · exact ⟨rfl, fun _ => trivial⟩
      · trivial
  · exact ⟨rfl, fun _ => trivial⟩

/-- A backend asks for its chunks, and for single objects. -/
theorem deleterDelete_covered {φ : Op → Prop} {o : S3Object} {rest : List S3Object}
    (single : ∀ op : Op, op.isSingle → φ op)
    (chunks : ∀ chunk ∈ chunks (min config.batchSize maxBatchSize) (o :: rest),
      φ (.deleteObjects (chunk.map (objectIdentifier config)))) :
    Straight φ (deleterDelete config o rest) := by
  unfold deleterDelete
  split_ifs
  · refine Straight.fallible_bind (Straight.attempt ⟨single _ rfl, fun _ => trivial⟩) fun r => ?_
    rcases r with e | -
    · exact ⟨single _ rfl, fun _ => trivial⟩
    · trivial
  · refine Straight.fallible_foldlM_mem _ (fun result chunk hchunk => ?_) _
    refine Straight.fallible_bind (x := deleteObjects _) ⟨chunks chunk hchunk, fun _ => trivial⟩
      fun response => ?_
    exact (Straight.foldlM (fun result err =>
      (handleErrorEntry_straight config chunk result err).mono single) _ _).lift

theorem deleterDelete_straight (o : S3Object) (rest : List S3Object) :
    Straight (fun op => op.isBackend) (deleterDelete config o rest) :=
  deleterDelete_covered config (fun _ => Op.isBackend_of_isSingle) fun _ _ => rfl

/-- Forwarding sends to the next channel, and looks whether it is closed. -/
theorem forwardBatch_straight (stage : Stage) (batch : List S3Object) :
    Straight (fun op => (∃ o, op = .send stage.sender o) ∨ op = .isClosed stage.sender)
      (forwardBatch stage batch) := by
  induction batch with
  | nil => trivial
  | cons o rest ih =>
    refine Straight.fallible_bind ((stageSend_straight _ o).mono ?_) fun r => ?_
    · rintro _ (rfl | rfl)
      · exact .inl ⟨o, rfl⟩
      · exact .inr rfl
    · split_ifs
      · trivial
      · exact ih

/-- The operations `φ` cover what follows a result, towards channel `chan`. -/
structure Finishes (chan : Nat) (φ : Op → Prop) : Prop where
  sendStats : ∀ stats, φ (.sendStats stats)
  incrementDeleted : ∀ bytes, φ (.incrementDeleted bytes)
  incrementFailed : φ .incrementFailed
  setWarning : φ .setWarning
  cancel : φ .cancel
  send : ∀ o, φ (.send chan o)
  isClosed : φ (.isClosed chan)
  events : OrdinaryEvents φ

section finishes

variable {φ : Op → Prop} {stage : Stage} (h : Finishes stage.sender φ)

include h

theorem Finishes.emitResult (batch : List S3Object) (result : DeleteResult) :
    (emitResult config batch result).Straight φ := by
  refine Straight.bind (Straight.forM (fun dk => ?_) _) fun _ => Straight.forM (fun fk => ?_) _
  · exact ⟨h.incrementDeleted _, fun _ => ⟨h.sendStats _, fun _ => ⟨h.sendStats _, fun _ =>
      h.events.triggerEvent _ rfl⟩⟩⟩
  · exact ⟨h.incrementFailed, fun _ => h.events.triggerEvent _ rfl⟩

theorem Finishes.forwardBatch (batch : List S3Object) : Straight φ (forwardBatch stage batch) := by
  refine (forwardBatch_straight stage batch).mono ?_
  rintro _ (⟨o, rfl⟩ | rfl)
  · exact h.send o
  · exact h.isClosed

theorem Finishes.finishBatch (batch : List S3Object) (result : DeleteResult) :
    Straight φ (finishBatch stage batch result) := by
  refine Straight.fallible_bind (h.emitResult stage.config batch result).lift fun _ => ?_
  have hforward := h.forwardBatch batch
  split_ifs
  · exact hforward
  · exact ⟨h.setWarning, fun _ => ⟨h.cancel, fun _ => trivial⟩⟩
  · exact ⟨h.setWarning, fun _ => hforward⟩

end finishes

theorem finishes_isFinish (chan : Nat) : Finishes chan fun op => op.isFinish chan where
  sendStats _ := rfl
  incrementDeleted _ := rfl
  incrementFailed := rfl
  setWarning := rfl
  cancel := rfl
  send _ := by simp [Op.isFinish]
  isClosed := by simp [Op.isFinish]
  events := ⟨fun _ _ => rfl, fun _ _ => rfl⟩

theorem finishBatch_straight (stage : Stage) (batch : List S3Object) (result : DeleteResult) :
    Straight (fun op => op.isFinish stage.sender) (finishBatch stage batch result) :=
  (finishes_isFinish stage.sender).finishBatch batch result

/-- The operations `φ` cover what a worker does; a dry run needs no backend. -/
structure Covers (stage : Stage) (φ : Op → Prop) : Prop where
  select : φ (.select stage.receiver)
  isClosed : φ (.isClosed stage.receiver)
  isCancelled : φ .isCancelled
  fetchAdd : φ .fetchAdd
  screens : Screens φ
  finishes : Finishes stage.sender φ
  begins : stage.config.dryRun = false → ∀ objects, φ (.beginDelete objects)
  backend : stage.config.dryRun = false → ∀ o : Op, o.isBackend → φ o

/-- The same of a backend's program, whatever else its operations could be. -/
structure CoversCalls (stage : Stage) (φ : Op → Prop) : Prop where
  select : φ (.select stage.receiver)
  isClosed : φ (.isClosed stage.receiver)
  isCancelled : φ .isCancelled
  fetchAdd : φ .fetchAdd
  screens : Screens φ
  finishes : Finishes stage.sender φ
  begins : stage.config.dryRun = false → ∀ objects, φ (.beginDelete objects)
  calls : stage.config.dryRun = false → ∀ o rest, Straight φ (deleterDelete stage.config o rest)

section covers

variable {stage : Stage} {φ : Op → Prop}

theorem Covers.coversCalls (h : Covers stage φ) : CoversCalls stage φ where
  select := h.select
  isClosed := h.isClosed
  isCancelled := h.isCancelled
  fetchAdd := h.fetchAdd
  screens := h.screens
  finishes := h.finishes
  begins := h.begins
  calls hdry _ _ := (deleterDelete_straight ..).mono (h.backend hdry)

theorem CoversCalls.deleteBufferedObjects (h : CoversCalls stage φ) (buffer : List S3Object) :
    Straight φ (deleteBufferedObjects stage buffer) := by
  unfold S3rm.deleteBufferedObjects
  rcases buffer with - | ⟨o, rest⟩
  · trivial
  dsimp only
  refine straight_ask_bind.mpr ⟨h.isCancelled, fun b => ?_⟩
  split_ifs
  · trivial
  · refine Straight.fallible_bind ?_ fun result =>
      (h.finishes.finishBatch ..).fallible_bind fun _ => trivial
    unfold batchResult callDeleter
    split_ifs with hdry
    · trivial
    · rw [Bool.not_eq_true] at hdry
      refine straight_ask_bind.mpr ⟨h.begins hdry _, fun _ => Straight.fallible_bind
        (Straight.attempt (h.calls hdry ..)) fun r => ?_⟩
      rcases r with e | -
      · exact ⟨h.screens.cancel, fun _ => trivial⟩
      · trivial

theorem CoversCalls.checkMaxDelete (h : CoversCalls stage φ) (b : List S3Object) (o : S3Object) :
    Straight φ (checkMaxDelete stage b o) := by
  unfold S3rm.checkMaxDelete
  refine straight_ask_bind.mpr ⟨h.fetchAdd, fun k => ?_⟩
  dsimp only
  split
  · trivial
  split_ifs
  · trivial
  refine Straight.fallible_bind (h.deleteBufferedObjects b) fun b' =>
    ⟨h.screens.sendStats _, fun _ => ⟨h.finishes.setWarning, fun _ => ?_⟩⟩
  refine Straight.fallible_bind (h.screens.events.triggerEvent _ rfl).lift fun _ => ?_
  exact ⟨h.screens.cancel, fun _ => trivial⟩

theorem CoversCalls.processObject (h : CoversCalls stage φ) (b : List S3Object) (o : S3Object) :
    Straight φ (processObject stage b o) := by
  refine Straight.fallible_bind (h.screens.applyHeadObjectFilters _ o) fun c => ?_
  split_ifs
  · trivial
  refine Straight.fallible_bind (h.screens.applyTagFilters _ o) fun c => ?_
  split_ifs
  · trivial
  refine Straight.fallible_bind (h.checkMaxDelete b o) fun x => ?_
  rcases x with ⟨exceeded, b'⟩
  dsimp only
  unfold bufferAndDelete
  dsimp only
  split_ifs
  · trivial
  · exact h.deleteBufferedObjects _
  · trivial

theorem CoversCalls.workerTurn (h : CoversCalls stage φ) (b : List S3Object) :
    Straight φ (workerTurn stage b) := by
  unfold S3rm.workerTurn
  refine straight_ask_bind.mpr ⟨h.select, ?_⟩
  rintro ((- | o) | -)
  · refine straight_ask_bind.mpr ⟨h.isClosed, fun c => ?_⟩
    split_ifs
    · exact Straight.fallible_bind (h.deleteBufferedObjects _) fun _ => trivial
    · trivial
  · refine (h.processObject b o).fallible_bind fun b' => ?_
    refine straight_ask_bind.mpr ⟨h.isCancelled, fun c => ?_⟩
    split_ifs <;> trivial
  · trivial

theorem CoversCalls.uses (h : CoversCalls stage φ) : (receiveAndDelete stage).Uses φ :=
  Uses.loop h.workerTurn []

theorem Covers.uses (h : Covers stage φ) : (receiveAndDelete stage).Uses φ := h.coversCalls.uses

end covers

/-- What a worker from channel `inp` to channel `out` does. -/
def Op.isWorking (inp out : Nat) : Op → Bool
  | .select c => c = inp
  | .isClosed c => c = inp || c = out
  | .fetchAdd => true
  | o => o.isScreening || o.isFlush out

theorem Op.isWorking_of_isFlush {inp out : Nat} {o : Op} (h : o.isFlush out) :
    o.isWorking inp out := by
  cases o <;> simp_all [Op.isWorking, Op.isFlush, Op.isFinish, Op.isReport, Op.isNotice, Op.isBackend]

theorem covers_working (stage : Stage) :
    Covers stage fun op => op.isWorking stage.receiver stage.sender where
  select := by simp [Op.isWorking]
  isClosed := by simp [Op.isWorking]
  isCancelled := rfl
  fetchAdd := rfl
  screens := ⟨fun _ _ => rfl, fun _ _ => rfl, fun _ => rfl, rfl, fun _ _ => rfl, fun _ _ => rfl⟩
  finishes := ⟨fun _ => rfl, fun _ => rfl, rfl, rfl, rfl, fun _ => by simp [Op.isWorking, Op.isFlush, Op.isFinish],
    by simp [Op.isWorking], fun _ _ => rfl, fun _ _ => rfl⟩
  begins _ _ := rfl
  backend _ _ h := Op.isWorking_of_isFlush (Op.isFlush_of_isBackend h)

theorem workerTurn_straight (stage : Stage) (b : List S3Object) :
    Straight (fun op => op.isWorking stage.receiver stage.sender) (workerTurn stage b) :=
  (covers_working stage).coversCalls.workerTurn b

theorem receiveAndDelete_uses (stage : Stage) :
    (receiveAndDelete stage).Uses fun op => op.isWorking stage.receiver stage.sender :=
  (covers_working stage).uses

end straight

/-! ### Flushing the buffer -/

/-- The runs of `delete_buffered_objects` on the buffer `b`. -/
inductive Flush (stage : Stage) (b : List S3Object) : Trace → Except Error (List S3Object) → Prop
  | empty (h : b = []) : Flush stage b [] (.ok [])
  | cancelled (h : b ≠ []) : Flush stage b [⟨.isCancelled, true⟩] (.ok b)
  | simulated {w : Trace} {y : Except Error Unit} (h : b ≠ []) (dry : stage.config.dryRun)
      (finish : Run (finishBatch stage b (dryRunResult b)) w y) :
      Flush stage b (⟨.isCancelled, false⟩ :: w) (y.map fun _ => [])
  | failed {o : S3Object} {rest : List S3Object} {v : Trace} {e : Error} (h : b = o :: rest)
      (wet : stage.config.dryRun = false)
      (delete : Run (deleterDelete stage.config o rest) v (.error e)) :
      Flush stage b (⟨.isCancelled, false⟩ :: ⟨.beginDelete b, ()⟩ :: (v ++ [⟨.cancel, ()⟩]))
        (.error (.context "delete worker has been cancelled with error." e))
  | deleted {o : S3Object} {rest : List S3Object} {v w : Trace} {result : DeleteResult}
      {y : Except Error Unit} (h : b = o :: rest) (wet : stage.config.dryRun = false)
      (delete : Run (deleterDelete stage.config o rest) v (.ok result))
      (finish : Run (finishBatch stage b result) w y) :
      Flush stage b (⟨.isCancelled, false⟩ :: ⟨.beginDelete b, ()⟩ :: (v ++ w))
        (y.map fun _ => [])

theorem run_map_result {x : Act Unit} {c : List S3Object} {t : Trace}
    {r : Except Error (List S3Object)} (h : Run (do x; return c : Act (List S3Object)) t r) :
    ∃ y, Run x t y ∧ r = y.map fun _ => c := by
  rcases run_fallible_bind.mp h with ⟨e, hx, rfl⟩ | ⟨t₁, a, t₂, rfl, hx, rfl, rfl⟩
  · exact ⟨_, hx, rfl⟩
  · exact ⟨.ok a, by simpa using hx, rfl⟩

theorem run_callDeleter {config : Config} {o : S3Object} {rest : List S3Object} {t : Trace}
    {r : Except Error DeleteResult} (h : Run (callDeleter config o rest) t r) :
    ∃ v, (∃ e, t = ⟨.beginDelete (o :: rest), ()⟩ :: (v ++ [⟨.cancel, ()⟩]) ∧
        Run (deleterDelete config o rest) v (.error e) ∧
        r = .error (.context "delete worker has been cancelled with error." e)) ∨
      ∃ result, t = ⟨.beginDelete (o :: rest), ()⟩ :: v ∧
        Run (deleterDelete config o rest) v (.ok result) ∧ r = .ok result := by
  unfold callDeleter at h
  obtain ⟨_, u, rfl, hu⟩ := run_ask_bind.mp h
  obtain ⟨v, x, w, rfl, hv, hw⟩ := run_attempt_bind.mp hu
  rcases x with e | result
  · obtain ⟨_, _, rfl, rfl, rfl⟩ := run_ask_bind.mp hw
    exact ⟨v, .inl ⟨e, rfl, hv, rfl⟩⟩
  · obtain ⟨rfl, rfl⟩ := hw
    exact ⟨v, .inr ⟨result, by simp, hv, rfl⟩⟩

theorem run_deleteBufferedObjects {stage : Stage} {b : List S3Object} {u : Trace}
    {r : Except Error (List S3Object)} (h : Run (deleteBufferedObjects stage b) u r) :
    Flush stage b u r := by
  unfold deleteBufferedObjects at h
  rcases b with - | ⟨o, rest⟩
  · obtain ⟨rfl, rfl⟩ := h
    exact .empty rfl
  dsimp only at h
  obtain ⟨c, u, rfl, hu⟩ := run_ask_bind.mp h
  cases c with
  | true =>
    obtain ⟨rfl, rfl⟩ := hu
    exact .cancelled (by simp)
  | false =>
    simp only [Bool.false_eq_true, if_false] at hu
    unfold batchResult at hu
    by_cases hdry : stage.config.dryRun
    · simp only [hdry, if_true] at hu
      obtain ⟨y, hy, rfl⟩ := run_map_result hu
      exact .simulated (by simp) hdry hy
    · simp only [hdry] at hu
      rw [Bool.not_eq_true] at hdry
      rcases run_fallible_bind.mp hu with ⟨e, hcall, rfl⟩ | ⟨v, result, w, rfl, hcall, hw⟩
      · obtain ⟨v, ⟨e, rfl, hv, he⟩ | ⟨result, -, -, he⟩⟩ := run_callDeleter hcall
        · cases he
          exact .failed rfl hdry hv
        · cases he
      · obtain ⟨v, ⟨e, -, -, he⟩ | ⟨result, rfl, hv, he⟩⟩ := run_callDeleter hcall
        · cases he
        · cases he
          obtain ⟨y, hy, rfl⟩ := run_map_result hw
          exact .deleted rfl hdry hv hy

/-- The other way round, what `Flush` lists are runs. -/
theorem Flush.run {stage : Stage} {b : List S3Object} {u : Trace}
    {r : Except Error (List S3Object)} (h : Flush stage b u r) :
    Run (deleteBufferedObjects stage b) u r := by
  have finished : ∀ {result : DeleteResult} {w : Trace} {y : Except Error Unit},
      Run (finishBatch stage b result) w y →
      Run (do finishBatch stage b result
              return [] : Act (List S3Object)) w (y.map fun _ => []) := by
    intro result w y hw
    rcases y with e | _
    · exact run_fallible_bind.mpr (.inl ⟨e, hw, rfl⟩)
    · exact run_fallible_bind.mpr (.inr ⟨w, (), [], by simp, hw, rfl, rfl⟩)
  cases h with
  | empty h =>
    subst h
    exact ⟨rfl, rfl⟩
  | cancelled h =>
    obtain ⟨o, rest, rfl⟩ := List.exists_cons_of_ne_nil h
    exact run_ask_bind.mpr ⟨true, [], rfl, rfl, rfl⟩
  | @simulated w y h dry finish =>
    obtain ⟨o, rest, rfl⟩ := List.exists_cons_of_ne_nil h
    refine run_ask_bind.mpr ⟨false, w, rfl, ?_⟩
    simp only [Bool.false_eq_true, if_false, batchResult, dry, if_true]
    exact run_fallible_bind.mpr (.inr ⟨[], _, w, rfl, ⟨rfl, rfl⟩, finished finish⟩)
  | @failed o rest v e h wet delete =>
    subst h
    refine run_ask_bind.mpr ⟨false, _, rfl, ?_⟩
    simp only [Bool.false_eq_true, if_false, batchResult, wet]
    refine run_fallible_bind.mpr (.inl ⟨_, ?_, rfl⟩)
    refine run_ask_bind.mpr ⟨(), _, rfl, run_attempt_bind.mpr ⟨v, _, _, rfl, delete, ?_⟩⟩
    exact run_ask_bind.mpr ⟨(), [], rfl, rfl, rfl⟩
  | @deleted o rest v w result y h wet delete finish =>
    subst h
    refine run_ask_bind.mpr ⟨false, _, rfl, ?_⟩
    simp only [Bool.false_eq_true, if_false, batchResult, wet]
    refine run_fallible_bind.mpr (.inr ⟨⟨.beginDelete (o :: rest), ()⟩ :: v, result, w, rfl, ?_,
      finished finish⟩)
    exact run_ask_bind.mpr ⟨(), _, rfl, run_attempt_bind.mpr ⟨v, _, [], by simp, delete, rfl, rfl⟩⟩

/-! ### One object -/

/-- The worker's filters, one after the other: `true` rejects the object. -/
def screen (config : Config) (object : S3Object) : Act Bool := do
  if ← applyHeadObjectFilters config object then return true
  applyTagFilters config object

theorem screen_straight (config : Config) (o : S3Object) :
    Straight (fun op => op.isScreening) (screen config o) :=
  (screens_isScreening.applyHeadObjectFilters config o).fallible_bind fun b => by
    split_ifs
    · trivial
    · exact screens_isScreening.applyTagFilters config o

/-- **The worker's filters decide `workerSelects`.** -/
theorem run_screen {config : Config} {o : S3Object} {A : Answers} {u : Trace}
    {r : Except Error Bool} (h : Run (screen config o) u r) (hu : ∀ e ∈ u, A.agrees e) :
    Decides o (workerSelects config A o) A.Known u r :=
  Decides.andThen (fun _ _ h hu => run_applyHeadObjectFilters h hu)
    (fun _ _ h hu => run_applyTagFilters h hu) h hu

/-- The ticket `k` is within `--max-delete`. -/
def withinLimit (config : Config) (k : Nat) : Bool :=
  match config.maxDelete with
  | none => true
  | some maxDelete => decide (k + 1 ≤ maxDelete)

/-- What the worker does about an object over the limit, after its flush. -/
inductive OverLimit (o : S3Object) : Trace → Prop
  | mk {w : Trace} (notices : ∀ e ∈ w, e.1.isNotice) (fires : w.flatMap fired = [maxDeleteEvent o]) :
      OverLimit o (⟨.sendStats (.deleteError o.key), ()⟩ :: ⟨.setWarning, ()⟩ ::
        (w ++ [⟨.cancel, ()⟩]))

/-- The runs of `process_object` with the buffer `b`. -/
inductive Process (stage : Stage) (b : List S3Object) (o : S3Object) :
    Trace → Except Error (List S3Object) → Prop
  | failed {w : Trace} {e : Error} (screened : Run (screen stage.config o) w (.error e)) :
      Process stage b o w (.error e)
  | skipped {w : Trace} (screened : Run (screen stage.config o) w (.ok true)) :
      Process stage b o w (.ok b)
  | buffered {w : Trace} {k : Nat} (screened : Run (screen stage.config o) w (.ok false))
      (within : withinLimit stage.config k)
      (room : (b ++ [o]).length < effectiveBatchSize stage.config) :
      Process stage b o (w ++ [⟨.fetchAdd, k⟩]) (.ok (b ++ [o]))
  | flushed {w z : Trace} {k : Nat} {r : Except Error (List S3Object)}
      (screened : Run (screen stage.config o) w (.ok false))
      (within : withinLimit stage.config k) (flush : Flush stage (b ++ [o]) z r) :
      Process stage b o (w ++ ⟨.fetchAdd, k⟩ :: z) r
  | overFailed {w z : Trace} {k : Nat} {e : Error}
      (screened : Run (screen stage.config o) w (.ok false))
      (exceeded : withinLimit stage.config k = false) (flush : Flush stage b z (.error e)) :
      Process stage b o (w ++ ⟨.fetchAdd, k⟩ :: z) (.error e)
  | exceeded {w z y : Trace} {k : Nat} {b' : List S3Object}
      (screened : Run (screen stage.config o) w (.ok false))
      (exceeded : withinLimit stage.config k = false) (flush : Flush stage b z (.ok b'))
      (stop : OverLimit o y) : Process stage b o (w ++ ⟨.fetchAdd, k⟩ :: (z ++ y)) (.ok b')

theorem run_overLimit {config : Config} {o : S3Object} {b : List S3Object} {t : Trace}
    {r : Except Error (Bool × List S3Object)}
    (h : Run (do sendStats (.deleteError o.key)
                 setWarning
                 triggerEvent config.eventManager (maxDeleteEvent o)
                 cancel
                 return (true, b) : Act (Bool × List S3Object)) t r) :
    OverLimit o t ∧ r = .ok (true, b) := by
  obtain ⟨_, _, rfl, h₁⟩ := run_ask_bind.mp h
  obtain ⟨_, _, rfl, h₂⟩ := run_ask_bind.mp h₁
  obtain ⟨w, _, _, rfl, hw, h₃⟩ := run_lift_bind.mp h₂
  obtain ⟨_, _, rfl, rfl, rfl⟩ := run_ask_bind.mp h₃
  exact ⟨.mk (hw.uses (triggerEvent_straight ..).uses) (fired_triggerEvent hw), rfl⟩

/-- The runs of `check_max_delete`. -/
theorem run_checkMaxDelete {stage : Stage} {b : List S3Object} {o : S3Object} {t : Trace}
    {r : Except Error (Bool × List S3Object)} (h : Run (checkMaxDelete stage b o) t r) :
    ∃ k, (withinLimit stage.config k ∧ t = [⟨.fetchAdd, k⟩] ∧ r = .ok (false, b)) ∨
      (withinLimit stage.config k = false ∧ ∃ z, (∃ e, t = ⟨.fetchAdd, k⟩ :: z ∧
          Flush stage b z (.error e) ∧ r = .error e) ∨
        ∃ b' y, t = ⟨.fetchAdd, k⟩ :: (z ++ y) ∧ Flush stage b z (.ok b') ∧ OverLimit o y ∧
          r = .ok (true, b')) := by
  unfold checkMaxDelete at h
  obtain ⟨k, t, rfl, ht⟩ := run_ask_bind.mp h
  refine ⟨k, ?_⟩
  dsimp only at ht
  rcases hm : stage.config.maxDelete with - | m
  · simp only [hm] at ht
    obtain ⟨rfl, rfl⟩ := ht
    exact .inl ⟨by simp [withinLimit, hm], rfl, rfl⟩
  · simp only [hm] at ht
    split_ifs at ht with hk
    · obtain ⟨rfl, rfl⟩ := ht
      exact .inl ⟨by simpa [withinLimit, hm] using hk, rfl, rfl⟩
    · refine .inr ⟨by simpa [withinLimit, hm] using hk, ?_⟩
      rcases run_fallible_bind.mp ht with ⟨e, hz, rfl⟩ | ⟨z, b', y, rfl, hz, hy⟩
      · exact ⟨t, .inl ⟨e, rfl, run_deleteBufferedObjects hz, rfl⟩⟩
      · obtain ⟨hover, rfl⟩ := run_overLimit hy
        exact ⟨z, .inr ⟨b', y, rfl, run_deleteBufferedObjects hz, hover, rfl⟩⟩

/-- `process_object` for an object that passed the filters. -/
def admitObject (stage : Stage) (buffer : List S3Object) (object : S3Object) :
    Act (List S3Object) := do
  let (exceeded, buffer) ← checkMaxDelete stage buffer object
  if exceeded then return buffer
  bufferAndDelete stage buffer object

/-- The runs of `process_object`. -/
theorem run_processObject {stage : Stage} {b : List S3Object} {o : S3Object} {t : Trace}
    {r : Except Error (List S3Object)} (h : Run (processObject stage b o) t r) :
    Process stage b o t r := by
  have hscreen : ∃ x : Except Error Bool, ∃ w v, t = w ++ v ∧ Run (screen stage.config o) w x ∧
      ((∃ e, x = .error e ∧ v = [] ∧ r = .error e) ∨ (x = .ok true ∧ v = [] ∧ r = .ok b) ∨
        x = .ok false ∧ Run (admitObject stage b o) v r) := by
    unfold processObject at h
    rcases run_fallible_bind.mp h with ⟨e, hx, rfl⟩ | ⟨t₁, x, t₂, rfl, hx, h⟩
    · exact ⟨_, t, [], by simp, run_fallible_bind.mpr (.inl ⟨e, hx, rfl⟩), .inl ⟨e, rfl, rfl, rfl⟩⟩
    cases x with
    | true =>
      obtain ⟨rfl, rfl⟩ := h
      exact ⟨.ok true, t₁, [], rfl,
        run_fallible_bind.mpr (.inr ⟨t₁, true, [], by simp, hx, rfl, rfl⟩), .inr (.inl ⟨rfl, rfl, rfl⟩)⟩
    | false =>
      simp only [Bool.false_eq_true, if_false] at h
      rcases run_fallible_bind.mp h with ⟨e, hy, rfl⟩ | ⟨t₃, y, t₄, rfl, hy, h⟩
      · exact ⟨_, t₁ ++ t₂, [], by simp,
          run_fallible_bind.mpr (.inr ⟨t₁, false, t₂, rfl, hx, hy⟩), .inl ⟨e, rfl, rfl, rfl⟩⟩
      have hs : Run (screen stage.config o) (t₁ ++ t₃) (.ok y) :=
        run_fallible_bind.mpr (.inr ⟨t₁, false, t₃, rfl, hx, hy⟩)
      cases y with
      | true =>
        obtain ⟨rfl, rfl⟩ := h
        exact ⟨_, t₁ ++ t₃, [], by simp, hs, .inr (.inl ⟨rfl, rfl, rfl⟩)⟩
      | false => exact ⟨_, t₁ ++ t₃, t₄, by simp, hs, .inr (.inr ⟨rfl, h⟩)⟩
  obtain ⟨x, w, v, rfl, hw, ⟨e, rfl, rfl, rfl⟩ | ⟨rfl, rfl, rfl⟩ | ⟨rfl, h⟩⟩ := hscreen
  · simpa using Process.failed hw
  · simpa using Process.skipped hw
  · rcases run_fallible_bind.mp h with ⟨e, hc, rfl⟩ | ⟨t₁, x, t₂, rfl, hc, h⟩
    · obtain ⟨k, ⟨-, -, he⟩ | ⟨hk, z, ⟨e, rfl, hz, he⟩ | ⟨_, _, -, -, -, he⟩⟩⟩ := run_checkMaxDelete hc
      · cases he
      · cases he
        exact .overFailed hw hk hz
      · cases he
    · obtain ⟨k, ⟨hk, rfl, he⟩ | ⟨hk, z, ⟨e, rfl, hz, he⟩ | ⟨b', y, rfl, hz, hy, he⟩⟩⟩ :=
        run_checkMaxDelete hc
      · cases he
        simp only [Bool.false_eq_true, if_false] at h
        unfold bufferAndDelete at h
        dsimp only at h
        split_ifs at h with hfull
        · exact .flushed hw hk (run_deleteBufferedObjects h)
        · obtain ⟨rfl, rfl⟩ := h
          exact .buffered hw hk (by omega)
      · cases he
      · cases he
        obtain ⟨rfl, rfl⟩ := h
        simpa using Process.exceeded hw hk hz hy

/-! ### One turn -/

/-- How a turn goes on after `process_object` returned `r`. -/
inductive TurnEnd : Except Error (List S3Object) → Trace → List S3Object ⊕ Except Error Unit → Prop
  | failed {e : Error} : TurnEnd (.error e) [] (.inr (.error e))
  | cancelled {b : List S3Object} : TurnEnd (.ok b) [⟨.isCancelled, true⟩] (.inr (.ok ()))
  | next {b : List S3Object} : TurnEnd (.ok b) [⟨.isCancelled, false⟩] (.inl b)

/-- The turns of `receive_and_delete` with the buffer `b`. -/
inductive WorkerTurn (stage : Stage) (b : List S3Object) :
    Trace → List S3Object ⊕ Except Error Unit → Prop
  | cancelled : WorkerTurn stage b [⟨.select stage.receiver, .cancelled⟩] (.inr (.ok ()))
  | lost : WorkerTurn stage b
      [⟨.select stage.receiver, .received none⟩, ⟨.isClosed stage.receiver, false⟩] (.inr (.ok ()))
  | drained {z : Trace} {r : Except Error (List S3Object)} (flush : Flush stage b z r) :
      WorkerTurn stage b
        (⟨.select stage.receiver, .received none⟩ :: ⟨.isClosed stage.receiver, true⟩ :: z)
        (.inr (r.map fun _ => ()))
  | received {o : S3Object} {p v : Trace} {r : Except Error (List S3Object)}
      {x : List S3Object ⊕ Except Error Unit} (process : Process stage b o p r)
      (rest : TurnEnd r v x) :
      WorkerTurn stage b (⟨.select stage.receiver, .received (some o)⟩ :: (p ++ v)) x

theorem run_workerTurn {stage : Stage} {b : List S3Object} {u : Trace}
    {x : List S3Object ⊕ Except Error Unit} (h : Turn (workerTurn stage) b u x) :
    WorkerTurn stage b u x := by
  unfold Turn workerTurn at h
  obtain ⟨sel, u, rfl, hu⟩ := run_ask_bind.mp h
  rcases sel with (- | o) | -
  · obtain ⟨c, u, rfl, hc⟩ := run_ask_bind.mp hu
    cases c with
    | true =>
      simp only [if_true] at hc
      rcases run_fallible_bind.mp hc with ⟨e, hz, hx⟩ | ⟨z, b', _, rfl, hz, rfl, hx⟩
      · rcases x with _ | (_ | _) <;> cases hx
        exact .drained (run_deleteBufferedObjects hz)
      · rcases x with _ | (_ | _) <;> cases hx
        have hturn := WorkerTurn.drained (run_deleteBufferedObjects hz)
        rwa [List.append_nil]
    | false =>
      obtain ⟨rfl, hx⟩ := hc
      rcases x with _ | (_ | _) <;> cases hx
      exact .lost
  · rcases run_fallible_bind.mp hu with ⟨e, hp, hx⟩ | ⟨p, b', v, rfl, hp, hv⟩
    · rcases x with _ | (_ | _) <;> cases hx
      simpa using WorkerTurn.received (run_processObject hp) .failed
    · obtain ⟨c, _, rfl, hc⟩ := run_ask_bind.mp hv
      cases c with
      | true =>
        obtain ⟨rfl, hx⟩ := hc
        rcases x with _ | (_ | _) <;> cases hx
        exact .received (run_processObject hp) .cancelled
      | false =>
        obtain ⟨rfl, hx⟩ := hc
        rcases x with _ | (_ | _) <;> cases hx
        exact .received (run_processObject hp) .next
  · obtain ⟨rfl, hx⟩ := hu
    rcases x with _ | (_ | _) <;> cases hx
    exact .cancelled

end S3rm
