/-
S3rm/Deleter/Entries.lean

What the code enters in the three accounts of a run: the statistics it sends,
the events it triggers and the increments of the report.  `entries t` reads them
off a trace; for every part of a filter or a worker a lemma says which entries
its runs make.
-/
import S3rm.Deleter.Results

namespace S3rm

open Conc Conc.Prog

variable {config : Config} {stage : Stage} {o : S3Object} {rest b : List S3Object} {t u : Trace}

/-! ### Entries -/

/-- Entries in the three accounts. -/
@[ext]
structure Entries where
  stats : List DeletionStatistics := []
  events : List EventData := []
  counts : List (Option Nat) := []

instance : Append Entries where
  append x y := ⟨x.stats ++ y.stats, x.events ++ y.events, x.counts ++ y.counts⟩

/-- What a trace enters in the accounts. -/
def entries (t : Trace) : Entries := ⟨t.flatMap noted, t.flatMap fired, t.flatMap counted⟩

section entries

variable (x y z : Entries)

@[simp] theorem Entries.stats_append : (x ++ y).stats = x.stats ++ y.stats := rfl
@[simp] theorem Entries.events_append : (x ++ y).events = x.events ++ y.events := rfl
@[simp] theorem Entries.counts_append : (x ++ y).counts = x.counts ++ y.counts := rfl
@[simp] theorem Entries.nil_append : ({} : Entries) ++ x = x := by ext1 <;> simp
@[simp] theorem Entries.append_nil : x ++ ({} : Entries) = x := by ext1 <;> simp
@[simp] theorem entries_nil : entries [] = {} := rfl

@[simp] theorem entries_append (t u : Trace) : entries (t ++ u) = entries t ++ entries u := by
  ext1 <;> simp [entries]

theorem entries_cons (e : Event) (t : Trace) : entries (e :: t) = entries [e] ++ entries t :=
  entries_append [e] t

end entries

/-- The operations that make entries. -/
def Op.isEntry : Op → Bool
  | .sendStats _ | .updatePipelineStats _ | .incrementDeleted _ | .incrementFailed => true
  | _ => false

/-- An operation that makes none. -/
theorem entries_quiet {e : Event} (he : e.1.isEntry = false) : entries (e :: t) = entries t := by
  rcases e with ⟨o, r⟩
  cases o <;> first | rfl | cases he

theorem entries_of_quiet (h : ∀ e ∈ t, e.1.isEntry = false) : entries t = {} := by
  induction t with
  | nil => rfl
  | cons e t ih =>
    rw [entries_quiet (h e List.mem_cons_self)]
    exact ih fun x hx => h x (List.mem_cons_of_mem e hx)

/-! ### Events and filters -/

theorem entries_triggerEvent {manager : EventManager} {event : EventData} {a : Unit}
    (h : (triggerEvent manager event).Run t a) : entries t = { events := [event] } := by
  have hcounts : t.flatMap counted = [] := by
    refine flatMap_eq_nil_of_straight h (triggerEvent_straight _ _) ?_
    rintro ⟨o, r⟩ ho
    cases o <;> first | rfl | cases ho
  ext1
  · exact (counted_triggerEvent h).noted
  · exact fired_triggerEvent h
  · exact hcounts

/-- The entries of an event that is triggered only for a registered callback. -/
def eventIfRegistered (config : Config) (event : EventData) : Entries where
  events := if config.eventManager.callbackRegistered then [event] else []

theorem entries_triggerEventIfRegistered {event : EventData} {a : Unit}
    (h : (triggerEventIfRegistered config.eventManager event).Run t a) :
    entries t = eventIfRegistered config event := by
  unfold triggerEventIfRegistered at h
  unfold eventIfRegistered
  split_ifs at h ⊢
  · exact entries_triggerEvent h
  · obtain ⟨rfl, -⟩ := h
    rfl

/-- The entries of an object that a filter rejects. -/
def skipEntries (config : Config) (o : S3Object) (message : String) : Entries :=
  { stats := [.deleteSkip o.key] } ++ eventIfRegistered config (filteredEvent o message)

theorem entries_emitFilterSkip {name : String} {a : Unit} (h : (emitFilterSkip config o name).Run t a) :
    entries t = skipEntries config o ("Object filtered by " ++ name) := by
  obtain ⟨_, u, rfl, hu⟩ := run_perform_bind.mp h
  rw [entries_cons, entries_triggerEventIfRegistered hu]
  rfl

/-- The calls that S3 answered with "no such object". -/
def missed : Event → List Unit
  | ⟨.headObject _ _, .error e⟩ | ⟨.getObjectTagging _ _, .error e⟩ =>
    if e.isNotFoundError then [()] else []
  | _ => []

/-- The calls that can be answered so. -/
def Op.isLookup : Op → Bool
  | .headObject _ _ | .getObjectTagging _ _ => true
  | _ => false

theorem missed_quiet {e : Event} (he : e.1.isLookup = false) : missed e = [] := by
  rcases e with ⟨o, r⟩
  cases o <;> first | rfl | cases he

theorem missed_emitFilterSkip {name : String} {a : Unit}
    (h : (emitFilterSkip config o name).Run t a) : t.flatMap missed = [] :=
  flatMap_eq_nil_of_straight (φ := fun op => op.isLookup = false) h
    ⟨rfl, fun _ => OrdinaryEvents.triggerEventIfRegistered ⟨fun _ _ => rfl, fun _ _ => rfl⟩ _ rfl⟩
    fun _ => missed_quiet

/-- The entries of the worker's filters: none for an object that gets through or
fails, a skip for one that is rejected, and half a skip for one that is gone. -/
inductive Screened (config : Config) (o : S3Object) (t : Trace) : Except Error Bool → Prop
  | passed (none : entries t = {}) (met : t.flatMap missed = []) : Screened config o t (.ok false)
  | rejected {message : String} (skip : entries t = skipEntries config o message)
      (met : t.flatMap missed = []) : Screened config o t (.ok true)
  | missing (half : entries t = { stats := [.deleteSkip o.key] }) (saw : t.flatMap missed = [()]) :
      Screened config o t (.ok true)
  | failed {e : Error} (none : entries t = {}) (met : t.flatMap missed = []) :
      Screened config o t (.error e)

theorem Screened.append {r : Except Error Bool} (h : Screened config o u r) (ht : entries t = {})
    (hmet : t.flatMap missed = []) : Screened config o (t ++ u) r := by
  have hentries : entries (t ++ u) = entries u := by rw [entries_append, ht, Entries.nil_append]
  have hmissed : (t ++ u).flatMap missed = u.flatMap missed := by
    rw [List.flatMap_append, hmet, List.nil_append]
  cases h with
  | passed none met => exact .passed (hentries.trans none) (hmissed.trans met)
  | rejected skip met => exact .rejected (hentries.trans skip) (hmissed.trans met)
  | missing half saw => exact .missing (hentries.trans half) (hmissed.trans saw)
  | failed none met => exact .failed (hentries.trans none) (hmissed.trans met)

/-- One filter after another. -/
theorem Screened.andThen {x y : Act Bool} {r : Except Error Bool}
    (hx : ∀ t r, Run x t r → Screened config o t r) (hy : ∀ t r, Run y t r → Screened config o t r)
    (h : Run (do if ← x then return true
                 y : Act Bool) t r) : Screened config o t r := by
  rcases run_fallible_bind.mp h with ⟨e, hv, rfl⟩ | ⟨v, c, w, rfl, hv, hw⟩
  · exact hx t _ hv
  · have hfirst := hx v _ hv
    cases c with
    | true =>
      obtain ⟨rfl, rfl⟩ := hw
      rwa [List.append_nil]
    | false =>
      cases hfirst with
      | passed none met => exact (hy w _ hw).append none met

theorem screened_skipByRegex {regex : Option Regex} {value : Option String} {name : String}
    {isInclude : Bool} {r : Except Error Bool}
    (h : Run (skipByRegex config o regex value name isInclude) t r) : Screened config o t r := by
  unfold skipByRegex at h
  rcases run_ofResult_bind.mp h with ⟨e, -, rfl, rfl⟩ | ⟨c, -, hrest⟩
  · exact .failed rfl rfl
  · cases c with
    | true =>
      obtain ⟨rfl, rfl⟩ := hrest
      exact .passed rfl rfl
    | false =>
      obtain ⟨v, _, _, rfl, hv, rfl, rfl⟩ := run_lift_bind.mp hrest
      rw [List.append_nil]
      exact .rejected (entries_emitFilterSkip hv) (missed_emitFilterSkip hv)

/-- An error of HeadObject or GetObjectTagging, with the call that got it. -/
theorem screened_handleApiError {e : Error} {operation : String} {r : Except Error Bool}
    (h : Run (handleApiError e o.key operation) t r) {call : Event} (hcall : call.1.isEntry = false)
    (hsaw : missed call = if e.isNotFoundError then [()] else []) :
    Screened config o (call :: t) r := by
  unfold handleApiError at h
  split_ifs at h hsaw with hnotFound
  · obtain ⟨_, _, rfl, rfl, rfl⟩ := run_ask_bind.mp h
    refine .missing ?_ (by rw [List.flatMap_cons, hsaw]; rfl)
    rw [entries_quiet hcall]
    rfl
  · obtain ⟨_, _, rfl, rfl, rfl⟩ := run_ask_bind.mp h
    refine .failed ?_ (by rw [List.flatMap_cons, hsaw]; rfl)
    rw [entries_quiet hcall]
    rfl

theorem screened_applyHeadObjectFilters {r : Except Error Bool}
    (h : Run (applyHeadObjectFilters config o) t r) : Screened config o t r := by
  unfold applyHeadObjectFilters at h
  dsimp only at h
  split_ifs at h
  · obtain ⟨rfl, rfl⟩ := h
    exact .passed rfl rfl
  · obtain ⟨v, _, _, rfl, hv, rfl, rfl⟩ := run_lift_bind.mp h
    rw [List.append_nil]
    exact .rejected (entries_emitFilterSkip hv) (missed_emitFilterSkip hv)
  · obtain ⟨v, a, w, rfl, hv, hw⟩ := run_attempt_bind.mp h
    obtain rfl := run_perform.mp hv
    rcases a with e | output
    · exact screened_handleApiError hw rfl rfl
    · refine Screened.append (.andThen (fun _ _ => screened_skipByRegex) (fun _ _ h => .andThen
        (fun _ _ => screened_skipByRegex) (fun _ _ h => .andThen (fun _ _ => screened_skipByRegex)
          (fun _ _ => screened_skipByRegex) h) h) hw) rfl rfl

theorem screened_applyTagFilters {r : Except Error Bool} (h : Run (applyTagFilters config o) t r) :
    Screened config o t r := by
  unfold applyTagFilters at h
  dsimp only at h
  split_ifs at h
  · obtain ⟨rfl, rfl⟩ := h
    exact .passed rfl rfl
  · obtain ⟨v, _, _, rfl, hv, rfl, rfl⟩ := run_lift_bind.mp h
    rw [List.append_nil]
    exact .rejected (entries_emitFilterSkip hv) (missed_emitFilterSkip hv)
  · obtain ⟨v, a, w, rfl, hv, hw⟩ := run_attempt_bind.mp h
    obtain rfl := run_perform.mp hv
    rcases a with e | output
    · exact screened_handleApiError hw rfl rfl
    · exact Screened.append (.andThen (fun _ _ => screened_skipByRegex)
        (fun _ _ => screened_skipByRegex) hw) rfl rfl

/-- **The entries of the worker's filters.** -/
theorem run_screen_entries {r : Except Error Bool} (h : Run (screen config o) t r) :
    Screened config o t r :=
  Screened.andThen (fun _ _ => screened_applyHeadObjectFilters)
    (fun _ _ => screened_applyTagFilters) h

/-! ### Deletions -/

/-- The backends make entries only in the statistics. -/
theorem entries_backend (h : ∀ e ∈ t, e.1.isBackend) : entries t = { stats := t.flatMap noted } := by
  have hnone : ∀ {β : Type} {f : Event → List β}, (∀ e : Event, e.1.isBackend → f e = []) →
      t.flatMap f = [] := fun hf => List.flatMap_eq_nil_iff.mpr fun e he => hf e (h e he)
  ext1
  · rfl
  · refine hnone ?_
    rintro ⟨o, r⟩ ho
    cases o <;> first | rfl | cases ho
  · refine hnone ?_
    rintro ⟨o, r⟩ ho
    cases o <;> first | rfl | cases ho

/-- A backend that returns a result has counted its errors. -/
theorem entries_deleterDelete {result : DeleteResult}
    (h : Run (deleterDelete config o rest) t (.ok result)) :
    entries t = { stats := result.errorStats } := by
  rw [entries_backend (h.uses (deleterDelete_straight ..).uses),
    (run_deleterDelete_result h).1.noted]

/-- A list that fits in one chunk. -/
theorem chunks_of_length_le {α : Type} {n : Nat} {x : α} {xs : List α} (h : (x :: xs).length ≤ n) :
    chunks n (x :: xs) = [x :: xs] := by
  rw [chunks, if_neg (by simp at h; omega), List.length_cons, chunksOf, List.take_of_length_le h,
    List.drop_of_length_le h]
  cases xs.length <;> rfl

/-- A backend that fails has counted nothing, if its batch fits in one request. -/
theorem entries_deleterDelete_error {e : Error} (hlen : (o :: rest).length ≤ effectiveBatchSize config)
    (h : Run (deleterDelete config o rest) t (.error e)) : entries t = {} := by
  unfold deleterDelete at h
  split_ifs at h with hsize
  · obtain ⟨_, he, -⟩ := run_singleDelete h
    cases he
  · rw [effectiveBatchSize, if_neg hsize] at hlen
    obtain ⟨runs, -, ⟨he, -⟩ | ⟨chunk, left, _, -, hchunks, rfl⟩⟩ := run_batchDelete h
    · cases he
    · rw [batchChunks, chunks_of_length_le hlen] at hchunks
      obtain rfl : runs = [] := by
        have hlength := congrArg List.length hchunks
        simp only [List.length_append, List.length_map, List.length_cons, List.length_nil] at hlength
        exact List.length_eq_zero_iff.mp (by omega)
      rfl

/-- The entries of a deleted key. -/
def deletedEntries (config : Config) (batch : List S3Object) (dk : DeletedKey) : Entries where
  stats := deletedStats batch dk
  events := [completeEvent config batch dk]
  counts := [some (deletedSize batch dk)]

/-- The entries of a failed key, less its statistic. -/
def failedEntries (config : Config) (fk : FailedKey) : Entries where
  events := [failedEvent config fk]
  counts := [none]

/-- The entries that follow a result. -/
def resultEntries (config : Config) (batch : List S3Object) (result : DeleteResult) : Entries where
  stats := completeStats batch result
  events := result.deleted.map (completeEvent config batch) ++ result.failed.map (failedEvent config)
  counts := result.deleted.map (fun dk => some (deletedSize batch dk)) ++
    result.failed.map fun _ => none

theorem entries_emitDeleted {dk : DeletedKey} {a : Unit} (h : Run (emitDeleted config b dk) t a) :
    entries t = deletedEntries config b dk := by
  obtain ⟨_, t₁, rfl, h₁⟩ := run_perform_bind.mp h
  obtain ⟨_, t₂, rfl, h₂⟩ := run_perform_bind.mp h₁
  obtain ⟨_, t₃, rfl, h₃⟩ := run_perform_bind.mp h₂
  rw [entries_cons, entries_cons _ (_ :: t₃), entries_cons _ t₃, entries_triggerEvent h₃]
  rfl

theorem entries_emitFailed {fk : FailedKey} {a : Unit} (h : Run (emitFailed config fk) t a) :
    entries t = failedEntries config fk := by
  obtain ⟨_, t₁, rfl, h₁⟩ := run_perform_bind.mp h
  rw [entries_cons, entries_triggerEvent h₁]
  rfl

theorem entries_forM {α : Type} {f : α → Task Unit} {x : α → Entries}
    (hf : ∀ {y t a}, Run (f y) t a → entries t = x y) {ys : List α} {a : Unit}
    (h : (ys.forM f).Run t a) : entries t = ⟨ys.flatMap fun y => (x y).stats,
      ys.flatMap fun y => (x y).events, ys.flatMap fun y => (x y).counts⟩ := by
  induction ys generalizing t with
  | nil =>
    obtain ⟨rfl, -⟩ := h
    rfl
  | cons y ys ih =>
    obtain ⟨u, _, v, rfl, hu, hv⟩ := run_bind.mp h
    rw [entries_append, hf hu, ih hv]
    rfl

theorem entries_emitResult {result : DeleteResult} {a : Unit}
    (h : (emitResult config b result).Run t a) : entries t = resultEntries config b result := by
  obtain ⟨u, _, v, rfl, hu, hv⟩ := run_bind.mp h
  rw [entries_append, entries_forM entries_emitDeleted hu, entries_forM entries_emitFailed hv]
  ext1 <;> simp [resultEntries, deletedEntries, failedEntries, completeStats, List.map_eq_flatMap]

theorem entries_forwardBatch {r : Except Error Unit} (h : Run (forwardBatch stage b) t r) :
    entries t = {} := by
  refine entries_of_quiet fun e he => ?_
  rcases h.uses (forwardBatch_straight stage b).uses e he with ⟨o, heq⟩ | heq
  · rw [heq]
    rfl
  · rw [heq]
    rfl

theorem entries_finishBatch {result : DeleteResult} {r : Except Error Unit}
    (h : Run (finishBatch stage b result) t r) : entries t = resultEntries stage.config b result := by
  unfold finishBatch at h
  obtain ⟨u, _, v, rfl, hu, hv⟩ := run_lift_bind.mp h
  suffices hrest : entries v = {} by rw [entries_append, entries_emitResult hu, hrest, Entries.append_nil]
  split_ifs at hv
  · exact entries_forwardBatch hv
  · obtain ⟨_, w, rfl, hw⟩ := run_ask_bind.mp hv
    obtain ⟨_, hcancel, -⟩ := run_fallible_lift.mp hw
    obtain rfl := run_perform.mp hcancel
    rfl
  · obtain ⟨_, w, rfl, hw⟩ := run_ask_bind.mp hv
    rw [entries_quiet rfl]
    exact entries_forwardBatch hw

/-- The entries of a batch with its result. -/
def batchEntries (config : Config) (batch : List S3Object) (result : DeleteResult) : Entries :=
  { stats := result.errorStats } ++ resultEntries config batch result

theorem batchEntries_dryRun (config : Config) (batch : List S3Object) :
    batchEntries config batch (dryRunResult batch) =
      resultEntries config batch (dryRunResult batch) := Entries.nil_append _

/-- **The entries of a flush**: those of the result about its batch, if it came
to a result. -/
inductive Flushed (config : Config) (b : List S3Object) (t : Trace) : Prop
  | nothing (none : entries t = {})
  | result {result : DeleteResult} (all : entries t = batchEntries config b result)

theorem Flush.entered {r : Except Error (List S3Object)} (h : Flush stage b t r)
    (hlen : b.length ≤ effectiveBatchSize stage.config) : Flushed stage.config b t := by
  cases h with
  | empty => exact .nothing rfl
  | cancelled => exact .nothing rfl
  | simulated _ _ finish =>
    refine .result (?_ : entries _ = batchEntries _ _ (dryRunResult b))
    rw [entries_quiet rfl, entries_finishBatch finish, batchEntries_dryRun]
  | failed h _ delete =>
    subst h
    refine .nothing ?_
    rw [entries_quiet rfl, entries_quiet rfl, entries_append, entries_deleterDelete_error hlen delete]
    rfl
  | @deleted _ _ _ _ result _ _ _ delete finish =>
    refine .result (?_ : entries _ = batchEntries _ _ result)
    rw [entries_quiet rfl, entries_quiet rfl, entries_append, entries_deleterDelete delete,
      entries_finishBatch finish, batchEntries]

/-- The entries of an object over the limit. -/
def overEntries (o : S3Object) : Entries :=
  { stats := [.deleteError o.key], events := [maxDeleteEvent o] }

theorem OverLimit.entered (h : OverLimit o t) : entries t = overEntries o := by
  obtain @⟨w, notices, fires⟩ := h
  have hw : ∀ e ∈ w, noted e = [] ∧ counted e = [] := by
    intro e he
    refine ⟨noted_notice (notices e he), ?_⟩
    have hnotice := notices e he
    rcases e with ⟨op, r⟩
    cases op <;> first | rfl | cases hnotice
  have hentries : entries w = { events := [maxDeleteEvent o] } := by
    ext1
    · exact List.flatMap_eq_nil_iff.mpr fun e he => (hw e he).1
    · exact fires
    · exact List.flatMap_eq_nil_iff.mpr fun e he => (hw e he).2
  have htail : entries (⟨.setWarning, ()⟩ :: (w ++ [⟨.cancel, ()⟩])) =
      { events := [maxDeleteEvent o] } := by
    rw [entries_quiet rfl, entries_append, hentries]
    rfl
  rw [entries_cons, htail]
  rfl

end S3rm
