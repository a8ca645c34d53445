/-
S3rm/Deleter/Results.lean

What the two backends do with a batch: which delete requests they send
(`Targets`), which errors they count, and what their result says about the
batch.  The fallback of the batch backend takes its target from the error
entries of the response, so what holds of it depends on these; `EchoesErrors`
and `Echoes` are the two promises about responses that later results use.
-/
import S3rm.Deleter.Turns

namespace S3rm

open Conc Conc.Prog

variable {config : Config} {stage : Stage} {chunk objects : List S3Object} {err : DeleteErrorEntry}
  {t u v w : Trace} {o : S3Object} {rest : List S3Object}

/-! ### One error entry -/

/-- The request the fallback sends for an error entry. -/
def fallbackRequest (config : Config) (chunk : List S3Object) (err : DeleteErrorEntry) : Request :=
  ⟨err.id, fallbackETag config chunk err⟩

/-- A failed call. -/
def failedCall (q : Request) (e : Error) : Request × Except Error Unit := (q, .error e)

/-- The DeleteObject calls about an error entry: none, or failures up to the
first success, or as many failures as are allowed. -/
inductive EntryCalls (config : Config) (q : Request) (err : DeleteErrorEntry) :
    Bool → List (Request × Except Error Unit) → Prop
  | permanent (code : isRetryableErrorCode err.codeOr = false) : EntryCalls config q err false []
  | recovered {es : List Error} (code : isRetryableErrorCode err.codeOr = true)
      (few : es.length ≤ config.forceRetryConfig.forceRetryCount) :
      EntryCalls config q err true (es.map (failedCall q) ++ [(q, .ok ())])
  | exhausted {es : List Error} (code : isRetryableErrorCode err.codeOr = true)
      (all : es.length = config.forceRetryConfig.forceRetryCount + 1) :
      EntryCalls config q err false (es.map (failedCall q))

/-- What was done about an error entry, and whether it ended with the key deleted. -/
structure EntryRun where
  err : DeleteErrorEntry
  trace : Trace
  gone : Bool

/-- The statistics of an error entry. -/
def EntryRun.stats (c : EntryRun) : List DeletionStatistics :=
  if c.gone then [] else [.deleteError c.err.keyOr]

/-- The entry is dealt with as `BatchDeleter::delete` does. -/
structure EntryRun.Ok (config : Config) (chunk : List S3Object) (c : EntryRun) : Prop where
  unbatched : Unbatched c.trace
  counted : Counted c.stats c.trace
  calls : EntryCalls config (fallbackRequest config chunk c.err) c.err c.gone (c.trace.flatMap called)

/-- The key an error entry names, as deleted. -/
def DeleteErrorEntry.toDeletedKey (err : DeleteErrorEntry) : DeletedKey :=
  { key := err.keyOr, versionId := err.versionId }

/-- A result with an error entry added. -/
def DeleteResult.add (result : DeleteResult) (c : EntryRun) : DeleteResult :=
  if c.gone then { result with deleted := result.deleted ++ [c.err.toDeletedKey] }
  else { result with failed := result.failed ++ [c.err.toFailedKey] }

/-- The attempts: failures, and a success unless they are used up. -/
theorem run_fallbackAttempts {key : String} {versionId ifMatch : Option String} {attempt left : Nat}
    {r : Option DeletedKey}
    (h : (fallbackAttempts config key versionId ifMatch attempt left).Run t r) :
    Unbatched t ∧ Counted [] t ∧ ∃ es : List Error,
      (r = some ⟨key, versionId⟩ ∧ es.length < left ∧ t.flatMap called =
        es.map (failedCall ⟨(key, versionId), ifMatch⟩) ++ [(⟨(key, versionId), ifMatch⟩, .ok ())]) ∨
      (r = none ∧ es.length = left ∧
        t.flatMap called = es.map (failedCall ⟨(key, versionId), ifMatch⟩)) := by
  induction left generalizing attempt t with
  | zero =>
    obtain ⟨rfl, rfl⟩ := h
    exact ⟨unbatched_nil, .nil, [], .inr ⟨rfl, rfl, rfl⟩⟩
  | succ left ih =>
    obtain ⟨u, _, v, rfl, hu, hv⟩ := run_bind.mp h
    obtain ⟨a, v, rfl, hrest⟩ := run_perform_bind.mp hv
    have hpause : Unbatched u ∧ Counted [] u ∧ u.flatMap called = [] := by
      unfold pauseBefore at hu
      split_ifs at hu
      · obtain rfl := run_perform.mp hu
        exact ⟨by simp [Unbatched], ⟨rfl, rfl⟩, rfl⟩
      · rw [hu.1]
        exact ⟨unbatched_nil, .nil, rfl⟩
    obtain ⟨hub, huc, hucalls⟩ := hpause
    rcases a with e | _
    · obtain ⟨hvb, hvc, es, hcases⟩ := ih hrest
      refine ⟨hub.append (hvb.cons (by simp)), by simpa using huc.append (hvc.cons rfl rfl), e :: es, ?_⟩
      rcases hcases with ⟨hr, hlen, hcalls⟩ | ⟨hr, hlen, hcalls⟩
      · exact .inl ⟨hr, by simpa using hlen, by simp [hucalls, hcalls, called, failedCall]⟩
      · exact .inr ⟨hr, by simpa using hlen, by simp [hucalls, hcalls, called, failedCall]⟩
    · obtain ⟨rfl, rfl⟩ := hrest
      refine ⟨hub.append (unbatched_nil.cons (by simp)), ?_, [], .inl ⟨rfl, by simp, ?_⟩⟩
      · simpa using huc.append (Counted.nil.cons rfl rfl)
      · simp [hucalls, called]

theorem run_handleErrorEntry {result result' : DeleteResult}
    (h : (handleErrorEntry config chunk result err).Run t result') :
    ∃ c : EntryRun, c.err = err ∧ c.trace = t ∧ c.Ok config chunk ∧ result' = result.add c := by
  unfold handleErrorEntry at h
  split_ifs at h with hretry
  · obtain ⟨u, r, v, rfl, hu, hv⟩ := run_bind.mp h
    obtain ⟨a, x, _, rfl, ha, hx⟩ := run_bind.mp hu
    obtain ⟨hb, hc, es, ⟨rfl, hlen, hcalls⟩ | ⟨rfl, hlen, hcalls⟩⟩ := run_fallbackAttempts ha
    · obtain ⟨rfl, rfl⟩ := hx
      obtain ⟨rfl, rfl⟩ := hv
      refine ⟨⟨err, _, true⟩, rfl, rfl, ⟨?_, ?_, ?_⟩, rfl⟩
      · simpa using hb
      · simpa [EntryRun.stats] using hc
      · have := EntryCalls.recovered (q := fallbackRequest config chunk err) hretry
          (Nat.lt_succ_iff.mp hlen)
        simpa [hcalls, fallbackRequest, DeleteErrorEntry.id] using this
    · obtain ⟨rfl, rfl⟩ := hx
      obtain ⟨_, _, rfl, rfl, rfl⟩ := run_perform_bind.mp hv
      refine ⟨⟨err, _, false⟩, rfl, rfl, ⟨?_, ?_, ?_⟩, rfl⟩
      · exact (by simpa using hb : Unbatched (a ++ [])).append (unbatched_nil.cons (by simp))
      · exact (by simpa using hc : Counted [] (a ++ [])).append ⟨rfl, rfl⟩
      · have := EntryCalls.exhausted (q := fallbackRequest config chunk err) hretry hlen
        simpa [hcalls, fallbackRequest, DeleteErrorEntry.id, called] using this
  · obtain ⟨_, _, rfl, rfl, rfl⟩ := run_perform_bind.mp h
    rw [Bool.not_eq_true] at hretry
    exact ⟨⟨err, _, false⟩, rfl, rfl, ⟨unbatched_nil.cons (by simp), ⟨rfl, rfl⟩, .permanent hretry⟩, rfl⟩

/-! ### A batch -/

/-- What a result says was deleted or failed. -/
def DeleteResult.ids (result : DeleteResult) : List ObjectId :=
  result.deleted.map (fun dk => (dk.key, dk.versionId)) ++
    result.failed.map fun fk => (fk.key, fk.versionId)

/-- The errors counted for a result. -/
def DeleteResult.errorStats (result : DeleteResult) : List DeletionStatistics :=
  result.failed.map fun fk => .deleteError fk.key

/-- What a DeleteObjects response is about. -/
def DeleteObjectsOutput.ids (output : DeleteObjectsOutput) : List ObjectId :=
  output.deleted.map (fun d => (d.key.getD "", d.versionId)) ++ output.errors.map DeleteErrorEntry.id

/-- The keys that the error entries say were deleted in the end. -/
def recoveredKeys (entries : List EntryRun) : List DeletedKey :=
  (entries.filter EntryRun.gone).map fun c => c.err.toDeletedKey

/-- The keys that failed for good. -/
def failedKeys (entries : List EntryRun) : List FailedKey :=
  (entries.filter fun c => !c.gone).map fun c => c.err.toFailedKey

/-- The error entries of a response are dealt with one after the other. -/
theorem run_handleErrors {result result' : DeleteResult} {errors : List DeleteErrorEntry}
    (h : (errors.foldlM (handleErrorEntry config chunk) result).Run t result') :
    ∃ entries : List EntryRun, entries.map EntryRun.err = errors ∧
      t = entries.flatMap EntryRun.trace ∧ (∀ c ∈ entries, c.Ok config chunk) ∧
      result' = ⟨result.deleted ++ recoveredKeys entries, result.failed ++ failedKeys entries⟩ := by
  refine run_foldlM (I := fun errors t result' => ∃ entries : List EntryRun,
    entries.map EntryRun.err = errors ∧ t = entries.flatMap EntryRun.trace ∧
      (∀ c ∈ entries, c.Ok config chunk) ∧
      result' = ⟨result.deleted ++ recoveredKeys entries, result.failed ++ failedKeys entries⟩) ?_
    ⟨[], rfl, rfl, by simp, by simp [recoveredKeys, failedKeys]⟩ h
  rintro errors err t u b b' ⟨entries, rfl, rfl, hok, rfl⟩ hu
  obtain ⟨c, rfl, rfl, hc, rfl⟩ := run_handleErrorEntry hu
  refine ⟨entries ++ [c], by simp, by simp, fun x hx => ?_, ?_⟩
  · rcases List.mem_append.mp hx with hx | hx
    · exact hok x hx
    · rw [List.mem_singleton.mp hx]
      exact hc
  · cases hg : c.gone <;> simp [DeleteResult.add, recoveredKeys, failedKeys, hg]

/-- The run of one chunk: the request, its response, and what was done about
the error entries. -/
structure ChunkRun where
  chunk : List S3Object
  response : DeleteObjectsOutput
  entries : List EntryRun

namespace ChunkRun

variable (config) (c : ChunkRun)

/-- The events of a chunk. -/
def events : Trace :=
  ⟨.deleteObjects (c.chunk.map (objectIdentifier config)), .ok c.response⟩ ::
    c.entries.flatMap EntryRun.trace

/-- What the chunk adds to the result. -/
def deleted : List DeletedKey :=
  c.response.deleted.map DeletedObject.toDeletedKey ++ recoveredKeys c.entries

def failed : List FailedKey := failedKeys c.entries

/-- The entries are those of the response, each dealt with. -/
structure Ok : Prop where
  errors : c.entries.map EntryRun.err = c.response.errors
  entries : ∀ e ∈ c.entries, e.Ok config c.chunk

end ChunkRun

theorem run_deleteChunk {result : DeleteResult} {r : Except Error DeleteResult}
    (h : Run (deleteChunk config result chunk) t r) :
    (∃ e, t = [⟨.deleteObjects (chunk.map (objectIdentifier config)), .error e⟩] ∧ r = .error e) ∨
      ∃ c : ChunkRun, c.chunk = chunk ∧ c.Ok config ∧ t = c.events config ∧
        r = .ok ⟨result.deleted ++ c.deleted, result.failed ++ c.failed⟩ := by
  unfold deleteChunk at h
  rcases run_fallible_bind.mp h with ⟨e, hd, rfl⟩ | ⟨v, response, w, rfl, hd, hw⟩
  · exact .inl ⟨e, run_perform.mp hd, rfl⟩
  · obtain rfl := run_perform.mp hd
    obtain ⟨result', hfold, rfl⟩ := run_fallible_lift.mp hw
    obtain ⟨entries, herrors, rfl, hok, rfl⟩ := run_handleErrors hfold
    refine .inr ⟨⟨chunk, response, entries⟩, rfl, ⟨herrors, hok⟩, rfl, ?_⟩
    simp [ChunkRun.deleted, ChunkRun.failed]

/-- The chunks a batch is deleted in. -/
def batchChunks (config : Config) (objects : List S3Object) : List (List S3Object) :=
  chunks (min config.batchSize maxBatchSize) objects

/-- The result of a batch, chunk by chunk. -/
def runsResult (runs : List ChunkRun) : DeleteResult :=
  ⟨runs.flatMap ChunkRun.deleted, runs.flatMap ChunkRun.failed⟩

/-- **The runs of `BatchDeleter::delete`**: chunk by chunk, to the end or to the
first DeleteObjects call that fails. -/
theorem run_batchDelete {r : Except Error DeleteResult} (h : Run (batchDelete config objects) t r) :
    ∃ runs : List ChunkRun, (∀ c ∈ runs, c.Ok config) ∧
      ((r = .ok (runsResult runs) ∧ t = runs.flatMap (ChunkRun.events config) ∧
        runs.map ChunkRun.chunk = batchChunks config objects) ∨
      ∃ chunk left e, r = .error e ∧
        runs.map ChunkRun.chunk ++ chunk :: left = batchChunks config objects ∧
        t = runs.flatMap (ChunkRun.events config) ++
          [⟨.deleteObjects (chunk.map (objectIdentifier config)), .error e⟩]) := by
  have hfold := run_fallible_foldlM (b := {})
    (I := fun done t (result : DeleteResult) => ∃ runs : List ChunkRun, (∀ c ∈ runs, c.Ok config) ∧
      t = runs.flatMap (ChunkRun.events config) ∧ runs.map ChunkRun.chunk = done ∧
      result = runsResult runs) ?_ ⟨[], by simp, rfl, rfl, rfl⟩ h
  · rcases hfold with ⟨result, rfl, runs, hok, ht, hdone, rfl⟩ |
      ⟨chunk, done, left, u, v, result, e, hsplit, rfl, ⟨runs, hok, rfl, rfl, rfl⟩, hv, rfl⟩
    · exact ⟨runs, hok, .inl ⟨rfl, ht, hdone⟩⟩
    · rcases run_deleteChunk hv with ⟨e', rfl, he⟩ | ⟨_, -, -, -, he⟩
      · cases he
        exact ⟨runs, hok, .inr ⟨chunk, left, e, rfl, hsplit.symm, rfl⟩⟩
      · cases he
  · rintro done chunk t u b b' ⟨runs, hok, rfl, rfl, rfl⟩ hu
    rcases run_deleteChunk hu with ⟨_, -, he⟩ | ⟨c, rfl, hc, rfl, he⟩
    · cases he
    · cases he
      refine ⟨runs ++ [c], fun x hx => ?_, by simp, by simp, by simp [runsResult]⟩
      rcases List.mem_append.mp hx with hx | hx
      · exact hok x hx
      · rw [List.mem_singleton.mp hx]
        exact hc

/-! ### What a batch counts and is about -/

/-- The errors sent for entries are those of the keys that failed. -/
theorem counted_entries {entries : List EntryRun} (h : ∀ c ∈ entries, c.Ok config chunk) :
    Counted ((failedKeys entries).map fun fk => .deleteError fk.key)
      (entries.flatMap EntryRun.trace) := by
  induction entries with
  | nil => exact .nil
  | cons c entries ih =>
    have hc := (h c List.mem_cons_self).counted
    have ih := ih fun x hx => h x (List.mem_cons_of_mem c hx)
    rw [List.flatMap_cons]
    cases hg : c.gone with
    | true => simpa [failedKeys, EntryRun.stats, hg] using hc.append ih
    | false => simpa [failedKeys, EntryRun.stats, hg, DeleteErrorEntry.toFailedKey] using hc.append ih

theorem counted_runs {runs : List ChunkRun} (h : ∀ c ∈ runs, c.Ok config) :
    Counted (runsResult runs).errorStats (runs.flatMap (ChunkRun.events config)) := by
  induction runs with
  | nil => exact .nil
  | cons c runs ih =>
    have hc := counted_entries (h c List.mem_cons_self).entries
    have ih := ih fun x hx => h x (List.mem_cons_of_mem c hx)
    simpa [runsResult, DeleteResult.errorStats, ChunkRun.failed, ChunkRun.events] using
      (hc.cons rfl rfl).append ih

/-- Entries end up deleted or failed, each once. -/
theorem entries_ids (entries : List EntryRun) :
    ((recoveredKeys entries).map (fun dk => (dk.key, dk.versionId)) ++
      (failedKeys entries).map fun fk => (fk.key, fk.versionId)).Perm
        (entries.map fun c => c.err.id) := by
  have hsplit : ∀ c : EntryRun, (c.err.toDeletedKey.key, c.err.toDeletedKey.versionId) = c.err.id :=
    fun _ => rfl
  have hkeep : (recoveredKeys entries).map (fun dk => (dk.key, dk.versionId)) =
      (entries.filter EntryRun.gone).map fun c => c.err.id := by
    simp [recoveredKeys, Function.comp_def, hsplit]
  have hfail : (failedKeys entries).map (fun fk => (fk.key, fk.versionId)) =
      (entries.filter fun c => !c.gone).map fun c => c.err.id := by
    simp [failedKeys, Function.comp_def, DeleteErrorEntry.id, DeleteErrorEntry.toFailedKey]
  rw [hkeep, hfail, ← List.map_append]
  exact (List.filter_append_perm _ _).map _

/-- A result is about what the responses are about. -/
theorem runsResult_ids {runs : List ChunkRun} (h : ∀ c ∈ runs, c.Ok config) :
    (runsResult runs).ids.Perm (runs.flatMap fun c => c.response.ids) := by
  induction runs with
  | nil => exact List.Perm.refl _
  | cons c runs ih =>
    have ih := ih fun x hx => h x (List.mem_cons_of_mem c hx)
    have hc : (c.deleted.map (fun dk => (dk.key, dk.versionId)) ++
        c.failed.map fun fk => (fk.key, fk.versionId)).Perm c.response.ids := by
      have herr : c.response.errors.map DeleteErrorEntry.id = c.entries.map fun e => e.err.id := by
        rw [← (h c List.mem_cons_self).errors, List.map_map]
        rfl
      rw [ChunkRun.deleted, List.map_append, List.append_assoc, DeleteObjectsOutput.ids, herr,
        List.map_map]
      exact (entries_ids c.entries).append_left _
    rw [List.flatMap_cons]
    refine List.Perm.trans ?_ (hc.append ih)
    simp only [runsResult, DeleteResult.ids, List.flatMap_cons, List.map_append, List.append_assoc]
    refine List.Perm.append_left _ ?_
    exact List.perm_append_comm_assoc _ _ _

/-- The runs of `SingleDeleter::delete`. -/
theorem run_singleDelete {r : Except Error DeleteResult} (h : Run (singleDelete config o) t r) :
    ∃ result, r = .ok result ∧ t.flatMap asked = [⟨o.id, ifMatchETag config o⟩] ∧
      Counted result.errorStats t ∧ result.ids = [o.id] := by
  unfold singleDelete at h
  obtain ⟨v, a, w, rfl, hv, hw⟩ := run_attempt_bind.mp h
  obtain rfl := run_perform.mp hv
  rcases a with e | _
  · obtain ⟨_, _, rfl, rfl, rfl⟩ := run_ask_bind.mp hw
    exact ⟨_, rfl, rfl, ⟨rfl, rfl⟩, rfl⟩
  · obtain ⟨rfl, rfl⟩ := hw
    exact ⟨_, rfl, rfl, ⟨rfl, rfl⟩, rfl⟩

/-! ### Whom the requests name -/

/-- The request names one of these objects, with the condition it should have. -/
def Targets (config : Config) (objects : List S3Object) (q : Request) : Prop :=
  ∃ o ∈ objects, q = ⟨o.id, ifMatchETag config o⟩

theorem Targets.mono {objects' : List S3Object} {q : Request} (h : Targets config objects q)
    (hsub : objects ⊆ objects') : Targets config objects' q := by
  obtain ⟨o, ho, hq⟩ := h
  exact ⟨o, hsub ho, hq⟩

/-- A DeleteObjects response reports errors only about what was submitted. -/
def EchoesErrors : Event → Prop
  | ⟨.deleteObjects objects, .ok output⟩ =>
    ∀ err ∈ output.errors, ∃ i ∈ objects, err.key = some i.key ∧ err.versionId = i.versionId
  | _ => True

theorem EchoesErrors.total (o : Op) : ∃ r, EchoesErrors ⟨o, r⟩ := by
  cases o
  case deleteObjects => exact ⟨.error (.other ""), trivial⟩
  all_goals exact ⟨(Resp.nonempty _).some, trivial⟩

/-- For an error about an object of the chunk, the fallback has the right target. -/
theorem fallbackRequest_targets (h : ∃ i ∈ chunk.map (objectIdentifier config),
    err.key = some i.key ∧ err.versionId = i.versionId) :
    Targets config chunk (fallbackRequest config chunk err) := by
  obtain ⟨_, hi, hkey, hversion⟩ := h
  obtain ⟨o, ho, rfl⟩ := List.mem_map.mp hi
  have hid : err.id = o.id := by
    simp [DeleteErrorEntry.id, DeleteErrorEntry.keyOr, hkey, hversion, objectIdentifier, S3Object.id]
  obtain ⟨o', ho'⟩ := objLookup_isSome ho
  obtain ⟨hmem, hid'⟩ := objLookup_some ho'
  refine ⟨o', hmem, ?_⟩
  rw [fallbackRequest, fallbackETag, hid, ho', hid', ifMatchETag]
  rfl

theorem submitted_targets {q : Request}
    (h : q ∈ (chunk.map (objectIdentifier config)).map ObjectIdentifier.request) :
    Targets config chunk q := by
  obtain ⟨_, hi, rfl⟩ := List.mem_map.mp h
  obtain ⟨o, ho, rfl⟩ := List.mem_map.mp hi
  exact ⟨o, ho, rfl⟩

theorem batchChunks_subset (h : chunk ∈ batchChunks config objects) : chunk ⊆ objects :=
  fun _ hx => mem_of_mem_chunks h hx

/-- The fallback asks for nothing but its one request, and for that if it may. -/
theorem EntryRun.Ok.asked_iff {c : EntryRun} (h : c.Ok config chunk) {q : Request} :
    q ∈ c.trace.flatMap asked ↔ isRetryableErrorCode c.err.codeOr = true ∧
      q = fallbackRequest config chunk c.err := by
  rw [asked_of_unbatched h.unbatched]
  have hcalls := h.calls
  generalize c.trace.flatMap called = calls at hcalls
  generalize c.gone = gone at hcalls
  cases hcalls with
  | permanent code => simp [code]
  | @recovered es code few =>
    simp only [List.map_append, List.map_map, List.mem_append, List.mem_map, Function.comp,
      failedCall, List.map_cons, List.map_nil, List.mem_singleton, code, true_and]
    exact ⟨fun h => h.elim (fun ⟨_, _, hq⟩ => hq.symm) id, .inr⟩
  | @exhausted es code all =>
    simp only [List.map_map, List.mem_map, Function.comp, failedCall, code, true_and]
    constructor
    · rintro ⟨_, -, rfl⟩
      rfl
    · rintro rfl
      obtain ⟨e, es, rfl⟩ := List.exists_cons_of_length_eq_add_one all
      exact ⟨e, List.mem_cons_self, rfl⟩

/-- The requests of a chunk, if its errors are about it. -/
theorem ChunkRun.Ok.targets {c : ChunkRun} (h : c.Ok config)
    (ht : ∀ e ∈ c.events config, EchoesErrors e) :
    ∀ q ∈ (c.events config).flatMap asked, Targets config c.chunk q := by
  intro q hq
  rw [ChunkRun.events, List.flatMap_cons, List.mem_append] at hq
  rcases hq with hq | hq
  · exact submitted_targets hq
  · rw [List.flatMap_assoc, List.mem_flatMap] at hq
    obtain ⟨x, hx, hq⟩ := hq
    obtain ⟨-, rfl⟩ := ((h.entries x hx).asked_iff).mp hq
    refine fallbackRequest_targets (ht _ List.mem_cons_self x.err ?_)
    rw [← h.errors]
    exact List.mem_map_of_mem hx

/-- **Every delete request of a backend names an object of its batch.** -/
theorem run_deleterDelete_targets {r : Except Error DeleteResult}
    (h : Run (deleterDelete config o rest) t r) (ht : ∀ e ∈ t, EchoesErrors e) :
    ∀ q ∈ t.flatMap asked, Targets config (o :: rest) q := by
  unfold deleterDelete at h
  split_ifs at h
  · obtain ⟨_, -, hasked, -, -⟩ := run_singleDelete h
    rw [hasked]
    rintro q hq
    obtain rfl := List.mem_singleton.mp hq
    exact ⟨o, List.mem_cons_self, rfl⟩
  · obtain ⟨runs, hruns, hend⟩ := run_batchDelete h
    have hall : (∀ e ∈ runs.flatMap (ChunkRun.events config), EchoesErrors e) →
        (∀ c ∈ runs, c.chunk ∈ batchChunks config (o :: rest)) →
        ∀ q ∈ (runs.flatMap (ChunkRun.events config)).flatMap asked,
          Targets config (o :: rest) q := by
      intro he hmem q hq
      rw [List.flatMap_assoc, List.mem_flatMap] at hq
      obtain ⟨c, hc, hq⟩ := hq
      refine Targets.mono ((hruns c hc).targets (fun e hec => he e ?_) q hq)
        (batchChunks_subset (hmem c hc))
      exact List.mem_flatMap.mpr ⟨c, hc, hec⟩
    rcases hend with ⟨-, rfl, hchunks⟩ | ⟨chunk, left, e, -, hchunks, rfl⟩
    · refine hall ht fun c hc => ?_
      rw [← hchunks]
      exact List.mem_map_of_mem hc
    · intro q hq
      rw [List.flatMap_append, List.mem_append] at hq
      rcases hq with hq | hq
      · refine hall (fun e he => ht e (List.mem_append_left _ he)) (fun c hc => ?_) q hq
        rw [← hchunks]
        exact List.mem_append_left _ (List.mem_map_of_mem hc)
      · have hmem : chunk ∈ batchChunks config (o :: rest) := by
          rw [← hchunks]
          exact List.mem_append_right _ List.mem_cons_self
        exact (submitted_targets (by simpa [asked] using hq)).mono (batchChunks_subset hmem)

/-! ### What is counted for a batch -/

/-- The two statistics of a deleted key. -/
def deletedStats (batch : List S3Object) (dk : DeletedKey) : List DeletionStatistics :=
  [.deleteComplete dk.key, .deleteBytes (deletedSize batch dk)]

/-- The statistics of a result's deleted keys. -/
def completeStats (batch : List S3Object) (result : DeleteResult) : List DeletionStatistics :=
  result.deleted.flatMap (deletedStats batch)

theorem run_emitDeleted {dk : DeletedKey} {a : Unit}
    (h : Run (emitDeleted config objects dk) t a) : Counted (deletedStats objects dk) t := by
  obtain ⟨_, t₁, rfl, h₁⟩ := run_perform_bind.mp h
  obtain ⟨_, t₂, rfl, h₂⟩ := run_perform_bind.mp h₁
  obtain ⟨_, t₃, rfl, h₃⟩ := run_perform_bind.mp h₂
  have hc := counted_triggerEvent h₃
  exact ⟨by simp [noted, deletedStats, hc.noted], by simp [cancels, hc.live]⟩

theorem run_emitAllDeleted {dks : List DeletedKey} {a : Unit}
    (h : (dks.forM (emitDeleted config objects)).Run t a) :
    Counted (dks.flatMap (deletedStats objects)) t := by
  induction dks generalizing t with
  | nil =>
    obtain ⟨rfl, -⟩ := h
    exact .nil
  | cons dk dks ih =>
    obtain ⟨u, _, v, rfl, hu, hv⟩ := run_bind.mp h
    exact (run_emitDeleted hu).append (ih hv)

theorem run_emitFailed {fks : List FailedKey} {a : Unit}
    (h : (fks.forM (emitFailed config)).Run t a) : Counted [] t := by
  induction fks generalizing t with
  | nil =>
    obtain ⟨rfl, -⟩ := h
    exact .nil
  | cons fk fks ih =>
    obtain ⟨u, _, v, rfl, hu, hv⟩ := run_bind.mp h
    obtain ⟨_, _, rfl, hx⟩ := run_perform_bind.mp hu
    exact ((counted_triggerEvent hx).cons rfl rfl).append (ih hv)

theorem run_emitResult {result : DeleteResult} {a : Unit}
    (h : (emitResult config objects result).Run t a) : Counted (completeStats objects result) t := by
  obtain ⟨u, _, v, rfl, hu, hv⟩ := run_bind.mp h
  simpa [completeStats] using (run_emitAllDeleted hu).append (run_emitFailed hv)

theorem run_forwardBatch {r : Except Error Unit} (h : Run (forwardBatch stage objects) t r) :
    Counted [] t := by
  induction objects generalizing t with
  | nil =>
    obtain ⟨rfl, -⟩ := h
    exact .nil
  | cons o rest ih =>
    rcases run_fallible_bind.mp h with ⟨e, hs, rfl⟩ | ⟨u, x, v, rfl, hs, hv⟩
    · rcases run_stageSend.mp hs with ⟨rfl, -⟩ | ⟨rfl, -⟩ | ⟨rfl, -⟩ <;> exact ⟨rfl, rfl⟩
    · have hu : Counted [] u := by
        rcases run_stageSend.mp hs with ⟨rfl, -⟩ | ⟨rfl, -⟩ | ⟨rfl, -⟩ <;> exact ⟨rfl, rfl⟩
      split_ifs at hv
      · obtain ⟨rfl, -⟩ := hv
        simpa using hu
      · exact hu.append (ih hv)

/-- After a backend's result, its deleted keys are counted; a failed key cancels
the token under `--warn-as-error`. -/
theorem run_finishBatch {result : DeleteResult} {r : Except Error Unit}
    (h : Run (finishBatch stage objects result) t r) :
    t.flatMap noted = completeStats objects result ∧
      (stage.config.warnAsError = false → t.flatMap cancels = []) := by
  unfold finishBatch at h
  obtain ⟨u, _, v, rfl, hu, hv⟩ := run_lift_bind.mp h
  have hu := run_emitResult hu
  suffices hrest : v.flatMap noted = [] ∧ (stage.config.warnAsError = false → v.flatMap cancels = []) by
    exact ⟨by simp [hu.noted, hrest.1], fun hw => by simp [hu.live, hrest.2 hw]⟩
  split_ifs at hv with hempty hwarn
  · exact ⟨(run_forwardBatch hv).noted, fun _ => (run_forwardBatch hv).live⟩
  · obtain ⟨_, _, rfl, hc⟩ := run_ask_bind.mp hv
    obtain ⟨_, hcancel, -⟩ := run_fallible_lift.mp hc
    obtain rfl := run_perform.mp hcancel
    exact ⟨rfl, fun hw => by simp [hwarn] at hw⟩
  · obtain ⟨_, w, rfl, hw⟩ := run_ask_bind.mp hv
    exact ⟨by simp [noted, (run_forwardBatch hw).noted], fun _ => by simp [cancels, (run_forwardBatch hw).live]⟩

/-- A DeleteObjects response lists everything submitted once, deleted or failed. -/
def Echoes : Event → Prop
  | ⟨.deleteObjects objects, .ok output⟩ =>
    (output.deleted.map (fun d => (d.key, d.versionId)) ++
      output.errors.map fun err => (err.key, err.versionId)).Perm
        (objects.map fun i => (some i.key, i.versionId))
  | _ => True

theorem Echoes.ids {output : DeleteObjectsOutput} {identifiers : List ObjectIdentifier}
    (h : Echoes ⟨.deleteObjects identifiers, .ok output⟩) :
    output.ids.Perm (identifiers.map fun i => (i.key, i.versionId)) := by
  have hperm : (output.deleted.map (fun d => (d.key, d.versionId)) ++
      output.errors.map fun err => (err.key, err.versionId)).Perm
        (identifiers.map fun i => (some i.key, i.versionId)) := h
  have herr : output.errors.map DeleteErrorEntry.id =
      output.errors.map fun err => (err.key.getD "", err.versionId) := by
    refine List.map_congr_left fun err he => ?_
    have hmem := hperm.subset (List.mem_append_right _ (List.mem_map_of_mem he))
    obtain ⟨i, -, hi⟩ := List.mem_map.mp hmem
    simp [DeleteErrorEntry.id, DeleteErrorEntry.keyOr, ← (Prod.mk.inj hi).1]
  have := hperm.map fun x : Option String × Option String => (x.1.getD "", x.2)
  simpa [DeleteObjectsOutput.ids, herr, Function.comp_def] using this

theorem identifiers_ids : (objects.map (objectIdentifier config)).map (fun i => (i.key, i.versionId)) =
    objects.map S3Object.id := by
  simp [objectIdentifier, S3Object.id]

theorem chunks_ids {runs : List ChunkRun}
    (h : ∀ c ∈ runs, c.response.ids.Perm (c.chunk.map S3Object.id)) :
    (runs.flatMap fun c => c.response.ids).Perm ((runs.map ChunkRun.chunk).flatten.map S3Object.id) := by
  induction runs with
  | nil => exact List.Perm.refl _
  | cons c runs ih =>
    simp only [List.flatMap_cons, List.map_cons, List.flatten_cons, List.map_append]
    exact (h c List.mem_cons_self).append (ih fun c' hc => h c' (List.mem_cons_of_mem c hc))

/-- The result of a batch is about its objects, and its errors are counted. -/
theorem run_batchDelete_result {result : DeleteResult} (hsize : 0 < config.batchSize)
    (h : Run (batchDelete config objects) t (.ok result)) :
    Counted result.errorStats t ∧
      ((∀ e ∈ t, Echoes e) → result.ids.Perm (objects.map S3Object.id)) := by
  obtain ⟨runs, hok, ⟨he, rfl, hchunks⟩ | ⟨_, _, _, he, -⟩⟩ := run_batchDelete h
  · obtain rfl := Except.ok.inj he
    refine ⟨counted_runs hok, fun hecho => (runsResult_ids hok).trans ?_⟩
    have hpos : 0 < min config.batchSize maxBatchSize := Nat.lt_min.mpr ⟨hsize, by decide⟩
    rw [← chunks_flatten hpos objects, ← batchChunks, ← hchunks]
    refine chunks_ids fun c hc => ?_
    have := (hecho _ (List.mem_flatMap.mpr ⟨c, hc, List.mem_cons_self⟩)).ids
    rwa [identifiers_ids] at this
  · cases he

/-- **The result of a backend is about its batch**, and its errors are counted.
The single backend deletes one object. -/
theorem run_deleterDelete_result {result : DeleteResult}
    (h : Run (deleterDelete config o rest) t (.ok result)) :
    Counted result.errorStats t ∧ ((∀ e ∈ t, Echoes e) → (config.batchSize ≤ 1 → rest = []) →
      result.ids.Perm ((o :: rest).map S3Object.id)) := by
  unfold deleterDelete at h
  split_ifs at h with hsize
  · obtain ⟨result', he, -, hc, hids⟩ := run_singleDelete h
    cases he
    refine ⟨hc, fun _ hrest => ?_⟩
    rw [hids, hrest hsize]
    exact List.Perm.refl _
  · obtain ⟨hc, hids⟩ := run_batchDelete_result (by omega) h
    exact ⟨hc, fun hecho _ => hids hecho⟩

/-! ### Flushes -/

/-- A flush cancels the token only under `--warn-as-error`, unless it fails. -/
theorem Flush.live {b b' : List S3Object} (h : Flush stage b u (.ok b'))
    (hwarn : stage.config.warnAsError = false) : u.flatMap cancels = [] := by
  generalize hr : (Except.ok b' : Except Error (List S3Object)) = r at h
  cases h with
  | empty | cancelled => rfl
  | simulated h dry finish => simpa [cancels] using (run_finishBatch finish).2 hwarn
  | failed => cases hr
  | deleted h wet delete finish =>
    simp [cancels, (run_deleterDelete_result delete).1.live, (run_finishBatch finish).2 hwarn]

end S3rm
