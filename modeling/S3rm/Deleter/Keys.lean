/-
S3rm/Deleter/Keys.lean

What `BatchDeleter::delete` does about each key of its batch, read off the
events: what was submitted, which errors the responses reported, and how the
DeleteObject calls about a key were answered.

    batch_keys    every key is submitted once, ends up deleted or failed, and
                  fails exactly for a permanent error or when the fallback is
                  exhausted
-/
import S3rm.Deleter.Results

namespace S3rm

open Conc Conc.Prog

variable {config : Config} {objects : List S3Object} {err : DeleteErrorEntry} {t : Trace}

/-! ### Reading the events -/

/-- What is submitted in DeleteObjects requests. -/
def submitted : Event → List (List ObjectIdentifier)
  | ⟨.deleteObjects identifiers, _⟩ => [identifiers]
  | _ => []

/-- The errors that the responses report. -/
def reported : Event → List DeleteErrorEntry
  | ⟨.deleteObjects _, .ok output⟩ => output.errors
  | _ => []

/-- How the DeleteObject calls about an object were answered. -/
def answersAbout (id : ObjectId) (t : Trace) : List (Except Error Unit) :=
  ((t.flatMap called).filter fun c => c.1.id = id).map Prod.snd

/-- All calls the fallback may make have failed. -/
def Exhausted (config : Config) (answers : List (Except Error Unit)) : Prop :=
  answers.length = config.forceRetryConfig.forceRetryCount + 1 ∧ ∀ a ∈ answers, a ≠ .ok ()

instance (config : Config) (answers : List (Except Error Unit)) :
    Decidable (Exhausted config answers) :=
  inferInstanceAs (Decidable (_ ∧ _))

/-- The error stays: it is permanent, or the fallback is exhausted. -/
def Stays (config : Config) (t : Trace) (err : DeleteErrorEntry) : Prop :=
  isRetryableErrorCode err.codeOr = false ∨ Exhausted config (answersAbout err.id t)

instance (config : Config) (t : Trace) (err : DeleteErrorEntry) : Decidable (Stays config t err) :=
  inferInstanceAs (Decidable (_ ∨ _))

/-! ### The calls about one entry -/

section entry

variable {q : Request} {gone : Bool} {calls : List (Request × Except Error Unit)}
  (h : EntryCalls config q err gone calls)

include h

theorem EntryCalls.fst_eq : ∀ c ∈ calls, c.1 = q := by
  intro c hc
  cases h with
  | permanent => cases hc
  | recovered =>
    rcases List.mem_append.mp hc with hc | hc
    · obtain ⟨e, -, rfl⟩ := List.mem_map.mp hc
      rfl
    · rw [List.mem_singleton.mp hc]
  | exhausted =>
    obtain ⟨e, -, rfl⟩ := List.mem_map.mp hc
    rfl

/-- The key is not gone when its error is permanent or all calls failed. -/
theorem EntryCalls.gone_iff : gone = false ↔
    isRetryableErrorCode err.codeOr = false ∨ Exhausted config (calls.map Prod.snd) := by
  cases h with
  | permanent code => simp [code]
  | @recovered es code few => simp [code, Exhausted]
  | @exhausted es code all =>
    have hall : Exhausted config ((es.map (failedCall q)).map Prod.snd) := by
      refine ⟨by simp [all], fun a ha => ?_⟩
      obtain ⟨c, hc, rfl⟩ := List.mem_map.mp ha
      obtain ⟨e, -, rfl⟩ := List.mem_map.mp hc
      intro he
      cases he
    exact ⟨fun _ => .inr hall, fun _ => rfl⟩

/-- After a success there are no more calls. -/
theorem EntryCalls.stops {pre post : List (Except Error Unit)}
    (hsplit : calls.map Prod.snd = pre ++ .ok () :: post) : post = [] := by
  have hfailed : ∀ (es : List Error) {l : List (Except Error Unit)},
      (es.map (failedCall q)).map Prod.snd = l → .ok () ∉ l := by
    rintro es l rfl hmem
    simp [failedCall] at hmem
  cases h with
  | permanent => simp at hsplit
  | @recovered es code few =>
    rw [List.map_append] at hsplit
    rcases List.append_eq_append_iff.mp hsplit with ⟨a, ha, hb⟩ | ⟨a, ha, hb⟩
    · rcases a with - | ⟨x, a⟩
      · exact (List.cons.inj hb).2.symm
      · have hlen := congrArg List.length hb
        simp at hlen
    · rcases a with - | ⟨x, a⟩
      · exact (List.cons.inj hb).2
      · obtain ⟨rfl, -⟩ := List.cons.inj hb
        exact absurd (by simp) (hfailed es ha)
  | exhausted => exact absurd (by simp) (hfailed _ hsplit)

theorem EntryCalls.nil_of_permanent (hcode : isRetryableErrorCode err.codeOr = false) :
    calls = [] := by
  cases h with
  | permanent => rfl
  | recovered code | exhausted code =>
    rw [hcode] at code
    cases code

theorem EntryCalls.length_le : calls.length ≤ config.forceRetryConfig.forceRetryCount + 1 := by
  cases h with
  | permanent => exact Nat.zero_le _
  | recovered _ few => simpa using few
  | exhausted _ all => simp [all]

/-- A key is gone by a call that succeeded. -/
theorem EntryCalls.succeeded (hgone : gone = true) : .ok () ∈ calls.map Prod.snd := by
  cases h with
  | permanent | exhausted => cases hgone
  | recovered => simp

end entry

/-! ### The entries of a batch -/

theorem filter_flatMap_of_ne {α β κ : Type} [DecidableEq κ] {xs : List α} {f : α → List β}
    {k : β → κ} {i : κ} (h : ∀ x ∈ xs, ∀ y ∈ f x, k y ≠ i) :
    (xs.flatMap f).filter (fun y => k y = i) = [] := by
  refine List.filter_eq_nil_iff.mpr fun y hy => ?_
  obtain ⟨x, hx, hy⟩ := List.mem_flatMap.mp hy
  simpa using h x hx y hy

/-- What is said about `x` among things said under different keys. -/
theorem filter_flatMap_of_nodup {α β κ : Type} [DecidableEq κ] {xs : List α} {f : α → List β}
    {key : α → κ} {k : β → κ} (hnodup : (xs.map key).Nodup)
    (hk : ∀ x ∈ xs, ∀ y ∈ f x, k y = key x) {x : α} (hx : x ∈ xs) :
    (xs.flatMap f).filter (fun y => k y = key x) = f x := by
  induction xs with
  | nil => cases hx
  | cons a xs ih =>
    rw [List.map_cons, List.nodup_cons] at hnodup
    have hk' : ∀ x ∈ xs, ∀ y ∈ f x, k y = key x := fun x hx => hk x (List.mem_cons_of_mem a hx)
    rw [List.flatMap_cons, List.filter_append]
    rcases List.mem_cons.mp hx with rfl | hx
    · have hself : (f x).filter (fun y => k y = key x) = f x :=
        List.filter_eq_self.mpr fun y hy => by simpa using hk x List.mem_cons_self y hy
      have hrest : (xs.flatMap f).filter (fun y => k y = key x) = [] := by
        refine filter_flatMap_of_ne fun z hz y hy heq => hnodup.1 ?_
        rw [← heq, hk' z hz y hy]
        exact List.mem_map_of_mem hz
      rw [hself, hrest, List.append_nil]
    · have hnone : (f a).filter (fun y => k y = key x) = [] := by
        refine List.filter_eq_nil_iff.mpr fun y hy => ?_
        rw [hk a List.mem_cons_self y hy]
        simp only [decide_eq_true_eq]
        intro heq
        rw [heq] at hnodup
        exact hnodup.1 (List.mem_map_of_mem hx)
      rw [hnone, ih hnodup.2 hk' hx, List.nil_append]

/-- The events of a batch by its error entries. -/
structure Entered (config : Config) (t : Trace) (entries : List EntryRun) : Prop where
  reported : t.flatMap reported = entries.map EntryRun.err
  called : t.flatMap called = entries.flatMap fun c => c.trace.flatMap called
  noted : t.flatMap noted = entries.flatMap EntryRun.stats
  calls : ∀ c ∈ entries, ∃ q : Request, q.id = c.err.id ∧
    EntryCalls config q c.err c.gone (c.trace.flatMap S3rm.called)
  nodup : (entries.map fun c => c.err.id).Nodup

section entered

variable {entries : List EntryRun} (h : Entered config t entries)

include h

/-- The calls about an entry's key are the entry's. -/
theorem Entered.answersAbout_entry {c : EntryRun} (hc : c ∈ entries) :
    answersAbout c.err.id t = (c.trace.flatMap S3rm.called).map Prod.snd := by
  rw [answersAbout, h.called]
  congr 1
  refine filter_flatMap_of_nodup h.nodup (fun x hx y hy => ?_) hc
  obtain ⟨q, hq, hcalls⟩ := h.calls x hx
  rw [hcalls.fst_eq y hy, hq]

/-- There are no other calls. -/
theorem Entered.answersAbout_other {id : ObjectId} (hid : ∀ c ∈ entries, c.err.id ≠ id) :
    answersAbout id t = [] := by
  rw [answersAbout, h.called, filter_flatMap_of_ne, List.map_nil]
  intro c hc y hy
  obtain ⟨q, hq, hcalls⟩ := h.calls c hc
  rw [hcalls.fst_eq y hy, hq]
  exact hid c hc

theorem Entered.stays_iff {c : EntryRun} (hc : c ∈ entries) :
    Stays config t c.err ↔ c.gone = false := by
  obtain ⟨q, -, hcalls⟩ := h.calls c hc
  rw [Stays, h.answersAbout_entry hc]
  exact hcalls.gone_iff.symm

/-- The entries that stay are those of the keys that failed. -/
theorem Entered.filter_stays : (t.flatMap S3rm.reported).filter (fun err => Stays config t err) =
    (entries.filter fun c => !c.gone).map EntryRun.err := by
  rw [h.reported, List.filter_map]
  congr 1
  refine List.filter_congr fun c hc => ?_
  have hiff := h.stays_iff hc
  cases hg : c.gone <;> simpa [hg] using hiff

theorem Entered.noted_eq : t.flatMap S3rm.noted =
    ((t.flatMap S3rm.reported).filter fun err => Stays config t err).map
      fun err => .deleteError err.keyOr := by
  rw [h.filter_stays, h.noted, List.map_map]
  clear h
  induction entries with
  | nil => rfl
  | cons c entries ih =>
    rw [List.flatMap_cons, ih]
    cases hg : c.gone <;> simp [EntryRun.stats, hg]

/-- A reported key that is listed as deleted and not as failed was deleted by a call. -/
theorem Entered.succeeded {err : DeleteErrorEntry} (herr : err ∈ t.flatMap S3rm.reported)
    (hfailed : err.id ∉ (failedKeys entries).map fun fk => (fk.key, fk.versionId)) :
    .ok () ∈ answersAbout err.id t := by
  rw [h.reported] at herr
  obtain ⟨c, hc, rfl⟩ := List.mem_map.mp herr
  obtain ⟨q, -, hcalls⟩ := h.calls c hc
  rw [h.answersAbout_entry hc]
  refine hcalls.succeeded ?_
  by_contra hgone
  refine hfailed (List.mem_map.mpr ⟨c.err.toFailedKey, ?_, rfl⟩)
  exact List.mem_map.mpr ⟨c, List.mem_filter.mpr ⟨hc, by simpa using hgone⟩, rfl⟩

theorem Entered.failedKeys_eq : failedKeys entries =
    ((t.flatMap S3rm.reported).filter fun err => Stays config t err).map
      DeleteErrorEntry.toFailedKey := by
  rw [h.filter_stays, List.map_map]
  rfl

end entered

/-! ### The whole batch -/

/-- Projections of the events of chunks: what is in the requests, and what in
the fallback. -/
theorem flatMap_runs {α : Type} {f : Event → List α} {runs : List ChunkRun}
    (hf : ∀ c ∈ runs, ∀ e ∈ c.entries.flatMap EntryRun.trace, f e = []) :
    (runs.flatMap (ChunkRun.events config)).flatMap f = runs.flatMap fun c =>
      f ⟨.deleteObjects (c.chunk.map (objectIdentifier config)), .ok c.response⟩ := by
  induction runs with
  | nil => rfl
  | cons c runs ih =>
    rw [List.flatMap_cons, List.flatMap_append, ih fun x hx => hf x (List.mem_cons_of_mem c hx),
      ChunkRun.events, List.flatMap_cons, List.flatMap_eq_nil_iff.mpr (hf c List.mem_cons_self),
      List.append_nil]
    rfl

theorem flatMap_runs_entries {α : Type} {f : Event → List α} {runs : List ChunkRun}
    (hf : ∀ objects r, f ⟨.deleteObjects objects, r⟩ = []) :
    (runs.flatMap (ChunkRun.events config)).flatMap f =
      (runs.flatMap ChunkRun.entries).flatMap fun c => c.trace.flatMap f := by
  induction runs with
  | nil => rfl
  | cons c runs ih =>
    rw [List.flatMap_cons, List.flatMap_append, ih, List.flatMap_cons, List.flatMap_append,
      ChunkRun.events, List.flatMap_cons, hf, List.nil_append, List.flatMap_assoc]

/-- Single requests are not batched. -/
theorem submitted_fallback {runs : List ChunkRun} (hruns : ∀ c ∈ runs, c.Ok config) :
    ∀ c ∈ runs, ∀ e ∈ c.entries.flatMap EntryRun.trace, ∀ objects, e.1 ≠ .deleteObjects objects := by
  intro c hc e he objects hop
  obtain ⟨x, hx, he⟩ := List.mem_flatMap.mp he
  obtain ⟨op, r⟩ := e
  subst hop
  exact ((hruns c hc).entries x hx).unbatched objects r he

theorem submitted_runs {runs : List ChunkRun} (hruns : ∀ c ∈ runs, c.Ok config) :
    (runs.flatMap (ChunkRun.events config)).flatMap submitted =
      (runs.map ChunkRun.chunk).map fun chunk => chunk.map (objectIdentifier config) := by
  rw [flatMap_runs, List.map_map, List.map_eq_flatMap]
  · rfl
  · intro c hc e he
    have hne := submitted_fallback hruns c hc e he
    rcases e with ⟨op, r⟩
    cases op
    case deleteObjects => exact absurd rfl (hne _)
    all_goals rfl

/-- What is submitted: the chunks in order, all of them when nothing fails. -/
theorem batch_submitted {r : Except Error DeleteResult} (h : Run (batchDelete config objects) t r) :
    t.flatMap submitted <+:
        (batchChunks config objects).map (fun chunk => chunk.map (objectIdentifier config)) ∧
      ((∃ result, r = .ok result) → t.flatMap submitted =
        (batchChunks config objects).map fun chunk => chunk.map (objectIdentifier config)) := by
  obtain ⟨runs, hok, ⟨-, rfl, hchunks⟩ | ⟨chunk, left, e, rfl, hchunks, rfl⟩⟩ := run_batchDelete h
  · rw [submitted_runs hok, hchunks]
    exact ⟨List.prefix_refl _, fun _ => rfl⟩
  · refine ⟨⟨left.map fun chunk => chunk.map (objectIdentifier config), ?_⟩, by simp⟩
    rw [List.flatMap_append, submitted_runs hok, ← hchunks]
    simp [submitted]

/-- A batch returns a result when none of its requests fails. -/
theorem batch_ok_iff {r : Except Error DeleteResult} (h : Run (batchDelete config objects) t r) :
    (∃ result, r = .ok result) ↔
      ∀ identifiers e, (⟨.deleteObjects identifiers, .error e⟩ : Event) ∉ t := by
  obtain ⟨runs, hok, ⟨rfl, rfl, -⟩ | ⟨chunk, left, e, rfl, -, rfl⟩⟩ := run_batchDelete h
  · refine ⟨fun _ identifiers e hmem => ?_, fun _ => ⟨_, rfl⟩⟩
    obtain ⟨c, hc, hmem⟩ := List.mem_flatMap.mp hmem
    rcases List.mem_cons.mp hmem with heq | hmem
    · cases heq
    · exact submitted_fallback hok c hc _ hmem identifiers rfl
  · constructor
    · rintro ⟨result, hr⟩
      cases hr
    · intro hnone
      exact absurd (by simp) (hnone (chunk.map (objectIdentifier config)) e)

/-- The error entries of a batch, with what was done about them. -/
theorem batch_entered {r : Except Error DeleteResult} (h : Run (batchDelete config objects) t r)
    (hsize : 0 < config.batchSize) (hnodup : (objects.map S3Object.id).Nodup)
    (hecho : ∀ e ∈ t, Echoes e) :
    ∃ entries, Entered config t entries ∧
      ∀ result, r = .ok result → result.failed = failedKeys entries := by
  obtain ⟨runs, hok, hend⟩ := run_batchDelete h
  -- the events of the chunks, and perhaps a request that failed
  obtain ⟨tail, rfl, htail, hchunks⟩ : ∃ tail : Trace,
      t = runs.flatMap (ChunkRun.events config) ++ tail ∧
      (tail.flatMap reported = [] ∧ tail.flatMap called = [] ∧ tail.flatMap noted = []) ∧
      runs.map ChunkRun.chunk <+: batchChunks config objects := by
    rcases hend with ⟨-, rfl, hchunks⟩ | ⟨chunk, left, e, -, hchunks, rfl⟩
    · exact ⟨[], by simp, ⟨rfl, rfl, rfl⟩, by rw [hchunks]⟩
    · exact ⟨_, rfl, ⟨rfl, rfl, rfl⟩, ⟨chunk :: left, hchunks⟩⟩
  have herrors : ∀ {runs : List ChunkRun}, (∀ c ∈ runs, c.Ok config) →
      (runs.flatMap fun c => c.response.errors) =
        (runs.flatMap ChunkRun.entries).map EntryRun.err := by
    intro runs hok
    rw [List.map_flatMap]
    exact List.flatMap_congr fun c hc => ((hok c hc).errors).symm
  refine ⟨runs.flatMap ChunkRun.entries, ⟨?_, ?_, ?_, ?_, ?_⟩, ?_⟩
  · rw [List.flatMap_append, htail.1, List.append_nil, flatMap_runs, ← herrors hok]
    · rfl
    · intro c hc e he
      have hne := submitted_fallback hok c hc e he
      rcases e with ⟨op, r⟩
      cases op
      case deleteObjects => exact absurd rfl (hne _)
      all_goals rfl
  · rw [List.flatMap_append, htail.2.1, List.append_nil, flatMap_runs_entries fun _ _ => rfl]
  · rw [List.flatMap_append, htail.2.2, List.append_nil, flatMap_runs_entries fun _ _ => rfl]
    refine List.flatMap_congr fun x hx => ?_
    obtain ⟨c, hc, hx⟩ := List.mem_flatMap.mp hx
    exact ((hok c hc).entries x hx).counted.noted
  · intro x hx
    obtain ⟨c, hc, hx⟩ := List.mem_flatMap.mp hx
    exact ⟨_, rfl, ((hok c hc).entries x hx).calls⟩
  · -- the entries are about objects of the batch, each about another one
    have hids : (runs.flatMap fun c => c.response.ids).Perm
        ((runs.map ChunkRun.chunk).flatten.map S3Object.id) := chunks_ids fun c hc => by
      have := (hecho _ (List.mem_append_left _
        (List.mem_flatMap.mpr ⟨c, hc, List.mem_cons_self⟩))).ids
      rwa [identifiers_ids] at this
    have hobjects : (runs.map ChunkRun.chunk).flatten <+: objects := by
      obtain ⟨left, hleft⟩ := hchunks
      have hpos : 0 < min config.batchSize maxBatchSize := Nat.lt_min.mpr ⟨hsize, by decide⟩
      rw [← chunks_flatten hpos objects, ← batchChunks, ← hleft, List.flatten_append]
      exact List.prefix_append _ _
    have hall : (runs.flatMap fun c => c.response.ids).Nodup :=
      hids.nodup_iff.mpr (hnodup.sublist (hobjects.sublist.map _))
    have hsub : ((runs.flatMap ChunkRun.entries).map fun c => c.err.id).Sublist
        (runs.flatMap fun c => c.response.ids) := by
      have hmap : ((runs.flatMap ChunkRun.entries).map fun c => c.err.id) =
          (runs.flatMap fun c => c.response.errors).map DeleteErrorEntry.id := by
        rw [herrors hok, List.map_map]
        rfl
      rw [hmap, List.map_flatMap]
      exact List.Sublist.flatMap_right _ fun c _ => List.sublist_append_right _ _
    exact hall.sublist hsub
  · intro result hr
    rcases hend with ⟨hr', -, -⟩ | ⟨_, _, _, hr', -, -⟩
    · rw [hr'] at hr
      obtain rfl := Except.ok.inj hr
      show runs.flatMap ChunkRun.failed = _
      simp only [failedKeys, List.filter_flatMap, List.map_flatMap]
      rfl
    · rw [hr'] at hr
      cases hr

/-- **`BatchDeleter::delete` accounts for every key.**  Whatever the answers, as
long as each response lists what was submitted once: the objects are submitted
in order, in requests of at most `min batchSize 1000`, each with its version id
and, under `--if-match`, its ETag; when no request fails, every object is once
in the result, as failed exactly when its reported error stays, and as deleted in
spite of an error only after a DeleteObject call that succeeded; a key whose error
is permanent is not asked for again, nor is one after its first success, nor
more often than the retry count allows; and each error that stays is sent once
as a statistic. -/
theorem batch_keys {r : Except Error DeleteResult} (h : Run (batchDelete config objects) t r)
    (hsize : 0 < config.batchSize) (hnodup : (objects.map S3Object.id).Nodup)
    (hecho : ∀ e ∈ t, Echoes e) :
    ((t.flatMap submitted).flatten <+: objects.map (fun o =>
        ⟨o.key, o.versionId, if config.ifMatch then o.eTag else none⟩) ∧
      ∀ identifiers ∈ t.flatMap submitted, identifiers.length ≤ min config.batchSize 1000) ∧
    ((∃ result, r = .ok result) ↔
      ∀ identifiers e, (⟨.deleteObjects identifiers, .error e⟩ : Event) ∉ t) ∧
    (∀ result, r = .ok result →
      (t.flatMap submitted).flatten = objects.map (fun o =>
        ⟨o.key, o.versionId, if config.ifMatch then o.eTag else none⟩) ∧
      result.ids.Perm (objects.map S3Object.id) ∧ result.ids.Nodup ∧
      (∀ o ∈ objects, o.id ∈ result.failed.map (fun fk => (fk.key, fk.versionId)) ↔
        ∃ err ∈ t.flatMap reported, err.id = o.id ∧ Stays config t err) ∧
      (∀ err ∈ t.flatMap reported, err.id ∈ result.deleted.map (fun dk => (dk.key, dk.versionId)) →
        .ok () ∈ answersAbout err.id t) ∧
      t.flatMap noted = result.failed.map fun fk => .deleteError fk.key) ∧
    (∀ id, (∀ err ∈ t.flatMap reported, err.id = id → isRetryableErrorCode err.codeOr = false) →
      answersAbout id t = []) ∧
    (∀ id pre post, answersAbout id t = pre ++ .ok () :: post → post = []) ∧
    (∀ id, (answersAbout id t).length ≤ config.forceRetryConfig.forceRetryCount + 1) ∧
    t.flatMap noted = ((t.flatMap reported).filter fun err => Stays config t err).map
      fun err => .deleteError err.keyOr := by
  obtain ⟨entries, hentered, hfailed⟩ := batch_entered h hsize hnodup hecho
  have hpos : 0 < min config.batchSize maxBatchSize := Nat.lt_min.mpr ⟨hsize, by decide⟩
  have hobjects : ((batchChunks config objects).map fun chunk =>
      chunk.map (objectIdentifier config)).flatten = objects.map (objectIdentifier config) := by
    rw [← List.map_flatten, batchChunks, chunks_flatten hpos]
  obtain ⟨hpre, hall⟩ := batch_submitted h
  -- the calls about an id are those of the one entry about it, if any
  have hid : ∀ id, (∃ c ∈ entries, c.err.id = id) ∨ answersAbout id t = [] := by
    intro id
    by_cases hc : ∃ c ∈ entries, c.err.id = id
    · exact .inl hc
    · exact .inr (hentered.answersAbout_other fun c hmem heq => hc ⟨c, hmem, heq⟩)
  refine ⟨⟨?_, ?_⟩, batch_ok_iff h, fun result hr => ⟨?_, ?_, ?_, ?_, ?_, ?_⟩, ?_, ?_, ?_, hentered.noted_eq⟩
  · obtain ⟨left, hleft⟩ := hpre
    show _ <+: objects.map (objectIdentifier config)
    rw [← hobjects, ← hleft, List.flatten_append]
    exact List.prefix_append _ _
  · intro identifiers hmem
    obtain ⟨chunk, hchunk, rfl⟩ := List.mem_map.mp (hpre.subset hmem)
    rw [List.length_map]
    exact length_le_of_mem_chunks hchunk
  · show _ = objects.map (objectIdentifier config)
    rw [hall ⟨result, hr⟩, hobjects]
  · subst hr
    exact (run_batchDelete_result hsize h).2 hecho
  · subst hr
    exact ((run_batchDelete_result hsize h).2 hecho).nodup_iff.mpr hnodup
  · intro o _
    rw [hfailed result hr, hentered.failedKeys_eq]
    simp only [List.map_map, List.mem_map, List.mem_filter, decide_eq_true_eq]
    constructor
    · rintro ⟨err, ⟨herr, hstays⟩, heq⟩
      exact ⟨err, herr, heq, hstays⟩
    · rintro ⟨err, herr, heq, hstays⟩
      exact ⟨err, ⟨herr, hstays⟩, heq⟩
  · intro err herr hdeleted
    refine hentered.succeeded herr fun hmem => ?_
    rw [← hfailed result hr] at hmem
    have hids : result.ids.Nodup := by
      subst hr
      exact ((run_batchDelete_result hsize h).2 hecho).nodup_iff.mpr hnodup
    exact List.disjoint_of_nodup_append hids hdeleted hmem
  · subst hr
    exact (run_batchDelete_result hsize h).1.noted
  · intro id hperm
    rcases hid id with ⟨c, hc, rfl⟩ | hnone
    · obtain ⟨q, -, hcalls⟩ := hentered.calls c hc
      have herr : c.err ∈ t.flatMap reported := by
        rw [hentered.reported]
        exact List.mem_map_of_mem hc
      rw [hentered.answersAbout_entry hc, hcalls.nil_of_permanent (hperm _ herr rfl)]
      rfl
    · exact hnone
  · intro id pre post hsplit
    rcases hid id with ⟨c, hc, rfl⟩ | hnone
    · obtain ⟨q, -, hcalls⟩ := hentered.calls c hc
      rw [hentered.answersAbout_entry hc] at hsplit
      exact hcalls.stops hsplit
    · rw [hnone] at hsplit
      simp at hsplit
  · intro id
    rcases hid id with ⟨c, hc, rfl⟩ | hnone
    · obtain ⟨q, -, hcalls⟩ := hentered.calls c hc
      rw [hentered.answersAbout_entry hc, List.length_map]
      exact hcalls.length_le
    · rw [hnone]
      exact Nat.zero_le _

/-! ### Two chunks -/

def keysConfig : Config where
  batchSize := 2
  forceRetryConfig := { forceRetryCount := 1 }
  ifMatch := true

def keysObjects : List S3Object :=
  [sampleObject "a" 1, sampleObject "b" 2, sampleObject "c" 3]

/-- One key fails for good, and one is deleted at the second attempt. -/
def keysTrace : Trace :=
  [⟨.deleteObjects [⟨"a", none, some "a"⟩, ⟨"b", none, some "b"⟩],
      .ok ⟨[⟨some "a", none⟩], [⟨some "b", none, some "AccessDenied", none⟩]⟩⟩,
    ⟨.sendStats (.deleteError "b"), ()⟩,
    ⟨.deleteObjects [⟨"c", none, some "c"⟩], .ok ⟨[], [⟨some "c", none, some "SlowDown", none⟩]⟩⟩,
    ⟨.deleteObject "c" none (some "c"), .error (.other "timeout")⟩,
    ⟨.sleep keysConfig.forceRetryConfig.forceRetryIntervalMilliseconds, ()⟩,
    ⟨.deleteObject "c" none (some "c"), .ok ()⟩]

def keysResult : DeleteResult where
  deleted := [⟨"a", none⟩, ⟨"c", none⟩]
  failed := [⟨"b", none, "AccessDenied", "no message"⟩]

theorem keysTrace_run : Run (batchDelete keysConfig keysObjects) keysTrace (.ok keysResult) :=
  ⟨_, _, rfl, _, _, rfl, _, _, rfl, _, _, rfl, _, _, rfl, _, _, rfl, rfl, rfl⟩

theorem keysTrace_echoes : ∀ e ∈ keysTrace, Echoes e := by
  intro e he
  simp only [keysTrace, List.mem_cons, List.not_mem_nil, or_false] at he
  rcases he with rfl | rfl | rfl | rfl | rfl | rfl
  · show List.Perm _ _
    decide
  · trivial
  · show List.Perm _ _
    decide
  · trivial
  · trivial
  · trivial

/-- `batch_keys` on that run. -/
theorem batch_keys_keysTrace :
    keysResult.ids.Perm (keysObjects.map S3Object.id) ∧
      (keysTrace.flatMap submitted).flatten =
        [⟨"a", none, some "a"⟩, ⟨"b", none, some "b"⟩, ⟨"c", none, some "c"⟩] ∧
      keysTrace.flatMap noted = [.deleteError "b"] := by
  obtain ⟨-, -, hresult, -⟩ := batch_keys keysTrace_run (by decide) (by decide) keysTrace_echoes
  obtain ⟨hall, hids, -, -, -, hnoted⟩ := hresult keysResult rfl
  exact ⟨hids, hall, hnoted⟩

end S3rm
