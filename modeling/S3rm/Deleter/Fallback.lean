/-
S3rm/Deleter/Fallback.lean

Where the fallback of `BatchDeleter::delete` goes.  It takes its target from the
error entries of the response, with "unknown" for an absent key, and not from
the request; so whether it stays in the batch is up to the responses.

    exchanges t             the DeleteObjects requests of a trace, each with its
                            response and the DeleteObject requests before the next
    fallback_stays_iff      the fallback stays in every chunk exactly when every
                            retryable error entry names an object of its chunk
    fallback_leaves_batch   an entry without a key makes it leave
-/
import S3rm.Deleter.Results

namespace S3rm

open Conc Conc.Prog

variable {config : Config} {chunk objects : List S3Object} {t u : Trace}

/-! ### Exchanges with the storage -/

/-- A DeleteObjects request with its response, and the single requests that follow. -/
structure Exchange where
  submitted : List ObjectIdentifier
  response : DeleteObjectsOutput
  fallbacks : List Request
  deriving DecidableEq

/-- The single requests up to the next DeleteObjects request. -/
def fallbacks : Trace → List Request
  | [] => []
  | ⟨.deleteObjects _, _⟩ :: _ => []
  | e :: t => asked e ++ fallbacks t

/-- The exchanges of a trace, in order. -/
def exchanges : Trace → List Exchange
  | [] => []
  | ⟨.deleteObjects objects, .ok output⟩ :: t => ⟨objects, output, fallbacks t⟩ :: exchanges t
  | _ :: t => exchanges t

theorem fallbacks_append (hu : Unbatched u) : fallbacks (u ++ t) = u.flatMap asked ++ fallbacks t := by
  induction u with
  | nil => rfl
  | cons e u ih =>
    have ih := ih fun objects r hr => hu objects r (List.mem_cons_of_mem e hr)
    rcases e with ⟨o, r⟩
    cases o
    case deleteObjects => exact absurd List.mem_cons_self (hu _ _)
    all_goals
      rw [List.flatMap_cons, List.append_assoc, ← ih]
      rfl

theorem exchanges_append (hu : Unbatched u) : exchanges (u ++ t) = exchanges t := by
  induction u with
  | nil => rfl
  | cons e u ih =>
    have ih := ih fun objects r hr => hu objects r (List.mem_cons_of_mem e hr)
    rcases e with ⟨o, r⟩
    cases o
    case deleteObjects => exact absurd List.mem_cons_self (hu _ _)
    all_goals
      rw [← ih]
      rfl

/-- What the entries of a chunk are dealt with by. -/
theorem ChunkRun.Ok.unbatched {c : ChunkRun} (h : c.Ok config) :
    Unbatched (c.entries.flatMap EntryRun.trace) := by
  intro objects r hmem
  obtain ⟨e, he, hmem⟩ := List.mem_flatMap.mp hmem
  exact (h.entries e he).unbatched objects r hmem

/-- The exchange of one chunk. -/
def ChunkRun.exchange (config : Config) (c : ChunkRun) : Exchange :=
  ⟨c.chunk.map (objectIdentifier config), c.response, (c.entries.flatMap EntryRun.trace).flatMap asked⟩

/-- The exchanges of chunks, before a trace that is empty or begins with a request. -/
theorem exchanges_chunks {runs : List ChunkRun} (hruns : ∀ c ∈ runs, c.Ok config)
    (ht : fallbacks t = []) :
    fallbacks (runs.flatMap (ChunkRun.events config) ++ t) = [] ∧
      exchanges (runs.flatMap (ChunkRun.events config) ++ t) =
        runs.map (ChunkRun.exchange config) ++ exchanges t := by
  induction runs with
  | nil => exact ⟨ht, rfl⟩
  | cons c runs ih =>
    obtain ⟨hf, hx⟩ := ih fun c hc => hruns c (List.mem_cons_of_mem _ hc)
    have hc := (hruns c List.mem_cons_self).unbatched
    refine ⟨rfl, ?_⟩
    rw [List.flatMap_cons, List.append_assoc, ChunkRun.events, List.cons_append, exchanges,
      fallbacks_append hc, exchanges_append hc, hf, hx, List.append_nil]
    rfl

/-- A run of `BatchDeleter::delete` as exchanges about its chunks, one by one. -/
theorem exchanges_batchDelete {r : Except Error DeleteResult}
    (h : Run (batchDelete config objects) t r) :
    ∃ runs : List ChunkRun, (∀ c ∈ runs, c.Ok config) ∧
      runs.map ChunkRun.chunk <+: batchChunks config objects ∧
      exchanges t = runs.map (ChunkRun.exchange config) := by
  obtain ⟨runs, hok, ⟨-, rfl, hchunks⟩ | ⟨chunk, left, e, -, hchunks, rfl⟩⟩ := run_batchDelete h
  · refine ⟨runs, hok, ?_, ?_⟩
    · rw [hchunks]
    · have hx := (exchanges_chunks (t := []) hok rfl).2
      rw [List.append_nil] at hx
      rw [hx]
      exact List.append_nil _
  · refine ⟨runs, hok, ⟨chunk :: left, hchunks⟩, ?_⟩
    rw [(exchanges_chunks hok rfl).2]
    exact List.append_nil _

/-! ### Staying in the batch -/

/-- The request names an object of the chunk, with its ETag where there is to be one. -/
def StaysInChunk (config : Config) (chunk : List S3Object) (q : Request) : Prop :=
  ∃ o ∈ chunk, q.id = o.id ∧
    (config.ifMatch = true → ∀ etag, o.eTag = some etag → q.ifMatch = some etag)

/-- The entry names an object of the chunk. -/
def NamesObject (chunk : List S3Object) (err : DeleteErrorEntry) : Prop :=
  ∃ o ∈ chunk, err.id = o.id

theorem staysInChunk_iff {err : DeleteErrorEntry} :
    StaysInChunk config chunk (fallbackRequest config chunk err) ↔ NamesObject chunk err := by
  constructor
  · rintro ⟨o, ho, hid, -⟩
    exact ⟨o, ho, hid⟩
  · rintro ⟨o, ho, hid⟩
    -- the lookup may find another object of that id: its ETag is the one sent
    obtain ⟨o', hfound⟩ := objLookup_isSome ho
    obtain ⟨hmem, hid'⟩ := objLookup_some hfound
    refine ⟨o', hmem, hid.trans hid'.symm, fun hmatch etag hetag => ?_⟩
    show fallbackETag config chunk err = some etag
    rw [fallbackETag, if_pos hmatch, hid, hfound]
    exact hetag

/-- One chunk: its fallback stays in it exactly when its retryable entries do. -/
theorem ChunkRun.Ok.stays_iff {c : ChunkRun} (h : c.Ok config) :
    (∀ q ∈ (c.exchange config).fallbacks, StaysInChunk config c.chunk q) ↔
      ∀ err ∈ (c.exchange config).response.errors, isRetryableErrorCode err.codeOr = true →
        NamesObject c.chunk err := by
  have hasked : ∀ q, q ∈ (c.exchange config).fallbacks ↔
      ∃ e ∈ c.entries, isRetryableErrorCode e.err.codeOr = true ∧
        q = fallbackRequest config c.chunk e.err := by
    intro q
    show q ∈ (c.entries.flatMap EntryRun.trace).flatMap asked ↔ _
    rw [List.flatMap_assoc, List.mem_flatMap]
    constructor
    · rintro ⟨e, he, hq⟩
      exact ⟨e, he, ((h.entries e he).asked_iff).mp hq⟩
    · rintro ⟨e, he, hq⟩
      exact ⟨e, he, ((h.entries e he).asked_iff).mpr hq⟩
  constructor
  · intro hstay err herr hretry
    have herr : err ∈ c.entries.map EntryRun.err := by
      rw [h.errors]
      exact herr
    obtain ⟨e, he, rfl⟩ := List.mem_map.mp herr
    exact staysInChunk_iff.mp (hstay _ ((hasked _).mpr ⟨e, he, hretry, rfl⟩))
  · intro hnames q hq
    obtain ⟨e, he, hretry, rfl⟩ := (hasked q).mp hq
    refine staysInChunk_iff.mpr (hnames e.err ?_ hretry)
    show e.err ∈ c.response.errors
    rw [← h.errors]
    exact List.mem_map_of_mem he

/-! ### When the fallback stays in the batch -/

/-- The exchanges of a run with the chunks they are about. -/
def chunkExchanges (config : Config) (objects : List S3Object) (t : Trace) :
    List (Exchange × List S3Object) :=
  (exchanges t).zip (batchChunks config objects)

/-- Runs against their chunks: a property of each is one of each pair. -/
theorem forall_chunkExchanges {runs : List ChunkRun} {P : Exchange → List S3Object → Prop}
    (hchunks : runs.map ChunkRun.chunk <+: batchChunks config objects)
    (hx : exchanges t = runs.map (ChunkRun.exchange config)) :
    (∀ p ∈ chunkExchanges config objects t, P p.1 p.2) ↔
      ∀ c ∈ runs, P (c.exchange config) c.chunk := by
  obtain ⟨left, hleft⟩ := hchunks
  have hzip : chunkExchanges config objects t =
      runs.map fun c => (c.exchange config, c.chunk) := by
    rw [chunkExchanges, hx, ← hleft]
    clear hx hleft
    induction runs with
    | nil => rfl
    | cons c runs ih =>
      rw [List.map_cons, List.map_cons, List.cons_append, List.zip_cons_cons, ih]
      rfl
  rw [hzip]
  exact List.forall_mem_map

/-- **When the fallback stays in the submitted batch**: in any run, whatever the
responses, every DeleteObject request it sends names an object of the chunk just
submitted, under its ETag, if and only if every retryable error entry (its key
read as "unknown" when absent) names an object of that chunk. -/
theorem fallback_stays_iff {r : Except Error DeleteResult} (h : Run (batchDelete config objects) t r) :
    (∀ p ∈ chunkExchanges config objects t, ∀ q ∈ p.1.fallbacks, StaysInChunk config p.2 q) ↔
      ∀ p ∈ chunkExchanges config objects t, ∀ err ∈ p.1.response.errors,
        isRetryableErrorCode err.codeOr = true → NamesObject p.2 err := by
  obtain ⟨runs, hok, hchunks, hx⟩ := exchanges_batchDelete h
  rw [forall_chunkExchanges (P := fun x chunk => ∀ q ∈ x.fallbacks, StaysInChunk config chunk q)
      hchunks hx,
    forall_chunkExchanges (P := fun x chunk => ∀ err ∈ x.response.errors,
      isRetryableErrorCode err.codeOr = true → NamesObject chunk err) hchunks hx]
  constructor
  · intro hstay c hc
    exact (hok c hc).stays_iff.mp (hstay c hc)
  · intro hnames c hc
    exact (hok c hc).stays_iff.mpr (hnames c hc)

/-! ### An entry without a key -/

/-- Two objects, and a response that reports one transient error without a key. -/
def unnamedObjects : List S3Object := [sampleObject "a" 1, sampleObject "b" 1]

def unnamedOutput : DeleteObjectsOutput where
  deleted := [⟨some "a", none⟩]
  errors := [{ key := none, versionId := none, code := some "InternalError", message := none }]

def unnamedConfig : Config where
  ifMatch := true

def unnamedTrace : Trace :=
  [⟨.deleteObjects (unnamedObjects.map (objectIdentifier unnamedConfig)), .ok unnamedOutput⟩,
    ⟨.deleteObject "unknown" none none, .ok ()⟩]

theorem unnamedTrace_run : Run (batchDelete unnamedConfig unnamedObjects) unnamedTrace
    (.ok ⟨[⟨"a", none⟩, ⟨"unknown", none⟩], []⟩) :=
  ⟨_, _, rfl, _, _, rfl, rfl, rfl⟩

/-- The fallback asks to delete "unknown", which is not in the batch. -/
theorem fallback_leaves_batch :
    ¬ ∀ (config : Config) (objects : List S3Object) (t : Trace) (r : Except Error DeleteResult),
      Run (batchDelete config objects) t r →
        ∀ p ∈ chunkExchanges config objects t, ∀ q ∈ p.1.fallbacks, StaysInChunk config p.2 q := by
  intro hstay
  obtain ⟨o, ho, hid, -⟩ := hstay _ _ _ _ unnamedTrace_run
    (⟨unnamedObjects.map (objectIdentifier unnamedConfig), unnamedOutput,
      [⟨("unknown", none), none⟩]⟩, unnamedObjects) (by decide) ⟨("unknown", none), none⟩ (by decide)
  revert o
  decide

/-- `fallback_stays_iff` on that run. -/
theorem fallback_stays_iff_unnamedTrace :
    ¬ ∀ p ∈ chunkExchanges unnamedConfig unnamedObjects unnamedTrace,
      ∀ q ∈ p.1.fallbacks, StaysInChunk unnamedConfig p.2 q := by
  rw [fallback_stays_iff unnamedTrace_run]
  intro hnames
  obtain ⟨o, ho, hid⟩ := hnames
    (⟨unnamedObjects.map (objectIdentifier unnamedConfig), unnamedOutput,
      [⟨("unknown", none), none⟩]⟩, unnamedObjects) (by decide)
    { key := none, versionId := none, code := some "InternalError", message := none } (by decide)
    (by decide)
  revert o
  decide

end S3rm
