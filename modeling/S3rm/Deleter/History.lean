/-
S3rm/Deleter/History.lean

What a delete worker does, told object by object.  At the head of its loop, and
when it has returned, its trace is a history: a sequence of deeds, each done from
the buffer the one before left behind.

    skip     an object is received and rejected by the worker's filters
    draw     an object is received and draws a ticket; it joins the buffer when
             the ticket is within the limit
    settle   the buffer is passed on, or simulated, and its result is reported
    exceed   an object over the limit is reported
    look     nothing happens to any object

What the trace shows of objects, tickets, batches and statistics can be read off
the deeds.
-/
import S3rm.Deleter.Buffer

namespace S3rm

open Conc Conc.Prog

variable {stage : Stage} {A : Answers} {o : S3Object} {b b' : List S3Object}
  {result : DeleteResult} {p t u v z : Trace}

/-! ### Deeds -/

inductive Deed where
  | skip (o : S3Object)
  | draw (o : S3Object) (ticket : Nat)
  | settle (batch : List S3Object) (result : DeleteResult)
  | exceed (o : S3Object)
  | look

namespace Deed

/-- The object a deed receives. -/
def received : Deed → List S3Object
  | skip o | draw o _ => [o]
  | _ => []

/-- The object a deed rejects. -/
def skipped : Deed → List S3Object
  | skip o => [o]
  | _ => []

/-- The object that draws a ticket, with the ticket. -/
def drawn : Deed → List (S3Object × Nat)
  | draw o k => [(o, k)]
  | _ => []

/-- The batch a deed deals with. -/
def batch : Deed → List S3Object
  | settle batch _ => batch
  | _ => []

/-- The statistics of a deed. -/
def stats : Deed → List DeletionStatistics
  | skip o => [.deleteSkip o.key]
  | settle batch result => result.errorStats ++ completeStats batch result
  | exceed o => [.deleteError o.key]
  | _ => []

end Deed

/-- Looking at the token or at an ended channel. -/
def Event.isLook : Event → Prop
  | ⟨.isCancelled, _⟩ | ⟨.isClosed _, _⟩ | ⟨.select _, .received none⟩ | ⟨.select _, .cancelled⟩ => True
  | _ => False

/-- The flushes of the buffer `b` that come to a result. -/
inductive Dealt (stage : Stage) (b : List S3Object) : Trace → DeleteResult → Prop
  | simulated {w : Trace} (dry : stage.config.dryRun)
      (finish : Run (finishBatch stage b (dryRunResult b)) w (.ok ())) :
      Dealt stage b (⟨.isCancelled, false⟩ :: w) (dryRunResult b)
  | deleted {o : S3Object} {rest : List S3Object} {v w : Trace} {result : DeleteResult}
      (h : b = o :: rest) (wet : stage.config.dryRun = false)
      (delete : Run (deleterDelete stage.config o rest) v (.ok result))
      (finish : Run (finishBatch stage b result) w (.ok ())) :
      Dealt stage b (⟨.isCancelled, false⟩ :: ⟨.beginDelete b, ()⟩ :: (v ++ w)) result

/-- The trace of a deed done with the buffer `b`, and the buffer it leaves. -/
inductive Did (stage : Stage) (b : List S3Object) : Deed → Trace → List S3Object → Prop
  | skip {o : S3Object} {w : Trace} (screened : Run (screen stage.config o) w (.ok true)) :
      Did stage b (.skip o) (⟨.select stage.receiver, .received (some o)⟩ :: w) b
  | draw {o : S3Object} {w : Trace} {k : Nat}
      (screened : Run (screen stage.config o) w (.ok false)) :
      Did stage b (.draw o k) (⟨.select stage.receiver, .received (some o)⟩ :: (w ++ [⟨.fetchAdd, k⟩]))
        (if withinLimit stage.config k then b ++ [o] else b)
  | settle {z : Trace} {result : DeleteResult} (dealt : Dealt stage b z result)
      (fits : b.length ≤ effectiveBatchSize stage.config) : Did stage b (.settle b result) z []
  | exceed {o : S3Object} {y : Trace} (stop : OverLimit o y) : Did stage b (.exceed o) y b
  | look {u : Trace} (looks : ∀ e ∈ u, Event.isLook e) : Did stage b .look u b

/-- A worker that has done the deeds, in the trace, has the buffer. -/
inductive History (stage : Stage) : List Deed → Trace → List S3Object → Prop
  | nil : History stage [] [] []
  | snoc {ds : List Deed} {t u : Trace} {b b' : List S3Object} {d : Deed} :
      History stage ds t b → Did stage b d u b' → History stage (ds ++ [d]) (t ++ u) b'

variable {ds : List Deed} {d : Deed}

/-! ### Reading a history -/

/-- What can be read off each deed can be read off the history. -/
theorem History.flatMap {β : Type} {f : Event → List β} {g : Deed → List β}
    (hfg : ∀ {b d u b'}, Did stage b d u b' → u.flatMap f = g d) (h : History stage ds t b) :
    t.flatMap f = ds.flatMap g := by
  induction h with
  | nil => rfl
  | snoc _ hdid ih =>
    rw [List.flatMap_append, List.flatMap_append, ih, hfg hdid, List.flatMap_singleton]

/-- Each deed is in the trace. -/
theorem History.exists_did (h : History stage ds t b) (hd : d ∈ ds) :
    ∃ b₁ u b₂ t₁ t₂, t = t₁ ++ (u ++ t₂) ∧ Did stage b₁ d u b₂ := by
  induction h with
  | nil => cases hd
  | @snoc ds t u b b' d' _ hdid ih =>
    rcases List.mem_append.mp hd with hd | hd
    · obtain ⟨b₁, v, b₂, t₁, t₂, rfl, hv⟩ := ih hd
      exact ⟨b₁, v, b₂, t₁, t₂ ++ u, by simp, hv⟩
    · obtain rfl := List.mem_singleton.mp hd
      exact ⟨b, u, b', t, [], by simp, hdid⟩

/-- Each event is in a deed. -/
theorem History.of_event {e : Event} {t₁ t₂ : Trace} (h : History stage ds t b)
    (ht : t = t₁ ++ e :: t₂) :
    ∃ d ∈ ds, ∃ b₁ u₁ u₂ b₂ v, Did stage b₁ d (u₁ ++ e :: u₂) b₂ ∧ t₂ = u₂ ++ v := by
  induction h generalizing t₂ with
  | nil => simp at ht
  | @snoc ds t u b b' d' _ hdid ih =>
    rcases List.append_eq_append_iff.mp ht with ⟨a, rfl, ha⟩ | ⟨a, rfl, ha⟩
    · -- the event is in the last deed
      exact ⟨d', by simp, b, a, t₂, b', [], ha ▸ hdid, by simp⟩
    · rcases a with - | ⟨e', a⟩
      · obtain rfl : u = e :: t₂ := by simpa using ha.symm
        exact ⟨d', by simp, b, [], t₂, b', [], hdid, by simp⟩
      · obtain ⟨rfl, rfl⟩ := List.cons.inj ha
        obtain ⟨d, hd, b₁, u₁, u₂, b₂, v, hdid', rfl⟩ := ih rfl
        exact ⟨d, List.mem_append_left _ hd, b₁, u₁, u₂, b₂, v ++ u, hdid', by simp⟩

section looks

variable {β : Type} {f : Event → List β}

theorem flatMap_looks (hf : ∀ e, Event.isLook e → f e = []) (h : ∀ e ∈ u, Event.isLook e) :
    u.flatMap f = [] :=
  List.flatMap_eq_nil_iff.mpr fun e he => hf e (h e he)

/-- A look shows nothing of objects, tickets or accounts. -/
theorem Event.isLook.quiet {e : Event} (h : Event.isLook e) (c : Nat) :
    got c e = [] ∧ tickets e = [] ∧ begun e = [] ∧ noted e = [] ∧ fired e = [] := by
  rcases e with ⟨o, r⟩
  cases o
  case select chan =>
    rcases r with (- | x) | -
    · exact ⟨rfl, rfl, rfl, rfl, rfl⟩
    · exact h.elim
    · exact ⟨rfl, rfl, rfl, rfl, rfl⟩
  case isCancelled | isClosed => exact ⟨rfl, rfl, rfl, rfl, rfl⟩
  all_goals exact h.elim

end looks

theorem Dealt.isFlush (h : Dealt stage b z result) : ∀ e ∈ z, e.1.isFlush stage.sender := by
  cases h with
  | simulated dry finish =>
    intro e he
    rcases List.mem_cons.mp he with rfl | he
    · rfl
    · exact Op.isFlush_of_isFinish (finish.uses (finishBatch_straight ..).uses e he)
  | deleted h wet delete finish => exact (Flush.deleted h wet delete finish).isFlush

/-- A flush that returns had nothing to do, found the token cancelled, or dealt
with its buffer. -/
theorem Flush.dealt (h : Flush stage b z (.ok b')) :
    (b = [] ∧ z = [] ∧ b' = []) ∨ (z = [⟨.isCancelled, true⟩] ∧ b' = b) ∨
      ∃ result, Dealt stage b z result ∧ b' = [] := by
  generalize hr : (Except.ok b' : Except Error (List S3Object)) = r at h
  cases h with
  | empty h =>
    cases hr
    exact .inl ⟨h, rfl, rfl⟩
  | cancelled =>
    cases hr
    exact .inr (.inl ⟨rfl, rfl⟩)
  | @simulated w y _ dry finish =>
    rcases y with _ | _ <;> cases hr
    exact .inr (.inr ⟨_, .simulated dry finish, rfl⟩)
  | failed => cases hr
  | @deleted _ _ _ _ _ y h wet delete finish =>
    rcases y with _ | _ <;> cases hr
    exact .inr (.inr ⟨_, .deleted h wet delete finish, rfl⟩)

/-! #### Objects and tickets -/

/-- What neither the filters nor a flush show comes from receiving an object and
from drawing its ticket. -/
theorem Did.read {β : Type} {f : Event → List β} (hscreen : ∀ e : Event, e.1.isScreening → f e = [])
    (hflush : ∀ (c : Nat) (e : Event), e.1.isFlush c → f e = [])
    (hlook : ∀ e, Event.isLook e → f e = []) (h : Did stage b d u b') :
    u.flatMap f = (d.received.flatMap fun o => f ⟨.select stage.receiver, .received (some o)⟩) ++
      d.drawn.flatMap fun a => f ⟨.fetchAdd, a.2⟩ := by
  cases h with
  | skip screened =>
    rw [List.flatMap_cons, flatMap_eq_nil_of_straight screened (screen_straight ..) hscreen]
    simp [Deed.received, Deed.drawn]
  | draw screened =>
    rw [List.flatMap_cons, List.flatMap_append,
      flatMap_eq_nil_of_straight screened (screen_straight ..) hscreen]
    simp [Deed.received, Deed.drawn]
  | settle dealt => exact List.flatMap_eq_nil_iff.mpr fun e he => hflush _ e (dealt.isFlush e he)
  | exceed stop => exact List.flatMap_eq_nil_iff.mpr fun e he => hflush 0 e (stop.isFlush 0 e he)
  | look looks => exact flatMap_looks hlook looks

theorem History.received (h : History stage ds t b) :
    t.flatMap (got stage.receiver) = ds.flatMap Deed.received := by
  apply h.flatMap
  intro b d u b' hdid
  rw [hdid.read (fun _ => got_screening) (fun _ _ => got_flush) fun _ he => (he.quiet _).1]
  cases d <;> simp [Deed.received, Deed.drawn, got]

/-- What is received is rejected or draws a ticket. -/
theorem Deed.received_perm (ds : List Deed) : (ds.flatMap Deed.received).Perm
    (ds.flatMap Deed.skipped ++ (ds.flatMap Deed.drawn).map Prod.fst) := by
  induction ds with
  | nil => exact .refl _
  | cons d ds ih =>
    simp only [List.flatMap_cons, List.map_append]
    refine (ih.append_left _).trans ?_
    rw [← List.append_assoc, ← List.append_assoc]
    refine List.Perm.append_right _ ?_
    cases d <;> simp [Deed.received, Deed.skipped, Deed.drawn]
    exact (List.perm_append_singleton _ _).symm

/-- What draws a ticket is what the worker's filters let through. -/
theorem History.selected (h : History stage ds t b) (ht : ∀ e ∈ t, A.agrees e) (hK : A.Known) :
    (ds.flatMap Deed.drawn).map Prod.fst =
      (t.flatMap (got stage.receiver)).filter (workerSelects stage.config A) := by
  induction h with
  | nil => rfl
  | @snoc ds t u b b' d hist hdid ih =>
    have ih := ih fun e he => ht e (List.mem_append_left u he)
    have hu : ∀ e ∈ u, A.agrees e := fun e he => ht e (List.mem_append_right t he)
    have hlast : (d.drawn).map Prod.fst = d.received.filter (workerSelects stage.config A) := by
      cases hdid with
      | skip screened =>
        have hrejects := (run_screen screened fun e he => hu e (List.mem_cons_of_mem _ he)).1 hK
        simp [Deed.drawn, Deed.received, hrejects]
      | draw screened =>
        have hselects : workerSelects stage.config A _ = true :=
          (run_screen screened fun e he => hu e (by simp [he])).1
        simp [Deed.drawn, Deed.received, hselects]
      | settle | exceed | look => rfl
    rw [List.flatMap_append, List.flatMap_append, List.filter_append, List.map_append, ih,
      hist.received, List.flatMap_singleton, hlast,
      hdid.read (fun _ => got_screening) (fun _ _ => got_flush) fun _ he => (he.quiet _).1]
    congr 2
    cases d <;> simp [Deed.received, Deed.drawn, got]

/-! #### Batches -/

/-- **Nothing is lost**: the batches, followed by the buffer, are the objects
that drew a ticket within the limit. -/
theorem History.conserved (h : History stage ds t b) :
    ds.flatMap Deed.batch ++ b = allowed stage.config (ds.flatMap Deed.drawn) := by
  induction h with
  | nil => rfl
  | snoc _ hdid ih =>
    rw [List.flatMap_append, List.flatMap_append, allowed, List.filter_append, List.map_append,
      ← allowed, ← ih, List.flatMap_singleton, List.flatMap_singleton]
    cases hdid with
    | draw screened =>
      split_ifs with hk <;> simp [Deed.batch, Deed.drawn, hk]
    | skip | settle | exceed | look => simp [Deed.batch, Deed.drawn]

/-- What the worker passes on is its batches. -/
theorem History.begun (h : History stage ds t b) (wet : stage.config.dryRun = false) :
    t.flatMap begun = ds.flatMap Deed.batch := by
  apply h.flatMap
  intro b d u b' hdid
  have hscreened : ∀ {w o r}, Run (screen stage.config o) w r → w.flatMap S3rm.begun = [] :=
    fun hw => flatMap_eq_nil_of_straight hw (screen_straight ..) fun _ => begun_screening
  cases hdid with
  | skip screened =>
    rw [List.flatMap_cons, hscreened screened]
    rfl
  | draw screened =>
    rw [List.flatMap_cons, List.flatMap_append, hscreened screened]
    rfl
  | settle dealt =>
    cases dealt with
    | simulated dry => simp [wet] at dry
    | deleted _ _ delete finish =>
      simp [S3rm.begun, begun_of_delete delete, begun_of_finish finish, Deed.batch]
  | exceed stop => exact stop.begun_nil
  | look looks => exact flatMap_looks (fun e he => (he.quiet 0).2.2.1) looks

/-- In a dry run, what the worker reports as done is its batches. -/
theorem History.completions (h : History stage ds t b) (dry : stage.config.dryRun = true) :
    completions t = (ds.flatMap Deed.batch).map S3Object.id := by
  induction h with
  | nil => rfl
  | snoc _ hdid ih =>
    rw [completions_append, ih, List.flatMap_append, List.map_append, List.flatMap_singleton]
    congr 1
    cases hdid with
    | skip screened =>
      rw [completions_quiet rfl, (run_screen_entries screened).completions]
      rfl
    | draw screened =>
      rw [completions_quiet rfl, completions_append, (run_screen_entries screened).completions]
      rfl
    | settle dealt =>
      cases dealt with
      | simulated _ finish =>
        rw [completions_quiet rfl, completions_of_entries (entries_finishBatch finish),
          completions_dryRun]
        rfl
      | deleted _ wet => simp [wet] at dry
    | exceed stop => exact completions_of_entries stop.entered
    | look looks =>
      rw [S3rm.completions, flatMap_looks (fun e he => (he.quiet 0).2.2.2.2) looks]
      rfl

/-! #### Statistics -/

theorem Dealt.noted (h : Dealt stage b z result) :
    z.flatMap noted = result.errorStats ++ completeStats b result := by
  cases h with
  | simulated dry finish =>
    rw [List.flatMap_cons, (run_finishBatch finish).1]
    rfl
  | deleted h wet delete finish =>
    simp [S3rm.noted, (run_deleterDelete_result delete).1.noted, (run_finishBatch finish).1]

/-- The statistics of the worker are those of its deeds. -/
theorem History.noted (h : History stage ds t b) : t.flatMap noted = ds.flatMap Deed.stats := by
  apply h.flatMap
  intro b d u b' hdid
  have hstats : ∀ {w : Trace} {x : Entries}, entries w = x → w.flatMap S3rm.noted = x.stats := by
    rintro w _ rfl
    rfl
  cases hdid with
  | skip screened =>
    have hscreened := run_screen_entries screened
    rw [List.flatMap_cons]
    cases hscreened with
    | rejected skip => simp [S3rm.noted, hstats skip, skipEntries, eventIfRegistered, Deed.stats]
    | missing half => simp [S3rm.noted, hstats half, Deed.stats]
  | draw screened =>
    have hscreened := run_screen_entries screened
    rw [List.flatMap_cons, List.flatMap_append]
    cases hscreened with
    | passed none => simp [S3rm.noted, hstats none, Deed.stats]
  | settle dealt => exact dealt.noted
  | exceed stop => exact hstats stop.entered
  | look looks => exact flatMap_looks (fun e he => (he.quiet 0).2.2.2.1) looks

/-- A result is about its batch, if S3 answers about what it is asked. -/
theorem Dealt.ids (h : Dealt stage b z result) (hecho : ∀ e ∈ z, Echoes e)
    (fits : b.length ≤ effectiveBatchSize stage.config) :
    result.ids.Perm (b.map S3Object.id) := by
  cases h with
  | simulated dry finish =>
    simp only [DeleteResult.ids, dryRunResult, List.map_map, List.map_nil, List.append_nil]
    exact .refl _
  | @deleted o rest v w _ h wet delete finish =>
    subst h
    refine (run_deleterDelete_result delete).2 (fun e he => hecho e (by simp [he])) fun hsize => ?_
    rw [effectiveBatchSize, if_pos hsize] at fits
    exact List.length_eq_zero_iff.mp (by simpa using fits)

/-! ### Histories of a worker -/

/-- A flush that returns. -/
theorem Flush.history (h : Flush stage b z (.ok b')) (hb : History stage ds t b)
    (fits : b.length ≤ effectiveBatchSize stage.config) :
    ∃ ds', History stage ds' (t ++ z) b' := by
  rcases h.dealt with ⟨rfl, rfl, rfl⟩ | ⟨rfl, rfl⟩ | ⟨result, dealt, rfl⟩
  · exact ⟨ds, by simpa using hb⟩
  · refine ⟨_, hb.snoc (.look fun e he => ?_)⟩
    rw [List.mem_singleton.mp he]
    trivial
  · exact ⟨_, hb.snoc (.settle dealt fits)⟩

/-- An object that is processed without an error. -/
theorem Process.history (h : Process stage b o p (.ok b')) (hb : History stage ds t b)
    (room : b.length < effectiveBatchSize stage.config) :
    ∃ ds', History stage ds' (t ++ ⟨.select stage.receiver, .received (some o)⟩ :: p) b' := by
  have hdraw : ∀ {w : Trace} (k : Nat), Run (screen stage.config o) w (.ok false) →
      History stage (ds ++ [.draw o k])
        (t ++ ⟨.select stage.receiver, .received (some o)⟩ :: (w ++ [⟨.fetchAdd, k⟩]))
        (if withinLimit stage.config k then b ++ [o] else b) := fun _ hw => hb.snoc (.draw hw)
  generalize hr : (Except.ok b' : Except Error (List S3Object)) = r at h
  cases h with
  | failed | overFailed => cases hr
  | skipped screened =>
    cases hr
    exact ⟨_, hb.snoc (.skip screened)⟩
  | @buffered w k screened within =>
    cases hr
    have hhist := hdraw k screened
    rw [if_pos within] at hhist
    exact ⟨_, hhist⟩
  | @flushed w z k _ screened within flush =>
    subst hr
    have hhist := hdraw k screened
    rw [if_pos within] at hhist
    obtain ⟨ds', hds'⟩ := flush.history hhist (by rw [List.length_append]; exact room)
    exact ⟨ds', by simpa using hds'⟩
  | @exceeded w z y k _ screened exceeded flush stop =>
    cases hr
    have hhist := hdraw k screened
    rw [if_neg (by simp [exceeded])] at hhist
    obtain ⟨ds', hds'⟩ := flush.history hhist room.le
    exact ⟨_, by simpa using hds'.snoc (.exceed stop)⟩

/-- A turn after which the loop goes on. -/
theorem WorkerTurn.history (h : WorkerTurn stage b u (.inl b')) (hb : History stage ds t b)
    (room : b.length < effectiveBatchSize stage.config) : ∃ ds', History stage ds' (t ++ u) b' := by
  cases h with
  | received process rest =>
    cases rest with
    | next =>
      obtain ⟨ds', hds'⟩ := process.history hb room
      refine ⟨ds' ++ [.look], ?_⟩
      have hlook := hds'.snoc (.look (u := [⟨.isCancelled, false⟩]) fun e he => ?_)
      · simpa using hlook
      · rw [List.mem_singleton.mp he]
        trivial

/-- A turn with which the worker returns: it leaves an empty buffer, or it looked
at the token, or at the end of the channel, and left it as it was. -/
theorem WorkerTurn.history_end (h : WorkerTurn stage b u (.inr (.ok ())))
    (hb : History stage ds t b) (room : b.length < effectiveBatchSize stage.config) :
    ∃ ds' b', History stage ds' (t ++ u) b' ∧
      ((∃ z, u = ⟨.select stage.receiver, .received none⟩ :: ⟨.isClosed stage.receiver, true⟩ :: z ∧
          Flush stage b z (.ok b')) ∨
        (u = [⟨.select stage.receiver, .cancelled⟩]) ∨
        (u = [⟨.select stage.receiver, .received none⟩, ⟨.isClosed stage.receiver, false⟩]) ∨
        ∃ o p, u = ⟨.select stage.receiver, .received (some o)⟩ :: (p ++ [⟨.isCancelled, true⟩]) ∧
          Process stage b o p (.ok b')) := by
  have hlook : ∀ {ds : List Deed} {t : Trace} {b : List S3Object} {v : Trace},
      History stage ds t b → (∀ e ∈ v, Event.isLook e) → ∃ ds', History stage ds' (t ++ v) b :=
    fun hb hv => ⟨_, hb.snoc (.look hv)⟩
  generalize hx : (Sum.inr (Except.ok ()) : List S3Object ⊕ Except Error Unit) = x at h
  cases h with
  | cancelled =>
    obtain ⟨ds', hds'⟩ := hlook (v := [⟨.select stage.receiver, .cancelled⟩]) hb fun e he => by
      rw [List.mem_singleton.mp he]
      trivial
    exact ⟨ds', b, hds', .inr (.inl rfl)⟩
  | lost =>
    obtain ⟨ds', hds'⟩ := hlook (v := [⟨.select stage.receiver, .received none⟩,
        ⟨.isClosed stage.receiver, false⟩]) hb fun e he => by
      simp only [List.mem_cons, List.not_mem_nil, or_false] at he
      rcases he with rfl | rfl <;> trivial
    exact ⟨ds', b, hds', .inr (.inr (.inl rfl))⟩
  | @drained z r flush =>
    rcases r with e | b'
    · cases hx
    obtain ⟨ds', hds'⟩ := hlook (v := [⟨.select stage.receiver, .received none⟩,
        ⟨.isClosed stage.receiver, true⟩]) hb fun e he => by
      simp only [List.mem_cons, List.not_mem_nil, or_false] at he
      rcases he with rfl | rfl <;> trivial
    obtain ⟨ds'', hds''⟩ := flush.history hds' room.le
    exact ⟨ds'', b', by simpa using hds'', .inl ⟨z, rfl, flush⟩⟩
  | @received o p v r _ process rest =>
    cases rest with
    | failed | next => cases hx
    | @cancelled b' =>
      obtain ⟨ds', hds'⟩ := process.history hb room
      obtain ⟨ds'', hds''⟩ := hlook (v := [⟨.isCancelled, true⟩]) hds' fun e he => by
        rw [List.mem_singleton.mp he]
        trivial
      exact ⟨ds'', b', by simpa using hds'', .inr (.inr (.inr ⟨o, p, rfl, process⟩))⟩

/-- **At the head of its loop a worker has a history**, and room in its buffer. -/
theorem history_of_rounds (h : Rounds (Turn (workerTurn stage)) [] t b) (hperm : Permanent t) :
    (∃ ds, History stage ds t b) ∧ b.length < effectiveBatchSize stage.config := by
  have hinv := h.invariant
    (I := fun b t => Permanent t →
      (∃ ds, History stage ds t b) ∧ b.length < effectiveBatchSize stage.config)
    (t := []) ?_ fun _ => ⟨⟨[], .nil⟩, effectiveBatchSize_pos _⟩
  · exact hinv hperm
  · intro b t u b' hI hu hperm
    obtain ⟨⟨ds, hds⟩, hroom⟩ := hI hperm.of_append
    exact ⟨(run_workerTurn hu).history hds hroom, (run_workerTurn hu).room hroom hperm⟩

/-! ### Objects clear of the token -/

/-- `process_object` of an object that is let through and finds room. -/
theorem run_processObject_buffered {w : Trace} {k : Nat}
    (screened : Run (screen stage.config o) w (.ok false)) (within : withinLimit stage.config k)
    (room : (b ++ [o]).length < effectiveBatchSize stage.config) :
    Run (processObject stage b o) (w ++ [⟨.fetchAdd, k⟩]) (.ok (b ++ [o])) := by
  have hadmit : Run (admitObject stage b o) [⟨.fetchAdd, k⟩] (.ok (b ++ [o])) := by
    refine run_fallible_bind.mpr (.inr ⟨[⟨.fetchAdd, k⟩], (false, b), [], rfl, ?_, ?_⟩)
    · refine run_ask_bind.mpr ⟨k, [], rfl, ?_⟩
      unfold withinLimit at within
      rcases hm : stage.config.maxDelete with - | m
      · exact ⟨rfl, rfl⟩
      · rw [hm] at within
        show Run (ite (k + 1 ≤ m) _ _) [] _
        rw [if_pos (of_decide_eq_true within)]
        exact ⟨rfl, rfl⟩
    · show Run (bufferAndDelete stage b o) [] (.ok (b ++ [o]))
      unfold bufferAndDelete
      rw [if_neg (by omega)]
      exact ⟨rfl, rfl⟩
  rcases run_fallible_bind.mp screened with ⟨e, -, he⟩ | ⟨w₁, c, w₂, rfl, hw₁, hw₂⟩
  · cases he
  cases c with
  | true =>
    obtain ⟨-, he⟩ := hw₂
    cases he
  | false =>
    rw [List.append_assoc]
    refine run_fallible_bind.mpr (.inr ⟨w₁, false, _, rfl, hw₁, ?_⟩)
    exact run_fallible_bind.mpr (.inr ⟨w₂, false, _, rfl, hw₂, hadmit⟩)

/-- The ways an object is processed, clear of the token: it is rejected, or joins
the buffer, or fills it. -/
inductive Adds (stage : Stage) (b : List S3Object) (o : S3Object) :
    Trace → List Deed → List S3Object → Prop
  | skipped {w : Trace} (screened : Run (screen stage.config o) w (.ok true)) :
      Adds stage b o w [.skip o] b
  | buffered {w : Trace} {k : Nat} (screened : Run (screen stage.config o) w (.ok false))
      (within : withinLimit stage.config k)
      (room : (b ++ [o]).length < effectiveBatchSize stage.config) :
      Adds stage b o (w ++ [⟨.fetchAdd, k⟩]) [.draw o k] (b ++ [o])
  | filled {w z : Trace} {k : Nat} {result : DeleteResult}
      (screened : Run (screen stage.config o) w (.ok false)) (within : withinLimit stage.config k)
      (full : (b ++ [o]).length = effectiveBatchSize stage.config)
      (dealt : Dealt stage (b ++ [o]) z result) :
      Adds stage b o (w ++ ⟨.fetchAdd, k⟩ :: z) [.draw o k, .settle (b ++ [o]) result] []

theorem process_adds (h : Run (processObject stage b o) p (.ok b'))
    (room : b.length < effectiveBatchSize stage.config) (live : p.flatMap cancels = [])
    (unseen : (⟨.isCancelled, true⟩ : Event) ∉ p) : ∃ new, Adds stage b o p new b' := by
  have hprocess := run_processObject h
  generalize hr : (Except.ok b' : Except Error (List S3Object)) = r at hprocess
  cases hprocess with
  | failed | overFailed => cases hr
  | skipped screened =>
    cases hr
    exact ⟨_, .skipped screened⟩
  | @buffered w k screened within room' =>
    cases hr
    exact ⟨_, .buffered screened within room'⟩
  | @flushed w z k _ screened within flush =>
    subst hr
    rcases flush.dealt with ⟨hnil, -⟩ | ⟨rfl, -⟩ | ⟨result, dealt, rfl⟩
    · simp at hnil
    · simp at unseen
    have hlen : (b ++ [o]).length ≤ effectiveBatchSize stage.config := by
      rw [List.length_append]
      exact room
    refine ⟨_, .filled screened within (hlen.antisymm ?_) dealt⟩
    -- had there been room, the turn would have ended with the ticket
    by_contra hnot
    have hrun := run_processObject_buffered (b := b) screened within (not_le.mp hnot)
    have heq := (hrun.eq_of_isPrefix h (by simp)).1
    have hz : z = [] := by simpa using heq
    subst hz
    cases dealt
  | @exceeded w z y k _ screened exceeded flush stop =>
    obtain ⟨notices, -⟩ := stop
    simp [cancels] at live

namespace Adds

variable {new : List Deed}

theorem history (h : Adds stage b o p new b') (hb : History stage ds t b) :
    History stage (ds ++ new) (t ++ ⟨.select stage.receiver, .received (some o)⟩ :: p) b' := by
  have hdraw : ∀ {w : Trace} {k : Nat}, Run (screen stage.config o) w (.ok false) →
      withinLimit stage.config k → History stage (ds ++ [.draw o k])
        (t ++ ⟨.select stage.receiver, .received (some o)⟩ :: (w ++ [⟨.fetchAdd, k⟩])) (b ++ [o]) := by
    intro w k screened within
    have hhist := hb.snoc (.draw (k := k) screened)
    rwa [if_pos within] at hhist
  cases h with
  | skipped screened => exact hb.snoc (.skip screened)
  | buffered screened within => exact hdraw screened within
  | filled screened within full dealt =>
    simpa using (hdraw screened within).snoc (.settle dealt full.le)

theorem room (h : Adds stage b o p new b') (hb : b.length < effectiveBatchSize stage.config) :
    b'.length < effectiveBatchSize stage.config := by
  cases h with
  | skipped => exact hb
  | buffered _ _ room => exact room
  | filled => exact effectiveBatchSize_pos _

end Adds

/-- A turn that goes on has processed an object. -/
theorem turn_next (h : Turn (workerTurn stage) b u (.inl b')) :
    ∃ o p, u = ⟨.select stage.receiver, .received (some o)⟩ :: (p ++ [⟨.isCancelled, false⟩]) ∧
      Run (processObject stage b o) p (.ok b') := by
  unfold Turn workerTurn at h
  obtain ⟨sel, u, rfl, hu⟩ := run_ask_bind.mp h
  rcases sel with (- | o) | -
  · obtain ⟨c, u, rfl, hc⟩ := run_ask_bind.mp hu
    cases c with
    | true =>
      rcases run_fallible_bind.mp hc with ⟨e, -, hx⟩ | ⟨_, _, _, -, -, -, hx⟩ <;> cases hx
    | false =>
      obtain ⟨-, hx⟩ := hc
      cases hx
  · rcases run_fallible_bind.mp hu with ⟨e, -, hx⟩ | ⟨p, b'', v, rfl, hp, hv⟩
    · cases hx
    · obtain ⟨c, _, rfl, hc⟩ := run_ask_bind.mp hv
      cases c with
      | true =>
        obtain ⟨-, hx⟩ := hc
        cases hx
      | false =>
        obtain ⟨rfl, hx⟩ := hc
        cases hx
        exact ⟨o, p, rfl, hp⟩
  · obtain ⟨-, hx⟩ := hu
    cases hx

end S3rm
