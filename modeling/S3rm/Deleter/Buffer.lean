/-
S3rm/Deleter/Buffer.lean

The buffer of a delete worker.  A flush that finds the token cancelled leaves
the buffer as it is, so the buffer stays below the batch size only because the
token is never seen live again (`Permanent`).

    admitted     the objects that drew a ticket within the limit, in order
    Held         what the worker has passed on and what it holds is what it
                 admitted, at the head of its loop
    Batches      every batch passed on follows a look at the token and has
                 between one object and the batch size
-/
import S3rm.Deleter.Entries
import S3rm.Deleter.Ledger

namespace S3rm

open Conc Conc.Prog

variable {config : Config} {stage : Stage} {o : S3Object} {b b' : List S3Object} {n : Nat}
  {p t u v : Trace}

/-! ### Admissions -/

/-- The object in hand and the objects admitted, after one more event. -/
def admitStep (config : Config) : Option S3Object × List S3Object → Event →
    Option S3Object × List S3Object
  | (_, objects), ⟨.select _, .received (some o)⟩ => (some o, objects)
  | (hand, objects), ⟨.fetchAdd, k⟩ =>
    (hand, if withinLimit config k then objects ++ hand.toList else objects)
  | s, _ => s

/-- The objects a worker has admitted. -/
def admitted (config : Config) (t : Trace) : List S3Object :=
  (t.foldl (admitStep config) (none, [])).2

theorem admitStep_quiet (s : Option S3Object × List S3Object) {e : Event}
    (h : e.1.isScreening ∨ e.1.isFlush n) : admitStep config s e = s := by
  rcases e with ⟨op, r⟩
  cases op
  case select | fetchAdd => rcases h with h | h <;> cases h
  all_goals rfl

theorem foldl_admitStep_id (h : ∀ e ∈ t, ∀ s, admitStep config s e = s)
    (s : Option S3Object × List S3Object) : t.foldl (admitStep config) s = s := by
  induction t with
  | nil => rfl
  | cons e t ih =>
    rw [List.foldl_cons, h e List.mem_cons_self]
    exact ih fun x hx => h x (List.mem_cons_of_mem e hx)

theorem foldl_admitStep_quiet (h : ∀ e ∈ t, e.1.isScreening ∨ e.1.isFlush n)
    (s : Option S3Object × List S3Object) : t.foldl (admitStep config) s = s :=
  foldl_admitStep_id (fun e he s => admitStep_quiet s (h e he)) s

/-- A turn that admits the objects `new` adds them to those admitted before. -/
theorem admitted_append {new : List S3Object}
    (h : ∀ s, (u.foldl (admitStep config) s).2 = s.2 ++ new) :
    admitted config (t ++ u) = admitted config t ++ new := by
  simp only [admitted, List.foldl_append, h]

/-! ### Completions -/

/-- The deletion an event reports as done. -/
def EventData.completes (event : EventData) : List ObjectId :=
  if event.eventType = .deleteComplete then [(event.key.getD "", event.versionId)] else []

/-- The deletions reported as done. -/
def completions (t : Trace) : List ObjectId := (t.flatMap fired).flatMap EventData.completes

@[simp] theorem completions_append (t u : Trace) :
    completions (t ++ u) = completions t ++ completions u := by simp [completions]

theorem completions_of_entries {x : Entries} (h : entries t = x) :
    completions t = x.events.flatMap EventData.completes := by
  rw [← h]
  rfl

theorem completions_quiet {e : Event} (he : e.1.isEntry = false) :
    completions (e :: t) = completions t :=
  completions_of_entries (entries_quiet he)

theorem Screened.completions {r : Except Error Bool} (h : Screened config o t r) :
    S3rm.completions t = [] := by
  have hskip : ∀ message, (skipEntries config o message).events.flatMap EventData.completes = [] := by
    intro message
    simp only [skipEntries, eventIfRegistered, Entries.events_append, List.nil_append]
    split_ifs <;> rfl
  cases h with
  | passed none | failed none => exact completions_of_entries none
  | rejected skip => exact (completions_of_entries skip).trans (hskip _)
  | missing half => exact completions_of_entries half

/-- A simulated batch is reported as done, object by object. -/
theorem completions_dryRun : (resultEntries config b (dryRunResult b)).events.flatMap
    EventData.completes = b.map S3Object.id := by
  have hdone : ∀ dk, (completeEvent config b dk).completes = [(dk.key, dk.versionId)] := fun _ => rfl
  simp only [resultEntries, dryRunResult, List.map_nil, List.append_nil, List.flatMap_map, hdone]
  exact (List.map_eq_flatMap).symm

/-! ### Flushes -/

/-- Every batch passed on follows a look at the live token, and has between one
object and `n`. -/
def Batches (n : Nat) (t : Trace) : Prop :=
  ∀ t₁ objects t₂, t = t₁ ++ ⟨.beginDelete objects, ()⟩ :: t₂ →
    (∃ t₀, t₁ = t₀ ++ [⟨.isCancelled, false⟩]) ∧ objects ≠ [] ∧ objects.length ≤ n

theorem Batches.append (ht : Batches n t) (hu : Batches n u) : Batches n (t ++ u) := by
  intro t₁ objects t₂ h
  rcases List.append_eq_append_iff.mp h with ⟨v, rfl, hv⟩ | ⟨v, rfl, hv⟩
  · obtain ⟨⟨v₀, rfl⟩, hlen⟩ := hu v objects t₂ hv
    exact ⟨⟨t ++ v₀, by simp⟩, hlen⟩
  · rcases v with - | ⟨e, v⟩
    · obtain ⟨⟨v₀, hv₀⟩, -⟩ := hu [] objects t₂ (by simpa using hv.symm)
      simp at hv₀
    · obtain ⟨rfl, rfl⟩ := List.cons.inj hv
      exact ht t₁ objects v rfl

theorem Batches.of_isPrefix (h : Batches n u) (hv : v <+: u) : Batches n v := by
  obtain ⟨x, rfl⟩ := hv
  intro t₁ objects t₂ ht
  exact h t₁ objects (t₂ ++ x) (by simp [ht])

/-- Where nothing is passed on. -/
theorem batches_of_beginsNone (h : ∀ e ∈ t, e.1.beginsNone) : Batches n t := by
  rintro t₁ objects t₂ rfl
  cases h ⟨.beginDelete objects, ()⟩ (by simp)

/-- A batch passed on after a look at the live token. -/
theorem batches_begin {objects : List S3Object} (hne : objects ≠ []) (hlen : objects.length ≤ n)
    (ht : ∀ e ∈ t, e.1.beginsNone) :
    Batches n (⟨.isCancelled, false⟩ :: ⟨.beginDelete objects, ()⟩ :: t) := by
  intro t₁ objects' t₂ h
  rcases t₁ with - | ⟨e, - | ⟨e', t₁⟩⟩
  · cases (List.cons.inj h).1
  · obtain ⟨rfl, htail⟩ := List.cons.inj h
    obtain ⟨hop, -⟩ := List.cons.inj htail
    cases hop
    exact ⟨⟨[], rfl⟩, hne, hlen⟩
  · obtain ⟨rfl, htail⟩ := List.cons.inj h
    have ht' : t = t₁ ++ ⟨.beginDelete objects', ()⟩ :: t₂ := (List.cons.inj htail).2
    cases ht ⟨.beginDelete objects', ()⟩ (by simp [ht'])

/-- A flush passes on its buffer, if anything. -/
theorem Flush.batches {r : Except Error (List S3Object)} (h : Flush stage b t r) (hlen : b.length ≤ n) :
    Batches n t := by
  have hfinish : ∀ {result w y}, Run (finishBatch stage b result) w y → ∀ e ∈ w, e.1.beginsNone :=
    fun hw e he => Op.beginsNone_of_isFinish (hw.uses (finishBatch_straight ..).uses e he)
  have hdelete : ∀ {o rest w r}, Run (deleterDelete stage.config o rest) w r →
      ∀ e ∈ w, e.1.beginsNone :=
    fun hw e he => Op.beginsNone_of_isBackend (hw.uses (deleterDelete_straight ..).uses e he)
  cases h with
  | empty => exact batches_of_beginsNone (by simp)
  | cancelled => exact batches_of_beginsNone (by simp [Op.beginsNone])
  | simulated _ _ finish =>
    refine batches_of_beginsNone fun e he => ?_
    rcases List.mem_cons.mp he with rfl | he
    · rfl
    · exact hfinish finish e he
  | failed h _ delete =>
    refine batches_begin (by simp [h]) hlen fun e he => ?_
    rcases List.mem_append.mp he with he | he
    · exact hdelete delete e he
    · rw [List.mem_singleton.mp he]
      rfl
  | deleted h _ delete finish =>
    refine batches_begin (by simp [h]) hlen fun e he => ?_
    rcases List.mem_append.mp he with he | he
    · exact hdelete delete e he
    · exact hfinish finish e he

/-- What a simulated flush reports as done and what it leaves is its buffer. -/
theorem Flush.completes (h : Flush stage b t (.ok b')) (hdry : stage.config.dryRun = true) :
    completions t ++ b'.map S3Object.id = b.map S3Object.id := by
  generalize hr : (Except.ok b' : Except Error (List S3Object)) = r at h
  cases h with
  | empty h =>
    cases hr
    simp [h, completions]
  | cancelled =>
    cases hr
    rfl
  | @simulated w y _ _ finish =>
    rcases y with _ | _ <;> cases hr
    rw [completions_quiet rfl, completions_of_entries (entries_finishBatch finish),
      completions_dryRun, List.map_nil, List.append_nil]
  | failed _ wet => simp [hdry] at wet
  | deleted _ wet => simp [hdry] at wet

/-- What a flush passes on so far is an initial part of its buffer. -/
theorem Flush.begun_isPrefix {r : Except Error (List S3Object)} (h : Flush stage b t r) :
    t.flatMap begun <+: b := by
  cases h with
  | empty | cancelled => exact List.nil_prefix
  | simulated _ _ finish =>
    rw [List.flatMap_cons, begun_of_finish finish]
    exact List.nil_prefix
  | failed _ _ delete => simp [begun, begun_of_delete delete]
  | deleted _ _ delete finish => simp [begun, begun_of_delete delete, begun_of_finish finish]

/-- What a simulated flush reports as done so far is an initial part of its buffer. -/
theorem Flush.completions_isPrefix {r : Except Error (List S3Object)} (h : Flush stage b t r)
    (hdry : stage.config.dryRun = true) : completions t <+: b.map S3Object.id := by
  cases h with
  | empty | cancelled => exact List.nil_prefix
  | simulated _ _ finish =>
    rw [completions_quiet rfl, completions_of_entries (entries_finishBatch finish),
      completions_dryRun]
  | failed _ wet => simp [hdry] at wet
  | deleted _ wet => simp [hdry] at wet

/-! ### One object -/

/-- The turn `u` from the buffer `b` to the buffer `b'` admits the objects `new`. -/
structure Admits (stage : Stage) (b : List S3Object) (u : Trace) (b' new : List S3Object) : Prop where
  reads : ∀ s, (u.foldl (admitStep stage.config) s).2 = s.2 ++ new
  passes : stage.config.dryRun = false → u.flatMap begun ++ b' = b ++ new
  completes : stage.config.dryRun = true → completions u ++ b'.map S3Object.id = (b ++ new).map S3Object.id

/-- Events of a flush, or a look at the token, after the object was processed. -/
theorem Admits.append_look {new : List S3Object} {c : Bool} (h : Admits stage b u b' new) :
    Admits stage b (u ++ [⟨.isCancelled, c⟩]) b' new := by
  obtain ⟨hreads, hpasses, hcompletes⟩ := h
  refine ⟨fun s => ?_, fun hdry => ?_, fun hdry => ?_⟩
  · rw [List.foldl_append, ← hreads]
    rfl
  · simpa [begun] using hpasses hdry
  · simpa [completions, fired] using hcompletes hdry

theorem foldl_received (o : S3Object) {w z : Trace} {k : Nat} (hw : ∀ e ∈ w, e.1.isScreening)
    (hz : ∀ e ∈ z, e.1.isFlush n) (s : Option S3Object × List S3Object) :
    ((⟨.select stage.receiver, .received (some o)⟩ :: (w ++ ⟨.fetchAdd, k⟩ :: z)).foldl
        (admitStep config) s).2 = s.2 ++ if withinLimit config k then [o] else [] := by
  rw [List.foldl_cons, List.foldl_append, foldl_admitStep_quiet (n := n) (fun e he => .inl (hw e he)),
    List.foldl_cons, foldl_admitStep_quiet (n := n) fun e he => .inr (hz e he)]
  by_cases hk : withinLimit config k <;> simp [admitStep, hk]

/-- Processing an object admits it, or nothing. -/
theorem Process.admits (h : Process stage b o p (.ok b')) :
    ∃ new, Admits stage b (⟨.select stage.receiver, .received (some o)⟩ :: p) b' new := by
  have hscreening : ∀ {w s}, Run (screen stage.config o) w s → ∀ e ∈ w, e.1.isScreening :=
    fun hw => hw.uses (screen_straight ..).uses
  have hbegun : ∀ {w s}, Run (screen stage.config o) w s → w.flatMap begun = [] := fun hw =>
    List.flatMap_eq_nil_iff.mpr fun e he => begun_screening (hscreening hw e he)
  have hdone : ∀ {w s}, Run (screen stage.config o) w s → completions w = [] := fun hw =>
    (run_screen_entries hw).completions
  generalize hr : (Except.ok b' : Except Error (List S3Object)) = r at h
  cases h with
  | failed | overFailed => cases hr
  | skipped hw =>
    cases hr
    refine ⟨[], fun s => ?_, fun _ => by simp [begun, hbegun hw], fun _ => ?_⟩
    · rw [List.foldl_cons, foldl_admitStep_quiet (n := 0) fun e he => .inl (hscreening hw e he)]
      simp [admitStep]
    · rw [completions_quiet rfl, hdone hw]
      simp
  | @buffered w k hw within room =>
    cases hr
    refine ⟨[o], fun s => ?_, fun _ => by simp [begun, hbegun hw], fun _ => ?_⟩
    · rw [foldl_received (n := 0) o (hscreening hw) (by simp), if_pos within]
    · rw [completions_quiet rfl, completions_append, hdone hw]
      rfl
  | @flushed w z k _ hw within flush =>
    subst hr
    refine ⟨[o], fun s => ?_, fun hdry => ?_, fun hdry => ?_⟩
    · rw [foldl_received o (hscreening hw) flush.isFlush, if_pos within]
    · simpa [begun, hbegun hw] using flush.balance.2 hdry
    · rw [completions_quiet rfl, completions_append, hdone hw, completions_quiet rfl, List.nil_append]
      exact flush.completes hdry
  | @exceeded w z y k _ hw exceeded flush stop =>
    obtain rfl := Except.ok.inj hr
    have hflush : ∀ e ∈ z ++ y, e.1.isFlush stage.sender := fun e he =>
      (List.mem_append.mp he).elim (flush.isFlush e) (stop.isFlush _ e)
    have hover : completions y = [] := completions_of_entries stop.entered
    refine ⟨[], fun s => ?_, fun hdry => ?_, fun hdry => ?_⟩
    · rw [foldl_received o (hscreening hw) hflush, exceeded]
      rfl
    · simpa [begun, hbegun hw, stop.begun_nil] using flush.balance.2 hdry
    · rw [completions_quiet rfl, completions_append, hdone hw, completions_quiet rfl,
        completions_append, hover, List.nil_append, List.append_nil, List.append_nil]
      exact flush.completes hdry

/-! ### One turn -/

theorem effectiveBatchSize_pos (config : Config) : 0 < effectiveBatchSize config := by
  unfold effectiveBatchSize
  simp only [maxBatchSize]
  split_ifs <;> omega

/-- Processing an object leaves room in the buffer, unless it saw the token
cancelled. -/
theorem Process.room (h : Process stage b o p (.ok b'))
    (hb : b.length < effectiveBatchSize stage.config) :
    b'.length < effectiveBatchSize stage.config ∨ (⟨.isCancelled, true⟩ : Event) ∈ p := by
  have hempty : ([] : List S3Object).length < effectiveBatchSize stage.config :=
    effectiveBatchSize_pos _
  generalize hr : (Except.ok b' : Except Error (List S3Object)) = r at h
  cases h with
  | failed | overFailed => cases hr
  | skipped =>
    cases hr
    exact .inl hb
  | buffered _ _ room =>
    cases hr
    exact .inl room
  | flushed _ _ flush =>
    subst hr
    rcases flush.emptied with rfl | hsaw
    · exact .inl hempty
    · exact .inr (by simp [hsaw])
  | exceeded _ _ flush _ =>
    obtain rfl := Except.ok.inj hr
    rcases flush.emptied with rfl | hsaw
    · exact .inl hempty
    · exact .inr (by simp [hsaw])

/-- The batches of a turn. -/
theorem Process.batches {r : Except Error (List S3Object)} (h : Process stage b o p r)
    (hb : b.length < n) : Batches n p := by
  have hscreening : ∀ {w s}, Run (screen stage.config o) w s → Batches n w := fun hw =>
    batches_of_beginsNone fun e he =>
      Op.beginsNone_of_isScreening (hw.uses (screen_straight ..).uses e he)
  have hdraw : ∀ k : Nat, Batches n [⟨.fetchAdd, k⟩] :=
    fun k => batches_of_beginsNone (by simp [Op.beginsNone])
  cases h with
  | failed hw | skipped hw => exact hscreening hw
  | buffered hw _ _ => exact (hscreening hw).append (hdraw _)
  | flushed hw _ flush =>
    exact (hscreening hw).append ((hdraw _).append (flush.batches (by simp; omega)))
  | overFailed hw _ flush =>
    exact (hscreening hw).append ((hdraw _).append (flush.batches (Nat.le_of_lt hb)))
  | exceeded hw _ flush stop =>
    refine (hscreening hw).append ((hdraw _).append ((flush.batches (Nat.le_of_lt hb)).append ?_))
    obtain ⟨notices, -⟩ := stop
    refine batches_of_beginsNone fun e he => ?_
    simp only [List.mem_cons, List.mem_append, List.not_mem_nil, or_false] at he
    rcases he with rfl | rfl | he | rfl
    · rfl
    · rfl
    · exact Op.beginsNone_of_isScreening
        (Op.isScreening_of_isReport (Op.isReport_of_isNotice (notices e he)))
    · rfl

theorem WorkerTurn.batches {x : List S3Object ⊕ Except Error Unit} (h : WorkerTurn stage b u x)
    (hb : b.length < n) : Batches n u := by
  have hselect : ∀ c r, Batches n [⟨.select c, r⟩] :=
    fun c r => batches_of_beginsNone (by simp [Op.beginsNone])
  cases h with
  | cancelled => exact hselect _ _
  | lost => exact batches_of_beginsNone (by simp [Op.beginsNone])
  | drained flush =>
    refine (hselect _ _).append (Batches.append (t := [⟨.isClosed stage.receiver, true⟩]) ?_
      (flush.batches (Nat.le_of_lt hb)))
    exact batches_of_beginsNone (by simp [Op.beginsNone])
  | received process rest =>
    refine (hselect _ _).append ((process.batches hb).append ?_)
    cases rest <;> exact batches_of_beginsNone (by simp [Op.beginsNone])

theorem WorkerTurn.admits (h : WorkerTurn stage b u (.inl b')) : ∃ new, Admits stage b u b' new := by
  cases h with
  | received process rest =>
    cases rest with
    | next =>
      obtain ⟨new, hnew⟩ := process.admits
      exact ⟨new, hnew.append_look⟩

/-- The token, once seen cancelled, is not seen live again. -/
def Permanent (t : Trace) : Prop :=
  ∀ t₁ t₂, t = t₁ ++ ⟨.isCancelled, false⟩ :: t₂ → ∀ e ∈ t₁, ¬ Event.sawCancelled e

theorem Permanent.of_append (h : Permanent (t ++ u)) : Permanent t := by
  rintro t₁ t₂ rfl
  exact h t₁ (t₂ ++ u) (by simp)

/-- **Nothing is lost or duplicated**: what the worker passed on, or in a dry run
reported as done, followed by the buffer `b`, is what it admitted, in order. -/
structure Conserved (config : Config) (b : List S3Object) (t : Trace) : Prop where
  passed : config.dryRun = false → t.flatMap begun ++ b = admitted config t
  reported : config.dryRun = true →
    completions t ++ b.map S3Object.id = (admitted config t).map S3Object.id

theorem Conserved.nil : Conserved config [] [] := ⟨fun _ => rfl, fun _ => rfl⟩

theorem WorkerTurn.conserved (h : WorkerTurn stage b u (.inl b')) (hb : Conserved stage.config b t) :
    Conserved stage.config b' (t ++ u) := by
  obtain ⟨new, hreads, hpasses, hcompletes⟩ := h.admits
  have hadmitted := admitted_append (t := t) hreads
  refine ⟨fun hdry => ?_, fun hdry => ?_⟩
  · rw [List.flatMap_append, List.append_assoc, hpasses hdry, ← List.append_assoc, hb.passed hdry,
      hadmitted]
  · rw [completions_append, List.append_assoc, hcompletes hdry, List.map_append, ← List.append_assoc,
      hb.reported hdry, hadmitted, List.map_append]

/-- A turn that goes on leaves room in the buffer, unless it saw the token cancelled. -/
theorem WorkerTurn.room (h : WorkerTurn stage b u (.inl b'))
    (hb : b.length < effectiveBatchSize stage.config) (hperm : Permanent (t ++ u)) :
    b'.length < effectiveBatchSize stage.config := by
  cases h with
  | @received o p _ _ _ process rest =>
    cases rest with
    | next =>
      refine (process.room hb).resolve_right fun hsaw => ?_
      exact hperm (t ++ ⟨.select stage.receiver, .received (some o)⟩ :: p) [] (by simp)
        ⟨.isCancelled, true⟩ (by simp [hsaw]) trivial

/-! ### Within a turn -/

/-- What is passed on, or in a dry run reported as done, is so far an initial part
of what was admitted. -/
structure InOrder (config : Config) (t : Trace) : Prop where
  passed : config.dryRun = false → t.flatMap begun <+: admitted config t
  reported : config.dryRun = true → completions t <+: (admitted config t).map S3Object.id

/-- A part of a turn from the buffer `b`, in which the objects `new` are admitted. -/
structure Moment (config : Config) (b : List S3Object) (u : Trace) (new : List S3Object) : Prop where
  reads : ∀ s, (u.foldl (admitStep config) s).2 = s.2 ++ new
  passed : config.dryRun = false → u.flatMap begun <+: b ++ new
  reported : config.dryRun = true → completions u <+: (b ++ new).map S3Object.id

theorem Moment.inOrder {new : List S3Object} (h : Moment config b u new)
    (hb : Conserved config b t) : InOrder config (t ++ u) := by
  have hadmitted := admitted_append (t := t) h.reads
  refine ⟨fun hdry => ?_, fun hdry => ?_⟩
  · rw [List.flatMap_append, hadmitted, ← hb.passed hdry, List.append_assoc,
      List.prefix_append_right_inj]
    exact h.passed hdry
  · rw [completions_append, hadmitted, List.map_append, ← hb.reported hdry, List.append_assoc,
      List.prefix_append_right_inj, ← List.map_append]
    exact h.reported hdry

/-- Where nothing is admitted, passed on or reported. -/
theorem Moment.quiet (hreads : ∀ e ∈ u, ∀ s, admitStep config s e = s)
    (hbegun : u.flatMap begun = []) (hdone : completions u = []) : Moment config b u [] := by
  refine ⟨fun s => ?_, fun _ => ?_, fun _ => ?_⟩
  · rw [foldl_admitStep_id hreads, List.append_nil]
  · rw [hbegun]
    exact List.nil_prefix
  · rw [hdone]
    exact List.nil_prefix

theorem completions_isPrefix (h : v <+: u) : completions v <+: completions u := by
  obtain ⟨x, rfl⟩ := h
  rw [completions_append]
  exact List.prefix_append _ _

/-- Processing an object, at any moment. -/
theorem Process.moment {r : Except Error (List S3Object)} (h : Process stage b o p r) (hv : v <+: p) :
    ∃ new, Moment stage.config b (⟨.select stage.receiver, .received (some o)⟩ :: v) new := by
  have hscreening : ∀ {w s}, Run (screen stage.config o) w s → ∀ e ∈ w, e.1.isScreening :=
    fun hw => hw.uses (screen_straight ..).uses
  -- while the object is screened, nothing is admitted
  have early : ∀ {w s} {v : Trace}, Run (screen stage.config o) w s → v <+: w →
      Moment stage.config b (⟨.select stage.receiver, .received (some o)⟩ :: v) [] := by
    intro w s v hw hv
    have hquiet : ∀ e ∈ v, e.1.isScreening := fun e he => hscreening hw e (hv.subset he)
    refine ⟨fun s => ?_, fun _ => ?_, fun _ => ?_⟩
    · rw [List.foldl_cons, foldl_admitStep_quiet (n := 0) fun e he => .inl (hquiet e he)]
      simp [admitStep]
    · rw [List.flatMap_cons, List.flatMap_eq_nil_iff.mpr fun e he => begun_screening (hquiet e he)]
      exact List.nil_prefix
    · have hdone := completions_isPrefix hv
      rw [(run_screen_entries hw).completions] at hdone
      rw [completions_quiet rfl, List.prefix_nil.mp hdone]
      exact List.nil_prefix
  -- from the ticket on, what is passed on comes out of the buffer
  have late : ∀ {w z : Trace} {k} {v : Trace}, Run (screen stage.config o) w (.ok false) →
      (∀ e ∈ z, e.1.isFlush stage.sender) →
      z.flatMap begun <+: (b ++ if withinLimit stage.config k then [o] else []) →
      (stage.config.dryRun = true →
        completions z <+: (b ++ if withinLimit stage.config k then [o] else []).map S3Object.id) →
      v <+: w ++ ⟨.fetchAdd, k⟩ :: z →
      ∃ new, Moment stage.config b (⟨.select stage.receiver, .received (some o)⟩ :: v) new := by
    intro w z k v hw hz hbegun hdone hv
    rcases prefix_middle hv with hv | ⟨z', hz', rfl⟩
    · exact ⟨[], early hw hv⟩
    have hw' : w.flatMap begun = [] :=
      List.flatMap_eq_nil_iff.mpr fun e he => begun_screening (hscreening hw e he)
    refine ⟨if withinLimit stage.config k then [o] else [], fun s => ?_, fun _ => ?_, fun hdry => ?_⟩
    · exact foldl_received o (hscreening hw) (fun e he => hz e (hz'.subset he)) s
    · have hpast := (hz'.flatMap begun).trans hbegun
      simpa [begun, hw'] using hpast
    · rw [completions_quiet rfl, completions_append, (run_screen_entries hw).completions,
        completions_quiet rfl, List.nil_append]
      exact (completions_isPrefix hz').trans (hdone hdry)
  cases h with
  | failed hw | skipped hw => exact ⟨[], early hw hv⟩
  | buffered hw within room =>
    exact late hw (z := []) (by simp) (by simp) (fun _ => by simp [completions]) hv
  | flushed hw within flush =>
    refine late hw flush.isFlush ?_ (fun hdry => ?_) hv
    · simpa [within] using flush.begun_isPrefix
    · simpa [within] using flush.completions_isPrefix hdry
  | overFailed hw exceeded flush =>
    refine late hw flush.isFlush ?_ (fun hdry => ?_) hv
    · simpa [exceeded] using flush.begun_isPrefix
    · simpa [exceeded] using flush.completions_isPrefix hdry
  | exceeded hw exceeded flush stop =>
    have hover : completions _ = [] := completions_of_entries stop.entered
    refine late hw (fun e he => ?_) ?_ (fun hdry => ?_) hv
    · exact (List.mem_append.mp he).elim (flush.isFlush e) (stop.isFlush _ e)
    · simpa [exceeded, stop.begun_nil] using flush.begun_isPrefix
    · simpa [exceeded, hover] using flush.completions_isPrefix hdry

theorem WorkerTurn.moment {x : List S3Object ⊕ Except Error Unit} (h : WorkerTurn stage b u x)
    (hv : v <+: u) : ∃ new, Moment stage.config b v new := by
  cases h with
  | cancelled | lost =>
    refine ⟨[], .quiet (fun e he s => ?_) ?_ ?_⟩
    · have hmem := hv.subset he
      simp only [List.mem_cons, List.not_mem_nil, or_false] at hmem
      rcases hmem with rfl | rfl <;> rfl
    · exact List.prefix_nil.mp (hv.flatMap begun)
    · exact List.prefix_nil.mp (completions_isPrefix hv)
  | drained flush =>
    refine ⟨[], fun s => ?_, fun _ => ?_, fun hdry => ?_⟩
    · rw [foldl_admitStep_id, List.append_nil]
      intro e he s
      have hmem := hv.subset he
      simp only [List.mem_cons] at hmem
      rcases hmem with rfl | rfl | hmem
      · rfl
      · rfl
      · exact admitStep_quiet s (.inr (flush.isFlush e hmem))
    · rw [List.append_nil]
      exact (hv.flatMap begun).trans flush.begun_isPrefix
    · have hdone := completions_isPrefix hv
      rw [completions_quiet rfl, completions_quiet rfl] at hdone
      rw [List.append_nil]
      exact hdone.trans (flush.completions_isPrefix hdry)
  | @received o p y r x process rest =>
    rcases v with - | ⟨e, v⟩
    · exact ⟨[], .quiet (by simp) rfl rfl⟩
    obtain ⟨rfl, hv'⟩ := List.cons_prefix_cons.mp hv
    rcases List.prefix_or_prefix_of_prefix hv' (List.prefix_append p y) with hvp | ⟨v', rfl⟩
    · exact process.moment hvp
    · -- at most a look at the token follows
      obtain ⟨new, hreads, hpassed, hreported⟩ := process.moment (List.prefix_refl p)
      have hv'' : v' <+: y := (List.prefix_append_right_inj p).mp hv'
      have hlook : ∀ e ∈ v', ∃ c, e = ⟨.isCancelled, c⟩ := by
        intro e he
        have hmem := hv''.subset he
        cases rest with
        | failed => cases hmem
        | cancelled | next => exact ⟨_, List.mem_singleton.mp hmem⟩
      refine ⟨new, fun s => ?_, fun hdry => ?_, fun hdry => ?_⟩
      · rw [← List.cons_append, List.foldl_append, foldl_admitStep_id, hreads]
        intro e he s
        obtain ⟨c, rfl⟩ := hlook e he
        rfl
      · have hnone : v'.flatMap begun = [] := List.flatMap_eq_nil_iff.mpr fun e he => by
          obtain ⟨c, rfl⟩ := hlook e he
          rfl
        rw [← List.cons_append, List.flatMap_append, hnone, List.append_nil]
        exact hpassed hdry
      · have hnone : entries v' = {} := entries_of_quiet fun e he => by
          obtain ⟨c, rfl⟩ := hlook e he
          rfl
        rw [← List.cons_append, completions_append, completions_of_entries hnone, List.flatMap_nil,
          List.append_nil]
        exact hreported hdry

end S3rm
