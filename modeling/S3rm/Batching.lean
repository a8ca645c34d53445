/-
S3rm/Batching.lean

The batches of the workers, in every run.

    worker_buffer        what a worker has passed on and what it holds is what
                         it admitted, in batches of the size they should have
    cancellation_stops   once the token is cancelled, each worker starts at most
                         one more call, the one it had already looked for
-/
import S3rm.Deleter.Buffer
import S3rm.Schedule

namespace S3rm

open Conc Conc.Prog

variable {config : Config} {outside : Outside} {stage : Stage} {w : PipelineWorld}
  {b : List S3Object} {n : Nat} {t u v : Trace}

/-! ### The buffer over a whole trace -/

theorem Permanent.of_isPrefix (h : Permanent t) (hu : u <+: t) : Permanent u := by
  obtain ⟨v, rfl⟩ := hu
  exact h.of_append

/-- What holds of the buffer at the head of the loop. -/
structure AtHead (stage : Stage) (b : List S3Object) (t : Trace) : Prop where
  conserved : Conserved stage.config b t
  room : Permanent t → b.length < effectiveBatchSize stage.config
  batches : Permanent t → Batches (effectiveBatchSize stage.config) t

theorem AtHead.nil : AtHead stage [] [] :=
  ⟨.nil, fun _ => effectiveBatchSize_pos _, fun _ => batches_of_beginsNone (by simp)⟩

/-- **A turn that goes on keeps it.** -/
theorem AtHead.next {b' : List S3Object} (h : AtHead stage b t)
    (hu : Turn (workerTurn stage) b u (.inl b')) : AtHead stage b' (t ++ u) := by
  have hturn := run_workerTurn hu
  refine ⟨hturn.conserved h.conserved, fun hperm => ?_, fun hperm => ?_⟩
  · exact hturn.room (h.room hperm.of_append) hperm
  · exact (h.batches hperm.of_append).append (hturn.batches (h.room hperm.of_append))

theorem AtHead.of_rounds (h : Rounds (Turn (workerTurn stage)) [] t b) : AtHead stage b t := by
  have hinv := h.invariant (I := AtHead stage) (fun _ _ _ _ hI hu => hI.next hu) .nil
  simpa using hinv

/-- The batches of a worker at every moment, and their order. -/
theorem part_worker_batches (h : Part (receiveAndDelete stage) t) (hperm : Permanent t) :
    Batches (effectiveBatchSize stage.config) t ∧ InOrder stage.config t := by
  have hboth := part_of_loop
    (P := fun t => Permanent t → Batches (effectiveBatchSize stage.config) t ∧ InOrder stage.config t)
    (I := AtHead stage) ({} : Answers).agrees_total
    (fun b => (workerTurn_straight stage b).loopFree) .nil ?_ ?_ ?_ h
    fun e _ => Answers.agrees_unknown e
  · exact hboth hperm
  · exact fun _ => ⟨batches_of_beginsNone (by simp), ⟨fun _ => List.nil_prefix, fun _ => List.nil_prefix⟩⟩
  · intro b t u x hI hu _ v hv hperm
    have hturn := run_workerTurn hu
    obtain ⟨new, hmoment⟩ := hturn.moment hv
    have hbatches := (hturn.batches (hI.room hperm.of_append)).of_isPrefix hv
    exact ⟨(hI.batches hperm.of_append).append hbatches, hmoment.inOrder hI.conserved⟩
  · exact fun _ _ _ _ hI hu _ => hI.next hu

/-! ### The end of the input -/

/-- A call of `Deleter::delete` returned an error. -/
inductive DeleterErred (config : Config) : Trace → Prop
  | mk {t v u : Trace} {o : S3Object} {rest : List S3Object} {e : Error}
      (delete : Run (deleterDelete config o rest) v (.error e)) :
      DeleterErred config (t ++ ⟨.beginDelete (o :: rest), ()⟩ :: (v ++ u))

theorem DeleterErred.append (h : DeleterErred config u) (t : Trace) : DeleterErred config (t ++ u) := by
  obtain @⟨t', v, u', o, rest, e, delete⟩ := h
  have herr := DeleterErred.mk (t := t ++ t') (u := u') delete
  rwa [List.append_assoc] at herr

theorem not_deleterErred (h : ∀ e ∈ t, e.1.beginsNone) : ¬ DeleterErred config t := by
  rintro ⟨-⟩
  cases h ⟨.beginDelete _, ()⟩ (List.mem_append_right _ List.mem_cons_self)

/-- A flush that does not see the token cancelled, and whose call returns, leaves
nothing behind. -/
theorem Flush.passes_all {r : Except Error (List S3Object)} (h : Flush stage b t r)
    (hlive : ∀ e ∈ t, ¬ Event.sawCancelled e) (herr : ¬ DeleterErred stage.config t) :
    (stage.config.dryRun = false → t.flatMap begun = b) ∧
      (stage.config.dryRun = true → completions t = b.map S3Object.id) := by
  cases h with
  | empty h =>
    subst h
    exact ⟨fun _ => rfl, fun _ => rfl⟩
  | cancelled => exact absurd trivial (hlive ⟨.isCancelled, true⟩ (List.mem_singleton_self _))
  | simulated _ dry finish =>
    refine ⟨fun hwet => ?_, fun _ => ?_⟩
    · rw [dry] at hwet
      cases hwet
    · rw [completions_quiet rfl, completions_of_entries (entries_finishBatch finish), completions_dryRun]
  | @failed o rest v e h wet delete =>
    subst h
    exact absurd (DeleterErred.mk (t := [⟨.isCancelled, false⟩]) delete) herr
  | deleted _ wet delete finish =>
    refine ⟨fun _ => ?_, fun hdry => ?_⟩
    · simp [begun, begun_of_delete delete, begun_of_finish finish]
    · rw [wet] at hdry
      cases hdry

/-- Processing an object does not come to the end of a channel. -/
theorem Process.not_end {o : S3Object} {r : Except Error (List S3Object)} (h : Process stage b o t r)
    {c : Nat} : ∀ e ∈ t, ¬ Event.isEnd c e := by
  have hscreening : ∀ {w s}, Run (screen stage.config o) w s → ∀ e ∈ w, ¬ Event.isEnd c e := by
    intro w s hw e he hend
    have hop := hw.uses (screen_straight ..).uses e he
    rcases Event.isEnd_op hend with heq | heq <;> rw [heq] at hop <;> cases hop
  have hflush : ∀ {z : Trace}, (∀ e ∈ z, e.1.isFlush stage.sender) → ∀ e ∈ z, ¬ Event.isEnd c e := by
    intro z hz e he hend
    have hop := hz e he
    rcases Event.isEnd_op hend with heq | heq <;> rw [heq] at hop <;> cases hop
  have hdraw : ∀ {k : Nat} {z : Trace}, (∀ e ∈ z, ¬ Event.isEnd c e) →
      ∀ e ∈ (⟨.fetchAdd, k⟩ :: z : Trace), ¬ Event.isEnd c e := by
    intro k z hz e he
    rcases List.mem_cons.mp he with rfl | he
    · exact id
    · exact hz e he
  intro e he
  cases h with
  | failed hw | skipped hw => exact hscreening hw e he
  | buffered hw => exact (List.mem_append.mp he).elim (hscreening hw e) (hdraw (by simp) e)
  | flushed hw _ flush | overFailed hw _ flush =>
    exact (List.mem_append.mp he).elim (hscreening hw e) (hdraw (hflush flush.isFlush) e)
  | exceeded hw _ flush stop =>
    refine (List.mem_append.mp he).elim (hscreening hw e) (hdraw (hflush fun x hx => ?_) e)
    exact (List.mem_append.mp hx).elim (flush.isFlush x) (stop.isFlush _ x)

/-- A turn that goes on has not come to the end of the channel. -/
theorem WorkerTurn.not_end {b' : List S3Object} (h : WorkerTurn stage b u (.inl b')) {c : Nat} :
    ∀ e ∈ u, ¬ Event.isEnd c e := by
  cases h with
  | received process rest =>
    cases rest with
    | next =>
      intro e he
      simp only [List.mem_cons, List.mem_append, List.not_mem_nil, or_false] at he
      rcases he with rfl | he | rfl
      · exact id
      · exact process.not_end e he
      · exact id

/-- Nothing is admitted in the turn that finds the channel at its end. -/
theorem admitted_drained {r : Except Error (List S3Object)} (h : Flush stage b u r) :
    admitted stage.config (t ++ ⟨.select stage.receiver, .received none⟩ ::
      ⟨.isClosed stage.receiver, true⟩ :: u) = admitted stage.config t := by
  have hreads : ∀ s : Option S3Object × List S3Object, ((⟨.select stage.receiver, .received none⟩ ::
      ⟨.isClosed stage.receiver, true⟩ :: u : Trace).foldl (admitStep stage.config) s).2 = s.2 ++ [] := by
    intro s
    rw [List.foldl_cons, List.foldl_cons, foldl_admitStep_quiet fun e he => .inr (h.isFlush e he),
      List.append_nil]
    rfl
  rw [admitted_append hreads, List.append_nil]

/-- At the end of its channel, a worker that has not seen the token cancelled has
passed on all it admitted. -/
theorem run_worker_drained {r : Except Error Unit} (h : Run (receiveAndDelete stage) t r)
    (hend : ∃ e ∈ t, Event.isEnd stage.receiver e) (hlive : ∀ e ∈ t, ¬ Event.sawCancelled e)
    (hlost : ∀ t₁ t₂, t = t₁ ++ ⟨.isClosed stage.receiver, false⟩ :: t₂ →
      ∀ e ∈ t₁, ¬ Event.isEnd stage.receiver e) (herr : ¬ DeleterErred stage.config t) :
    Conserved stage.config [] t := by
  obtain ⟨b, u, v, rfl, hr, hv⟩ := run_loop.mp h
  have hhead := (AtHead.of_rounds hr).conserved
  have hnext : ∀ e ∈ u, ¬ Event.isEnd stage.receiver e := by
    have hinv := hr.invariant (I := fun _ t => ∀ e ∈ t, ¬ Event.isEnd stage.receiver e)
      (fun _ _ _ _ hI hu e he => (List.mem_append.mp he).elim (hI e)
        ((run_workerTurn hu).not_end e)) (fun _ he => absurd he List.not_mem_nil)
    simpa using hinv
  obtain ⟨e, he, hend⟩ := hend
  have hlast : e ∈ v := (List.mem_append.mp he).resolve_left fun hu => hnext e hu hend
  generalize hx : (Sum.inr r : List S3Object ⊕ Except Error Unit) = x at hv
  cases run_workerTurn hv with
  | cancelled => exact absurd trivial (hlive ⟨.select stage.receiver, .cancelled⟩ (by simp))
  | lost =>
    refine absurd rfl (hlost (u ++ [⟨.select stage.receiver, .received none⟩]) [] (by simp)
      ⟨.select stage.receiver, .received none⟩ (by simp))
  | received process rest =>
    simp only [List.mem_cons, List.mem_append] at hlast
    rcases hlast with rfl | hlast | hlast
    · exact hend.elim
    · exact (process.not_end e hlast hend).elim
    · cases rest with
      | failed => cases hlast
      | cancelled | next =>
        rw [List.mem_singleton.mp hlast] at hend
        exact hend.elim
  | @drained z _ flush =>
    -- the last flush takes what the loop head held
    have hsub : ∀ e ∈ z, ¬ Event.sawCancelled e := fun e he => hlive e (by simp [he])
    have herr' : ¬ DeleterErred stage.config z := by
      intro hz
      have hall := hz.append (u ++ [⟨.select stage.receiver, .received none⟩,
        ⟨.isClosed stage.receiver, true⟩])
      rw [List.append_assoc] at hall
      exact herr hall
    obtain ⟨hpassed, hreported⟩ := flush.passes_all hsub herr'
    have hadmitted := admitted_drained (t := u) flush
    refine ⟨fun hdry => ?_, fun hdry => ?_⟩
    · rw [List.append_nil, hadmitted, ← hhead.passed hdry, ← hpassed hdry, List.flatMap_append]
      rfl
    · rw [List.map_nil, List.append_nil, hadmitted, ← hhead.reported hdry, ← hreported hdry,
        completions_append, completions_quiet rfl, completions_quiet rfl]

/-! ### In every run -/

/-- The token, once a task has seen it cancelled, is not seen live again. -/
theorem Running.permanent (h : Running config outside w) (i : TaskId) :
    Permanent (traceOf i w.log) := by
  intro t₁ t₂ ht e he hsaw
  refine h.each_event (R := fun t₁ x => x = ⟨.isCancelled, false⟩ → ∀ e ∈ t₁, ¬ Event.sawCancelled e)
    ?_ ht rfl e he hsaw
  intro u o r sh hu _ hh hx e he hsaw
  have hcan := token_law hu (mem_traceOf.mp he) (.inl hsaw)
  simp [← hh.looked false hx] at hcan

/-- **A worker's buffer neither loses nor duplicates objects.**  In every state
of every run, each call of `Deleter::delete` that worker `n` has made is about
one to `effectiveBatchSize` objects, one for the single backend; what it has
passed on is an initial part of what it has admitted, in order; at the head of its
loop the rest is its buffer, which has room for one more; and when it has ended
at the end of its channel, the token never seen cancelled and no call having
returned an error, nothing is left.  In a dry run the same holds of what it
reports as done. -/
theorem worker_buffer (h : Running config outside w) (hn : n < config.workerSize) :
    (∀ t₁ objects t₂,
      traceOf (.stage (.worker n)) w.log = t₁ ++ ⟨.beginDelete objects, ()⟩ :: t₂ →
        1 ≤ objects.length ∧ objects.length ≤ effectiveBatchSize config ∧
          (config.batchSize ≤ 1 → objects.length = 1)) ∧
      InOrder config (traceOf (.stage (.worker n)) w.log) ∧
      (∀ t b, t <+: traceOf (.stage (.worker n)) w.log →
        Rounds (Turn (workerTurn (workerStage config))) [] t b →
          Conserved config b t ∧ b.length < effectiveBatchSize config) ∧
      ∀ r, w.outcome (.stage (.worker n)) = some (.done r) →
        (∃ e ∈ traceOf (.stage (.worker n)) w.log, Event.isEnd (filterCount config) e) →
        (∀ e ∈ traceOf (.stage (.worker n)) w.log, ¬ Event.sawCancelled e) →
        ¬ DeleterErred config (traceOf (.stage (.worker n)) w.log) →
          Conserved config [] (traceOf (.stage (.worker n)) w.log) := by
  have hperm := h.permanent (.stage (.worker n))
  obtain ⟨hbatches, horder⟩ := part_worker_batches (h.part (worker_program hn)) hperm
  refine ⟨fun t₁ objects t₂ ht => ?_, horder, fun t b ht hr => ?_, fun r hout hend hlive herr => ?_⟩
  · obtain ⟨-, hne, hlen⟩ := hbatches t₁ objects t₂ ht
    have hpos : 1 ≤ objects.length := List.length_pos_iff.mpr hne
    refine ⟨hpos, hlen, fun hsize => ?_⟩
    have hone : effectiveBatchSize (workerStage config).config = 1 := if_pos hsize
    omega
  · have hhead := AtHead.of_rounds hr
    exact ⟨hhead.conserved, hhead.room (hperm.of_isPrefix ht)⟩
  · exact run_worker_drained (h.run (worker_program hn) hout) hend hlive
      (fun t₁ t₂ ht e he => not_lost h ht he) herr

/-! ### A dry run -/

/-- One object, and batches of one. -/
def previewConfig : Config where
  workerSize := 1
  batchSize := 1
  dryRun := true

def previewObject : S3Object := sampleObject "a" 3

def previewScript : Script where
  listing := [.object previewObject, .finished (.ok ())]

def previewRun : PipelineWorld :=
  previewScript.run previewConfig previewScript.outside (roundRobin previewConfig 40)

theorem previewRun_running : Running previewConfig previewScript.outside previewRun :=
  Script.running (fun _ _ _ => Script.agrees) _

/-- What the worker does about the object. -/
def previewTrace : Trace :=
  [⟨.select 0, .received (some previewObject)⟩, ⟨.fetchAdd, (0 : Nat)⟩, ⟨.isCancelled, false⟩,
    ⟨.incrementDeleted 3, ()⟩, ⟨.sendStats (.deleteComplete "a"), ()⟩, ⟨.sendStats (.deleteBytes 3), ()⟩,
    ⟨.updatePipelineStats (completeEvent previewConfig [previewObject] ⟨"a", none⟩), ()⟩,
    ⟨.send 1 previewObject, true⟩, ⟨.isCancelled, false⟩]

theorem previewTrace_turn : Rounds (Turn (workerTurn (workerStage previewConfig))) [] previewTrace [] := by
  have hturn : Turn (workerTurn (workerStage previewConfig)) [] previewTrace (.inl []) :=
    ⟨_, _, rfl, _, _, rfl, _, _, rfl, _, _, rfl, _, _, rfl, _, _, rfl, _, _, rfl, _, _, rfl, _, _, rfl,
      rfl, rfl⟩
  have hrounds := Rounds.cons hturn (.nil [])
  rwa [List.append_nil] at hrounds

/-- A worker passes nothing on in a dry run: there, the calls of `Deleter::delete`
do not account for what it admitted. -/
theorem passed_ne_admitted_previewRun : ¬ ∀ (config : Config) (outside : Outside) (w : PipelineWorld)
    (n : Nat) (t : Trace) (b : List S3Object), Running config outside w → n < config.workerSize →
      t <+: traceOf (.stage (.worker n)) w.log →
      Rounds (Turn (workerTurn (workerStage config))) [] t b →
        t.flatMap begun ++ b = admitted config t := by
  intro h
  have hall := h _ _ _ 0 _ _ previewRun_running (by decide) (by decide +kernel) previewTrace_turn
  revert hall
  decide

/-- `worker_buffer` at the head of the loop and at the end of that run. -/
theorem worker_buffer_previewRun :
    Conserved previewConfig [] previewTrace ∧
      Conserved previewConfig [] (traceOf (.stage (.worker 0)) previewRun.log) := by
  obtain ⟨-, -, hhead, hend⟩ := worker_buffer previewRun_running (n := 0) (by decide)
  refine ⟨(hhead _ _ (by decide +kernel) previewTrace_turn).1, hend (.ok ()) (by decide +kernel) ?_ ?_ ?_⟩
  · exact ⟨⟨.select 0, .received none⟩, by decide +kernel, rfl⟩
  · intro e he hsaw
    have hcan := token_law previewRun_running (mem_traceOf.mp he) (.inl hsaw)
    revert hcan
    decide +kernel
  · exact not_deleterErred (by decide +kernel)

/-! ### Cancellation -/

/-- After the token was cancelled, nobody finds it live. -/
theorem Running.after_cancelled {w' : PipelineWorld} (h : Running config outside w)
    (hc : w.shared.cancelled = true) (hw : (pipeline config outside).Reachable w w') :
    Running config outside w' ∧ w'.shared.cancelled = true ∧
      ∃ l, w'.log = w.log ++ l ∧ ∀ x ∈ l, x.2 ≠ ⟨.isCancelled, false⟩ := by
  induction hw with
  | refl => exact ⟨h, hc, [], by simp, fun x hx => absurd hx List.not_mem_nil⟩
  | tail _ hs ih =>
    obtain ⟨hrun, hcan, l, hl, hlive⟩ := ih
    refine ⟨hrun.tail hs, ?_⟩
    cases hs with
    | @perform i o k r sh run handled =>
      have hh := handled_of_handle handled
      refine ⟨hh.token.mpr (.inl hcan), l ++ [(i, ⟨o, r⟩)], ?_, fun x hx => ?_⟩
      · rw [World.record_log, World.launch_log, World.put_log, hl, List.append_assoc]
      · rcases List.mem_append.mp hx with hx | hx
        · exact hlive x hx
        · obtain rfl := List.mem_singleton.mp hx
          intro he
          have hlooked := hh.looked false he
          rw [hcan] at hlooked
          cases hlooked
    | unroll | finish | panic => exact ⟨hcan, l, hl, hlive⟩
    | env henv =>
      obtain ⟨-, rfl⟩ := henv
      exact ⟨rfl, l, hl, hlive⟩

/-- Where at most the first event passes anything on. -/
theorem begun_length_le {m : Nat} (h : ∀ t₁ objects t₂, t = t₁ ++ ⟨.beginDelete objects, ()⟩ :: t₂ →
    t₁ = [] ∧ objects.length ≤ m) : (t.flatMap begun).length ≤ m := by
  rcases t with - | ⟨e, t⟩
  · exact Nat.zero_le m
  have htail : t.flatMap begun = [] := by
    refine List.flatMap_eq_nil_iff.mpr ?_
    rintro ⟨o, r⟩ he
    cases o
    case beginDelete objects =>
      obtain ⟨t₁, t₂, rfl⟩ := List.append_of_mem he
      cases (h (e :: t₁) objects t₂ rfl).1
    all_goals rfl
  rw [List.flatMap_cons, htail, List.append_nil]
  rcases e with ⟨o, r⟩
  cases o
  case beginDelete objects => exact (h [] objects t rfl).2
  all_goals exact Nat.zero_le m

/-- What a worker starts after the token was cancelled. -/
theorem worker_stops {w' : PipelineWorld} (h : Running config outside w)
    (hc : w.shared.cancelled = true) (hw : (pipeline config outside).Reachable w w') (n : Nat) :
    ∃ s, traceOf (.stage (.worker n)) w'.log = traceOf (.stage (.worker n)) w.log ++ s ∧
      ∀ s₁ objects s₂, s = s₁ ++ ⟨.beginDelete objects, ()⟩ :: s₂ → s₁ = [] ∧
        (∃ t, traceOf (.stage (.worker n)) w.log = t ++ [⟨.isCancelled, false⟩]) ∧
        objects.length ≤ effectiveBatchSize config := by
  obtain ⟨hrun, -, l, hl, hlive⟩ := h.after_cancelled hc hw
  have htrace : traceOf (.stage (.worker n)) w'.log =
      traceOf (.stage (.worker n)) w.log ++ traceOf (.stage (.worker n)) l := by
    rw [hl, traceOf, List.filterMap_append]
    rfl
  refine ⟨traceOf (.stage (.worker n)) l, htrace, fun s₁ objects s₂ hs => ?_⟩
  have hn : n < config.workerSize := by
    refine hrun.worker_lt (e := ⟨.beginDelete objects, ()⟩) ?_
    rw [htrace, hs]
    simp
  have hbatches := (part_worker_batches (hrun.part (worker_program hn)) (hrun.permanent _)).1
  obtain ⟨⟨t₀, ht₀⟩, -, hlen⟩ := hbatches (traceOf (.stage (.worker n)) w.log ++ s₁) objects s₂ (by
    rw [htrace, hs, List.append_assoc])
  -- the look that allowed the call came before the cancellation
  rcases List.eq_nil_or_concat s₁ with rfl | ⟨s₀, e, rfl⟩
  · exact ⟨rfl, ⟨t₀, by rwa [List.append_nil] at ht₀⟩, hlen⟩
  · rw [List.concat_eq_append, ← List.append_assoc] at ht₀
    obtain ⟨-, hlast⟩ := List.append_inj' ht₀ rfl
    obtain rfl : e = ⟨.isCancelled, false⟩ := by simpa using hlast
    have hmem : (⟨.isCancelled, false⟩ : Event) ∈ traceOf (.stage (.worker n)) l := by
      rw [hs]
      simp
    exact absurd rfl (hlive _ (mem_traceOf.mp hmem))

/-- **Cancellation stops deletion within one batch per worker.**  In every run
that goes on from a state in which the token is cancelled, each worker starts
at most one more call of `Deleter::delete`: the very next thing it does, after a
look at the token that came before.  So all workers together pass on at most one
batch each. -/
theorem cancellation_stops {w' : PipelineWorld} (h : Running config outside w)
    (hc : w.shared.cancelled = true) (hw : (pipeline config outside).Reachable w w') :
    (∀ n, ∃ s, traceOf (.stage (.worker n)) w'.log = traceOf (.stage (.worker n)) w.log ++ s ∧
      ∀ s₁ objects s₂, s = s₁ ++ ⟨.beginDelete objects, ()⟩ :: s₂ → s₁ = [] ∧
        (∃ t, traceOf (.stage (.worker n)) w.log = t ++ [⟨.isCancelled, false⟩]) ∧
        objects.length ≤ effectiveBatchSize config) ∧
      (w'.proj begun).length ≤
        (w.proj begun).length + config.workerSize * effectiveBatchSize config := by
  refine ⟨worker_stops h hc hw, ?_⟩
  have hrun' := (h.after_cancelled hc hw).1
  have hworker : ∀ n, (w'.projOf begun (.stage (.worker n))).length ≤
      (w.projOf begun (.stage (.worker n))).length + effectiveBatchSize config := by
    intro n
    obtain ⟨s, hs, hbegins⟩ := worker_stops h hc hw n
    rw [World.projOf, World.projOf, hs, List.flatMap_append, List.length_append]
    refine Nat.add_le_add_left (begun_length_le fun s₁ objects s₂ he => ?_) _
    exact ⟨(hbegins s₁ objects s₂ he).1, (hbegins s₁ objects s₂ he).2.2⟩
  have hlength : ∀ {v : PipelineWorld}, Running config outside v → (v.proj begun).length =
      ∑ n ∈ Finset.range config.workerSize, (v.projOf begun (.stage (.worker n))).length := by
    intro v hv
    have hcard := congrArg Multiset.card (coe_proj_workers fun _ _ => begun_of_not_worker hv)
    rwa [Multiset.coe_card, Multiset.card_sum] at hcard
  rw [hlength h, hlength hrun']
  calc ∑ n ∈ Finset.range config.workerSize, (w'.projOf begun (.stage (.worker n))).length
      ≤ ∑ n ∈ Finset.range config.workerSize,
          ((w.projOf begun (.stage (.worker n))).length + effectiveBatchSize config) :=
        Finset.sum_le_sum fun n _ => hworker n
    _ = _ := by rw [Finset.sum_add_distrib, Finset.sum_const, Finset.card_range, smul_eq_mul]

/-- A sub-listing fails while the worker is between its look at the token and its call. -/
def racedConfig : Config where
  workerSize := 1
  batchSize := 1

def racedScript : Script where
  listing := [.object previewObject, .subListingFailed (.other "timeout"), .finished (.ok ())]

def racedRun : PipelineWorld :=
  racedScript.run racedConfig racedScript.outside (List.replicate 4 (.stage .lister) ++
    List.replicate 4 (.stage (.worker 0)) ++ List.replicate 4 (.stage .lister))

/-- The worker makes its call. -/
def racedEnd : PipelineWorld :=
  (pipeline racedConfig racedScript.outside).exec (fun w _ o => racedScript.respond racedConfig w o)
    racedRun (List.replicate 20 (.stage (.worker 0)))

theorem racedRun_running : Running racedConfig racedScript.outside racedRun :=
  Script.running (fun _ _ _ => Script.agrees) _

/-- `cancellation_stops` on that run. -/
theorem cancellation_stops_racedRun :
    racedRun.proj begun = [] ∧ racedEnd.proj begun = [previewObject] ∧
      (racedEnd.proj begun).length ≤ (racedRun.proj begun).length + 1 * 1 :=
  ⟨by decide +kernel, by decide +kernel, (cancellation_stops racedRun_running (by decide +kernel)
    (Machine.exec_sound (fun _ _ _ _ => Script.agrees) racedRun _)).2⟩

end S3rm
