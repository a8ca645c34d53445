/-
S3rm/Backlog.lean

How far the listing can be ahead of the deletion.  Channels hold at most as many
objects as they have room for, a filter stage has at most one object in hand and
a worker at most a batch.  So of the objects the listing has put into its channel,
from however many tasks, all but a constant number have been skipped or passed on
to the backend, however large the bucket.

    backlog_le   the bound, in every state of every run
-/
import S3rm.Accounts
import S3rm.Chain
import S3rm.Deleter.History
import S3rm.Modes
import S3rm.Progress

namespace S3rm

open Conc Conc.Prog

variable {config : Config} {outside : Outside} {w : PipelineWorld} {stage : Stage}
  {kind : FilterKind} {t u v p : Trace} {o : S3Object} {b b' : List S3Object} {c n : Nat}

/-! ### Room in the channels -/

/-- **No channel is ever fuller than it has room.** -/
theorem queue_le (h : Running config outside w) (c : Nat) :
    (w.shared.queues c).length ≤ config.objectListingQueueSize := by
  refine Machine.Reachable.invariant
    (P := fun w : PipelineWorld => (w.shared.queues c).length ≤ config.objectListingQueueSize)
    (fun u v hu hP hs => ?_) h (Nat.zero_le _)
  cases hs with
  | @perform i o k r sh run handled admitted startable =>
    show (sh.queues c).length ≤ _
    have hchannel := congrArg List.length ((handled_of_handle handled).channel c)
    rw [List.length_append, List.length_append] at hchannel
    by_cases hsent : sentTo c ⟨o, r⟩ = []
    · rw [hsent] at hchannel
      simp only [List.length_nil] at hchannel
      omega
    · -- only a send that found room makes the queue longer
      cases o
      case send chan object =>
        rcases r with - | -
        · exact absurd rfl hsent
        obtain rfl : chan = c := by
          by_contra hne
          exact hsent (if_neg hne)
        change (if _ then _ else none) = some sh at handled
        split_ifs at handled with hroom
        obtain rfl := Option.some.inj handled
        simp only [Bool.and_eq_true, decide_eq_true_eq] at hroom
        simpa [Nat.succ_le_iff] using hroom.2
      all_goals exact absurd rfl hsent
  | unroll run | finish run | panic may run => exact hP
  | env henv =>
    obtain ⟨-, rfl⟩ := henv
    exact hP

/-! ### What has left the pipeline -/

/-- The object a statistic says has left: it was skipped, or in a dry run reported
as deleted. -/
def DeletionStatistics.departed (config : Config) : DeletionStatistics → List String
  | .deleteSkip key => [key]
  | .deleteComplete key => if config.dryRun then [key] else []
  | _ => []

/-- The keys of the objects a task is done with: those its statistics say have
left, and those it passes on to `Deleter::delete`. -/
def departed (config : Config) (e : Event) : List String :=
  (noted e).flatMap (DeletionStatistics.departed config) ++ (begun e).map S3Object.key

theorem length_departed (t : Trace) : (t.flatMap (departed config)).length =
    ((t.flatMap noted).flatMap (DeletionStatistics.departed config)).length +
      (t.flatMap begun).length := by
  induction t with
  | nil => rfl
  | cons e t ih =>
    simp only [List.flatMap_cons, List.flatMap_append, List.length_append, departed,
      List.length_map] at ih ⊢
    omega

/-! ### What a filter stage has in hand -/

theorem length_decisions {ds : Decisions} (h : ∀ d ∈ ds, ∃ b, d.2 = .ok b) :
    ds.length = (accepted ds).length + (rejected ds).length := by
  induction ds with
  | nil => rfl
  | cons d ds ih =>
    have hds := ih fun d hd => h d (List.mem_cons_of_mem _ hd)
    obtain ⟨b, hb⟩ := h d List.mem_cons_self
    cases b <;> simp [accepted, rejected, hb] at hds ⊢ <;> omega

/-- A stage that has decided is done with what it rejected and has sent the rest. -/
theorem Decided.balance (c : Config) {ds : Decisions} (h : Decided stage kind ds t) :
    (t.flatMap (got stage.receiver)).length ≤
      (t.flatMap (sentTo stage.sender)).length + (t.flatMap (departed c)).length := by
  rw [h.received, h.sent, List.length_map, length_decisions h.answered, length_departed, h.skipped]
  simp [List.flatMap_map, DeletionStatistics.departed]

/-- A turn of a stage takes at most one object. -/
theorem FilterStep.got_le {x : Unit ⊕ Except Error Unit} (h : FilterStep stage kind u x) :
    (u.flatMap (got stage.receiver)).length ≤ 1 := by
  have hone : ∀ {o : S3Object} {z : Trace}, z.flatMap (got stage.receiver) = [] →
      ((kind.receives stage.receiver (some o) ++ z).flatMap (got stage.receiver)).length ≤ 1 := by
    intro o z hz
    rw [List.flatMap_append, kind.got_receives, hz]
    exact le_rfl
  cases h with
  | cancelled | ended => cases kind <;> exact Nat.zero_le _
  | failed verdict =>
    apply hone
    cases verdict with
    | erred h fires =>
      have hw := flatMap_eq_nil_of_straight (f := got stage.receiver) fires
        (triggerEventIfRegistered_straight _ _) fun _ => got_notice
      simp [got, hw]
  | rejected verdict skips =>
    apply hone
    rw [List.flatMap_append, verdict.quiet fun _ _ => rfl, (skips.quiet _ stage.sender).1]
    rfl
  | sent verdict | unsent verdict =>
    apply hone
    rw [List.flatMap_append, verdict.quiet fun _ _ => rfl]
    rfl

/-- **A filter stage has at most one object in hand.** -/
theorem part_filter_in_hand (c : Config) (h : Part (kind.filter stage) t) :
    (t.flatMap (got stage.receiver)).length ≤
      (t.flatMap (sentTo stage.sender)).length + (t.flatMap (departed c)).length + 1 := by
  obtain ⟨ds, u, v, z, x, rfl, hds, hstep⟩ := part_filter_decided h
  have hdone := hds.balance c
  have hturn := hstep.got_le
  simp only [List.flatMap_append, List.length_append] at hturn ⊢
  omega

/-! ### What a worker has in hand -/

/-- The worker is done with all objects but those in its buffer, which has room. -/
structure InHand (stage : Stage) (b : List S3Object) (t : Trace) : Prop where
  balance : (t.flatMap (got stage.receiver)).length ≤
    (t.flatMap (departed stage.config)).length + b.length
  room : b.length < effectiveBatchSize stage.config

/-- In a dry run the keys reported as deleted have left. -/
theorem departed_completeStats (batch : List S3Object) (result : DeleteResult)
    (dry : config.dryRun = true) :
    (completeStats batch result).flatMap (DeletionStatistics.departed config) =
      result.deleted.map DeletedKey.key := by
  rw [completeStats, List.flatMap_assoc, List.map_eq_flatMap]
  congr 1
  funext dk
  show (if config.dryRun then [dk.key] else []) ++ ([] ++ []) = [dk.key]
  rw [if_pos dry]
  rfl

/-- A buffer that was dealt with has left. -/
theorem Dealt.departed_le {result : DeleteResult} (h : Dealt stage b t result) :
    b.length ≤ (t.flatMap (departed stage.config)).length := by
  rw [length_departed]
  cases h with
  | simulated dry finish =>
    have hnoted := (Dealt.simulated dry finish).noted
    refine Nat.le_add_right_of_le ?_
    rw [hnoted, List.flatMap_append, departed_completeStats b _ dry, List.length_append,
      List.length_map, dryRunResult, List.length_map]
    exact Nat.le_add_left _ _
  | deleted h wet delete finish =>
    refine Nat.le_add_left_of_le ?_
    simp [begun]

/-- An object processed clear of the token is skipped, or joins the buffer, or the
buffer has left. -/
theorem Adds.departs {new : List Deed} (h : Adds stage b o p new b') :
    b.length + 1 ≤ (p.flatMap (departed stage.config)).length + b'.length := by
  cases h with
  | skipped screened =>
    have hskipped : (p.flatMap noted).flatMap (DeletionStatistics.departed stage.config) = [o.key] := by
      have hstats : ∀ {x : Entries}, entries p = x → p.flatMap noted = x.stats := by
        rintro _ rfl
        rfl
      cases run_screen_entries screened with
      | rejected skip => rw [hstats skip]; rfl
      | missing half => rw [hstats half]; rfl
    rw [length_departed, hskipped, List.length_singleton]
    omega
  | buffered screened =>
    rw [List.length_append]
    exact Nat.le_add_left _ _
  | filled screened within full dealt =>
    have hleft := dealt.departed_le
    simp only [List.flatMap_append, List.flatMap_cons, List.length_append, List.length_cons,
      List.length_nil] at hleft ⊢
    omega

/-- **A turn that goes on keeps it.** -/
theorem InHand.next (h : InHand stage b t) (hu : Turn (workerTurn stage) b u (.inl b'))
    (hperm : Permanent (t ++ u)) (hlast : Lasting (t ++ u)) : InHand stage b' (t ++ u) := by
  obtain ⟨o, p, rfl, hp⟩ := turn_next hu
  have hsplit : t ++ ⟨.select stage.receiver, .received (some o)⟩ :: (p ++ [⟨.isCancelled, false⟩]) =
      (t ++ ⟨.select stage.receiver, .received (some o)⟩ :: p) ++ ⟨.isCancelled, false⟩ :: [] := by
    simp
  have hlive : p.flatMap cancels = [] := by
    rw [cancels_eq_nil]
    intro he
    exact hlast _ _ hsplit (by simp [he])
  have hunseen : (⟨.isCancelled, true⟩ : Event) ∉ p := by
    intro he
    exact hperm _ _ hsplit ⟨.isCancelled, true⟩ (by simp [he]) trivial
  obtain ⟨new, hadds⟩ := process_adds hp h.room hlive hunseen
  refine ⟨?_, hadds.room h.room⟩
  have hleft := hadds.departs
  have hbalance := h.balance
  have hgot : (⟨.select stage.receiver, .received (some o)⟩ :: (p ++ [⟨.isCancelled, false⟩]) :
      Trace).flatMap (got stage.receiver) = [o] := by
    rw [List.flatMap_cons, List.flatMap_append, got_process (run_processObject hp)]
    simp [got]
  rw [List.flatMap_append, List.length_append, hgot]
  simp only [List.flatMap_append, List.flatMap_cons, List.length_append, List.length_singleton]
  omega

/-- A turn takes at most one object. -/
theorem WorkerTurn.got_le {x : List S3Object ⊕ Except Error Unit} (h : WorkerTurn stage b u x) :
    (u.flatMap (got stage.receiver)).length ≤ 1 := by
  cases h with
  | cancelled | lost => exact Nat.zero_le _
  | @drained z r flush =>
    have hz : z.flatMap (got stage.receiver) = [] :=
      List.flatMap_eq_nil_iff.mpr fun e he => got_flush (flush.isFlush e he)
    simp [got, hz]
  | received process rest =>
    rw [List.flatMap_cons, List.flatMap_append, got_process process]
    cases rest <;> simp [got]

/-- **A worker has at most a batch in hand.** -/
theorem part_worker_in_hand (h : Part (receiveAndDelete stage) t) (hperm : Permanent t)
    (hlast : Lasting t) : (t.flatMap (got stage.receiver)).length ≤
      (t.flatMap (departed stage.config)).length + effectiveBatchSize stage.config := by
  have hboth := part_of_loop
    (P := fun t => Permanent t → Lasting t → (t.flatMap (got stage.receiver)).length ≤
      (t.flatMap (departed stage.config)).length + effectiveBatchSize stage.config)
    (I := fun b t => Permanent t → Lasting t → InHand stage b t) ({} : Answers).agrees_total
    (fun b => (workerTurn_straight stage b).loopFree) ?_ ?_ ?_ ?_ h
    fun e _ => Answers.agrees_unknown e
  · exact hboth hperm hlast
  · exact fun _ _ => ⟨Nat.zero_le _, effectiveBatchSize_pos _⟩
  · exact fun _ _ => Nat.zero_le _
  · intro b t u x hI hu _ v hv hperm hlast
    have hhead := hI hperm.of_append hlast.of_append
    have hbalance := hhead.balance
    have hroom := hhead.room
    have hturn := (run_workerTurn hu).got_le
    have hpast := (hv.flatMap (got stage.receiver)).length_le
    simp only [List.flatMap_append, List.length_append]
    omega
  · intro b b' t u hI hu _ hperm hlast
    exact (hI hperm.of_append hlast.of_append).next hu hperm hlast

/-! ### All together -/

/-- What some tasks contribute to the log is not more than there is. -/
theorem sum_projOf_length_le {β : Type} (f : Event → List β) (S : Finset TaskId) :
    ∑ i ∈ S, (w.projOf f i).length ≤ (w.proj f).length := by
  classical
  have hall := w.coe_proj (f := f) (S := S ∪ (w.log.map Prod.fst).toFinset) fun e he hi =>
    absurd (Finset.mem_union_right S (List.mem_toFinset.mpr (List.mem_map_of_mem he))) hi
  have hcard := congrArg Multiset.card hall
  rw [Multiset.coe_card, Multiset.card_sum] at hcard
  rw [hcard]
  exact Finset.sum_le_sum_of_subset Finset.subset_union_left

/-- Up to the first `n` filter stages. -/
theorem chain_backlog (h : Running config outside w) (hn : n ≤ filterCount config) :
    (w.proj (sentTo 0)).length ≤
      ∑ k ∈ Finset.range n, (w.projOf (departed config) (.stage (.filter k))).length +
        (w.proj (sentTo n)).length + n * (config.objectListingQueueSize + 1) := by
  induction n with
  | zero => rw [Finset.sum_range_zero, Nat.zero_mul, Nat.zero_add, Nat.add_zero]
  | succ n ih =>
    -- stage `n` receives from channel `n` and sends on channel `n + 1`
    obtain ⟨kind, hprog, -⟩ := filter_program (A := {}) hn
    have hstage : (w.projOf (got n) (.stage (.filter n))).length ≤ _ :=
      part_filter_in_hand config (h.part hprog)
    have hchannel := congrArg List.length (channel_law h n)
    have hroom := queue_le h n
    have hbefore := ih (Nat.le_of_succ_le hn)
    rw [List.length_append, proj_got_filter h hn] at hchannel
    rw [Finset.sum_range_succ, proj_sentTo_filter h hn, Nat.succ_mul]
    unfold World.projOf at *
    simp only at hstage
    omega

/-- What the workers have not dealt with. -/
theorem workers_backlog (h : Running config outside w) :
    (w.proj (sentTo (filterCount config))).length ≤
      ∑ n ∈ Finset.range config.workerSize,
          (w.projOf (departed config) (.stage (.worker n))).length +
        config.workerSize * effectiveBatchSize config + config.objectListingQueueSize := by
  have hgot := congrArg Multiset.card (coe_proj_workers fun _ _ => got_of_not_worker h)
  rw [Multiset.coe_card, Multiset.card_sum] at hgot
  rw [channel_law h, List.length_append, hgot]
  refine Nat.add_le_add ?_ (queue_le h _)
  rw [← smul_eq_mul, ← Finset.card_range config.workerSize, ← Finset.sum_const,
    Finset.card_range, ← Finset.sum_add_distrib]
  refine Finset.sum_le_sum fun n hn => ?_
  exact part_worker_in_hand (h.part (worker_program (Finset.mem_range.mp hn)))
    (h.permanent _) (h.lasting _)

/-- **The listing does not run ahead of the deletion.**  In every state of every
run no channel is fuller than `object_listing_queue_size`; and of the objects that
have entered the first channel, however many there are, all but a fixed number have
been skipped, or passed on to `Deleter::delete` (reported as deleted in a dry run). -/
theorem backlog_le (h : Running config outside w) :
    (∀ c, (w.shared.queues c).length ≤ config.objectListingQueueSize) ∧
      (w.proj (sentTo 0)).length ≤ (w.proj (departed config)).length +
        (filterCount config * (config.objectListingQueueSize + 1) + config.objectListingQueueSize +
          config.workerSize * effectiveBatchSize config) := by
  refine ⟨queue_le h, ?_⟩
  have hchain := chain_backlog h le_rfl
  have hworkers := workers_backlog h
  let filters : Finset TaskId := (Finset.range (filterCount config)).map
    ⟨fun k => .stage (.filter k), fun a b hab => by simpa using hab⟩
  let deleters : Finset TaskId := (Finset.range config.workerSize).map
    ⟨fun n => .stage (.worker n), fun a b hab => by simpa using hab⟩
  have hdisjoint : Disjoint filters deleters := by
    rw [Finset.disjoint_left]
    intro i hf hw
    obtain ⟨k, -, rfl⟩ := Finset.mem_map.mp hf
    obtain ⟨n, -, hn⟩ := Finset.mem_map.mp hw
    cases hn
  have hdeparted : ∑ k ∈ Finset.range (filterCount config),
        (w.projOf (departed config) (.stage (.filter k))).length +
      ∑ n ∈ Finset.range config.workerSize,
        (w.projOf (departed config) (.stage (.worker n))).length ≤
          (w.proj (departed config)).length := by
    have hboth := sum_projOf_length_le (w := w) (departed config) (filters ∪ deleters)
    rwa [Finset.sum_union hdisjoint, Finset.sum_map, Finset.sum_map] at hboth
  omega

/-! ### A full channel -/

/-- `backlog_le` where the lister holds an object that its channel has no room for. -/
theorem backlog_le_crampedRun : (crampedRun.shared.queues 0).length = 1 ∧
    (crampedRun.proj (sentTo 0)).length = 1 ∧
    (crampedRun.proj (sentTo 0)).length ≤ (crampedRun.proj (departed crampedConfig)).length +
      (filterCount crampedConfig * 2 + 1 + effectiveBatchSize crampedConfig) := by
  obtain ⟨-, hbacklog⟩ := backlog_le crampedRun_running
  refine ⟨by decide +kernel, by decide +kernel, hbacklog.trans ?_⟩
  simp [crampedConfig]

end S3rm
