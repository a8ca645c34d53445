/-
S3rm/Liveness.lean

Every run ends.  A stage takes in one object a turn, so it comes to rest when its
channel brings nothing new: the lister when the listing is over, then the stages of
the chain one after the other, the workers and the terminator (`receivers_rest`).
And as long as a task has not ended, one of them can go on (`run_progress`).

    every_run_ends    whatever is answered, cancelled, fails or panics: if the listing
                      is finite and the scheduler does not stop while a task can go
                      on, all tasks end
-/
import S3rm.Conc.Settling
import S3rm.Progress
import S3rm.Stream

namespace S3rm

open Conc Conc.Prog

variable {config : Config} {outside : Outside} {w : PipelineWorld} {i : TaskId} {c : Nat}

/-! ### The tasks take in one thing a turn -/

/-- Taking in something new: a step of the listing, or an object received. -/
def Event.takesIn : Event → Bool
  | ⟨.nextListed, _⟩ | ⟨.recv _, some _⟩ | ⟨.select _, .received (some _)⟩ => true
  | _ => false

theorem FilterStep.takesIn {stage : Stage} {kind : FilterKind} {t : Trace}
    (h : FilterStep stage kind t (.inl ())) : ∃ e ∈ t, Event.takesIn e := by
  have hreceives : ∀ o, ∃ e ∈ kind.receives stage.receiver (some o), Event.takesIn e := by
    intro o
    cases kind
    · exact ⟨⟨.recv stage.receiver, some o⟩, by simp [FilterKind.receives], rfl⟩
    · exact ⟨⟨.select stage.receiver, .received (some o)⟩, by simp [FilterKind.receives], rfl⟩
  cases h with
  | @rejected o _ _ _ _ | @sent o _ _ =>
    obtain ⟨e, he, htakes⟩ := hreceives o
    exact ⟨e, List.mem_append_left _ he, htakes⟩

theorem guarded_listTarget : (listTarget 0).Guarded Event.takesIn := by
  refine guarded_loop (fun failed => (listTurn_straight failed).loopFree) (fun _ _ _ ht => ?_) none
  cases run_listTurn ht with
  | object | subListing => exact ⟨_, List.mem_cons_self, rfl⟩

theorem guarded_filter (kind : FilterKind) (stage : Stage) :
    (kind.filter stage).Guarded Event.takesIn := by
  rw [kind.filter_eq]
  refine guarded_loop (fun _ => ?_) (fun _ _ _ ht => (FilterKind.step ht).takesIn) ()
  exact ((filterCovers_isFiltering stage.receiver stage.sender).turn kind stage.config).loopFree

theorem guarded_receiveAndDelete (stage : Stage) :
    (receiveAndDelete stage).Guarded Event.takesIn := by
  refine guarded_loop (fun b => (workerTurn_straight stage b).loopFree) (fun _ _ _ ht => ?_) []
  cases run_workerTurn ht with
  | received process rest => exact ⟨_, List.mem_cons_self, rfl⟩

theorem guarded_terminate (c : Nat) : (terminate c).Guarded Event.takesIn := by
  refine guarded_loop (fun _ => ?_) (fun _ _ _ ht => ?_) ()
  · refine ⟨trivial, fun r => ?_⟩
    cases r <;> trivial
  · obtain ⟨r, u, rfl, hu⟩ := run_ask_bind.mp ht
    cases r with
    | some o => exact ⟨_, List.mem_cons_self, rfl⟩
    | none =>
      obtain ⟨-, hx⟩ := hu
      cases hx

theorem supervise_loopFree (s : StageId) : LoopFree (supervise config s) := by
  refine straight_ask_bind.mpr ⟨trivial, ?_⟩
  rintro ((e | ⟨⟨⟩⟩) | -)
  · dsimp only
    split_ifs <;> simp
  · trivial
  · simp

/-- **The loops of all tasks take in something each turn.** -/
theorem TaskId.guarded {p : Act Unit} (hp : i.program config = some p) :
    p.Guarded Event.takesIn := by
  rcases i with (_ | n | n) | s | _ | _
  · obtain rfl := Option.some.inj hp
    exact guarded_listTarget
  · obtain ⟨kind, -, rfl⟩ := Option.map_eq_some_iff.mp hp
    exact guarded_filter kind _
  · simp only [program, StageId.program] at hp
    split_ifs at hp
    obtain rfl := Option.some.inj hp
    exact guarded_receiveAndDelete _
  · simp only [program] at hp
    split_ifs at hp
    obtain rfl := Option.some.inj hp
    exact (supervise_loopFree s).guarded
  · obtain rfl := Option.some.inj hp
    exact guarded_terminate _
  · obtain rfl := Option.some.inj hp
    exact (runStarted_straight config).loopFree.guarded

/-! ### What the receivers of a channel take in -/

/-- Nobody receives from two channels. -/
theorem receivers_disjoint {c' : Nat} (hi : i ∈ receivers config c) (hi' : i ∈ receivers config c')
    (hc : c ≤ filterCount config + 1) (hc' : c' ≤ filterCount config + 1) : c' = c := by
  unfold receivers at hi hi'
  split_ifs at hi hi' <;> simp_all [workers]
  omega

theorem length_got_of_takesIn (h : Running config outside w) (hc : c ≤ filterCount config + 1)
    (hi : i ∈ receivers config c) {e : Event} (he : (i, e) ∈ w.log) (htakes : Event.takesIn e) :
    (got c e).length = 1 := by
  have hs := h.started he
  have hu := h.mayUse he
  rcases e with ⟨op, r⟩
  have hchan : ∀ c', op = .recv c' ∨ op = .select c' → c' = c := by
    intro c' hop
    refine receivers_disjoint hi (mem_receivers hs hu hop) hc ?_
    rcases i with (_ | n | n) | s | _ | _
    case stage.filter =>
      have hn := StageId.filter_started.mp hs
      rcases hop with rfl | rfl <;> simp [TaskId.mayUse, Op.isFiltering] at hu <;> omega
    all_goals
      rcases hop with rfl | rfl <;>
        simp [TaskId.mayUse, Op.isListing, Op.isWorking, Op.isScreening, Op.isFlush, Op.isFinish,
          Op.isReport, Op.isNotice, Op.isBackend, Op.isSupervising, Op.isCompleting] at hu <;> omega
  cases op
  case recv c' =>
    obtain rfl := hchan c' (.inl rfl)
    cases r with
    | none => cases htakes
    | some o => simp [got]
  case select c' =>
    obtain rfl := hchan c' (.inr rfl)
    rcases r with (- | o) | -
    · cases htakes
    · simp [got]
    · cases htakes
  case nextListed =>
    unfold receivers at hi
    split_ifs at hi <;> simp [workers] at hi
    · subst hi
      simp [TaskId.mayUse, Op.isFiltering, Op.isNotice] at hu
    · obtain ⟨n, -, rfl⟩ := hi
      simp [TaskId.mayUse, Op.isWorking, Op.isScreening, Op.isFlush, Op.isFinish, Op.isReport,
        Op.isNotice, Op.isBackend] at hu
    · subst hi
      simp [TaskId.mayUse] at hu
  all_goals cases htakes

/-- What a receiver takes in was sent to it. -/
theorem countP_takesIn_le (h : Running config outside w) (hc : c ≤ filterCount config + 1)
    (hi : i ∈ receivers config c) :
    (traceOf i w.log).countP Event.takesIn ≤ (w.proj (sentTo c)).length := by
  have htrace : ∀ t : Trace, (∀ e ∈ t, Event.takesIn e → (got c e).length = 1) →
      t.countP Event.takesIn ≤ (t.flatMap (got c)).length := by
    intro t ht
    induction t with
    | nil => simp
    | cons e t ih =>
      have ih := ih fun e' he' => ht e' (List.mem_cons_of_mem e he')
      rw [List.countP_cons, List.flatMap_cons, List.length_append]
      split_ifs with htakes
      · rw [ht e List.mem_cons_self htakes]
        omega
      · omega
  calc (traceOf i w.log).countP Event.takesIn
      ≤ (w.projOf (got c) i).length :=
        htrace _ fun e he => length_got_of_takesIn h hc hi (mem_traceOf.mp he)
    _ ≤ (w.proj (got c)).length := (World.projOf_sublist _ _ _).length_le
    _ ≤ (w.proj (sentTo c)).length := by
        rw [channel_law h c, List.length_append]
        exact Nat.le_add_right _ _

/-! ### The chain comes to rest -/

/-- A course of the pipeline, from the moment its tasks are started. -/
structure Course (config : Config) (outside : Outside) (w : ℕ → PipelineWorld) : Prop where
  starts : w 0 = start config
  path : (pipeline config outside).Path w

section course

variable {w : ℕ → PipelineWorld} (h : Course config outside w)

include h

theorem Course.running (n : ℕ) : Running config outside (w n) := by
  have hreach := h.path.reachable (Nat.zero_le n)
  rwa [h.starts] at hreach

theorem Course.log_isPrefix {m n : ℕ} (hmn : m ≤ n) : (w m).log <+: (w n).log :=
  (h.path.reachable hmn).log_isPrefix

/-- A task that takes in a bounded number of things comes to rest. -/
theorem Course.rests (hbound : ∃ k, ∀ n, (traceOf i (w n).log).countP Event.takesIn ≤ k) :
    ∃ N, Machine.RestsFrom w i N := by
  have hspawn : (pipeline config outside).SpawnsGuarded Event.takesIn i := by
    intro _ _ _ _ hsp
    cases hsp
  apply h.path.settles hspawn ?_ hbound
  rw [h.starts]
  rcases hp : i.program config with - | p
  · simp [start, hp, TaskState.Guarded]
  · simpa [start, hp, TaskState.Guarded] using TaskId.guarded hp

/-- What resting senders have sent is bounded. -/
theorem Course.sent_bounded (hrest : ∀ i ∈ senders config c, ∃ N, Machine.RestsFrom w i N) :
    ∃ k, ∀ n, ((w n).proj (sentTo c)).length ≤ k := by
  obtain ⟨N, hN⟩ := Machine.restsFrom_all hrest
  refine ⟨((w N).proj (sentTo c)).length, fun n => ?_⟩
  rcases Nat.le_total n N with hn | hn
  · obtain ⟨l, hl⟩ := h.log_isPrefix hn
    rw [World.proj, World.proj, ← hl, List.flatMap_append, List.length_append]
    exact Nat.le_add_right _ _
  · -- from `N` on there is nothing new
    have hsum : ∀ m, ((w m).proj (sentTo c) : Multiset S3Object) =
        ∑ i ∈ (senders config c).toFinset, ((w m).projOf (sentTo c) i : Multiset S3Object) := by
      intro m
      refine World.coe_proj fun e he hi => sentTo_of_not_sender (h.running m) (i := e.1) he ?_
      simpa using hi
    have heq : ((w n).proj (sentTo c) : Multiset S3Object) = (w N).proj (sentTo c) := by
      rw [hsum, hsum]
      refine Finset.sum_congr rfl fun i hi => ?_
      rw [World.projOf, (hN i (List.mem_toFinset.mp hi) n hn).2]
      rfl
    have hcard := congrArg Multiset.card heq
    exact hcard.le

/-- **Where the senders rest, the receivers come to rest.** -/
theorem Course.receivers_rest (hc : c ≤ filterCount config + 1)
    (hrest : ∀ i ∈ senders config c, ∃ N, Machine.RestsFrom w i N) :
    ∀ i ∈ receivers config c, ∃ N, Machine.RestsFrom w i N := by
  obtain ⟨k, hk⟩ := h.sent_bounded hrest
  exact fun i hi => h.rests ⟨k, fun n => (countP_takesIn_le (h.running n) hc hi).trans (hk n)⟩

/-- The senders of all channels come to rest, if the listing is finite. -/
theorem Course.senders_rest
    (hlist : ∃ k, ∀ n, (traceOf (.stage .lister) (w n).log).countP isNextListed ≤ k)
    (hc : c ≤ filterCount config + 1) :
    ∀ i ∈ senders config c, ∃ N, Machine.RestsFrom w i N := by
  induction c with
  | zero =>
    intro i hi
    obtain rfl : i = .stage .lister := by simpa [senders_zero] using hi
    obtain ⟨k, hk⟩ := hlist
    refine h.rests ⟨k, fun n => le_trans (List.countP_mono_left fun e he htakes => ?_) (hk n)⟩
    have hu := (h.running n).mayUse (mem_traceOf.mp he)
    rcases e with ⟨op, r⟩
    cases op <;> first | rfl | simp [TaskId.mayUse, Op.isListing, Event.takesIn] at hu htakes
  | succ c ih =>
    have hreceivers := h.receivers_rest (by omega) (ih (by omega))
    rcases Nat.lt_or_ge c (filterCount config) with hlt | hge
    · rw [senders_filter hlt]
      rwa [receivers_filter hlt] at hreceivers
    · obtain rfl : c = filterCount config := by omega
      rw [senders_last]
      rwa [receivers_workers] at hreceivers

/-- Supervisors and `run()` take in nothing. -/
theorem Course.rests_of_takes_nothing (hnone : ∀ op : Op, i.mayUse config op → ∀ r,
    Event.takesIn ⟨op, r⟩ = false) : ∃ N, Machine.RestsFrom w i N := by
  refine h.rests ⟨0, fun n => (List.countP_eq_zero.mpr fun e he htakes => ?_).le⟩
  have hu := (h.running n).mayUse (mem_traceOf.mp he)
  rw [hnone e.1 hu e.2] at htakes
  cases htakes

/-- **If the listing is finite, all tasks come to rest.** -/
theorem Course.all_rest
    (hlist : ∃ k, ∀ n, (traceOf (.stage .lister) (w n).log).countP isNextListed ≤ k)
    (hi : i.started config) : ∃ N, Machine.RestsFrom w i N := by
  have hsenders := fun c (hc : c ≤ filterCount config + 1) => h.senders_rest hlist hc
  rcases i with (_ | n | n) | s | _ | _
  · exact hsenders 0 (by omega) _ (by simp [senders_zero])
  · have hn := StageId.filter_started.mp hi
    exact hsenders (n + 1) (by omega) _ (by simp [senders_filter hn])
  · have hn := StageId.worker_started.mp hi
    refine hsenders (filterCount config + 1) le_rfl _ ?_
    rw [senders_last]
    exact mem_workers.mpr ⟨n, hn, rfl⟩
  · refine h.rests_of_takes_nothing fun op hu r => ?_
    cases op <;> first | rfl | simp [TaskId.mayUse, Op.isSupervising] at hu
  · refine h.receivers_rest le_rfl (hsenders _ le_rfl) _ ?_
    simp [receivers_last]
  · refine h.rests_of_takes_nothing fun op hu r => ?_
    cases op <;> first | rfl | simp [TaskId.mayUse, Op.isCompleting, Op.isNotice] at hu

end course

/-! ### As long as a task has not ended, one can go on -/

/-- An open channel has a receiver that has not ended. -/
theorem exists_receiver (h : isChannelClosed config w.outcome c = false) :
    ∃ i ∈ receivers config c, w.outcome i = none := by
  simp only [isChannelClosed, Bool.or_eq_false_iff, List.all_eq_false] at h
  obtain ⟨i, hi, hout⟩ := h.2
  exact ⟨i, hi, by simpa using hout⟩

/-- The receivers of the channels are tasks of the run. -/
theorem started_of_mem_receivers (hi : i ∈ receivers config c) : i.started config := by
  unfold receivers at hi
  split_ifs at hi with hlt
  · obtain rfl := List.mem_singleton.mp hi
    exact StageId.filter_started.mpr hlt
  · obtain ⟨n, hn, rfl⟩ := mem_workers.mp hi
    exact StageId.worker_started.mpr hn
  · obtain rfl := List.mem_singleton.mp hi
    rfl

/-- A sender finds out that its channel is closed. -/
theorem ready_of_closed (hresp : outside.Responsive) {x : S3Object}
    {k : Bool → Task (Except Error Unit)} (run : w.tasks i = .running (.op (.send c x) k))
    (hclosed : isChannelClosed config w.outcome c = true) : (pipeline config outside).Ready w i :=
  ready_of_handle (r := false) hresp run (by simp [Shared.handle, hclosed]; rfl) rfl

/-- A receiver of a full channel can go on, or waits one channel further down. -/
theorem receiver_ready_or_down (h : Running config outside w) (hresp : outside.Responsive)
    (hcap : 0 < config.objectListingQueueSize) (hc : c ≤ filterCount config + 1)
    (hi : i ∈ receivers config c) (hout : w.outcome i = none)
    (hfull : config.objectListingQueueSize ≤ (w.shared.queues c).length) :
    (pipeline config outside).Ready w i ∨ (c ≤ filterCount config ∧
      config.objectListingQueueSize ≤ (w.shared.queues (c + 1)).length ∧
      isChannelClosed config w.outcome (c + 1) = false) := by
  have hstarted := started_of_mem_receivers hi
  obtain ⟨p, run⟩ := h.task_running hstarted hout
  rcases ready_or_waiting hresp run with hready | hwaiting
  · exact .inl hready
  obtain @⟨o, k, c', run, receives, empty, -⟩ | @⟨k, c', x, run, full⟩ | @⟨j, k, run⟩ := hwaiting
  · -- its own channel is not empty
    have hu := h.mayUse_next hstarted run
    have hmem := mem_receivers hstarted hu receives
    obtain rfl : c' = c := by
      unfold receivers at hi hmem
      split_ifs at hi hmem <;> simp_all [workers]
      rcases receives with rfl | rfl
      · simp [TaskId.mayUse] at hu
        omega
      · simp [TaskId.mayUse] at hu
    rw [empty] at hfull
    simp at hfull
    omega
  · have hu := h.mayUse_next hstarted run
    have hdown : c' = c + 1 ∧ c ≤ filterCount config := by
      unfold receivers at hi
      split_ifs at hi with hlt heq
      · obtain rfl := List.mem_singleton.mp hi
        have hc' : c' = c + 1 := by simpa [TaskId.mayUse, Op.isFiltering] using hu
        exact ⟨hc', by omega⟩
      · obtain ⟨n, -, rfl⟩ := mem_workers.mp hi
        have hc' : c' = filterCount config + 1 := by
          simpa [TaskId.mayUse, Op.isWorking, Op.isScreening, Op.isFlush, Op.isFinish, Op.isReport,
            Op.isNotice, Op.isBackend] using hu
        exact ⟨by omega, by omega⟩
      · obtain rfl := List.mem_singleton.mp hi
        simp [TaskId.mayUse] at hu
    obtain ⟨rfl, hle⟩ := hdown
    rcases hclosed : isChannelClosed config w.outcome (c + 1) with - | -
    · exact .inr ⟨hle, full, rfl⟩
    · exact .inl (ready_of_closed hresp run hclosed)
  · have hu := h.mayUse_next hstarted run
    unfold receivers at hi
    split_ifs at hi
    · obtain rfl := List.mem_singleton.mp hi
      simp [TaskId.mayUse, Op.isFiltering, Op.isNotice] at hu
    · obtain ⟨n, -, rfl⟩ := mem_workers.mp hi
      simp [TaskId.mayUse, Op.isWorking, Op.isScreening, Op.isFlush, Op.isFinish, Op.isReport,
        Op.isNotice, Op.isBackend] at hu
    · obtain rfl := List.mem_singleton.mp hi
      simp [TaskId.mayUse] at hu

/-- Below a full, open channel a task can go on. -/
theorem exists_ready_below (h : Running config outside w) (hresp : outside.Responsive)
    (hcap : 0 < config.objectListingQueueSize) (hc : c ≤ filterCount config + 1)
    (hfull : config.objectListingQueueSize ≤ (w.shared.queues c).length)
    (hopen : isChannelClosed config w.outcome c = false) :
    ∃ i, (pipeline config outside).Ready w i := by
  generalize hd : filterCount config + 1 - c = d
  induction d generalizing c with
  | zero =>
    obtain ⟨i, hi, hout⟩ := exists_receiver hopen
    rcases receiver_ready_or_down h hresp hcap hc hi hout hfull with hready | ⟨hle, -⟩
    · exact ⟨i, hready⟩
    · omega
  | succ d ih =>
    obtain ⟨i, hi, hout⟩ := exists_receiver hopen
    rcases receiver_ready_or_down h hresp hcap hc hi hout hfull with hready | ⟨hle, hfull', hopen'⟩
    · exact ⟨i, hready⟩
    · exact ih (by omega) hfull' hopen' (by omega)

/-- What a stage may do besides waiting for other tasks. -/
theorem stage_channels {s : StageId} (hs : TaskId.started config (.stage s)) :
    (∀ {c' x}, TaskId.mayUse config (.stage s) (.send c' x) → c' ≤ filterCount config + 1) ∧
      (∀ {c' o}, o = .recv c' ∨ o = .select c' → TaskId.mayUse config (.stage s) o →
        c' ≤ filterCount config + 1) ∧ ∀ {j}, ¬ TaskId.mayUse config (.stage s) (.join j) := by
  rcases s with _ | n | n
  · refine ⟨fun hu => ?_, fun ho hu => ?_, by simp [TaskId.mayUse, Op.isListing]⟩
    · obtain rfl := by simpa [TaskId.mayUse, Op.isListing] using hu
      omega
    · rcases ho with rfl | rfl <;> simp [TaskId.mayUse, Op.isListing] at hu
  · have hn := StageId.filter_started.mp hs
    refine ⟨fun hu => ?_, fun ho hu => ?_, by simp [TaskId.mayUse, Op.isFiltering, Op.isNotice]⟩
    · obtain rfl := by simpa [TaskId.mayUse, Op.isFiltering] using hu
      omega
    · rcases ho with rfl | rfl <;> simp [TaskId.mayUse, Op.isFiltering] at hu <;> omega
  · refine ⟨fun hu => ?_, fun ho hu => ?_, ?_⟩
    · simp [TaskId.mayUse, Op.isWorking, Op.isScreening, Op.isFlush, Op.isFinish, Op.isReport,
        Op.isNotice, Op.isBackend] at hu
      omega
    · rcases ho with rfl | rfl <;>
        simp [TaskId.mayUse, Op.isWorking, Op.isScreening, Op.isFlush, Op.isFinish, Op.isReport,
          Op.isNotice, Op.isBackend] at hu
      omega
    · simp [TaskId.mayUse, Op.isWorking, Op.isScreening, Op.isFlush, Op.isFinish, Op.isReport,
        Op.isNotice, Op.isBackend]

/-- A supervisor waits for its stage. -/
theorem supervise_joins (s : StageId) :
    (supervise config s).Uses fun o => ∀ j, o = .join j → j = .stage s := by
  refine Straight.uses (straight_ask_bind.mpr ⟨fun j hj => (Op.join.inj hj).symm, ?_⟩)
  rintro ((e | ⟨⟨⟩⟩) | -)
  · dsimp only
    split_ifs <;> simp
  · trivial
  · simp

/-- `run()` waits for the terminator. -/
theorem runStarted_joins (config : Config) :
    (runStarted config).Uses fun o => ∀ j, o = .join j → j = .terminator := by
  refine Straight.uses (Completes.runStarted ⟨fun j hj => (Op.join.inj hj).symm, nofun, nofun,
    fun _ => nofun, nofun, nofun, nofun, nofun, nofun, ⟨fun _ _ => nofun, fun _ _ => nofun⟩⟩ ?_)
  refine (triggerEvent_straight _ _).mono fun o ho j hj => ?_
  subst hj
  cases ho

/-- **As long as a task of the run has not ended, one can go on.** -/
theorem run_progress (h : Running config outside w) (hresp : outside.Responsive)
    (hcap : 0 < config.objectListingQueueSize) (hi : i.started config) (hout : w.outcome i = none) :
    ∃ j, (pipeline config outside).Ready w j := by
  have hstage : ∀ s : StageId, TaskId.started config (.stage s) → w.outcome (.stage s) = none →
      ∃ j, (pipeline config outside).Ready w j := by
    intro s hs hout
    obtain ⟨p, run⟩ := h.task_running hs hout
    obtain ⟨hsend, hreceive, hjoin⟩ := stage_channels hs
    rcases ready_or_waiting hresp run with hready | hwaiting
    · exact ⟨_, hready⟩
    obtain @⟨o, k, c, run, receives, empty, opened⟩ | @⟨k, c, x, run, full⟩ | @⟨j, k, run⟩ := hwaiting
    · obtain ⟨s', hready⟩ := exists_ready_above h hresp hcap
        (hreceive receives (h.mayUse_next hs run)) empty opened
      exact ⟨_, hready⟩
    · rcases hclosed : isChannelClosed config w.outcome c with - | -
      · exact exists_ready_below h hresp hcap (hsend (h.mayUse_next hs run)) full hclosed
      · exact ⟨_, ready_of_closed hresp run hclosed⟩
    · exact absurd (h.mayUse_next hs run) hjoin
  have hterminator : w.outcome .terminator = none → ∃ j, (pipeline config outside).Ready w j := by
    intro hout
    rcases terminator_ready_or_waits h hresp hout with hready | ⟨empty, opened⟩
    · exact ⟨_, hready⟩
    · obtain ⟨s, hready⟩ := exists_ready_above h hresp hcap le_rfl empty opened
      exact ⟨_, hready⟩
  -- whoever joins a task can go on once that one has ended
  have hjoins : ∀ {j : TaskId} {p : Act Unit}, i.program config = some p →
      p.Uses (fun o => ∀ j', o = .join j' → j' = j) →
      (∀ c x, ¬ i.mayUse config (.send c x)) →
      (∀ c, ¬ i.mayUse config (.recv c) ∧ ¬ i.mayUse config (.select c)) →
      (w.outcome j = none → ∃ j, (pipeline config outside).Ready w j) →
      ∃ j, (pipeline config outside).Ready w j := by
    intro j p hp huses hsend hreceive hj
    obtain ⟨q, run⟩ := h.task_running hi hout
    rcases ready_or_waiting hresp run with hready | hwaiting
    · exact ⟨_, hready⟩
    obtain @⟨o, k, c, run, receives, -, -⟩ | @⟨k, c, x, run, -⟩ | @⟨j', k, run⟩ := hwaiting
    · have hu := h.mayUse_next hi run
      rcases receives with rfl | rfl
      · exact absurd hu (hreceive c).1
      · exact absurd hu (hreceive c).2
    · exact absurd (h.mayUse_next hi run) (hsend c x)
    · obtain rfl : j' = j := Machine.Reachable.next_uses (start_initial config) h
        ((h.code_eq i).trans hp) huses run j' rfl
      rcases ho : w.outcome j' with - | o
      · exact hj ho
      · exact ⟨i, ready_of_handle (r := o) hresp run (by simp [Shared.handle, ho]; rfl) rfl⟩
  rcases i with s | s | _ | _
  · exact hstage s hi hout
  · simp only [TaskId.started, TaskId.program] at hi
    split_ifs at hi with hs
    · refine hjoins (p := supervise config s) (by simp [TaskId.program, hs]) (supervise_joins s)
        (by simp [TaskId.mayUse, Op.isSupervising]) (by simp [TaskId.mayUse, Op.isSupervising])
        (hstage s (StageId.started_of_exists hs))
    · cases hi
  · exact hterminator hout
  · exact hjoins (p := runStarted config) rfl (runStarted_joins config)
      (by simp [TaskId.mayUse, Op.isCompleting, Op.isNotice])
      (by simp [TaskId.mayUse, Op.isCompleting, Op.isNotice]) hterminator

/-! ### Every run ends -/

theorem started_of_mem_tasksOf (hi : i ∈ tasksOf config) : i.started config := by
  have hstage : ∀ s : StageId, s ∈ StageId.lister :: ((List.range (filterCount config)).map .filter ++
      (List.range config.workerSize).map .worker) → s.exists config := by
    intro s hs
    rcases s with _ | n | n
    · rfl
    · exact decide_eq_true (by simpa using hs)
    · exact decide_eq_true (by simpa using hs)
  rcases i with s | s | _ | _
  · exact StageId.started_of_exists (hstage s (by simpa [tasksOf] using hi))
  · have hs := hstage s (by simpa [tasksOf] using hi)
    simp [TaskId.started, TaskId.program, hs]
  · rfl
  · rfl

/-- The scheduler does not stop as long as a task can go on. -/
def Busy (config : Config) (outside : Outside) (w : ℕ → PipelineWorld) : Prop :=
  ∀ n, (∃ i, (pipeline config outside).Ready (w n) i) → ∃ m ≥ n, (w (m + 1)).tasks ≠ (w m).tasks

section course

variable {w : ℕ → PipelineWorld} (h : Course config outside w)

include h

/-- What was not started does not run. -/
theorem Course.idle {n : ℕ} (hi : ¬ i.started config) : (w n).tasks i = .idle := by
  have hp : i.program config = none := by simpa [TaskId.started] using hi
  have hfollow := Machine.Reachable.taskOk (start_initial config) (h.running n) i
  simp only [World.TaskOk, (h.running n).code_eq i, hp] at hfollow
  exact hfollow.1

/-- When all tasks rest, the pipeline does. -/
theorem Course.still {N : ℕ} (hN : ∀ i ∈ tasksOf config, Machine.RestsFrom w i N) {n : ℕ}
    (hn : N ≤ n) : (w n).tasks = (w N).tasks ∧ (w n).log = (w N).log := by
  have htask : ∀ i, (w n).tasks i = (w N).tasks i ∧ traceOf i (w n).log = traceOf i (w N).log := by
    intro i
    by_cases hi : i.started config
    · exact hN i (mem_tasksOf hi) n hn
    · have hp : i.program config = none := by simpa [TaskId.started] using hi
      rw [h.idle hi, h.idle hi, (h.running n).idle hp, (h.running N).idle hp]
      exact ⟨rfl, rfl⟩
  refine ⟨funext fun i => (htask i).1, ?_⟩
  obtain ⟨l, hl⟩ := h.log_isPrefix hn
  rcases l with - | ⟨⟨i, e⟩, l⟩
  · rw [← hl, List.append_nil]
  · -- the task would have done something
    have htrace := (htask i).2
    rw [← hl] at htrace
    simp [traceOf] at htrace

/-- What has ended stays so. -/
theorem Course.over_mono {m n : ℕ} (hmn : m ≤ n) (hover : Over config (w m)) : Over config (w n) := by
  intro i hi
  obtain ⟨o, ho⟩ := Option.isSome_iff_exists.mp (hover i hi)
  rw [Machine.Reachable.outcome_mono (h.path.reachable hmn) ho]
  rfl

/-- Before the end nothing can go on without the scheduler letting it. -/
theorem Course.busy_of_over {N : ℕ} (hover : Over config (w N)) : Busy config outside w := by
  rintro n ⟨i, hready⟩
  by_contra hstill
  push Not at hstill
  have htasks : ∀ m ≥ n, (w m).tasks = (w n).tasks := by
    intro m hm
    induction m, hm using Nat.le_induction with
    | base => rfl
    | succ m hm ih => rw [hstill m hm, ih]
  obtain ⟨p, run⟩ : ∃ p, (w n).tasks i = .running p := by
    cases hready with
    | perform run | unroll run | finish run => exact ⟨_, run⟩
  have hstarted : i.started config := by
    by_contra hi
    rw [h.idle hi] at run
    cases run
  obtain ⟨o, ho⟩ := Option.isSome_iff_exists.mp
    (h.over_mono (le_max_right n N) hover i (mem_tasksOf hstarted))
  simp [World.outcome, htasks _ (le_max_left n N), run] at ho

end course

/-- **Every run ends.**  Whatever the answers are, whoever cancels, fails or panics
and however the tasks are scheduled: if the listing takes finitely many steps, the
tasks make finitely many steps.  And if the outside always answers, a channel holds
an object and the scheduler does not stop while a task can go on, then all tasks of
the run end: the stages, their supervisors, the terminator and `run()`. -/
theorem every_run_ends {w : ℕ → PipelineWorld} (h : Course config outside w)
    (hlist : ∃ k, ∀ n, (traceOf (.stage .lister) (w n).log).countP isNextListed ≤ k) :
    ∃ N, (∀ n ≥ N, (w n).tasks = (w N).tasks ∧ (w n).log = (w N).log) ∧
      (outside.Responsive → 0 < config.objectListingQueueSize → Busy config outside w →
        Over config (w N)) := by
  obtain ⟨N, hN⟩ := Machine.restsFrom_all (l := tasksOf config) fun i hi =>
    h.all_rest hlist (started_of_mem_tasksOf hi)
  have hstill := fun n (hn : n ≥ N) => h.still hN hn
  refine ⟨N, hstill, fun hresp hcap hbusy => ?_⟩
  by_contra hover
  simp only [Over, not_forall] at hover
  obtain ⟨i, hi, hout⟩ := hover
  obtain ⟨m, hm, hmoves⟩ := hbusy N (run_progress (h.running N) hresp hcap (started_of_mem_tasksOf hi)
    (by simpa using hout))
  exact hmoves ((hstill (m + 1) (by omega)).1.trans (hstill m hm).1.symm)

/-! ### A course under back-pressure -/

/-- A schedule, step by step. -/
def Script.course (script : Script) (config : Config) (schedule : List TaskId) (n : ℕ) : PipelineWorld :=
  script.run config script.outside (schedule.take n)

theorem Script.course_path (script : Script) (config : Config) (schedule : List TaskId) :
    Course config script.outside (script.course config schedule) where
  starts := rfl
  path := by
    have hadmits : ∀ (w : PipelineWorld) (_ : TaskId) (o : Op) (r : Resp o),
        script.respond config w o = some r → (pipeline config script.outside).admits ⟨o, r⟩ :=
      fun _ _ _ _ => Script.agrees
    exact Machine.exec_path hadmits (start config) schedule

/-- Its listing is finite. -/
theorem Script.course_lists (script : Script) (config : Config) (schedule : List TaskId) :
    ∃ k, ∀ n, (traceOf (.stage .lister) (script.course config schedule n).log).countP isNextListed ≤ k := by
  refine ⟨(script.course config schedule schedule.length).log.length, fun n => ?_⟩
  have hpath := script.course_path config schedule
  have hlog : (script.course config schedule n).log.length ≤
      (script.course config schedule schedule.length).log.length := by
    rcases Nat.le_total n schedule.length with hn | hn
    · exact (hpath.log_isPrefix hn).length_le
    · rw [Script.course, Script.course, List.take_of_length_le hn, List.take_length]
  exact List.countP_le_length.trans ((List.length_filterMap_le _ _).trans hlog)

def crampedSchedule : List TaskId := roundRobin crampedConfig 40

/-- `every_run_ends` on a course with one place in every channel. -/
theorem every_run_ends_cramped : ∃ N, Over crampedConfig (crampedScript.course crampedConfig crampedSchedule N) := by
  have hcourse := crampedScript.course_path crampedConfig crampedSchedule
  have hover : Over crampedConfig
      (crampedScript.course crampedConfig crampedSchedule crampedSchedule.length) := by
    rw [Script.course, List.take_length]
    decide +kernel
  obtain ⟨N, -, hN⟩ := every_run_ends hcourse (crampedScript.course_lists crampedConfig crampedSchedule)
  exact ⟨N, hN crampedScript.responsive (by decide) (hcourse.busy_of_over hover)⟩

end S3rm
