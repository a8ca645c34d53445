/-
S3rm/PipelineLaws.lean

What holds in every state a run of the pipeline can be in, whatever the order
of steps: which task performs which operations, and for each piece of shared
state the invariant that ties it to the log.

    channel_law     what was sent on a channel is what was received from it,
                    followed by what is queued
    token_law       who saw the token cancelled, or cancelled it, finds it so
    ticket_law      the tickets drawn are 0, 1, 2, …
    drained_law     a channel someone found ended has lost its senders and is
                    empty
    join_law        what was joined has ended as reported
-/
import S3rm.Deleter.Ledger
import S3rm.Pipeline

namespace S3rm

open Conc Conc.Prog

variable {config : Config} {outside : Outside} {w : PipelineWorld}

/-! ### Runs -/

theorem Running.code_eq (h : Running config outside w) (i : TaskId) :
    w.code i = i.program config :=
  congrFun (Machine.Reachable.code_eq (fun _ _ _ => rfl) h) i

theorem Running.part (h : Running config outside w) {i : TaskId} {p : Act Unit}
    (hp : i.program config = some p) : Part p (traceOf i w.log) :=
  Machine.Reachable.part (start_initial config) h ((h.code_eq i).trans hp)

theorem Running.run (h : Running config outside w) {i : TaskId} {p : Act Unit}
    (hp : i.program config = some p) {r : Except Error Unit}
    (hi : w.outcome i = some (.done r)) : Run p (traceOf i w.log) r :=
  Machine.Reachable.run (start_initial config) h ((h.code_eq i).trans hp) hi

theorem Running.admits (h : Running config outside w) (i : TaskId) :
    ∀ e ∈ traceOf i w.log, outside.admits e :=
  Machine.Reachable.admits_traceOf (start_initial config) h i

/-- A task without a program does nothing. -/
theorem Running.idle (h : Running config outside w) {i : TaskId} (hp : i.program config = none) :
    traceOf i w.log = [] :=
  Machine.Reachable.traceOf_eq_nil (start_initial config) h ((h.code_eq i).trans hp)

theorem Running.not_panicked (h : Running config outside w) {i : TaskId} (hi : ¬ i.mayPanic) :
    w.outcome i ≠ some .panicked := fun hp =>
  hi (Machine.Reachable.mayPanic (start_initial config) h hp)

/-! ### Who does what -/

/-- What the lister does. -/
def Op.isListing : Op → Bool
  | .nextListed | .cancel => true
  | .send c _ => c = 0
  | _ => false

/-- What a supervisor does. -/
def Op.isSupervising : Op → Bool
  | .join _ | .cancel | .setError | .setPanic | .pushError _ => true
  | _ => false

/-- What `run()` does after starting the stages. -/
def Op.isCompleting : Op → Bool
  | .join _ | .setError | .setPanic | .pushError _ | .hasWarning | .hasError | .errorMessages
  | .isCancelled | .closeStatsSender => true
  | o => o.isNotice

/-- What a task may do. -/
def TaskId.mayUse (config : Config) : TaskId → Op → Bool
  | .stage .lister, o => o.isListing
  | .stage (.filter n), o => o.isFiltering n (n + 1)
  | .stage (.worker _), o => o.isWorking (filterCount config) (filterCount config + 1)
  | .supervisor _, o => o.isSupervising
  | .terminator, .recv c => c = filterCount config + 1
  | .terminator, _ => false
  | .main, o => o.isCompleting

theorem listTurn_straight (failed : Option Error) :
    Straight (fun o => o.isListing) (listTurn 0 failed) := by
  refine straight_ask_bind.mpr ⟨rfl, ?_⟩
  rintro (o | e | r)
  · exact ⟨rfl, fun _ => trivial⟩
  · exact ⟨rfl, fun _ => trivial⟩
  · cases failed <;> simp [Straight.fallible_bind]

theorem listTarget_uses : (listTarget 0).Uses fun o => o.isListing :=
  Uses.loop listTurn_straight none

theorem supervise_uses (config : Config) (stage : StageId) :
    (supervise config stage).Uses fun o => o.isSupervising := by
  refine Straight.uses (straight_ask_bind.mpr ⟨rfl, ?_⟩)
  rintro ((e | ⟨⟨⟩⟩) | -)
  · dsimp only
    split_ifs <;> simp [Op.isSupervising]
  · trivial
  · simp [Op.isSupervising]

/-- The operations `φ` cover what `run()` does after starting the stages, but
for the end of the pipeline. -/
structure Completes (φ : Op → Prop) : Prop where
  join : φ (.join .terminator)
  setError : φ .setError
  setPanic : φ .setPanic
  pushError : ∀ e, φ (.pushError e)
  hasWarning : φ .hasWarning
  hasError : φ .hasError
  errorMessages : φ .errorMessages
  isCancelled : φ .isCancelled
  closeStatsSender : φ .closeStatsSender
  events : Triggers (fun type => type = .pipelineError ∨ type = .deleteCancel) φ

section completes

variable {φ : Op → Prop} (h : Completes φ)

include h

theorem Completes.recordError (e : Error) : (recordError e).Straight φ :=
  ⟨h.setError, fun _ => ⟨h.pushError e, fun _ => trivial⟩⟩

theorem Completes.awaitTerminator : awaitTerminator.Straight φ := by
  refine straight_perform_bind.mpr ⟨h.join, ?_⟩
  rintro (r | -)
  · trivial
  · exact ⟨h.setPanic, fun _ => h.recordError _⟩

theorem Completes.promoteWarnings (config : Config) : (promoteWarnings config).Straight φ := by
  unfold S3rm.promoteWarnings
  split_ifs
  · refine straight_perform_bind.mpr ⟨h.hasWarning, fun b => ?_⟩
    split_ifs
    · exact h.recordError _
    · trivial
  · trivial

theorem Completes.fireErrorEvent (config : Config) : (fireErrorEvent config).Straight φ := by
  have hmessages : getErrorMessages.Straight φ := by
    refine straight_perform_bind.mpr ⟨h.hasError, fun b => ?_⟩
    split_ifs
    · exact ⟨h.errorMessages, fun _ => trivial⟩
    · trivial
  refine straight_perform_bind.mpr ⟨h.hasError, fun b => ?_⟩
  split_ifs
  · exact hmessages.bind fun _ => h.events.triggerEvent _ (.inl rfl) nofun
  · trivial

theorem Completes.fireCancelEvent (config : Config) : (fireCancelEvent config).Straight φ := by
  refine straight_perform_bind.mpr ⟨h.isCancelled, fun b => ?_⟩
  split_ifs
  · exact h.events.triggerEvent _ (.inr rfl) nofun
  · trivial

variable {config : Config}
  (hend : (triggerEvent config.eventManager (EventData.new .pipelineEnd)).Straight φ)

include hend

theorem Completes.fireCompletionEvents : (fireCompletionEvents config).Straight φ :=
  (h.fireErrorEvent config).bind fun _ => (h.fireCancelEvent config).bind fun _ => hend

theorem Completes.runStarted : (runStarted config).Straight φ :=
  h.awaitTerminator.bind fun _ => (h.promoteWarnings config).bind fun _ =>
    ⟨h.closeStatsSender, fun _ => (h.fireCompletionEvents hend).bind fun _ => trivial⟩

end completes

theorem Op.isCompleting_of_isNotice {o : Op} (h : o.isNotice) : o.isCompleting := by
  cases o <;> first | rfl | cases h

theorem completes_isCompleting : Completes fun o => o.isCompleting where
  join := rfl
  setError := rfl
  setPanic := rfl
  pushError _ := rfl
  hasWarning := rfl
  hasError := rfl
  errorMessages := rfl
  isCancelled := rfl
  closeStatsSender := rfl
  events := ⟨fun _ _ => rfl, fun _ _ => rfl⟩

theorem triggerEvent_isCompleting (manager : EventManager) (event : EventData) :
    (triggerEvent manager event).Straight fun o => o.isCompleting :=
  (triggerEvent_straight manager event).mono fun _ => Op.isCompleting_of_isNotice

theorem runStarted_straight (config : Config) :
    (runStarted config).Straight fun o => o.isCompleting :=
  completes_isCompleting.runStarted (triggerEvent_isCompleting _ _)

theorem TaskId.program_uses {i : TaskId} {p : Act Unit} (h : i.program config = some p) :
    p.Uses fun o => i.mayUse config o := by
  rcases i with (_ | n | n) | s | _ | _
  · obtain rfl := Option.some.inj h
    exact listTarget_uses
  · obtain ⟨kind, -, rfl⟩ := Option.map_eq_some_iff.mp h
    exact (filterCovers_isFiltering n (n + 1)).uses kind config
  · simp only [program, StageId.program] at h
    split_ifs at h
    obtain rfl := Option.some.inj h
    exact receiveAndDelete_uses ⟨config, filterCount config, filterCount config + 1⟩
  · simp only [program] at h
    split_ifs at h
    obtain rfl := Option.some.inj h
    exact supervise_uses config s
  · obtain rfl := Option.some.inj h
    refine Uses.loop (fun _ => straight_ask_bind.mpr ⟨by simp [mayUse], ?_⟩) _
    rintro (- | o) <;> trivial
  · obtain rfl := Option.some.inj h
    exact (runStarted_straight config).uses

/-- **Every operation in the log is one its task may perform.** -/
theorem Running.mayUse (h : Running config outside w) {i : TaskId} {e : Event}
    (he : (i, e) ∈ w.log) : i.mayUse config e.1 := by
  have hmem := mem_traceOf.mpr he
  rcases hp : i.program config with - | p
  · simp [h.idle hp] at hmem
  · exact (h.part hp).uses (TaskId.program_uses hp) e hmem

theorem Op.not_isDeletion_of_isCompleting {o : Op} (h : o.isCompleting) : o.isDeletion = false := by
  cases o <;> first | rfl | simp [Op.isCompleting, Op.isNotice] at h

/-- Who is not a worker has no use for deletions. -/
theorem TaskId.not_isDeletion {i : TaskId} {o : Op} (ho : i.mayUse config o)
    (hw : ∀ n, i ≠ .stage (.worker n)) : o.isDeletion = false := by
  rcases i with (_ | n | n) | s | _ | _
  case stage.worker => exact absurd rfl (hw n)
  all_goals
    cases o <;> first | rfl |
      simp [mayUse, Op.isListing, Op.isFiltering, Op.isSupervising, Op.isCompleting, Op.isNotice] at ho

/-! ### One operation on the shared state -/

/-- The errors an operation records. -/
def pushed : Event → List Error
  | ⟨.pushError error, _⟩ => [error]
  | _ => []

/-- The report after the operation `e`. -/
def DeletionStatsReport.after (s : DeletionStatsReport) : Event → DeletionStatsReport
  | ⟨.incrementDeleted bytes, _⟩ => s.incrementDeleted bytes
  | ⟨.incrementFailed, _⟩ => s.incrementFailed
  | _ => s

/-- What the operation `e` can do to the shared state, with its guards. -/
structure Handled (config : Config) (out : Outcomes) (s sh : Shared) (e : Event) : Prop where
  channel : ∀ c, s.queues c ++ sentTo c e = got c e ++ sh.queues c
  token : sh.cancelled = true ↔ s.cancelled = true ∨ e.1 = .cancel
  saw : e.sawCancelled → s.cancelled = true
  looked : ∀ b, e = ⟨.isCancelled, b⟩ → b = s.cancelled
  counter : List.range s.deleteCounter ++ tickets e = List.range sh.deleteCounter
  ended : ∀ c, e.isEnd c → isChannelClosed config out c = true ∧ s.queues c = []
  open_of_sent : ∀ c, sentTo c e ≠ [] → isChannelClosed config out c = false
  closed_of_unsent : ∀ c, e.sawClosed c → isChannelClosed config out c = true
  closed : ∀ c b, e = ⟨.isClosed c, b⟩ → b = isChannelClosed config out c
  joined : ∀ t r, e = ⟨.join t, r⟩ → out t = some r
  stats : sh.stats = if s.statsClosed then s.stats else s.stats ++ noted e
  statsClosed : sh.statsClosed = true ↔ s.statsClosed = true ∨ e.1 = .closeStatsSender
  warning : sh.hasWarning = true ↔ s.hasWarning = true ∨ e.1 = .setWarning
  warned : ∀ b, e = ⟨.hasWarning, b⟩ → b = s.hasWarning
  error : sh.hasError = true ↔ s.hasError = true ∨ e.1 = .setError
  loaded : ∀ b, e = ⟨.hasError, b⟩ → b = s.hasError
  panic : sh.hasPanic = true ↔ s.hasPanic = true ∨ e.1 = .setPanic
  errors : sh.errors = s.errors ++ pushed e
  report : sh.report = s.report.after e
  pipelineStats : sh.pipelineStats = (fired e).foldl PipelineStats.update s.pipelineStats

section step

variable {out : Outcomes} {s sh : Shared}

/-- Receiving, by whichever operation. -/
theorem receive_some {chan : Nat} {x : S3Object}
    (h : s.receive config out chan (some x) = some sh) (c : Nat) :
    sh = { s with queues := sh.queues } ∧
      s.queues c = (if chan = c then [x] else []) ++ sh.queues c := by
  simp only [Shared.receive] at h
  split at h
  · rename_i head rest hq
    simp only [Option.ite_none_right_eq_some, Option.some.injEq] at h
    obtain ⟨rfl, rfl⟩ := h
    refine ⟨rfl, ?_⟩
    by_cases hc : chan = c
    · subst hc
      simp [hq]
    · simp [hc, Function.update_of_ne (Ne.symm hc)]
  · cases h

theorem receive_none {chan : Nat} (h : s.receive config out chan none = some sh) :
    sh = s ∧ isChannelClosed config out chan = true ∧ s.queues chan = [] := by
  simp only [Shared.receive, Option.ite_none_right_eq_some, Option.some.injEq, Bool.and_eq_true,
    List.isEmpty_iff] at h
  exact ⟨h.2.symm, h.1⟩

/-- **The specification of the shared operations.** -/
theorem handled_of_handle {o : Op} {r : Resp o} (h : s.handle config out o r = some sh) :
    Handled config out s sh ⟨o, r⟩ := by
  cases o
  case recv chan =>
    rcases r with - | x
    · obtain ⟨rfl, hc, hq⟩ := receive_none h
      constructor <;>
        simp +contextual [got, sentTo, tickets, noted, pushed, fired,
          DeletionStatsReport.after, Event.sawCancelled, Event.isEnd,
          Event.sawClosed, hc, hq]
    · have hrec : s.receive config out chan (some x) = some sh := h
      have hq := fun c => (receive_some hrec c).2
      rw [(receive_some hrec 0).1]
      constructor <;>
        simp [got, sentTo, tickets, noted, pushed, fired,
          DeletionStatsReport.after, Event.sawCancelled, Event.isEnd,
          Event.sawClosed, hq]
  case select chan =>
    rcases r with (- | x) | -
    · obtain ⟨rfl, hc, hq⟩ := receive_none h
      constructor <;>
        simp +contextual [got, sentTo, tickets, noted, pushed, fired,
          DeletionStatsReport.after, Event.sawCancelled, Event.isEnd,
          Event.sawClosed, hc, hq]
    · have hrec : s.receive config out chan (some x) = some sh := h
      have hq := fun c => (receive_some hrec c).2
      rw [(receive_some hrec 0).1]
      constructor <;>
        simp [got, sentTo, tickets, noted, pushed, fired,
          DeletionStatsReport.after, Event.sawCancelled, Event.isEnd,
          Event.sawClosed, hq]
    · simp only [Shared.handle, Option.ite_none_right_eq_some, Option.some.injEq] at h
      obtain ⟨hc, rfl⟩ := h
      constructor <;>
        simp [got, sentTo, tickets, noted, pushed, fired,
          DeletionStatsReport.after, Event.sawCancelled, Event.isEnd,
          Event.sawClosed, hc]
  case send chan x =>
    cases r with
    | true =>
      simp only [Shared.handle, Option.ite_none_right_eq_some, Option.some.injEq, Bool.and_eq_true,
        Bool.not_eq_true'] at h
      obtain ⟨⟨hopen, -⟩, rfl⟩ := h
      constructor
      case channel =>
        intro c
        by_cases hc : chan = c
        · subst hc
          simp [got, sentTo]
        · simp [got, sentTo, hc, Function.update_of_ne (Ne.symm hc)]
      all_goals
        simp +contextual [sentTo, tickets, noted, pushed, fired,
          DeletionStatsReport.after, Event.sawCancelled, Event.isEnd,
          Event.sawClosed]
      exact hopen
    | false =>
      simp only [Shared.handle, Option.ite_none_right_eq_some, Option.some.injEq] at h
      obtain ⟨hc, rfl⟩ := h
      constructor <;>
        simp +contextual [got, sentTo, tickets, noted, pushed, fired,
          DeletionStatsReport.after, Event.sawCancelled, Event.isEnd,
          Event.sawClosed]
      exact hc
  case isCancelled =>
    simp only [Shared.handle, Option.ite_none_right_eq_some, Option.some.injEq] at h
    obtain ⟨rfl, rfl⟩ := h
    constructor
    case saw => cases s.cancelled <;> simp [Event.sawCancelled]
    all_goals
      simp [got, sentTo, tickets, noted, pushed, fired,
          DeletionStatsReport.after, Event.isEnd, Event.sawClosed]
  case isClosed chan =>
    simp only [Shared.handle, Option.ite_none_right_eq_some, Option.some.injEq] at h
    obtain ⟨rfl, rfl⟩ := h
    constructor
    case closed =>
      intro c b he
      cases he
      rfl
    all_goals
      simp [got, sentTo, tickets, noted, pushed, fired,
          DeletionStatsReport.after, Event.sawCancelled, Event.isEnd, Event.sawClosed]
  case join task =>
    simp only [Shared.handle, Option.ite_none_right_eq_some, Option.some.injEq] at h
    obtain ⟨hout, rfl⟩ := h
    constructor
    case joined =>
      intro t r he
      cases he
      exact hout
    all_goals
      simp [got, sentTo, tickets, noted, pushed, fired,
          DeletionStatsReport.after, Event.sawCancelled, Event.isEnd, Event.sawClosed]
  case fetchAdd | hasWarning | hasError | errorMessages | pipelineStats =>
    simp only [Shared.handle, Option.ite_none_right_eq_some, Option.some.injEq] at h
    obtain ⟨rfl, rfl⟩ := h
    constructor <;>
      simp [got, sentTo, tickets, noted, pushed, fired,
          DeletionStatsReport.after, Event.sawCancelled, Event.isEnd, Event.sawClosed,
        List.range_succ]
  case sendStats stats =>
    simp only [Shared.handle, Option.some.injEq] at h
    subst h
    by_cases hc : s.statsClosed <;> constructor <;>
      simp [got, sentTo, tickets, noted, pushed, fired,
          DeletionStatsReport.after, Event.sawCancelled, Event.isEnd, Event.sawClosed, hc]
  all_goals
    simp only [Shared.handle, Option.some.injEq] at h
    subst h
    constructor <;>
      simp [got, sentTo, tickets, noted, pushed, fired,
          DeletionStatsReport.after, Event.sawCancelled, Event.isEnd, Event.sawClosed]

end step

/-! ### Invariants of all runs -/

/-- The induction principle: an operation, a step of a task on its own, or a
cancellation from outside. -/
theorem Running.induction {P : PipelineWorld → Prop} (h : Running config outside w)
    (init : P (start config))
    (perform : ∀ u i o k r sh, Running config outside u → P u → u.tasks i = .running (.op o k) →
      Handled config u.outcome u.shared sh ⟨o, r⟩ →
      Running config outside ((u.put i (.running (k r))).record i ⟨o, r⟩ sh) →
      P ((u.put i (.running (k r))).record i ⟨o, r⟩ sh))
    (own : ∀ u v, Running config outside u → P u → v.log = u.log → v.shared = u.shared →
      (∀ i o, u.outcome i = some o → v.outcome i = some o) → P v)
    (env : ∀ u, Running config outside u → P u → outside.mayCancel →
      P (u.withShared { u.shared with cancelled := true })) : P w := by
  refine Machine.Reachable.invariant (fun u v hu hP hs => ?_) h init
  have hv : Running config outside v := hu.tail hs
  have hmono := fun i o (hi : u.outcome i = some o) => hs.outcome_mono hi
  cases hs with
  | perform run handled admitted => exact perform _ _ _ _ _ _ hu hP run (handled_of_handle handled) hv
  | unroll run => exact own u _ hu hP rfl rfl hmono
  | finish run => exact own u _ hu hP rfl rfl hmono
  | panic may run => exact own u _ hu hP rfl rfl hmono
  | env h =>
    obtain ⟨hmay, rfl⟩ := h
    exact env u hu hP hmay

/-- An operation leaves every outcome as it was. -/
theorem outcome_perform {u : PipelineWorld} {i : TaskId} {o : Op}
    {k : Resp o → Task (Except Error Unit)} {q : Task (Except Error Unit)} {e : Event} {sh : Shared}
    (run : u.tasks i = .running (.op o k)) :
    ((u.put i (.running q)).record i e sh).outcome = u.outcome := by
  funext j
  unfold World.outcome
  by_cases hj : j = i
  · subst hj
    simp [run]
  · simp [hj]

/-- What was the case in `u` is part of the past of `w`. -/
structure Before (u w : PipelineWorld) : Prop where
  log : u.log <+: w.log
  ended : ∀ i o, u.outcome i = some o → w.outcome i = some o

theorem Before.of_reachable {u w : PipelineWorld} (h : (pipeline config outside).Reachable u w) :
    Before u w :=
  ⟨h.log_isPrefix, fun _ _ ho => h.outcome_mono ho⟩

/-- The rule for what every event of a task knows of the task's events before it. -/
theorem Running.each_event {R : Trace → Event → Prop} {j : TaskId} (h : Running config outside w)
    (step : ∀ (u : PipelineWorld) (o : Op) (r : Resp o) (sh : Shared), Running config outside u →
      Before u w → Handled config u.outcome u.shared sh ⟨o, r⟩ → R (traceOf j u.log) ⟨o, r⟩)
    {t₁ t₂ : Trace} {e : Event} (ht : traceOf j w.log = t₁ ++ e :: t₂) : R t₁ e := by
  have key := h.induction (P := fun v => Before v w → ∀ (t₁ t₂ : Trace) (e : Event),
    traceOf j v.log = t₁ ++ e :: t₂ → R t₁ e) ?_ ?_ ?_ ?_
  · exact key ⟨List.prefix_refl _, fun _ _ ho => ho⟩ t₁ t₂ e ht
  · intro _ t₁ t₂ e ht
    simp [start] at ht
  · intro u i o k r sh hu hP run hh _ hpast t₁ t₂ e ht
    have hpast' : Before u w := by
      refine ⟨(List.prefix_append _ _).trans hpast.log, fun i o ho => hpast.ended i o ?_⟩
      rwa [outcome_perform run]
    by_cases hij : i = j
    · subst hij
      rw [World.record_log, traceOf_snoc_self] at ht
      rcases List.eq_nil_or_concat t₂ with rfl | ⟨t₂, y, rfl⟩
      · obtain ⟨rfl, hlast⟩ := List.append_inj' ht rfl
        obtain rfl : (⟨o, r⟩ : Event) = e := by simpa using hlast
        exact step u o r sh hu hpast' hh
      · rw [List.concat_eq_append, ← List.cons_append, ← List.append_assoc] at ht
        exact hP hpast' t₁ t₂ e (List.append_inj' ht rfl).1
    · rw [World.record_log, traceOf_snoc_ne hij] at ht
      exact hP hpast' t₁ t₂ e ht
  · intro u v _ hP hlog _ hout hpast t₁ t₂ e ht
    have hpast' : Before u w := ⟨hlog ▸ hpast.log, fun i o ho => hpast.ended i o (hout i o ho)⟩
    exact hP hpast' t₁ t₂ e (hlog ▸ ht)
  · exact fun u _ hP _ hpast => hP ⟨hpast.log, hpast.ended⟩

section laws

variable (h : Running config outside w)

include h

/-- **Channels lose nothing and keep the order.** -/
theorem channel_law (c : Nat) : w.proj (sentTo c) = w.proj (got c) ++ w.shared.queues c := by
  refine h.induction (P := fun w => w.proj (sentTo c) = w.proj (got c) ++ w.shared.queues c)
    rfl ?_ ?_ ?_
  · intro u i o k r sh _ hP _ hh _
    simp only [World.record_proj, World.put_proj, World.record_shared, hP, List.append_assoc,
      hh.channel c]
  · intro u v _ hP hlog hsh _
    simpa [World.proj, hlog, hsh] using hP
  · exact fun u _ hP _ => hP

/-- **The token stays cancelled**: for whoever saw it so or made it so. -/
theorem token_law {i : TaskId} {e : Event} (he : (i, e) ∈ w.log)
    (hc : e.sawCancelled ∨ e.1 = .cancel) : w.shared.cancelled = true := by
  refine h.induction (P := fun w => ∀ i (e : Event), (i, e) ∈ w.log → e.sawCancelled ∨ e.1 = .cancel →
    w.shared.cancelled = true) ?_ ?_ ?_ ?_ i e he hc
  · simp [start]
  · intro u j o k r sh _ hP _ hh _ i e he hc
    simp only [World.record_log, World.put_log, List.mem_append, List.mem_singleton] at he
    rcases he with he | he
    · exact hh.token.mpr (.inl (hP i e he hc))
    · cases he
      exact hh.token.mpr (hc.imp_left hh.saw)
  · intro u v _ hP hlog hsh _
    simpa [hlog, hsh] using hP
  · exact fun u _ _ _ _ _ _ _ => rfl

/-- A cancelled token was cancelled by a task, or from outside. -/
theorem cancelled_law (hc : w.shared.cancelled = true) :
    outside.mayCancel ∨ ∃ i r, (i, ⟨.cancel, r⟩) ∈ w.log := by
  refine h.induction (P := fun w => w.shared.cancelled = true →
    outside.mayCancel ∨ ∃ i r, (i, ⟨.cancel, r⟩) ∈ w.log) ?_ ?_ ?_ ?_ hc
  · simp [start]
  · intro u j o k r sh _ hP _ hh _ hc
    rcases hh.token.mp hc with hc | rfl
    · refine (hP hc).imp_right ?_
      rintro ⟨i, r', hi⟩
      exact ⟨i, r', by simp [hi]⟩
    · exact .inr ⟨j, r, by simp⟩
  · intro u v _ hP hlog hsh _
    simpa [hlog, hsh] using hP
  · exact fun u _ _ hmay _ => .inl hmay

/-- **Tickets are drawn in order, each once.** -/
theorem ticket_law : w.proj tickets = List.range w.shared.deleteCounter := by
  refine h.induction (P := fun w => w.proj tickets = List.range w.shared.deleteCounter) rfl ?_ ?_ ?_
  · intro u i o k r sh _ hP _ hh _
    simp only [World.record_proj, World.put_proj, World.record_shared, hP, hh.counter]
  · intro u v _ hP hlog hsh _
    simpa [World.proj, hlog, hsh] using hP
  · exact fun u _ hP _ => hP

/-- A flag that the operation `o` sets, and nothing else touches, is set once
`o` was performed. -/
theorem flag_law {f : Shared → Bool} {o : Op} (hinit : f {} = false)
    (hcancel : ∀ s, f { s with cancelled := true } = f s)
    (hstep : ∀ out s sh e, Handled config out s sh e → (f sh = true ↔ f s = true ∨ e.1 = o)) :
    f w.shared = true ↔ ∃ x ∈ w.log, x.2.1 = o := by
  refine h.induction (P := fun w => f w.shared = true ↔ ∃ x ∈ w.log, x.2.1 = o) ?_ ?_ ?_ ?_
  · simp [start, hinit]
  · intro u j o' k r sh _ hP _ hh _
    rw [World.record_shared, hstep _ _ _ _ hh, hP]
    simp [or_and_right, exists_or]
  · intro u v _ hP hlog hsh _
    rw [hlog, hsh]
    exact hP
  · intro u _ hP _
    rw [World.withShared_shared, hcancel]
    exact hP

theorem error_law : w.shared.hasError = true ↔ ∃ x ∈ w.log, x.2.1 = .setError :=
  flag_law h rfl (fun _ => rfl) fun _ _ _ _ hh => hh.error

theorem panic_law : w.shared.hasPanic = true ↔ ∃ x ∈ w.log, x.2.1 = .setPanic :=
  flag_law h rfl (fun _ => rfl) fun _ _ _ _ hh => hh.panic

theorem warning_law : w.shared.hasWarning = true ↔ ∃ x ∈ w.log, x.2.1 = .setWarning :=
  flag_law h rfl (fun _ => rfl) fun _ _ _ _ hh => hh.warning

/-- The error list holds what was pushed to it. -/
theorem errors_law : w.shared.errors = w.proj pushed := by
  refine h.induction (P := fun w => w.shared.errors = w.proj pushed) rfl ?_ ?_ ?_
  · intro u i o k r sh _ hP _ hh _
    simp only [World.record_proj, World.put_proj, World.record_shared, hh.errors, hP]
  · intro u v _ hP hlog hsh _
    simpa [World.proj, hlog, hsh] using hP
  · exact fun u _ hP _ => hP

/-- What was joined has ended as reported. -/
theorem join_law {i t : TaskId} {r : Outcome (Except Error Unit)}
    (he : (i, (⟨.join t, r⟩ : Event)) ∈ w.log) : w.outcome t = some r := by
  refine h.induction (P := fun w => ∀ i t r, (i, (⟨.join t, r⟩ : Event)) ∈ w.log →
    w.outcome t = some r) ?_ ?_ ?_ ?_ i t r he
  · simp [start]
  · intro u j o k r sh _ hP run hh _ i t r' he
    rw [outcome_perform run]
    simp only [World.record_log, World.put_log, List.mem_append, List.mem_singleton] at he
    rcases he with he | he
    · exact hP i t r' he
    · cases he
      exact hh.joined t r' rfl
  · intro u v _ hP hlog hsh hout i t r he
    exact hout t r (hP i t r (hlog ▸ he))
  · exact fun u _ hP _ => hP

end laws

/-! ### Channel ends -/

/-- The task is one of the run. -/
def TaskId.started (config : Config) (i : TaskId) : Prop := (i.program config).isSome

theorem StageId.worker_started {n : Nat} :
    (TaskId.stage (.worker n)).started config ↔ n < config.workerSize := by
  simp only [TaskId.started, TaskId.program, StageId.program]
  split_ifs with h <;> simp [h]

theorem StageId.filter_started {n : Nat} :
    (TaskId.stage (.filter n)).started config ↔ n < filterCount config := by
  simp [TaskId.started, TaskId.program, StageId.program, filterCount]

theorem StageId.exists_of_started {s : StageId} (h : (TaskId.stage s).started config) :
    s.exists config := by
  rcases s with - | n | n
  · rfl
  · exact decide_eq_true (StageId.filter_started.mp h)
  · exact decide_eq_true (StageId.worker_started.mp h)

theorem StageId.started_of_exists {s : StageId} (h : s.exists config) :
    (TaskId.stage s).started config := by
  rcases s with - | n | n
  · rfl
  · exact StageId.filter_started.mpr (of_decide_eq_true h)
  · exact StageId.worker_started.mpr (of_decide_eq_true h)

theorem mem_workers {i : TaskId} :
    i ∈ workers config ↔ ∃ n < config.workerSize, i = .stage (.worker n) := by
  simp [workers, eq_comm]

theorem receivers_filter {n : Nat} (h : n < filterCount config) :
    receivers config n = [.stage (.filter n)] := by simp [receivers, h]

theorem receivers_workers : receivers config (filterCount config) = workers config := by
  simp [receivers]

theorem receivers_last : receivers config (filterCount config + 1) = [.terminator] := by
  simp [receivers, show ¬ filterCount config + 1 < filterCount config by omega]

theorem senders_zero : senders config 0 = [.stage .lister] := rfl

theorem senders_filter {n : Nat} (h : n < filterCount config) :
    senders config (n + 1) = [.stage (.filter n)] := by
  simp [senders, Nat.succ_le_of_lt h]

theorem senders_last : senders config (filterCount config + 1) = workers config := by
  simp [senders, show ¬ filterCount config + 1 ≤ filterCount config by omega]

/-- Whoever receives from a channel is one of its receivers. -/
theorem mem_receivers {i : TaskId} {o : Op} {c : Nat} (hs : i.started config)
    (hu : i.mayUse config o) (ho : o = .recv c ∨ o = .select c) : i ∈ receivers config c := by
  rcases i with (_ | n | n) | s | _ | _
  · rcases ho with rfl | rfl <;> simp [TaskId.mayUse, Op.isListing] at hu
  · obtain rfl : c = n := by
      rcases ho with rfl | rfl <;> simpa [TaskId.mayUse, Op.isFiltering] using hu
    simp [receivers_filter (StageId.filter_started.mp hs)]
  · rcases ho with rfl | rfl
    · simp [TaskId.mayUse, Op.isWorking, Op.isScreening, Op.isFlush, Op.isFinish, Op.isReport,
        Op.isNotice, Op.isBackend] at hu
    · obtain rfl : c = filterCount config := by simpa [TaskId.mayUse, Op.isWorking] using hu
      rw [receivers_workers]
      exact mem_workers.mpr ⟨n, StageId.worker_started.mp hs, rfl⟩
  · rcases ho with rfl | rfl <;> simp [TaskId.mayUse, Op.isSupervising] at hu
  · rcases ho with rfl | rfl
    · obtain rfl : c = filterCount config + 1 := by simpa [TaskId.mayUse] using hu
      simp [receivers_last]
    · simp [TaskId.mayUse] at hu
  · rcases ho with rfl | rfl <;> simp [TaskId.mayUse, Op.isCompleting, Op.isNotice] at hu

/-- Whoever sends on a channel is one of its senders. -/
theorem mem_senders {i : TaskId} {o : S3Object} {c : Nat} (hs : i.started config)
    (hu : i.mayUse config (.send c o)) : i ∈ senders config c := by
  rcases i with (_ | n | n) | s | _ | _
  · obtain rfl : c = 0 := by simpa [TaskId.mayUse, Op.isListing] using hu
    simp [senders_zero]
  · obtain rfl : c = n + 1 := by simpa [TaskId.mayUse, Op.isFiltering] using hu
    simp [senders_filter (StageId.filter_started.mp hs)]
  · obtain rfl : c = filterCount config + 1 := by
      simpa [TaskId.mayUse, Op.isWorking, Op.isScreening, Op.isFlush, Op.isFinish, Op.isReport,
        Op.isNotice, Op.isBackend] using hu
    rw [senders_last]
    exact mem_workers.mpr ⟨n, StageId.worker_started.mp hs, rfl⟩
  · simp [TaskId.mayUse, Op.isSupervising] at hu
  · simp [TaskId.mayUse] at hu
  · simp [TaskId.mayUse, Op.isCompleting, Op.isNotice] at hu

theorem Running.started (h : Running config outside w) {i : TaskId} {e : Event}
    (he : (i, e) ∈ w.log) : i.started config := by
  by_contra hn
  have hmem := mem_traceOf.mpr he
  rw [h.idle (by simpa [TaskId.started] using hn)] at hmem
  simp at hmem

/-- Only workers of the run have events. -/
theorem Running.worker_lt (h : Running config outside w) {n : Nat} {e : Event}
    (he : e ∈ traceOf (.stage (.worker n)) w.log) : n < config.workerSize :=
  StageId.worker_started.mp (h.started (mem_traceOf.mp he))

theorem running_of_tasks {u : PipelineWorld} {i : TaskId} {p : Task (Except Error Unit)}
    (run : u.tasks i = .running p) : u.outcome i = none := by
  simp [World.outcome, run]

/-- The channel's senders are gone and its queue is empty. -/
def Drained (config : Config) (w : PipelineWorld) (c : Nat) : Prop :=
  (∀ i ∈ senders config c, (w.outcome i).isSome) ∧ w.shared.queues c = []

theorem Drained.closed {c : Nat} (h : Drained config w c) :
    isChannelClosed config w.outcome c = true := by
  simp only [isChannelClosed, Bool.or_eq_true, List.all_eq_true]
  exact .inl h.1

theorem isChannelClosed_mono {out out' : Outcomes} {c : Nat}
    (hout : ∀ i o, out i = some o → out' i = some o)
    (h : isChannelClosed config out c = true) : isChannelClosed config out' c = true := by
  have hsome : ∀ i, (out i).isSome → (out' i).isSome := by
    intro i hi
    obtain ⟨o, ho⟩ := Option.isSome_iff_exists.mp hi
    simp [hout i o ho]
  simp only [isChannelClosed, Bool.or_eq_true, List.all_eq_true] at h ⊢
  exact h.imp (fun h i hi => hsome i (h i hi)) fun h i hi => hsome i (h i hi)

theorem Event.isEnd_op {e : Event} {c : Nat} (h : e.isEnd c) :
    e.1 = .recv c ∨ e.1 = .select c := by
  rcases e with ⟨o, r⟩
  cases o
  case recv chan =>
    rcases r with - | x
    · obtain rfl : chan = c := h
      exact .inl rfl
    · exact h.elim
  case select chan =>
    rcases r with (- | x) | -
    · obtain rfl : chan = c := h
      exact .inr rfl
    · exact h.elim
    · exact h.elim
  all_goals exact h.elim

/-- **A channel someone found ended has lost its senders and is empty**, for good. -/
theorem drained_law (h : Running config outside w) {i : TaskId} {e : Event} {c : Nat}
    (he : (i, e) ∈ w.log) (hend : e.isEnd c) : Drained config w c := by
  refine h.induction (P := fun w => ∀ i (e : Event) c, (i, e) ∈ w.log → e.isEnd c →
    Drained config w c) ?_ ?_ ?_ ?_ i e c he hend
  · simp [start]
  · intro u j o k r sh hu hP run hh hv i e c he hend
    have hnow : (j, (⟨o, r⟩ : Event)) ∈ ((u.put j (.running (k r))).record j ⟨o, r⟩ sh).log := by
      simp
    simp only [World.record_log, World.put_log, List.mem_append, List.mem_singleton] at he
    rcases he with he | he
    · obtain ⟨hout, hq⟩ := hP i e c he hend
      refine ⟨by rwa [outcome_perform run], ?_⟩
      have hclosed : isChannelClosed config u.outcome c = true := Drained.closed ⟨hout, hq⟩
      have hsent : sentTo c ⟨o, r⟩ = [] := by
        by_contra hne
        simp [hh.open_of_sent c hne] at hclosed
      have hchan := hh.channel c
      rw [hq, hsent] at hchan
      exact (List.append_eq_nil_iff.mp hchan.symm).2
    · cases he
      obtain ⟨hclosed, hq⟩ := hh.ended c hend
      have hrecv : j ∈ receivers config c :=
        mem_receivers (hv.started hnow) (hv.mayUse hnow) (Event.isEnd_op hend)
      have hsenders : ∀ l ∈ senders config c, (u.outcome l).isSome := by
        simp only [isChannelClosed, Bool.or_eq_true, List.all_eq_true] at hclosed
        refine hclosed.resolve_right fun hall => ?_
        simpa [running_of_tasks run] using hall j hrecv
      refine ⟨by rwa [outcome_perform run], ?_⟩
      have hchan := hh.channel c
      have hsent : sentTo c ⟨o, r⟩ = [] := by
        by_contra hne
        simp [hh.open_of_sent c hne] at hclosed
      rw [hq, hsent] at hchan
      exact (List.append_eq_nil_iff.mp hchan.symm).2
  · intro u v _ hP hlog hsh hout i e c he hend
    obtain ⟨hsome, hq⟩ := hP i e c (hlog ▸ he) hend
    refine ⟨fun l hl => ?_, hsh ▸ hq⟩
    obtain ⟨x, hx⟩ := Option.isSome_iff_exists.mp (hsome l hl)
    simp [hout l x hx]
  · exact fun u _ hP _ => hP

/-! ### The order of one task's events -/

/-- Nobody ever finds a channel open that it had found ended. -/
theorem not_lost (h : Running config outside w) {i : TaskId} {t₁ t₂ : Trace} {e : Event} {c : Nat}
    (ht : traceOf i w.log = t₁ ++ ⟨.isClosed c, false⟩ :: t₂) (he : e ∈ t₁) : ¬ e.isEnd c := by
  refine h.each_event (R := fun t₁ x => x = ⟨.isClosed c, false⟩ → ∀ e ∈ t₁, ¬ e.isEnd c)
    ?_ ht rfl e he
  intro u o r sh hu _ hh hx e he hend
  have hclosed := (drained_law hu (mem_traceOf.mp he) hend).closed
  simp [← hh.closed c false hx] at hclosed

/-- Nobody ever finds the token live that it had cancelled. -/
theorem not_revived (h : Running config outside w) {i : TaskId} {t₁ t₂ : Trace}
    (ht : traceOf i w.log = t₁ ++ ⟨.isCancelled, false⟩ :: t₂) : t₁.flatMap cancels = [] := by
  refine h.each_event (R := fun t₁ x => x = ⟨.isCancelled, false⟩ → t₁.flatMap cancels = [])
    ?_ ht rfl
  intro u o r sh hu _ hh hx
  rw [cancels_eq_nil]
  intro he
  have hcan := token_law hu (mem_traceOf.mp he) (.inr rfl)
  simp [← hh.looked false hx] at hcan

/-- The only task to cancel the token sees it cancelled only after that. -/
theorem saw_own_cancel (h : Running config outside w) (hmay : ¬ outside.mayCancel) {i : TaskId}
    (only : ∀ j r, (j, (⟨.cancel, r⟩ : Event)) ∈ w.log → j = i) {t₁ t₂ : Trace} {e : Event}
    (ht : traceOf i w.log = t₁ ++ e :: t₂) (he : e.sawCancelled) : t₁.flatMap cancels ≠ [] := by
  refine h.each_event (R := fun t₁ x => x.sawCancelled → t₁.flatMap cancels ≠ []) ?_ ht he
  intro u o r sh hu hpre hh hsaw
  rcases cancelled_law hu (hh.saw hsaw) with hm | ⟨j, r', hj⟩
  · exact absurd hm hmay
  · obtain rfl := only j r' (hpre.log.subset hj)
    rw [Ne, cancels_eq_nil, not_not]
    exact mem_traceOf.mpr hj

end S3rm
