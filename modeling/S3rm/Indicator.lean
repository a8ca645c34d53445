/-
S3rm/Indicator.lean

The progress indicator (`show_indicator` in src/bin/s3rm/indicator.rs): it
drains the statistics channel with `try_recv`, looks at the clock, asks
whether the channel is closed, and returns its totals if so.  Left out is what
it shows on the way: the progress line and its moving average.

The channel is the pipeline's: a task sends the statistics of the run in their
order and closes the channel.  Between the last `try_recv` of the indicator
and its question there is room for both, and what is sent there is not counted
(`summary_counts_iff`).
-/
import S3rm.Accounts

namespace S3rm

open Conc Conc.Prog

/-! ### The indicator -/

/-- `IndicatorSummary`. -/
structure IndicatorSummary where
  totalDeleteCount : Nat := 0
  totalDeleteBytes : Nat := 0
  totalErrorCount : Nat := 0
  totalSkipCount : Nat := 0
  deriving DecidableEq, Repr

/-- The operations on the statistics channel and the clock. -/
inductive StatsOp where
  /-- `None`: empty, whether closed or not. -/
  | tryRecv
  /-- `REFRESH_INTERVAL < period.elapsed()`. -/
  | periodElapsed
  | isClosed
  | sleep
  | send (stats : DeletionStatistics)
  | close
  deriving DecidableEq

abbrev StatsResp : StatsOp → Type
  | .tryRecv => Option DeletionStatistics
  | .periodElapsed => Bool
  | .isClosed => Bool
  | .sleep => Unit
  | .send _ => Unit
  | .close => Unit

abbrev StatsEvent := Ev StatsOp StatsResp
abbrev StatsProg := Prog StatsOp StatsResp

/-- One operation. -/
abbrev statsOp (o : StatsOp) : StatsProg (StatsResp o) := perform o

abbrev tryRecvStats : StatsProg (Option DeletionStatistics) := statsOp .tryRecv

abbrev periodElapsed : StatsProg Bool := statsOp .periodElapsed

abbrev statsClosed : StatsProg Bool := statsOp .isClosed

abbrev sleepShortly : StatsProg Unit := statsOp .sleep

/-- The `match stats`, on `u64` totals that wrap. -/
def IndicatorSummary.count (summary : IndicatorSummary) : DeletionStatistics → IndicatorSummary
  | .deleteComplete _ => { summary with totalDeleteCount := (summary.totalDeleteCount + 1) % 2 ^ 64 }
  | .deleteBytes size => { summary with totalDeleteBytes := (summary.totalDeleteBytes + size) % 2 ^ 64 }
  | .deleteError _ => { summary with totalErrorCount := (summary.totalErrorCount + 1) % 2 ^ 64 }
  | .deleteSkip _ => { summary with totalSkipCount := (summary.totalSkipCount + 1) % 2 ^ 64 }

/-- `while let Ok(stats) = stats_receiver.try_recv()`. -/
def drain (summary : IndicatorSummary) : StatsProg IndicatorSummary :=
  .iter (fun summary => do
    match ← tryRecvStats with
    | some stats => return .inl (IndicatorSummary.count summary stats)
    | none => return .inr summary) summary .ret

/-- A turn of the inner loop: `inl` when the period is over, `inr` to return. -/
def periodTurn (summary : IndicatorSummary) :
    StatsProg (IndicatorSummary ⊕ (IndicatorSummary ⊕ IndicatorSummary)) := do
  let summary ← drain summary
  if ← periodElapsed then return .inr (.inl summary)
  if ← statsClosed then return .inr (.inr summary)
  sleepShortly
  return .inl summary

/-- One refresh period. -/
def period (summary : IndicatorSummary) : StatsProg (IndicatorSummary ⊕ IndicatorSummary) :=
  .iter periodTurn summary .ret

/-- The task of `show_indicator`. -/
def showIndicator : StatsProg IndicatorSummary :=
  .iter period {} .ret

/-! ### The pipeline and the channel -/

/-- The tasks of the pipeline: the statistics of a run, and then the close. -/
def sendAndClose : List DeletionStatistics → StatsProg Unit
  | [] => statsOp .close
  | stats :: rest => do
    statsOp (.send stats)
    sendAndClose rest

inductive StatsTask where
  | pipeline
  | indicator
  deriving DecidableEq, Repr

structure StatsChannel where
  queue : List DeletionStatistics := []
  closed : Bool := false
  deriving DecidableEq, Repr

/-- `async_channel`: a closed channel takes nothing more, and what is in it can
still be received. -/
def StatsChannel.handle (channel : StatsChannel) : (o : StatsOp) → StatsResp o → Option StatsChannel
  | .tryRecv, r =>
    if channel.queue.head? = r then some { channel with queue := channel.queue.tail } else none
  | .periodElapsed, _ => some channel
  | .isClosed, r => if channel.closed = r then some channel else none
  | .sleep, _ => some channel
  | .send stats, _ =>
    if channel.closed then some channel else some { channel with queue := channel.queue ++ [stats] }
  | .close, _ => some { channel with closed := true }

def statsMachine : Machine StatsTask StatsOp StatsResp (Option IndicatorSummary) StatsChannel where
  handle _ _ channel o r := channel.handle o r
  admits _ := True
  spawn _ _ _ := none
  retire _ _ channel := channel
  mayPanic _ := False
  env _ _ := False

abbrev StatsWorld := World StatsTask StatsOp StatsResp (Option IndicatorSummary) StatsChannel

/-- The two programs, before either has done anything. -/
def statsCode (stats : List DeletionStatistics) : StatsTask → StatsProg (Option IndicatorSummary)
  | .pipeline => do
    sendAndClose stats
    return none
  | .indicator => some <$> showIndicator

def statsStart (stats : List DeletionStatistics) : StatsWorld where
  tasks i := .running (statsCode stats i)
  code i := some (statsCode stats i)
  shared := {}
  log := []

/-! ### Runs of the indicator -/

/-- What a `try_recv` took from the channel. -/
def received : StatsEvent → List DeletionStatistics
  | ⟨.tryRecv, some stats⟩ => [stats]
  | _ => []

/-- The totals after the statistics received along a trace. -/
def Tallied (summary : IndicatorSummary) (t : List StatsEvent) (out : IndicatorSummary) : Prop :=
  out = (t.flatMap received).foldl IndicatorSummary.count summary

section runs

variable {summary out : IndicatorSummary} {t u : List StatsEvent}

theorem Tallied.append {mid : IndicatorSummary} (ht : Tallied summary t mid)
    (hu : Tallied mid u out) : Tallied summary (t ++ u) out := by
  rw [Tallied, List.flatMap_append, List.foldl_append, ← show mid = _ from ht]
  exact hu

theorem Tallied.quiet (ht : Tallied summary t out) (hu : u.flatMap received = []) :
    Tallied summary (t ++ u) out := by
  apply ht.append
  show out = (u.flatMap received).foldl IndicatorSummary.count out
  rw [hu]
  rfl

/-- The totals kept by a loop, when each of its turns keeps them. -/
theorem tallied_rounds {τ : Type} {R : IndicatorSummary → List StatsEvent → IndicatorSummary ⊕ τ → Prop}
    (step : ∀ s t s', R s t (.inl s') → Tallied s t s') (h : Rounds R summary t out) :
    Tallied summary t out := by
  have hinv := h.invariant (I := fun s t => Tallied summary t s)
    (fun s t u s' hs hR => hs.append (step s u s' hR)) (t := []) rfl
  simpa using hinv

/-- The drain ends on an empty channel. -/
theorem run_drain (h : (drain summary).Run t out) :
    ∃ u, t = u ++ [⟨.tryRecv, none⟩] ∧ Tallied summary u out := by
  obtain ⟨mid, c, t₁, t₂, t₃, rfl, hr, hb, rfl, rfl⟩ := h
  refine ⟨t₁, ?_, ?_⟩
  · obtain ⟨r, u, rfl, hu⟩ := run_perform_bind.mp hb
    rcases r with - | stats
    · obtain ⟨rfl, -⟩ := hu
      rfl
    · obtain ⟨-, hc⟩ := hu
      cases hc
  · have hmid : Tallied summary t₁ mid := by
      apply tallied_rounds _ hr
      intro s t s' ht
      obtain ⟨r, u, rfl, hu⟩ := run_perform_bind.mp ht
      rcases r with - | stats
      · obtain ⟨-, hc⟩ := hu
        cases hc
      · obtain ⟨rfl, hc⟩ := hu
        cases hc
        rfl
    obtain ⟨r, u, -, hu⟩ := run_perform_bind.mp hb
    rcases r with - | stats
    · obtain ⟨-, hc⟩ := hu
      cases hc
      exact hmid
    · obtain ⟨-, hc⟩ := hu
      cases hc

/-- The ways a turn of the inner loop ends: the period is over, the channel is
closed, or it goes on. -/
theorem run_periodTurn {x : IndicatorSummary ⊕ (IndicatorSummary ⊕ IndicatorSummary)}
    (h : (periodTurn summary).Run t x) : ∃ u out, Tallied summary u out ∧
      ((t = u ++ [⟨.tryRecv, none⟩, ⟨.periodElapsed, true⟩] ∧ x = .inr (.inl out)) ∨
       (t = u ++ [⟨.tryRecv, none⟩, ⟨.periodElapsed, false⟩, ⟨.isClosed, true⟩] ∧
          x = .inr (.inr out)) ∨
       (t = u ++ [⟨.tryRecv, none⟩, ⟨.periodElapsed, false⟩, ⟨.isClosed, false⟩, ⟨.sleep, ()⟩] ∧
          x = .inl out)) := by
  obtain ⟨t₁, out, t₂, rfl, hd, hrest⟩ := run_bind.mp h
  obtain ⟨u, rfl, hu⟩ := run_drain hd
  refine ⟨u, out, hu, ?_⟩
  obtain ⟨elapsed, t₃, rfl, helapsed⟩ := run_perform_bind.mp hrest
  rcases elapsed with - | -
  · obtain ⟨closed, t₄, rfl, hclosed⟩ := run_perform_bind.mp helapsed
    rcases closed with - | -
    · obtain ⟨-, t₅, rfl, rfl, hx⟩ := run_perform_bind.mp hclosed
      exact .inr (.inr ⟨by simp, hx.symm⟩)
    · obtain ⟨rfl, hx⟩ := hclosed
      exact .inr (.inl ⟨by simp, hx.symm⟩)
  · obtain ⟨rfl, hx⟩ := helapsed
    exact .inl ⟨by simp, hx.symm⟩

theorem run_period {x : IndicatorSummary ⊕ IndicatorSummary} (h : (period summary).Run t x) :
    ∃ u out, Tallied summary u out ∧
      ((t = u ++ [⟨.tryRecv, none⟩, ⟨.periodElapsed, true⟩] ∧ x = .inl out) ∨
       (t = u ++ [⟨.tryRecv, none⟩, ⟨.periodElapsed, false⟩, ⟨.isClosed, true⟩] ∧ x = .inr out)) := by
  obtain ⟨mid, c, t₁, t₂, t₃, rfl, hr, hb, rfl, rfl⟩ := h
  have hmid : Tallied summary t₁ mid := by
    apply tallied_rounds _ hr
    intro s t s' ht
    obtain ⟨u, out, hu, h | h | ⟨rfl, hx⟩⟩ := run_periodTurn ht
    · cases h.2
    · cases h.2
    · cases hx
      exact hu.quiet rfl
  obtain ⟨u, out, hu, ⟨rfl, hx⟩ | ⟨rfl, hx⟩ | h⟩ := run_periodTurn hb
  · cases hx
    exact ⟨t₁ ++ u, out, hmid.append hu, .inl ⟨by simp, rfl⟩⟩
  · cases hx
    exact ⟨t₁ ++ u, out, hmid.append hu, .inr ⟨by simp, rfl⟩⟩
  · cases h.2

/-- **The indicator returns right after an empty `try_recv`, a look at the clock
and an affirmative `is_closed`**, with the totals of what it received. -/
theorem run_showIndicator (h : showIndicator.Run t out) :
    ∃ u, t = u ++ [⟨.tryRecv, none⟩, ⟨.periodElapsed, false⟩, ⟨.isClosed, true⟩] ∧
      Tallied {} u out := by
  obtain ⟨mid, c, t₁, t₂, t₃, rfl, hr, hb, rfl, rfl⟩ := h
  have hmid : Tallied {} t₁ mid := by
    apply tallied_rounds _ hr
    intro s t s' ht
    obtain ⟨u, out, hu, ⟨rfl, hx⟩ | h⟩ := run_period ht
    · cases hx
      exact hu.quiet rfl
    · cases h.2
  obtain ⟨u, out, hu, h | ⟨rfl, hx⟩⟩ := run_period hb
  · cases h.2
  · cases hx
    exact ⟨t₁ ++ u, by simp, hmid.append hu⟩

end runs

/-! ### Totals -/

/-- The columns of the summary. -/
def IndicatorSummary.column (summary : IndicatorSummary) : Column → Nat
  | .deleted => summary.totalDeleteCount
  | .bytes => summary.totalDeleteBytes
  | .failed => summary.totalErrorCount
  | .skipped => summary.totalSkipCount

theorem column_count {summary : IndicatorSummary} {c : Column} {n : Nat}
    (h : summary.column c = n % 2 ^ 64) (stats : DeletionStatistics) :
    (summary.count stats).column c = (n + stats.adds c) % 2 ^ 64 := by
  rw [← Nat.mod_add_mod, ← h]
  have hlt : summary.column c < 2 ^ 64 := by
    rw [h]
    exact Nat.mod_lt _ (by decide)
  -- the column the statistic is for wraps as the sum does, the others stay
  cases stats <;> cases c <;> first | rfl | exact (Nat.mod_eq_of_lt hlt).symm

theorem column_foldl_count (stats : List DeletionStatistics) (c : Column) :
    (stats.foldl IndicatorSummary.count {}).column c =
      total DeletionStatistics.adds stats c % 2 ^ 64 := by
  induction stats using List.reverseRecOn with
  | nil => cases c <;> rfl
  | append_singleton stats s ih =>
    rw [List.foldl_append, total_append, total_cons, total_nil, Nat.add_zero]
    exact column_count ih s

/-- The totals are what was sent when the rest of it adds nothing and none of
them has wrapped. -/
theorem column_eq_total_iff {read unread : List DeletionStatistics} :
    (∀ c, (read.foldl IndicatorSummary.count {}).column c =
        total DeletionStatistics.adds (read ++ unread) c) ↔
      (∀ stats ∈ unread, stats = .deleteBytes 0) ∧
        ∀ c, total DeletionStatistics.adds (read ++ unread) c < 2 ^ 64 := by
  simp only [column_foldl_count, total_append]
  constructor
  · intro h
    have hzero : ∀ c, total DeletionStatistics.adds unread c = 0 := by
      intro c
      have hle := Nat.mod_le (total DeletionStatistics.adds read c) (2 ^ 64)
      have hc := h c
      omega
    constructor
    · intro stats hmem
      have hadds : ∀ c, stats.adds c = 0 := by
        intro c
        exact List.sum_eq_zero_iff.mp (hzero c) _ (List.mem_map_of_mem hmem)
      cases stats with
      | deleteBytes bytes =>
        have hbytes : bytes = 0 := hadds .bytes
        rw [hbytes]
      | deleteComplete => cases hadds .deleted
      | deleteSkip => cases hadds .skipped
      | deleteError => cases hadds .failed
    · intro c
      rw [← h c]
      exact Nat.mod_lt _ (by decide)
  · rintro ⟨hunread, hlt⟩ c
    have hzero : total DeletionStatistics.adds unread c = 0 := by
      apply total_eq_zero
      intro stats hmem
      rw [hunread stats hmem]
      cases c <;> rfl
    have hc := hlt c
    rw [hzero] at hc ⊢
    exact Nat.mod_eq_of_lt hc

/-! ### The channel between the two tasks -/

/-- What a `send` hands to the channel. -/
def sent : StatsEvent → List DeletionStatistics
  | ⟨.send stats, _⟩ => [stats]
  | _ => []

/-- What has been sent since `try_recv` last found the channel empty. -/
def sentSinceEmpty (log : List (StatsTask × StatsEvent)) : List DeletionStatistics :=
  log.foldl (fun late e =>
    match e.2 with
    | ⟨.send stats, _⟩ => late ++ [stats]
    | ⟨.tryRecv, none⟩ => []
    | _ => late) []

/-- What the log leaves in the channel. -/
def inChannel (log : List (StatsTask × StatsEvent)) : List DeletionStatistics :=
  log.foldl (fun queue e =>
    match e.2 with
    | ⟨.send stats, _⟩ => queue ++ [stats]
    | ⟨.tryRecv, none⟩ => []
    | ⟨.tryRecv, some _⟩ => queue.tail
    | _ => queue) []

theorem inChannel_snoc_quiet {log : List (StatsTask × StatsEvent)} {e : StatsTask × StatsEvent}
    (hsend : ∀ stats, e.2.1 ≠ .send stats) (hrecv : e.2.1 ≠ .tryRecv) :
    inChannel (log ++ [e]) = inChannel log := by
  rw [inChannel, List.foldl_append]
  obtain ⟨i, o, r⟩ := e
  cases o
  case send stats => exact absurd rfl (hsend stats)
  case tryRecv => exact absurd rfl hrecv
  all_goals rfl

/-- After an empty `try_recv` with no other after it, the channel holds what has
been sent since. -/
theorem inChannel_eq_sentSinceEmpty {l l' : List (StatsTask × StatsEvent)} {i : StatsTask}
    (h : ∀ e ∈ l', e.2.1 ≠ .tryRecv) :
    inChannel (l ++ (i, ⟨.tryRecv, none⟩) :: l') =
      sentSinceEmpty (l ++ (i, ⟨.tryRecv, none⟩) :: l') := by
  rw [inChannel, sentSinceEmpty, List.foldl_append, List.foldl_append, List.foldl_cons,
    List.foldl_cons]
  apply List.foldl_ext
  rintro queue ⟨j, o, r⟩ he
  cases o
  case tryRecv => exact absurd rfl (h _ he)
  all_goals rfl

/-- How far the pipeline has come. -/
theorem part_sendAndClose {stats : List DeletionStatistics} {t : List StatsEvent}
    (h : (sendAndClose stats).Part t) : ∃ l, l <+: stats ∧
      (t = l.map (fun s => ⟨.send s, ()⟩) ∨
        l = stats ∧ t = l.map (fun s => ⟨.send s, ()⟩) ++ [⟨.close, ()⟩]) := by
  induction stats generalizing t with
  | nil =>
    rcases h with rfl | ⟨r, t, rfl, rfl⟩
    · exact ⟨[], List.nil_prefix, .inl rfl⟩
    · exact ⟨[], List.nil_prefix, .inr ⟨rfl, rfl⟩⟩
  | cons s stats ih =>
    rcases h with rfl | ⟨r, t, rfl, h⟩
    · exact ⟨[], List.nil_prefix, .inl rfl⟩
    · obtain ⟨l, hl, rfl | ⟨rfl, rfl⟩⟩ := ih h
      · exact ⟨s :: l, List.cons_prefix_cons.mpr ⟨rfl, hl⟩, .inl rfl⟩
      · exact ⟨s :: l, List.prefix_refl _, .inr ⟨rfl, rfl⟩⟩

theorem part_pipeline {stats : List DeletionStatistics} {t : List StatsEvent}
    (h : (statsCode stats .pipeline).Part t) : (sendAndClose stats).Part t := by
  rcases part_bind'.mp h with h | ⟨t₁, a, t₂, rfl, h₁, h₂⟩
  · exact h
  · obtain rfl : t₂ = [] := h₂
    rw [List.append_nil]
    exact h₁.part

/-- The indicator only looks at the channel. -/
theorem uses_indicator : showIndicator.Uses fun o => (∀ stats, o ≠ .send stats) ∧ o ≠ .close := by
  have hdrain : ∀ summary, (drain summary).Uses fun o => (∀ stats, o ≠ .send stats) ∧ o ≠ .close := by
    intro summary
    refine ⟨fun s => ⟨⟨nofun, nofun⟩, fun r => ?_⟩, fun _ => trivial⟩
    rcases r with - | stats <;> trivial
  refine ⟨fun s => ⟨fun s => ?_, fun _ => trivial⟩, fun _ => trivial⟩
  apply (hdrain s).bind
  intro summary
  refine ⟨⟨nofun, nofun⟩, fun elapsed => ?_⟩
  rcases elapsed with - | -
  · refine ⟨⟨nofun, nofun⟩, fun closed => ?_⟩
    rcases closed with - | -
    · exact ⟨⟨nofun, nofun⟩, fun _ => trivial⟩
    · trivial
  · trivial

section machine

variable {stats : List DeletionStatistics} {w : StatsWorld}

theorem statsStart_initial (stats : List DeletionStatistics) : (statsStart stats).Initial where
  log := rfl
  tasks i := .inr ⟨statsCode stats i, rfl, rfl⟩

theorem statsCode_of_reachable (h : statsMachine.Reachable (statsStart stats) w) (i : StatsTask) :
    w.code i = some (statsCode stats i) := by
  rw [h.code_eq fun _ _ _ => rfl]
  rfl

/-- The pipeline's part of the log. -/
theorem pipeline_trace (h : statsMachine.Reachable (statsStart stats) w) :
    ∃ l, l <+: stats ∧ (traceOf .pipeline w.log = l.map (fun s => ⟨.send s, ()⟩) ∨
      l = stats ∧ traceOf .pipeline w.log = l.map (fun s => ⟨.send s, ()⟩) ++ [⟨.close, ()⟩]) :=
  part_sendAndClose (part_pipeline
    (h.part (statsStart_initial stats) (statsCode_of_reachable h .pipeline)))

theorem pipeline_event (h : statsMachine.Reachable (statsStart stats) w) {e : StatsEvent}
    (he : (StatsTask.pipeline, e) ∈ w.log) : (∃ s, e = ⟨.send s, ()⟩) ∨ e = ⟨.close, ()⟩ := by
  have hmem := mem_traceOf.mpr he
  obtain ⟨l, -, ht | ⟨-, ht⟩⟩ := pipeline_trace h
  · rw [ht] at hmem
    obtain ⟨s, -, rfl⟩ := List.mem_map.mp hmem
    exact .inl ⟨s, rfl⟩
  · rw [ht] at hmem
    rcases List.mem_append.mp hmem with hmem | hmem
    · obtain ⟨s, -, rfl⟩ := List.mem_map.mp hmem
      exact .inl ⟨s, rfl⟩
    · exact .inr (List.mem_singleton.mp hmem)

theorem indicator_event (h : statsMachine.Reachable (statsStart stats) w) {e : StatsEvent}
    (he : (StatsTask.indicator, e) ∈ w.log) : (∀ s, e.1 ≠ .send s) ∧ e.1 ≠ .close := by
  have huses : (statsCode stats .indicator).Uses fun o => (∀ s, o ≠ .send s) ∧ o ≠ .close :=
    uses_indicator.bind fun _ => trivial
  exact (h.part (statsStart_initial stats) (statsCode_of_reachable h .indicator)).uses huses e
    (mem_traceOf.mpr he)

/-- Nothing is sent after the close. -/
theorem not_closed_of_send {i : StatsTask} {s : DeletionStatistics} {r : Unit}
    {log : List (StatsTask × StatsEvent)} (h : statsMachine.Reachable (statsStart stats) w)
    (hlog : w.log = log ++ [(i, ⟨.send s, r⟩)]) : (StatsTask.pipeline, ⟨.close, ()⟩) ∉ log := by
  intro hclose
  have hi : i = .pipeline := by
    rcases i with - | -
    · rfl
    · have hmem : (StatsTask.indicator, ⟨.send s, r⟩) ∈ w.log := by simp [hlog]
      exact absurd rfl ((indicator_event h hmem).1 s)
  subst hi
  have hmem := mem_traceOf.mpr hclose
  obtain ⟨l, -, ht | ⟨-, ht⟩⟩ := pipeline_trace h
  · rw [hlog, traceOf_snoc_self] at ht
    have hall : (⟨.close, ()⟩ : StatsEvent) ∈ l.map (fun s => ⟨.send s, ()⟩) := by
      rw [← ht]
      exact List.mem_append_left _ hmem
    obtain ⟨s', -, hs'⟩ := List.mem_map.mp hall
    cases hs'
  · rw [hlog, traceOf_snoc_self] at ht
    cases (List.append_inj' ht rfl).2

/-- What the channel holds, as the log tells it. -/
structure ChannelKept (log : List (StatsTask × StatsEvent)) (channel : StatsChannel) : Prop where
  fifo : log.flatMap (fun e => sent e.2) = log.flatMap (fun e => received e.2) ++ channel.queue
  queue : channel.queue = inChannel log
  closed : channel.closed = true → (StatsTask.pipeline, ⟨.close, ()⟩) ∈ log

/-- A step that neither sends nor receives. -/
theorem ChannelKept.quiet {log : List (StatsTask × StatsEvent)} {channel channel' : StatsChannel}
    {e : StatsTask × StatsEvent} (h : ChannelKept log channel)
    (hsend : ∀ stats, e.2.1 ≠ .send stats) (hrecv : e.2.1 ≠ .tryRecv)
    (hqueue : channel'.queue = channel.queue)
    (hclosed : channel'.closed = true → (StatsTask.pipeline, ⟨.close, ()⟩) ∈ log ++ [e]) :
    ChannelKept (log ++ [e]) channel' := by
  refine ⟨?_, ?_, hclosed⟩
  · have hs : sent e.2 = [] := by
      obtain ⟨i, o, r⟩ := e
      cases o
      case send stats => exact absurd rfl (hsend stats)
      all_goals rfl
    have hr : received e.2 = [] := by
      obtain ⟨i, o, r⟩ := e
      cases o
      case tryRecv => exact absurd rfl hrecv
      all_goals rfl
    rw [List.flatMap_append, List.flatMap_append, h.fifo, hqueue]
    simp [hs, hr]
  · rw [hqueue, h.queue, inChannel_snoc_quiet hsend hrecv]

/-- **The invariant of the channel.** -/
theorem channelKept (h : statsMachine.Reachable (statsStart stats) w) :
    ChannelKept w.log w.shared := by
  refine h.invariant (P := fun w => ChannelKept w.log w.shared) ?_ ⟨rfl, rfl, fun h => by cases h⟩
  intro u v hr hu hs
  have hv := hr.tail hs
  cases hs with
  | @perform i o k r sh run handled _ _ =>
    show ChannelKept (u.log ++ [(i, ⟨o, r⟩)]) sh
    have keep : ∀ e, u.shared.closed = true → (StatsTask.pipeline, ⟨.close, ()⟩) ∈ u.log ++ [e] :=
      fun e hc => List.mem_append_left _ (hu.closed hc)
    cases o with
    | tryRecv =>
      obtain ⟨hhead, hsh⟩ := Option.ite_none_right_eq_some.mp handled
      cases hsh
      rcases r with - | s
      · have hempty := List.head?_eq_none_iff.mp hhead
        refine ⟨?_, ?_, keep _⟩
        · have hfifo := hu.fifo
          rw [hempty] at hfifo
          simpa [sent, received, hempty] using hfifo
        · rw [inChannel, List.foldl_append]
          simp [hempty]
      · obtain ⟨rest, hqueue⟩ := List.head?_eq_some_iff.mp hhead
        refine ⟨?_, ?_, keep _⟩
        · have hfifo := hu.fifo
          rw [hqueue] at hfifo
          simpa [sent, received, hqueue] using hfifo
        · rw [inChannel, List.foldl_append, ← inChannel, ← hu.queue]
          rfl
    | periodElapsed | sleep =>
      cases handled
      exact hu.quiet nofun nofun rfl (keep _)
    | isClosed =>
      obtain ⟨-, hsh⟩ := Option.ite_none_right_eq_some.mp handled
      cases hsh
      exact hu.quiet nofun nofun rfl (keep _)
    | send s =>
      rcases Bool.eq_false_or_eq_true u.shared.closed with hclosed | hopen
      · exact absurd (hu.closed hclosed) (not_closed_of_send hv rfl)
      · have hsh : some { u.shared with queue := u.shared.queue ++ [s] } = some sh := by
          rw [← handled]
          exact (if_neg (by simp [hopen])).symm
        cases hsh
        refine ⟨?_, ?_, keep _⟩
        · rw [List.flatMap_append, List.flatMap_append, hu.fifo]
          simp [sent, received]
        · rw [inChannel, List.foldl_append, ← inChannel, ← hu.queue]
          rfl
    | close =>
      cases handled
      refine hu.quiet nofun nofun rfl fun _ => ?_
      rcases i with - | -
      · exact List.mem_append_right _ (List.mem_singleton.mpr rfl)
      · have hmem : (StatsTask.indicator, ⟨.close, r⟩) ∈ u.log ++ [(.indicator, ⟨.close, r⟩)] :=
          List.mem_append_right _ (List.mem_singleton.mpr rfl)
        exact absurd rfl (indicator_event hv hmem).2
  | unroll | finish => exact hu
  | panic may => exact may.elim
  | env henv => exact henv.elim

/-- A closed channel stays closed. -/
theorem handle_closed {channel sh : StatsChannel} {o : StatsOp} {r : StatsResp o}
    (h : channel.handle o r = some sh) (hclosed : channel.closed = true) : sh.closed = true := by
  cases o with
  | tryRecv | isClosed =>
    obtain ⟨-, hsh⟩ := Option.ite_none_right_eq_some.mp h
    cases hsh
    exact hclosed
  | periodElapsed | sleep =>
    cases h
    exact hclosed
  | send s =>
    have hsh : some channel = some sh := by
      rw [← h]
      exact (if_pos hclosed).symm
    cases hsh
    exact hclosed
  | close =>
    cases h
    rfl

theorem closed_of_answered (h : statsMachine.Reachable (statsStart stats) w) {i : StatsTask}
    (hi : (i, ⟨.isClosed, true⟩) ∈ w.log) : w.shared.closed = true := by
  refine h.invariant (P := fun w => (i, ⟨.isClosed, true⟩) ∈ w.log → w.shared.closed = true)
    ?_ (fun h => by cases h) hi
  intro u v _ hu hs hmem
  cases hs with
  | @perform j o k r sh run handled _ _ =>
    rcases List.mem_append.mp hmem with hmem | hmem
    · exact handle_closed handled (hu hmem)
    · cases List.mem_singleton.mp hmem
      obtain ⟨hclosed, hsh⟩ := Option.ite_none_right_eq_some.mp handled
      cases hsh
      exact hclosed
  | unroll | finish => exact hu hmem
  | panic may => exact may.elim
  | env henv => exact henv.elim

/-- Once the channel is closed, all is sent. -/
theorem sent_of_closed (h : statsMachine.Reachable (statsStart stats) w)
    (hclosed : w.shared.closed = true) : w.log.flatMap (fun e => sent e.2) = stats := by
  have hproj : w.proj sent = w.projOf sent .pipeline := by
    apply World.proj_eq_projOf
    rintro ⟨i, o, r⟩ he hi
    rcases i with - | -
    · exact absurd rfl hi
    · cases o
      case send s => exact absurd rfl ((indicator_event h he).1 s)
      all_goals rfl
  have hsends : ∀ l : List DeletionStatistics,
      (l.map fun s => (⟨.send s, ()⟩ : StatsEvent)).flatMap sent = l := by
    intro l
    induction l with
    | nil => rfl
    | cons s l ih => simpa [sent] using ih
  show w.proj sent = stats
  rw [hproj, World.projOf]
  have hmem := mem_traceOf.mpr ((channelKept h).closed hclosed)
  obtain ⟨l, -, ht | ⟨rfl, ht⟩⟩ := pipeline_trace h
  · rw [ht] at hmem
    obtain ⟨s, -, hs⟩ := List.mem_map.mp hmem
    cases hs
  · rw [ht, List.flatMap_append, hsends]
    simp [sent]

/-- Everything received was received by the indicator. -/
theorem received_eq (h : statsMachine.Reachable (statsStart stats) w) :
    w.log.flatMap (fun e => received e.2) = (traceOf .indicator w.log).flatMap received := by
  show w.proj received = w.projOf received .indicator
  apply World.proj_eq_projOf
  rintro ⟨i, e⟩ he hi
  rcases i with - | -
  · obtain ⟨s, rfl⟩ | rfl := pipeline_event h he <;> rfl
  · exact absurd rfl hi

/-- A log whose last `try_recv` found nothing. -/
theorem inChannel_of_trace (h : statsMachine.Reachable (statsStart stats) w) {u : List StatsEvent}
    (ht : traceOf .indicator w.log =
      u ++ [⟨.tryRecv, none⟩, ⟨.periodElapsed, false⟩, ⟨.isClosed, true⟩]) :
    inChannel w.log = sentSinceEmpty w.log := by
  obtain ⟨l₁, l₂, hlog, -, ht₂⟩ := List.filterMap_eq_append_iff.mp ht
  obtain ⟨m, ⟨i, e⟩, m', rfl, -, he, ht₃⟩ := List.filterMap_eq_cons_iff.mp ht₂
  obtain ⟨rfl, rfl⟩ : i = .indicator ∧ e = ⟨.tryRecv, none⟩ := by
    split at he
    next hi => exact ⟨hi, Option.some.inj he⟩
    next => cases he
  rw [hlog, ← List.append_assoc]
  apply inChannel_eq_sentSinceEmpty
  rintro ⟨j, o, r⟩ hmem rfl
  rcases j with - | -
  · have hmem' : (StatsTask.pipeline, ⟨.tryRecv, r⟩) ∈ w.log := by
      rw [hlog]
      exact List.mem_append_right _ (List.mem_append_right _ (List.mem_cons_of_mem _ hmem))
    obtain ⟨s, hs⟩ | hs := pipeline_event h hmem' <;> cases hs
  · have hmem' := mem_traceOf.mpr hmem
    rw [show traceOf .indicator m' = _ from ht₃] at hmem'
    simp at hmem'

theorem summary_counts_iff {summary : IndicatorSummary}
    (h : statsMachine.Reachable (statsStart stats) w)
    (hdone : w.outcome .indicator = some (.done (some summary))) :
    (∀ c, summary.column c = total DeletionStatistics.adds stats c) ↔
      (∀ s ∈ sentSinceEmpty w.log, s = .deleteBytes 0) ∧
        ∀ c, total DeletionStatistics.adds stats c < 2 ^ 64 := by
  have hrun := h.run (statsStart_initial stats) (statsCode_of_reachable h .indicator) hdone
  obtain ⟨out, hrun, hout⟩ := run_map.mp hrun
  cases hout
  obtain ⟨u, htrace, hcount⟩ := run_showIndicator hrun
  have hclosed : w.shared.closed = true := by
    apply closed_of_answered (i := .indicator) h
    apply mem_traceOf.mp
    simp [htrace]
  have hreceived : w.log.flatMap (fun e => received e.2) = u.flatMap received := by
    rw [received_eq h, htrace]
    simp [received]
  have hstats : stats = u.flatMap received ++ sentSinceEmpty w.log := by
    rw [← sent_of_closed h hclosed, (channelKept h).fifo, hreceived, (channelKept h).queue,
      inChannel_of_trace h htrace]
  rw [hstats, show summary = _ from hcount]
  exact column_eq_total_iff

end machine

/-! ### Two runs -/

/-- Receive what there is; the clock never reports the end of a period. -/
def answerStats (w : StatsWorld) (_ : StatsTask) : (o : StatsOp) → Option (StatsResp o)
  | .tryRecv => some w.shared.queue.head?
  | .periodElapsed => some false
  | .isClosed => some w.shared.closed
  | .sleep => some ()
  | .send _ => some ()
  | .close => some ()

def statsRun (stats : List DeletionStatistics) (schedule : List StatsTask) : StatsWorld :=
  statsMachine.exec answerStats (statsStart stats) schedule

theorem statsRun_reachable (stats : List DeletionStatistics) (schedule : List StatsTask) :
    statsMachine.Reachable (statsStart stats) (statsRun stats schedule) :=
  Machine.exec_sound (fun _ _ _ _ _ => trivial) _ _

/-- The indicator comes when the channel is closed. -/
def lateIndicator : StatsWorld :=
  statsRun [.deleteComplete "a"] (List.replicate 2 .pipeline ++ List.replicate 9 .indicator)

theorem summary_counts_lateIndicator :
    (∀ c, ({ totalDeleteCount := 1 } : IndicatorSummary).column c =
      total DeletionStatistics.adds [.deleteComplete "a"] c) ↔
    (∀ s ∈ sentSinceEmpty lateIndicator.log, s = .deleteBytes 0) ∧
      ∀ c, total DeletionStatistics.adds [.deleteComplete "a"] c < 2 ^ 64 :=
  summary_counts_iff (statsRun_reachable _ _)
    (show lateIndicator.outcome .indicator = _ by rfl)

/-- The statistic is sent, and the channel closed, after the indicator has
drained it and before it asks. -/
def windowRun : StatsWorld :=
  statsRun [.deleteComplete "a"]
    (List.replicate 5 .indicator ++ List.replicate 2 .pipeline ++ List.replicate 3 .indicator)

theorem summary_misses_window :
    statsMachine.Reachable (statsStart [.deleteComplete "a"]) windowRun ∧
      windowRun.outcome .indicator = some (.done (some {})) ∧
      ¬∀ c, ({} : IndicatorSummary).column c =
        total DeletionStatistics.adds [.deleteComplete "a"] c := by
  refine ⟨statsRun_reachable _ _, rfl, ?_⟩
  intro h
  cases h .deleted

end S3rm
