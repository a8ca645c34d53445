/-
S3rm/Accounts.lean

The three accounts of a run: the statistics on the channel, the library's
report and the event manager's statistics.  Each has columns for deletions,
their bytes, failures and, but for the report, skips.

    Discrepancy        by how much the entries of a trace differ between the
                       accounts: an object over `--max-delete` is missing in
                       the report, an object that is gone in the events
    accounts_agree     when the accounts of a run agree
-/
import Mathlib.Algebra.GroupWithZero.Nat
import Mathlib.Data.List.TakeWhile
import S3rm.Batching

namespace S3rm

open Conc Conc.Prog

variable {config : Config} {outside : Outside} {stage : Stage} {w : PipelineWorld}
  {b : List S3Object} {o : S3Object} {n : Nat} {t u v : Trace}

/-! ### Columns -/

/-- The columns of an account. -/
inductive Column where
  | deleted
  | bytes
  | failed
  | skipped
  deriving DecidableEq, Repr

/-- What a statistic adds to each column. -/
def DeletionStatistics.adds : DeletionStatistics → Column → Nat
  | .deleteComplete _, .deleted => 1
  | .deleteBytes bytes, .bytes => bytes
  | .deleteError _, .failed => 1
  | .deleteSkip _, .skipped => 1
  | _, _ => 0

/-- What an event adds. -/
def EventData.adds (event : EventData) : Column → Nat :=
  match event.eventType with
  | .deleteComplete => fun | .deleted => 1 | .bytes => event.size.getD 0 | _ => 0
  | .deleteFailed => fun | .failed => 1 | _ => 0
  | .deleteFiltered => fun | .skipped => 1 | _ => 0
  | _ => fun _ => 0

/-- What an increment of the report adds. -/
def countAdds : Option Nat → Column → Nat
  | some _, .deleted => 1
  | some bytes, .bytes => bytes
  | none, .failed => 1
  | _, _ => 0

/-- The columns of the report. -/
def DeletionStatsReport.column (report : DeletionStatsReport) : Column → Nat
  | .deleted => report.statsDeletedObjects
  | .bytes => report.statsDeletedBytes
  | .failed => report.statsFailedObjects
  | .skipped => 0

/-- The columns of the event manager's statistics. -/
def PipelineStats.column (stats : PipelineStats) : Column → Nat
  | .deleted => stats.statsDeletedObjects
  | .bytes => stats.statsDeletedBytes
  | .failed => stats.statsFailedObjects
  | .skipped => stats.statsSkippedObjects

/-- A column added up. -/
def total {α : Type} (adds : α → Column → Nat) (xs : List α) (c : Column) : Nat :=
  (xs.map fun x => adds x c).sum

section total

variable {α : Type} (adds : α → Column → Nat) (c : Column)

@[simp] theorem total_nil : total adds [] c = 0 := rfl

@[simp] theorem total_cons (x : α) (xs : List α) :
    total adds (x :: xs) c = adds x c + total adds xs c := by simp [total]

@[simp] theorem total_append (xs ys : List α) :
    total adds (xs ++ ys) c = total adds xs c + total adds ys c := by simp [total]

theorem total_eq_zero {xs : List α} (h : ∀ x ∈ xs, adds x c = 0) : total adds xs c = 0 :=
  List.sum_eq_zero fun n hn => by
    obtain ⟨x, hx, rfl⟩ := List.mem_map.mp hn
    exact h x hx

end total

/-! ### Discrepancies -/

/-- By how much the entries differ: `gap` failures are not in the report, and
`missing` skips have no event. -/
structure Discrepancy (x : Entries) (gap missing : Nat) : Prop where
  report : ∀ c, c ≠ .skipped → total DeletionStatistics.adds x.stats c =
    total countAdds x.counts c + if c = .failed then gap else 0
  events : ∀ c, total DeletionStatistics.adds x.stats c =
    total EventData.adds x.events c + if c = .skipped then missing else 0

theorem Discrepancy.empty : Discrepancy {} 0 0 := ⟨by simp, by simp⟩

theorem Discrepancy.append {x y : Entries} {gap missing gap' missing' : Nat}
    (hx : Discrepancy x gap missing) (hy : Discrepancy y gap' missing') :
    Discrepancy (x ++ y) (gap + gap') (missing + missing') := by
  refine ⟨fun c hc => ?_, fun c => ?_⟩
  · have hx' := hx.report c hc
    have hy' := hy.report c hc
    simp only [Entries.stats_append, Entries.counts_append, total_append]
    split_ifs at * <;> omega
  · have hx' := hx.events c
    have hy' := hy.events c
    simp only [Entries.stats_append, Entries.events_append, total_append]
    split_ifs at * <;> omega

/-- A rejected object is entered as a skip wherever skips are. -/
theorem discrepancy_skipEntries (hreg : config.eventManager.callbackRegistered = true)
    (message : String) : Discrepancy (skipEntries config o message) 0 0 := by
  refine ⟨?_, ?_⟩
  · rintro (_ | _ | _ | _) hc <;> simp [skipEntries, eventIfRegistered, DeletionStatistics.adds] at hc ⊢
  · rintro (_ | _ | _ | _) <;>
      simp [skipEntries, eventIfRegistered, hreg, DeletionStatistics.adds, EventData.adds,
        filteredEvent, EventData.new]

/-- An object that is gone is entered as a skip in the statistics only. -/
theorem discrepancy_missing : Discrepancy { stats := [.deleteSkip o.key] } 0 1 := by
  refine ⟨?_, ?_⟩
  · rintro (_ | _ | _ | _) hc <;> simp [DeletionStatistics.adds] at hc ⊢
  · rintro (_ | _ | _ | _) <;> simp [DeletionStatistics.adds]

/-- An object over the limit is entered as a failure, but not in the report. -/
theorem discrepancy_overEntries : Discrepancy (overEntries o) 1 0 := by
  refine ⟨?_, ?_⟩
  · rintro (_ | _ | _ | _) hc <;> simp [overEntries, DeletionStatistics.adds] at hc ⊢
  · rintro (_ | _ | _ | _) <;>
      simp [overEntries, DeletionStatistics.adds, EventData.adds, maxDeleteEvent, EventData.new]

theorem discrepancy_deleted (config : Config) (batch : List S3Object) (deleted : List DeletedKey) :
    Discrepancy ⟨deleted.flatMap (deletedStats batch), deleted.map (completeEvent config batch),
      deleted.map fun dk => some (deletedSize batch dk)⟩ 0 0 := by
  have hone : ∀ dk, Discrepancy (deletedEntries config batch dk) 0 0 := by
    intro dk
    refine ⟨?_, ?_⟩
    · rintro (_ | _ | _ | _) hc <;>
        simp [deletedEntries, deletedStats, DeletionStatistics.adds, countAdds] at hc ⊢
    · rintro (_ | _ | _ | _) <;>
        simp [deletedEntries, deletedStats, DeletionStatistics.adds, EventData.adds, completeEvent,
          EventData.new]
  induction deleted with
  | nil => exact .empty
  | cons dk deleted ih => exact (hone dk).append ih

theorem discrepancy_failed (config : Config) (failed : List FailedKey) :
    Discrepancy ⟨failed.map fun fk => .deleteError fk.key, failed.map (failedEvent config),
      failed.map fun _ => none⟩ 0 0 := by
  have hone : ∀ fk : FailedKey,
      Discrepancy ⟨[.deleteError fk.key], [failedEvent config fk], [none]⟩ 0 0 := by
    intro fk
    refine ⟨?_, ?_⟩
    · rintro (_ | _ | _ | _) hc <;> simp [DeletionStatistics.adds, countAdds] at hc ⊢
    · rintro (_ | _ | _ | _) <;>
        simp [DeletionStatistics.adds, EventData.adds, failedEvent, EventData.new]
  induction failed with
  | nil => exact .empty
  | cons fk failed ih => exact (hone fk).append ih

/-- A batch with its result is entered alike in all accounts. -/
theorem discrepancy_batchEntries (batch : List S3Object) (result : DeleteResult) :
    Discrepancy (batchEntries config batch result) 0 0 := by
  have hboth := (discrepancy_deleted config batch result.deleted).append
    (discrepancy_failed config result.failed)
  refine ⟨fun c hc => ?_, fun c => ?_⟩
  · have hreport := hboth.report c hc
    simp only [Entries.stats_append, Entries.counts_append, total_append, ite_self] at hreport
    simp only [batchEntries, resultEntries, completeStats, DeleteResult.errorStats,
      Entries.stats_append, Entries.counts_append, total_append, List.nil_append, ite_self]
    omega
  · have hevents := hboth.events c
    simp only [Entries.stats_append, Entries.events_append, total_append, ite_self] at hevents
    simp only [batchEntries, resultEntries, completeStats, DeleteResult.errorStats,
      Entries.stats_append, Entries.events_append, total_append, List.nil_append, ite_self]
    omega

/-! ### Traces -/

/-- The accounts after a trace: `gap` failures are not in the report, and the
calls that found no object have no event. -/
def Differs (t : Trace) (gap : Nat) : Prop :=
  Discrepancy (entries t) gap (t.flatMap missed).length

theorem Differs.append {gap gap' : Nat} (ht : Differs t gap) (hu : Differs u gap') :
    Differs (t ++ u) (gap + gap') := by
  unfold Differs
  rw [entries_append, List.flatMap_append, List.length_append]
  exact Discrepancy.append ht hu

/-- A trace without entries and lookups. -/
theorem differs_quiet (h : ∀ e ∈ t, e.1.isEntry = false ∧ e.1.isLookup = false) : Differs t 0 := by
  unfold Differs
  rw [entries_of_quiet fun e he => (h e he).1,
    List.flatMap_eq_nil_iff.mpr fun e he => missed_quiet (h e he).2]
  exact .empty

theorem Differs.cons {gap : Nat} {e : Event} (h : Differs t gap) (he : e.1.isEntry = false)
    (hlookup : e.1.isLookup = false) : Differs (e :: t) gap := by
  unfold Differs
  rw [entries_quiet he, List.flatMap_cons, missed_quiet hlookup]
  exact h

theorem Screened.differs {r : Except Error Bool} (h : Screened config o t r)
    (hreg : config.eventManager.callbackRegistered = true) : Differs t 0 := by
  unfold Differs
  cases h with
  | passed none met | failed none met =>
    rw [none, met]
    exact .empty
  | rejected skip met =>
    rw [skip, met]
    exact discrepancy_skipEntries hreg _
  | missing half saw =>
    rw [half, saw]
    exact discrepancy_missing

theorem missed_of_isFlush {chan : Nat} (h : ∀ e ∈ t, e.1.isFlush chan) : t.flatMap missed = [] := by
  refine List.flatMap_eq_nil_iff.mpr fun e he => missed_quiet ?_
  have hflush := h e he
  rcases e with ⟨o, r⟩
  cases o <;> first | rfl | cases hflush

theorem Flush.differs {r : Except Error (List S3Object)} (h : Flush stage b t r)
    (hlen : b.length ≤ effectiveBatchSize stage.config) : Differs t 0 := by
  unfold Differs
  rw [missed_of_isFlush h.isFlush]
  cases h.entered hlen with
  | nothing none =>
    rw [none]
    exact .empty
  | result all =>
    rw [all]
    exact discrepancy_batchEntries _ _

theorem OverLimit.differs (h : OverLimit o t) : Differs t 1 := by
  unfold Differs
  rw [missed_of_isFlush (h.isFlush 0), h.entered]
  exact discrepancy_overEntries

/-- The tickets drawn are within the limit. -/
def AllWithin (config : Config) (t : Trace) : Prop := ∀ k ∈ t.flatMap tickets, withinLimit config k

theorem AllWithin.append (ht : AllWithin config t) (hu : AllWithin config u) :
    AllWithin config (t ++ u) := by
  intro k hk
  rw [List.flatMap_append] at hk
  exact (List.mem_append.mp hk).elim (ht k) (hu k)

theorem allWithin_of_nil (h : t.flatMap tickets = []) : AllWithin config t := by
  simp [AllWithin, h]

/-- An object that is over the limit is missing in the report, unless the flush
before it failed. -/
theorem Process.differs {r : Except Error (List S3Object)} (h : Process stage b o t r)
    (hreg : stage.config.eventManager.callbackRegistered = true)
    (hlen : b.length < effectiveBatchSize stage.config) :
    Differs t 0 ∧ (AllWithin stage.config t ∨ ∃ e, r = .error e) ∨
      Differs t 1 ∧ ¬ AllWithin stage.config t ∧ (⟨.cancel, ()⟩ : Event) ∈ t ∧ ∃ b', r = .ok b' := by
  have hscreen : ∀ {w r}, Run (screen stage.config o) w r → Differs w 0 ∧ AllWithin stage.config w := by
    refine fun hw => ⟨(run_screen_entries hw).differs hreg, allWithin_of_nil ?_⟩
    exact flatMap_eq_nil_of_straight hw (screen_straight ..) fun _ => tickets_screening
  have hdraw : ∀ {k z}, withinLimit stage.config k → (∀ e ∈ z, e.1.isFlush stage.sender) →
      AllWithin stage.config (⟨.fetchAdd, k⟩ :: z) := by
    intro k z hk hz
    have hz' : z.flatMap tickets = [] :=
      List.flatMap_eq_nil_iff.mpr fun e he => tickets_flush (hz e he)
    simp [AllWithin, tickets, hz', hk]
  cases h with
  | failed screened => exact .inl ⟨(hscreen screened).1, .inl (hscreen screened).2⟩
  | skipped screened => exact .inl ⟨(hscreen screened).1, .inl (hscreen screened).2⟩
  | buffered screened within =>
    obtain ⟨hw, hwithin⟩ := hscreen screened
    have hticket := differs_quiet (t := []) (by simp)
    exact .inl ⟨hw.append (hticket.cons rfl rfl), .inl (hwithin.append (hdraw within (by simp)))⟩
  | flushed screened within flush =>
    obtain ⟨hw, hwithin⟩ := hscreen screened
    have hflush := flush.differs (by rw [List.length_append]; exact hlen)
    exact .inl ⟨hw.append (hflush.cons rfl rfl), .inl (hwithin.append (hdraw within flush.isFlush))⟩
  | overFailed screened _ flush =>
    have hflush := flush.differs hlen.le
    exact .inl ⟨(hscreen screened).1.append (hflush.cons rfl rfl), .inr ⟨_, rfl⟩⟩
  | @exceeded w z y k b' screened exceeded flush stop =>
    have hover := (flush.differs hlen.le).append stop.differs
    refine .inr ⟨(hscreen screened).1.append (hover.cons rfl rfl), fun hwithin => ?_, ?_, b', rfl⟩
    · have hk := hwithin k (by simp [tickets])
      rw [exceeded] at hk
      cases hk
    · rcases stop with ⟨notices, -⟩
      simp

/-- The same of a whole turn. -/
theorem WorkerTurn.differs {x : List S3Object ⊕ Except Error Unit} (h : WorkerTurn stage b t x)
    (hreg : stage.config.eventManager.callbackRegistered = true)
    (hlen : b.length < effectiveBatchSize stage.config) :
    Differs t 0 ∧ (AllWithin stage.config t ∨ ∃ e, x = .inr (.error e)) ∨
      Differs t 1 ∧ ¬ AllWithin stage.config t ∧ (⟨.cancel, ()⟩ : Event) ∈ t.dropLast ∧
        ∀ e, x ≠ .inr (.error e) := by
  have hnil := differs_quiet (t := []) (by simp)
  cases h with
  | cancelled => exact .inl ⟨hnil.cons rfl rfl, .inl (allWithin_of_nil rfl)⟩
  | lost => exact .inl ⟨(hnil.cons rfl rfl).cons rfl rfl, .inl (allWithin_of_nil rfl)⟩
  | drained flush =>
    refine .inl ⟨((flush.differs hlen.le).cons rfl rfl).cons rfl rfl, .inl (allWithin_of_nil ?_)⟩
    simpa [tickets] using fun e he => tickets_flush (flush.isFlush e he)
  | @received o p v r x process rest =>
    have hreceived : ∀ {gap : Nat} {c : Bool}, Differs p gap →
        Differs (⟨.select stage.receiver, .received (some o)⟩ :: (p ++ [⟨.isCancelled, c⟩])) gap :=
      fun hp => (hp.append (hnil.cons rfl rfl)).cons rfl rfl
    have hdrawn : ∀ {c : Bool}, AllWithin stage.config
        (⟨.select stage.receiver, .received (some o)⟩ :: (p ++ [⟨.isCancelled, c⟩])) ↔
          AllWithin stage.config p := by
      simp [AllWithin, tickets]
    have hlast : ∀ {c : Bool}, (⟨.cancel, ()⟩ : Event) ∈ p → (⟨.cancel, ()⟩ : Event) ∈
        (⟨.select stage.receiver, .received (some o)⟩ :: (p ++ [⟨.isCancelled, c⟩])).dropLast := by
      intro c hp
      rw [← List.cons_append, List.dropLast_concat]
      exact List.mem_cons_of_mem _ hp
    rcases process.differs hreg hlen with ⟨hdiff, hwithin⟩ | ⟨hdiff, hover, hcancel, b', rfl⟩
    · cases rest with
      | @failed e =>
        rw [List.append_nil]
        exact .inl ⟨hdiff.cons rfl rfl, .inr ⟨e, rfl⟩⟩
      | cancelled | next =>
        have hall := hwithin.resolve_right (by simp)
        exact .inl ⟨hreceived hdiff, .inl (hdrawn.mpr hall)⟩
    · cases rest with
      | cancelled | next =>
        exact .inr ⟨hreceived hdiff, fun hall => hover (hdrawn.mp hall), hlast hcancel, by simp⟩

/-! ### Whole traces of a worker -/

/-- Who has cancelled the token does not see it live again. -/
def Lasting (t : Trace) : Prop :=
  ∀ t₁ t₂, t = t₁ ++ ⟨.isCancelled, false⟩ :: t₂ → (⟨.cancel, ()⟩ : Event) ∉ t₁

theorem Lasting.of_append (h : Lasting (t ++ u)) : Lasting t := by
  rintro t₁ t₂ rfl
  exact h t₁ (t₂ ++ u) (by simp)

/-- A turn that goes on has drawn a ticket within the limit, and its entries agree. -/
theorem WorkerTurn.differs_next {b' : List S3Object} (h : WorkerTurn stage b u (.inl b'))
    (hreg : stage.config.eventManager.callbackRegistered = true)
    (hlen : b.length < effectiveBatchSize stage.config) (hlast : Lasting (t ++ u)) :
    Differs u 0 ∧ AllWithin stage.config u := by
  rcases h.differs hreg hlen with ⟨hdiff, hwithin⟩ | ⟨-, -, hcancel, -⟩
  · exact ⟨hdiff, hwithin.resolve_right (by simp)⟩
  · refine absurd ?_ (hlast (t ++ u.dropLast) [] ?_)
    · exact List.mem_append_right t hcancel
    · cases h with
      | received process rest =>
        cases rest with
        | next =>
          rw [← List.cons_append, List.dropLast_concat, List.append_assoc]

/-- **A worker's accounts**: they differ by the objects that were gone, and by
one failure if it stopped at an object over the limit. -/
theorem run_worker_differs {r : Except Error Unit} (h : Run (receiveAndDelete stage) t r)
    (hreg : stage.config.eventManager.callbackRegistered = true) (hperm : Permanent t)
    (hlast : Lasting t) :
    ∃ gap, Differs t gap ∧ (gap = 0 ↔ AllWithin stage.config t ∨ ∃ e, r = .error e) := by
  obtain ⟨b, u, v, rfl, hrounds, hv⟩ := run_loop.mp h
  have hhead : AtHead stage b u ∧
      (Permanent u → Lasting u → Differs u 0 ∧ AllWithin stage.config u) := by
    refine hrounds.invariant (t := []) (I := fun b t => AtHead stage b t ∧
      (Permanent t → Lasting t → Differs t 0 ∧ AllWithin stage.config t))
      (fun b t u b' hI hu => ⟨hI.1.next hu, fun hperm hlast => ?_⟩) ?_
    · obtain ⟨hdiff, hwithin⟩ := hI.2 hperm.of_append hlast.of_append
      obtain ⟨hdiff', hwithin'⟩ :=
        (run_workerTurn hu).differs_next hreg (hI.1.room hperm.of_append) hlast
      exact ⟨hdiff.append hdiff', hwithin.append hwithin'⟩
    · exact ⟨.nil, fun _ _ => ⟨differs_quiet (by simp), allWithin_of_nil rfl⟩⟩
  obtain ⟨hdiff, hwithin⟩ := hhead.2 hperm.of_append hlast.of_append
  rcases (run_workerTurn hv).differs hreg (hhead.1.room hperm.of_append) with
    ⟨hv', hv''⟩ | ⟨hv', hover, -, hr⟩
  · refine ⟨0, hdiff.append hv', ⟨fun _ => ?_, fun _ => rfl⟩⟩
    exact hv''.imp hwithin.append fun ⟨e, he⟩ => ⟨e, Sum.inr.inj he⟩
  · refine ⟨1, by simpa using hdiff.append hv', ⟨fun h => absurd h one_ne_zero, ?_⟩⟩
    rintro (hall | ⟨e, rfl⟩)
    · refine absurd (fun k hk => hall k ?_) hover
      rw [List.flatMap_append]
      exact List.mem_append_right _ hk
    · exact absurd rfl (hr e)

/-! ### Whole traces of a filter stage -/

theorem Skips.differs (h : Skips config o t)
    (hreg : config.eventManager.callbackRegistered = true) : Differs t 0 := by
  obtain ⟨message, hfires⟩ := h.fires
  have hcounts : t.flatMap counted = [] ∧ t.flatMap missed = [] := by
    have hall : ∀ e ∈ t, counted e = [] ∧ missed e = [] := by
      rintro ⟨op, r⟩ he
      rcases h.reports _ he with ⟨stats, rfl⟩ | hnotice
      · exact ⟨rfl, rfl⟩
      · cases op <;> first | exact ⟨rfl, rfl⟩ | cases hnotice
    exact ⟨List.flatMap_eq_nil_iff.mpr fun e he => (hall e he).1,
      List.flatMap_eq_nil_iff.mpr fun e he => (hall e he).2⟩
  have hentries : entries t = skipEntries config o message := by
    ext1
    · exact h.notes
    · simpa [entries, skipEntries, eventIfRegistered] using hfires
    · simp [entries, skipEntries, eventIfRegistered, hcounts.1]
  unfold Differs
  rw [hentries, hcounts.2]
  exact discrepancy_skipEntries hreg message

/-- Deciding about an object enters at most an error. -/
theorem Verdict.differs {kind : FilterKind} {r : Except Error Bool} (h : Verdict stage o kind t r) :
    Differs t 0 := by
  have hnil := differs_quiet (t := []) (by simp)
  cases h with
  | base | unregistered => exact hnil
  | answered => exact hnil.cons rfl rfl
  | @erred e w a hcallback fires =>
    have hmet : w.flatMap missed = [] :=
      flatMap_eq_nil_of_straight fires (triggerEventIfRegistered_straight _ _) fun ev hev => by
        rcases ev with ⟨op, _⟩
        cases op <;> first | rfl | cases hev
    have hw : Differs w 0 := by
      unfold Differs
      rw [entries_triggerEventIfRegistered fires, hmet]
      refine ⟨by simp [eventIfRegistered], fun c => ?_⟩
      unfold eventIfRegistered
      split_ifs <;> simp [EventData.adds, userDefinedFilterErrorEvent, EventData.new]
    exact (hw.append (hnil.cons rfl rfl)).cons rfl rfl

theorem FilterStep.differs {kind : FilterKind} {x : Unit ⊕ Except Error Unit}
    (h : FilterStep stage kind t x) (hreg : stage.config.eventManager.callbackRegistered = true) :
    Differs t 0 := by
  have hnil := differs_quiet (t := []) (by simp)
  have hreceives : ∀ r, Differs (kind.receives stage.receiver r) 0 := by
    intro r
    cases kind
    · exact (hnil.cons rfl rfl).cons rfl rfl
    · exact hnil.cons rfl rfl
  cases h with
  | cancelled => cases kind <;> exact hnil.cons rfl rfl
  | ended => exact hreceives none
  | failed verdict => exact (hreceives _).append verdict.differs
  | rejected verdict skips => exact (hreceives _).append (verdict.differs.append (skips.differs hreg))
  | sent verdict => exact (hreceives _).append (verdict.differs.append (hnil.cons rfl rfl))
  | unsent verdict =>
    exact (hreceives _).append (verdict.differs.append ((hnil.cons rfl rfl).cons rfl rfl))

/-- **A filter stage enters alike in all accounts.** -/
theorem run_filter_differs {kind : FilterKind} {r : Except Error Unit}
    (h : Run (kind.filter stage) t r)
    (hreg : stage.config.eventManager.callbackRegistered = true) : Differs t 0 := by
  rw [kind.filter_eq] at h
  obtain ⟨b, u, v, rfl, hrounds, hv⟩ := run_loop.mp h
  have hu : Differs u 0 := hrounds.invariant (t := []) (I := fun _ t => Differs t 0)
    (fun _ _ _ _ hI hb => hI.append ((FilterKind.step hb).differs hreg)) (differs_quiet (by simp))
  exact hu.append ((FilterKind.step hv).differs hreg)

/-! ### Tasks that enter nothing -/

/-- The operations that count in a column, or ask for an object that may be gone. -/
def Op.tallies : Op → Bool
  | .sendStats _ | .incrementDeleted _ | .incrementFailed => true
  | .updatePipelineStats event =>
    event.eventType = .deleteComplete ∨ event.eventType = .deleteFailed ∨
      event.eventType = .deleteFiltered
  | o => o.isLookup

theorem EventData.adds_eq_zero {event : EventData}
    (h : (Op.updatePipelineStats event).tallies = false) (c : Column) : event.adds c = 0 := by
  rcases hevent : event.eventType <;> simp [Op.tallies, hevent] at h <;> simp [adds, hevent]

theorem differs_untallied (h : ∀ e ∈ t, e.1.tallies = false) : Differs t 0 := by
  induction t with
  | nil => exact differs_quiet (by simp)
  | cons e t ih =>
    have ih := ih fun x hx => h x (List.mem_cons_of_mem e hx)
    have he := h e List.mem_cons_self
    rcases e with ⟨o, r⟩
    cases o
    case updatePipelineStats event =>
      have hone : Differs [⟨.updatePipelineStats event, r⟩] 0 := by
        refine ⟨fun c _ => by simp [entries, noted, counted], fun c => ?_⟩
        simp [entries, noted, fired, missed, EventData.adds_eq_zero he]
      exact hone.append ih
    case sendStats | incrementDeleted | incrementFailed | headObject | getObjectTagging => cases he
    all_goals exact ih.cons rfl rfl

theorem completes_untallied : Completes fun o => o.tallies = false where
  join := rfl
  setError := rfl
  setPanic := rfl
  pushError _ := rfl
  hasWarning := rfl
  hasError := rfl
  errorMessages := rfl
  isCancelled := rfl
  closeStatsSender := rfl
  events := ⟨fun event h => by rcases h with h | h <;> simp [Op.tallies, h], fun _ _ => rfl⟩

/-- The event that ends the pipeline counts nothing either. -/
theorem runStarted_untallied (config : Config) :
    (runStarted config).Straight fun o => o.tallies = false := by
  apply completes_untallied.runStarted
  apply Triggers.triggerEvent (P := fun type => type = .pipelineEnd ∨ type = .statsReport)
  · exact ⟨fun event h => by rcases h with h | h <;> simp [Op.tallies, h], fun _ _ => rfl⟩
  · exact .inl rfl
  · exact fun _ => ⟨rfl, .inr rfl⟩

/-! ### All tasks together -/

/-- The run's stages have all returned, and none has panicked. -/
def AllReturned (config : Config) (w : PipelineWorld) : Prop :=
  ∀ s : StageId, s.exists config → ∃ r, w.outcome (.stage s) = some (.done r)

theorem Running.lasting (h : Running config outside w) (i : TaskId) :
    Lasting (traceOf i w.log) := by
  intro t₁ t₂ ht
  exact cancels_eq_nil.mp (not_revived h ht)

/-- The task's tickets are within the limit, or it has ended with an error. -/
def Unexceeded (config : Config) (w : PipelineWorld) (i : TaskId) : Prop :=
  AllWithin config (traceOf i w.log) ∨ ∃ e, w.outcome i = some (.done (.error e))

theorem allWithin_of_not_worker (h : Running config outside w) {i : TaskId}
    (hi : i ∉ workers config) : AllWithin config (traceOf i w.log) := by
  apply allWithin_of_nil
  apply List.flatMap_eq_nil_iff.mpr
  exact fun e he => tickets_of_not_worker h (mem_traceOf.mp he) hi

/-- **One task's accounts**, once the stages have returned. -/
theorem Running.differs (h : Running config outside w)
    (hreg : config.eventManager.callbackRegistered = true) (hret : AllReturned config w) (i : TaskId) :
    ∃ gap, Differs (traceOf i w.log) gap ∧ (gap = 0 ↔ Unexceeded config w i) := by
  have hagree : i ∉ workers config → Differs (traceOf i w.log) 0 →
      ∃ gap, Differs (traceOf i w.log) gap ∧ (gap = 0 ↔ Unexceeded config w i) := by
    intro hi hdiff
    exact ⟨0, hdiff, fun _ => .inl (allWithin_of_not_worker h hi), fun _ => rfl⟩
  have hnone : ∀ {p : Act Unit}, i.program config = some p → i ∉ workers config →
      (p.Uses fun o => o.tallies = false) →
      ∃ gap, Differs (traceOf i w.log) gap ∧ (gap = 0 ↔ Unexceeded config w i) :=
    fun hp hi huses => hagree hi (differs_untallied ((h.part hp).uses huses))
  rcases hp : i.program config with - | p
  · refine hagree (fun hi => ?_) (by rw [h.idle hp]; exact differs_quiet (by simp))
    obtain ⟨n, hn, rfl⟩ := mem_workers.mp hi
    simp [worker_program hn] at hp
  have hmay := TaskId.program_uses hp
  rcases i with (_ | n | n) | s | _ | _
  · refine hnone hp (by simp [mem_workers]) (hmay.mono fun o ho => ?_)
    cases o <;> first | rfl | cases ho
  · obtain ⟨r, hr⟩ := hret (.filter n) (decide_eq_true (StageId.filter_started.mp (by
      simp [TaskId.started, hp])))
    obtain ⟨kind, -, rfl⟩ := Option.map_eq_some_iff.mp hp
    exact hagree (by simp [mem_workers]) (run_filter_differs (h.run hp hr) hreg)
  · have hn : n < config.workerSize := StageId.worker_started.mp (by simp [TaskId.started, hp])
    obtain ⟨r, hr⟩ := hret (.worker n) (decide_eq_true hn)
    obtain ⟨gap, hdiff, hgap⟩ := run_worker_differs (h.run (worker_program hn) hr) hreg
      (h.permanent _) (h.lasting _)
    refine ⟨gap, hdiff, hgap.trans (or_congr_right ?_)⟩
    rw [hr]
    simp
  · refine hnone hp (by simp [mem_workers]) (hmay.mono fun o ho => ?_)
    cases o <;> first | rfl | cases ho
  · refine hnone hp (by simp [mem_workers]) (hmay.mono fun o ho => ?_)
    cases o <;> first | rfl | cases ho
  · obtain rfl := Option.some.inj hp
    exact hnone hp (by simp [mem_workers]) (runStarted_untallied config).uses

/-- A column of what all tasks entered is the sum of the tasks' own. -/
theorem total_proj {β : Type} (adds : β → Column → Nat) (f : Event → List β) {S : Finset TaskId}
    (hS : ∀ e ∈ w.log, e.1 ∈ S) (c : Column) :
    total adds (w.proj f) c = ∑ i ∈ S, total adds (w.projOf f i) c := by
  have hproj : (w.proj f : Multiset β) = ∑ i ∈ S, (w.projOf f i : Multiset β) :=
    World.coe_proj fun e he hi => absurd (hS e he) hi
  have hsum := congrArg (fun m => (m.map fun x => adds x c).sum) hproj
  simp only [Multiset.map_coe, Multiset.sum_coe] at hsum
  show ((w.proj f).map fun x => adds x c).sum = _
  rw [hsum, map_sum_multiset]
  exact map_sum Multiset.sumAddMonoidHom _ S

theorem length_proj {β : Type} (f : Event → List β) {S : Finset TaskId}
    (hS : ∀ e ∈ w.log, e.1 ∈ S) : (w.proj f).length = ∑ i ∈ S, (w.projOf f i).length := by
  have hproj : (w.proj f : Multiset β) = ∑ i ∈ S, (w.projOf f i : Multiset β) :=
    World.coe_proj fun e he hi => absurd (hS e he) hi
  have hcard := congrArg Multiset.card hproj
  rw [Multiset.card_sum] at hcard
  exact hcard

/-- The entries of all tasks. -/
def allEntries (w : PipelineWorld) : Entries := ⟨w.proj noted, w.proj fired, w.proj counted⟩

/-- **The accounts of all tasks together**, once the stages have returned. -/
theorem Running.discrepancy (h : Running config outside w)
    (hreg : config.eventManager.callbackRegistered = true) (hret : AllReturned config w) :
    ∃ gap, Discrepancy (allEntries w) gap (w.proj missed).length ∧
      (gap = 0 ↔ ∀ i, Unexceeded config w i) := by
  choose gap hdiff hgap using h.differs hreg hret
  let S : Finset TaskId := (w.log.map Prod.fst).toFinset
  have hS : ∀ e ∈ w.log, e.1 ∈ S := fun e he => by
    rw [List.mem_toFinset]
    exact List.mem_map_of_mem he
  refine ⟨∑ i ∈ S, gap i, ⟨fun c hc => ?_, fun c => ?_⟩, ?_⟩
  · have hreport : ∀ i ∈ S, total DeletionStatistics.adds (w.projOf noted i) c =
        total countAdds (w.projOf counted i) c + if c = .failed then gap i else 0 :=
      fun i _ => (hdiff i).report c hc
    show total DeletionStatistics.adds (w.proj noted) c = total countAdds (w.proj counted) c + _
    rw [total_proj _ _ hS, total_proj _ _ hS, Finset.sum_congr rfl hreport, Finset.sum_add_distrib]
    congr 1
    split_ifs <;> simp
  · have hevents : ∀ i ∈ S, total DeletionStatistics.adds (w.projOf noted i) c =
        total EventData.adds (w.projOf fired i) c +
          if c = .skipped then (w.projOf missed i).length else 0 :=
      fun i _ => (hdiff i).events c
    show total DeletionStatistics.adds (w.proj noted) c = total EventData.adds (w.proj fired) c + _
    rw [total_proj _ _ hS, total_proj _ _ hS, length_proj _ hS, Finset.sum_congr rfl hevents,
      Finset.sum_add_distrib]
    congr 1
    split_ifs <;> simp
  · rw [Finset.sum_eq_zero_iff]
    refine ⟨fun hzero i => ?_, fun hall i _ => (hgap i).mpr (hall i)⟩
    by_cases hi : i ∈ S
    · exact (hgap i).mp (hzero i hi)
    · -- a task that has done nothing has drawn no ticket
      refine .inl (allWithin_of_nil (List.flatMap_eq_nil_iff.mpr fun e he => ?_))
      exact absurd (hS _ (mem_traceOf.mp he)) hi

/-! ### The shared accounts -/

/-- An increment wraps a counter that held a total modulo 2^64. -/
theorem DeletionStatsReport.column_after {report : DeletionStatsReport} {n : Nat} {c : Column}
    (hc : c ≠ .skipped) (h : report.column c = n % 2 ^ 64) (e : Event) :
    (report.after e).column c = (n + total countAdds (counted e) c) % 2 ^ 64 := by
  have hlt : report.column c < 2 ^ 64 := by
    rw [h]
    exact Nat.mod_lt _ (Nat.two_pow_pos 64)
  rw [← Nat.mod_add_mod, ← h]
  rcases e with ⟨o, r⟩
  cases o
  -- the columns the increment is for wrap, the others stay
  case incrementDeleted bytes =>
    cases c with
    | deleted | bytes => rfl
    | failed => exact (Nat.mod_eq_of_lt hlt).symm
    | skipped => exact absurd rfl hc
  case incrementFailed =>
    cases c with
    | deleted | bytes => exact (Nat.mod_eq_of_lt hlt).symm
    | failed => rfl
    | skipped => exact absurd rfl hc
  all_goals exact (Nat.mod_eq_of_lt hlt).symm

/-- So does an event. -/
theorem PipelineStats.column_update {stats : PipelineStats} {n : Nat} {c : Column}
    (h : stats.column c = n % 2 ^ 64) (event : EventData) :
    (stats.update event).column c = (n + event.adds c) % 2 ^ 64 := by
  have hlt : stats.column c < 2 ^ 64 := by
    rw [h]
    exact Nat.mod_lt _ (Nat.two_pow_pos 64)
  rw [← Nat.mod_add_mod, ← h]
  rcases hevent : event.eventType <;> cases c <;>
    simp [update, EventData.adds, hevent, column] at hlt ⊢ <;> omega

theorem PipelineStats.column_foldl (events : List EventData) {stats : PipelineStats} {n : Nat}
    {c : Column} (h : stats.column c = n % 2 ^ 64) :
    (events.foldl update stats).column c = (n + total EventData.adds events c) % 2 ^ 64 := by
  induction events generalizing stats n with
  | nil => exact h
  | cons event events ih =>
    rw [List.foldl_cons, total_cons, ← Nat.add_assoc]
    exact ih (column_update h event)

section laws

variable (h : Running config outside w)

include h

/-- The report holds what was counted, up to wrapping. -/
theorem report_law {c : Column} (hc : c ≠ .skipped) :
    w.shared.report.column c = total countAdds (w.proj counted) c % 2 ^ 64 := by
  refine h.induction
    (P := fun w => w.shared.report.column c = total countAdds (w.proj counted) c % 2 ^ 64) ?_ ?_ ?_ ?_
  · cases c <;> rfl
  · intro u i o k r sh _ hP _ hh _
    rw [World.record_proj, World.put_proj, World.record_shared, hh.report, total_append]
    exact DeletionStatsReport.column_after hc hP _
  · intro u v _ hP hlog hsh _
    simpa [World.proj, hlog, hsh] using hP
  · exact fun u _ hP _ => hP

/-- The event manager's statistics hold what was triggered, up to wrapping. -/
theorem pipelineStats_law (c : Column) :
    w.shared.pipelineStats.column c = total EventData.adds (w.proj fired) c % 2 ^ 64 := by
  refine h.induction
    (P := fun w => w.shared.pipelineStats.column c = total EventData.adds (w.proj fired) c % 2 ^ 64)
    ?_ ?_ ?_ ?_
  · cases c <;> rfl
  · intro u i o k r sh _ hP _ hh _
    rw [World.record_proj, World.put_proj, World.record_shared, hh.pipelineStats, total_append]
    exact PipelineStats.column_foldl _ hP
  · intro u v _ hP hlog hsh _
    simpa [World.proj, hlog, hsh] using hP
  · exact fun u _ hP _ => hP

theorem statsClosed_law : w.shared.statsClosed = true ↔ ∃ x ∈ w.log, x.2.1 = .closeStatsSender :=
  flag_law h rfl (fun _ => rfl) fun _ _ _ _ hh => hh.statsClosed

end laws

/-- The statistics sent after the channel was closed. -/
def late (w : PipelineWorld) : List DeletionStatistics :=
  (w.log.dropWhile fun x => !decide (x.2.1 = .closeStatsSender)).flatMap fun x => noted x.2

/-- The channel got what was sent before it was closed. -/
theorem stats_law (h : Running config outside w) : w.shared.stats ++ late w = w.proj noted := by
  refine h.induction (P := fun w => w.shared.stats ++ late w = w.proj noted) rfl ?_ ?_ ?_
  · intro u i o k r sh hu hP _ hh _
    rw [World.record_proj, World.put_proj, World.record_shared, hh.stats, ← hP]
    by_cases hc : u.shared.statsClosed
    · obtain ⟨x, hx, hxc⟩ := (statsClosed_law hu).mp hc
      have hsome : u.log.dropWhile (fun x => !decide (x.2.1 = .closeStatsSender)) ≠ [] := fun hnil => by
        simpa [hxc] using List.dropWhile_eq_nil_iff.mp hnil x hx
      have hlate : late ((u.put i (.running (k r))).record i ⟨o, r⟩ sh) = late u ++ noted ⟨o, r⟩ := by
        simp [late, List.dropWhile_append, hsome]
      rw [if_pos hc, hlate, List.append_assoc]
    · have hnone : u.log.dropWhile (fun x => !decide (x.2.1 = .closeStatsSender)) = [] := by
        refine List.dropWhile_eq_nil_iff.mpr fun x hx => ?_
        simpa using fun hxc => hc ((statsClosed_law hu).mpr ⟨x, hx, hxc⟩)
      have hlate : late u = [] := by simp [late, hnone]
      have hlate' : late ((u.put i (.running (k r))).record i ⟨o, r⟩ sh) = [] := by
        simp only [late, World.record_log, World.put_log, List.dropWhile_append, hnone]
        by_cases ho : o = .closeStatsSender
        · subst ho
          rfl
        · simp [ho]
      rw [if_neg hc, hlate, hlate', List.append_nil, List.append_nil]
  · intro u v _ hP hlog hsh _
    simpa [late, World.proj, hlog, hsh] using hP
  · exact fun u _ hP _ => hP

/-! ### When the accounts agree -/

/-- The accounts agree, column by column. -/
structure Agree (s : Shared) : Prop where
  report : ∀ c, c ≠ .skipped → total DeletionStatistics.adds s.stats c = s.report.column c
  events : ∀ c, total DeletionStatistics.adds s.stats c = s.pipelineStats.column c

/-- Nothing gets in the way of the accounts: every statistic is sent before the
channel is closed, no object goes over `--max-delete` (but for a worker whose flush
before it fails), every lookup finds its object, and no total reaches 2^64. -/
structure Accountable (config : Config) (w : PipelineWorld) : Prop where
  onTime : late w = []
  within : ∀ i, Unexceeded config w i
  found : w.proj missed = []
  fits : ∀ c, total DeletionStatistics.adds (w.proj noted) c < 2 ^ 64

def exceededConfig : Config where
  workerSize := 1
  batchSize := 1
  maxDelete := some 1
  eventManager := { callbackRegistered := true }

def exceededScript : Script where
  listing := [.object (sampleObject "a" 3), .object (sampleObject "b" 4), .finished (.ok ())]

/-- The second object is over the limit. -/
def exceededRun : PipelineWorld :=
  exceededScript.run exceededConfig exceededScript.outside (roundRobin exceededConfig 40)

theorem exceededRun_running : Running exceededConfig exceededScript.outside exceededRun :=
  Script.running (fun _ _ _ => Script.agrees) _

theorem exceededRun_returned : AllReturned exceededConfig exceededRun := by
  rintro (_ | n | n) hs
  · exact ⟨.ok (), by decide +kernel⟩
  · exact absurd hs (by simp [StageId.exists, show filterCount exceededConfig = 0 from rfl])
  · obtain rfl : n = 0 := Nat.lt_one_iff.mp (of_decide_eq_true hs)
    exact ⟨.ok (), by decide +kernel⟩

def agreedConfig : Config where
  workerSize := 1
  batchSize := 1
  filterConfig := { largerSize := some 4 }
  eventManager := { callbackRegistered := true }

/-- One object is rejected and one deleted. -/
def agreedRun : PipelineWorld :=
  exceededScript.run agreedConfig exceededScript.outside (roundRobin agreedConfig 40)

theorem agreedRun_running : Running agreedConfig exceededScript.outside agreedRun :=
  Script.running (fun _ _ _ => Script.agrees) _

theorem agreedRun_returned : AllReturned agreedConfig agreedRun := by
  rintro (_ | n | n) hs
  · exact ⟨.ok (), by decide +kernel⟩
  · obtain rfl : n = 0 := Nat.lt_one_iff.mp (of_decide_eq_true hs)
    exact ⟨.ok (), by decide +kernel⟩
  · obtain rfl : n = 0 := Nat.lt_one_iff.mp (of_decide_eq_true hs)
    exact ⟨.ok (), by decide +kernel⟩

theorem agreedRun_accountable : Accountable agreedConfig agreedRun where
  onTime := by decide +kernel
  within _ := .inl fun _ _ => rfl
  found := by decide +kernel
  fits := by rintro (_ | _ | _ | _) <;> decide +kernel

end S3rm
