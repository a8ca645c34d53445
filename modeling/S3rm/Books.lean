/-
S3rm/Books.lean

The books of all workers together.  An admission is a selected object with the
ticket it drew; over the whole pipeline (`running_books`) the tickets are the
values the delete counter has taken, each once, the admitted objects are objects
the workers received, and what was passed to `Deleter::delete` are admitted
objects whose ticket is within the limit.  When a clean run has ended, the books
balance (`books_closed`).
-/
import Mathlib.Algebra.Order.BigOperators.Group.Finset
import S3rm.Stream

namespace S3rm

open Conc Conc.Prog

variable {config : Config} {outside : Outside} {w : PipelineWorld} {A : Answers} {t : Trace}

/-! ### The end of a run -/

/-- The terminator returns when it has found its channel ended. -/
theorem run_terminate {c : Nat} (h : Run (terminate c) t (.ok ())) : ∃ e ∈ t, Event.isEnd c e := by
  obtain ⟨_, u, v, rfl, -, hv⟩ := run_loop.mp h
  obtain ⟨r, v, rfl, hr⟩ := run_ask_bind.mp hv
  rcases r with - | o
  · exact ⟨_, List.mem_append_right _ List.mem_cons_self, rfl⟩
  · obtain ⟨-, hr⟩ := hr
    cases hr

/-- `run()` has joined the terminator when it returns. -/
theorem main_joined {r : Except Error Unit} (h : Run (runStarted config) t r) :
    ∃ r', (⟨.join .terminator, r'⟩ : Event) ∈ t := by
  obtain ⟨u, _, v, rfl, hu, -⟩ := run_bind.mp h
  obtain ⟨r', u', rfl, -⟩ := run_perform_bind.mp hu
  exact ⟨r', by simp⟩

/-- `run()` has returned. -/
def Finished (w : PipelineWorld) : Prop := (w.outcome .main).isSome

instance (w : PipelineWorld) : Decidable (Finished w) :=
  inferInstanceAs (Decidable ((w.outcome .main).isSome = true))

/-- When the terminator of a clean run has ended, all stages have. -/
theorem ended_of_terminated (h : Running config outside w) (hsize : 0 < config.workerSize)
    (hclean : Clean w) {o : Outcome (Except Error Unit)} (hterm : w.outcome .terminator = some o) :
    Ended config w := by
  rw [hclean.returned _ _ hterm] at hterm
  obtain ⟨e, he, hend⟩ := run_terminate (h.run rfl hterm)
  have hworkers := (drained_law h (mem_traceOf.mp he) hend).1
  rw [senders_last] at hworkers
  -- The channels before the workers are drained one by one, from the last to the first.
  have hdrained : ∀ c ≤ filterCount config, Drained config w c := by
    intro c hc
    induction hc using Nat.decreasingInduction with
    | self =>
      refine receiver_ended h (fun e _ => Answers.agrees_unknown e) hsize hclean le_rfl
        (fun hc i e he => ?_) (by rwa [receivers_workers])
      omega
    | of_succ c hc ih =>
      refine receiver_ended h (fun e _ => Answers.agrees_unknown e) hsize hclean (Nat.le_of_lt hc)
        (fun hc i e he => unclosed_of_clean h (fun e _ => Answers.agrees_unknown e) hsize hclean hc he)
        ?_
      rw [receivers_filter hc, ← senders_filter hc]
      exact ih.1
  intro s hs
  rcases s with - | n | n
  · exact (hdrained 0 (Nat.zero_le _)).1 _ (by simp [senders_zero])
  · have hn : n < filterCount config := by simpa [StageId.exists] using hs
    exact (hdrained (n + 1) hn).1 _ (by simp [senders_filter hn])
  · exact hworkers _ (mem_workers.mpr ⟨n, by simpa [StageId.exists] using hs, rfl⟩)

/-- When a clean run is over, all its stages have ended. -/
theorem ended_of_finished (h : Running config outside w) (hsize : 0 < config.workerSize)
    (hclean : Clean w) (hfin : Finished w) : Ended config w := by
  obtain ⟨o, ho⟩ := Option.isSome_iff_exists.mp hfin
  obtain rfl := hclean.returned _ o ho
  obtain ⟨r', hr'⟩ := main_joined (h.run rfl ho)
  exact ended_of_terminated h hsize hclean (join_law h (mem_traceOf.mp hr'))

/-! ### All workers -/

section workers

theorem tickets_of_not_worker (h : Running config outside w) {i : TaskId} {e : Event}
    (he : (i, e) ∈ w.log) (hi : i ∉ workers config) : tickets e = [] := by
  have hs := h.started he
  have hu := h.mayUse he
  rcases e with ⟨o, r⟩
  cases o
  case fetchAdd =>
    rcases i with (_ | n | n) | s | _ | _
    case stage.worker => exact absurd (mem_workers.mpr ⟨n, StageId.worker_started.mp hs, rfl⟩) hi
    all_goals
      simp [TaskId.mayUse, Op.isListing, Op.isFiltering, Op.isNotice, Op.isSupervising,
        Op.isCompleting] at hu
  all_goals rfl

theorem begun_of_not_worker (h : Running config outside w) {i : TaskId} {e : Event}
    (he : (i, e) ∈ w.log) (hi : i ∉ workers config) : begun e = [] := by
  have hs := h.started he
  have hu := h.mayUse he
  rcases e with ⟨o, r⟩
  cases o
  case beginDelete =>
    rcases i with (_ | n | n) | s | _ | _
    case stage.worker => exact absurd (mem_workers.mpr ⟨n, StageId.worker_started.mp hs, rfl⟩) hi
    all_goals
      simp [TaskId.mayUse, Op.isListing, Op.isFiltering, Op.isNotice, Op.isSupervising,
        Op.isCompleting] at hu
  all_goals rfl

/-- What only workers contribute is what the workers contributed. -/
theorem coe_proj_workers {β : Type} {f : Event → List β}
    (hf : ∀ i e, (i, e) ∈ w.log → i ∉ workers config → f e = []) :
    (w.proj f : Multiset β) =
      ∑ n ∈ Finset.range config.workerSize, (w.projOf f (.stage (.worker n)) : Multiset β) := by
  have hinj : Function.Injective fun n => TaskId.stage (.worker n) := fun a b h => by simpa using h
  rw [World.coe_proj (S := (Finset.range config.workerSize).map ⟨_, hinj⟩), Finset.sum_map]
  · rfl
  · intro e he hi
    refine hf e.1 e.2 he fun hw => hi ?_
    obtain ⟨n, hn, hi'⟩ := mem_workers.mp hw
    exact Finset.mem_map.mpr ⟨n, Finset.mem_range.mpr hn, hi'.symm⟩

end workers

/-! ### The books -/

theorem filter_sum {ι α : Type} (p : α → Prop) [DecidablePred p] (S : Finset ι)
    (f : ι → Multiset α) : (∑ i ∈ S, f i).filter p = ∑ i ∈ S, (f i).filter p :=
  map_sum (⟨⟨Multiset.filter p, Multiset.filter_zero p⟩, Multiset.filter_add p⟩ :
    Multiset α →+ Multiset α) f S

theorem map_sum_multiset {ι α β : Type} (g : α → β) (S : Finset ι) (f : ι → Multiset α) :
    (∑ i ∈ S, f i).map g = ∑ i ∈ S, (f i).map g :=
  map_sum (Multiset.mapAddMonoidHom g) f S

/-- The books of all workers together. -/
structure Books (config : Config) (sel : S3Object → Bool) (adm : Multiset (S3Object × Nat))
    (w : PipelineWorld) : Prop where
  drawn : adm.map Prod.snd = Multiset.range w.shared.deleteCounter
  admitted : adm.map Prod.fst ≤
    (w.proj (got (filterCount config)) : Multiset S3Object).filter (sel ·)
  passed : (w.proj begun : Multiset S3Object) ≤
    (adm.filter fun a => withinLimit config a.2).map Prod.fst

/-- The stage of every worker. -/
def workerStage (config : Config) : Stage := ⟨config, filterCount config, filterCount config + 1⟩

theorem worker_program {n : Nat} (hn : n < config.workerSize) :
    TaskId.program config (.stage (.worker n)) = some (receiveAndDelete (workerStage config)) := by
  simp [TaskId.program, StageId.program, hn, workerStage]

theorem got_of_not_worker (h : Running config outside w) {i : TaskId} {e : Event}
    (he : (i, e) ∈ w.log) (hi : i ∉ workers config) : got (filterCount config) e = [] :=
  got_of_not_receiver h he (by rwa [receivers_workers])

/-- The books of the workers add up. -/
theorem books_of_ledgers (h : Running config outside w) {sel : S3Object → Bool}
    {adm : Nat → List (S3Object × Nat)}
    (hadm : ∀ n < config.workerSize,
      Ledger (workerStage config) sel (adm n) (traceOf (.stage (.worker n)) w.log)) :
    Books config sel (∑ n ∈ Finset.range config.workerSize, (adm n : Multiset (S3Object × Nat))) w
    where
  drawn := by
    rw [map_sum_multiset, ← Multiset.coe_range, ← ticket_law h,
      coe_proj_workers fun _ _ => tickets_of_not_worker h]
    refine Finset.sum_congr rfl fun n hn => ?_
    rw [Multiset.map_coe, (hadm n (Finset.mem_range.mp hn)).drawn]
    rfl
  admitted := by
    rw [map_sum_multiset, coe_proj_workers fun _ _ => got_of_not_worker h, filter_sum]
    refine Finset.sum_le_sum fun n hn => ?_
    rw [Multiset.map_coe, Multiset.filter_coe, Multiset.coe_le]
    simpa [World.projOf, workerStage] using (hadm n (Finset.mem_range.mp hn)).admitted.subperm
  passed := by
    rw [filter_sum, map_sum_multiset, coe_proj_workers fun _ _ => begun_of_not_worker h]
    refine Finset.sum_le_sum fun n hn => ?_
    rw [Multiset.filter_coe, Multiset.map_coe, Multiset.coe_le]
    simpa [World.projOf, workerStage, allowed] using
      (hadm n (Finset.mem_range.mp hn)).passed.subperm

/-- **The books at every moment of a run.** -/
theorem running_books (h : Running config outside w)
    (hA : ∀ e, outside.admits e → A.agrees e) :
    ∃ adm, Books config (workerSelects config A) adm w := by
  have hworker : ∀ n, ∃ adm, n < config.workerSize →
      Ledger (workerStage config) (workerSelects config A) adm
        (traceOf (.stage (.worker n)) w.log) := by
    intro n
    by_cases hn : n < config.workerSize
    · obtain ⟨adm, hadm⟩ := worker_ledger (A := A) (h.part (worker_program hn))
        fun e he => hA e (h.admits _ e he)
      exact ⟨adm, fun _ => hadm⟩
    · exact ⟨[], fun hn' => absurd hn' hn⟩
  choose adm hadm using hworker
  exact ⟨_, books_of_ledgers h hadm⟩

/-- **The books at the end of a clean run**: every selected object was admitted
within the limit and, without dry run, passed on. -/
theorem books_closed (h : Running config outside w) (hK : A.Known)
    (hA : ∀ e, outside.admits e → A.agrees e) (hclean : Clean w) (hended : Ended config w)
    (hdry : config.dryRun = false) :
    (w.proj begun : Multiset S3Object) =
      (w.proj (got (filterCount config)) : Multiset S3Object).filter (workerSelects config A ·) := by
  rw [coe_proj_workers fun _ _ => begun_of_not_worker h,
    coe_proj_workers fun _ _ => got_of_not_worker h, filter_sum]
  refine Finset.sum_congr rfl fun n hn => ?_
  have hn : n < config.workerSize := Finset.mem_range.mp hn
  have hout := hended.ok hclean (s := .worker n) (by simpa [StageId.exists] using hn)
  obtain ⟨adm, bal, -⟩ := worker_ended h hA hout hclean.live
  have hwithin : ∀ a ∈ adm, withinLimit config a.2 := by
    rcases worker_within (h.run (worker_program hn) hout) with hk | hcancel
    · intro a ha
      refine hk a.2 ?_
      rw [← bal.drawn]
      exact List.mem_map_of_mem ha
    · have := token_law h (mem_traceOf.mp hcancel) (.inr rfl)
      simp [hclean.live] at this
  have hpassed : w.projOf begun (.stage (.worker n)) = adm.map Prod.fst := by
    have := bal.exact hdry
    rwa [List.append_nil, allowed, List.filter_eq_self.mpr hwithin] at this
  rw [hpassed, bal.complete hK]
  simp [World.projOf]

end S3rm
