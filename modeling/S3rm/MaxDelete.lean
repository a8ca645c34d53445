/-
S3rm/MaxDelete.lean

The `--max-delete` cap.  `max_delete_cap` holds of every run: tickets are drawn
once each, and only an object whose ticket is within the limit is ever passed to
`Deleter::delete`.  With one worker the tickets are in arrival order, so that a
run in which nothing fails deletes exactly the first objects that get through the
worker's filters, and is cancelled exactly when there are more
(`max_delete_exact`).  A stage that fails drops what it has buffered, and cancels
the run however few objects there are (`max_delete_headFailure`).
-/
import S3rm.Deleter.Results
import S3rm.Schedule

namespace S3rm

open Conc Conc.Prog

variable {config : Config} {outside : Outside} {w : PipelineWorld} {A : Answers}
  {stage : Stage} {sel : S3Object → Bool} {known : Prop} {adm : List (S3Object × Nat)}
  {b b' : List S3Object} {o : S3Object} {t u v : Trace} {m : Nat}

/-! ### The cap -/

theorem withinLimit_iff (hm : config.maxDelete = some m) {k : Nat} :
    withinLimit config k ↔ k < m := by
  rw [withinLimit, hm]
  exact decide_eq_true_iff

/-- **The cap is never overshot**, in any run at any moment. -/
theorem max_delete_cap (h : Running config outside w) (hm : config.maxDelete = some m) :
    (w.proj begun).length ≤ m := by
  obtain ⟨adm, hbooks⟩ := running_books h fun e _ => Answers.agrees_unknown e
  have htickets : ((adm.filter fun a => withinLimit config a.2).map Prod.snd) ≤ Multiset.range m := by
    have hfilter : (adm.filter fun a => withinLimit config a.2).map Prod.snd =
        (adm.map Prod.snd).filter fun k => withinLimit config k := by
      rw [Multiset.filter_map]
      rfl
    rw [hfilter, hbooks.drawn, Multiset.le_iff_subset ((Multiset.nodup_range _).filter _)]
    intro k hk
    exact Multiset.mem_range.mpr ((withinLimit_iff hm).mp (Multiset.mem_filter.mp hk).2)
  calc (w.proj begun).length
      = Multiset.card (w.proj begun : Multiset S3Object) := (Multiset.coe_card _).symm
    _ ≤ Multiset.card ((adm.filter fun a => withinLimit config a.2).map Prod.fst) :=
        Multiset.card_le_card hbooks.passed
    _ = Multiset.card ((adm.filter fun a => withinLimit config a.2).map Prod.snd) := by simp
    _ ≤ m := by simpa using Multiset.card_le_card htickets

/-! ### A worker that returns empties its buffer -/

section worker

/-- Before any cancellation of its own, the events see the token live. -/
def OwnToken (t : Trace) : Prop :=
  ∀ t₁ e t₂, t = t₁ ++ e :: t₂ → Event.sawCancelled e → t₁.flatMap cancels ≠ []

theorem OwnToken.after (h : OwnToken (t ++ u)) (ht : t.flatMap cancels = []) : OwnToken u := by
  rintro u₁ e u₂ rfl he
  have := h (t ++ u₁) e u₂ (by simp) he
  simpa [ht] using this

theorem OwnToken.of_append (h : OwnToken (t ++ u)) : OwnToken t := by
  rintro t₁ e t₂ rfl he
  exact h t₁ e (t₂ ++ u) (by simp) he

/-- A flush that returns empties the buffer, unless it finds the token cancelled. -/
theorem Flush.emptied_of_own (h : Flush stage b u (.ok b')) (hwarn : stage.config.warnAsError = false)
    (hown : OwnToken u) : b' = [] := by
  refine h.emptied.resolve_right fun hc => ?_
  obtain ⟨u₁, u₂, rfl⟩ := List.append_of_mem hc
  have hlive := h.live hwarn
  rw [List.flatMap_append, List.append_eq_nil_iff] at hlive
  exact hown u₁ _ u₂ rfl trivial hlive.1

/-- Screening that does not fail does not cancel. -/
theorem screen_live {c : Bool} (h : Run (screen config o) t (.ok c)) : t.flatMap cancels = [] := by
  have hd := run_screen (A := {}) h fun e _ => Answers.agrees_unknown e
  cases c
  · exact hd.2.live
  · exact hd.2.live

/-- Processing an object cancels the token only when it is over the limit. -/
theorem Process.live (h : Process stage b o u (.ok b')) (hwarn : stage.config.warnAsError = false) :
    u.flatMap cancels = [] ∨ ∃ k ∈ u.flatMap tickets, withinLimit stage.config k = false := by
  generalize hr : (Except.ok b' : Except Error (List S3Object)) = r at h
  cases h with
  | failed | overFailed => cases hr
  | skipped hs => exact .inl (screen_live hs)
  | buffered hs within room => exact .inl (by simp [screen_live hs, cancels])
  | flushed hs within flush =>
    subst hr
    exact .inl (by simp [screen_live hs, cancels, flush.live hwarn])
  | @exceeded w z y k _ hs exceeded flush stop => exact .inr ⟨k, by simp [tickets], exceeded⟩

/-- It does so after the buffer is flushed. -/
theorem Process.emptied (h : Process stage b o u (.ok b')) (hwarn : stage.config.warnAsError = false)
    (hown : OwnToken u) (hc : u.flatMap cancels ≠ []) : b' = [] := by
  generalize hr : (Except.ok b' : Except Error (List S3Object)) = r at h
  cases h with
  | failed => cases hr
  | skipped hs => exact absurd (screen_live hs) hc
  | buffered hs within room => exact absurd (by simp [screen_live hs, cancels]) hc
  | flushed hs within flush =>
    subst hr
    exact absurd (by simp [screen_live hs, cancels, flush.live hwarn]) hc
  | overFailed => cases hr
  | @exceeded w z y k b'' hs exceeded flush stop =>
    cases hr
    have hquiet : (w ++ [(⟨.fetchAdd, k⟩ : Event)]).flatMap cancels = [] := by
      simp [screen_live hs, cancels]
    refine flush.emptied_of_own hwarn (OwnToken.of_append (u := y) (OwnToken.after ?_ hquiet))
    simpa using hown

theorem WorkerTurn.emptied (h : WorkerTurn stage b v (.inr (.ok ())))
    (hv : ∀ e ∈ v, A.agrees e) (hwarn : stage.config.warnAsError = false) (hown : OwnToken v)
    (hlost : v ≠ [⟨.select stage.receiver, .received none⟩, ⟨.isClosed stage.receiver, false⟩])
    (bal : Balanced stage (workerSelects stage.config A) A.Known b adm t) :
    ∃ adm', Balanced stage (workerSelects stage.config A) A.Known [] adm' (t ++ v) := by
  generalize hx : (Sum.inr (Except.ok ()) : List S3Object ⊕ Except Error Unit) = x at h
  cases h with
  | cancelled => exact absurd rfl (hown [] _ [] rfl trivial)
  | lost => exact absurd rfl hlost
  | @drained z r flush =>
    rcases r with e | b'
    · cases hx
    have hz : OwnToken z := OwnToken.after
      (t := [⟨.select stage.receiver, .received none⟩, ⟨.isClosed stage.receiver, true⟩])
      (by simpa using hown) rfl
    obtain rfl := flush.emptied_of_own hwarn hz
    exact ⟨adm, bal.flush flush⟩
  | @received o p v r _ process rest =>
    cases rest with
    | failed => cases hx
    | next => cases hx
    | @cancelled b' =>
      obtain ⟨adm', bal'⟩ := (process.ledger (fun e he => hv e (by simp [he])) bal).2 _ rfl
      have hp : p.flatMap cancels ≠ [] := by
        have := hown (⟨.select stage.receiver, .received (some o)⟩ :: p) ⟨.isCancelled, true⟩ []
          rfl trivial
        simpa [cancels] using this
      have hown' : OwnToken p := OwnToken.after (t := [⟨.select stage.receiver, .received (some o)⟩])
        (OwnToken.of_append (u := [⟨.isCancelled, true⟩]) (by simpa using hown)) rfl
      obtain rfl := process.emptied hwarn hown' hp
      have bal'' := bal'.append_quiet (u := [⟨.isCancelled, true⟩]) (by
        rintro e he
        obtain rfl := List.mem_singleton.mp he
        exact ⟨rfl, rfl, rfl⟩)
      exact ⟨adm', by simpa using bal''⟩

/-- **A worker that returned has an empty buffer**, if nobody else cancels. -/
theorem worker_emptied (h : Run (receiveAndDelete stage) t (.ok ())) (ht : ∀ e ∈ t, A.agrees e)
    (hwarn : stage.config.warnAsError = false) (hown : OwnToken t)
    (hrevived : ∀ t₁ t₂, t = t₁ ++ ⟨.isCancelled, false⟩ :: t₂ → t₁.flatMap cancels = [])
    (hlost : ∀ t₁, t ≠ t₁ ++
      [⟨.select stage.receiver, .received none⟩, ⟨.isClosed stage.receiver, false⟩]) :
    ∃ adm, Balanced stage (workerSelects stage.config A) A.Known [] adm t := by
  have hloop := run_of_loop
    (I := fun b u => u <+: t → u.flatMap cancels = [] ∧
      ∃ adm, Balanced stage (workerSelects stage.config A) A.Known b adm u)
    (fun _ => ⟨rfl, [], .nil⟩) ?_ h ht
  · obtain ⟨b, u, v, rfl, hI, hv, hok⟩ := hloop
    obtain ⟨hlive, adm, bal⟩ := hI (List.prefix_append u v)
    refine (run_workerTurn hv).emptied hok hwarn (hown.after hlive) (fun hv' => ?_) bal
    exact hlost u (by rw [hv'])
  · intro b u v b' hI hv hok hpre
    obtain ⟨-, adm, bal⟩ := hI ((List.prefix_append u v).trans hpre)
    have hturn := run_workerTurn hv
    refine ⟨?_, hturn.balanced hok bal⟩
    generalize hx : (Sum.inl b' : List S3Object ⊕ Except Error Unit) = x at hturn
    cases hturn with
    | cancelled | lost | drained => cases hx
    | @received o p y r _ process rest =>
      cases rest with
      | failed | cancelled => cases hx
      | next =>
        obtain ⟨z, rfl⟩ := hpre
        have := hrevived (u ++ ⟨.select stage.receiver, .received (some o)⟩ :: p) z (by simp)
        simpa [cancels] using this

/-- A turn that does not fail cancels the token only for an object over the limit. -/
theorem WorkerTurn.live {x : List S3Object ⊕ Except Error Unit} (h : WorkerTurn stage b u x)
    (hx : ∀ e, x ≠ .inr (.error e)) (hwarn : stage.config.warnAsError = false) :
    u.flatMap cancels = [] ∨ ∃ k ∈ u.flatMap tickets, withinLimit stage.config k = false := by
  cases h with
  | cancelled | lost => exact .inl rfl
  | @drained z r flush =>
    rcases r with e | b'
    · exact absurd rfl (hx e)
    · exact .inl (by simp [cancels, flush.live hwarn])
  | @received o p v r x process rest =>
    cases rest with
    | failed => exact absurd rfl (hx _)
    | cancelled | next =>
      refine (process.live hwarn).imp (fun hp => by simp [cancels, hp]) ?_
      rintro ⟨k, hk, hover⟩
      exact ⟨k, by simp only [List.flatMap_cons, List.flatMap_append, List.mem_append]
                   exact .inr (.inl hk), hover⟩

/-- A worker that returned cancelled the token only for an object over the limit. -/
theorem worker_cancels (h : Run (receiveAndDelete stage) t (.ok ()))
    (hwarn : stage.config.warnAsError = false) (hc : (⟨.cancel, ()⟩ : Event) ∈ t) :
    ∃ k ∈ t.flatMap tickets, withinLimit stage.config k = false := by
  have all : ∀ e ∈ t, (fun _ : Event => True) e := fun _ _ => trivial
  have append : ∀ {t u : Trace},
      (t.flatMap cancels = [] ∨ ∃ k ∈ t.flatMap tickets, withinLimit stage.config k = false) →
      (u.flatMap cancels = [] ∨ ∃ k ∈ u.flatMap tickets, withinLimit stage.config k = false) →
      ((t ++ u).flatMap cancels = [] ∨
        ∃ k ∈ (t ++ u).flatMap tickets, withinLimit stage.config k = false) := by
    simp only [List.flatMap_append, List.append_eq_nil_iff, List.mem_append]
    rintro t u (ht | ⟨k, hk, ht⟩) (hu | ⟨k', hk', hu⟩)
    · exact .inl ⟨ht, hu⟩
    · exact .inr ⟨k', .inr hk', hu⟩
    · exact .inr ⟨k, .inl hk, ht⟩
    · exact .inr ⟨k, .inl hk, ht⟩
  obtain ⟨_, u, v, rfl, hI, hv, -⟩ := run_of_loop
    (I := fun _ t => t.flatMap cancels = [] ∨
      ∃ k ∈ t.flatMap tickets, withinLimit stage.config k = false)
    (.inl rfl) (fun _ t u _ hI hu _ => append hI ((run_workerTurn hu).live (by simp) hwarn)) h all
  refine (append hI ((run_workerTurn hv).live (by simp) hwarn)).resolve_left fun hnil => ?_
  exact cancels_eq_nil.mp hnil hc

end worker

/-! ### Who cancels -/

/-- A listing that returned without an error lost no sub-listing. -/
theorem lister_live (h : Run (listTarget 0) t (.ok ())) : t.flatMap cancels = [] := by
  have all : ∀ e ∈ t, (fun _ : Event => True) e := fun _ _ => trivial
  have hloop := run_of_loop (I := fun failed t => failed = none → t.flatMap cancels = [])
    (fun _ => rfl) ?_ h all
  · obtain ⟨failed, u, v, rfl, hI, hv, -⟩ := hloop
    generalize hx : (Sum.inr (Except.ok ()) : Option Error ⊕ Except Error Unit) = x at hv
    cases run_listTurn hv with
    | object | subListing => cases hx
    | finished =>
      rcases failed with - | e
      · simp [hI rfl, cancels]
      · cases hx
  · rintro failed t u f' hI hu _ rfl
    generalize hx : (Sum.inl none : Option Error ⊕ Except Error Unit) = x at hu
    cases run_listTurn hu with
    | object =>
      cases hx
      simp [hI rfl, cancels]
    | subListing | finished => cases hx

/-- A supervisor cancels the token only for a stage that failed. -/
theorem supervisor_cancels {s : StageId} (h : Part (supervise config s) t)
    (hc : (⟨.cancel, ()⟩ : Event) ∈ t) :
    ∃ r, (⟨.join (.stage s), r⟩ : Event) ∈ t ∧ r ≠ .done (.ok ()) := by
  rcases h with rfl | ⟨r, u, rfl, hu⟩
  · simp at hc
  · refine ⟨r, List.mem_cons_self, ?_⟩
    rintro rfl
    obtain rfl : u = [] := hu
    simp at hc

/-- When every stage returned without an error, only workers have cancelled. -/
theorem cancel_of_ok (h : Running config outside w)
    (hok : ∀ s : StageId, s.exists config → w.outcome (.stage s) = some (.done (.ok ())))
    {i : TaskId} (hi : (i, (⟨.cancel, ()⟩ : Event)) ∈ w.log) : i ∈ workers config := by
  have hmem := mem_traceOf.mpr hi
  have hstart := h.started hi
  have huse := h.mayUse hi
  rcases i with (_ | n | n) | s | _ | _
  · exact absurd hmem (cancels_eq_nil.mp (lister_live (h.run rfl (hok .lister rfl))))
  · have hn := StageId.filter_started.mp hstart
    obtain ⟨kind, hprog, -⟩ := filter_program (A := {}) hn
    exact absurd hmem (cancels_eq_nil.mp (filter_live (h.run hprog
      (hok (.filter n) (by simpa [StageId.exists] using hn)))))
  · exact mem_workers.mpr ⟨n, StageId.worker_started.mp hstart, rfl⟩
  · simp only [TaskId.started, TaskId.program] at hstart
    split_ifs at hstart with hs
    · have hprog : TaskId.program config (.supervisor s) = some (supervise config s) := by
        simp [TaskId.program, hs]
      obtain ⟨r, hr, hne⟩ := supervisor_cancels (h.part hprog) hmem
      have := join_law h (mem_traceOf.mp hr)
      rw [hok s hs] at this
      exact absurd (Option.some.inj this).symm hne
    · cases hstart
  · simp [TaskId.mayUse] at huse
  · simp [TaskId.mayUse, Op.isCompleting, Op.isNotice] at huse

/-! ### One worker -/

/-- Where the tickets are 0, 1, 2, …, the first objects are within the limit. -/
theorem allowed_eq_take (hm : config.maxDelete = some m)
    (h : adm.map Prod.snd = List.range adm.length) :
    allowed config adm = (adm.map Prod.fst).take m := by
  induction adm using List.reverseRecOn with
  | nil => simp [allowed]
  | append_singleton adm a ih =>
    rcases a with ⟨o, k⟩
    have hsplit : adm.map Prod.snd ++ [k] = List.range adm.length ++ [adm.length] := by
      simpa [List.range_succ] using h
    obtain ⟨hinit, hlast⟩ := List.append_inj' hsplit rfl
    obtain rfl : k = adm.length := by simpa using hlast
    rw [allowed_append, ih hinit, List.map_append, List.take_append, List.length_map]
    congr 1
    by_cases hk : withinLimit config adm.length
    · have := (withinLimit_iff hm).mp hk
      rw [if_pos hk, List.map_cons, List.map_nil, List.take_of_length_le]
      simp only [List.length_singleton]
      omega
    · have : m ≤ adm.length := not_lt.mp fun hlt => hk ((withinLimit_iff hm).mpr hlt)
      rw [if_neg hk, Nat.sub_eq_zero_of_le this, List.take_zero]

/-- What only the one worker contributes is what it contributed. -/
theorem proj_worker {β : Type} {f : Event → List β} (hone : config.workerSize = 1)
    (hf : ∀ i e, (i, e) ∈ w.log → i ∉ workers config → f e = []) :
    w.proj f = w.projOf f (.stage (.worker 0)) := by
  refine World.proj_eq_projOf fun e he hi => hf e.1 e.2 he fun hw => hi ?_
  obtain ⟨n, hn, hi'⟩ := mem_workers.mp hw
  obtain rfl : n = 0 := by omega
  exact hi'

/-- **One worker, and no stage fails**: the objects passed to `Deleter::delete`
are the first ones that got through its filters, up to the limit, and the run is
cancelled exactly when there were more. -/
theorem max_delete_one_worker (h : Running config outside w) (hm : config.maxDelete = some m)
    (hone : config.workerSize = 1) (hmay : ¬ outside.mayCancel) (hwarn : config.warnAsError = false)
    (hdry : config.dryRun = false) (hK : A.Known)
    (hA : ∀ e, outside.admits e → A.agrees e)
    (hok : ∀ s : StageId, s.exists config → w.outcome (.stage s) = some (.done (.ok ()))) :
    w.proj begun = ((w.proj (got (filterCount config))).filter (workerSelects config A)).take m ∧
      (w.shared.cancelled = true ↔
        m < ((w.proj (got (filterCount config))).filter (workerSelects config A)).length) := by
  have hsize : (0 : Nat) < config.workerSize := by omega
  have hout := hok (.worker 0) (by simpa [StageId.exists] using hsize)
  have hrun := h.run (worker_program hsize) hout
  have only : ∀ i r, (i, (⟨.cancel, r⟩ : Event)) ∈ w.log → i = .stage (.worker 0) := by
    intro i r hi
    obtain ⟨n, hn, rfl⟩ := mem_workers.mp (cancel_of_ok h hok hi)
    obtain rfl : n = 0 := by omega
    rfl
  obtain ⟨adm, bal⟩ := worker_emptied (A := A) hrun (fun e he => hA e (h.admits _ e he))
    hwarn (fun t₁ e t₂ ht he => saw_own_cancel h hmay only ht he) (fun t₁ t₂ ht => not_revived h ht)
    (fun t₁ ht => worker_not_lost h ht)
  have hgot : (w.proj (got (filterCount config))).filter (workerSelects config A) =
      adm.map Prod.fst := by
    rw [proj_worker hone fun _ _ => got_of_not_worker h]
    exact (bal.complete hK).symm
  have hbegun : w.proj begun = allowed config adm := by
    rw [proj_worker hone fun _ _ => begun_of_not_worker h]
    rw [World.projOf, ← List.append_nil ((traceOf _ w.log).flatMap begun)]
    exact bal.exact hdry
  have hdrawn : adm.map Prod.snd = List.range w.shared.deleteCounter := by
    rw [← ticket_law h, proj_worker hone fun _ _ => tickets_of_not_worker h]
    exact bal.drawn
  have hlen : adm.length = w.shared.deleteCounter := by
    simpa using congrArg List.length hdrawn
  rw [hgot, hbegun, List.length_map]
  refine ⟨allowed_eq_take hm (hlen.symm ▸ hdrawn), fun hcan => ?_, fun hlt => ?_⟩
  · rcases cancelled_law h hcan with hm' | ⟨i, r, hi⟩
    · exact absurd hm' hmay
    · obtain rfl := only i r hi
      obtain ⟨k, hk, hover⟩ := worker_cancels hrun hwarn (mem_traceOf.mpr hi)
      rw [← bal.drawn, hdrawn, List.mem_range, ← hlen] at hk
      have hover : withinLimit config k = false := hover
      have : ¬ k < m := fun hkm => by simp [(withinLimit_iff hm).mpr hkm] at hover
      omega
  · rcases worker_within hrun with hk | hcancel
    · have hmem : m ∈ (traceOf (.stage (.worker 0)) w.log).flatMap tickets := by
        rw [← bal.drawn, hdrawn, ← hlen]
        exact List.mem_range.mpr hlt
      exact absurd ((withinLimit_iff hm).mp (hk m hmem)) (lt_irrefl m)
    · exact token_law h (mem_traceOf.mp hcancel) (.inr rfl)

/-- **The `--max-delete` law.**  The cap holds in every run at any moment; with
one worker, no cancellation from outside, no dry run, `warn_as_error` off and all
stages returning without an error, the first objects that get through the
worker's filters are deleted, and the run is cancelled exactly when there are
more than the limit. -/
theorem max_delete_law (h : Running config outside w) (hm : config.maxDelete = some m) :
    (w.proj begun).length ≤ m ∧
      (config.workerSize = 1 → ¬ outside.mayCancel → config.warnAsError = false →
        config.dryRun = false → A.Known → (∀ e, outside.admits e → A.agrees e) →
        (∀ s : StageId, s.exists config → w.outcome (.stage s) = some (.done (.ok ()))) →
        w.proj begun =
            ((w.proj (got (filterCount config))).filter (workerSelects config A)).take m ∧
          (w.shared.cancelled = true ↔ m <
            ((w.proj (got (filterCount config))).filter (workerSelects config A)).length)) :=
  ⟨max_delete_cap h hm, fun hone hmay hwarn hdry hK hA hok =>
    max_delete_one_worker h hm hone hmay hwarn hdry hK hA hok⟩

/-- Two objects, of which one may be deleted. -/
def cappedConfig : Config where
  workerSize := 1
  batchSize := 2
  maxDelete := some 1

def cappedScript : Script where
  listing := [.object (sampleObject "a" 3), .object (sampleObject "b" 5), .finished (.ok ())]

def cappedRun : PipelineWorld :=
  cappedScript.run cappedConfig cappedScript.outside (roundRobin cappedConfig 40)

theorem cappedRun_running : Running cappedConfig cappedScript.outside cappedRun :=
  Script.running (fun _ _ _ => Script.agrees) _

theorem cappedRun_ok (s : StageId) (hs : s.exists cappedConfig) :
    cappedRun.outcome (.stage s) = some (.done (.ok ())) := by
  rcases s with - | n | n
  · decide +kernel
  · exact absurd hs (by simp [StageId.exists, show filterCount cappedConfig = 0 from rfl])
  · have hn : n < 1 := of_decide_eq_true hs
    obtain rfl : n = 0 := by omega
    decide +kernel

/-- `max_delete_law` on a run that reaches the limit. -/
theorem max_delete_law_cappedRun :
    (cappedRun.proj begun = [sampleObject "a" 3] ∧ cappedRun.shared.cancelled = true) ∧
      (cappedRun.proj begun).length ≤ 1 ∧
      cappedRun.proj begun = ((cappedRun.proj (got 0)).filter
        (workerSelects cappedConfig cappedScript.answers)).take 1 :=
  have h := max_delete_law (A := cappedScript.answers) cappedRun_running rfl
  ⟨by decide +kernel, h.1,
    (h.2 rfl not_false rfl rfl cappedScript.known (fun _ h => h) cappedRun_ok).1⟩

/-! ### A stage that fails -/

/-- The delete requests of the backend succeed. -/
def DeletesSucceed : Event → Prop
  | ⟨.deleteObject _ _ _, .error _⟩ | ⟨.deleteObjects _, .error _⟩ => False
  | _ => True

/-- Two objects, HeadObject failing on the second, and a limit of one. -/
def headFailureConfig : Config where
  workerSize := 1
  batchSize := 2
  maxDelete := some 1
  filterConfig := { includeContentTypeRegex := some ⟨fun s => .ok (s == "text")⟩ }

def headFailureScript : Script where
  listing := [.object (sampleObject "a" 3), .object (sampleObject "b" 5), .finished (.ok ())]
  head key _ := if key = "b" then .error (.headObject false "InternalError") else .ok ⟨some "text", none⟩

/-- Its answers, with delete requests that succeed. -/
def headFailureOutside : Outside where
  admits e := headFailureScript.answers.agrees e ∧ DeletesSucceed e
  mayCancel := False

def headFailureRun : PipelineWorld :=
  headFailureScript.run headFailureConfig headFailureOutside (roundRobin headFailureConfig 40)

theorem headFailureRun_running : Running headFailureConfig headFailureOutside headFailureRun := by
  refine Script.running ?_ _
  intro w o r h
  refine ⟨Script.agrees h, ?_⟩
  cases o
  case deleteObject | deleteObjects =>
    obtain rfl := Option.some.inj h
    trivial
  all_goals trivial

/-- A failed HeadObject call cancels a run below its limit, and what the worker
had buffered is not deleted, though every delete request would succeed. -/
theorem max_delete_headFailure : ¬ ∀ (config : Config) (outside : Outside) (A : Answers)
    (w : PipelineWorld) (m : Nat), Running config outside w → config.maxDelete = some m →
      config.workerSize = 1 → ¬ outside.mayCancel → (∀ e, outside.admits e → DeletesSucceed e) →
      config.warnAsError = false → config.dryRun = false → A.Known →
      (∀ e, outside.admits e → A.agrees e) → Over config w →
      w.proj begun =
          ((w.proj (got (filterCount config))).filter (workerSelects config A)).take m ∧
        (w.shared.cancelled = true ↔ m <
          ((w.proj (got (filterCount config))).filter (workerSelects config A)).length) := by
  intro h
  have := (h _ _ _ _ 1 headFailureRun_running rfl rfl not_false (fun _ h => h.2) rfl rfl
    headFailureScript.known (fun _ h => h.1) (by decide +kernel)).1
  revert this
  decide +kernel

end S3rm
