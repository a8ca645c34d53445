/-
S3rm/Stream.lean

The stream of objects from the listing to the workers.  With `n` filter stages
there are `n + 1` channels before the workers, and on each

    stream_sound      at any moment, what was sent is a sublist of the listed
                      objects that pass the filters so far
    stream_complete   in a clean run whose stages have ended, it is exactly
                      these, in their order

A run is clean when every task that has ended returned without an error and
the token is not cancelled.
-/
import S3rm.PipelineLaws

namespace S3rm

open Conc Conc.Prog

variable {config : Config} {outside : Outside} {w : PipelineWorld} {A : Answers} {t u : Trace}

/-! ### The lister -/

/-- The turns of the lister, with the first failed sub-listing so far. -/
inductive ListTurn (failed : Option Error) : Trace → Option Error ⊕ Except Error Unit → Prop
  | object {o : S3Object} {sent : Bool} :
      ListTurn failed [⟨.nextListed, .object o⟩, ⟨.send 0 o, sent⟩] (.inl failed)
  | subListing {e : Error} :
      ListTurn failed [⟨.nextListed, .subListingFailed e⟩, ⟨.cancel, ()⟩]
        (.inl (some (failed.getD e)))
  | finished {result : Except Error Unit} :
      ListTurn failed [⟨.nextListed, .finished result⟩] (.inr ((failed.map .error).getD result))

theorem run_listTurn {failed : Option Error} {x : Option Error ⊕ Except Error Unit}
    (h : Turn (listTurn 0) failed u x) : ListTurn failed u x := by
  unfold Turn listTurn at h
  obtain ⟨step, u, rfl, hu⟩ := run_ask_bind.mp h
  rcases step with o | e | result
  · obtain ⟨b, _, rfl, rfl, hx⟩ := run_ask_bind.mp hu
    rcases x with _ | (_ | _) <;> cases hx
    exact .object
  · obtain ⟨_, _, rfl, rfl, hx⟩ := run_ask_bind.mp hu
    rcases x with _ | (_ | _) <;> cases hx
    exact .subListing
  · rcases failed with - | e
    · rcases run_ofResult_bind.mp hu with ⟨e, rfl, rfl, hx⟩ | ⟨a, rfl, rfl, hx⟩ <;>
        rcases x with _ | (_ | _) <;> cases hx <;> exact .finished
    · obtain ⟨rfl, hx⟩ := hu
      rcases x with _ | (_ | _) <;> cases hx
      exact .finished

/-- The lister sends what is listed, in order, and may lose some. -/
theorem part_listTarget (h : Part (listTarget 0) t) :
    (t.flatMap (sentTo 0)).Sublist (t.flatMap listed) := by
  refine part_of_turns (P := fun t => (t.flatMap (sentTo 0)).Sublist (t.flatMap listed))
    (fun o => ⟨(Resp.nonempty o).some, trivial⟩) (fun failed => (listTurn_straight failed).loopFree)
    (by simp) ?_ h (fun _ _ => trivial)
  intro _ t u x hP hu _ v hv
  have quiet : v.flatMap (sentTo 0) = [] →
      ((t ++ v).flatMap (sentTo 0)).Sublist ((t ++ v).flatMap listed) := by
    intro hs
    simpa [hs] using hP.trans (List.sublist_append_left _ _)
  have silent : u.flatMap (sentTo 0) = [] → v.flatMap (sentTo 0) = [] := by
    obtain ⟨w, rfl⟩ := hv
    simp only [List.flatMap_append, List.append_eq_nil_iff]
    exact fun h => h.1
  cases run_listTurn hu with
  | @object o sent =>
    rcases prefix_middle (w := [(⟨.nextListed, .object o⟩ : Event)]) (z := []) hv with
      hv | ⟨z, hz, rfl⟩
    · refine quiet (List.flatMap_eq_nil_iff.mpr fun e he => ?_)
      obtain rfl := List.mem_singleton.mp (hv.subset he)
      rfl
    · obtain rfl := List.prefix_nil.mp hz
      cases sent
      · exact quiet (by simp [sentTo])
      · simpa [sentTo, listed] using hP.append_right [o]
  | subListing => exact quiet (silent rfl)
  | finished => exact quiet (silent rfl)

/-- A lister that never finds its channel closed sends everything listed. -/
theorem run_listTarget {r : Except Error Unit} (h : Run (listTarget 0) t r) :
    t.flatMap (sentTo 0) = t.flatMap listed ∨ ∃ e ∈ t, Event.sawClosed 0 e := by
  have turn : ∀ {failed t u x}, Turn (listTurn 0) failed u x →
      (t.flatMap (sentTo 0) = t.flatMap listed ∨ ∃ e ∈ t, Event.sawClosed 0 e) →
      ((t ++ u).flatMap (sentTo 0) = (t ++ u).flatMap listed ∨ ∃ e ∈ t ++ u, Event.sawClosed 0 e) := by
    rintro failed t u x hu (ht | ⟨e, he, hc⟩)
    · cases run_listTurn hu with
      | @object o sent =>
        cases sent with
        | true => exact .inl (by simp [ht, sentTo, listed])
        | false => exact .inr ⟨⟨.send 0 o, false⟩, by simp, rfl⟩
      | subListing => exact .inl (by simp [ht, sentTo, listed])
      | finished => exact .inl (by simp [ht, sentTo, listed])
    · exact .inr ⟨e, List.mem_append_left _ he, hc⟩
  have all : ∀ e ∈ t, (fun _ : Event => True) e := fun _ _ => trivial
  obtain ⟨_, u, v, rfl, hI, hv, -⟩ := run_of_loop
    (I := fun _ t => t.flatMap (sentTo 0) = t.flatMap listed ∨ ∃ e ∈ t, Event.sawClosed 0 e)
    (.inl rfl) (fun _ _ _ _ hI hu _ => turn hu hI) h all
  exact turn hv hI

/-! ### Whose events these are -/

section owners

variable (h : Running config outside w)

include h

theorem sentTo_of_not_sender {i : TaskId} {e : Event} {c : Nat} (he : (i, e) ∈ w.log)
    (hi : i ∉ senders config c) : sentTo c e = [] := by
  have hs := h.started he
  have hu := h.mayUse he
  rcases e with ⟨o, r⟩
  cases o
  case send chan x =>
    by_cases hc : chan = c
    · subst hc
      exact absurd (mem_senders hs hu) hi
    · cases r <;> simp [sentTo, hc]
  all_goals rfl

theorem got_of_not_receiver {i : TaskId} {e : Event} {c : Nat} (he : (i, e) ∈ w.log)
    (hi : i ∉ receivers config c) : got c e = [] := by
  have hs := h.started he
  have hu := h.mayUse he
  rcases e with ⟨o, r⟩
  cases o
  case recv chan =>
    by_cases hc : chan = c
    · subst hc
      exact absurd (mem_receivers hs hu (.inl rfl)) hi
    · rcases r with - | x <;> simp [got, hc]
  case select chan =>
    by_cases hc : chan = c
    · subst hc
      exact absurd (mem_receivers hs hu (.inr rfl)) hi
    · rcases r with (- | x) | - <;> simp [got, hc]
  all_goals rfl

theorem listed_of_not_lister {i : TaskId} {e : Event} (he : (i, e) ∈ w.log)
    (hi : i ≠ .stage .lister) : listed e = [] := by
  have hu := h.mayUse he
  rcases e with ⟨o, r⟩
  cases o
  case nextListed =>
    rcases i with (_ | n | n) | s | _ | _ <;>
      simp [TaskId.mayUse, Op.isFiltering, Op.isNotice, Op.isWorking, Op.isScreening, Op.isReport,
        Op.isFlush, Op.isFinish, Op.isBackend, Op.isSupervising, Op.isCompleting] at hu hi
  all_goals rfl

theorem proj_sentTo_filter {n : Nat} (hn : n < filterCount config) :
    w.proj (sentTo (n + 1)) = w.projOf (sentTo (n + 1)) (.stage (.filter n)) :=
  World.proj_eq_projOf fun e he hi => sentTo_of_not_sender h (i := e.1) he (by
    simpa [senders_filter hn] using hi)

theorem proj_got_filter {n : Nat} (hn : n < filterCount config) :
    w.proj (got n) = w.projOf (got n) (.stage (.filter n)) :=
  World.proj_eq_projOf fun e he hi => got_of_not_receiver h (i := e.1) he (by
    simpa [receivers_filter hn] using hi)

theorem proj_sentTo_lister : w.proj (sentTo 0) = w.projOf (sentTo 0) (.stage .lister) :=
  World.proj_eq_projOf fun e he hi => sentTo_of_not_sender h (i := e.1) he (by
    simpa [senders_zero] using hi)

theorem proj_listed : w.proj listed = w.projOf listed (.stage .lister) :=
  World.proj_eq_projOf fun _ he hi => listed_of_not_lister h he hi

end owners

/-! ### Soundness -/

/-- The first `n` filter stages let the object through. -/
def chainKeeps (config : Config) (A : Answers) (n : Nat) (o : S3Object) : Bool :=
  ((filterObjects config).take n).all fun kind => kind.keep config A o

theorem chainKeeps_zero : chainKeeps config A 0 = fun _ => true := by
  funext o
  simp [chainKeeps]

theorem filter_program {n : Nat} (hn : n < filterCount config) :
    ∃ kind : FilterKind, TaskId.program config (.stage (.filter n)) =
        some (kind.filter ⟨config, n, n + 1⟩) ∧
      ∀ o, chainKeeps config A (n + 1) o =
        (chainKeeps config A n o && kind.keep config A o) := by
  have hlen : n < (filterObjects config).length := hn
  refine ⟨(filterObjects config)[n], ?_, fun o => ?_⟩
  · show (filterObjects config)[n]?.map _ = _
    rw [List.getElem?_eq_getElem hlen]
    rfl
  · unfold chainKeeps
    rw [List.take_succ_eq_append_getElem hlen, List.all_append, List.all_cons, List.all_nil,
      Bool.and_true]

/-- Filtering by the next stage as well. -/
theorem filter_chainKeeps {n : Nat} {kind : FilterKind} {l : List S3Object}
    (hk : ∀ o, chainKeeps config A (n + 1) o =
      (chainKeeps config A n o && kind.keep config A o)) :
    (l.filter (chainKeeps config A n)).filter (kind.keep config A) =
      l.filter (chainKeeps config A (n + 1)) := by
  rw [List.filter_filter]
  congr 1
  funext o
  rw [hk, Bool.and_comm]

/-- **The stream is sound at every moment.** -/
theorem stream_sound (h : Running config outside w)
    (hA : ∀ e, outside.admits e → A.agrees e) {n : Nat} (hn : n ≤ filterCount config) :
    (w.proj (sentTo n)).Sublist ((w.proj listed).filter (chainKeeps config A n)) := by
  induction n with
  | zero =>
    rw [proj_sentTo_lister h, proj_listed h, chainKeeps_zero, List.filter_true]
    exact part_listTarget (h.part rfl)
  | succ n ih =>
    obtain ⟨kind, hprog, hkeep⟩ := filter_program (A := A) hn
    have hstage := part_filter (A := A) (h.part hprog)
      fun e he => hA e (h.admits _ e he)
    rw [proj_sentTo_filter h hn]
    refine hstage.trans ?_
    show ((w.projOf (got n) (.stage (.filter n))).filter _).Sublist _
    rw [← proj_got_filter h hn, ← filter_chainKeeps hkeep]
    refine List.Sublist.filter _ ?_
    refine List.Sublist.trans ?_ (ih (Nat.le_of_succ_le hn))
    rw [channel_law h n]
    exact List.sublist_append_left _ _

/-! ### Clean runs -/

/-- Nothing went wrong: every task that has ended returned without an error,
and the token is not cancelled. -/
structure Clean (w : PipelineWorld) : Prop where
  returned : ∀ i o, w.outcome i = some o → o = .done (.ok ())
  live : w.shared.cancelled = false

/-- A worker does not find its channel open after it ended. -/
theorem worker_not_lost (h : Running config outside w) {i : TaskId}
    (ht : traceOf i w.log = t ++ [⟨.select (filterCount config), .received none⟩,
      ⟨.isClosed (filterCount config), false⟩]) : False := by
  have hlost : traceOf i w.log = (t ++ [⟨.select (filterCount config), .received none⟩]) ++
      ⟨.isClosed (filterCount config), false⟩ :: [] := by simp [ht]
  exact not_lost h hlost (List.mem_append_right _ (List.mem_singleton_self _))
    (rfl : filterCount config = filterCount config)

/-- A worker that returned without seeing the token cancelled came to the end of
its channel, and its books are balanced. -/
theorem worker_ended (h : Running config outside w)
    (hA : ∀ e, outside.admits e → A.agrees e) {n : Nat}
    (hn : w.outcome (.stage (.worker n)) = some (.done (.ok ())))
    (live : w.shared.cancelled = false) :
    ∃ adm, Balanced ⟨config, filterCount config, filterCount config + 1⟩
        (workerSelects config A) A.Known [] adm (traceOf (.stage (.worker n)) w.log) ∧
      ∃ e ∈ traceOf (.stage (.worker n)) w.log, Event.isEnd (filterCount config) e := by
  rcases hp : TaskId.program config (.stage (.worker n)) with - | p
  · have hidle := h.code_eq (.stage (.worker n))
    have hfollow := Machine.Reachable.taskOk (start_initial config) h (.stage (.worker n))
    simp only [World.TaskOk, hidle, hp] at hfollow
    simp [World.outcome, hfollow.1] at hn
  · have hrun := h.run hp hn
    simp only [TaskId.program, StageId.program] at hp
    split_ifs at hp
    obtain rfl := Option.some.inj hp
    obtain ⟨adm, b, u, v, ht, bal, hret⟩ :=
      worker_returned (A := A) hrun fun e he => hA e (h.admits _ e he)
    rcases hret with ⟨rfl, e, he, hend⟩ | ⟨e, he, hsaw⟩ | rfl
    · exact ⟨adm, bal, e, ht ▸ List.mem_append_right _ he, hend⟩
    · have := token_law h (mem_traceOf.mp (ht ▸ List.mem_append_right _ he)) (.inl hsaw)
      simp [live] at this
    · exact (worker_not_lost h ht).elim

/-- A filter stage that returned, without seeing the token cancelled or its
channel closed, came to the end of its channel and filtered everything. -/
theorem filter_ended (h : Running config outside w)
    (hA : ∀ e, outside.admits e → A.agrees e) {n : Nat} (hn : n < filterCount config)
    (hout : w.outcome (.stage (.filter n)) = some (.done (.ok ())))
    (live : w.shared.cancelled = false)
    (unclosed : ∀ i (e : Event), (i, e) ∈ w.log → ¬ e.sawClosed (n + 1)) :
    ∃ kind : FilterKind, (∀ o, chainKeeps config A (n + 1) o =
        (chainKeeps config A n o && kind.keep config A o)) ∧
      Filtered n (n + 1) (kind.keep config A) A.Known
        (traceOf (.stage (.filter n)) w.log) ∧
      ∃ e ∈ traceOf (.stage (.filter n)) w.log, Event.isEnd n e := by
  obtain ⟨kind, hprog, hkeep⟩ := filter_program (A := A) hn
  refine ⟨kind, hkeep, ?_⟩
  rcases run_filter (A := A) (h.run hprog hout)
    fun e he => hA e (h.admits _ e he) with ⟨e, he, hsaw | hclosed⟩ | ⟨hend, hfull⟩
  · have := token_law h (mem_traceOf.mp he) (.inl hsaw)
    simp [live] at this
  · exact absurd hclosed (unclosed _ e (mem_traceOf.mp he))
  · exact ⟨hfull, hend⟩

theorem Event.sawClosed_op {e : Event} {c : Nat} (h : e.sawClosed c) : ∃ x, e.1 = .send c x := by
  rcases e with ⟨o, r⟩
  cases o
  case send chan x =>
    cases r with
    | true => exact h.elim
    | false =>
      obtain rfl : chan = c := h
      exact ⟨x, rfl⟩
  all_goals exact h.elim

/-- Where all receivers of a channel before the workers have ended in a clean
run, the channel is drained. -/
theorem receiver_ended (h : Running config outside w)
    (hA : ∀ e, outside.admits e → A.agrees e) (hsize : 0 < config.workerSize)
    (hclean : Clean w) {c : Nat} (hc : c ≤ filterCount config)
    (unclosed : c + 1 ≤ filterCount config → ∀ i (e : Event), (i, e) ∈ w.log → ¬ e.sawClosed (c + 1))
    (hgone : ∀ i ∈ receivers config c, (w.outcome i).isSome) : Drained config w c := by
  have hok : ∀ i ∈ receivers config c, w.outcome i = some (.done (.ok ())) := by
    intro i hi
    obtain ⟨o, ho⟩ := Option.isSome_iff_exists.mp (hgone i hi)
    rw [ho, hclean.returned i o ho]
  rcases Nat.lt_or_eq_of_le hc with hlt | rfl
  · obtain ⟨_, -, -, e, he, hend⟩ := filter_ended h hA hlt
      (hok _ (by simp [receivers_filter hlt])) hclean.live (unclosed hlt)
    exact drained_law h (mem_traceOf.mp he) hend
  · obtain ⟨_, -, e, he, hend⟩ := worker_ended h hA (n := 0)
      (hok _ (by rw [receivers_workers]; exact mem_workers.mpr ⟨0, hsize, rfl⟩)) hclean.live
    exact drained_law h (mem_traceOf.mp he) hend

/-- No sender before the workers ever finds its channel closed in states `Q`, if
in these a channel without receivers is drained, its senders gone as well. -/
theorem unclosed_of {Q : PipelineWorld → Prop}
    (hback : ∀ u v : PipelineWorld, (u.shared.cancelled = true → v.shared.cancelled = true) →
      (∀ i o, u.outcome i = some o → v.outcome i = some o) → Q v → Q u)
    (hdrained : ∀ u, Running config outside u → Q u → ∀ c ≤ filterCount config,
      (c + 1 ≤ filterCount config → ∀ i (e : Event), (i, e) ∈ u.log → ¬ e.sawClosed (c + 1)) →
        (∀ i ∈ receivers config c, (u.outcome i).isSome) → Drained config u c)
    (h : Running config outside w) (hw : Q w) {c : Nat} (hc : c ≤ filterCount config) {i : TaskId}
    {e : Event} (he : (i, e) ∈ w.log) : ¬ e.sawClosed c := by
  refine h.induction (P := fun w => Q w → ∀ c ≤ filterCount config, ∀ i (e : Event),
    (i, e) ∈ w.log → ¬ e.sawClosed c) ?_ ?_ ?_ ?_ hw c hc i e he
  · exact fun _ _ _ _ _ he => by simp [start] at he
  · intro u j o k r sh hu hP run hh hv hnext c hc i e he hsaw
    have hQ : Q u := by
      refine hback _ _ (fun hcan => hh.token.mpr (.inl hcan)) (fun i o ho => ?_) hnext
      rwa [outcome_perform run]
    have hunclosed := hP hQ
    have hnow : (j, (⟨o, r⟩ : Event)) ∈ ((u.put j (.running (k r))).record j ⟨o, r⟩ sh).log := by
      simp
    simp only [World.record_log, World.put_log, List.mem_append, List.mem_singleton] at he
    rcases he with he | he
    · exact hunclosed c hc i e he hsaw
    · cases he
      have hsender : j ∈ senders config c := by
        obtain ⟨x, rfl⟩ := Event.sawClosed_op hsaw
        exact mem_senders (hv.started hnow) (hv.mayUse hnow)
      -- The sender is running, so it is the receivers that are gone, the first one after it
      -- came to the end of the channel; but then the sender was gone too.
      have hrunning : ¬ (u.outcome j).isSome := by simp [running_of_tasks run]
      have hgone : ∀ l ∈ receivers config c, (u.outcome l).isSome := by
        have hclosed := hh.closed_of_unsent c hsaw
        simp only [isChannelClosed, Bool.or_eq_true, List.all_eq_true] at hclosed
        exact hclosed.resolve_left fun hall => hrunning (hall j hsender)
      refine hrunning ((hdrained u hu hQ c hc ?_ hgone).1 j hsender)
      exact fun h' i e he => hunclosed (c + 1) h' i e he
  · intro u v _ hP hlog hsh hout hnext c hc i e he
    refine hP (hback _ _ (fun hcan => hsh ▸ hcan) hout hnext) c hc i e ?_
    rwa [← hlog]
  · intro u _ hP _ hnext
    refine hP (hback u _ ?_ ?_ hnext)
    · exact fun _ => rfl
    · exact fun _ _ ho => ho

/-- In a clean run no sender before the workers ever finds its channel closed. -/
theorem unclosed_of_clean (h : Running config outside w)
    (hA : ∀ e, outside.admits e → A.agrees e) (hsize : 0 < config.workerSize)
    (hclean : Clean w) {c : Nat} (hc : c ≤ filterCount config) {i : TaskId} {e : Event}
    (he : (i, e) ∈ w.log) : ¬ e.sawClosed c := by
  refine unclosed_of (Q := Clean) (fun u v hcan hout hv => ?_) (fun u hu hQ c hc hunclosed hgone => ?_)
    h hclean hc he
  · refine ⟨fun i o ho => hv.returned i o (hout i o ho), ?_⟩
    by_contra hu
    simpa [hv.live] using hcan (by simpa using hu)
  · exact receiver_ended hu hA hsize hQ hc hunclosed hgone

/-- All stages of the run have ended. -/
def Ended (config : Config) (w : PipelineWorld) : Prop :=
  ∀ s : StageId, s.exists config → (w.outcome (.stage s)).isSome

theorem Ended.ok (hended : Ended config w) (hclean : Clean w) {s : StageId}
    (hs : s.exists config) : w.outcome (.stage s) = some (.done (.ok ())) := by
  obtain ⟨o, ho⟩ := Option.isSome_iff_exists.mp (hended s hs)
  rw [ho, hclean.returned _ o ho]

/-- The channels before the workers are drained in the end. -/
theorem drained_of_ended (h : Running config outside w)
    (hA : ∀ e, outside.admits e → A.agrees e) (hsize : 0 < config.workerSize)
    (hclean : Clean w) (hended : Ended config w) {c : Nat} (hc : c ≤ filterCount config) :
    Drained config w c := by
  refine receiver_ended h hA hsize hclean hc
    (fun hc' i e he => unclosed_of_clean h hA hsize hclean hc' he) fun i hi => ?_
  rcases Nat.lt_or_eq_of_le hc with hlt | rfl
  · obtain rfl : i = .stage (.filter c) := by simpa [receivers_filter hlt] using hi
    exact hended (.filter c) (by simpa [StageId.exists] using hlt)
  · rw [receivers_workers] at hi
    obtain ⟨n, hn, rfl⟩ := mem_workers.mp hi
    exact hended (.worker n) (by simpa [StageId.exists] using hn)

/-- Everything sent on a channel before the workers was received. -/
theorem got_of_ended (h : Running config outside w)
    (hA : ∀ e, outside.admits e → A.agrees e) (hsize : 0 < config.workerSize)
    (hclean : Clean w) (hended : Ended config w) {c : Nat} (hc : c ≤ filterCount config) :
    w.proj (got c) = w.proj (sentTo c) := by
  rw [channel_law h c, (drained_of_ended h hA hsize hclean hended hc).2, List.append_nil]

/-- **The stream is complete in a clean run**: what was sent on a channel before
the workers is what was listed and kept so far. -/
theorem stream_complete (h : Running config outside w) (hK : A.Known)
    (hA : ∀ e, outside.admits e → A.agrees e) (hsize : 0 < config.workerSize)
    (hclean : Clean w) (hended : Ended config w) {n : Nat} (hn : n ≤ filterCount config) :
    w.proj (sentTo n) = (w.proj listed).filter (chainKeeps config A n) := by
  induction n with
  | zero =>
    rw [proj_sentTo_lister h, proj_listed h, chainKeeps_zero, List.filter_true]
    refine (run_listTarget (h.run rfl (hended.ok hclean rfl))).resolve_right ?_
    rintro ⟨e, he, hclosed⟩
    exact unclosed_of_clean h hA hsize hclean (Nat.zero_le _) (mem_traceOf.mp he) hclosed
  | succ n ih =>
    obtain ⟨kind, hkeep, hfull, -⟩ := filter_ended h hA hn
      (hended.ok hclean (s := .filter n) (by simpa [StageId.exists] using Nat.lt_of_succ_le hn)) hclean.live
      fun i e he => unclosed_of_clean h hA hsize hclean hn he
    rw [proj_sentTo_filter h hn, ← filter_chainKeeps hkeep, ← ih (Nat.le_of_succ_le hn),
      ← got_of_ended h hA hsize hclean hended (Nat.le_of_succ_le hn), proj_got_filter h hn]
    exact hfull.kept hK

end S3rm
