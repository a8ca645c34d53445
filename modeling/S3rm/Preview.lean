/-
S3rm/Preview.lean

What a dry run previews.  With fixed answers about the objects, one worker is a
function of the objects it is sent (`preview`): it passes on what its filters let
through, a batch at a time and up to the limit, and stops where the filters fail.
A dry run reports this sequence as deleted, another run passes it to
`Deleter::delete`.

    worker_preview        a worker on its own computes the function
    dry_run_faithful      the two runs agree, as long as no stage but the one worker
                          fails; a dry run makes no delete call
    dry_run_misleads      a callback that fails can make them differ
-/
import S3rm.Api
import S3rm.Batching
import S3rm.Fates
import S3rm.MaxDelete

namespace S3rm

open Conc Conc.Prog

variable {config : Config} {outside : Outside} {w : PipelineWorld} {A : Answers} {stage : Stage}
  {o : S3Object} {b b' os : List S3Object} {p t u v z : Trace} {new ds : List Deed}
  {r : Except Error Unit}

/-! ### The worker's filters as a function -/

/-- The answers, as responses. -/
def Answers.respond (A : Answers) : (o : Op) → Resp o
  | .executeFilter o => (A.filter o).getD (.error (.other ""))
  | .headObject key versionId => (A.head key versionId).getD (.error (.other ""))
  | .getObjectTagging key versionId => (A.tagging key versionId).getD (.error (.other ""))
  | .recv _ => none
  | .select _ => .cancelled
  | .send _ _ | .isClosed _ | .isCancelled | .hasWarning | .hasError => false
  | .fetchAdd => 0
  | .errorMessages => []
  | .pipelineStats => {}
  | .nextListed => .finished (.ok ())
  | .deleteObject _ _ _ | .deleteObjects _ => .error (.other "")
  | .join _ => .panicked
  | .cancel | .incrementDeleted _ | .incrementFailed | .setWarning | .setError | .setPanic
  | .pushError _ | .sendStats _ | .closeStatsSender | .updatePipelineStats _ | .onEvent _
  | .sleep _ | .beginDelete _ => ()

/-- Operations with one response, or one that the answers give. -/
def Op.isPlain : Op → Bool
  | .headObject _ _ | .getObjectTagging _ _ | .cancel | .sendStats _ | .updatePipelineStats _
  | .onEvent _ => true
  | _ => false

theorem screens_isPlain : Screens fun op => op.isPlain where
  headObject _ _ := rfl
  getObjectTagging _ _ := rfl
  sendStats _ := rfl
  cancel := rfl
  events := ⟨fun _ _ => rfl, fun _ _ => rfl⟩

theorem screen_isPlain (config : Config) (o : S3Object) :
    Straight (fun op => op.isPlain) (screen config o) := by
  refine (screens_isPlain.applyHeadObjectFilters config o).fallible_bind fun skipped => ?_
  split_ifs
  · trivial
  · exact screens_isPlain.applyTagFilters config o

theorem respond_of_agrees (hK : A.Known) {e : Event} (h : e.1.isPlain) (he : A.agrees e) :
    e.2 = A.respond e.1 := by
  rcases e with ⟨op, a⟩
  cases op
  case headObject key versionId =>
    obtain ⟨x, hx⟩ := Option.isSome_iff_exists.mp (hK.head key versionId)
    show a = (A.head key versionId).getD _
    rw [he x hx, hx]
    rfl
  case getObjectTagging key versionId =>
    obtain ⟨x, hx⟩ := Option.isSome_iff_exists.mp (hK.tagging key versionId)
    show a = (A.tagging key versionId).getD _
    rw [he x hx, hx]
    rfl
  all_goals first | rfl | cases h

/-- The worker's filters compute their result from the answers. -/
theorem run_screen_eval {c : Except Error Bool} (h : Run (screen config o) t c) (hK : A.Known)
    (ht : ∀ e ∈ t, A.agrees e) : (screen config o).eval A.respond = some c := by
  have hplain := h.uses (screen_isPlain config o).uses
  exact h.eval (screen_isPlain config o).loopFree fun e he =>
    respond_of_agrees hK (hplain e he) (ht e he)

/-- What one worker passes on of the objects, from the buffer `b`, when `k` tickets
have been drawn. -/
def preview (config : Config) (A : Answers) : List S3Object → List S3Object → Nat → List S3Object
  | [], b, _ => b
  | o :: os, b, k =>
    match (screen config o).eval A.respond with
    | some (.ok true) => preview config A os b k
    | some (.ok false) =>
      if withinLimit config k then
        if (b ++ [o]).length < effectiveBatchSize config then preview config A os (b ++ [o]) (k + 1)
        else (b ++ [o]) ++ preview config A os [] (k + 1)
      else b
    | _ => []

section preview

variable {k : Nat} (os : List S3Object) (b : List S3Object)

theorem preview_skipped (h : (screen config o).eval A.respond = some (.ok true)) :
    preview config A (o :: os) b k = preview config A os b k := by
  rw [preview, h]

theorem preview_failed {e : Error} (h : (screen config o).eval A.respond = some (.error e)) :
    preview config A (o :: os) b k = [] := by
  rw [preview, h]

theorem preview_buffered (h : (screen config o).eval A.respond = some (.ok false))
    (within : withinLimit config k) (room : (b ++ [o]).length < effectiveBatchSize config) :
    preview config A (o :: os) b k = preview config A os (b ++ [o]) (k + 1) := by
  rw [preview, h]
  show ite _ _ _ = _
  rw [if_pos within, if_pos room]

theorem preview_filled (h : (screen config o).eval A.respond = some (.ok false))
    (within : withinLimit config k) (full : (b ++ [o]).length = effectiveBatchSize config) :
    preview config A (o :: os) b k = (b ++ [o]) ++ preview config A os [] (k + 1) := by
  rw [preview, h]
  show ite _ _ _ = _
  rw [if_pos within, if_neg (by omega)]

theorem preview_exceeded (h : (screen config o).eval A.respond = some (.ok false))
    (exceeded : withinLimit config k = false) : preview config A (o :: os) b k = b := by
  rw [preview, h]
  show ite _ _ _ = _
  rw [if_neg (by simp [exceeded])]

end preview

/-! ### A worker on its own -/

/-- Nobody else cancels the token or draws tickets, the worker's calls of
`Deleter::delete` return, and what is closed stays closed. -/
structure OnItsOwn (stage : Stage) (A : Answers) (t : Trace) : Prop where
  agrees : ∀ e ∈ t, A.agrees e
  token : OwnToken t
  lasting : ∀ t₁ t₂, t = t₁ ++ ⟨.isCancelled, false⟩ :: t₂ → t₁.flatMap cancels = []
  tickets : t.flatMap tickets = List.range (t.flatMap tickets).length
  returned : ¬ DeleterErred stage.config t
  closed : ∀ t₁ t₂ c, t = t₁ ++ ⟨.isClosed c, false⟩ :: t₂ →
    ∀ e ∈ t₁, ¬ e.isEnd c ∧ ¬ e.sawClosed c

/-- What is at its own place in a range. -/
theorem eq_length_of_range {xs ys : List Nat} {k n : Nat} (h : xs ++ k :: ys = List.range n) :
    k = xs.length := by
  have hlen : xs.length < n := by
    rw [← List.length_range (n := n), ← h, List.length_append, List.length_cons]
    omega
  have hget : (xs ++ k :: ys)[xs.length]? = (List.range n)[xs.length]? := by rw [h]
  rw [List.getElem?_append_right le_rfl, Nat.sub_self, List.getElem?_cons_zero,
    List.getElem?_range hlen] at hget
  exact Option.some.inj hget

/-- A worker draws its tickets in order. -/
theorem OnItsOwn.ticket {k : Nat} (h : OnItsOwn stage A (t ++ ⟨.fetchAdd, k⟩ :: u)) :
    k = (t.flatMap S3rm.tickets).length := by
  have htickets := h.tickets
  rw [List.flatMap_append, List.flatMap_cons] at htickets
  exact eq_length_of_range htickets

/-- It does not see its token cancelled. -/
theorem OwnToken.unseen {e : Event} (h : OwnToken (t ++ e :: u)) (live : t.flatMap cancels = []) :
    ¬ e.sawCancelled := fun he => h t e u rfl he live

section returns

/-- Forwarding fails only on a channel that is first found closed and then open. -/
theorem run_forwardBatch_error {e : Error} (h : Run (forwardBatch stage os) t (.error e)) :
    ∃ t₁ o, t = t₁ ++ [⟨.send stage.sender o, false⟩, ⟨.isClosed stage.sender, false⟩] := by
  induction os generalizing t with
  | nil =>
    obtain ⟨-, he⟩ := h
    cases he
  | cons o rest ih =>
    rcases run_fallible_bind.mp h with ⟨e', hsend, -⟩ | ⟨u, x, v, rfl, -, hv⟩
    · rcases run_stageSend.mp hsend with ⟨-, he⟩ | ⟨-, he⟩ | ⟨rfl, -⟩
      · cases he
      · cases he
      · exact ⟨[], o, rfl⟩
    · split_ifs at hv
      · obtain ⟨-, he⟩ := hv
        cases he
      · obtain ⟨t₁, o', rfl⟩ := ih hv
        exact ⟨u ++ t₁, o', by simp⟩

theorem run_finishBatch_error {result : DeleteResult} {e : Error}
    (h : Run (finishBatch stage b result) t (.error e)) (hwarn : stage.config.warnAsError = false) :
    ∃ t₁ o, t = t₁ ++ [⟨.send stage.sender o, false⟩, ⟨.isClosed stage.sender, false⟩] := by
  obtain ⟨u, _, v, rfl, -, hv⟩ := run_lift_bind.mp h
  have hforward : ∀ {v}, Run (forwardBatch stage b) v (.error e) → ∃ t₁ o,
      u ++ v = t₁ ++ [⟨.send stage.sender o, false⟩, ⟨.isClosed stage.sender, false⟩] := by
    intro v hv
    obtain ⟨t₁, o, rfl⟩ := run_forwardBatch_error hv
    exact ⟨u ++ t₁, o, by simp⟩
  split_ifs at hv with hempty hwarn'
  · exact hforward hv
  · rw [hwarn] at hwarn'
    cases hwarn'
  · obtain ⟨_, v', rfl, hv'⟩ := run_ask_bind.mp hv
    obtain ⟨t₁, o, rfl⟩ := run_forwardBatch_error hv'
    exact ⟨u ++ ⟨.setWarning, ()⟩ :: t₁, o, by simp⟩

/-- A flush of a worker on its own returns. -/
theorem Flush.returns {r : Except Error (List S3Object)} (h : Flush stage b z r)
    (hown : OnItsOwn stage A (t ++ (z ++ u))) (hwarn : stage.config.warnAsError = false) :
    ∃ b', r = .ok b' := by
  have hclosed : ∀ (t₁ : Trace) (x : S3Object), z ≠
      t₁ ++ [⟨.send stage.sender x, false⟩, ⟨.isClosed stage.sender, false⟩] := by
    rintro t₁ x rfl
    exact (hown.closed (t ++ (t₁ ++ [⟨.send stage.sender x, false⟩])) u stage.sender
      (by simp) ⟨.send stage.sender x, false⟩ (by simp)).2 rfl
  cases h with
  | empty | cancelled => exact ⟨_, rfl⟩
  | @simulated w y _ dry finish =>
    rcases y with e | _
    · obtain ⟨t₁, x, rfl⟩ := run_finishBatch_error finish hwarn
      exact absurd rfl (hclosed (⟨.isCancelled, false⟩ :: t₁) x)
    · exact ⟨_, rfl⟩
  | @failed o rest v e hb wet delete =>
    subst hb
    refine absurd ?_ hown.returned
    have herred := DeleterErred.mk (t := t ++ [⟨.isCancelled, false⟩]) (u := ⟨.cancel, ()⟩ :: u) delete
    simpa using herred
  | @deleted o rest v w result y _ wet delete finish =>
    rcases y with e | _
    · obtain ⟨t₁, x, rfl⟩ := run_finishBatch_error finish hwarn
      exact absurd (by simp)
        (hclosed (⟨.isCancelled, false⟩ :: ⟨.beginDelete b, ()⟩ :: (v ++ t₁)) x)
    · exact ⟨_, rfl⟩

end returns

/-! ### The worker computes the preview -/

theorem tickets_of_screen {c : Except Error Bool} (h : Run (screen stage.config o) t c) :
    t.flatMap tickets = [] :=
  flatMap_eq_nil_of_straight h (screen_straight ..) fun _ => tickets_screening

/-- An object draws at most one ticket. -/
theorem Adds.tickets (h : Adds stage b o p new b') : p.flatMap S3rm.tickets = [] ∨
    ∃ v k u, p = v ++ ⟨.fetchAdd, k⟩ :: u ∧ v.flatMap S3rm.tickets = [] ∧
      p.flatMap S3rm.tickets = [k] := by
  cases h with
  | skipped screened => exact .inl (tickets_of_screen screened)
  | @buffered w k screened =>
    exact .inr ⟨w, k, [], rfl, tickets_of_screen screened, by simp [tickets_of_screen screened, S3rm.tickets]⟩
  | @filled w z k result screened within full dealt =>
    have hflush : z.flatMap S3rm.tickets = [] :=
      List.flatMap_eq_nil_iff.mpr fun e he => tickets_flush (dealt.isFlush e he)
    exact .inr ⟨w, k, z, rfl, tickets_of_screen screened,
      by simp [tickets_of_screen screened, hflush, S3rm.tickets]⟩

/-- It receives nothing more. -/
theorem Adds.got_nil (h : Adds stage b o p new b') : p.flatMap (got stage.receiver) = [] := by
  have hscreen : ∀ {w c}, Run (screen stage.config o) w c → w.flatMap (got stage.receiver) = [] :=
    fun hw => flatMap_eq_nil_of_straight hw (screen_straight ..) fun _ => got_screening
  cases h with
  | skipped screened => exact hscreen screened
  | buffered screened => simp [hscreen screened, got]
  | filled screened within full dealt =>
    simp [hscreen screened, got,
      List.flatMap_eq_nil_iff.mpr fun e he => got_flush (dealt.isFlush e he)]

/-- One object, clear of the token. -/
theorem Adds.preview (h : Adds stage b o p new b') (hK : A.Known) {k : Nat}
    (hp : ∀ e ∈ p, A.agrees e) (hk : ∀ k' ∈ p.flatMap S3rm.tickets, k' = k) (os : List S3Object) :
    preview stage.config A (o :: os) b k = new.flatMap Deed.batch ++
      preview stage.config A os b' (k + (p.flatMap S3rm.tickets).length) := by
  cases h with
  | skipped screened =>
    rw [preview_skipped os b (run_screen_eval screened hK hp), tickets_of_screen screened]
    rfl
  | @buffered w k' screened within room =>
    obtain rfl := hk k' (by simp [S3rm.tickets])
    rw [preview_buffered os b (run_screen_eval screened hK fun e he => hp e (by simp [he])) within room,
      List.flatMap_append, tickets_of_screen screened]
    rfl
  | @filled w z k' result screened within full dealt =>
    obtain rfl := hk k' (by simp [S3rm.tickets])
    have hflush : z.flatMap S3rm.tickets = [] :=
      List.flatMap_eq_nil_iff.mpr fun e he => tickets_flush (dealt.isFlush e he)
    rw [preview_filled os b (run_screen_eval screened hK fun e he => hp e (by simp [he])) within full,
      List.flatMap_append, tickets_of_screen screened]
    simp [Deed.batch, S3rm.tickets, hflush]

/-- What holds at the head of the worker's loop: what it has passed on and what it
has still to pass on are the preview. -/
structure Previews (stage : Stage) (A : Answers) (t : Trace) (b : List S3Object) (ds : List Deed) :
    Prop where
  live : t.flatMap cancels = []
  history : History stage ds t b
  room : b.length < effectiveBatchSize stage.config
  passed : ∀ os, preview stage.config A (t.flatMap (got stage.receiver) ++ os) [] 0 =
    ds.flatMap Deed.batch ++ preview stage.config A os b (t.flatMap S3rm.tickets).length

theorem Previews.next (h : Previews stage A t b ds) (hK : A.Known)
    (hu : Turn (workerTurn stage) b u (.inl b')) (hown : OnItsOwn stage A (t ++ u ++ v)) :
    ∃ ds', Previews stage A (t ++ u) b' ds' := by
  obtain ⟨o, p, rfl, hp⟩ := turn_next hu
  have hlive : (t ++ ⟨.select stage.receiver, .received (some o)⟩ :: p).flatMap cancels = [] :=
    hown.lasting _ v (by simp)
  have hplive : p.flatMap cancels = [] := by
    simp only [List.flatMap_append, List.flatMap_cons, List.append_eq_nil_iff] at hlive
    exact hlive.2.2
  have hunseen : (⟨.isCancelled, true⟩ : Event) ∉ p := by
    intro he
    obtain ⟨p₁, p₂, rfl⟩ := List.append_of_mem he
    refine OwnToken.unseen (t := t ++ ⟨.select stage.receiver, .received (some o)⟩ :: p₁)
      (e := ⟨.isCancelled, true⟩) (u := p₂ ++ (⟨.isCancelled, false⟩ :: v)) ?_ ?_ trivial
    · simpa using hown.token
    · simp only [List.flatMap_append, List.flatMap_cons, List.append_eq_nil_iff] at hplive
      simp [h.live, hplive.1, cancels]
  obtain ⟨new, hadds⟩ := process_adds hp h.room hplive hunseen
  have hhist := (hadds.history h.history).snoc (.look (u := [⟨.isCancelled, false⟩]) fun e he => by
    rw [List.mem_singleton.mp he]
    trivial)
  refine ⟨_, ?_, by simpa using hhist, hadds.room h.room, fun os => ?_⟩
  · rw [← List.cons_append, ← List.append_assoc, List.flatMap_append, hlive]
    rfl
  · have htickets : ∀ k' ∈ p.flatMap S3rm.tickets, k' = (t.flatMap S3rm.tickets).length := by
      rcases hadds.tickets with hnil | ⟨p₁, k, p₂, rfl, hp₁, hone⟩
      · simp [hnil]
      · intro k' hk'
        rw [hone] at hk'
        obtain rfl := List.mem_singleton.mp hk'
        have hdraws : OnItsOwn stage A (t ++ ⟨.select stage.receiver, .received (some o)⟩ :: p₁ ++
            ⟨.fetchAdd, k'⟩ :: (p₂ ++ (⟨.isCancelled, false⟩ :: v))) := by
          simpa using hown
        simpa [hp₁, S3rm.tickets] using hdraws.ticket
    have hstep := hadds.preview hK (fun e he => hown.agrees e (by simp [he])) htickets os
    have hpassed := h.passed (o :: os)
    rw [hstep] at hpassed
    simp [hadds.got_nil, got, hpassed, S3rm.tickets, Deed.batch]

/-- How a worker on its own ends: it has come to the end of its channel, or its
filters have failed, or an object was over the limit.  In the last two cases it
does not matter what else would have come. -/
structure Concludes (stage : Stage) (A : Answers) (t : Trace) (r : Except Error Unit)
    (passed : List S3Object) : Prop where
  passes : (r = .ok () ∧ t.flatMap cancels = [] ∧
      preview stage.config A (t.flatMap (got stage.receiver)) [] 0 = passed) ∨
    ∀ os, preview stage.config A (t.flatMap (got stage.receiver) ++ os) [] 0 = passed
  begins : stage.config.dryRun = false → t.flatMap begun = passed
  reports : stage.config.dryRun = true → completions t = passed.map S3Object.id

theorem History.concludes (h : History stage ds u b) (ht : u = t)
    (hpasses : (r = .ok () ∧ t.flatMap cancels = [] ∧
        preview stage.config A (t.flatMap (got stage.receiver)) [] 0 = ds.flatMap Deed.batch) ∨
      ∀ os, preview stage.config A (t.flatMap (got stage.receiver) ++ os) [] 0 =
        ds.flatMap Deed.batch) : ∃ passed, Concludes stage A t r passed := by
  subst ht
  exact ⟨_, hpasses, h.begun, h.completions⟩

/-- It comes to the end of its channel. -/
theorem Previews.drained (h : Previews stage A t b ds) (hwarn : stage.config.warnAsError = false)
    (flush : Flush stage b z (.ok b'))
    (hown : OnItsOwn stage A (t ++ ⟨.select stage.receiver, .received none⟩ ::
      ⟨.isClosed stage.receiver, true⟩ :: z)) :
    ∃ passed, Concludes stage A (t ++ ⟨.select stage.receiver, .received none⟩ ::
      ⟨.isClosed stage.receiver, true⟩ :: z) (.ok ()) passed := by
  have hlook := h.history.snoc (.look (u := [⟨.select stage.receiver, .received none⟩,
    ⟨.isClosed stage.receiver, true⟩]) fun e he => by
      simp only [List.mem_cons, List.not_mem_nil, or_false] at he
      rcases he with rfl | rfl <;> trivial)
  have hgot : z.flatMap (got stage.receiver) = [] :=
    List.flatMap_eq_nil_iff.mpr fun e he => got_flush (flush.isFlush e he)
  have hpassed := h.passed []
  rw [List.append_nil] at hpassed
  have hlive : (t ++ ⟨.select stage.receiver, .received none⟩ ::
      ⟨.isClosed stage.receiver, true⟩ :: z).flatMap cancels = [] := by
    simp [h.live, cancels, flush.live hwarn]
  rcases flush.dealt with ⟨rfl, rfl, -⟩ | ⟨rfl, -⟩ | ⟨result, dealt, rfl⟩
  · refine hlook.concludes rfl (.inl ⟨rfl, hlive, ?_⟩)
    simp [got, hpassed, preview, Deed.batch]
  · refine absurd trivial (OwnToken.unseen (t := t ++ [⟨.select stage.receiver, .received none⟩,
      ⟨.isClosed stage.receiver, true⟩]) (e := ⟨.isCancelled, true⟩) (u := []) ?_ ?_)
    · simpa using hown.token
    · simp [h.live, cancels]
  · refine (hlook.snoc (.settle dealt h.room.le)).concludes (by simp) (.inl ⟨rfl, hlive, ?_⟩)
    simp [hgot, got, hpassed, preview, Deed.batch]

/-- An object is over the limit. -/
theorem Previews.exceeded (h : Previews stage A t b ds) (hK : A.Known) {w y : Trace} {k : Nat}
    (screened : Run (screen stage.config o) w (.ok false))
    (exceeded : withinLimit stage.config k = false) (flush : Flush stage b z (.ok b'))
    (stop : OverLimit o y)
    (hown : OnItsOwn stage A (t ++ ⟨.select stage.receiver, .received (some o)⟩ ::
      (w ++ ⟨.fetchAdd, k⟩ :: (z ++ y) ++ [⟨.isCancelled, true⟩]))) :
    ∃ passed, Concludes stage A (t ++ ⟨.select stage.receiver, .received (some o)⟩ ::
      (w ++ ⟨.fetchAdd, k⟩ :: (z ++ y) ++ [⟨.isCancelled, true⟩])) r passed := by
  have heval := run_screen_eval screened hK fun e he => hown.agrees e (by simp [he])
  have hk : k = (t.flatMap S3rm.tickets).length := by
    have hdraws : OnItsOwn stage A (t ++ ⟨.select stage.receiver, .received (some o)⟩ :: w ++
        ⟨.fetchAdd, k⟩ :: (z ++ y ++ [⟨.isCancelled, true⟩])) := by
      simpa using hown
    simpa [tickets_of_screen screened, S3rm.tickets] using hdraws.ticket
  have hpassed : ∀ os, preview stage.config A (t.flatMap (got stage.receiver) ++ o :: os) [] 0 =
      ds.flatMap Deed.batch ++ b := by
    intro os
    rw [h.passed, preview_exceeded os b heval (hk ▸ exceeded)]
  have hgot : (w ++ ⟨.fetchAdd, k⟩ :: (z ++ y) ++ [⟨.isCancelled, true⟩] : Trace).flatMap
      (got stage.receiver) = [] := by
    have hw := flatMap_eq_nil_of_straight screened (screen_straight ..) (f := got stage.receiver)
      fun _ => got_screening
    have hz : z.flatMap (got stage.receiver) = [] :=
      List.flatMap_eq_nil_iff.mpr fun e he => got_flush (flush.isFlush e he)
    have hy : y.flatMap (got stage.receiver) = [] :=
      List.flatMap_eq_nil_iff.mpr fun e he => got_flush (stop.isFlush 0 e he)
    simp [hw, hz, hy, got]
  have hdraw := h.history.snoc (.draw (k := k) screened)
  rw [if_neg (by simp [exceeded])] at hdraw
  -- the flush, then the report, then the last look
  obtain ⟨ds', hds', hbatch⟩ : ∃ ds', History stage ds' (t ++ ⟨.select stage.receiver,
      .received (some o)⟩ :: (w ++ [⟨.fetchAdd, k⟩]) ++ z) b' ∧
        ds'.flatMap Deed.batch = ds.flatMap Deed.batch ++ b := by
    rcases flush.dealt with ⟨rfl, rfl, rfl⟩ | ⟨rfl, -⟩ | ⟨result, dealt, rfl⟩
    · exact ⟨_, by simpa using hdraw, by simp [Deed.batch]⟩
    · refine absurd trivial (OwnToken.unseen (e := ⟨.isCancelled, true⟩)
        (t := t ++ ⟨.select stage.receiver, .received (some o)⟩ :: (w ++ [⟨.fetchAdd, k⟩]))
        (u := y ++ [⟨.isCancelled, true⟩]) ?_ ?_)
      · simpa using hown.token
      · simp [h.live, cancels, screen_live screened]
    · exact ⟨_, hdraw.snoc (.settle dealt h.room.le), by simp [Deed.batch]⟩
  have hhist := (hds'.snoc (.exceed stop)).snoc (.look (u := [⟨.isCancelled, true⟩]) fun e he => by
    rw [List.mem_singleton.mp he]
    trivial)
  refine hhist.concludes (by simp) (.inr fun os => ?_)
  rw [List.flatMap_append, List.flatMap_cons, hgot]
  simpa [got, hbatch, Deed.batch] using hpassed os

/-- The filters fail. -/
theorem Previews.failed (h : Previews stage A t b ds) (hK : A.Known) {e : Error}
    (screened : Run (screen stage.config o) p (.error e)) (hp : ∀ e ∈ p, A.agrees e) :
    ∃ passed, Concludes stage A (t ++ ⟨.select stage.receiver, .received (some o)⟩ :: p) r passed := by
  have hgot := flatMap_eq_nil_of_straight screened (screen_straight ..) (f := got stage.receiver)
    fun _ => got_screening
  have hbegun := flatMap_eq_nil_of_straight screened (screen_straight ..) fun _ => begun_screening
  refine ⟨ds.flatMap Deed.batch, .inr fun os => ?_, fun wet => ?_, fun dry => ?_⟩
  · have hpassed := h.passed (o :: os)
    rw [preview_failed os b (run_screen_eval screened hK hp), List.append_nil] at hpassed
    simpa [hgot, got] using hpassed
  · rw [List.flatMap_append, h.history.begun wet, List.flatMap_cons, hbegun]
    simp [begun]
  · rw [completions_append, h.history.completions dry, completions_quiet rfl,
      (run_screen_entries screened).completions, List.append_nil]

/-- **A worker on its own computes the preview** of the objects it is sent. -/
theorem worker_preview (h : Run (receiveAndDelete stage) t r) (hK : A.Known)
    (hwarn : stage.config.warnAsError = false) (hown : OnItsOwn stage A t) :
    ∃ passed, Concludes stage A t r passed := by
  have all : ∀ e ∈ t, (fun _ : Event => True) e := fun _ _ => trivial
  have hloop := run_of_loop
    (I := fun b u => u <+: t → ∃ ds, Previews stage A u b ds)
    (fun _ => ⟨[], rfl, .nil, effectiveBatchSize_pos _, fun _ => rfl⟩) ?_ h all
  · obtain ⟨b, u, v, rfl, hI, hv, -⟩ := hloop
    obtain ⟨ds, hpre⟩ := hI (List.prefix_append u v)
    -- the worker cannot have seen the token cancelled before it was over the limit
    have hlast : ∀ {o : S3Object} {p : Trace}, p.flatMap cancels = [] →
        v ≠ ⟨.select stage.receiver, .received (some o)⟩ :: (p ++ [⟨.isCancelled, true⟩]) := by
      rintro o p hp rfl
      refine OwnToken.unseen (t := u ++ ⟨.select stage.receiver, .received (some o)⟩ :: p)
        (e := ⟨.isCancelled, true⟩) (u := []) ?_ ?_ trivial
      · simpa using hown.token
      · simp [hpre.live, hp, cancels]
    have hturn := run_workerTurn hv
    generalize hx : (Sum.inr r : List S3Object ⊕ Except Error Unit) = x at hturn
    cases hturn with
    | cancelled => exact absurd trivial (OwnToken.unseen (u := []) hown.token hpre.live)
    | lost =>
      exact absurd rfl (hown.closed (u ++ [⟨.select stage.receiver, .received none⟩]) []
        stage.receiver (by simp) ⟨.select stage.receiver, .received none⟩ (by simp)).1
    | @drained z r' flush =>
      obtain ⟨b', rfl⟩ := flush.returns (t := u ++ [⟨.select stage.receiver, .received none⟩,
        ⟨.isClosed stage.receiver, true⟩]) (u := []) (A := A) (by simpa using hown) hwarn
      cases hx
      exact hpre.drained hwarn flush hown
    | @received o p v r' x process rest =>
      cases rest with
      | next => cases hx
      | @failed e =>
        cases hx
        generalize hr : (Except.error e : Except Error (List S3Object)) = r' at process
        rw [List.append_nil] at hown ⊢
        cases process with
        | skipped | buffered | exceeded => cases hr
        | failed screened =>
          exact hpre.failed hK screened fun e he => hown.agrees e (by simp [he])
        | @flushed w z k _ screened within flush =>
          obtain ⟨b', rfl⟩ := flush.returns (u := []) (A := A)
            (t := u ++ ⟨.select stage.receiver, .received (some o)⟩ :: (w ++ [⟨.fetchAdd, k⟩]))
            (by simpa using hown) hwarn
          cases hr
        | @overFailed w z k _ screened exceeded flush =>
          obtain ⟨b', hb'⟩ := flush.returns (u := []) (A := A)
            (t := u ++ ⟨.select stage.receiver, .received (some o)⟩ :: (w ++ [⟨.fetchAdd, k⟩]))
            (by simpa using hown) hwarn
          cases hb'
      | @cancelled b' =>
        generalize hr : (Except.ok b' : Except Error (List S3Object)) = r' at process
        cases process with
        | failed | overFailed => cases hr
        | skipped screened => exact absurd rfl (hlast (screen_live screened))
        | buffered screened => exact absurd rfl (hlast (by simp [screen_live screened, cancels]))
        | flushed screened within flush =>
          subst hr
          exact absurd rfl (hlast (by simp [screen_live screened, cancels, flush.live hwarn]))
        | exceeded screened exceeded flush stop =>
          exact hpre.exceeded hK screened exceeded flush stop hown
  · rintro b u v b' hI hv - ⟨z, rfl⟩
    obtain ⟨ds, hpre⟩ := hI (by rw [List.append_assoc]; exact List.prefix_append u (v ++ z))
    exact hpre.next hK hv hown

/-! ### Who reports deletions -/

/-- The deletions an event reports as done. -/
def completed (e : Event) : List ObjectId := (fired e).flatMap EventData.completes

theorem completions_eq (t : Trace) : completions t = t.flatMap completed := List.flatMap_assoc

theorem completes_eq_nil {event : EventData} (h : event.eventType ≠ .deleteComplete) :
    event.completes = [] := if_neg h

theorem completed_of_fired (ht : ∀ event ∈ t.flatMap fired, event.eventType ≠ .deleteComplete) :
    t.flatMap completed = [] := by
  rw [← completions_eq]
  exact List.flatMap_eq_nil_iff.mpr fun event hevent => completes_eq_nil (ht event hevent)

theorem Verdict.completed_nil {kind : FilterKind} {c : Except Error Bool}
    (h : Verdict stage o kind v c) : v.flatMap completed = [] := by
  cases h with
  | base | unregistered | answered => rfl
  | @erred e w a _ fires =>
    refine completed_of_fired fun event hevent => ?_
    have hfired := fired_triggerEventIfRegistered fires
    have hmem : event ∈ w.flatMap fired := by simpa [fired] using hevent
    rw [hfired] at hmem
    split_ifs at hmem
    · rw [List.mem_singleton.mp hmem]
      intro heq
      cases heq
    · cases hmem

/-- The stages of the chain report no deletions. -/
theorem FilterStep.completed_nil {kind : FilterKind} {x : Unit ⊕ Except Error Unit}
    (h : FilterStep stage kind t x) : t.flatMap completed = [] := by
  have hreceives : ∀ r, (kind.receives stage.receiver r).flatMap completed = [] := by
    intro r
    cases kind <;> rfl
  cases h with
  | cancelled => cases kind <;> rfl
  | ended => exact hreceives none
  | failed verdict => rw [List.flatMap_append, hreceives, verdict.completed_nil]; rfl
  | sent verdict | unsent verdict =>
    rw [List.flatMap_append, List.flatMap_append, hreceives, verdict.completed_nil]
    rfl
  | @rejected o v w verdict skips =>
    obtain ⟨message, hfired⟩ := skips.fires
    rw [List.flatMap_append, List.flatMap_append, hreceives, verdict.completed_nil,
      completed_of_fired fun event hevent => ?_]
    · rfl
    · rw [hfired] at hevent
      split_ifs at hevent
      · rw [List.mem_singleton.mp hevent]
        nofun
      · cases hevent

theorem part_filter_completed {kind : FilterKind} (h : Part (kind.filter stage) t) :
    t.flatMap completed = [] := by
  rw [kind.filter_eq] at h
  obtain ⟨_, u, v, z, x, rfl, hrounds, hturn, -⟩ := part_loop ({} : Answers).agrees_total
    (fun _ => ((filterCovers_isFiltering stage.receiver stage.sender).turn kind
      stage.config).loopFree) h
  have hu : u.flatMap completed = [] := by
    have := hrounds.invariant (I := fun _ t => t.flatMap completed = []) (t := [])
      (fun _ t u _ ht hu => by rw [List.flatMap_append, ht, (FilterKind.step hu).completed_nil]; rfl) rfl
    exact this
  have hv := (FilterKind.step hturn).completed_nil
  rw [List.flatMap_append, List.append_eq_nil_iff] at hv
  rw [List.flatMap_append, hu, hv.1]
  rfl

/-- Operations that report no deletion. -/
def Op.Silent (o : Op) : Prop := ∀ r, completed ⟨o, r⟩ = []

theorem triggers_silent : Triggers (fun type => type ≠ .deleteComplete) Op.Silent where
  fires event h _ := by
    show [event].flatMap EventData.completes = []
    rw [List.flatMap_singleton, completes_eq_nil h]
  delivers _ _ _ := rfl

theorem main_silent (config : Config) : (runStarted config).Straight Op.Silent := by
  refine Completes.runStarted ⟨fun _ => rfl, fun _ => rfl, fun _ => rfl, fun _ _ => rfl,
    fun _ => rfl, fun _ => rfl, fun _ => rfl, fun _ => rfl, fun _ => rfl, ?_, ?_⟩ ?_
  · rintro event h
    exact triggers_silent.fires event (by rcases h with h | h <;> rw [h] <;> nofun)
  · exact fun _ _ _ => rfl
  · exact triggers_silent.triggerEvent _ nofun fun _ => ⟨fun _ => rfl, nofun⟩

/-- Only workers report deletions. -/
theorem completed_of_not_worker (h : Running config outside w) {i : TaskId} {e : Event}
    (he : (i, e) ∈ w.log) (hi : i ∉ workers config) : completed e = [] := by
  have hmem := mem_traceOf.mpr he
  have hs := h.started he
  have hu := h.mayUse he
  rcases e with ⟨op, a⟩
  cases op
  case updatePipelineStats event =>
    rcases i with (_ | n | n) | s | _ | _
    case stage.filter =>
      have hn : n < (filterObjects config).length := StageId.filter_started.mp hs
      have hpart := h.part (filterObjects_program (List.getElem?_eq_getElem hn))
      exact List.flatMap_eq_nil_iff.mp (part_filter_completed hpart) _ hmem
    case stage.worker => exact absurd (mem_workers.mpr ⟨n, StageId.worker_started.mp hs, rfl⟩) hi
    case main => exact (h.part (i := .main) rfl).uses (main_silent config).uses _ hmem a
    all_goals simp [TaskId.mayUse, Op.isListing, Op.isSupervising] at hu
  all_goals rfl

/-! ### What is closed stays closed -/

/-- A channel someone found closed is closed. -/
theorem closed_law (h : Running config outside w) {i : TaskId} {e : Event} {c : Nat}
    (he : (i, e) ∈ w.log) (hsaw : e.sawClosed c) : isChannelClosed config w.outcome c = true := by
  refine h.induction (P := fun w => ∀ i (e : Event), (i, e) ∈ w.log → e.sawClosed c →
    isChannelClosed config w.outcome c = true) ?_ ?_ ?_ ?_ i e he hsaw
  · simp [start]
  · intro u j o k r sh _ hP run hh _ i e he hsaw
    rw [outcome_perform run]
    simp only [World.record_log, World.put_log, List.mem_append, List.mem_singleton] at he
    rcases he with he | he
    · exact hP i e he hsaw
    · cases he
      exact hh.closed_of_unsent c hsaw
  · intro u v _ hP hlog _ hout i e he hsaw
    exact isChannelClosed_mono hout (hP i e (hlog ▸ he) hsaw)
  · exact fun u _ hP _ => hP

/-- Nobody sends on a channel that it had found closed. -/
theorem not_reopened (h : Running config outside w) {i : TaskId} {t₁ t₂ : Trace} {o : S3Object}
    {c : Nat} (ht : traceOf i w.log = t₁ ++ ⟨.send c o, true⟩ :: t₂) : ∀ e ∈ t₁, ¬ e.sawClosed c := by
  refine h.each_event (R := fun t₁ x => x = ⟨.send c o, true⟩ → ∀ e ∈ t₁, ¬ e.sawClosed c) ?_ ht rfl
  rintro u op a sh hu _ hh hx e he hsaw
  have hclosed := closed_law hu (mem_traceOf.mp he) hsaw
  rw [hx] at hh
  rw [hh.open_of_sent c (by simp [sentTo])] at hclosed
  cases hclosed

/-- Nobody finds a channel open that it had found closed. -/
theorem not_found_open (h : Running config outside w) {i : TaskId} {t₁ t₂ : Trace} {c : Nat}
    (ht : traceOf i w.log = t₁ ++ ⟨.isClosed c, false⟩ :: t₂) : ∀ e ∈ t₁, ¬ e.sawClosed c := by
  refine h.each_event (R := fun t₁ x => x = ⟨.isClosed c, false⟩ → ∀ e ∈ t₁, ¬ e.sawClosed c) ?_ ht rfl
  intro u op a sh hu _ hh hx e he hsaw
  have hclosed := closed_law hu (mem_traceOf.mp he) hsaw
  rw [← hh.closed c false hx] at hclosed
  cases hclosed

/-! ### What one worker receives -/

/-- What is sent is what was listed up to the first object that found the channel
closed. -/
theorem lister_isPrefix (h : Run (listTarget 0) t r)
    (hclosed : ∀ t₁ o t₂, t = t₁ ++ ⟨.send 0 o, true⟩ :: t₂ → ∀ e ∈ t₁, ¬ e.sawClosed 0) :
    t.flatMap (sentTo 0) <+: t.flatMap listed := by
  have hturn : ∀ {failed t u v x}, ListTurn failed u x →
      (∀ t₁ o t₂, t ++ u ++ v = t₁ ++ ⟨.send 0 o, true⟩ :: t₂ → ∀ e ∈ t₁, ¬ e.sawClosed 0) →
      (t.flatMap (sentTo 0) = t.flatMap listed ∨
        t.flatMap (sentTo 0) <+: t.flatMap listed ∧ ∃ e ∈ t, e.sawClosed 0) →
      ((t ++ u).flatMap (sentTo 0) = (t ++ u).flatMap listed ∨
        (t ++ u).flatMap (sentTo 0) <+: (t ++ u).flatMap listed ∧ ∃ e ∈ t ++ u, e.sawClosed 0) := by
    intro failed t u v x hu hclosed ht
    cases hu with
    | @object o sent =>
      cases sent with
      | true =>
        rcases ht with heq | ⟨-, e, he, hsaw⟩
        · exact .inl (by simp [heq, sentTo, listed])
        · exact absurd hsaw (hclosed (t ++ [⟨.nextListed, .object o⟩]) o v (by simp) e (by simp [he]))
      | false =>
        have hpre : t.flatMap (sentTo 0) <+: t.flatMap listed := ht.elim (fun heq => heq ▸ List.prefix_refl _) (·.1)
        refine .inr ⟨?_, ⟨.send 0 o, false⟩, by simp, rfl⟩
        simpa [sentTo, listed] using hpre.trans (List.prefix_append _ [o])
    | subListing | finished =>
      rcases ht with heq | ⟨hpre, e, he, hsaw⟩
      · exact .inl (by simp [heq, sentTo, listed])
      · exact .inr ⟨by simpa [sentTo, listed] using hpre, e, List.mem_append_left _ he, hsaw⟩
  have all : ∀ e ∈ t, (fun _ : Event => True) e := fun _ _ => trivial
  have hloop := run_of_loop
    (I := fun _ u => u <+: t → u.flatMap (sentTo 0) = u.flatMap listed ∨
      u.flatMap (sentTo 0) <+: u.flatMap listed ∧ ∃ e ∈ u, Event.sawClosed 0 e)
    (fun _ => .inl rfl) ?_ h all
  · obtain ⟨failed, u, v, rfl, hI, hv, -⟩ := hloop
    have hend := hturn (v := []) (run_listTurn hv) (by simpa using hclosed)
      (hI (List.prefix_append u v))
    exact hend.elim (fun heq => heq ▸ List.prefix_refl _) (·.1)
  · rintro failed u v failed' hI hv - ⟨z, rfl⟩
    exact hturn (run_listTurn hv) hclosed
      (hI (by rw [List.append_assoc]; exact List.prefix_append u (v ++ z)))

/-- The answers of a callback without a state. -/
def Answers.callback (A : Answers) : Callback Unit where
  initial := ()
  executeFilter _ o := (A.respond (.executeFilter o), ())

theorem callback_answers (A : Answers) (os : List S3Object) :
    A.callback.answers os = os.map fun o => (o, A.respond (.executeFilter o)) := by
  show A.callback.answersFrom () os = _
  induction os with
  | nil => rfl
  | cons o os ih => exact congrArg (_ :: ·) ih

theorem callback_follows (h : Running config outside w) (hK : A.Known)
    (hA : ∀ e, outside.admits e → A.agrees e) : A.callback.Follows (w.proj consulted) := by
  have heach : ∀ d ∈ w.proj consulted, d.2 = A.respond (.executeFilter d.1) := by
    intro d hd
    obtain ⟨⟨i, e⟩, he, hde⟩ := List.mem_flatMap.mp hd
    have hagree := hA e (h.admits i e (mem_traceOf.mpr he))
    rcases e with ⟨op, a⟩
    cases op
    case executeFilter o =>
      obtain rfl := List.mem_singleton.mp hde
      obtain ⟨x, hx⟩ := Option.isSome_iff_exists.mp (hK.filter o)
      show a = (A.filter o).getD _
      rw [hagree x hx, hx]
      rfl
    all_goals cases hde
  rw [Callback.Follows, callback_answers, List.map_map]
  conv_lhs => rw [← List.map_id (w.proj consulted)]
  refine List.map_congr_left fun d hd => ?_
  show d = (d.1, _)
  rw [← heach d hd]

/-- Fixed answers make the chain a filter. -/
theorem survivors_callback (config : Config) (hK : A.Known) (kinds : List FilterKind)
    (os : List S3Object) : survivors config A.callback kinds os =
      os.filter fun o => kinds.all (·.keep config A o) := by
  induction kinds generalizing os with
  | nil => simp [survivors]
  | cons kind kinds ih =>
    have hstage : accepted (kind.decisions config A.callback os) = os.filter (kind.keep config A ·) := by
      have hmap : ∀ f : S3Object → Except Error Bool, accepted (os.map fun o => (o, f o)) =
          os.filter fun o => f o = .ok true := by
        intro f
        simp [accepted, List.filter_map, Function.comp_def]
      unfold FilterKind.decisions
      split_ifs with hc
      · rw [callback_answers, hmap]
        refine List.filter_congr fun o _ => ?_
        cases kind with
        | base => cases hc
        | userDefined =>
          obtain ⟨a, ha⟩ := Option.isSome_iff_exists.mp (hK.filter o)
          have hreg : config.filterCallbackRegistered = true := hc
          rcases a with e | c <;> simp [Answers.respond, FilterKind.keep, hreg, ha]
      · rw [hmap fun o => .ok (kind.accepts config o)]
        refine List.filter_congr fun o _ => ?_
        cases kind with
        | base => simp [FilterKind.accepts, FilterKind.keep]
        | userDefined =>
          have hreg : ¬ config.filterCallbackRegistered = true := hc
          simp [FilterKind.accepts, FilterKind.keep, hreg]
    rw [survivors, hstage, ih, List.filter_filter]
    exact List.filter_congr fun o _ => by simp [Bool.and_comm]

/-! ### A run over the objects -/

/-- A run over the objects, with these answers, that nobody has cancelled from
outside and that is over. -/
structure RunsOver (config : Config) (A : Answers) (objects : List S3Object) (outside : Outside)
    (w : PipelineWorld) : Prop where
  running : Running config outside w
  uncancelled : ¬ outside.mayCancel
  answers : ∀ e, outside.admits e → A.agrees e
  lists : w.proj listed <+: objects
  complete : w.shared.cancelled = false → w.proj listed = objects
  ended : Over config w

/-- No task has panicked, and none but workers has failed. -/
def OnlyWorkersFail (w : PipelineWorld) : Prop :=
  ∀ i o, w.outcome i = some o → o = .done (.ok ()) ∨ ∃ n r, i = .stage (.worker n) ∧ o = .done r

/-- No task has panicked or failed. -/
def NoneFails (w : PipelineWorld) : Prop := ∀ i o, w.outcome i = some o → o = .done (.ok ())

theorem mem_tasksOf_stage {s : StageId} (hs : s.exists config) : .stage s ∈ tasksOf config :=
  mem_tasksOf (StageId.started_of_exists hs)

/-- The lister and the stages of the chain have ended well. -/
theorem OnlyWorkersFail.ok (honly : OnlyWorkersFail w) (hover : Over config w) {s : StageId}
    (hs : s.exists config) (hworker : ∀ n, s ≠ .worker n) :
    w.outcome (.stage s) = some (.done (.ok ())) := by
  obtain ⟨o, ho⟩ := Option.isSome_iff_exists.mp (hover _ (mem_tasksOf_stage hs))
  rcases honly _ _ ho with rfl | ⟨n, r, hn, -⟩
  · exact ho
  · cases hn
    exact absurd rfl (hworker n)

/-- If only workers fail, only they and their supervisors have cancelled the token. -/
theorem cancel_of_only_workers (h : Running config outside w) (hover : Over config w)
    (honly : OnlyWorkersFail w) {i : TaskId} (hi : (i, (⟨.cancel, ()⟩ : Event)) ∈ w.log) :
    i ∈ workers config ∨ ∃ n, i = .supervisor (.worker n) := by
  have hmem := mem_traceOf.mpr hi
  have hstart := h.started hi
  have huse := h.mayUse hi
  rcases i with (_ | n | n) | s | _ | _
  · have hrun := h.run (i := .stage .lister) rfl (honly.ok hover (s := .lister) rfl nofun)
    exact absurd hmem (cancels_eq_nil.mp (lister_live hrun))
  · have hn := StageId.filter_started.mp hstart
    obtain ⟨kind, hprog, -⟩ := filter_program (A := {}) hn
    have hrun := h.run hprog (honly.ok hover (s := .filter n) (decide_eq_true hn) nofun)
    exact absurd hmem (cancels_eq_nil.mp (filter_live hrun))
  · exact .inl (mem_workers.mpr ⟨n, StageId.worker_started.mp hstart, rfl⟩)
  · simp only [TaskId.started, TaskId.program] at hstart
    split_ifs at hstart with hs
    · have hprog : TaskId.program config (.supervisor s) = some (supervise config s) := by
        simp [TaskId.program, hs]
      obtain ⟨r, hr, hne⟩ := supervisor_cancels (h.part hprog) hmem
      rcases honly _ _ (join_law h (mem_traceOf.mp hr)) with hok | ⟨n, r', hn, -⟩
      · exact absurd hok hne
      · cases hn
        exact .inr ⟨n, rfl⟩
    · cases hstart
  · simp [TaskId.mayUse] at huse
  · simp [TaskId.mayUse, Op.isCompleting, Op.isNotice] at huse

section one

variable {objects : List S3Object} (h : RunsOver config A objects outside w)
  (hone : config.workerSize = 1) (honly : OnlyWorkersFail w)

include h hone honly

/-- The one worker has returned. -/
theorem RunsOver.worker_run : ∃ r, w.outcome (.stage (.worker 0)) = some (.done r) ∧
    Run (receiveAndDelete (workerStage config)) (traceOf (.stage (.worker 0)) w.log) r := by
  have hn : 0 < config.workerSize := by omega
  obtain ⟨o, ho⟩ := Option.isSome_iff_exists.mp
    (h.ended _ (mem_tasksOf_stage (s := .worker 0) (decide_eq_true hn)))
  obtain ⟨r, rfl⟩ : ∃ r, o = .done r :=
    (honly _ _ ho).elim (fun hok => ⟨_, hok⟩) fun ⟨_, r, _, hr⟩ => ⟨r, hr⟩
  exact ⟨r, ho, h.running.run (worker_program hn) ho⟩

/-- The one worker sees no cancellation but its own. -/
theorem RunsOver.ownToken : OwnToken (traceOf (.stage (.worker 0)) w.log) := by
  obtain ⟨r, -, hrun⟩ := h.worker_run hone honly
  intro t₁ e t₂ ht hsaw hlive
  have hpast := h.running.each_event (R := fun t₁ x => Event.sawCancelled x →
    t₁.flatMap cancels ≠ [] ∨ ∃ r, Run (receiveAndDelete (workerStage config)) t₁ r) ?_ ht hsaw
  · rcases hpast with hne | ⟨r', hrun'⟩
    · exact hne hlive
    · -- it would have returned before it saw the token
      have heq := (hrun'.eq_of_isPrefix hrun (ht ▸ List.prefix_append t₁ (e :: t₂))).1
      rw [ht] at heq
      simp at heq
  · intro u o a sh hu hbefore hh hsaw
    obtain ⟨j, r', hj⟩ := (cancelled_law hu (hh.saw hsaw)).resolve_left h.uncancelled
    rcases cancel_of_only_workers h.running h.ended honly (hbefore.log.subset hj) with hw | ⟨n, rfl⟩
    · obtain ⟨n, hn, rfl⟩ := mem_workers.mp hw
      obtain rfl : n = 0 := by omega
      refine .inl fun hnil => cancels_eq_nil.mp hnil (mem_traceOf.mpr hj)
    · have hstart := hu.started hj
      simp only [TaskId.started, TaskId.program] at hstart
      split_ifs at hstart with hs
      · have hprog : TaskId.program config (.supervisor (.worker n)) = some (supervise config (.worker n)) := by
          simp [TaskId.program, hs]
        have hn : n < config.workerSize := of_decide_eq_true hs
        obtain rfl : n = 0 := by omega
        obtain ⟨o, ho, -⟩ := supervisor_cancels (hu.part hprog) (mem_traceOf.mpr hj)
        have hout := join_law hu (mem_traceOf.mp ho)
        obtain ⟨r, rfl⟩ : ∃ r, o = .done r := by
          rcases honly _ _ (hbefore.ended _ _ hout) with hok | ⟨_, r, _, hr⟩
          · exact ⟨_, hok⟩
          · exact ⟨r, hr⟩
        exact .inr ⟨r, hu.run (worker_program hn) hout⟩
      · cases hstart

theorem RunsOver.onItsOwn
    (herr : ¬ DeleterErred config (traceOf (.stage (.worker 0)) w.log)) :
    OnItsOwn (workerStage config) A (traceOf (.stage (.worker 0)) w.log) where
  agrees e he := h.answers e (h.running.admits _ e he)
  token := h.ownToken hone honly
  lasting _ _ ht := not_revived h.running ht
  tickets := by
    have hproj : w.proj tickets = w.projOf tickets (.stage (.worker 0)) :=
      proj_worker hone fun _ _ => tickets_of_not_worker h.running
    have hlaw := ticket_law h.running
    rw [hproj] at hlaw
    have hlen : (w.projOf tickets (.stage (.worker 0))).length = w.shared.deleteCounter := by
      rw [hlaw, List.length_range]
    show w.projOf tickets (.stage (.worker 0)) = _
    rw [hlaw]
    exact congrArg List.range hlen.symm
  returned := herr
  closed _ _ _ ht e he := ⟨not_lost h.running ht he, not_found_open h.running ht e he⟩

end one

section chain

variable {objects : List S3Object} (h : RunsOver config A objects outside w) (hK : A.Known)

include h hK

/-- What the workers receive are the first of the objects that the chain keeps. -/
theorem RunsOver.got_isPrefix (honly : OnlyWorkersFail w) : w.proj (got (filterCount config)) <+:
    objects.filter (chainKeeps config A (filterCount config)) := by
  have hsent : w.proj (sentTo 0) <+: w.proj listed := by
    rw [proj_sentTo_lister h.running, proj_listed h.running]
    exact lister_isPrefix (h.running.run rfl (honly.ok h.ended (s := .lister) rfl nofun))
      fun _ _ _ ht => not_reopened h.running ht
  have hchain := chain_isPrefix h.running (callback_follows h.running hK h.answers) le_rfl
  rw [survivors_callback config hK] at hchain
  refine List.IsPrefix.trans ?_ (hchain.trans ((hsent.trans h.lists).filter _))
  rw [channel_law h.running]
  exact List.prefix_append _ _

/-- In a clean run they are all of them. -/
theorem RunsOver.got_eq (hsize : 0 < config.workerSize) (hclean : Clean w) :
    w.proj (got (filterCount config)) =
      objects.filter (chainKeeps config A (filterCount config)) := by
  have hended : Ended config w := fun s hs => h.ended _ (mem_tasksOf_stage hs)
  rw [got_of_ended h.running h.answers hsize hclean hended le_rfl,
    stream_complete h.running hK h.answers hsize hclean hended le_rfl, h.complete hclean.live]

end chain

/-- A run is clean if no task fails and no worker cancels. -/
theorem RunsOver.clean {objects : List S3Object} (h : RunsOver config A objects outside w)
    (hnone : NoneFails w)
    (hquiet : ∀ n < config.workerSize,
      (traceOf (.stage (.worker n)) w.log).flatMap cancels = []) : Clean w := by
  have hok : ∀ s : StageId, s.exists config → w.outcome (.stage s) = some (.done (.ok ())) := by
    intro s hs
    obtain ⟨o, ho⟩ := Option.isSome_iff_exists.mp (h.ended _ (mem_tasksOf_stage hs))
    rw [ho, hnone _ o ho]
  refine ⟨hnone, ?_⟩
  by_contra hcan
  obtain ⟨j, r, hj⟩ := (cancelled_law h.running (by simpa using hcan)).resolve_left h.uncancelled
  obtain ⟨n, hn, rfl⟩ := mem_workers.mp (cancel_of_ok h.running hok hj)
  exact cancels_eq_nil.mp (hquiet n hn) (mem_traceOf.mpr hj)

/-- **One worker previews the objects**, in a dry run and in any other. -/
theorem RunsOver.one_worker {objects : List S3Object} (h : RunsOver config A objects outside w)
    (hK : A.Known) (hone : config.workerSize = 1) (honly : OnlyWorkersFail w)
    (hwarn : config.warnAsError = false)
    (herr : ¬ DeleterErred config (traceOf (.stage (.worker 0)) w.log)) :
    (config.dryRun = false → w.proj begun = preview config A
      (objects.filter (chainKeeps config A (filterCount config))) [] 0) ∧
    (config.dryRun = true → w.proj completed = (preview config A
      (objects.filter (chainKeeps config A (filterCount config))) [] 0).map S3Object.id) := by
  obtain ⟨r, hout, hrun⟩ := h.worker_run hone honly
  obtain ⟨passed, hpasses, hbegins, hreports⟩ :=
    worker_preview hrun hK hwarn (h.onItsOwn hone honly herr)
  have hgot : (traceOf (.stage (.worker 0)) w.log).flatMap (got (filterCount config)) =
      w.proj (got (filterCount config)) :=
    (proj_worker hone fun _ _ => got_of_not_worker h.running).symm
  have hpreview : preview config A (objects.filter (chainKeeps config A (filterCount config))) [] 0 =
      passed := by
    rcases hpasses with ⟨rfl, hlive, heq⟩ | heq
    · have hnone : NoneFails w := by
        intro i o ho
        rcases honly i o ho with hdone | ⟨n, r, rfl, rfl⟩
        · exact hdone
        · have hn := StageId.worker_started.mp (h.running.started_of_outcome ho)
          obtain rfl : n = 0 := by omega
          rw [hout] at ho
          exact (Option.some.inj ho).symm
      have hclean := h.clean hnone fun n hn => by
        obtain rfl : n = 0 := by omega
        exact hlive
      rw [← h.got_eq hK (by omega) hclean, ← hgot]
      exact heq
    · obtain ⟨os, hos⟩ := h.got_isPrefix hK honly
      rw [← hos, ← hgot]
      exact heq os
  rw [hpreview]
  constructor
  · intro wet
    rw [proj_worker hone fun _ _ => begun_of_not_worker h.running]
    exact hbegins wet
  · intro dry
    rw [proj_worker hone fun _ _ => completed_of_not_worker h.running, ← hreports dry, completions_eq]
    rfl

/-! ### Any number of workers -/

/-- Without a limit, a worker of a clean run passes on what its filters let through. -/
theorem worker_passes_all (h : Running config outside w) (hK : A.Known)
    (hA : ∀ e, outside.admits e → A.agrees e) (hclean : Clean w) (hmax : config.maxDelete = none)
    {n : Nat} (hout : w.outcome (.stage (.worker n)) = some (.done (.ok ()))) :
    (config.dryRun = false → w.projOf begun (.stage (.worker n)) =
      (w.projOf (got (filterCount config)) (.stage (.worker n))).filter (workerSelects config A)) ∧
    (config.dryRun = true → w.projOf completed (.stage (.worker n)) =
      ((w.projOf (got (filterCount config)) (.stage (.worker n))).filter
        (workerSelects config A)).map S3Object.id) := by
  obtain ⟨ds, hds⟩ := worker_history h hclean hout
  have hpassed : ds.flatMap Deed.batch =
      (w.projOf (got (filterCount config)) (.stage (.worker n))).filter (workerSelects config A) := by
    have hconserved := hds.conserved
    rw [List.append_nil, allowed, List.filter_eq_self.mpr] at hconserved
    · rw [hconserved, hds.selected (fun e he => hA e (h.admits _ e he)) hK]
      rfl
    · intro a _
      simp [withinLimit, workerStage, hmax]
  refine ⟨fun wet => ?_, fun dry => ?_⟩
  · rw [← hpassed]
    exact hds.begun wet
  · rw [← hpassed, ← hds.completions dry, completions_eq]
    rfl

/-- **Workers without a limit pass on what is selected**, whatever their number. -/
theorem RunsOver.all_workers {objects : List S3Object} (h : RunsOver config A objects outside w)
    (hK : A.Known) (hsize : 0 < config.workerSize) (hmax : config.maxDelete = none)
    (hnone : NoneFails w) (hwarn : config.warnAsError = false) :
    (config.dryRun = false → (w.proj begun).Perm ((objects.filter
      (chainKeeps config A (filterCount config))).filter (workerSelects config A))) ∧
    (config.dryRun = true → (w.proj completed).Perm (((objects.filter
      (chainKeeps config A (filterCount config))).filter (workerSelects config A)).map S3Object.id)) := by
  have hout : ∀ n < config.workerSize,
      w.outcome (.stage (.worker n)) = some (.done (.ok ())) := by
    intro n hn
    obtain ⟨o, ho⟩ := Option.isSome_iff_exists.mp
      (h.ended _ (mem_tasksOf_stage (s := .worker n) (decide_eq_true hn)))
    rw [ho, hnone _ o ho]
  have hclean := h.clean hnone fun n hn => cancels_eq_nil.mpr fun hc => by
    -- only an object over the limit would make it cancel
    obtain ⟨k, -, hover⟩ :=
      worker_cancels (h.running.run (worker_program hn) (hout n hn)) hwarn hc
    simp [withinLimit, workerStage, hmax] at hover
  have hworker := fun n (hn : n < config.workerSize) =>
    worker_passes_all h.running hK h.answers hclean hmax (hout n hn)
  have hgot : ((w.proj (got (filterCount config)) : List S3Object) : Multiset S3Object) =
      ∑ n ∈ Finset.range config.workerSize,
        (w.projOf (got (filterCount config)) (.stage (.worker n)) : Multiset S3Object) :=
    coe_proj_workers fun _ _ => got_of_not_worker h.running
  have hfilter : ∀ os : List S3Object, (os.filter (workerSelects config A) : Multiset S3Object) =
      (os : Multiset S3Object).filter (workerSelects config A ·) := by
    intro os
    simp [Multiset.filter_coe]
  have hselected : (((objects.filter (chainKeeps config A (filterCount config))).filter
      (workerSelects config A) : List S3Object) : Multiset S3Object) =
      ∑ n ∈ Finset.range config.workerSize, ((w.projOf (got (filterCount config))
        (.stage (.worker n))).filter (workerSelects config A) : Multiset S3Object) := by
    rw [← h.got_eq hK hsize hclean, hfilter, hgot, filter_sum]
    exact Finset.sum_congr rfl fun n _ => (hfilter _).symm
  constructor
  · intro wet
    rw [← Multiset.coe_eq_coe, hselected, coe_proj_workers fun _ _ => begun_of_not_worker h.running]
    exact Finset.sum_congr rfl fun n hn =>
      congrArg _ ((hworker n (Finset.mem_range.mp hn)).1 wet)
  · intro dry
    rw [← Multiset.coe_eq_coe, ← Multiset.map_coe, hselected, map_sum_multiset,
      coe_proj_workers fun _ _ => completed_of_not_worker h.running]
    refine Finset.sum_congr rfl fun n hn => ?_
    rw [Multiset.map_coe]
    exact congrArg _ ((hworker n (Finset.mem_range.mp hn)).2 dry)

/-! ### The two modes -/

/-- The filters, the limit and the batch size are those of any other run. -/
theorem preview_dryRun (config : Config) (dry : Bool) (os b : List S3Object) (k : Nat) :
    preview { config with dryRun := dry } A os b k = preview config A os b k := by
  induction os generalizing b k with
  | nil => rfl
  | cons o os ih =>
    rw [preview, preview]
    simp only [ih]
    rfl

/-- A dry run starts no call of `Deleter::delete`. -/
theorem covers_beginsNone (stage : Stage) :
    Covers stage fun o => o.beginsNone = false → stage.config.dryRun = false where
  select := nofun
  isClosed := nofun
  isCancelled := nofun
  fetchAdd := nofun
  screens := ⟨fun _ _ => nofun, fun _ _ => nofun, fun _ => nofun, nofun, fun _ _ => nofun,
    fun _ _ => nofun⟩
  finishes := ⟨fun _ => nofun, fun _ => nofun, nofun, nofun, nofun, fun _ => nofun, nofun,
    fun _ _ => nofun, fun _ _ => nofun⟩
  begins hdry _ _ := hdry
  backend hdry _ _ _ := hdry

theorem RunsOver.silent {objects : List S3Object} (h : RunsOver config A objects outside w)
    (dry : config.dryRun = true) (n : Nat) :
    ¬ DeleterErred config (traceOf (.stage (.worker n)) w.log) := by
  refine not_deleterErred fun e he => ?_
  by_cases hn : n < config.workerSize
  · have huses := (h.running.part (worker_program hn)).uses (covers_beginsNone (workerStage config)).uses
    by_contra hbegins
    have hwet : config.dryRun = false := huses e he (by simpa using hbegins)
    simp [dry] at hwet
  · exact absurd (h.running.worker_lt he) hn

/-- Nothing is passed on or reported where there is no worker. -/
theorem proj_no_worker {β : Type} {f : Event → List β} (hzero : config.workerSize = 0)
    (hf : ∀ i e, (i, e) ∈ w.log → i ∉ workers config → f e = []) : w.proj f = [] := by
  refine List.flatMap_eq_nil_iff.mpr fun ⟨i, e⟩ he => hf i e he fun hi => ?_
  obtain ⟨n, hn, -⟩ := mem_workers.mp hi
  omega

/-- **A dry run is a faithful preview**, where stages do not fail.  Let two runs
over the same objects, with the same answers, differ in dry run, and let no call of
`Deleter::delete` return an error.  One worker, which may fail, reports in the dry
run, object for object, what the other run passes to `Deleter::delete`; any number
of workers, without a limit, and none failing, report the same objects.  The dry
run sends no delete request. -/
theorem dry_run_faithful {objects : List S3Object} {outside' : Outside} {w' : PipelineWorld}
    (hdry : RunsOver { config with dryRun := true } A objects outside w)
    (hwet : RunsOver { config with dryRun := false } A objects outside' w')
    (hK : A.Known) (hwarn : config.warnAsError = false)
    (herr : ∀ n, ¬ DeleterErred { config with dryRun := false }
      (traceOf (.stage (.worker n)) w'.log)) :
    (config.workerSize = 1 → OnlyWorkersFail w → OnlyWorkersFail w' →
      w.proj completed = (w'.proj begun).map S3Object.id) ∧
    (config.maxDelete = none → NoneFails w → NoneFails w' →
      (w.proj completed).Perm ((w'.proj begun).map S3Object.id)) ∧
    ∀ i e, (i, e) ∈ w.log → e.1.isDeletion = false := by
  refine ⟨fun hone honly honly' => ?_, fun hmax hnone hnone' => ?_, fun i e he => ?_⟩
  · have hreports := (hdry.one_worker hK hone honly hwarn (hdry.silent rfl 0)).2 rfl
    have hpasses := (hwet.one_worker hK hone honly' hwarn (herr 0)).1 rfl
    rw [hreports, hpasses, preview_dryRun config true, preview_dryRun config false]
    rfl
  · rcases Nat.eq_zero_or_pos config.workerSize with hzero | hsize
    · have hreports : w.proj completed = [] :=
        proj_no_worker (show { config with dryRun := true }.workerSize = 0 from hzero)
          fun _ _ => completed_of_not_worker hdry.running
      have hpasses : w'.proj begun = [] :=
        proj_no_worker (show { config with dryRun := false }.workerSize = 0 from hzero)
          fun _ _ => begun_of_not_worker hwet.running
      rw [hreports, hpasses]
      exact .refl _
    · have hreports := (hdry.all_workers hK hsize hmax hnone hwarn).2 rfl
      have hpasses := (hwet.all_workers hK hsize hmax hnone' hwarn).1 rfl
      exact hreports.trans (hpasses.map S3Object.id).symm
  · obtain ⟨p, hp⟩ := Option.isSome_iff_exists.mp (hdry.running.started he)
    have huses := (hdry.running.part hp).uses (TaskId.program_uses_deletion hp)
    by_contra hdel
    have hwet := huses e (mem_traceOf.mpr he) (by simpa using hdel)
    cases hwet

/-! ### A limit, two workers, and a callback that fails -/

theorem not_deleterErred_single (hsize : config.batchSize ≤ 1) : ¬ DeleterErred config t := by
  rintro ⟨delete⟩
  unfold deleterDelete at delete
  rw [if_pos hsize] at delete
  obtain ⟨_, he, -⟩ := run_singleDelete delete
  cases he

theorem noneFails_of_tasks (h : Running config outside w)
    (hw : ∀ i ∈ tasksOf config, w.outcome i = some (.done (.ok ()))) : NoneFails w := by
  intro i o ho
  have hi := hw i (mem_tasksOf (h.started_of_outcome ho))
  rw [ho] at hi
  exact Option.some.inj hi

/-- A script is run over its objects. -/
theorem Script.runsOver {script : Script} {objects : List S3Object} {schedule : List TaskId}
    (hlists : (script.run config script.outside schedule).proj listed = objects)
    (hover : Over config (script.run config script.outside schedule)) :
    RunsOver config script.answers objects script.outside
      (script.run config script.outside schedule) where
  running := Script.running (fun _ _ _ => Script.agrees) _
  uncancelled := not_false
  answers _ he := he
  lists := hlists ▸ List.prefix_refl _
  complete _ := hlists
  ended := hover

def seenObjects : List S3Object := [sampleObject "a" 3, sampleObject "b" 5, sampleObject "c" 7]

def seenScript : Script where
  listing := seenObjects.map .object ++ [.finished (.ok ())]

def seenConfig (workers : Nat) (limit : Option Nat) (dry : Bool) : Config where
  workerSize := workers
  batchSize := 1
  maxDelete := limit
  dryRun := dry

def seenRun (workers : Nat) (limit : Option Nat) (dry : Bool) : PipelineWorld :=
  seenScript.run (seenConfig workers limit dry) seenScript.outside
    (roundRobin (seenConfig workers limit dry) 60)

/-- `dry_run_faithful` on one worker with a limit of two, and on two workers. -/
theorem dry_run_faithful_seenRun :
    ((seenRun 1 (some 2) true).proj completed =
        ((seenRun 1 (some 2) false).proj begun).map S3Object.id ∧
      (seenRun 1 (some 2) true).proj completed = [("a", none), ("b", none)]) ∧
    ((seenRun 2 none true).proj completed).Perm
      (((seenRun 2 none false).proj begun).map S3Object.id) := by
  have hone := @dry_run_faithful (seenConfig 1 (some 2) false) seenScript.outside
    (seenRun 1 (some 2) true) seenScript.answers seenObjects seenScript.outside
    (seenRun 1 (some 2) false) (Script.runsOver (by decide +kernel) (by decide +kernel))
    (Script.runsOver (by decide +kernel) (by decide +kernel)) seenScript.known rfl
    fun _ => not_deleterErred_single (by decide)
  have htwo := @dry_run_faithful (seenConfig 2 none false) seenScript.outside
    (seenRun 2 none true) seenScript.answers seenObjects seenScript.outside
    (seenRun 2 none false) (Script.runsOver (by decide +kernel) (by decide +kernel))
    (Script.runsOver (by decide +kernel) (by decide +kernel)) seenScript.known rfl
    fun _ => not_deleterErred_single (by decide)
  have hrunning : ∀ workers limit dry, Running (seenConfig workers limit dry) seenScript.outside
      (seenRun workers limit dry) := fun _ _ _ => Script.running (fun _ _ _ => Script.agrees) _
  refine ⟨⟨hone.1 rfl (fun i o ho => .inl ?_) (fun i o ho => .inl ?_), by decide +kernel⟩,
    htwo.2.1 rfl ?_ ?_⟩
  · exact noneFails_of_tasks (hrunning 1 (some 2) true) (by decide +kernel) i o ho
  · exact noneFails_of_tasks (hrunning 1 (some 2) false) (by decide +kernel) i o ho
  · exact noneFails_of_tasks (hrunning 2 none true) (by decide +kernel)
  · exact noneFails_of_tasks (hrunning 2 none false) (by decide +kernel)

def misledConfig (dry : Bool) : Config where
  workerSize := 1
  batchSize := 1
  dryRun := dry
  filterCallbackRegistered := true

/-- The callback fails on the second object. -/
def misledScript : Script where
  listing := [.object (sampleObject "a" 3), .object (sampleObject "b" 5), .finished (.ok ())]
  filter o := if o.key = "b" then .error (.other "callback") else .ok true

/-- The worker is done with the first object before the callback sees the second. -/
def earlyRun : PipelineWorld :=
  misledScript.run (misledConfig true) misledScript.outside
    (List.replicate 10 (.stage .lister) ++ List.replicate 4 (.stage (.filter 0)) ++
      List.replicate 12 (.stage (.worker 0)) ++ roundRobin (misledConfig true) 40)

/-- The callback has failed before the worker receives the first object. -/
def haltedRun : PipelineWorld :=
  misledScript.run (misledConfig false) misledScript.outside
    (List.replicate 10 (.stage .lister) ++ List.replicate 20 (.stage (.filter 0)) ++
      List.replicate 10 (.supervisor (.filter 0)) ++ roundRobin (misledConfig false) 40)

/-- **A preview can mislead**: when a stage fails, how far the other stages have
come is a matter of the schedule. -/
theorem dry_run_misleads :
    ¬ ∀ (config : Config) (A : Answers) (objects : List S3Object) (outside outside' : Outside)
      (w w' : PipelineWorld), A.Known → config.warnAsError = false →
      RunsOver { config with dryRun := true } A objects outside w →
      RunsOver { config with dryRun := false } A objects outside' w' →
      (∀ n, ¬ DeleterErred { config with dryRun := false }
        (traceOf (.stage (.worker n)) w'.log)) → config.workerSize = 1 →
      w.proj completed = (w'.proj begun).map S3Object.id := by
  intro hfaithful
  have heq := hfaithful (misledConfig false) misledScript.answers
    [sampleObject "a" 3, sampleObject "b" 5] misledScript.outside misledScript.outside earlyRun haltedRun
    misledScript.known rfl (Script.runsOver (by decide +kernel) (by decide +kernel))
    (Script.runsOver (by decide +kernel) (by decide +kernel))
    (fun _ => not_deleterErred_single (by decide)) rfl
  have hreports : earlyRun.proj completed = [("a", none)] := by decide +kernel
  have hpasses : haltedRun.proj begun = [] := by decide +kernel
  rw [hreports, hpasses] at heq
  cases heq

end S3rm
