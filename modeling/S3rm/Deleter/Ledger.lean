/-
S3rm/Deleter/Ledger.lean

The books of a delete worker.  An admission is an object together with the
ticket it drew from the delete counter.  At every moment of a worker
(`worker_ledger`):

    the tickets of its admissions are the tickets it drew,
    the admitted objects are objects it received and its filters selected,
    what it passed to the backend is a sublist of the admissions whose ticket
    is within the limit.

At the loop head, and for a worker that returned (`worker_returned`), the last
two are equations once the buffer is counted in (`Balanced`), the one on
admissions if it is known what the filters select.
-/
import S3rm.Deleter.Turns

namespace S3rm

open Conc Conc.Prog

variable {config : Config} {stage : Stage} {sel : S3Object → Bool} {known : Prop} {A : Answers}
  {adm : List (S3Object × Nat)} {b b' : List S3Object} {o : S3Object} {k : Nat} {t u v w z : Trace}

theorem prefix_middle {α : Type} {v w z : List α} {e : α} (h : v <+: w ++ e :: z) :
    v <+: w ∨ ∃ z', z' <+: z ∧ v = w ++ e :: z' := by
  obtain ⟨x, hx⟩ := h
  rcases List.append_eq_append_iff.mp hx with ⟨y, rfl, -⟩ | ⟨y, rfl, hy⟩
  · exact .inl (List.prefix_append v y)
  · rcases y with - | ⟨e', y⟩
    · exact .inl (by simp)
    · obtain ⟨rfl, rfl⟩ := List.cons.inj hy
      exact .inr ⟨y, List.prefix_append y x, rfl⟩

/-! ### Flushing -/

theorem Flush.isFlush {r : Except Error (List S3Object)} (h : Flush stage b u r) :
    ∀ e ∈ u, e.1.isFlush stage.sender := by
  have hdelete : ∀ {o rest v r}, Run (deleterDelete stage.config o rest) v r →
      ∀ e ∈ v, e.1.isFlush stage.sender := fun hv e he =>
    Op.isFlush_of_isBackend (hv.uses (deleterDelete_straight ..).uses e he)
  have hfinish : ∀ {batch result w y}, Run (finishBatch stage batch result) w y →
      ∀ e ∈ w, e.1.isFlush stage.sender := fun hw e he =>
    Op.isFlush_of_isFinish (hw.uses (finishBatch_straight ..).uses e he)
  cases h with
  | empty => simp
  | cancelled => simp [Op.isFlush]
  | simulated _ _ finish => simpa [Op.isFlush] using hfinish finish
  | failed _ _ delete =>
    have hd := hdelete delete
    intro e he
    simp only [List.mem_cons, List.mem_append, List.not_mem_nil, or_false] at he
    rcases he with rfl | rfl | he | rfl
    exacts [rfl, rfl, hd e he, rfl]
  | deleted _ _ delete finish =>
    have hd := hdelete delete
    have hf := hfinish finish
    intro e he
    simp only [List.mem_cons, List.mem_append] at he
    rcases he with rfl | rfl | he | he
    exacts [rfl, rfl, hd e he, hf e he]

theorem begun_of_finish {batch : List S3Object} {result : DeleteResult} {y : Except Error Unit}
    (h : Run (finishBatch stage batch result) w y) : w.flatMap begun = [] :=
  flatMap_eq_nil_of_straight h (finishBatch_straight ..) fun _ => begun_finish

theorem begun_of_delete {rest : List S3Object} {r : Except Error DeleteResult}
    (h : Run (deleterDelete config o rest) v r) : v.flatMap begun = [] :=
  flatMap_eq_nil_of_straight h (deleterDelete_straight ..) fun _ => begun_backend

/-- A flush passes nothing but the buffer to the backend. -/
theorem Flush.begun_sublist {r : Except Error (List S3Object)} (h : Flush stage b u r) :
    (u.flatMap begun).Sublist b := by
  cases h with
  | empty => simp
  | cancelled => simp [begun]
  | simulated _ _ finish => simp [begun, begun_of_finish finish]
  | failed _ _ delete => simp [begun, begun_of_delete delete]
  | deleted _ _ delete finish => simp [begun, begun_of_delete delete, begun_of_finish finish]

/-- What a flush leaves in the buffer, it has not passed on, and without dry run
the rest it has. -/
theorem Flush.balance (h : Flush stage b u (.ok b')) :
    (u.flatMap begun ++ b').Sublist b ∧ (stage.config.dryRun = false → u.flatMap begun ++ b' = b) := by
  generalize hr : (Except.ok b' : Except Error (List S3Object)) = r at h
  cases h with
  | empty h =>
    cases hr
    simp [h]
  | cancelled =>
    cases hr
    simp [begun]
  | @simulated w y _ dry finish =>
    rcases y with e | _
    · cases hr
    · cases hr
      simp [begun, begun_of_finish finish, dry]
  | failed => cases hr
  | @deleted o rest v w result y _ _ delete finish =>
    rcases y with e | _
    · cases hr
    · cases hr
      simp [begun, begun_of_delete delete, begun_of_finish finish]

theorem Flush.emptied (h : Flush stage b u (.ok b')) :
    b' = [] ∨ (⟨.isCancelled, true⟩ : Event) ∈ u := by
  generalize hr : (Except.ok b' : Except Error (List S3Object)) = r at h
  cases h with
  | empty h =>
    cases hr
    exact .inl rfl
  | cancelled =>
    cases hr
    exact .inr (List.mem_singleton_self _)
  | @simulated w y =>
    rcases y with e | _ <;> cases hr
    exact .inl rfl
  | failed => cases hr
  | @deleted o rest v w result y =>
    rcases y with e | _ <;> cases hr
    exact .inl rfl

/-! ### The books -/

/-- The admissions whose ticket is within the limit. -/
def allowed (config : Config) (adm : List (S3Object × Nat)) : List S3Object :=
  (adm.filter fun a => withinLimit config a.2).map Prod.fst

theorem allowed_append (adm : List (S3Object × Nat)) (o : S3Object) (k : Nat) :
    allowed config (adm ++ [(o, k)]) =
      allowed config adm ++ if withinLimit config k then [o] else [] := by
  unfold allowed
  split_ifs with h <;> simp [List.filter_append, h]

/-- The books of a worker at some moment. -/
structure Ledger (stage : Stage) (sel : S3Object → Bool) (adm : List (S3Object × Nat))
    (t : Trace) : Prop where
  drawn : adm.map Prod.snd = t.flatMap tickets
  admitted : (adm.map Prod.fst).Sublist ((t.flatMap (got stage.receiver)).filter sel)
  passed : (t.flatMap begun).Sublist (allowed stage.config adm)

/-- The books of a worker at the head of its loop, with the buffer `b`. -/
structure Balanced (stage : Stage) (sel : S3Object → Bool) (known : Prop) (b : List S3Object)
    (adm : List (S3Object × Nat)) (t : Trace) : Prop where
  drawn : adm.map Prod.snd = t.flatMap tickets
  admitted : (adm.map Prod.fst).Sublist ((t.flatMap (got stage.receiver)).filter sel)
  complete : known → adm.map Prod.fst = (t.flatMap (got stage.receiver)).filter sel
  pending : (t.flatMap begun ++ b).Sublist (allowed stage.config adm)
  exact : stage.config.dryRun = false → t.flatMap begun ++ b = allowed stage.config adm

theorem Balanced.nil : Balanced stage sel known [] [] [] :=
  ⟨rfl, by simp, fun _ => rfl, by simp, fun _ => rfl⟩

theorem Balanced.ledger (h : Balanced stage sel known b adm t) : Ledger stage sel adm t :=
  ⟨h.drawn, h.admitted, (List.sublist_append_left _ _).trans h.pending⟩

/-- Events that touch neither tickets nor the backend keep the books, whatever
is received. -/
theorem Balanced.ledger_append (h : Balanced stage sel known b adm t) (ht : u.flatMap tickets = [])
    (hb : (u.flatMap begun).Sublist b) : Ledger stage sel adm (t ++ u) where
  drawn := by simp [h.drawn, ht]
  admitted := by
    rw [List.flatMap_append, List.filter_append]
    exact h.admitted.trans (List.sublist_append_left _ _)
  passed := by
    rw [List.flatMap_append]
    exact (hb.append_left _).trans h.pending

section admission

variable (h : Balanced stage sel known b adm t) (hsel : sel o) (hw : ∀ e ∈ w, e.1.isScreening)
  (hz : ∀ e ∈ z, e.1.isFlush stage.sender)

/-- The events of an admission: an object is received and screened, and draws
the ticket `k`. -/
def admission (stage : Stage) (o : S3Object) (w : Trace) (k : Nat) (z : Trace) : Trace :=
  ⟨.select stage.receiver, .received (some o)⟩ :: (w ++ ⟨.fetchAdd, k⟩ :: z)

include hw in
theorem begun_admission : (t ++ admission stage o w k z).flatMap begun =
    t.flatMap begun ++ z.flatMap begun := by
  have hw' : w.flatMap begun = [] :=
    List.flatMap_eq_nil_iff.mpr fun e he => begun_screening (hw e he)
  simp [admission, begun, hw']

include h hw hz in
theorem Balanced.admit_drawn :
    (adm ++ [(o, k)]).map Prod.snd = (t ++ admission stage o w k z).flatMap tickets := by
  have hw' : w.flatMap tickets = [] :=
    List.flatMap_eq_nil_iff.mpr fun e he => tickets_screening (hw e he)
  have hz' : z.flatMap tickets = [] :=
    List.flatMap_eq_nil_iff.mpr fun e he => tickets_flush (hz e he)
  simp [admission, h.drawn, tickets, hw', hz']

include hsel hw hz in
theorem got_admission : ((t ++ admission stage o w k z).flatMap (got stage.receiver)).filter sel =
    (t.flatMap (got stage.receiver)).filter sel ++ [o] := by
  have hw' : w.flatMap (got stage.receiver) = [] :=
    List.flatMap_eq_nil_iff.mpr fun e he => got_screening (hw e he)
  have hz' : z.flatMap (got stage.receiver) = [] :=
    List.flatMap_eq_nil_iff.mpr fun e he => got_flush (hz e he)
  simp [admission, got, hw', hz', hsel]

include h hsel hw hz in
theorem Balanced.admit_admitted : ((adm ++ [(o, k)]).map Prod.fst).Sublist
    (((t ++ admission stage o w k z).flatMap (got stage.receiver)).filter sel) := by
  rw [got_admission hsel hw hz, List.map_append]
  exact h.admitted.append_right [o]

include h in
theorem Balanced.admit_sublist {c : List S3Object}
    (hc : c.Sublist (b ++ if withinLimit stage.config k then [o] else [])) :
    (t.flatMap begun ++ c).Sublist (allowed stage.config (adm ++ [(o, k)])) := by
  rw [allowed_append]
  refine (hc.append_left _).trans ?_
  rw [← List.append_assoc]
  exact h.pending.append_right _

include h hsel hw hz in
theorem Balanced.admit
    (hb : (z.flatMap begun).Sublist (b ++ if withinLimit stage.config k then [o] else [])) :
    Ledger stage sel (adm ++ [(o, k)]) (t ++ admission stage o w k z) where
  drawn := h.admit_drawn hw hz
  admitted := h.admit_admitted hsel hw hz
  passed := begun_admission hw ▸ h.admit_sublist hb

include h hsel hw hz in
theorem Balanced.admit_balanced
    (hb : (z.flatMap begun ++ b').Sublist (b ++ if withinLimit stage.config k then [o] else []))
    (hex : stage.config.dryRun = false →
      z.flatMap begun ++ b' = b ++ if withinLimit stage.config k then [o] else []) :
    Balanced stage sel known b' (adm ++ [(o, k)]) (t ++ admission stage o w k z) where
  drawn := h.admit_drawn hw hz
  admitted := h.admit_admitted hsel hw hz
  complete := fun hk => by
    rw [got_admission hsel hw hz, List.map_append, h.complete hk]
    rfl
  pending := by
    rw [begun_admission hw, List.append_assoc]
    exact h.admit_sublist hb
  exact := fun hdry => by
    rw [begun_admission hw, List.append_assoc, hex hdry, ← List.append_assoc, h.exact hdry,
      allowed_append]

end admission

/-- Events that touch nothing in the books. -/
theorem Balanced.append_quiet (h : Balanced stage sel known b adm t)
    (hu : ∀ e ∈ u, tickets e = [] ∧ got stage.receiver e = [] ∧ begun e = []) :
    Balanced stage sel known b adm (t ++ u) := by
  have ht : u.flatMap tickets = [] := List.flatMap_eq_nil_iff.mpr fun e he => (hu e he).1
  have hg : u.flatMap (got stage.receiver) = [] :=
    List.flatMap_eq_nil_iff.mpr fun e he => (hu e he).2.1
  have hb : u.flatMap begun = [] := List.flatMap_eq_nil_iff.mpr fun e he => (hu e he).2.2
  exact ⟨by simp [h.drawn, ht], by simpa [hg] using h.admitted, fun hk => by simp [h.complete hk, hg],
    by simpa [hb] using h.pending, fun hdry => by simpa [hb] using h.exact hdry⟩

/-- A rejected object. -/
theorem Balanced.reject (h : Balanced stage sel known b adm t) (hsel : known → sel o = false)
    (hw : ∀ e ∈ w, e.1.isScreening) :
    Balanced stage sel known b adm
      (t ++ ⟨.select stage.receiver, .received (some o)⟩ :: w) := by
  have hw' : w.flatMap tickets = [] ∧ w.flatMap (got stage.receiver) = [] ∧ w.flatMap begun = [] :=
    ⟨List.flatMap_eq_nil_iff.mpr fun e he => tickets_screening (hw e he),
      List.flatMap_eq_nil_iff.mpr fun e he => got_screening (hw e he),
      List.flatMap_eq_nil_iff.mpr fun e he => begun_screening (hw e he)⟩
  refine ⟨by simp [h.drawn, tickets, hw'], ?_, fun hk => by simp [h.complete hk, got, hw', hsel hk],
    by simpa [begun, hw'] using h.pending, fun hdry => by simpa [begun, hw'] using h.exact hdry⟩
  rw [List.flatMap_append, List.filter_append]
  exact h.admitted.trans (List.sublist_append_left _ _)

/-- The last flush, at the end of the channel. -/
theorem Balanced.flush (h : Balanced stage sel known b adm t) (flush : Flush stage b z (.ok b')) :
    Balanced stage sel known b' adm (t ++ ⟨.select stage.receiver, .received none⟩ ::
      ⟨.isClosed stage.receiver, true⟩ :: z) := by
  have ht : z.flatMap tickets = [] :=
    List.flatMap_eq_nil_iff.mpr fun e he => tickets_flush (flush.isFlush e he)
  have hg : z.flatMap (got stage.receiver) = [] :=
    List.flatMap_eq_nil_iff.mpr fun e he => got_flush (flush.isFlush e he)
  obtain ⟨hpend, hex⟩ := flush.balance
  refine ⟨by simp [h.drawn, tickets, ht], by simpa [got, hg] using h.admitted,
    fun hk => by simp [h.complete hk, got, hg], ?_, fun hd => by simpa [begun, hex hd] using h.exact hd⟩
  have hsub := (hpend.append_left (t.flatMap begun)).trans h.pending
  rw [List.flatMap_append, List.append_assoc]
  exact hsub

theorem OverLimit.isFlush (h : OverLimit o u) (c : Nat) : ∀ e ∈ u, e.1.isFlush c := by
  rcases h with ⟨notices, -⟩
  intro e he
  simp only [List.mem_cons, List.mem_append, List.not_mem_nil, or_false] at he
  rcases he with rfl | rfl | he | rfl
  · rfl
  · rfl
  · exact Op.isFlush_of_isFinish (Op.isFinish_of_isReport (Op.isReport_of_isNotice (notices e he)))
  · rfl

theorem OverLimit.begun_nil (h : OverLimit o u) : u.flatMap begun = [] := by
  rcases h with ⟨notices, -⟩
  rw [List.flatMap_eq_nil_iff]
  intro e he
  simp only [List.mem_cons, List.mem_append, List.not_mem_nil, or_false] at he
  rcases he with rfl | rfl | he | rfl
  · rfl
  · rfl
  · exact begun_screening (Op.isScreening_of_isReport (Op.isReport_of_isNotice (notices e he)))
  · rfl

/-! ### One turn -/

section turn

variable {p : Trace} {r : Except Error (List S3Object)} {x : List S3Object ⊕ Except Error Unit}

/-- Processing an object keeps the books at every moment, and balances them when
it returns. -/
theorem Process.ledger (h : Process stage b o p r) (hp : ∀ e ∈ p, A.agrees e)
    (bal : Balanced stage (workerSelects stage.config A) A.Known b adm t) :
    (∀ v, v <+: p → ∃ adm', Ledger stage (workerSelects stage.config A) adm'
        (t ++ ⟨.select stage.receiver, .received (some o)⟩ :: v)) ∧
      ∀ b', r = .ok b' → ∃ adm', Balanced stage (workerSelects stage.config A) A.Known b' adm'
        (t ++ ⟨.select stage.receiver, .received (some o)⟩ :: p) := by
  have hscreening : ∀ {w s}, Run (screen stage.config o) w s → ∀ e ∈ w, e.1.isScreening :=
    fun hw => hw.uses (screen_straight ..).uses
  -- While the object is screened, nothing is drawn or passed on.
  have early : ∀ {w s}, Run (screen stage.config o) w s → ∀ v, v <+: w →
      ∃ adm', Ledger stage (workerSelects stage.config A) adm'
        (t ++ ⟨.select stage.receiver, .received (some o)⟩ :: v) := by
    intro w s hw v hv
    have hv' : ∀ e ∈ v, e.1.isScreening := fun e he => hscreening hw e (hv.subset he)
    refine ⟨adm, bal.ledger_append ?_ ?_⟩
    · rw [List.flatMap_eq_nil_iff]
      intro e he
      rcases List.mem_cons.mp he with rfl | he
      · rfl
      · exact tickets_screening (hv' e he)
    · rw [List.flatMap_eq_nil_iff.mpr]
      · exact List.nil_sublist b
      · intro e he
        rcases List.mem_cons.mp he with rfl | he
        · rfl
        · exact begun_screening (hv' e he)
  have selected : ∀ {w z : Trace} {k}, Run (screen stage.config o) w (.ok false) →
      (∀ e ∈ w ++ ⟨.fetchAdd, k⟩ :: z, A.agrees e) →
      workerSelects stage.config A o = true := fun hw ha =>
    (run_screen hw fun e he => ha e (List.mem_append_left _ he)).1
  -- From the ticket on, what is passed on comes out of the buffer.
  have late : ∀ {w z : Trace} {k}, Run (screen stage.config o) w (.ok false) →
      (∀ e ∈ w ++ ⟨.fetchAdd, k⟩ :: z, A.agrees e) → (∀ e ∈ z, e.1.isFlush stage.sender) →
      (z.flatMap begun).Sublist (b ++ if withinLimit stage.config k then [o] else []) →
      ∀ v, v <+: w ++ ⟨.fetchAdd, k⟩ :: z →
        ∃ adm', Ledger stage (workerSelects stage.config A) adm'
          (t ++ ⟨.select stage.receiver, .received (some o)⟩ :: v) := by
    intro w z k hw ha hz hb v hv
    rcases prefix_middle hv with hv | ⟨z', hz', rfl⟩
    · exact early hw v hv
    · exact ⟨_, bal.admit (selected hw ha) (hscreening hw) (fun e he => hz e (hz'.subset he))
        ((hz'.flatMap begun).sublist.trans hb)⟩
  cases h with
  | failed screened => exact ⟨early screened, fun _ h => by cases h⟩
  | skipped screened =>
    refine ⟨early screened, fun _ h => ?_⟩
    cases h
    exact ⟨adm, bal.reject (run_screen screened hp).1 (hscreening screened)⟩
  | @buffered w k screened within room =>
    refine ⟨late screened hp (by simp) (by simp), fun _ h => ?_⟩
    cases h
    exact ⟨_, bal.admit_balanced (z := []) (selected screened hp) (hscreening screened) (by simp)
      (by simp [within]) (fun _ => by simp [within])⟩
  | @flushed w z k _ screened within flush =>
    refine ⟨late screened hp flush.isFlush (by simpa [within] using flush.begun_sublist),
      fun b' h => ?_⟩
    subst h
    exact ⟨_, bal.admit_balanced (selected screened hp) (hscreening screened) flush.isFlush
      (by simpa [within] using flush.balance.1) (fun hd => by simpa [within] using flush.balance.2 hd)⟩
  | @overFailed w z k _ screened exceeded flush =>
    exact ⟨late screened hp flush.isFlush (by simpa [exceeded] using flush.begun_sublist),
      fun _ h => by cases h⟩
  | @exceeded w z y k b'' screened exceeded flush stop =>
    have hz : ∀ e ∈ z ++ y, e.1.isFlush stage.sender := fun e he =>
      (List.mem_append.mp he).elim (flush.isFlush e) (stop.isFlush _ e)
    refine ⟨late screened hp hz (by simpa [exceeded, stop.begun_nil] using flush.begun_sublist),
      fun _ h => ?_⟩
    cases h
    exact ⟨_, bal.admit_balanced (selected screened hp) (hscreening screened) hz
      (by simpa [exceeded, stop.begun_nil] using flush.balance.1)
      (fun hd => by simpa [exceeded, stop.begun_nil] using flush.balance.2 hd)⟩

/-- A turn keeps the books at every moment. -/
theorem WorkerTurn.ledger (h : WorkerTurn stage b u x) (hu : ∀ e ∈ u, A.agrees e)
    (bal : Balanced stage (workerSelects stage.config A) A.Known b adm t) (hv : v <+: u) :
    ∃ adm', Ledger stage (workerSelects stage.config A) adm' (t ++ v) := by
  -- A turn that draws no ticket and passes on only what is in the buffer.
  have plain : (∀ e ∈ u, tickets e = []) → (u.flatMap begun).Sublist b →
      ∃ adm', Ledger stage (workerSelects stage.config A) adm' (t ++ v) := fun ht hb =>
    ⟨adm, bal.ledger_append (List.flatMap_eq_nil_iff.mpr fun e he => ht e (hv.subset he))
      ((hv.flatMap begun).sublist.trans hb)⟩
  cases h with
  | cancelled => exact plain (by simp [tickets]) (by simp [begun])
  | lost => exact plain (by simp [tickets]) (by simp [begun])
  | drained flush =>
    refine plain (fun e he => ?_) (by simpa [begun] using flush.begun_sublist)
    simp only [List.mem_cons] at he
    rcases he with rfl | rfl | he
    exacts [rfl, rfl, tickets_flush (flush.isFlush e he)]
  | @received o p y r x process rest =>
    have hp : ∀ e ∈ p, A.agrees e := fun e he => hu e (by simp [he])
    obtain ⟨hled, hbal⟩ := process.ledger hp bal
    rcases v with - | ⟨e, v⟩
    · exact ⟨adm, by simpa using bal.ledger⟩
    obtain ⟨rfl, hv'⟩ := List.cons_prefix_cons.mp hv
    rcases List.prefix_or_prefix_of_prefix hv' (List.prefix_append p y) with hvp | ⟨v', rfl⟩
    · exact hled v hvp
    · have hv'' : v' <+: y := (List.prefix_append_right_inj p).mp hv'
      cases rest with
      | failed =>
        obtain rfl : v' = [] := List.prefix_nil.mp hv''
        exact hled _ (by simp)
      | cancelled | next =>
        obtain ⟨adm', bal'⟩ := hbal _ rfl
        have := bal'.append_quiet (u := v') fun e he => by
          have := hv''.subset he
          simp only [List.mem_singleton] at this
          subst this
          exact ⟨rfl, rfl, rfl⟩
        exact ⟨adm', by simpa using this.ledger⟩

/-- A turn after which the loop goes on balances the books. -/
theorem WorkerTurn.balanced (h : WorkerTurn stage b u (.inl b')) (hu : ∀ e ∈ u, A.agrees e)
    (bal : Balanced stage (workerSelects stage.config A) A.Known b adm t) :
    ∃ adm', Balanced stage (workerSelects stage.config A) A.Known b' adm' (t ++ u) := by
  cases h with
  | @received o p y r _ process rest =>
    obtain ⟨-, hbal⟩ := process.ledger (fun e he => hu e (by simp [he])) bal
    cases rest with
    | next =>
      obtain ⟨adm', bal'⟩ := hbal _ rfl
      have bal'' := bal'.append_quiet (u := [⟨.isCancelled, false⟩]) (by
        rintro e he
        obtain rfl := List.mem_singleton.mp he
        exact ⟨rfl, rfl, rfl⟩)
      exact ⟨adm', by simpa using bal''⟩

/-- The ways a worker returns: its channel ended and its buffer is empty, it saw
the token cancelled, or the channel it found ended was not closed. -/
def Returned (stage : Stage) (b : List S3Object) (u : Trace) : Prop :=
  (b = [] ∧ ∃ e ∈ u, Event.isEnd stage.receiver e) ∨ (∃ e ∈ u, Event.sawCancelled e) ∨
    u = [⟨.select stage.receiver, .received none⟩, ⟨.isClosed stage.receiver, false⟩]

/-- A turn with which the worker returns balances the books. -/
theorem WorkerTurn.returned (h : WorkerTurn stage b u (.inr (.ok ())))
    (hu : ∀ e ∈ u, A.agrees e)
    (bal : Balanced stage (workerSelects stage.config A) A.Known b adm t) :
    ∃ adm' b', Balanced stage (workerSelects stage.config A) A.Known b' adm' (t ++ u) ∧
      Returned stage b' u := by
  generalize hx : (Sum.inr (Except.ok ()) : List S3Object ⊕ Except Error Unit) = x at h
  cases h with
  | cancelled =>
    exact ⟨adm, b, bal.append_quiet (by simp [tickets, got, begun]),
      .inr (.inl ⟨_, List.mem_singleton_self _, trivial⟩)⟩
  | lost => exact ⟨adm, b, bal.append_quiet (by simp [tickets, got, begun]), .inr (.inr rfl)⟩
  | @drained z r flush =>
    rcases r with e | b'
    · cases hx
    refine ⟨adm, b', bal.flush flush, ?_⟩
    rcases flush.emptied with rfl | hc
    · exact .inl ⟨rfl, _, List.mem_cons_self, rfl⟩
    · exact .inr (.inl ⟨_, List.mem_cons_of_mem _ (List.mem_cons_of_mem _ hc), trivial⟩)
  | @received o p y r _ process rest =>
    obtain ⟨-, hbal⟩ := process.ledger (fun e he => hu e (by simp [he])) bal
    cases rest with
    | failed => cases hx
    | cancelled =>
      obtain ⟨adm', bal'⟩ := hbal _ rfl
      have bal'' := bal'.append_quiet (u := [⟨.isCancelled, true⟩]) (by
        rintro e he
        obtain rfl := List.mem_singleton.mp he
        exact ⟨rfl, rfl, rfl⟩)
      exact ⟨adm', _, by simpa using bal'', .inr (.inl ⟨⟨.isCancelled, true⟩, by simp, trivial⟩)⟩
    | next => cases hx

end turn

/-! ### Whole traces -/

/-- **The books of a worker at every moment.** -/
theorem worker_ledger (h : Part (receiveAndDelete stage) t) (ht : ∀ e ∈ t, A.agrees e) :
    ∃ adm, Ledger stage (workerSelects stage.config A) adm t :=
  part_of_loop (P := fun t => ∃ adm, Ledger stage (workerSelects stage.config A) adm t)
    (I := fun b t => ∃ adm, Balanced stage (workerSelects stage.config A) A.Known b adm t)
    A.agrees_total (fun b => (workerTurn_straight stage b).loopFree) ⟨[], .nil⟩
    ⟨[], ⟨rfl, by simp, by simp⟩⟩
    (fun _ _ _ _ ⟨_, bal⟩ hu hok _ hv => (run_workerTurn hu).ledger hok bal hv)
    (fun _ _ _ _ ⟨_, bal⟩ hu hok => (run_workerTurn hu).balanced hok bal) h ht

/-- **The books of a worker that returned.** -/
theorem worker_returned (h : Run (receiveAndDelete stage) t (.ok ()))
    (ht : ∀ e ∈ t, A.agrees e) :
    ∃ adm b u v, t = u ++ v ∧ Balanced stage (workerSelects stage.config A) A.Known b adm t ∧
      Returned stage b v := by
  obtain ⟨_, u, v, rfl, ⟨_, bal⟩, hv, hok⟩ :=
    run_of_loop (I := fun b t => ∃ adm, Balanced stage (workerSelects stage.config A) A.Known b adm t)
      ⟨[], .nil⟩ (fun _ _ _ _ ⟨_, bal⟩ hu hok => (run_workerTurn hu).balanced hok bal) h ht
  obtain ⟨adm, b, bal', hret⟩ := (run_workerTurn hv).returned hok bal
  exact ⟨adm, b, u, v, rfl, bal', hret⟩

/-! ### The limit -/

/-- Every ticket drawn was within the limit, or the token was cancelled. -/
def Within (config : Config) (t : Trace) : Prop :=
  (∀ k ∈ t.flatMap tickets, withinLimit config k) ∨ (⟨.cancel, ()⟩ : Event) ∈ t

theorem Within.append (ht : Within config t) (hu : Within config u) : Within config (t ++ u) := by
  rcases ht with ht | ht
  · rcases hu with hu | hu
    · refine .inl fun k hk => ?_
      rw [List.flatMap_append, List.mem_append] at hk
      exact hk.elim (ht k) (hu k)
    · exact .inr (List.mem_append_right _ hu)
  · exact .inr (List.mem_append_left _ ht)

theorem Within.of_nil (h : t.flatMap tickets = []) : Within config t := .inl (by simp [h])

/-- An object over the limit cancels the token. -/
theorem Process.within (h : Process stage b o u (.ok b')) : Within stage.config u := by
  have screening : ∀ {w s}, Run (screen stage.config o) w s → Within stage.config w := fun hw =>
    .of_nil (flatMap_eq_nil_of_straight hw (screen_straight ..) fun _ => tickets_screening)
  have drawing : ∀ {k z}, withinLimit stage.config k → (∀ e ∈ z, e.1.isFlush stage.sender) →
      Within stage.config (⟨.fetchAdd, k⟩ :: z) := by
    intro k z hk hz
    have hz' : z.flatMap tickets = [] :=
      List.flatMap_eq_nil_iff.mpr fun e he => tickets_flush (hz e he)
    exact .inl (by simp [tickets, hz', hk])
  generalize hr : (Except.ok b' : Except Error (List S3Object)) = r at h
  cases h with
  | failed => cases hr
  | skipped screened => exact screening screened
  | buffered screened within room => exact (screening screened).append (drawing within (by simp))
  | flushed screened within flush => exact (screening screened).append (drawing within flush.isFlush)
  | overFailed => cases hr
  | exceeded screened _ flush stop =>
    rcases stop with ⟨notices, -⟩
    exact .inr (by simp)

theorem WorkerTurn.within {x : List S3Object ⊕ Except Error Unit} (h : WorkerTurn stage b u x)
    (hx : ∀ e, x ≠ .inr (.error e)) : Within stage.config u := by
  cases h with
  | cancelled | lost => exact .of_nil rfl
  | @drained z r flush =>
    have hz : z.flatMap tickets = [] :=
      List.flatMap_eq_nil_iff.mpr fun e he => tickets_flush (flush.isFlush e he)
    exact .of_nil (by simp [tickets, hz])
  | @received o p v r x process rest =>
    have hsel : Within stage.config [⟨.select stage.receiver, .received (some o)⟩] := .of_nil rfl
    cases rest with
    | failed => exact absurd rfl (hx _)
    | cancelled | next => exact hsel.append (process.within.append (.of_nil rfl))

/-- A worker that returned drew tickets within the limit only, or cancelled the
token. -/
theorem worker_within (h : Run (receiveAndDelete stage) t (.ok ())) : Within stage.config t := by
  have all : ∀ e ∈ t, (fun _ : Event => True) e := fun _ _ => trivial
  obtain ⟨_, u, v, rfl, hu, hv, -⟩ := run_of_loop (I := fun _ t => Within stage.config t)
    (.of_nil rfl) (fun _ _ _ _ hI hb _ => hI.append ((run_workerTurn hb).within (by simp))) h all
  exact hu.append ((run_workerTurn hv).within (by simp))

end S3rm
