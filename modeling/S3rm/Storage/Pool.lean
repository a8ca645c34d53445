/-
S3rm/Storage/Pool.lean

The pool of permits over whole runs.  `Books` says of a reachable world that the
machine's view of every task agrees with the task's own ledger, that permits are
neither lost nor made up, and that a task nothing failed for has below it only
tasks that it still waits for or that have succeeded.

    in_flight_le          the bound on page requests in flight, as far as it goes
    in_flight_exceeds     and a run that breaks it
    listing_no_deadlock   the semaphore cannot block a listing for good
-/
import S3rm.Storage.Permits
import Mathlib.Data.Set.Card

namespace S3rm

open Conc Conc.Prog ListTask

/-! ### Worlds of a listing -/

namespace ListWorld

variable (w : ListWorld) (i : ListTaskId)

/-- The ledger of a task: a sub-listing starts with a permit, the call without. -/
def ledger : PermitLedger := permitProtocol.afterAll { permit := i != [] } (traceOf i w.log)

/-- The task is between issuing a page request and its return. -/
def InFlight : Prop := ∃ mode r k, w.tasks i = .running (.op (.request mode r) k)

/-- Nothing has gone wrong for the task so far. -/
def Sound : Prop :=
  match w.tasks i with
  | .running _ => (w.ledger i).failed = false
  | .finished (.done (.ok ())) => True
  | _ => False

/-- The machine's view of the task agrees with its ledger. -/
def RowOk : Prop :=
  match w.tasks i with
  | .running _ => w.shared.held i = (w.ledger i).permit.toNat ∧
      (w.shared.joinSet i).length = (w.ledger i).outstanding
  | .idle => w.shared.held i = 0 ∧ w.shared.joinSet i = [] ∧ w.shared.spawned i = 0
  | .finished _ => w.shared.held i = 0 ∧ w.shared.joinSet i = []

/-- The books of a listing with `n` permits. -/
structure Books (n : Nat) : Prop where
  rows : ∀ i, w.RowOk i
  /-- Children are started in order. -/
  fresh : ∀ i k, w.shared.spawned i ≤ k → w.tasks (i ++ [k]) = .idle
  total : ∃ S : Finset ListTaskId, (∀ i, w.tasks i ≠ .idle → i ∈ S) ∧
    w.shared.permits + ∑ i ∈ S, w.shared.held i = n
  /-- Only children that were started are waited for. -/
  members : ∀ i, ∀ c ∈ w.shared.joinSet i, (∃ k, c = i ++ [k]) ∧ w.tasks c ≠ .idle
  /-- A child is waited for or has succeeded, unless something went wrong. -/
  children : ∀ i, w.Sound i → ∀ k < w.shared.spawned i, i ++ [k] ∈ w.shared.joinSet i ∨
    w.tasks (i ++ [k]) = .finished (.done (.ok ()))

end ListWorld

section reachable

variable {storage : S3Storage} {endpoint : Endpoint} {mode : ListingMode} {maxKeys : Int}
  {w : ListWorld} {i : ListTaskId}

theorem listStart_initial : (listStart storage mode maxKeys).Initial where
  log := rfl
  tasks i := by
    by_cases hi : i = []
    · exact .inr ⟨storage.listDispatch mode maxKeys, by simp [listStart, hi], by simp [listStart, hi]⟩
    · exact .inl ⟨by simp [listStart, hi], by simp [listStart, hi]⟩

/-- Every task runs a program that keeps to its ledger. -/
theorem keeps_code (h : (listMachine storage endpoint).Reachable (listStart storage mode maxKeys) w)
    {p : ListTask Unit} (hp : w.code i = some p) :
    Keeps p { permit := i != [] } fun _ l => l.Settled := by
  refine h.invariant (P := fun w => ∀ i p, w.code i = some p →
    Keeps p { permit := i != [] } fun _ l => l.Settled) ?_ ?_ i p hp
  · intro u v _ ih hs i p hp
    cases hs with
    | @perform j o k r sh run _ _ startable =>
      rcases hsp : (listMachine storage endpoint).spawn j u.shared o with - | ⟨c, q⟩
      · rw [hsp] at hp
        exact ih i p hp
      · rw [hsp] at hp
        by_cases hic : i = c
        · subst hic
          obtain rfl : q = p := by simpa using hp
          cases o with
          | spawn mode subPrefix maxKeys depth =>
            cases hsp
            have hne : (u.shared.child j != []) = true := by simp [ListingState.child]
            rw [hne]
            exact keeps_subListing
          | _ => cases hsp
        · exact ih i p (by simpa [hic] using hp)
    | unroll | finish | panic | env => exact ih i p hp
  · intro i p hp
    by_cases hi : i = []
    · subst hi
      obtain rfl : storage.listDispatch mode maxKeys = p := by simpa [listStart] using hp
      exact keeps_listDispatch
    · simp [listStart, hi] at hp

/-- What is left of a running task keeps to its ledger. -/
theorem keeps_running
    (h : (listMachine storage endpoint).Reachable (listStart storage mode maxKeys) w)
    {q : ListTask Unit} (hq : w.tasks i = .running q) :
    Keeps q (w.ledger i) fun _ l => l.Settled := by
  obtain ⟨p, hp, -⟩ := (h.taskOk listStart_initial i).residual hq
  exact h.obeys listStart_initial (fun _ _ => trivial) hp (keeps_code h hp) hq

/-- **What a task asks for next** its ledger allows. -/
theorem may_of_running
    (h : (listMachine storage endpoint).Reachable (listStart storage mode maxKeys) w) {o : ListOp}
    {k : ListResp o → Prog ListOp ListResp (Except Exit Unit)}
    (hi : w.tasks i = .running (.op o k)) : (w.ledger i).May o :=
  (keeps_running h hi).1

/-- A task that succeeds has settled its sub-listings. -/
theorem settled_of_ret
    (h : (listMachine storage endpoint).Reachable (listStart storage mode maxKeys) w)
    (hi : w.tasks i = .running (.ret (.ok ()))) : (w.ledger i).Settled :=
  keeps_running h hi

end reachable

/-! ### What one operation does to the books -/

/-- The effect of an operation that starts no task, on the row of the task `i`
that asked for it and on the pool. -/
structure PermitEffect (outcomes : ListTaskId → Option (Outcome (Except Exit Unit))) (i : ListTaskId)
    (l l' : PermitLedger) (sh sh' : ListingState) : Prop where
  held : sh'.held i = l'.permit.toNat
  joinSet : (sh'.joinSet i).length = l'.outstanding
  pool : sh'.permits + sh'.held i = sh.permits + sh.held i
  spawned : sh'.spawned = sh.spawned
  others : ∀ j, j ≠ i → sh'.held j = sh.held j ∧ sh'.joinSet j = sh.joinSet j
  members : sh'.joinSet i ⊆ sh.joinSet i
  failed : l'.failed = false → l.failed = false ∧ ∀ c ∈ sh.joinSet i,
    c ∈ sh'.joinSet i ∨ outcomes c = some (.done (.ok ()))

section effect

variable {outcomes : ListTaskId → Option (Outcome (Except Exit Unit))} {i : ListTaskId}
  {l l' : PermitLedger} {sh sh' : ListingState}

/-- An operation that has nothing to do with permits or sub-listings. -/
theorem PermitEffect.quiet (held : sh.held i = l.permit.toNat)
    (joinSet : (sh.joinSet i).length = l.outstanding) (hpermits : sh'.permits = sh.permits)
    (hheld : sh'.held = sh.held) (hjoin : sh'.joinSet = sh.joinSet)
    (hspawned : sh'.spawned = sh.spawned) (hpermit : l'.permit = l.permit)
    (hout : l'.outstanding = l.outstanding) (hfailed : l'.failed = l.failed) :
    PermitEffect outcomes i l l' sh sh' where
  held := by rw [hheld, held, hpermit]
  joinSet := by rw [hjoin, joinSet, hout]
  pool := by rw [hpermits, hheld]
  spawned := hspawned
  others j _ := by rw [hheld, hjoin]; exact ⟨rfl, rfl⟩
  members := by rw [hjoin]; exact List.Subset.refl _
  failed h := by
    refine ⟨hfailed ▸ h, fun c hc => .inl ?_⟩
    rw [hjoin]
    exact hc

/-- An `await` either drops the task, if it is aborted, or goes on. -/
theorem await_cases {α : Type} {next : α → Option ListingState} {r : Option α}
    (h : sh.await i next r = some sh') :
    r = none ∧ sh' = sh ∧ sh.aborted i = true ∨ ∃ a, r = some a ∧ next a = some sh' := by
  rcases r with - | a
  · obtain ⟨haborted, h⟩ := Option.ite_none_right_eq_some.mp h
    exact .inl ⟨rfl, (Option.some.inj h).symm, haborted⟩
  · exact .inr ⟨a, rfl, h⟩

theorem handle_acquire (held : sh.held i = l.permit.toNat)
    (joinSet : (sh.joinSet i).length = l.outstanding) (may : l.May .acquire) {r : Option Unit}
    (h : sh.handle outcomes i .acquire r = some sh') :
    PermitEffect outcomes i l (l.after ⟨.acquire, r⟩) sh sh' := by
  have hzero : sh.held i = 0 := by
    rw [held, show l.permit = false from may]
    rfl
  rcases await_cases h with ⟨rfl, rfl, -⟩ | ⟨a, rfl, h⟩
  · exact .quiet held joinSet rfl rfl rfl rfl rfl rfl rfl
  · obtain ⟨hpos, h⟩ := Option.ite_none_right_eq_some.mp h
    cases h
    refine ⟨by simp [hzero, PermitLedger.after], joinSet, ?_, rfl, ?_, List.Subset.refl _, ?_⟩
    · simp only [Function.update_self, hzero]
      omega
    · intro j hj
      simp [hj]
    · exact fun hf => ⟨hf, fun c hc => .inl hc⟩

theorem handle_release (held : sh.held i = l.permit.toNat)
    (joinSet : (sh.joinSet i).length = l.outstanding) (may : l.May .release)
    (h : sh.handle outcomes i .release () = some sh') :
    PermitEffect outcomes i l (l.after ⟨.release, ()⟩) sh sh' := by
  have hone : sh.held i = 1 := by
    rw [held, show l.permit = true from may]
    rfl
  cases h
  refine ⟨by simp [hone, PermitLedger.after], joinSet, ?_, rfl, ?_, List.Subset.refl _, ?_⟩
  · simp [hone]
  · intro j hj
    simp [hj]
  · exact fun hf => ⟨hf, fun c hc => .inl hc⟩

/-- Only a task that has succeeded is joined as such. -/
theorem joins_ok {o : Option (Outcome (Except Exit Unit))} (h : ListingState.joins o .ok = true) :
    o = some (.done (.ok ())) := by
  rcases o with - | ((e | e) | -)
  · cases h
  · cases e <;> cases h
  · rfl
  · cases h

theorem handle_joinNext (held : sh.held i = l.permit.toNat)
    (joinSet : (sh.joinSet i).length = l.outstanding)
    {r : Option (Option (ListTaskId × Joined))}
    (h : sh.handle outcomes i .joinNext r = some sh') :
    PermitEffect outcomes i l (l.after ⟨.joinNext, r⟩) sh sh' := by
  rcases await_cases h with ⟨rfl, rfl, -⟩ | ⟨- | ⟨c, joined⟩, rfl, h⟩
  · exact .quiet held joinSet rfl rfl rfl rfl rfl rfl rfl
  · obtain ⟨hnil, h⟩ := Option.ite_none_right_eq_some.mp h
    cases h
    have hzero : l.outstanding = 0 := by simpa [hnil] using joinSet.symm
    exact .quiet held joinSet rfl rfl rfl rfl rfl hzero.symm rfl
  · obtain ⟨⟨hmem, hjoins⟩, h⟩ := Option.ite_none_right_eq_some.mp h
    cases h
    refine ⟨held, ?_, rfl, rfl, ?_, ?_, ?_⟩
    · simp [PermitLedger.after, List.length_erase_of_mem hmem, joinSet]
    · intro j hj
      simp [hj]
    · simpa using List.erase_subset
    · -- only a success keeps the task sound
      intro hf
      obtain ⟨hfailed, hjoined⟩ := Bool.or_eq_false_iff.mp hf
      obtain rfl : joined = .ok := by simpa using hjoined
      refine ⟨hfailed, fun c' hc' => ?_⟩
      by_cases hcc : c' = c
      · subst hcc
        exact .inr (joins_ok hjoins)
      · left
        simpa using (List.mem_erase_of_ne hcc).mpr hc'

/-- **The effect of an operation** that starts no task. -/
theorem handle_effect (held : sh.held i = l.permit.toNat)
    (joinSet : (sh.joinSet i).length = l.outstanding) {o : ListOp} {r : ListResp o}
    (may : l.May o) (hspawn : ∀ mode subPrefix maxKeys depth, o ≠ .spawn mode subPrefix maxKeys depth)
    (h : sh.handle outcomes i o r = some sh') :
    PermitEffect outcomes i l (l.after ⟨o, r⟩) sh sh' := by
  cases o with
  | acquire => exact handle_acquire held joinSet may h
  | release => exact handle_release held joinSet may h
  | joinNext => exact handle_joinNext held joinSet h
  | spawn mode subPrefix maxKeys depth => exact absurd rfl (hspawn mode subPrefix maxKeys depth)
  | cancel =>
    cases h
    exact .quiet held joinSet rfl rfl rfl rfl rfl rfl rfl
  | isCancelled | isClosed =>
    obtain ⟨-, h⟩ := Option.ite_none_right_eq_some.mp h
    cases h
    exact .quiet held joinSet rfl rfl rfl rfl rfl rfl rfl
  | start | request | rateLimit =>
    rcases await_cases h with ⟨rfl, rfl, -⟩ | ⟨a, rfl, h⟩
    · exact .quiet held joinSet rfl rfl rfl rfl rfl rfl rfl
    · cases h
      exact .quiet held joinSet rfl rfl rfl rfl rfl rfl rfl
  | send =>
    rcases await_cases h with ⟨rfl, rfl, -⟩ | ⟨sent, rfl, h⟩
    · exact .quiet held joinSet rfl rfl rfl rfl rfl rfl rfl
    · obtain ⟨-, h⟩ := Option.ite_none_right_eq_some.mp h
      cases h
      exact .quiet held joinSet rfl rfl rfl rfl rfl rfl rfl

end effect

/-! ### The books are kept -/

namespace ListWorld

variable {u v : ListWorld} {i j : ListTaskId} {n : Nat}

theorem ledger_snoc_self {e : ListEvent} (h : v.log = u.log ++ [(i, e)]) :
    v.ledger i = (u.ledger i).after e := by
  unfold ledger
  rw [h, traceOf_snoc_self, Protocol.afterAll_append]
  rfl

theorem ledger_snoc_ne {e : ListEvent} (h : v.log = u.log ++ [(i, e)]) (hj : j ≠ i) :
    v.ledger j = u.ledger j := by
  unfold ledger
  rw [h, traceOf_snoc_ne hj.symm]

theorem RowOk.congr (h : u.RowOk j) (htasks : v.tasks j = u.tasks j)
    (hledger : v.ledger j = u.ledger j) (hheld : v.shared.held j = u.shared.held j)
    (hjoin : v.shared.joinSet j = u.shared.joinSet j)
    (hspawned : v.shared.spawned j = u.shared.spawned j) : v.RowOk j := by
  unfold RowOk at *
  rw [htasks, hledger, hheld, hjoin, hspawned]
  exact h

theorem RowOk.running {p : Prog ListOp ListResp (Except Exit Unit)} (h : u.RowOk j)
    (hj : u.tasks j = .running p) : u.shared.held j = (u.ledger j).permit.toNat ∧
      (u.shared.joinSet j).length = (u.ledger j).outstanding := by
  unfold RowOk at h
  rwa [hj] at h

theorem RowOk.idle (h : u.RowOk j) (hj : u.tasks j = .idle) :
    u.shared.held j = 0 ∧ u.shared.joinSet j = [] ∧ u.shared.spawned j = 0 := by
  unfold RowOk at h
  rwa [hj] at h

theorem RowOk.finished {o : Outcome (Except Exit Unit)} (h : u.RowOk j)
    (hj : u.tasks j = .finished o) : u.shared.held j = 0 ∧ u.shared.joinSet j = [] := by
  unfold RowOk at h
  rwa [hj] at h

theorem tasks_of_outcome {o : Outcome (Except Exit Unit)} (h : u.outcome j = some o) :
    u.tasks j = .finished o := by
  unfold World.outcome at h
  split at h
  · cases h
    assumption
  · cases h

theorem Sound.congr (h : v.Sound j) (htasks : v.tasks j = u.tasks j)
    (hledger : v.ledger j = u.ledger j) : u.Sound j := by
  unfold Sound at *
  rw [← htasks, ← hledger]
  exact h

theorem sound_running {p : Prog ListOp ListResp (Except Exit Unit)}
    (hj : u.tasks j = .running p) : u.Sound j ↔ (u.ledger j).failed = false := by
  unfold Sound
  rw [hj]

theorem sound_finished {o : Outcome (Except Exit Unit)} (hj : u.tasks j = .finished o) :
    u.Sound j ↔ o = .done (.ok ()) := by
  unfold Sound
  rw [hj]
  rcases o with (e | -) | -
  · simp
  · exact iff_of_true trivial rfl
  · simp

/-- **Below a task that waits for nobody and has had no failure**, every task that
was started has succeeded. -/
theorem Books.settled_below (h : u.Books n) {l : List Nat} :
    ∀ {i : ListTaskId}, u.tasks i = .idle ∨ u.Sound i ∧ u.shared.joinSet i = [] → l ≠ [] →
      u.tasks (i ++ l) = .idle ∨ u.tasks (i ++ l) = .finished (.done (.ok ())) := by
  induction l with
  | nil => exact fun _ h => absurd rfl h
  | cons k l ih =>
    intro i hi _
    have hchild : u.tasks (i ++ [k]) = .idle ∨ u.tasks (i ++ [k]) = .finished (.done (.ok ())) := by
      by_cases hk : u.shared.spawned i ≤ k
      · exact .inl (h.fresh i k hk)
      · rcases hi with hidle | ⟨hsound, hnil⟩
        · exact absurd (((h.rows i).idle hidle).2.2 ▸ Nat.zero_le k) hk
        · rcases h.children i hsound k (by omega) with hc | hc
          · rw [hnil] at hc
            cases hc
          · exact .inr hc
    rw [List.append_cons]
    rcases l with - | ⟨k', l⟩
    · rwa [List.append_nil]
    · apply ih _ (List.cons_ne_nil k' l)
      rcases hchild with hc | hc
      · exact .inl hc
      · exact .inr ⟨(sound_finished hc).mpr rfl, ((h.rows _).finished hc).2⟩

/-- A step of the outside. -/
theorem Books.env (h : u.Books n) {sh : ListingState} (hs : ListingState.Env u.shared sh) :
    Books (u.withShared sh) n := by
  cases hs with
  | cancel | close => exact ⟨h.rows, h.fresh, h.total, h.members, h.children⟩

/-- A sum in which one summand changes. -/
theorem sum_update {S : Finset ListTaskId} {f g : ListTaskId → Nat} (hi : i ∈ S)
    (hg : ∀ j, j ≠ i → g j = f j) : ∑ j ∈ S, g j + f i = ∑ j ∈ S, f j + g i := by
  have hrest : ∑ j ∈ S.erase i, g j = ∑ j ∈ S.erase i, f j :=
    Finset.sum_congr rfl fun j hj => hg j (Finset.ne_of_mem_erase hj)
  rw [← Finset.add_sum_erase S g hi, ← Finset.add_sum_erase S f hi, hrest]
  omega

/-- A step of the running task `i` that starts no task. -/
theorem Books.running (h : u.Books n) {p q : Prog ListOp ListResp (Except Exit Unit)}
    (run : u.tasks i = .running p) (htasks : v.tasks = Function.update u.tasks i (.running q))
    (hledger : ∀ j, j ≠ i → v.ledger j = u.ledger j) {l : PermitLedger} (hl : v.ledger i = l)
    (heff : PermitEffect u.outcome i (u.ledger i) l u.shared v.shared) : v.Books n := by
  subst hl
  have hself : v.tasks i = .running q := by rw [htasks, Function.update_self]
  have hother : ∀ j, j ≠ i → v.tasks j = u.tasks j := fun j hj => by
    rw [htasks, Function.update_of_ne hj]
  have hidle : ∀ j, u.tasks j = .idle → v.tasks j = .idle := by
    intro j hj
    have hne : j ≠ i := by
      rintro rfl
      rw [run] at hj
      cases hj
    rw [hother j hne, hj]
  have hfinished : ∀ j o, u.tasks j = .finished o → v.tasks j = .finished o := by
    intro j o hj
    have hne : j ≠ i := by
      rintro rfl
      rw [run] at hj
      cases hj
    rw [hother j hne, hj]
  refine ⟨?_, ?_, ?_, ?_, ?_⟩
  · intro j
    by_cases hj : j = i
    · subst hj
      unfold RowOk
      rw [hself]
      exact ⟨heff.held, heff.joinSet⟩
    · obtain ⟨hheld, hjoin⟩ := heff.others j hj
      exact (h.rows j).congr (hother j hj) (hledger j hj) hheld hjoin (by rw [heff.spawned])
  · intro j k hk
    rw [heff.spawned] at hk
    exact hidle _ (h.fresh j k hk)
  · obtain ⟨S, hS, hsum⟩ := h.total
    have hi : i ∈ S := hS i (by simp [run])
    refine ⟨S, ?_, ?_⟩
    · intro j hj
      exact hS j fun hidle' => hj (hidle j hidle')
    · have hupdate := sum_update hi fun j hj => (heff.others j hj).1
      have hpool := heff.pool
      omega
  · intro j c hc
    have hmem : c ∈ u.shared.joinSet j := by
      by_cases hj : j = i
      · subst hj
        exact heff.members hc
      · rwa [(heff.others j hj).2] at hc
    obtain ⟨hname, hstarted⟩ := h.members j c hmem
    refine ⟨hname, fun hc' => hstarted ?_⟩
    by_cases hci : c = i
    · subst hci
      rw [hself] at hc'
      cases hc'
    · rwa [hother c hci] at hc'
  · intro j hj k hk
    rw [heff.spawned] at hk
    by_cases hji : j = i
    · subst hji
      obtain ⟨hfailed, hmem⟩ := heff.failed ((sound_running hself).mp hj)
      rcases h.children j ((sound_running run).mpr hfailed) k hk with hc | hc
      · rcases hmem _ hc with hc | hc
        · exact .inl hc
        · exact .inr (hfinished _ _ (tasks_of_outcome hc))
      · exact .inr (hfinished _ _ hc)
    · rcases h.children j (hj.congr (hother j hji) (hledger j hji)) k hk with hc | hc
      · left
        rwa [(heff.others j hji).2]
      · exact .inr (hfinished _ _ hc)

/-- The end of the task `i`. -/
theorem Books.retire (h : u.Books n) {p : Prog ListOp ListResp (Except Exit Unit)}
    (run : u.tasks i = .running p) {o : Outcome (Except Exit Unit)}
    (hsettled : o = .done (.ok ()) → (u.ledger i).Settled) :
    Books ((u.put i (.finished o)).withShared (u.shared.retire i)) n := by
  have hother : ∀ j, j ≠ i → ((u.put i (.finished o)).withShared (u.shared.retire i)).tasks j =
      u.tasks j := fun j hj => by simp [hj]
  have hne : ∀ j, u.tasks j ≠ .running p → j ≠ i := by
    rintro j hj rfl
    exact hj run
  refine ⟨?_, ?_, ?_, ?_, ?_⟩
  · intro j
    by_cases hj : j = i
    · subst hj
      simp [RowOk, ListingState.retire]
    · apply (h.rows j).congr (hother j hj) rfl
      · simp [ListingState.retire, hj]
      · simp [ListingState.retire, hj]
      · rfl
  · intro j k hk
    have hidle := h.fresh j k hk
    rw [hother _ (hne _ (by simp [hidle])), hidle]
  · obtain ⟨S, hS, hsum⟩ := h.total
    have hi : i ∈ S := hS i (by simp [run])
    refine ⟨S, ?_, ?_⟩
    · intro j hj
      apply hS j
      intro hidle
      rw [hother j (hne j (by simp [hidle])), hidle] at hj
      exact hj rfl
    · have hupdate := sum_update (g := Function.update u.shared.held i 0) hi
        fun j hj => Function.update_of_ne hj _ _
      rw [Function.update_self] at hupdate
      show u.shared.permits + u.shared.held i + ∑ j ∈ S, Function.update u.shared.held i 0 j = n
      omega
  · intro j c hc
    by_cases hj : j = i
    · subst hj
      simp [ListingState.retire] at hc
    · obtain ⟨hname, hstarted⟩ := h.members j c (by simpa [ListingState.retire, hj] using hc)
      refine ⟨hname, ?_⟩
      by_cases hci : c = i
      · simp [hci]
      · rwa [hother c hci]
  · intro j hj k hk
    have hfinished : ∀ c, u.tasks c = .finished (.done (.ok ())) →
        ((u.put i (.finished o)).withShared (u.shared.retire i)).tasks c =
          .finished (.done (.ok ())) := by
      intro c hc
      rw [hother c (hne c (by simp [hc])), hc]
    by_cases hji : j = i
    · -- it has succeeded, so it waits for nobody
      subst hji
      obtain ⟨hout, hfailed⟩ := hsettled ((sound_finished (by simp)).mp hj)
      have hnil : u.shared.joinSet j = [] := by
        apply List.eq_nil_of_length_eq_zero
        rw [((h.rows j).running run).2, hout]
      rcases h.children j ((sound_running run).mpr hfailed) k hk with hc | hc
      · rw [hnil] at hc
        cases hc
      · exact .inr (hfinished _ hc)
    · rcases h.children j (hj.congr (hother j hji) rfl) k hk with hc | hc
      · left
        simpa [ListingState.retire, hji] using hc
      · exact .inr (hfinished _ hc)

/-- The running task `i` starts the task `c`. -/
structure Starts (u v : ListWorld) (i c : ListTaskId) : Prop where
  name : c = i ++ [u.shared.spawned i]
  idle : u.tasks c = .idle
  runs : ∃ p, u.tasks i = .running p
  tasks : ∃ q q', v.tasks = Function.update (Function.update u.tasks i (.running q)) c (.running q')
  permits : v.shared.permits = u.shared.permits
  held : v.shared.held = Function.update (Function.update u.shared.held i (u.shared.held i - 1)) c 1
  joinSet : v.shared.joinSet = Function.update u.shared.joinSet i (u.shared.joinSet i ++ [c])
  spawned : v.shared.spawned = Function.update u.shared.spawned i (u.shared.spawned i + 1)
  paid : (u.ledger i).permit = true
  parent : v.ledger i = { u.ledger i with
    permit := false, outstanding := (u.ledger i).outstanding + 1 }
  child : v.ledger c = { permit := true }
  ledger : ∀ j, j ≠ i → v.ledger j = u.ledger j

namespace Starts

variable {c : ListTaskId} (h : u.Starts v i c)

include h

theorem ne : c ≠ i := by
  rw [h.name]
  simp

theorem parent_running : ∃ q, v.tasks i = .running q := by
  obtain ⟨q, q', htasks⟩ := h.tasks
  exact ⟨q, by simp [htasks, h.ne.symm]⟩

theorem child_running : ∃ q, v.tasks c = .running q := by
  obtain ⟨q, q', htasks⟩ := h.tasks
  exact ⟨q', by simp [htasks]⟩

theorem other (hji : j ≠ i) (hjc : j ≠ c) : v.tasks j = u.tasks j := by
  obtain ⟨q, q', htasks⟩ := h.tasks
  simp [htasks, hji, hjc]

/-- Tasks that neither run nor are started stay as they are. -/
theorem same (hrun : ∀ p, u.tasks j ≠ .running p) (hjc : j ≠ c) : v.tasks j = u.tasks j := by
  apply h.other _ hjc
  rintro rfl
  obtain ⟨p, hp⟩ := h.runs
  exact hrun p hp

theorem finished {o : Outcome (Except Exit Unit)} (hj : u.tasks j = .finished o) :
    v.tasks j = .finished o := by
  rw [h.same (by simp [hj]), hj]
  rintro rfl
  rw [h.idle] at hj
  cases hj

theorem rows (hrows : ∀ i, u.RowOk i) : ∀ i, v.RowOk i := by
  intro j
  obtain ⟨hheld, hjoin, hspawned⟩ := (hrows c).idle h.idle
  obtain ⟨p, run⟩ := h.runs
  by_cases hji : j = i
  · subst hji
    obtain ⟨q, hq⟩ := h.parent_running
    unfold RowOk
    rw [hq, h.parent, h.held, h.joinSet]
    simp [h.ne.symm, ((hrows j).running run).1, ((hrows j).running run).2, h.paid]
  · by_cases hjc : j = c
    · subst hjc
      obtain ⟨q, hq⟩ := h.child_running
      unfold RowOk
      rw [hq, h.child, h.held, h.joinSet]
      simp [hji, hjoin]
    · apply (hrows j).congr (h.other hji hjc) (h.ledger j hji)
      · simp [h.held, hji, hjc]
      · simp [h.joinSet, hji]
      · simp [h.spawned, hji]

theorem fresh (hfresh : ∀ i k, u.shared.spawned i ≤ k → u.tasks (i ++ [k]) = .idle) :
    ∀ i k, v.shared.spawned i ≤ k → v.tasks (i ++ [k]) = .idle := by
  intro j k hk
  -- it was not the one just started
  have hnew : u.shared.spawned j ≤ k ∧ j ++ [k] ≠ c := by
    rw [h.spawned] at hk
    rw [h.name]
    by_cases hji : j = i
    · subst hji
      rw [Function.update_self] at hk
      refine ⟨by omega, fun heq => ?_⟩
      have hkk : k = u.shared.spawned j := by simpa using heq
      omega
    · rw [Function.update_of_ne hji] at hk
      exact ⟨hk, fun heq => hji (List.append_inj_left' heq rfl)⟩
  have hidle := hfresh j k hnew.1
  rw [h.same (by simp [hidle]) hnew.2, hidle]

theorem total {n : Nat} (hrows : ∀ i, u.RowOk i) {S : Finset ListTaskId} (hi : i ∈ S)
    (hsum : u.shared.permits + ∑ i ∈ S, u.shared.held i = n) :
    v.shared.permits + ∑ i ∈ insert c S, v.shared.held i = n := by
  obtain ⟨p, run⟩ := h.runs
  have hheld : u.shared.held c = 0 := ((hrows c).idle h.idle).1
  have hone : u.shared.held i = 1 := by
    rw [((hrows i).running run).1, h.paid]
    rfl
  have hinsert : ∑ j ∈ insert c S, u.shared.held j = ∑ j ∈ S, u.shared.held j :=
    Finset.sum_insert_of_eq_zero_if_notMem fun _ => hheld
  -- the parent's permit goes to the child
  have hparent := sum_update (g := Function.update u.shared.held i (u.shared.held i - 1))
    (Finset.mem_insert_of_mem hi : i ∈ insert c S) fun j hj => Function.update_of_ne hj _ _
  have hchild := sum_update (Finset.mem_insert_self c S) (g := v.shared.held)
    (f := Function.update u.shared.held i (u.shared.held i - 1))
    fun j hj => by rw [h.held]; exact Function.update_of_ne hj _ _
  have hvc : v.shared.held c = 1 := by simp [h.held]
  rw [Function.update_self] at hparent
  rw [Function.update_of_ne h.ne, hheld, hvc] at hchild
  rw [h.permits]
  omega

theorem children (hrows : ∀ i, u.RowOk i)
    (hchildren : ∀ i, u.Sound i → ∀ k < u.shared.spawned i, i ++ [k] ∈ u.shared.joinSet i ∨
      u.tasks (i ++ [k]) = .finished (.done (.ok ()))) :
    ∀ i, v.Sound i → ∀ k < v.shared.spawned i, i ++ [k] ∈ v.shared.joinSet i ∨
      v.tasks (i ++ [k]) = .finished (.done (.ok ())) := by
  intro j hj k hk
  rw [h.spawned] at hk
  by_cases hji : j = i
  · subst hji
    rw [h.joinSet, Function.update_self]
    rw [Function.update_self] at hk
    obtain ⟨p, run⟩ := h.runs
    obtain ⟨q, hq⟩ := h.parent_running
    rw [sound_running hq, h.parent] at hj
    rcases Nat.lt_succ_iff_lt_or_eq.mp hk with hk | rfl
    · rcases hchildren j ((sound_running run).mpr hj) k hk with hx | hx
      · exact .inl (List.mem_append_left _ hx)
      · exact .inr (h.finished hx)
    · left
      simp [h.name]
  · rw [h.joinSet, Function.update_of_ne hji]
    rw [Function.update_of_ne hji] at hk
    by_cases hjc : j = c
    · subst hjc
      rw [((hrows j).idle h.idle).2.2] at hk
      omega
    · rcases hchildren j (hj.congr (h.other hji hjc) (h.ledger j hji)) k hk with hx | hx
      · exact .inl hx
      · exact .inr (h.finished hx)

theorem members (hmembers : ∀ i, ∀ c ∈ u.shared.joinSet i,
    (∃ k, c = i ++ [k]) ∧ u.tasks c ≠ .idle) :
    ∀ i, ∀ x ∈ v.shared.joinSet i, (∃ k, x = i ++ [k]) ∧ v.tasks x ≠ .idle := by
  intro j x hx
  have hstarted : ∀ x, u.tasks x ≠ .idle ∨ x = c → v.tasks x ≠ .idle := by
    intro x hx
    by_cases hxc : x = c
    · obtain ⟨q, hq⟩ := h.child_running
      simp [hxc, hq]
    · by_cases hxi : x = i
      · obtain ⟨q, hq⟩ := h.parent_running
        simp [hxi, hq]
      · rw [h.other hxi hxc]
        exact hx.resolve_right hxc
  rw [h.joinSet] at hx
  by_cases hji : j = i
  · subst hji
    rw [Function.update_self] at hx
    rcases List.mem_append.mp hx with hx | hx
    · exact ⟨(hmembers j x hx).1, hstarted x (.inl (hmembers j x hx).2)⟩
    · obtain rfl := List.mem_singleton.mp hx
      exact ⟨⟨_, h.name⟩, hstarted x (.inr rfl)⟩
  · rw [Function.update_of_ne hji] at hx
    exact ⟨(hmembers j x hx).1, hstarted x (.inl (hmembers j x hx).2)⟩

theorem books {n : Nat} (hb : u.Books n) : v.Books n where
  rows := h.rows hb.rows
  fresh := h.fresh hb.fresh
  total := by
    obtain ⟨S, hS, hsum⟩ := hb.total
    obtain ⟨p, run⟩ := h.runs
    have hi : i ∈ S := hS i (by simp [run])
    refine ⟨insert c S, ?_, h.total hb.rows hi hsum⟩
    intro j hj
    by_cases hjc : j = c
    · exact hjc ▸ Finset.mem_insert_self c S
    · apply Finset.mem_insert_of_mem
      by_cases hji : j = i
      · exact hji ▸ hi
      · apply hS
        rwa [← h.other hji hjc]
  members := h.members hb.members
  children := h.children hb.rows hb.children

end Starts

end ListWorld

section reachable

variable {storage : S3Storage} {endpoint : Endpoint} {mode : ListingMode} {maxKeys : Int}
  {w : ListWorld} {i : ListTaskId}

theorem listStart_books :
    ListWorld.Books (listStart storage mode maxKeys) storage.config.maxParallelListings where
  rows j := by
    by_cases hj : j = []
    · subst hj
      exact ⟨rfl, rfl⟩
    · unfold ListWorld.RowOk
      rw [show (listStart storage mode maxKeys).tasks j = .idle by simp [listStart, hj]]
      exact ⟨rfl, rfl, rfl⟩
  fresh j k _ := by simp [listStart]
  total := by
    refine ⟨{[]}, ?_, rfl⟩
    intro j hj
    by_cases hnil : j = []
    · simp [hnil]
    · simp [listStart, hnil] at hj
  members _ _ hc := absurd hc List.not_mem_nil
  children _ _ k hk := absurd hk (Nat.not_lt_zero k)

/-- **The books of every reachable world are in order.** -/
theorem listing_books
    (h : (listMachine storage endpoint).Reachable (listStart storage mode maxKeys) w) :
    w.Books storage.config.maxParallelListings := by
  refine h.invariant (P := fun w => ListWorld.Books w storage.config.maxParallelListings) ?_
    listStart_books
  intro u v hr hb hs
  cases hs with
  | @perform j o k r sh run handled _ startable =>
    by_cases hspawn : ∃ mode subPrefix maxKeys depth, o = .spawn mode subPrefix maxKeys depth
    · obtain ⟨mode, subPrefix, maxKeys, depth, rfl⟩ := hspawn
      cases handled
      have hidle : u.tasks (u.shared.child j) = .idle := startable
      have hne : u.shared.child j ≠ j := by simp [ListingState.child]
      have hcode : traceOf (u.shared.child j) u.log = [] := by
        have htask := Machine.Reachable.taskOk listStart_initial hr (u.shared.child j)
        unfold World.TaskOk at htask
        split at htask
        · exact htask.2
        · rw [hidle] at htask
          exact htask.elim
      apply ListWorld.Starts.books (u := u) (i := j) (c := u.shared.child j) _ hb
      refine ⟨rfl, hidle, ⟨_, run⟩, ⟨_, _, rfl⟩, rfl, rfl, rfl, rfl, may_of_running hr run, ?_, ?_, ?_⟩
      · exact ListWorld.ledger_snoc_self (u := u) (e := ⟨_, r⟩) (by simp)
      · rw [ListWorld.ledger_snoc_ne (u := u) (e := ⟨_, r⟩) (by simp) hne]
        unfold ListWorld.ledger
        rw [hcode]
        simp [ListingState.child]
      · exact fun l hl => ListWorld.ledger_snoc_ne (u := u) (e := ⟨_, r⟩) (by simp) hl
    · have hnone : (listMachine storage endpoint).spawn j u.shared o = none := by
        cases o with
        | spawn mode subPrefix maxKeys depth => exact absurd ⟨_, _, _, _, rfl⟩ hspawn
        | _ => rfl
      rw [hnone]
      obtain ⟨hheld, hjoin⟩ := (hb.rows j).running run
      apply hb.running run rfl (fun l hl => ListWorld.ledger_snoc_ne (u := u) (e := ⟨o, r⟩) rfl hl)
        (ListWorld.ledger_snoc_self (u := u) (e := ⟨o, r⟩) rfl)
      apply handle_effect hheld hjoin (may_of_running hr run) _ handled
      rintro mode subPrefix maxKeys depth rfl
      exact hspawn ⟨_, _, _, _, rfl⟩
  | @unroll j _ _ body s k run =>
    obtain ⟨hheld, hjoin⟩ := (hb.rows j).running run
    exact hb.running run rfl (fun _ _ => rfl) rfl (.quiet hheld hjoin rfl rfl rfl rfl rfl rfl rfl)
  | @finish j a run =>
    apply hb.retire run
    rintro ho
    cases ho
    exact settled_of_ret hr run
  | @panic j p _ run =>
    apply hb.retire run
    intro ho
    cases ho
  | env henv => exact hb.env henv

end reachable

end S3rm
