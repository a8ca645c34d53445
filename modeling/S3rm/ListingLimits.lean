/-
S3rm/ListingLimits.lean

What the semaphore of a parallel listing guarantees.  The permits of the tasks
and of the semaphore always add up (`listing_books`), and a task that waits, for
a permit or for its sub-listings, has none:

    listing_no_deadlock   a listing is never stuck, and gives its permits back
    in_flight_le          page requests in flight stay within the permits, in
                          runs where every sub-listing pages with its permit
    in_flight_exceeds     and not in all: a sub-listing gives its permit to the
                          first page's sub-listings and fetches the next page
                          without one
-/
import S3rm.Storage.Pool
import Mathlib.Algebra.Order.BigOperators.Group.Finset

namespace S3rm

open Conc Conc.Prog ListTask

section reachable

variable {storage : S3Storage} {endpoint : Endpoint} {mode : ListingMode} {maxKeys : Int}
  {w : ListWorld} {i : ListTaskId}

/-! ### Waiting -/

/-- A task that waits for a permit, or for a sub-listing that has not ended. -/
inductive ListWorld.Waits (w : ListWorld) (i : ListTaskId) : Prop
  | permit {k : ListResp .acquire → ListTask Unit} (run : w.tasks i = .running (.op .acquire k))
      (none : w.shared.permits = 0)
  | child {k : ListResp .joinNext → ListTask Unit} (run : w.tasks i = .running (.op .joinNext k))
      (some : w.shared.joinSet i ≠ []) (none : ∀ c ∈ w.shared.joinSet i, w.outcome c = none)

/-- What `join_next` says of a task that has ended. -/
theorem joins_exists (o : Outcome (Except Exit Unit)) :
    ∃ joined, ListingState.joins (some o) joined = true := by
  rcases o with ((e | -) | -) | -
  · exact ⟨.failed e, by simp [ListingState.joins]⟩
  · exact ⟨.joinError "", rfl⟩
  · exact ⟨.ok, rfl⟩
  · exact ⟨.joinError "", rfl⟩

/-- An answer lets a task go on. -/
theorem ready_of_answer {o : ListOp} {k : ListResp o → ListTask Unit}
    (run : w.tasks i = .running (.op o k)) (r : ListResp o) (admitted : endpoint.Admits ⟨o, r⟩)
    (startable : w.Startable ((listMachine storage endpoint).spawn i w.shared o))
    {sh : ListingState} (handled : w.shared.handle w.outcome i o r = some sh) :
    (listMachine storage endpoint).Ready w i :=
  .perform run handled admitted startable

/-- **A running task can go on or waits.** -/
theorem ready_or_waits (hanswers : ∀ mode r, ∃ answer, endpoint mode r answer)
    (h : (listMachine storage endpoint).Reachable (listStart storage mode maxKeys) w)
    {p : ListTask Unit} (hp : w.tasks i = .running p) :
    (listMachine storage endpoint).Ready w i ∨ w.Waits i := by
  rcases p with a | ⟨o, k⟩ | ⟨body, s, k⟩
  · exact .inl (.finish hp)
  · cases o with
    | start => exact .inl (ready_of_answer hp (some ()) trivial trivial rfl)
    | isCancelled => exact .inl (ready_of_answer hp w.shared.cancelled trivial trivial (if_pos rfl))
    | rateLimit => exact .inl (ready_of_answer hp (some ()) trivial trivial rfl)
    | request mode r =>
      obtain ⟨answer, hanswer⟩ := hanswers mode r
      exact .inl (ready_of_answer hp (some answer) hanswer trivial rfl)
    | send o => exact .inl (ready_of_answer hp (some !w.shared.closed) trivial trivial (if_pos rfl))
    | isClosed => exact .inl (ready_of_answer hp w.shared.closed trivial trivial (if_pos rfl))
    | acquire =>
      rcases Nat.eq_zero_or_pos w.shared.permits with hzero | hpos
      · exact .inr (.permit hp hzero)
      · exact .inl (ready_of_answer hp (some ()) trivial trivial (if_pos hpos))
    | release => exact .inl (ready_of_answer hp () trivial trivial rfl)
    | spawn mode subPrefix maxKeys depth =>
      exact .inl (ready_of_answer hp () trivial ((listing_books h).fresh i _ (le_refl _)) rfl)
    | joinNext =>
      by_cases hnil : w.shared.joinSet i = []
      · exact .inl (ready_of_answer hp (some none) trivial trivial (if_pos hnil))
      by_cases hended : ∃ c ∈ w.shared.joinSet i, w.outcome c ≠ none
      · obtain ⟨c, hc, hended⟩ := hended
        obtain ⟨o, ho⟩ := Option.ne_none_iff_exists'.mp hended
        obtain ⟨joined, hjoined⟩ := joins_exists o
        rw [← ho] at hjoined
        exact .inl (ready_of_answer hp (some (some (c, joined))) trivial trivial
          (if_pos ⟨hc, hjoined⟩))
      · refine .inr (.child hp hnil fun c hc => ?_)
        by_contra hne
        exact hended ⟨c, hc, hne⟩
    | cancel => exact .inl (ready_of_answer hp () trivial trivial rfl)
  · exact .inl (.unroll hp)

/-- **A task that waits has no permit.** -/
theorem held_of_waits
    (h : (listMachine storage endpoint).Reachable (listStart storage mode maxKeys) w)
    (hw : w.Waits i) : w.shared.held i = 0 := by
  cases hw with
  | permit run _ =>
    rw [((listing_books h).rows i).running run |>.1, show (w.ledger i).permit = false from
      may_of_running h run]
    rfl
  | child run hne _ =>
    obtain ⟨hheld, hjoin⟩ := ((listing_books h).rows i).running run
    have hout : (w.ledger i).outstanding ≠ 0 := by
      rw [← hjoin]
      exact fun hzero => hne (List.eq_nil_of_length_eq_zero hzero)
    rw [hheld, show (w.ledger i).permit = false from may_of_running h run hout]
    rfl

theorem held_of_not_running
    (h : (listMachine storage endpoint).Reachable (listStart storage mode maxKeys) w)
    (hi : ∀ p, w.tasks i ≠ .running p) : w.shared.held i = 0 := by
  have hrow := (listing_books h).rows i
  rcases ht : w.tasks i with - | p | o
  · exact (hrow.idle ht).1
  · exact absurd ht (hi p)
  · exact (hrow.finished ht).1

/-- When nobody has a permit, the semaphore has them all. -/
theorem permits_of_held
    (h : (listMachine storage endpoint).Reachable (listStart storage mode maxKeys) w)
    (hheld : ∀ i, w.shared.held i = 0) :
    w.shared.permits = storage.config.maxParallelListings := by
  obtain ⟨S, -, hsum⟩ := (listing_books h).total
  rwa [Finset.sum_eq_zero fun i _ => hheld i] at hsum

/-- **Some task can go on** while the call has not returned. -/
theorem listing_progress (hn : 2 ≤ storage.config.maxParallelListings)
    (hanswers : ∀ mode r, ∃ answer, endpoint mode r answer)
    (h : (listMachine storage endpoint).Reachable (listStart storage mode maxKeys) w)
    (hroot : ∃ p, w.tasks [] = .running p) : ∃ i, (listMachine storage endpoint).Ready w i := by
  by_contra hstuck
  have hwaits : ∀ i p, w.tasks i = .running p → w.Waits i := by
    intro i p hp
    exact (ready_or_waits hanswers h hp).resolve_left fun hready => hstuck ⟨i, hready⟩
  -- so all permits are in the semaphore, and the tasks wait for sub-listings
  have hpermits : w.shared.permits = storage.config.maxParallelListings := by
    apply permits_of_held h
    intro i
    by_cases hi : ∃ p, w.tasks i = .running p
    · obtain ⟨p, hp⟩ := hi
      exact held_of_waits h (hwaits i p hp)
    · exact held_of_not_running h fun p hp => hi ⟨p, hp⟩
  have hchild : ∀ i p, w.tasks i = .running p → ∃ k q, w.tasks (i ++ [k]) = .running q := by
    intro i p hp
    cases hwaits i p hp with
    | permit _ hzero => omega
    | child _ hne hnone =>
      obtain ⟨c, hc⟩ := List.exists_mem_of_ne_nil _ hne
      obtain ⟨⟨k, rfl⟩, hstarted⟩ := (listing_books h).members i c hc
      have hout := hnone _ hc
      rcases ht : w.tasks (i ++ [k]) with - | q | o
      · exact absurd ht hstarted
      · exact ⟨k, q, ht⟩
      · rw [World.outcome, ht] at hout
        cases hout
  -- the tree of running tasks would have no end
  have hdeep : ∀ m : Nat, ∃ i : ListTaskId, i.length = m ∧ ∃ p, w.tasks i = .running p := by
    intro m
    induction m with
    | zero => exact ⟨[], rfl, hroot⟩
    | succ m ih =>
      obtain ⟨i, hlen, p, hp⟩ := ih
      obtain ⟨k, q, hq⟩ := hchild i p hp
      exact ⟨i ++ [k], by simp [hlen], q, hq⟩
  obtain ⟨S, hS, -⟩ := (listing_books h).total
  obtain ⟨i, hlen, p, hp⟩ := hdeep (S.sup List.length + 1)
  have hle : i.length ≤ S.sup List.length := Finset.le_sup (f := List.length) (hS i (by simp [hp]))
  omega

end reachable

/-- **A parallel listing cannot deadlock on its semaphore.** Nobody waits for a
permit while holding one, some task can go on until the call has returned, and
when all tasks have ended the permits are back. -/
theorem listing_no_deadlock (storage : S3Storage) (endpoint : Endpoint) (mode : ListingMode)
    (maxKeys : Int) (hn : 2 ≤ storage.config.maxParallelListings)
    (hanswers : ∀ mode r, ∃ answer, endpoint mode r answer) (w : ListWorld)
    (h : (listMachine storage endpoint).Reachable (listStart storage mode maxKeys) w) :
    (∀ i k, w.tasks i = .running (.op .acquire k) → w.shared.held i = 0) ∧
    (w.outcome [] = none → ∃ i, (listMachine storage endpoint).Ready w i) ∧
    ((∀ i, w.code i ≠ none → w.outcome i ≠ none) →
      w.shared.permits = storage.config.maxParallelListings) := by
  refine ⟨?_, ?_, ?_⟩
  · intro i k hi
    rw [((listing_books h).rows i).running hi |>.1, show (w.ledger i).permit = false from
      may_of_running h hi]
    rfl
  · intro hnone
    apply listing_progress hn hanswers h
    have hcode : (listStart storage mode maxKeys).code [] =
        some (storage.listDispatch mode maxKeys) := by
      simp [listStart]
    exact h.running_of_outcome listStart_initial (h.code_some listStart_initial hcode) hnone
  · intro hended
    apply permits_of_held h
    intro i
    apply held_of_not_running h
    intro p hp
    obtain ⟨q, hq, -⟩ := (h.taskOk listStart_initial i).residual hp
    apply hended i (by simp [hq])
    rw [World.outcome, hp]

/-- A storage with two permits. -/
def twoPermits : S3Storage :=
  { config := { maxParallelListings := 2 }, bucket := "bucket", pathPrefix := "" }

/-- One page for the call, and one for each of its sub-listings. -/
def onePageEach : (mode : ListingMode) → ListRequest → Except Error mode.Output
  | .objects, r => .ok (if r.pathPrefix = "" then { commonPrefixes := [some "a/", some "b/"] } else {})
  | .versions, _ => .ok {}

/-- Both sub-listings are at their page, and the call waits for them. -/
def twoSubListings : List ListTaskId :=
  .replicate 14 [] ++ .replicate 4 [0] ++ .replicate 4 [1]

theorem listing_no_deadlock_twoSubListings :
    let w := (listMachine twoPermits (Answering onePageEach)).exec (listReply onePageEach)
      (listStart twoPermits .objects 3) twoSubListings
    (∀ i k, w.tasks i = .running (.op .acquire k) → w.shared.held i = 0) ∧
    (w.outcome [] = none → ∃ i, (listMachine twoPermits (Answering onePageEach)).Ready w i) ∧
    ((∀ i, w.code i ≠ none → w.outcome i ≠ none) → w.shared.permits = 2) :=
  listing_no_deadlock twoPermits (Answering onePageEach) .objects 3 (by decide)
    (fun mode r => ⟨onePageEach mode r, rfl⟩) _ (Machine.exec_sound listReply_admits _ twoSubListings)

/-! ### Page requests in flight -/

/-- A sub-listing that passes the rate limiter, on its way to a page request, has
its permit: it has not given it up for sub-listings of an earlier page. -/
def PagesWithPermit (u v : ListWorld) : Prop :=
  ∀ i, i ≠ [] → v.log = u.log ++ [(i, ⟨.rateLimit, some ()⟩)] → u.shared.held i ≠ 0

section flight

variable {storage : S3Storage} {endpoint : Endpoint} {mode : ListingMode} {maxKeys : Int}
  {w : ListWorld} {i : ListTaskId} {n : Nat}

/-- Only the rate limiter marks a task as unpaid. -/
theorem paid_after {l : PermitLedger} {o : ListOp} {r : ListResp o} (hl : l.paid = true)
    (hrate : ∀ a, (⟨o, r⟩ : ListEvent) = ⟨.rateLimit, some a⟩ → l.permit = true) :
    (l.after ⟨o, r⟩).paid = true := by
  cases o with
  | rateLimit =>
    rcases r with - | a
    · exact hl
    · exact hrate a rfl
  | acquire =>
    rcases r with - | a <;> exact hl
  | joinNext =>
    rcases r with - | - | ⟨c, joined⟩ <;> exact hl
  | start | isCancelled | request | send | isClosed | release | spawn | cancel => exact hl

/-- In a run whose steps all page with a permit, every sub-listing has paid. -/
theorem ledger_paid (h : Relation.ReflTransGen
    (fun u v => (listMachine storage endpoint).Step u v ∧ PagesWithPermit u v)
    (listStart storage mode maxKeys) w) :
    (listMachine storage endpoint).Reachable (listStart storage mode maxKeys) w ∧
      ∀ i, i ≠ [] → (ListWorld.ledger w i).paid = true := by
  induction h with
  | refl => exact ⟨.refl, fun i _ => rfl⟩
  | @tail u v hrun hs ih =>
    obtain ⟨hr, hpaid⟩ := ih
    obtain ⟨hstep, hpages⟩ := hs
    refine ⟨hr.tail hstep, fun i hi => ?_⟩
    cases hstep with
    | @perform j o k r sh run handled _ startable =>
      have hlog : (((u.put j (.running (k r))).launch
          ((listMachine storage endpoint).spawn j u.shared o)).record j ⟨o, r⟩ sh).log =
          u.log ++ [(j, ⟨o, r⟩)] := by simp
      by_cases hij : i = j
      · subst hij
        rw [ListWorld.ledger_snoc_self hlog]
        apply paid_after (hpaid i hi)
        rintro ⟨⟩ he
        cases he
        have hheld := hpages i hi hlog
        rw [((listing_books hr).rows i).running run |>.1] at hheld
        exact Bool.of_not_eq_false fun hfalse => hheld (by simp [hfalse])
      · rw [ListWorld.ledger_snoc_ne hlog hij]
        exact hpaid i hi
    | unroll | finish | panic | env => exact hpaid i hi

/-- Nothing runs below a task that waits for nobody and has had no failure. -/
theorem not_running_below (hb : w.Books n) {l : List Nat} {i : ListTaskId}
    (hi : w.tasks i = .idle ∨ w.Sound i ∧ w.shared.joinSet i = []) (hl : l ≠ []) :
    ∀ p, w.tasks (i ++ l) ≠ .running p := by
  intro p hp
  rcases hb.settled_below hi hl with h | h <;> rw [h] at hp <;> cases hp

/-- At most as many tasks as there are permits have one. -/
theorem encard_le_of_held (hb : w.Books n) {A : Set ListTaskId}
    (hA : ∀ i ∈ A, w.shared.held i ≠ 0) : A.encard ≤ n := by
  obtain ⟨S, hS, hsum⟩ := hb.total
  have hsub : A ⊆ ↑(S.filter fun i => w.shared.held i ≠ 0) := by
    intro i hi
    have hstarted : w.tasks i ≠ .idle := fun hidle => hA i hi ((hb.rows i).idle hidle).1
    exact Finset.mem_coe.mpr (Finset.mem_filter.mpr ⟨hS i hstarted, hA i hi⟩)
  have hcard : (S.filter fun i => w.shared.held i ≠ 0).card ≤ n := by
    calc (S.filter fun i => w.shared.held i ≠ 0).card
        = ∑ i ∈ S, if w.shared.held i ≠ 0 then 1 else 0 := Finset.card_filter _ _
      _ ≤ ∑ i ∈ S, w.shared.held i := by
          apply Finset.sum_le_sum
          intro i _
          split <;> omega
      _ ≤ n := by omega
  calc A.encard ≤ (↑(S.filter fun i => w.shared.held i ≠ 0) : Set ListTaskId).encard :=
        Set.encard_le_encard hsub
    _ = (S.filter fun i => w.shared.held i ≠ 0).card := Set.encard_coe_eq_coe_finsetCard _
    _ ≤ n := by exact_mod_cast hcard

end flight

/-- **Page requests in flight stay within the permits** in every run whose
sub-listings page with their permits. -/
theorem in_flight_le (storage : S3Storage) (endpoint : Endpoint) (mode : ListingMode)
    (maxKeys : Int) (hn : 2 ≤ storage.config.maxParallelListings) (w : ListWorld)
    (h : Relation.ReflTransGen
      (fun u v => (listMachine storage endpoint).Step u v ∧ PagesWithPermit u v)
      (listStart storage mode maxKeys) w) :
    {i | ListWorld.InFlight w i}.encard ≤ storage.config.maxParallelListings := by
  obtain ⟨hr, hpaid⟩ := ledger_paid h
  have hb := listing_books hr
  by_cases hroot : ListWorld.InFlight w [] ∧ w.shared.held [] = 0
  · -- the call itself pages on without a permit, but only when nothing else runs
    obtain ⟨⟨_, r, k, hrun⟩, hheld⟩ := hroot
    obtain ⟨hout, hfailed, -⟩ := may_of_running hr hrun
    have hnil : w.shared.joinSet [] = [] := by
      apply List.eq_nil_of_length_eq_zero
      rw [((hb.rows []).running hrun).2, hout]
    have hone : {i | ListWorld.InFlight w i} ⊆ {[]} := by
      rintro i ⟨_, r', k', hi⟩
      by_contra hne
      exact not_running_below hb (.inr ⟨(ListWorld.sound_running hrun).mpr hfailed, hnil⟩) hne _ hi
    calc {i | ListWorld.InFlight w i}.encard ≤ Set.encard {[]} := Set.encard_le_encard hone
      _ = 1 := Set.encard_singleton _
      _ ≤ storage.config.maxParallelListings := by exact_mod_cast (by omega : 1 ≤ _)
  · apply encard_le_of_held hb
    rintro i ⟨mode', r, k, hi⟩ hzero
    by_cases hnil : i = []
    · subst hnil
      exact hroot ⟨⟨mode', r, k, hi⟩, hzero⟩
    · obtain ⟨-, -, hpermit⟩ := may_of_running hr hi
      rw [((hb.rows i).running hi).1, ← hpermit, hpaid i hnil] at hzero
      cases hzero

theorem in_flight_le_twoSubListings :
    {i | ListWorld.InFlight ((listMachine twoPermits (Answering onePageEach)).exec
      (listReply onePageEach) (listStart twoPermits .objects 3) twoSubListings) i}.encard ≤ 2 := by
  apply in_flight_le twoPermits (Answering onePageEach) .objects 3 (by decide)
  -- whoever is next has a permit, or is the call itself
  apply Machine.exec_checked (fun w i => i = [] ∨ w.shared.held i ≠ 0) listReply_admits
  · intro u v i hcheck hturn j hj hlog
    have hji : j = i := by
      rcases Machine.turn_log hturn with heq | ⟨e, heq⟩
      · simp [heq] at hlog
      · rw [heq, List.append_cancel_left_eq] at hlog
        exact (congrArg Prod.fst (List.singleton_inj.mp hlog)).symm
    subst hji
    exact (of_decide_eq_true hcheck).resolve_left hj
  · decide +kernel

/-! ### A run beyond the limit -/

instance (w : ListWorld) (i : ListTaskId) : Decidable (ListWorld.InFlight w i) :=
  match h : w.tasks i with
  | .running (.op (.request mode r) k) => isTrue ⟨mode, r, k, h⟩
  | .running (.op .start _) | .running (.op .isCancelled _) | .running (.op .rateLimit _)
  | .running (.op (.send _) _) | .running (.op .isClosed _) | .running (.op .acquire _)
  | .running (.op .release _) | .running (.op (.spawn _ _ _ _) _) | .running (.op .joinNext _)
  | .running (.op .cancel _) | .running (.ret _) | .running (.iter _ _ _) | .idle
  | .finished _ => isFalse fun ⟨_, _, _, hi⟩ => by
      rw [h] at hi
      cases hi

/-- Three items a page: below the root `a/`, `b/` and `c/`, and four more
sub-prefixes below `a/`. -/
def fourBelowA : (mode : ListingMode) → ListRequest → Except Error mode.Output
  | .objects, r => .ok (
    match r.pathPrefix, r.cursor.continuationToken with
    | "", _ => { commonPrefixes := [some "a/", some "b/", some "c/"] }
    | "a/", none =>
      { commonPrefixes := [some "a/w/", some "a/x/", some "a/y/"]
        isTruncated := some true
        nextContinuationToken := some "a/y/" }
    | "a/", some _ => { commonPrefixes := [some "a/z/"] }
    | _, _ => {})
  | .versions, _ => .ok {}

/-- The sub-listing of `a/` lists the prefixes of its first page before `b/` and
`c/` get their permits. -/
def pastThePermits : List ListTaskId :=
  .replicate 10 [] ++ .replicate 13 [0] ++ .replicate 7 [0, 0] ++ .replicate 2 [0] ++
    .replicate 7 [0, 1] ++ .replicate 7 [0, 2] ++ .replicate 11 [0] ++ .replicate 5 [] ++
    .replicate 4 [1] ++ .replicate 4 [2]

theorem pastThePermits_in_flight :
    ∀ i ∈ [[0], [1], [2]], ListWorld.InFlight ((listMachine twoPermits (Answering fourBelowA)).exec
      (listReply fourBelowA) (listStart twoPermits .objects 3) pastThePermits) i := by
  decide +kernel

theorem in_flight_exceeds :
    ¬ ∀ (storage : S3Storage) (endpoint : Endpoint) (mode : ListingMode) (maxKeys : Int)
      (w : ListWorld), 2 ≤ storage.config.maxParallelListings →
      (listMachine storage endpoint).Reachable (listStart storage mode maxKeys) w →
      {i | ListWorld.InFlight w i}.encard ≤ storage.config.maxParallelListings := by
  intro hall
  have hle := hall twoPermits (Answering fourBelowA) .objects 3 _ (by decide)
    (Machine.exec_sound listReply_admits _ pastThePermits)
  have hsub : ((({[0], [1], [2]} : Finset ListTaskId) : Set ListTaskId)) ⊆ {i | ListWorld.InFlight
      ((listMachine twoPermits (Answering fourBelowA)).exec (listReply fourBelowA)
        (listStart twoPermits .objects 3) pastThePermits) i} := by
    intro i hi
    exact pastThePermits_in_flight i (by simpa using hi)
  have hthree := (Set.encard_le_encard hsub).trans hle
  rw [Set.encard_coe_eq_coe_finsetCard] at hthree
  exact absurd hthree (by decide)

end S3rm
