/-
S3rm/Storage/Permits.lean

The permits of a parallel listing (`list_with_parallel` and
`listing_worker_semaphore` in src/storage/s3/mod.rs).

What a task may do with permits is read off its own history: whether it holds
one, how many of its sub-listings it still waits for, and whether one of those
failed (`PermitLedger`).  `listDispatch` and `subListing` keep to `PermitLedger.May`:

* a permit is only asked for by a task that has none, so nobody waits for a
  permit while holding one;
* a page is only fetched while no sub-listing is outstanding, but not always
  with a permit: after the first sub-listings the permit is gone for good;
* the run is only cancelled after a sub-listing that failed.

The machine's own books agree with the ledgers (`Books`), the permits of all
tasks and of the semaphore adding up to `max_parallel_listings`.
-/
import S3rm.Conc.Obeys
import S3rm.Storage.Listing

namespace S3rm

open Conc Conc.Prog ListTask

/-! ### The ledger of a task -/

/-- What a task's history says about its permit and its sub-listings. -/
structure PermitLedger where
  /-- It has a permit. -/
  permit : Bool
  /-- Sub-listings it started and has not joined. -/
  outstanding : Nat := 0
  /-- It has learnt of a sub-listing that failed. -/
  failed : Bool := false
  /-- It had its permit when it last passed the rate limiter. -/
  paid : Bool := true

namespace PermitLedger

/-- The ledger after an event. -/
def after (l : PermitLedger) : ListEvent → PermitLedger
  | ⟨.rateLimit, some _⟩ => { l with paid := l.permit }
  | ⟨.acquire, some _⟩ => { l with permit := true }
  | ⟨.release, _⟩ => { l with permit := false }
  | ⟨.spawn _ _ _ _, _⟩ => { l with permit := false, outstanding := l.outstanding + 1 }
  | ⟨.joinNext, some (some (_, joined))⟩ =>
    { l with outstanding := l.outstanding - 1, failed := l.failed || (joined != .ok) }
  -- the join set is empty
  | ⟨.joinNext, some none⟩ => { l with outstanding := 0 }
  | _ => l

/-- What a task with this ledger may ask for. -/
def May (l : PermitLedger) : ListOp → Prop
  | .acquire => l.permit = false
  | .release | .spawn _ _ _ _ => l.permit = true
  | .joinNext => l.outstanding ≠ 0 → l.permit = false
  | .request _ _ => l.outstanding = 0 ∧ l.failed = false ∧ l.paid = l.permit
  | .cancel => l.failed = true
  | _ => True

/-- The ledger of a task that has joined all its sub-listings, none of which failed. -/
def Settled (l : PermitLedger) : Prop := l.outstanding = 0 ∧ l.failed = false

/-- The ledger of a task between its page and the joining of the sub-listings. -/
structure Waiting (l : PermitLedger) (permit : Bool) : Prop where
  permit : l.permit = permit
  failed : l.failed = false
  alone : l.outstanding ≠ 0 → l.permit = false

end PermitLedger

/-- Tasks are held to their ledgers, whatever the answers. -/
def permitProtocol : Protocol ListOp ListResp PermitLedger where
  ok _ := True
  may := PermitLedger.May
  after := PermitLedger.after

section keeps

open Protocol

variable {α : Type} {l : PermitLedger}

/-- The task keeps to its ledger, and if it succeeds, it does with `Q`. -/
abbrev Keeps (p : ListTask α) (l : PermitLedger) (Q : α → PermitLedger → Prop) : Prop :=
  permitProtocol.Obeys p l (IfOk Q)

theorem keeps_bind {β : Type} {x : ListTask α} {f : α → ListTask β} {R : α → PermitLedger → Prop}
    {Q : β → PermitLedger → Prop} (h : Keeps x l R) (hf : ∀ a l', R a l' → Keeps (f a) l' Q) :
    Keeps (x >>= f) l Q := by
  apply obeys_fallible_bind
  rw [then_ifOk]
  apply Obeys.mono h
  rintro (e | a) l' hR
  · trivial
  · exact hf a l' hR

theorem keeps_ask_bind {o : ListOp} {f : ListResp o → ListTask α} {Q : α → PermitLedger → Prop}
    (hmay : l.May o) (h : ∀ r, Keeps (f r) (l.after ⟨o, r⟩) Q) :
    Keeps (ListTask.ask o >>= f) l Q :=
  ⟨hmay, fun r _ => h r⟩

theorem keeps_awaited_bind {β : Type} {a : Option α} {f : α → ListTask β} {Q : β → PermitLedger → Prop}
    (h : ∀ r, a = some r → Keeps (f r) l Q) : Keeps (awaited a >>= f) l Q := by
  rcases a with - | r
  · trivial
  · exact h r rfl

theorem keeps_context {message : String} {x : ListTask α} {Q : α → PermitLedger → Prop}
    (h : Keeps x l Q) : Keeps (context message x) l Q := by
  apply obeys_adapt
  apply Obeys.mono h
  rintro (e | a) l h
  · trivial
  · exact h

/-! ### The listing programs keep to their ledgers -/

variable {storage : S3Storage} {mode : ListingMode}

theorem keeps_fetchListPage {pathPrefix : String} {delimiter : Option String} {maxKeys : Int}
    {cursor : Cursor} (hl : l.Settled) (hpaid : l.paid = l.permit) :
    Keeps (storage.fetchListPage mode pathPrefix delimiter maxKeys cursor) l fun _ l' => l' = l := by
  apply keeps_ask_bind
  · exact ⟨hl.1, hl.2, hpaid⟩
  intro answer
  apply keeps_awaited_bind
  rintro (e | output) -
  · trivial
  · rfl

theorem keeps_sendListedObjects {objects : List S3Object} :
    Keeps (S3Storage.sendListedObjects objects) l fun _ l' => l' = l := by
  induction objects with
  | nil => rfl
  | cons o objects ih =>
    apply keeps_ask_bind
    · trivial
    rintro (- | -)
    · apply keeps_ask_bind
      · trivial
      intro sent
      apply keeps_awaited_bind
      rintro (- | -) -
      · apply keeps_ask_bind
        · trivial
        rintro (- | -) <;> trivial
      · exact ih
    · rfl

theorem keeps_spawnSubListings {maxKeys : Int} {depth : Nat} {subPrefixes : List String}
    {permit : Bool} (hl : l.Waiting permit) :
    Keeps (S3Storage.spawnSubListings mode maxKeys depth subPrefixes permit) l
      fun permit' l' => l'.Waiting permit' := by
  induction subPrefixes generalizing l permit with
  | nil => exact hl
  | cons subPrefix subPrefixes ih =>
    -- once without a permit: acquire, spawn, and on to the others
    have hrest : ∀ {l : PermitLedger}, l.permit = false → l.failed = false →
        Keeps (do
          awaited (← ListTask.ask .acquire)
          ListTask.ask (.spawn mode subPrefix maxKeys (depth + 1))
          S3Storage.spawnSubListings mode maxKeys depth subPrefixes false) l
          fun permit' l' => l'.Waiting permit' := by
      intro l hpermit hfailed
      apply keeps_ask_bind
      · exact hpermit
      intro answer
      apply keeps_awaited_bind
      rintro _ rfl
      apply keeps_ask_bind
      · rfl
      intro _
      exact ih ⟨rfl, hfailed, fun _ => rfl⟩
    apply keeps_ask_bind
    · trivial
    rintro (- | -)
    · rcases permit with - | -
      · exact hrest hl.permit hl.failed
      · apply keeps_ask_bind
        · exact hl.permit
        intro _
        exact hrest rfl hl.failed
    · exact hl

theorem keeps_joinSubListings {permit : Bool} (hl : l.Waiting permit) :
    Keeps S3Storage.joinSubListings l fun _ l' => l'.Settled ∧ l'.permit = permit := by
  apply obeys_loop (I := fun _ l => l.Waiting permit) hl
  intro _ l hl
  rw [then_ifOk]
  apply keeps_ask_bind
  · exact hl.alone
  rintro (- | - | ⟨j, joined⟩)
  · trivial
  · exact ⟨⟨rfl, hl.failed⟩, hl.permit⟩
  · rcases joined with - | e | message
    · refine ⟨hl.permit, by simp [PermitLedger.after, hl.failed], fun h => ?_⟩
      exact hl.alone fun h' => h (by simp [PermitLedger.after, h'])
    · exact ⟨Bool.or_true _, fun _ _ => trivial⟩
    · exact ⟨Bool.or_true _, fun _ _ => trivial⟩

/-- What a turn leaves behind: all sub-listings settled, and the permit where the
loop believes it to be. -/
def PermitLedger.TurnEnd (l : PermitLedger) (x : S3Storage.PageLoop ⊕ Option Bool) : Prop :=
  l.Settled ∧ match x with
    | .inl s => l.permit = s.permit
    | .inr left => left = some true → l.permit = true

/-- The end of a turn of `list_with_parallel`. -/
def S3Storage.turnEnd (storage : S3Storage) (mode : ListingMode) (pathPrefix : String)
    (cursor : Cursor) (page : ListPage) (permit : Bool) :
    ListTask (S3Storage.PageLoop ⊕ Option Bool) := do
  if page.isTruncated then
    match storage.nextCursor mode pathPrefix cursor page with
    | .ok next => return .inl { cursor := next, permit }
    | .error e => bail e
  else return .inr (some permit)

theorem keeps_parallelTurn {pathPrefix : String} {delimiter : Option String} {maxKeys : Int}
    {depth : Nat} {s : S3Storage.PageLoop} (hl : l.Settled) (hs : l.permit = s.permit) :
    Keeps (storage.parallelTurn mode pathPrefix delimiter maxKeys depth s) l
      fun x l' => l'.TurnEnd x := by
  apply keeps_ask_bind
  · trivial
  rintro (- | -)
  · apply keeps_ask_bind
    · trivial
    intro answer
    apply keeps_awaited_bind
    rintro _ rfl
    apply keeps_bind (keeps_fetchListPage (l := { l with paid := l.permit }) hl rfl)
    rintro page _ rfl
    apply keeps_bind keeps_sendListedObjects
    rintro (- | -) _ rfl
    · -- the end of the turn, once the sub-listings are settled
      have hnext : ∀ {l : PermitLedger} {permit : Bool}, l.Settled → l.permit = permit →
          Keeps (storage.turnEnd mode pathPrefix s.cursor page permit) l
            fun x l' => l'.TurnEnd x := by
        intro l permit hl hp
        unfold S3Storage.turnEnd
        split
        · rcases storage.nextCursor mode pathPrefix s.cursor page with e | next
          · trivial
          · exact ⟨hl, hp⟩
        · exact ⟨hl, fun h => hp.trans (Option.some.inj h)⟩
      show Keeps (ite (page.subPrefixes = []) _ _) _ _
      split
      · exact hnext hl hs
      · have hw : ({ l with paid := l.permit } : PermitLedger).Waiting s.permit :=
          ⟨hs, hl.2, fun h => absurd hl.1 h⟩
        apply keeps_bind (keeps_spawnSubListings hw)
        intro permit l' hl'
        apply keeps_bind (keeps_joinSubListings hl')
        intro _ l'' hl''
        exact hnext hl''.1 hl''.2
    · exact ⟨hl, fun h => by cases h⟩
  · exact ⟨hl, fun h => hs.trans (Option.some.inj h)⟩

theorem keeps_listWithParallel {pathPrefix : String} {maxKeys : Int} {depth : Nat}
    (hl : l.Settled) (hpermit : l.permit = true) :
    Keeps (storage.listWithParallel mode pathPrefix maxKeys depth) l fun _ l' => l'.Settled := by
  apply keeps_bind (R := fun left l' => l'.TurnEnd (.inr left))
  · apply obeys_loop (I := fun s l => l.Settled ∧ l.permit = s.permit) ⟨hl, hpermit⟩
    rintro s l ⟨hl, hs⟩
    rw [then_ifOk]
    apply Obeys.mono (keeps_parallelTurn hl hs)
    rintro (e | s' | left) l' h <;> exact h
  rintro left l' ⟨hl', hleft⟩
  split
  · rename_i h
    exact ⟨hleft h, fun _ _ => hl'⟩
  · exact hl'

/-- **A sub-listing** starts with a permit and keeps to its ledger. -/
theorem keeps_subListing {subPrefix : String} {maxKeys : Int} {depth : Nat} :
    Keeps (storage.subListing mode subPrefix maxKeys depth) { permit := true }
      fun _ l' => l'.Settled := by
  apply keeps_ask_bind
  · trivial
  intro answer
  apply keeps_awaited_bind
  rintro _ rfl
  exact keeps_context (keeps_listWithParallel ⟨rfl, rfl⟩ rfl)

theorem keeps_listSequential {maxKeys : Int} (hl : l.Settled) :
    Keeps (storage.listSequential mode maxKeys) l fun _ l' => l'.Settled := by
  apply obeys_loop (I := fun _ l => l.Settled) hl
  intro cursor l hl
  rw [then_ifOk]
  apply keeps_ask_bind
  · trivial
  rintro (- | -)
  · apply keeps_ask_bind
    · trivial
    intro answer
    apply keeps_awaited_bind
    rintro _ rfl
    apply keeps_bind (keeps_fetchListPage (l := { l with paid := l.permit }) hl rfl)
    rintro page _ rfl
    apply keeps_bind keeps_sendListedObjects
    rintro (- | -) _ rfl
    · show Keeps (ite (page.isTruncated = true) _ _) _ _
      split
      · rcases storage.nextCursor mode storage.pathPrefix cursor page with e | next
        · trivial
        · exact hl
      · exact hl
    · exact hl
  · exact hl

/-- **The call itself** starts without one. -/
theorem keeps_listDispatch {maxKeys : Int} :
    Keeps (storage.listDispatch mode maxKeys) { permit := false } fun _ l' => l'.Settled := by
  show Keeps (ite (storage.usesParallel = true) _ _) _ _
  split
  · apply keeps_ask_bind
    · rfl
    intro answer
    apply keeps_awaited_bind
    rintro _ rfl
    exact keeps_context (keeps_listWithParallel ⟨rfl, rfl⟩ rfl)
  · exact keeps_listSequential ⟨rfl, rfl⟩

end keeps

end S3rm
