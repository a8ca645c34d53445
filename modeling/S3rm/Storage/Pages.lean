/-
S3rm/Storage/Pages.lean

What a listing task can do, one page at a time.  `PageTurn` lists the ways a turn
of a page loop can go, for `list_sequential` and `list_with_parallel` alike (they
differ in what is done about the sub-prefixes of a page), and `PageLoopRun` puts
the turns of a task together.

A loop leaves without an error after a page that is not truncated, or because
cancellation or a closed channel stopped it.  In the first case its pages form a
chain (`Paged`), and everything on them was handed on (`PageLoopRun.paged`).
-/
import S3rm.Storage.Permits

namespace S3rm

open Conc Conc.Prog ListTask

/-! ### Reading a listing's events -/

/-- An `await` at which the task was dropped. -/
def ListEvent.drops : ListEvent → Bool
  | ⟨.start, none⟩ | ⟨.rateLimit, none⟩ | ⟨.request _ _, none⟩ | ⟨.send _, none⟩ | ⟨.acquire, none⟩
  | ⟨.joinNext, none⟩ => true
  | _ => false

/-- The task noticed that it is to stop: the token is cancelled, or the channel closed. -/
def ListEvent.stops : ListEvent → Bool
  | ⟨.isCancelled, cancelled⟩ => cancelled
  | ⟨.isClosed, closed⟩ => closed
  | ⟨.send _, some sent⟩ => !sent
  | _ => false

/-- A page request that failed. -/
def ListEvent.fails : ListEvent → Bool
  | ⟨.request _ _, some (.error _)⟩ => true
  | _ => false

/-- The page requests, with their answers. -/
def ListEvent.fetches : ListEvent → Bool
  | ⟨.request _ _, _⟩ => true
  | _ => false

/-- The objects that went into the channel. -/
def intoChannel : ListEvent → List S3Object
  | ⟨.send o, some true⟩ => [o]
  | _ => []

/-- The sub-prefixes a task was started for. -/
def startedFor : ListEvent → List (ListingMode × String × Int × Nat)
  | ⟨.spawn mode subPrefix maxKeys depth, _⟩ => [(mode, subPrefix, maxKeys, depth)]
  | _ => []

/-- Everything that a task handed on, or asked for, along a trace. -/
structure Handed where
  fetched : ListTrace := []
  delivered : List S3Object := []
  started : List (ListingMode × String × Int × Nat) := []

instance : Append Handed where
  append x y := ⟨x.fetched ++ y.fetched, x.delivered ++ y.delivered, x.started ++ y.started⟩

def handed (t : ListTrace) : Handed :=
  ⟨t.filter ListEvent.fetches, t.flatMap intoChannel, t.flatMap startedFor⟩

theorem Handed.append_eq (x y : Handed) :
    x ++ y = ⟨x.fetched ++ y.fetched, x.delivered ++ y.delivered, x.started ++ y.started⟩ := rfl

@[simp] theorem Handed.append_empty (x : Handed) : x ++ ({} : Handed) = x := by
  obtain ⟨fetched, delivered, started⟩ := x
  show Handed.mk (fetched ++ []) (delivered ++ []) (started ++ []) = _
  simp only [List.append_nil]

@[simp] theorem Handed.empty_append (x : Handed) : ({} : Handed) ++ x = x := rfl

@[simp] theorem handed_append (t u : ListTrace) : handed (t ++ u) = handed t ++ handed u := by
  show Handed.mk _ _ _ = Handed.mk _ _ _
  simp only [handed, List.filter_append, List.flatMap_append]

/-- An operation that hands nothing on and asks for no page. -/
def ListOp.isQuiet : ListOp → Bool
  | .request _ _ | .send _ | .spawn _ _ _ _ => false
  | _ => true

theorem handed_quiet {t : ListTrace} (h : ∀ e ∈ t, e.1.isQuiet) : handed t = {} := by
  have hfetched : t.filter ListEvent.fetches = [] := by
    apply List.filter_eq_nil_iff.mpr
    rintro ⟨o, r⟩ he
    have ho := h _ he
    cases o <;> simp_all [ListOp.isQuiet, ListEvent.fetches]
  have hdelivered : t.flatMap intoChannel = [] := by
    apply List.flatMap_eq_nil_iff.mpr
    rintro ⟨o, r⟩ he
    have ho := h _ he
    cases o <;> first | rfl | cases ho
  have hstarted : t.flatMap startedFor = [] := by
    apply List.flatMap_eq_nil_iff.mpr
    rintro ⟨o, r⟩ he
    have ho := h _ he
    cases o <;> first | rfl | cases ho
  unfold handed
  rw [hfetched, hdelivered, hstarted]

/-! ### Sending a page -/

/-- What sending objects does while the reader keeps receiving. -/
def sends (objects : List S3Object) : ListTrace :=
  objects.flatMap fun o => [⟨.isCancelled, false⟩, ⟨.send o, some true⟩]

theorem run_sendListedObjects (objects : List S3Object) :
    Run (S3Storage.sendListedObjects objects) (sends objects) (.ok false) := by
  induction objects with
  | nil => exact ⟨rfl, rfl⟩
  | cons o objects ih => exact ⟨false, _, rfl, some true, _, rfl, ih⟩

theorem handed_sends (objects : List S3Object) : handed (sends objects) = { delivered := objects } := by
  induction objects with
  | nil => rfl
  | cons o objects ih =>
    show handed ([⟨.isCancelled, false⟩, ⟨.send o, some true⟩] ++ sends objects) = _
    rw [handed_append, ih]
    rfl

/-- Sending was stopped before the end. -/
inductive Interrupted : List S3Object → ListTrace → Prop
  | cancelled {o : S3Object} {objects : List S3Object} :
      Interrupted (o :: objects) [⟨.isCancelled, true⟩]
  | closed {o : S3Object} {objects : List S3Object} :
      Interrupted (o :: objects) [⟨.isCancelled, false⟩, ⟨.send o, some false⟩, ⟨.isClosed, true⟩]
  | sent {o : S3Object} {objects : List S3Object} {t : ListTrace} (rest : Interrupted objects t) :
      Interrupted (o :: objects) (⟨.isCancelled, false⟩ :: ⟨.send o, some true⟩ :: t)

theorem Interrupted.stops {objects : List S3Object} {t : ListTrace} (h : Interrupted objects t) :
    ∃ e ∈ t, ListEvent.stops e := by
  induction h with
  | cancelled => exact ⟨⟨.isCancelled, true⟩, by simp, rfl⟩
  | closed => exact ⟨⟨.isClosed, true⟩, by simp, rfl⟩
  | sent _ ih =>
    obtain ⟨e, he, hstops⟩ := ih
    exact ⟨e, by simp [he], hstops⟩

theorem sends_no_fetch (objects : List S3Object) : ∀ x ∈ sends objects, x.fetches = false := by
  intro x hx
  obtain ⟨o, -, hx⟩ := List.mem_flatMap.mp hx
  simp only [List.mem_cons, List.not_mem_nil, or_false] at hx
  rcases hx with rfl | rfl <;> rfl

theorem Interrupted.no_fetch {objects : List S3Object} {t : ListTrace} (h : Interrupted objects t) :
    ∀ x ∈ t, ListEvent.fetches x = false := by
  induction h with
  | cancelled | closed => simp [ListEvent.fetches]
  | sent _ ih => simpa [ListEvent.fetches] using ih

/-- What sending asks for. -/
def ListOp.isSending : ListOp → Bool
  | .isCancelled | .send _ | .isClosed => true
  | _ => false

/-- The runs of `send_listed_objects`. -/
inductive Sending (objects : List S3Object) : ListTrace → Except Exit Bool → Prop
  | all : Sending objects (sends objects) (.ok false)
  | stopped {t : ListTrace} (stop : Interrupted objects t) : Sending objects t (.ok true)
  | failed {t : ListTrace} {e : Exit} (ops : ∀ x ∈ t, x.1.isSending)
      (dropped : e = .aborted → ∃ x ∈ t, ListEvent.drops x)
      (refused : e ≠ .aborted → ∃ x ∈ t, ListEvent.stops x) : Sending objects t (.error e)

theorem sending_of_run {objects : List S3Object} {t : ListTrace} {r : Except Exit Bool}
    (h : Run (S3Storage.sendListedObjects objects) t r) : Sending objects t r := by
  induction objects generalizing t with
  | nil =>
    obtain ⟨rfl, rfl⟩ := h
    exact .all
  | cons o objects ih =>
    obtain ⟨cancelled, u, rfl, h⟩ := h
    rcases cancelled with - | -
    · obtain ⟨sent, u, rfl, h⟩ := h
      rcases sent with - | (- | -)
      · obtain ⟨rfl, rfl⟩ := h
        exact .failed (by simp [ListOp.isSending]) (fun _ => ⟨⟨.send o, none⟩, by simp, rfl⟩)
          fun he => absurd rfl he
      · obtain ⟨closed, u, rfl, h⟩ := h
        rcases closed with - | -
        · obtain ⟨rfl, rfl⟩ := h
          exact .failed (by simp [ListOp.isSending]) nofun fun _ => ⟨⟨.send o, some false⟩, by simp, rfl⟩
        · obtain ⟨rfl, rfl⟩ := h
          exact .stopped .closed
      · cases ih h with
        | all => exact .all
        | stopped stop => exact .stopped (.sent stop)
        | failed ops dropped refused =>
          refine .failed (by simpa [ListOp.isSending] using ops) (fun he => ?_) fun he => ?_
          · obtain ⟨x, hx, hdrops⟩ := dropped he
            exact ⟨x, by simp [hx], hdrops⟩
          · obtain ⟨x, hx, hstops⟩ := refused he
            exact ⟨x, by simp [hx], hstops⟩
    · obtain ⟨rfl, rfl⟩ := h
      exact .stopped .cancelled

/-! ### The sub-prefixes of a page -/

section subPrefixes

variable {mode : ListingMode} {maxKeys : Int} {depth : Nat}

/-- What starting tasks asks for. -/
def ListOp.isSpawning : ListOp → Bool
  | .isCancelled | .release | .acquire | .spawn _ _ _ _ => true
  | _ => false

/-- What joining tasks asks for. -/
def ListOp.isJoining : ListOp → Bool
  | .joinNext | .cancel => true
  | _ => false

/-- The arguments of the tasks for sub-prefixes. -/
def subTasks (mode : ListingMode) (maxKeys : Int) (depth : Nat) (subPrefixes : List String) :
    List (ListingMode × String × Int × Nat) :=
  subPrefixes.map fun subPrefix => (mode, subPrefix, maxKeys, depth + 1)

/-- The runs of the loop over the sub-prefixes. -/
inductive Spawning (mode : ListingMode) (maxKeys : Int) (depth : Nat) (subPrefixes : List String)
    (t : ListTrace) : Except Exit Bool → Prop
  | all {permit : Bool} (ops : ∀ x ∈ t, x.1.isSpawning)
      (started : t.flatMap startedFor = subTasks mode maxKeys depth subPrefixes) :
      Spawning mode maxKeys depth subPrefixes t (.ok permit)
  | stopped {permit : Bool} (ops : ∀ x ∈ t, x.1.isSpawning) (stop : ∃ x ∈ t, ListEvent.stops x) :
      Spawning mode maxKeys depth subPrefixes t (.ok permit)
  | dropped (ops : ∀ x ∈ t, x.1.isSpawning) (dropped : ∃ x ∈ t, ListEvent.drops x) :
      Spawning mode maxKeys depth subPrefixes t (.error .aborted)

theorem spawning_of_run {subPrefixes : List String} {permit : Bool} {t : ListTrace}
    {r : Except Exit Bool}
    (h : Run (S3Storage.spawnSubListings mode maxKeys depth subPrefixes permit) t r) :
    Spawning mode maxKeys depth subPrefixes t r := by
  induction subPrefixes generalizing t permit with
  | nil =>
    obtain ⟨rfl, rfl⟩ := h
    exact .all (by simp) rfl
  | cons subPrefix subPrefixes ih =>
    -- once the task has given up its permit
    have hrest : ∀ {u : ListTrace}, Run (do
          awaited (← ListTask.ask .acquire)
          ListTask.ask (.spawn mode subPrefix maxKeys (depth + 1))
          S3Storage.spawnSubListings mode maxKeys depth subPrefixes false : ListTask Bool) u r →
        Spawning mode maxKeys depth (subPrefix :: subPrefixes) u r := by
      rintro u ⟨answer, u, rfl, h⟩
      rcases answer with - | ⟨⟨⟩⟩
      · obtain ⟨rfl, rfl⟩ := h
        exact .dropped (by simp [ListOp.isSpawning]) ⟨⟨.acquire, none⟩, by simp, rfl⟩
      · obtain ⟨⟨⟩, u, rfl, h⟩ := h
        cases ih h with
        | all ops started =>
          refine .all ?_ ?_
          · simpa [ListOp.isSpawning] using ops
          · rw [List.flatMap_cons, List.flatMap_cons, started]
            rfl
        | stopped ops stop =>
          obtain ⟨x, hx, hstops⟩ := stop
          exact .stopped (by simpa [ListOp.isSpawning] using ops) ⟨x, by simp [hx], hstops⟩
        | dropped ops dropped =>
          obtain ⟨x, hx, hdrops⟩ := dropped
          exact .dropped (by simpa [ListOp.isSpawning] using ops) ⟨x, by simp [hx], hdrops⟩
    -- before that it looks at the token, and may give up its permit
    have hbefore : ∀ {u : ListTrace} {x : ListEvent}, x.1.isSpawning → startedFor x = [] →
        Spawning mode maxKeys depth (subPrefix :: subPrefixes) u r →
        Spawning mode maxKeys depth (subPrefix :: subPrefixes) (x :: u) r := by
      intro u x hx hnone hu
      cases hu with
      | all ops started =>
        refine .all (by simpa [hx] using ops) ?_
        rw [List.flatMap_cons, hnone]
        exact started
      | stopped ops stop =>
        obtain ⟨y, hy, hstops⟩ := stop
        exact .stopped (by simpa [hx] using ops) ⟨y, by simp [hy], hstops⟩
      | dropped ops dropped =>
        obtain ⟨y, hy, hdrops⟩ := dropped
        exact .dropped (by simpa [hx] using ops) ⟨y, by simp [hy], hdrops⟩
    obtain ⟨cancelled, u, rfl, h⟩ := h
    rcases cancelled with - | -
    · rcases permit with - | -
      · exact hbefore rfl rfl (hrest h)
      · obtain ⟨⟨⟩, u, rfl, h⟩ := h
        exact hbefore rfl rfl (hbefore rfl rfl (hrest h))
    · obtain ⟨rfl, rfl⟩ := h
      exact .stopped (by simp [ListOp.isSpawning]) ⟨⟨.isCancelled, true⟩, by simp, rfl⟩

/-- The runs of the loop over the join set: a task that failed cancels the run. -/
inductive Joining (t : ListTrace) : Except Exit Unit → Prop
  | all (ops : ∀ x ∈ t, x.1.isJoining)
      (settled : ∀ l : PermitLedger, l.failed = false → (permitProtocol.afterAll l t).Settled) :
      Joining t (.ok ())
  | failed {e : Error} (ops : ∀ x ∈ t, x.1.isJoining) (cancels : (⟨.cancel, ()⟩ : ListEvent) ∈ t) :
      Joining t (.error (.error e))
  | dropped (ops : ∀ x ∈ t, x.1.isJoining) (dropped : ∃ x ∈ t, ListEvent.drops x) :
      Joining t (.error .aborted)

theorem joining_of_run {t : ListTrace} {r : Except Exit Unit}
    (h : Run S3Storage.joinSubListings t r) : Joining t r := by
  obtain ⟨⟨⟩, u, v, rfl, hr, hv⟩ := run_loop.mp h
  -- a turn that goes on has joined a task that succeeded
  have hinv : (∀ x ∈ u, x.1.isJoining) ∧
      ∀ l : PermitLedger, l.failed = false → (permitProtocol.afterAll l u).failed = false := by
    refine hr.invariant (I := fun _ t => (∀ x ∈ t, x.1.isJoining) ∧
      ∀ l : PermitLedger, l.failed = false → (permitProtocol.afterAll l t).failed = false)
      (t := []) ?_ ⟨by simp, fun _ h => h⟩
    rintro ⟨⟩ t u ⟨⟩ ⟨hops, hsound⟩ ⟨answer, w, rfl, hw⟩
    rcases answer with - | - | ⟨j, - | e | message⟩
    · cases hw.2
    · cases hw.2
    · obtain ⟨rfl, -⟩ := hw
      refine ⟨by simpa [ListOp.isJoining, or_imp, forall_and] using hops, fun l hl => ?_⟩
      rw [Protocol.afterAll_append]
      show ((permitProtocol.afterAll l t).failed || false) = false
      rw [hsound l hl]
      rfl
    · obtain ⟨⟨⟩, w, rfl, -, hw⟩ := hw
      cases hw
    · obtain ⟨⟨⟩, w, rfl, -, hw⟩ := hw
      cases hw
  obtain ⟨hu, hsound⟩ := hinv
  have hall : ∀ {v : ListTrace}, (∀ x ∈ v, x.1.isJoining) → ∀ x ∈ u ++ v, x.1.isJoining :=
    fun hv x hx => (List.mem_append.mp hx).elim (hu x) (hv x)
  obtain ⟨answer, w, rfl, hw⟩ := hv
  rcases answer with - | - | ⟨j, - | e | message⟩
  · obtain ⟨rfl, he⟩ := hw
    rcases r with e | ⟨⟨⟩⟩
    · cases he
      exact .dropped (hall (by simp [ListOp.isJoining])) ⟨⟨.joinNext, none⟩, by simp, rfl⟩
    · cases he
  · obtain ⟨rfl, he⟩ := hw
    rcases r with e | ⟨⟨⟩⟩
    · cases he
    · refine .all (hall (by simp [ListOp.isJoining])) fun l hl => ?_
      rw [Protocol.afterAll_append]
      exact ⟨rfl, hsound l hl⟩
  · obtain ⟨-, he⟩ := hw
    rcases r with e | ⟨⟨⟩⟩ <;> cases he
  · obtain ⟨⟨⟩, w, rfl, rfl, he⟩ := hw
    rcases r with e | ⟨⟨⟩⟩
    · cases he
      exact .failed (hall (by simp [ListOp.isJoining])) (by simp)
    · cases he
  · obtain ⟨⟨⟩, w, rfl, rfl, he⟩ := hw
    rcases r with e | ⟨⟨⟩⟩
    · cases he
      exact .failed (hall (by simp [ListOp.isJoining])) (by simp)
    · cases he

end subPrefixes

/-! ### Settled sub-listings -/

/-- Along the trace, every sub-listing that was started is joined, successfully. -/
def JoinsAll (t : ListTrace) : Prop :=
  ∀ l : PermitLedger, l.Settled → (permitProtocol.afterAll l t).Settled

theorem joinsAll_nil : JoinsAll [] := fun _ h => h

theorem JoinsAll.append {t u : ListTrace} (ht : JoinsAll t) (hu : JoinsAll u) : JoinsAll (t ++ u) := by
  intro l hl
  rw [Protocol.afterAll_append]
  exact hu _ (ht l hl)

/-- An operation that has nothing to do with sub-listings. -/
def ListOp.isAlone : ListOp → Bool
  | .spawn _ _ _ _ | .joinNext => false
  | _ => true

theorem joinsAll_of_alone {t : ListTrace} (h : ∀ x ∈ t, x.1.isAlone) : JoinsAll t := by
  induction t with
  | nil => exact joinsAll_nil
  | cons e t ih =>
    intro l hl
    apply ih (fun x hx => h x (List.mem_cons_of_mem e hx)) (permitProtocol.after l e)
    have he := h e List.mem_cons_self
    obtain ⟨o, r⟩ := e
    cases o
    case spawn | joinNext => cases he
    all_goals first | exact hl | (cases r <;> exact hl)

theorem sends_alone (objects : List S3Object) : ∀ x ∈ sends objects, x.1.isAlone := by
  intro x hx
  obtain ⟨o, -, hx⟩ := List.mem_flatMap.mp hx
  simp only [List.mem_cons, List.not_mem_nil, or_false] at hx
  rcases hx with rfl | rfl <;> rfl

theorem Interrupted.alone {objects : List S3Object} {t : ListTrace} (h : Interrupted objects t) :
    ∀ x ∈ t, x.1.isAlone := by
  induction h with
  | cancelled | closed => simp [ListOp.isAlone]
  | sent _ ih => simpa [ListOp.isAlone] using ih

/-- Starting tasks teaches nothing about failures. -/
theorem failed_of_spawning {t : ListTrace} (h : ∀ x ∈ t, x.1.isSpawning) {l : PermitLedger}
    (hl : l.failed = false) : (permitProtocol.afterAll l t).failed = false := by
  induction t generalizing l with
  | nil => exact hl
  | cons e t ih =>
    apply ih (fun x hx => h x (List.mem_cons_of_mem e hx)) (l := permitProtocol.after l e)
    have he := h e List.mem_cons_self
    obtain ⟨o, r⟩ := e
    cases o
    case isCancelled | release | spawn => exact hl
    case acquire => cases r <;> exact hl
    all_goals cases he

/-! ### Where a page loop reads -/

/-- The token, or the pair of markers, of a cursor is there. -/
def Cursor.Given (mode : ListingMode) (c : Cursor) : Prop :=
  match mode with
  | .objects => c.continuationToken ≠ none
  | .versions => c.keyMarker ≠ none

/-- What stays the same in a page loop: the arguments of its page requests, and
the depth of its sub-listings where it has any. -/
structure PageSource where
  storage : S3Storage
  mode : ListingMode
  pathPrefix : String
  delimiter : Option String := none
  maxKeys : Int
  depth : Option Nat := none

section nextCursor

variable {storage : S3Storage} {mode : ListingMode}

/-- Two checks, each with its error. -/
theorem checks_eq_ok {P Q : Prop} [Decidable P] [Decidable Q] {e e' : Error} {c c' : Cursor} :
    (if P then .error e else if Q then .error e' else .ok c : Except Error Cursor) = .ok c' ↔
      c = c' ∧ ¬ P ∧ ¬ Q := by
  by_cases hP : P
  · simp [hP]
  · by_cases hQ : Q
    · simp [hP, hQ]
    · simp [hP, hQ]

/-- The next cursor of a page is the page's, when it is there and another one. -/
theorem nextCursor_eq {pathPrefix : String} {c c' : Cursor} (hc : mode.sent c = c)
    {output : mode.Output} :
    storage.nextCursor mode pathPrefix c (mode.toPage output) = .ok c' ↔
      (mode.toPage output).next = c' ∧ c'.Given mode ∧ c' ≠ c := by
  obtain ⟨token, keyMarker, versionIdMarker⟩ := c
  cases mode with
  | objects =>
    obtain ⟨rfl, rfl⟩ : keyMarker = none ∧ versionIdMarker = none := by
      simpa [ListingMode.sent, eq_comm] using hc
    apply checks_eq_ok.trans
    constructor
    · rintro ⟨rfl, hsome, hother⟩
      exact ⟨rfl, hsome, fun h => hother (congrArg Cursor.continuationToken h)⟩
    · rintro ⟨rfl, hgiven, hne⟩
      refine ⟨rfl, hgiven, fun h => hne ?_⟩
      exact congrArg (fun token => ({ continuationToken := token } : Cursor)) h
  | versions =>
    obtain rfl : token = none := by
      simpa [ListingMode.sent, eq_comm] using hc
    apply checks_eq_ok.trans
    constructor
    · rintro ⟨rfl, hsome, hother⟩
      refine ⟨rfl, hsome, fun h => hother ?_⟩
      exact ⟨congrArg Cursor.keyMarker h, congrArg Cursor.versionIdMarker h⟩
    · rintro ⟨rfl, hgiven, hne⟩
      refine ⟨rfl, hgiven, fun h => hne ?_⟩
      show ({ keyMarker := output.nextKeyMarker, versionIdMarker := output.nextVersionIdMarker } :
        Cursor) = _
      rw [show output.nextKeyMarker = keyMarker from h.1,
        show output.nextVersionIdMarker = versionIdMarker from h.2]

end nextCursor

namespace PageSource

variable (p : PageSource)

/-- The page request at a cursor. -/
def request (c : Cursor) : ListRequest where
  bucket := p.storage.bucket
  pathPrefix := p.pathPrefix
  delimiter := p.delimiter
  maxKeys := p.maxKeys
  cursor := p.mode.sent c

/-- The page request at a cursor, answered. -/
def fetched (c : Cursor) (output : p.mode.Output) : ListEvent :=
  ⟨.request p.mode (p.request c), some (.ok output)⟩

/-- The beginning of a turn that gets a page. -/
def fetch (c : Cursor) (output : p.mode.Output) : ListTrace :=
  [⟨.isCancelled, false⟩, ⟨.rateLimit, some ()⟩, p.fetched c output]

/-- The tasks for the sub-prefixes of a page. -/
def tasks (subPrefixes : List String) : List (ListingMode × String × Int × Nat) :=
  match p.depth with
  | some depth => subTasks p.mode p.maxKeys depth subPrefixes
  | none => []

/-- What is done about the sub-prefixes of a page: nothing in a sequential listing. -/
inductive Subs (subPrefixes : List String) : ListTrace → Except Exit Unit → Prop
  | none (h : p.depth = none ∨ subPrefixes = []) : Subs subPrefixes [] (.ok ())
  | dropped {depth : Nat} {permit : Bool} {t : ListTrace} {e : Exit} (at_ : p.depth = some depth)
      (spawn : Run (S3Storage.spawnSubListings p.mode p.maxKeys depth subPrefixes permit) t
        (.error e)) :
      Subs subPrefixes t (.error e)
  | joined {depth : Nat} {permit permit' : Bool} {t u : ListTrace} {r : Except Exit Unit}
      (at_ : p.depth = some depth)
      (spawn : Run (S3Storage.spawnSubListings p.mode p.maxKeys depth subPrefixes permit) t
        (.ok permit')) (join : Run S3Storage.joinSubListings u r) :
      Subs subPrefixes (t ++ u) r

section subs

variable {p} {subPrefixes : List String} {t : ListTrace}

theorem joining_quiet {u : ListTrace} (h : ∀ x ∈ u, x.1.isJoining) : handed u = {} := by
  apply handed_quiet
  intro x hx
  have hop := h x hx
  obtain ⟨o, r⟩ := x
  cases o <;> first | rfl | cases hop

theorem spawning_handed {u : ListTrace} (h : ∀ x ∈ u, x.1.isSpawning) :
    handed u = { started := u.flatMap startedFor } := by
  induction u with
  | nil => rfl
  | cons e u ih =>
    show handed ([e] ++ u) = _
    rw [handed_append, ih fun x hx => h x (List.mem_cons_of_mem e hx)]
    have he := h e List.mem_cons_self
    obtain ⟨o, r⟩ := e
    cases o
    case isCancelled | release | acquire | spawn => rfl
    all_goals cases he

/-- **All tasks are started and joined**, unless the task noticed that it is to stop. -/
theorem Subs.handed (h : p.Subs subPrefixes t (.ok ())) :
    handed t = { started := p.tasks subPrefixes } ∨ ∃ x ∈ t, ListEvent.stops x := by
  generalize hr : (.ok () : Except Exit Unit) = r at h
  cases h with
  | none h =>
    left
    unfold tasks
    rcases h with h | rfl
    · rw [h]
      rfl
    · cases p.depth <;> rfl
  | dropped => cases hr
  | joined at_ spawn join =>
    subst hr
    cases joining_of_run join with
    | all ops settled =>
      cases spawning_of_run spawn with
      | all ops' started =>
        left
        rw [handed_append, joining_quiet ops, spawning_handed ops', started, Handed.append_empty]
        unfold tasks
        rw [at_]
      | stopped ops' stop =>
        obtain ⟨x, hx, hstops⟩ := stop
        exact .inr ⟨x, List.mem_append_left _ hx, hstops⟩

theorem Subs.joinsAll (h : p.Subs subPrefixes t (.ok ())) : JoinsAll t := by
  generalize hr : (.ok () : Except Exit Unit) = r at h
  cases h with
  | none => exact joinsAll_nil
  | dropped => cases hr
  | joined at_ spawn join =>
    subst hr
    intro l hl
    rw [Protocol.afterAll_append]
    cases joining_of_run join with
    | all ops settled =>
      apply settled
      apply failed_of_spawning _ hl.2
      cases spawning_of_run spawn with
      | all ops' started => exact ops'
      | stopped ops' stop => exact ops'

/-- A sub-listing that failed cancels the run. -/
theorem Subs.cancels {e : Error} (h : p.Subs subPrefixes t (.error (.error e))) :
    (⟨.cancel, ()⟩ : ListEvent) ∈ t := by
  generalize hr : (.error (.error e) : Except Exit Unit) = r at h
  cases h with
  | none => cases hr
  | dropped at_ spawn =>
    obtain rfl := Except.error.inj hr
    cases spawning_of_run spawn
  | joined at_ spawn join =>
    subst hr
    cases joining_of_run join with
    | failed ops cancels => exact List.mem_append_right _ cancels

theorem Subs.drops (h : p.Subs subPrefixes t (.error .aborted)) : ∃ x ∈ t, ListEvent.drops x := by
  generalize hr : (.error .aborted : Except Exit Unit) = r at h
  cases h with
  | none => cases hr
  | dropped at_ spawn =>
    obtain rfl := Except.error.inj hr
    cases spawning_of_run spawn with
    | dropped ops dropped => exact dropped
  | joined at_ spawn join =>
    subst hr
    cases joining_of_run join with
    | dropped ops dropped =>
      obtain ⟨x, hx, hdrops⟩ := dropped
      exact ⟨x, List.mem_append_right _ hx, hdrops⟩

end subs

/-! ### A turn -/

variable (c : Cursor)

/-- The ways a turn of a page loop can go. -/
inductive PageTurn : ListTrace → Cursor ⊕ Except Exit Unit → Prop
  | cancelled : PageTurn [⟨.isCancelled, true⟩] (.inr (.ok ()))
  /-- Before the page is there, or while its objects are sent. -/
  | failed {t : ListTrace} {e : Exit} (alone : ∀ x ∈ t, x.1.isAlone)
      (dropped : e = .aborted → ∃ x ∈ t, ListEvent.drops x)
      (refused : e ≠ .aborted → ∃ x ∈ t, ListEvent.fails x || ListEvent.stops x) :
      PageTurn t (.inr (.error e))
  | interrupted {output : p.mode.Output} {t : ListTrace}
      (stop : Interrupted (p.mode.toPage output).objects t) :
      PageTurn (p.fetch c output ++ t) (.inr (.ok ()))
  | unlisted {output : p.mode.Output} {t : ListTrace} {e : Exit}
      (subs : p.Subs (p.mode.toPage output).subPrefixes t (.error e)) :
      PageTurn (p.fetch c output ++ (sends (p.mode.toPage output).objects ++ t)) (.inr (.error e))
  | last {output : p.mode.Output} {t : ListTrace}
      (subs : p.Subs (p.mode.toPage output).subPrefixes t (.ok ()))
      (whole : (p.mode.toPage output).isTruncated = false) :
      PageTurn (p.fetch c output ++ (sends (p.mode.toPage output).objects ++ t)) (.inr (.ok ()))
  | stuck {output : p.mode.Output} {t : ListTrace} {e : Error}
      (subs : p.Subs (p.mode.toPage output).subPrefixes t (.ok ()))
      (truncated : (p.mode.toPage output).isTruncated = true)
      (next : p.storage.nextCursor p.mode p.pathPrefix c (p.mode.toPage output) = .error e) :
      PageTurn (p.fetch c output ++ (sends (p.mode.toPage output).objects ++ t))
        (.inr (.error (.error e)))
  | next {output : p.mode.Output} {t : ListTrace} {c' : Cursor}
      (subs : p.Subs (p.mode.toPage output).subPrefixes t (.ok ()))
      (truncated : (p.mode.toPage output).isTruncated = true)
      (next : p.storage.nextCursor p.mode p.pathPrefix c (p.mode.toPage output) = .ok c') :
      PageTurn (p.fetch c output ++ (sends (p.mode.toPage output).objects ++ t)) (.inl c')

/-- The runs of a page loop. -/
inductive LoopRun : ListTrace → Except Exit Unit → Prop
  | mk {t u : ListTrace} {c : Cursor} {r : Except Exit Unit} (rounds : Rounds p.PageTurn {} t c)
      (last : p.PageTurn c u (.inr r)) : LoopRun (t ++ u) r

variable {p c}

/-- What a turn does after its look at the token, up to the page. -/
theorem fetch_cases {α : Type} {f : ListPage → ListTask α} {t : ListTrace} {r : Except Exit α}
    (h : Run (do
      awaited (← ListTask.ask .rateLimit)
      let page ← p.storage.fetchListPage p.mode p.pathPrefix p.delimiter p.maxKeys c
      f page : ListTask α) t r) :
    (∃ e, r = .error e ∧ (∀ x ∈ t, x.1.isAlone) ∧ (e = .aborted → ∃ x ∈ t, ListEvent.drops x) ∧
      (e ≠ .aborted → ∃ x ∈ t, ListEvent.fails x)) ∨
    ∃ output u, t = ⟨.rateLimit, some ()⟩ :: p.fetched c output :: u ∧
      Run (f (p.mode.toPage output)) u r := by
  obtain ⟨answer, u, rfl, h⟩ := h
  rcases answer with - | ⟨⟨⟩⟩
  · obtain ⟨rfl, rfl⟩ := h
    exact .inl ⟨_, rfl, by simp [ListOp.isAlone], fun _ => ⟨⟨.rateLimit, none⟩, by simp, rfl⟩,
      fun he => absurd rfl he⟩
  · obtain ⟨answer, u, rfl, h⟩ := h
    rcases answer with - | e | output
    · obtain ⟨rfl, rfl⟩ := h
      refine .inl ⟨_, rfl, by simp [ListOp.isAlone], fun _ => ?_, fun he => absurd rfl he⟩
      exact ⟨⟨.request p.mode (p.request c), none⟩, by simp [request], rfl⟩
    · obtain ⟨rfl, rfl⟩ := h
      refine .inl ⟨_, rfl, by simp [ListOp.isAlone], nofun, fun _ => ?_⟩
      exact ⟨⟨.request p.mode (p.request c), some (.error e)⟩, by simp [request], rfl⟩
    · exact .inr ⟨output, u, rfl, h⟩

theorem alone_of_sending {t : ListTrace} (h : ∀ x ∈ t, x.1.isSending) : ∀ x ∈ t, x.1.isAlone := by
  intro x hx
  have hop := h x hx
  obtain ⟨o, r⟩ := x
  cases o <;> first | rfl | cases hop

theorem fetch_alone (output : p.mode.Output) : ∀ x ∈ p.fetch c output, x.1.isAlone := by
  simp [fetch, fetched, ListOp.isAlone]

end PageSource

/-- What a task does before and after its page loop. -/
def ListOp.isMinor : ListOp → Bool
  | .start | .acquire | .release => true
  | _ => false

/-- The runs of a task with one page loop. -/
inductive PageSource.TaskRun (p : PageSource) : ListTrace → Except Exit Unit → Prop
  | dropped {t : ListTrace} (minor : ∀ x ∈ t, x.1.isMinor) (dropped : ∃ x ∈ t, ListEvent.drops x) :
      TaskRun p t (.error .aborted)
  | loop {pre t post : ListTrace} {r r' : Except Exit Unit}
      (minor : ∀ x ∈ pre ++ post, x.1.isMinor) (run : p.LoopRun t r)
      (result : (∀ e, r' ≠ .error (.error e)) → r = r')
      (failed : ∀ e', r' = .error (.error e') → ∃ e, r = .error (.error e)) :
      TaskRun p (pre ++ (t ++ post)) r'

/-- `list_sequential` reads the whole target, page by page. -/
def S3Storage.sequentialSource (storage : S3Storage) (mode : ListingMode) (maxKeys : Int) :
    PageSource where
  storage := storage
  mode := mode
  pathPrefix := storage.pathPrefix
  maxKeys := maxKeys

/-- `list_with_parallel` reads one prefix; down to the greatest depth, its
sub-prefixes are left to others. -/
def S3Storage.parallelSource (storage : S3Storage) (mode : ListingMode) (pathPrefix : String)
    (maxKeys : Int) (depth : Nat) : PageSource where
  storage := storage
  mode := mode
  pathPrefix := if pathPrefix = "" then storage.pathPrefix else pathPrefix
  delimiter := if depth ≤ storage.config.maxParallelListingMaxDepth then some "/" else none
  maxKeys := maxKeys
  depth := some depth

section turns

open PageSource

variable {storage : S3Storage} {mode : ListingMode} {maxKeys : Int} {t : ListTrace}

/-- Where a turn leads, less what the loop keeps beside its cursor. -/
def turnEnd {σ τ : Type} (cursor : σ → Cursor) : σ ⊕ Except Exit τ → Cursor ⊕ Except Exit Unit :=
  Sum.map cursor (Except.map fun _ => ())

/-- **A turn up to the sub-prefixes**: it ends, or the whole page has been sent. -/
theorem pageTurn_or {σ τ : Type} {cursor : σ → Cursor} {p : PageSource} {c : Cursor} {a b : τ}
    {tail : ListPage → ListTask (σ ⊕ τ)} {x : σ ⊕ Except Exit τ}
    (h : Run (do
      if ← ListTask.ask .isCancelled then return .inr a
      awaited (← ListTask.ask .rateLimit)
      let page ← p.storage.fetchListPage p.mode p.pathPrefix p.delimiter p.maxKeys c
      if ← S3Storage.sendListedObjects page.objects then return .inr b
      tail page : ListTask (σ ⊕ τ)) t (turnResult x)) :
    p.PageTurn c t (turnEnd cursor x) ∨
      ∃ output u, t = p.fetch c output ++ (sends (p.mode.toPage output).objects ++ u) ∧
        Run (tail (p.mode.toPage output)) u (turnResult x) := by
  obtain ⟨cancelled, t, rfl, hfetch⟩ := h
  rcases cancelled with - | -
  · rcases fetch_cases hfetch with ⟨e, hr, alone, dropped, failing⟩ | ⟨output, u, rfl, hsend⟩
    · left
      rcases x with c' | (e' | r) <;> cases hr
      refine .failed (by simpa [ListOp.isAlone] using alone) (fun he => ?_) fun he => ?_
      · obtain ⟨y, hy, hdrops⟩ := dropped he
        exact ⟨y, List.mem_cons_of_mem _ hy, hdrops⟩
      · obtain ⟨y, hy, hfails⟩ := failing he
        exact ⟨y, List.mem_cons_of_mem _ hy, by simp [hfails]⟩
    · rcases run_fallible_bind.mp hsend with ⟨e, hv, hr⟩ | ⟨v, stopped, w, rfl, hv, hw⟩
      · left
        rcases x with c' | (e' | r) <;> cases hr
        cases sending_of_run hv with
        | failed ops dropped refused =>
          refine .failed (fun y hy => ?_) (fun he => ?_) fun he => ?_
          · rcases List.mem_append.mp (show y ∈ p.fetch c output ++ u from hy) with hy | hy
            · exact fetch_alone output y hy
            · exact alone_of_sending ops y hy
          · obtain ⟨y, hy, hdrops⟩ := dropped he
            exact ⟨y, by simp [hy], hdrops⟩
          · obtain ⟨y, hy, hstops⟩ := refused he
            exact ⟨y, by simp [hy], by simp [hstops]⟩
      · cases sending_of_run hv with
        | stopped stop =>
          left
          obtain ⟨rfl, hr⟩ := hw
          rcases x with c' | (e' | r) <;> cases hr
          rw [List.append_nil]
          exact .interrupted stop
        | all => exact .inr ⟨output, w, rfl, hw⟩
  · left
    obtain ⟨rfl, hr⟩ := hfetch
    rcases x with c' | (e' | r) <;> cases hr
    exact .cancelled

/-- What a turn does after the sub-prefixes. -/
theorem pageTurn_next {σ τ : Type} (cursor : σ → Cursor) (go : Cursor → σ) {p : PageSource}
    {c : Cursor} {output : p.mode.Output} {a : τ} {x : σ ⊕ Except Exit τ} {u v : ListTrace}
    (hgo : ∀ c, cursor (go c) = c)
    (subs : p.Subs (p.mode.toPage output).subPrefixes u (.ok ()))
    (h : Run (do
      if (p.mode.toPage output).isTruncated then
        match p.storage.nextCursor p.mode p.pathPrefix c (p.mode.toPage output) with
        | .ok next => return .inl (go next)
        | .error e => bail e
      else return .inr a : ListTask (σ ⊕ τ)) v (turnResult x)) :
    v = [] ∧ p.PageTurn c (p.fetch c output ++ (sends (p.mode.toPage output).objects ++ u))
      (turnEnd cursor x) := by
  split at h
  · rename_i truncated
    rcases hnext : p.storage.nextCursor p.mode p.pathPrefix c (p.mode.toPage output) with e | c' <;>
      rw [hnext] at h
    · obtain ⟨rfl, hr⟩ := h
      rcases x with s | (e' | r) <;> cases hr
      exact ⟨rfl, .stuck subs truncated hnext⟩
    · obtain ⟨rfl, hr⟩ := h
      rcases x with s | (e' | r) <;> cases hr
      refine ⟨rfl, .next subs truncated ?_⟩
      rw [hgo, hnext]
  · rename_i whole
    obtain ⟨rfl, hr⟩ := h
    rcases x with s | (e' | r) <;> cases hr
    exact ⟨rfl, .last subs (by simpa using whole)⟩

theorem pageTurn_sequential {c : Cursor} {x : Cursor ⊕ Except Exit Unit}
    (h : Turn (storage.sequentialTurn mode maxKeys) c t x) :
    (storage.sequentialSource mode maxKeys).PageTurn c t (turnEnd id x) := by
  rcases pageTurn_or (p := storage.sequentialSource mode maxKeys) h with
    h | ⟨output, u, rfl, hu⟩
  · exact h
  · obtain ⟨rfl, hturn⟩ := pageTurn_next id id (fun _ => rfl) (.none (.inl rfl)) hu
    exact hturn

theorem pageTurn_parallel {pathPrefix : String} {depth : Nat} {s : S3Storage.PageLoop}
    {x : S3Storage.PageLoop ⊕ Except Exit (Option Bool)}
    (h : Turn (storage.parallelTurn mode (storage.parallelSource mode pathPrefix maxKeys depth).pathPrefix
      (storage.parallelSource mode pathPrefix maxKeys depth).delimiter maxKeys depth) s t x) :
    (storage.parallelSource mode pathPrefix maxKeys depth).PageTurn s.cursor t
      (turnEnd S3Storage.PageLoop.cursor x) := by
  rcases pageTurn_or (p := storage.parallelSource mode pathPrefix maxKeys depth) h with
    h | ⟨output, u, rfl, hu⟩
  · exact h
  · replace hu : Run (ite ((mode.toPage output).subPrefixes = []) _ _) u _ := hu
    split at hu
    · rename_i hnil
      obtain ⟨rfl, hturn⟩ := pageTurn_next S3Storage.PageLoop.cursor
        (fun next => ⟨next, s.permit⟩) (fun _ => rfl) (.none (.inr hnil)) hu
      exact hturn
    · rcases run_fallible_bind.mp hu with ⟨e, hspawn, hr⟩ | ⟨v, permit, w, rfl, hspawn, hw⟩
      · rcases x with c' | (e' | r) <;> cases hr
        exact .unlisted (.dropped rfl hspawn)
      · rcases run_fallible_bind.mp hw with ⟨e, hjoin, hr⟩ | ⟨w, ⟨⟩, z, rfl, hjoin, hz⟩
        · rcases x with c' | (e' | r) <;> cases hr
          exact .unlisted (.joined rfl hspawn hjoin)
        · obtain ⟨rfl, hturn⟩ := pageTurn_next S3Storage.PageLoop.cursor
            (fun next => ⟨next, permit⟩) (fun _ => rfl) (.joined rfl hspawn hjoin) hz
          rw [List.append_nil]
          exact hturn

theorem rounds_turnEnd {σ τ : Type} (cursor : σ → Cursor) {p : PageSource}
    {body : σ → ListTask (σ ⊕ τ)}
    (hbody : ∀ s t x, Turn body s t x → p.PageTurn (cursor s) t (turnEnd cursor x)) {s s' : σ}
    (h : Rounds (Turn body) s t s') : Rounds p.PageTurn (cursor s) t (cursor s') := by
  induction h with
  | nil s => exact .nil _
  | cons hb _ ih => exact .cons (hbody _ _ _ hb) ih

/-- **`list_sequential`** is a page loop. -/
theorem loopRun_sequential {r : Except Exit Unit} (h : Run (storage.listSequential mode maxKeys) t r) :
    (storage.sequentialSource mode maxKeys).LoopRun t r := by
  obtain ⟨c, u, v, rfl, hr, hv⟩ := run_loop.mp h
  have hrounds := rounds_turnEnd id (fun _ _ _ h => pageTurn_sequential h) hr
  have hlast := pageTurn_sequential hv
  rcases r with e | ⟨⟨⟩⟩
  · exact .mk hrounds hlast
  · exact .mk hrounds hlast

/-- **`list_with_parallel`** is a page loop, and a permit to give back. -/
theorem loopRun_parallel {pathPrefix : String} {depth : Nat} {r : Except Exit Unit}
    (h : Run (storage.listWithParallel mode pathPrefix maxKeys depth) t r) :
    ∃ u post, t = u ++ post ∧ (post = [] ∨ post = [⟨.release, ()⟩]) ∧
      (storage.parallelSource mode pathPrefix maxKeys depth).LoopRun u r := by
  have hloop : ∀ {t : ListTrace} {r : Except Exit (Option Bool)},
      Run (loop (storage.parallelTurn mode
        (storage.parallelSource mode pathPrefix maxKeys depth).pathPrefix
        (storage.parallelSource mode pathPrefix maxKeys depth).delimiter maxKeys depth) {}) t r →
      (storage.parallelSource mode pathPrefix maxKeys depth).LoopRun t (r.map fun _ => ()) := by
    intro t r h
    obtain ⟨s, u, v, rfl, hr, hv⟩ := run_loop.mp h
    exact .mk (rounds_turnEnd S3Storage.PageLoop.cursor
      (fun _ _ _ h => pageTurn_parallel h) hr) (pageTurn_parallel hv)
  rcases run_fallible_bind.mp h with ⟨e, hl, rfl⟩ | ⟨u, left, v, rfl, hl, hv⟩
  · exact ⟨t, [], (List.append_nil t).symm, .inl rfl, hloop hl⟩
  · refine ⟨u, v, rfl, ?_⟩
    split at hv
    · obtain ⟨⟨⟩, w, rfl, rfl, rfl⟩ := hv
      exact ⟨.inr rfl, hloop hl⟩
    · obtain ⟨rfl, rfl⟩ := hv
      exact ⟨.inl rfl, hloop hl⟩

theorem run_context {α : Type} {message : String} {x : ListTask α} {r : Except Exit α}
    (h : Run (context message x) t r) :
    ∃ r', Run x t r' ∧ ((∀ e, r ≠ .error (.error e)) → r' = r) ∧
      ∀ e, r = .error (.error e) → ∃ e', r' = .error (.error e') := by
  obtain ⟨r', hx, rfl⟩ := run_map.mp h
  refine ⟨r', hx, fun hr => ?_, fun e he => ?_⟩
  · rcases r' with (e | -) | a
    · exact absurd rfl (hr _)
    · rfl
    · rfl
  · rcases r' with (e' | -) | a
    · exact ⟨e', rfl⟩
    · cases he
    · cases he

/-- A page loop in its task. -/
theorem taskRun_of_parallel {message : String} {pathPrefix : String} {depth : Nat} {o : ListOp}
    {a : ListResp o} (ho : o.isMinor) {r : Except Exit Unit}
    (h : Run (context message (storage.listWithParallel mode pathPrefix maxKeys depth)) t r) :
    (storage.parallelSource mode pathPrefix maxKeys depth).TaskRun (⟨o, a⟩ :: t) r := by
  obtain ⟨r', hr', hok, hfailed⟩ := run_context h
  obtain ⟨u, post, rfl, hpost, hloop⟩ := loopRun_parallel hr'
  show TaskRun _ ([⟨o, a⟩] ++ (u ++ post)) r
  refine .loop ?_ hloop hok hfailed
  have hminor : ∀ x ∈ post, x.1.isMinor := by
    rcases hpost with rfl | rfl <;> simp [ListOp.isMinor]
  simpa [ho] using hminor

theorem taskRun_subListing {pathPrefix : String} {depth : Nat} {r : Except Exit Unit}
    (h : Run (storage.subListing mode pathPrefix maxKeys depth) t r) :
    (storage.parallelSource mode pathPrefix maxKeys depth).TaskRun t r := by
  obtain ⟨answer, u, rfl, h⟩ := h
  rcases answer with - | ⟨⟨⟩⟩
  · obtain ⟨rfl, rfl⟩ := h
    exact .dropped (by simp [ListOp.isMinor]) ⟨⟨.start, none⟩, by simp, rfl⟩
  · exact taskRun_of_parallel rfl h

/-- Where the call itself reads. -/
def S3Storage.rootSource (storage : S3Storage) (mode : ListingMode) (maxKeys : Int) : PageSource :=
  if storage.usesParallel then storage.parallelSource mode "" maxKeys 1
  else storage.sequentialSource mode maxKeys

theorem taskRun_listDispatch {r : Except Exit Unit} (h : Run (storage.listDispatch mode maxKeys) t r) :
    (storage.rootSource mode maxKeys).TaskRun t r := by
  replace h : Run (ite (storage.usesParallel = true) _ _) t r := h
  unfold S3Storage.rootSource
  split at h
  · rename_i hparallel
    rw [if_pos hparallel]
    obtain ⟨answer, u, rfl, h⟩ := h
    rcases answer with - | ⟨⟨⟩⟩
    · obtain ⟨rfl, rfl⟩ := h
      exact .dropped (by simp [ListOp.isMinor]) ⟨⟨.acquire, none⟩, by simp, rfl⟩
    · exact taskRun_of_parallel rfl h
  · rename_i hparallel
    rw [if_neg hparallel]
    have hrun : (storage.sequentialSource mode maxKeys).TaskRun ([] ++ (t ++ [])) r :=
      .loop (by simp) (loopRun_sequential h) (fun _ => rfl) fun e he => ⟨e, he⟩
    rwa [List.append_nil] at hrun

end turns

/-! ### The pages of a loop -/

namespace PageSource

variable (p : PageSource)

/-- Pages that a loop may go through from a cursor: each truncated page says where the
next request goes on, and that is another request; the last page is not truncated. -/
inductive Paged : Cursor → List (Cursor × p.mode.Output) → Prop
  | last {c : Cursor} {output : p.mode.Output}
      (whole : (p.mode.toPage output).isTruncated = false) : Paged c [(c, output)]
  | next {c : Cursor} {output : p.mode.Output} {pages : List (Cursor × p.mode.Output)}
      (truncated : (p.mode.toPage output).isTruncated = true)
      (given : (p.mode.toPage output).next.Given p.mode)
      (other : p.request (p.mode.toPage output).next ≠ p.request c)
      (rest : Paged (p.mode.toPage output).next pages) : Paged c ((c, output) :: pages)

/-- What a loop that goes through these pages hands on. -/
def handedOn (pages : List (Cursor × p.mode.Output)) : Handed where
  fetched := pages.map fun q => p.fetched q.1 q.2
  delivered := pages.flatMap fun q => (p.mode.toPage q.2).objects
  started := pages.flatMap fun q => p.tasks (p.mode.toPage q.2).subPrefixes

variable {p} {c : Cursor} {t u : ListTrace} {r : Except Exit Unit}

/-- What a turn with one page hands on. -/
theorem handed_turn {output : p.mode.Output}
    (h : handed u = { started := p.tasks (p.mode.toPage output).subPrefixes }) :
    handed (p.fetch c output ++ (sends (p.mode.toPage output).objects ++ u)) =
      p.handedOn [(c, output)] := by
  have hfetch : handed (p.fetch c output) = { fetched := [p.fetched c output] } := rfl
  rw [handed_append, handed_append, hfetch, handed_sends, h]
  simp [Handed.append_eq, handedOn]

theorem handedOn_cons (q : Cursor × p.mode.Output) (pages : List (Cursor × p.mode.Output)) :
    p.handedOn (q :: pages) = p.handedOn [q] ++ p.handedOn pages := by
  simp [Handed.append_eq, handedOn]

/-- Cursors of the mode. -/
theorem sent_next (output : p.mode.Output) :
    p.mode.sent (p.mode.toPage output).next = (p.mode.toPage output).next := by
  obtain ⟨storage, mode, pathPrefix, delimiter, maxKeys, depth⟩ := p
  cases mode <;> rfl

/-- A turn that goes on hands on one page, and goes on where the page says. -/
theorem PageTurn.next_page {c' : Cursor} (h : p.PageTurn c t (.inl c')) (hc : p.mode.sent c = c) :
    ∃ output, (p.mode.toPage output).isTruncated = true ∧ (p.mode.toPage output).next = c' ∧
      c'.Given p.mode ∧ c' ≠ c ∧
      (handed t = p.handedOn [(c, output)] ∨ ∃ x ∈ t, ListEvent.stops x) := by
  generalize hx : (.inl c' : Cursor ⊕ Except Exit Unit) = x at h
  cases h with
  | cancelled | failed | interrupted | unlisted | last | stuck => cases hx
  | @next output u c' subs truncated next =>
    cases hx
    obtain ⟨hnext, hgiven, hne⟩ := (nextCursor_eq hc).mp next
    refine ⟨output, truncated, hnext, hgiven, hne, ?_⟩
    rcases subs.handed with h | ⟨x, hx, hstops⟩
    · exact .inl (handed_turn h)
    · exact .inr ⟨x, by simp [hx], hstops⟩

theorem PageTurn.last_page (h : p.PageTurn c t (.inr (.ok ()))) :
    (∃ output, (p.mode.toPage output).isTruncated = false ∧ handed t = p.handedOn [(c, output)]) ∨
      ∃ x ∈ t, ListEvent.stops x := by
  generalize hx : (.inr (.ok ()) : Cursor ⊕ Except Exit Unit) = x at h
  cases h with
  | failed | unlisted | stuck | next => cases hx
  | cancelled => exact .inr ⟨⟨.isCancelled, true⟩, by simp, rfl⟩
  | interrupted stop =>
    obtain ⟨x, hx, hstops⟩ := stop.stops
    exact .inr ⟨x, by simp [hx], hstops⟩
  | last subs whole =>
    rcases subs.handed with h | ⟨x, hx, hstops⟩
    · exact .inl ⟨_, whole, handed_turn h⟩
    · exact .inr ⟨x, by simp [hx], hstops⟩

/-- **A page loop that ends well has been through all pages**, and has handed on all
that was on them, unless it noticed that it is to stop. -/
theorem LoopRun.paged (h : p.LoopRun t (.ok ())) :
    (∃ pages, p.Paged {} pages ∧ handed t = p.handedOn pages) ∨ ∃ x ∈ t, ListEvent.stops x := by
  obtain @⟨t, u, c, r, rounds, last⟩ := h
  suffices hgo : ∀ c₀, p.mode.sent c₀ = c₀ → Rounds p.PageTurn c₀ t c →
      (∃ pages, p.Paged c₀ pages ∧ handed (t ++ u) = p.handedOn pages) ∨
        ∃ x ∈ t ++ u, ListEvent.stops x by
    refine hgo {} ?_ rounds
    cases p.mode <;> rfl
  clear rounds
  intro c₀ hc₀ rounds
  induction rounds with
  | nil c =>
    rcases last.last_page with ⟨output, whole, hhanded⟩ | ⟨x, hx, hstops⟩
    · exact .inl ⟨_, .last whole, hhanded⟩
    · exact .inr ⟨x, hx, hstops⟩
  | @cons c v c' w c'' turn _ ih =>
    obtain ⟨output, truncated, rfl, hgiven, hne, hhanded⟩ := turn.next_page hc₀
    rw [List.append_assoc]
    rcases hhanded with hhanded | ⟨x, hx, hstops⟩
    · rcases ih last (sent_next output) with ⟨pages, hpaged, hrest⟩ | ⟨x, hx, hstops⟩
      · left
        refine ⟨(c, output) :: pages, .next truncated hgiven (fun hreq => hne ?_) hpaged, ?_⟩
        · have hsent := congrArg ListRequest.cursor hreq
          rwa [request, request, sent_next, hc₀] at hsent
        · rw [handed_append, hhanded, hrest, ← handedOn_cons]
      · exact .inr ⟨x, List.mem_append_right _ hx, hstops⟩
    · exact .inr ⟨x, List.mem_append_left _ hx, hstops⟩

/-! ### Every page of a loop that ends well -/

/-- The one page request of a turn. -/
theorem fetch_split {output : p.mode.Output} {v t₁ t₂ : ListTrace} {e : ListEvent}
    (hv : ∀ x ∈ v, ListEvent.fetches x = false) (he : e.fetches = true)
    (h : p.fetch c output ++ v = t₁ ++ e :: t₂) : e = p.fetched c output ∧ t₂ = v := by
  have hlast : e ∉ v := fun hmem => by
    rw [hv e hmem] at he
    cases he
  rcases t₁ with - | ⟨x, - | ⟨y, - | ⟨z, t₁⟩⟩⟩
  · cases h
    cases he
  · cases h
    cases he
  · cases h
    exact ⟨rfl, rfl⟩
  · refine absurd ?_ hlast
    have hall : [⟨.isCancelled, false⟩, ⟨.rateLimit, some ()⟩, p.fetched c output] ++ v =
      [x, y, z] ++ (t₁ ++ e :: t₂) := h
    rw [List.append_inj_right hall rfl]
    simp

theorem Subs.no_fetch {subPrefixes : List String} (h : p.Subs subPrefixes t (.ok ())) :
    ∀ x ∈ t, ListEvent.fetches x = false := by
  generalize hr : (.ok () : Except Exit Unit) = r at h
  cases h with
  | none => simp
  | dropped => cases hr
  | joined at_ spawn join =>
    subst hr
    intro x hx
    rcases List.mem_append.mp hx with hx | hx
    · have hop : x.1.isSpawning := by
        cases spawning_of_run spawn with
        | all ops _ => exact ops x hx
        | stopped ops _ => exact ops x hx
      obtain ⟨o, r⟩ := x
      cases o <;> first | rfl | cases hop
    · have hop : x.1.isJoining := by
        cases joining_of_run join with
        | all ops _ => exact ops x hx
      obtain ⟨o, r⟩ := x
      cases o <;> first | rfl | cases hop

/-- What a page request comes to in a turn that does not fail. -/
theorem PageTurn.at_fetch {x : Cursor ⊕ Unit} (h : p.PageTurn c t (x.map id Except.ok))
    (hc : p.mode.sent c = c) {t₁ t₂ : ListTrace} {e : ListEvent} (ht : t = t₁ ++ e :: t₂)
    (he : e.fetches = true) : ∃ output, e = p.fetched c output ∧
      ((p.mode.toPage output).isTruncated = true →
        (p.mode.toPage output).next.Given p.mode ∧ (p.mode.toPage output).next ≠ c ∨
        Interrupted (p.mode.toPage output).objects t₂) := by
  have hrest : ∀ {output : p.mode.Output} {u : ListTrace},
      p.Subs (p.mode.toPage output).subPrefixes u (.ok ()) →
      ∀ x ∈ sends (p.mode.toPage output).objects ++ u, ListEvent.fetches x = false := by
    intro output u subs y hy
    exact (List.mem_append.mp hy).elim (sends_no_fetch _ y) (subs.no_fetch y)
  generalize hx : x.map id Except.ok = y at h
  cases h with
  | cancelled =>
    rcases t₁ with - | ⟨x, t₁⟩
    · cases ht
      cases he
    · cases t₁ <;> cases ht
  | failed | unlisted | stuck => rcases x with c' | ⟨⟨⟩⟩ <;> cases hx
  | interrupted stop =>
    obtain ⟨rfl, rfl⟩ := fetch_split stop.no_fetch he ht
    exact ⟨_, rfl, fun _ => .inr stop⟩
  | last subs whole =>
    obtain ⟨rfl, rfl⟩ := fetch_split (hrest subs) he ht
    refine ⟨_, rfl, fun htrunc => ?_⟩
    rw [whole] at htrunc
    cases htrunc
  | next subs truncated next =>
    obtain ⟨rfl, rfl⟩ := fetch_split (hrest subs) he ht
    obtain ⟨rfl, hgiven, hne⟩ := (nextCursor_eq hc).mp next
    exact ⟨_, rfl, fun _ => .inl ⟨hgiven, hne⟩⟩

/-- **No page of a loop that ends well was an error**, and each truncated page said
where to go on, unless its sending was interrupted. -/
theorem LoopRun.at_fetch (h : p.LoopRun t (.ok ())) {t₁ t₂ : ListTrace} {e : ListEvent}
    (ht : t = t₁ ++ e :: t₂) (he : e.fetches = true) :
    ∃ c output, p.mode.sent c = c ∧ e = p.fetched c output ∧
      ((p.mode.toPage output).isTruncated = true →
        (p.mode.toPage output).next.Given p.mode ∧ (p.mode.toPage output).next ≠ c ∨
        ∃ v, v <+: t₂ ∧ Interrupted (p.mode.toPage output).objects v) := by
  obtain @⟨t, u, c, r, rounds, last⟩ := h
  suffices hgo : ∀ c₀, p.mode.sent c₀ = c₀ → Rounds p.PageTurn c₀ t c → ∀ t₁, t ++ u = t₁ ++ e :: t₂ →
      ∃ c output, p.mode.sent c = c ∧ e = p.fetched c output ∧
      ((p.mode.toPage output).isTruncated = true →
        (p.mode.toPage output).next.Given p.mode ∧ (p.mode.toPage output).next ≠ c ∨
        ∃ v, v <+: t₂ ∧ Interrupted (p.mode.toPage output).objects v) by
    refine hgo {} ?_ rounds t₁ ht
    cases p.mode <;> rfl
  clear rounds ht
  intro c₀ hc₀ rounds
  induction rounds with
  | nil c =>
    intro t₁ ht
    obtain ⟨output, rfl, htrunc⟩ := PageTurn.at_fetch (x := .inr ()) last hc₀ ht he
    exact ⟨c, output, hc₀, rfl, fun h => (htrunc h).imp id fun hv => ⟨_, List.prefix_refl _, hv⟩⟩
  | @cons c v c' w c'' turn _ ih =>
    intro t₁ ht
    rw [List.append_assoc] at ht
    rcases List.append_eq_append_iff.mp ht with ⟨z, rfl, hz⟩ | ⟨z, rfl, hz⟩
    · obtain ⟨output, -, rfl, -⟩ := turn.next_page hc₀
      exact ih last (sent_next output) z hz
    · rcases z with - | ⟨e', z⟩
      · obtain ⟨output, -, rfl, -⟩ := turn.next_page hc₀
        exact ih last (sent_next output) [] hz.symm
      · obtain ⟨rfl, rfl⟩ := List.cons.inj hz
        obtain ⟨output, rfl, htrunc⟩ := PageTurn.at_fetch (x := .inl c') turn hc₀ rfl he
        exact ⟨c, output, hc₀, rfl,
          fun h => (htrunc h).imp id fun hv => ⟨z, List.prefix_append _ _, hv⟩⟩

/-! ### How a loop ends otherwise -/

theorem joinsAll_turn {output : p.mode.Output} (h : JoinsAll u) :
    JoinsAll (p.fetch c output ++ (sends (p.mode.toPage output).objects ++ u)) :=
  (joinsAll_of_alone (fetch_alone output)).append ((joinsAll_of_alone (sends_alone _)).append h)

/-- **A turn that fails** has settled its sub-listings, or cancels the run, unless
it was dropped. -/
theorem PageTurn.joinsAll {x : Cursor ⊕ Except Exit Unit} (h : p.PageTurn c t x) :
    JoinsAll t ∨ (⟨.cancel, ()⟩ : ListEvent) ∈ t ∨
      x = .inr (.error .aborted) ∧ ∃ y ∈ t, ListEvent.drops y := by
  cases h with
  | cancelled => exact .inl (joinsAll_of_alone (by simp [ListOp.isAlone]))
  | failed alone _ => exact .inl (joinsAll_of_alone alone)
  | interrupted stop =>
    exact .inl ((joinsAll_of_alone (fetch_alone _)).append (joinsAll_of_alone stop.alone))
  | @unlisted output t e subs =>
    rcases e with e | -
    · exact .inr (.inl (by simp [subs.cancels]))
    · obtain ⟨y, hy, hdrops⟩ := subs.drops
      exact .inr (.inr ⟨rfl, y, by simp [hy], hdrops⟩)
  | last subs | stuck subs | next subs => exact .inl (joinsAll_turn subs.joinsAll)

/-- What is dropped was dropped at an `await`. -/
theorem PageTurn.drops (h : p.PageTurn c t (.inr (.error .aborted))) :
    ∃ y ∈ t, ListEvent.drops y := by
  generalize hx : (.inr (.error .aborted) : Cursor ⊕ Except Exit Unit) = x at h
  cases h with
  | cancelled | interrupted | last | stuck | next => cases hx
  | failed _ dropped =>
    cases hx
    exact dropped rfl
  | unlisted subs =>
    cases hx
    obtain ⟨y, hy, hdrops⟩ := subs.drops
    exact ⟨y, by simp [hy], hdrops⟩

theorem LoopRun.joinsAll (h : p.LoopRun t r) :
    JoinsAll t ∨ (⟨.cancel, ()⟩ : ListEvent) ∈ t ∨
      r = .error .aborted ∧ ∃ y ∈ t, ListEvent.drops y := by
  obtain @⟨t, u, c, r, rounds, last⟩ := h
  have hrounds : JoinsAll t ∨ (⟨.cancel, ()⟩ : ListEvent) ∈ t := by
    refine rounds.invariant (I := fun _ t => JoinsAll t ∨ (⟨.cancel, ()⟩ : ListEvent) ∈ t) (t := [])
      ?_ (.inl joinsAll_nil)
    rintro c t u c' ht hu
    rcases ht with ht | ht
    · rcases hu.joinsAll with hu | hu | ⟨hu, -⟩
      · exact .inl (ht.append hu)
      · exact .inr (List.mem_append_right _ hu)
      · cases hu
    · exact .inr (List.mem_append_left _ ht)
  rcases hrounds with ht | ht
  · rcases last.joinsAll with hu | hu | ⟨hr, y, hy, hdrops⟩
    · exact .inl (ht.append hu)
    · exact .inr (.inl (List.mem_append_right _ hu))
    · exact .inr (.inr ⟨Sum.inr.inj hr, y, List.mem_append_right _ hy, hdrops⟩)
  · exact .inr (.inl (List.mem_append_left _ ht))

/-- The cursors of a loop are of its mode. -/
theorem rounds_sent {c : Cursor} (h : Rounds p.PageTurn {} t c) : p.mode.sent c = c := by
  refine h.invariant (I := fun c _ => p.mode.sent c = c) (t := []) ?_ ?_
  · intro c t u c' hc turn
    obtain ⟨output, -, rfl, -⟩ := turn.next_page hc
    exact sent_next output
  · cases p.mode <;> rfl

/-- **An error of a loop** has its cause in the trace: a request that failed, the end of
the run, a sub-listing that failed, or a truncated page without a way to go on. -/
theorem LoopRun.cause {e : Error} (h : p.LoopRun t (.error (.error e))) :
    (∃ x ∈ t, ListEvent.fails x || ListEvent.stops x) ∨ (⟨.cancel, ()⟩ : ListEvent) ∈ t ∨
      ∃ c output e', p.mode.sent c = c ∧ p.fetched c output ∈ t ∧
        (p.mode.toPage output).isTruncated = true ∧
        p.storage.nextCursor p.mode p.pathPrefix c (p.mode.toPage output) = .error e' := by
  generalize hr : (.error (.error e) : Except Exit Unit) = r at h
  obtain @⟨t, u, c, r, rounds, last⟩ := h
  subst hr
  generalize hx : (.inr (.error (.error e)) : Cursor ⊕ Except Exit Unit) = x at last
  cases last with
  | cancelled | interrupted | last | next => cases hx
  | failed _ _ refused =>
    cases hx
    obtain ⟨x, hx, hfails⟩ := refused nofun
    exact .inl ⟨x, List.mem_append_right _ hx, hfails⟩
  | unlisted subs =>
    cases hx
    exact .inr (.inl (by simp [subs.cancels]))
  | @stuck output u e' subs truncated next =>
    refine .inr (.inr ⟨c, output, e', rounds_sent rounds, ?_, truncated, next⟩)
    simp [fetch]

/-! ### The pages of a task -/

theorem handed_minor (h : ∀ x ∈ t, x.1.isMinor) : handed t = {} := by
  apply handed_quiet
  intro x hx
  have hop := h x hx
  obtain ⟨o, r⟩ := x
  cases o <;> first | rfl | cases hop

theorem alone_of_minor (h : ∀ x ∈ t, x.1.isMinor) : ∀ x ∈ t, x.1.isAlone := by
  intro x hx
  have hop := h x hx
  obtain ⟨o, r⟩ := x
  cases o <;> first | rfl | cases hop

/-- `LoopRun.paged` for the whole task. -/
theorem TaskRun.paged (h : p.TaskRun t (.ok ())) :
    (∃ pages, p.Paged {} pages ∧ handed t = p.handedOn pages) ∨ ∃ x ∈ t, ListEvent.stops x := by
  generalize hr : (.ok () : Except Exit Unit) = r at h
  cases h with
  | dropped => cases hr
  | @loop pre t post r r' minor run result =>
    subst hr
    obtain rfl := result nofun
    simp only [List.mem_append] at minor
    rcases run.paged with ⟨pages, hpaged, hhanded⟩ | ⟨x, hx, hstops⟩
    · refine .inl ⟨pages, hpaged, ?_⟩
      rw [handed_append, handed_append, handed_minor fun x hx => minor x (.inl hx),
        handed_minor fun x hx => minor x (.inr hx), Handed.append_empty, Handed.empty_append, hhanded]
    · exact .inr ⟨x, by simp [hx], hstops⟩

/-- An element of neither end is in the middle. -/
theorem split_middle {α : Type} {pre t post t₁ t₂ : List α} {e : α} (hpre : e ∉ pre) (hpost : e ∉ post)
    (h : pre ++ (t ++ post) = t₁ ++ e :: t₂) : ∃ a b, t = a ++ e :: b ∧ t₂ = b ++ post := by
  rcases List.append_eq_append_iff.mp h with ⟨a, rfl, ha⟩ | ⟨a, rfl, ha⟩
  · rcases List.append_eq_append_iff.mp ha with ⟨b, rfl, hb⟩ | ⟨b, rfl, hb⟩
    · exact absurd (by simp [hb]) hpost
    · rcases b with - | ⟨e', b⟩
      · rw [List.nil_append] at hb
        exact absurd (by rw [← hb]; exact List.mem_cons_self) hpost
      · obtain ⟨rfl, rfl⟩ := List.cons.inj hb
        exact ⟨a, b, rfl, rfl⟩
  · rcases a with - | ⟨e', a⟩
    · rcases t with - | ⟨e', t⟩
      · rw [List.nil_append, List.nil_append] at ha
        exact absurd (by rw [← ha]; exact List.mem_cons_self) hpost
      · obtain ⟨rfl, rfl⟩ := List.cons.inj ha
        exact ⟨[], t, rfl, rfl⟩
    · obtain ⟨rfl, -⟩ := List.cons.inj ha
      exact absurd (by simp) hpre

/-- `LoopRun.at_fetch` for the whole task. -/
theorem TaskRun.at_fetch (h : p.TaskRun t (.ok ())) {t₁ t₂ : ListTrace} {e : ListEvent}
    (ht : t = t₁ ++ e :: t₂) (he : e.fetches = true) :
    ∃ c output, p.mode.sent c = c ∧ e = p.fetched c output ∧
      ((p.mode.toPage output).isTruncated = true →
        (p.mode.toPage output).next.Given p.mode ∧ (p.mode.toPage output).next ≠ c ∨
        ∃ v, v <+: t₂ ∧ Interrupted (p.mode.toPage output).objects v) := by
  generalize hr : (.ok () : Except Exit Unit) = r at h
  cases h with
  | dropped => cases hr
  | @loop pre t post r r' minor run result =>
    subst hr
    obtain rfl := result nofun
    have hminor : ∀ x ∈ pre ++ post, ListEvent.fetches x = false := by
      intro x hx
      have hop := minor x hx
      obtain ⟨o, r⟩ := x
      cases o <;> first | rfl | cases hop
    simp only [List.mem_append] at hminor
    have hnot : e ∉ pre ∧ e ∉ post := by
      refine ⟨fun hmem => ?_, fun hmem => ?_⟩
      · rw [hminor e (.inl hmem)] at he
        cases he
      · rw [hminor e (.inr hmem)] at he
        cases he
    obtain ⟨a, b, rfl, rfl⟩ := split_middle hnot.1 hnot.2 ht
    obtain ⟨c, output, hc, hfetched, htrunc⟩ := run.at_fetch rfl he
    refine ⟨c, output, hc, hfetched, fun h => (htrunc h).imp id ?_⟩
    rintro ⟨v, hv, hstop⟩
    exact ⟨v, hv.trans (List.prefix_append b post), hstop⟩

/-- `LoopRun.joinsAll` for the whole task. -/
theorem TaskRun.joinsAll (h : p.TaskRun t r) :
    JoinsAll t ∨ (⟨.cancel, ()⟩ : ListEvent) ∈ t ∨ ∃ y ∈ t, ListEvent.drops y := by
  cases h with
  | dropped minor _ => exact .inl (joinsAll_of_alone (alone_of_minor minor))
  | @loop pre t post r r' minor run result =>
    simp only [List.mem_append] at minor
    rcases run.joinsAll with hjoins | hcancel | ⟨-, y, hy, hdrops⟩
    · have hpre := joinsAll_of_alone (alone_of_minor fun x hx => minor x (.inl hx))
      have hpost := joinsAll_of_alone (alone_of_minor fun x hx => minor x (.inr hx))
      exact .inl (hpre.append (hjoins.append hpost))
    · exact .inr (.inl (by simp [hcancel]))
    · exact .inr (.inr ⟨y, by simp [hy], hdrops⟩)

/-- `LoopRun.cause` for the whole task. -/
theorem TaskRun.cause {e : Error} (h : p.TaskRun t (.error (.error e))) :
    (∃ x ∈ t, ListEvent.fails x || ListEvent.stops x) ∨ (⟨.cancel, ()⟩ : ListEvent) ∈ t ∨
      ∃ c output e', p.mode.sent c = c ∧ p.fetched c output ∈ t ∧
        (p.mode.toPage output).isTruncated = true ∧
        p.storage.nextCursor p.mode p.pathPrefix c (p.mode.toPage output) = .error e' := by
  generalize hr : (.error (.error e) : Except Exit Unit) = r at h
  cases h with
  | dropped => cases hr
  | @loop pre t post r r' minor run result failed =>
    obtain ⟨e', rfl⟩ := failed e hr.symm
    rcases run.cause with ⟨x, hx, hfails⟩ | hcancel | ⟨c, output, e', hc, hfetched, htruncated, hnext⟩
    · exact .inl ⟨x, by simp [hx], hfails⟩
    · exact .inr (.inl (by simp [hcancel]))
    · exact .inr (.inr ⟨c, output, e', hc, by simp [hfetched], htruncated, hnext⟩)

theorem TaskRun.drops (h : p.TaskRun t (.error .aborted)) : ∃ y ∈ t, ListEvent.drops y := by
  generalize hr : (.error .aborted : Except Exit Unit) = r at h
  cases h with
  | dropped _ dropped => exact dropped
  | @loop pre t post r r' minor run result =>
    subst hr
    obtain rfl := result nofun
    generalize hr : (.error .aborted : Except Exit Unit) = r at run
    obtain ⟨rounds, last⟩ := run
    subst hr
    obtain ⟨y, hy, hdrops⟩ := last.drops
    exact ⟨y, by simp [hy], hdrops⟩

end PageSource

end S3rm
