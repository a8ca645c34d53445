/-
S3rm/Traces.lean

What is read off a trace.  Each of these picks out of one event the values it
contributes; over a trace or a log they are taken with `flatMap`:

    got c      objects received on channel `c`
    sentTo c   objects sent on channel `c`
    listed     objects the listing handed over
    tickets    values of the delete counter that were taken
    begun      objects passed to `Deleter::delete`
    noted      statistics sent
    fired      events triggered
    delivered  events the callback got
    counted    increments of the report
    cancels    cancellations of the token
    asked      delete requests sent to S3

Operations are sorted into classes, so that one lemma per function says which
of these it leaves alone.
-/
import S3rm.Effects

namespace S3rm

open Conc Conc.Prog

/-! ### Projections -/

/-- A delete request to S3 for one object: its id and its condition. -/
structure Request where
  id : ObjectId
  ifMatch : Option String
  deriving DecidableEq, Repr

def ObjectIdentifier.request (i : ObjectIdentifier) : Request := ⟨(i.key, i.versionId), i.eTag⟩

def got (chan : Nat) : Event → List S3Object
  | ⟨.recv c, some o⟩ => if c = chan then [o] else []
  | ⟨.select c, .received (some o)⟩ => if c = chan then [o] else []
  | _ => []

def sentTo (chan : Nat) : Event → List S3Object
  | ⟨.send c o, true⟩ => if c = chan then [o] else []
  | _ => []

def listed : Event → List S3Object
  | ⟨.nextListed, .object o⟩ => [o]
  | _ => []

def tickets : Event → List Nat
  | ⟨.fetchAdd, k⟩ => [k]
  | _ => []

def begun : Event → List S3Object
  | ⟨.beginDelete objects, _⟩ => objects
  | _ => []

def noted : Event → List DeletionStatistics
  | ⟨.sendStats stats, _⟩ => [stats]
  | _ => []

def fired : Event → List EventData
  | ⟨.updatePipelineStats event, _⟩ => [event]
  | _ => []

def delivered : Event → List EventData
  | ⟨.onEvent event, _⟩ => [event]
  | _ => []

/-- A deleted key with its bytes, or a failed key. -/
def counted : Event → List (Option Nat)
  | ⟨.incrementDeleted bytes, _⟩ => [some bytes]
  | ⟨.incrementFailed, _⟩ => [none]
  | _ => []

def cancels : Event → List Unit
  | ⟨.cancel, _⟩ => [()]
  | _ => []

def asked : Event → List Request
  | ⟨.deleteObject key versionId ifMatch, _⟩ => [⟨(key, versionId), ifMatch⟩]
  | ⟨.deleteObjects objects, _⟩ => objects.map ObjectIdentifier.request
  | _ => []

/-- The DeleteObject calls, with their answers. -/
def called : Event → List (Request × Except Error Unit)
  | ⟨.deleteObject key versionId ifMatch, r⟩ => [(⟨(key, versionId), ifMatch⟩, r)]
  | _ => []

/-- No DeleteObjects request is in the trace. -/
def Unbatched (t : Trace) : Prop := ∀ objects r, (⟨.deleteObjects objects, r⟩ : Event) ∉ t

theorem unbatched_nil : Unbatched [] := fun _ _ h => by cases h

theorem Unbatched.cons {e : Event} {t : Trace} (ht : Unbatched t)
    (he : ∀ objects, e.1 ≠ .deleteObjects objects) : Unbatched (e :: t) := by
  intro objects r h
  rcases List.mem_cons.mp h with rfl | h
  · exact he objects rfl
  · exact ht objects r h

theorem Unbatched.append {t u : Trace} (ht : Unbatched t) (hu : Unbatched u) : Unbatched (t ++ u) :=
  fun objects r h => (List.mem_append.mp h).elim (ht objects r) (hu objects r)

/-- Without DeleteObjects requests, what is asked for is what is called. -/
theorem asked_of_unbatched {t : Trace} (h : Unbatched t) :
    t.flatMap asked = (t.flatMap called).map Prod.fst := by
  induction t with
  | nil => rfl
  | cons e t ih =>
    have ih := ih fun objects r hr => h objects r (List.mem_cons_of_mem e hr)
    rw [List.flatMap_cons, List.flatMap_cons, List.map_append, ih]
    congr 1
    rcases e with ⟨o, r⟩
    cases o
    case deleteObjects => exact absurd List.mem_cons_self (h _ _)
    all_goals rfl

/-! ### Classes of operations -/

/-- Triggering events. -/
def Op.isNotice : Op → Bool
  | .updatePipelineStats _ | .pipelineStats | .onEvent _ => true
  | _ => false

/-- Statistics, counters, the warning flag and events. -/
def Op.isReport : Op → Bool
  | .sendStats _ | .incrementDeleted _ | .incrementFailed | .setWarning => true
  | o => o.isNotice

/-- What the deletion backends do. -/
def Op.isBackend : Op → Bool
  | .deleteObject _ _ _ | .deleteObjects _ | .sleep _ | .sendStats _ => true
  | _ => false

/-- What the worker's filters do. -/
def Op.isScreening : Op → Bool
  | .headObject _ _ | .getObjectTagging _ _ | .cancel => true
  | o => o.isReport

/-- What follows a deletion: reports, and forwarding to channel `chan`. -/
def Op.isFinish (chan : Nat) : Op → Bool
  | .cancel => true
  | .send c _ | .isClosed c => c = chan
  | o => o.isReport

/-- What flushing a buffer towards channel `chan` does. -/
def Op.isFlush (chan : Nat) : Op → Bool
  | .isCancelled | .beginDelete _ => true
  | o => o.isFinish chan || o.isBackend

theorem Op.isReport_of_isNotice {o : Op} (h : o.isNotice) : o.isReport := by
  cases o <;> first | exact h | rfl

theorem Op.isScreening_of_isReport {o : Op} (h : o.isReport) : o.isScreening := by
  cases o <;> first | exact h | rfl

theorem Op.isFinish_of_isReport {c : Nat} {o : Op} (h : o.isReport) : o.isFinish c := by
  cases o <;> simp_all [Op.isReport, Op.isNotice, Op.isFinish]

theorem Op.isFlush_of_isFinish {c : Nat} {o : Op} (h : o.isFinish c) : o.isFlush c := by
  cases o <;> simp_all [Op.isReport, Op.isNotice, Op.isFinish, Op.isFlush]

theorem Op.isFlush_of_isBackend {c : Nat} {o : Op} (h : o.isBackend) : o.isFlush c := by
  cases o <;> simp_all [Op.isBackend, Op.isFlush]

/-- The requests that delete. -/
def Op.isDeletion : Op → Bool
  | .deleteObject _ _ _ | .deleteObjects _ => true
  | _ => false

theorem Op.not_isDeletion_of_isNotice {o : Op} (h : o.isNotice) : o.isDeletion = false := by
  cases o <;> first | rfl | simp [Op.isNotice] at h

/-- The operations that begin no deletion. -/
def Op.beginsNone : Op → Bool
  | .beginDelete _ => false
  | _ => true

theorem Op.beginsNone_of_isScreening {o : Op} (h : o.isScreening) : o.beginsNone = true := by
  cases o <;> first | rfl | simp [isScreening, isReport, isNotice] at h

theorem Op.beginsNone_of_isFinish {c : Nat} {o : Op} (h : o.isFinish c) : o.beginsNone = true := by
  cases o <;> first | rfl | simp [isFinish, isReport, isNotice] at h

theorem Op.beginsNone_of_isBackend {o : Op} (h : o.isBackend) : o.beginsNone = true := by
  cases o <;> first | rfl | simp [isBackend] at h

/-- What was cancelled shows in the trace. -/
theorem cancels_eq_nil {t : Trace} : t.flatMap cancels = [] ↔ (⟨.cancel, ()⟩ : Event) ∉ t := by
  rw [List.flatMap_eq_nil_iff]
  constructor
  · intro h hmem
    cases h _ hmem
  · rintro h ⟨o, r⟩ he
    cases o
    case cancel => exact absurd he h
    all_goals rfl

/-- The trace sends these statistics, and does not cancel the token. -/
structure Counted (stats : List DeletionStatistics) (t : Trace) : Prop where
  noted : t.flatMap noted = stats
  live : t.flatMap cancels = []

theorem Counted.nil : Counted [] [] := ⟨rfl, rfl⟩

theorem Counted.append {stats stats' : List DeletionStatistics} {t u : Trace}
    (ht : Counted stats t) (hu : Counted stats' u) : Counted (stats ++ stats') (t ++ u) :=
  ⟨by simp [ht.noted, hu.noted], by simp [ht.live, hu.live]⟩

/-- An event that neither counts nor cancels. -/
theorem Counted.cons {stats : List DeletionStatistics} {e : Event} {t : Trace}
    (he : S3rm.noted e = []) (he' : cancels e = []) (ht : Counted stats t) : Counted stats (e :: t) :=
  ⟨by simp [he, ht.noted], by simp [he', ht.live]⟩

/-! ### Classes against projections -/

/-- A projection that is empty on a class of operations is empty on the runs of
programs that stay in it. -/
theorem flatMap_eq_nil_of_straight {α β : Type} {φ : Op → Prop} {p : Task α} {t : Trace} {a : α}
    (h : p.Run t a) (hp : p.Straight φ) {f : Event → List β} (hf : ∀ e : Event, φ e.1 → f e = []) :
    t.flatMap f = [] :=
  List.flatMap_eq_nil_iff.mpr fun e he => hf e (h.uses hp.uses e he)

section

variable {e : Event} {c c' : Nat}

theorem got_screening (h : e.1.isScreening) : got c e = [] := by
  rcases e with ⟨o, r⟩
  cases o <;> first | rfl | simp [Op.isScreening, Op.isReport, Op.isNotice] at h

theorem got_flush (h : e.1.isFlush c') : got c e = [] := by
  rcases e with ⟨o, r⟩
  cases o <;> first | rfl | simp [Op.isFlush, Op.isFinish, Op.isReport, Op.isNotice, Op.isBackend] at h

theorem tickets_screening (h : e.1.isScreening) : tickets e = [] := by
  rcases e with ⟨o, r⟩
  cases o <;> first | rfl | simp [Op.isScreening, Op.isReport, Op.isNotice] at h

theorem tickets_flush (h : e.1.isFlush c') : tickets e = [] := by
  rcases e with ⟨o, r⟩
  cases o <;> first | rfl | simp [Op.isFlush, Op.isFinish, Op.isReport, Op.isNotice, Op.isBackend] at h

theorem begun_screening (h : e.1.isScreening) : begun e = [] := by
  rcases e with ⟨o, r⟩
  cases o <;> first | rfl | simp [Op.isScreening, Op.isReport, Op.isNotice] at h

theorem got_notice (h : e.1.isNotice) : got c e = [] :=
  got_screening (Op.isScreening_of_isReport (Op.isReport_of_isNotice h))

theorem sentTo_screening (h : e.1.isScreening) : sentTo c e = [] := by
  rcases e with ⟨o, r⟩
  cases o <;> first | rfl | simp [Op.isScreening, Op.isReport, Op.isNotice] at h

theorem sentTo_notice (h : e.1.isNotice) : sentTo c e = [] :=
  sentTo_screening (Op.isScreening_of_isReport (Op.isReport_of_isNotice h))

theorem noted_notice (h : e.1.isNotice) : noted e = [] := by
  rcases e with ⟨o, r⟩
  cases o <;> first | rfl | simp [Op.isNotice] at h

theorem cancels_notice (h : e.1.isNotice) : cancels e = [] := by
  rcases e with ⟨o, r⟩
  cases o <;> first | rfl | simp [Op.isNotice] at h

theorem begun_finish (h : e.1.isFinish c) : begun e = [] := by
  rcases e with ⟨o, r⟩
  cases o <;> first | rfl | simp [Op.isFinish, Op.isReport, Op.isNotice] at h

theorem begun_backend (h : e.1.isBackend) : begun e = [] := by
  rcases e with ⟨o, r⟩
  cases o <;> first | rfl | simp [Op.isBackend] at h

theorem asked_screening (h : e.1.isScreening) : asked e = [] := by
  rcases e with ⟨o, r⟩
  cases o <;> first | rfl | simp [Op.isScreening, Op.isReport, Op.isNotice] at h

theorem asked_finish (h : e.1.isFinish c) : asked e = [] := by
  rcases e with ⟨o, r⟩
  cases o <;> first | rfl | simp [Op.isFinish, Op.isReport, Op.isNotice] at h

end

/-! ### Shared pieces of code -/

theorem triggerEvent_straight (manager : EventManager) (event : EventData) :
    (triggerEvent manager event).Straight fun o => o.isNotice := by
  unfold triggerEvent
  simp only [straight_perform_bind]
  refine ⟨rfl, fun _ => ?_⟩
  split_ifs <;> simp [Op.isNotice]

theorem triggerEventIfRegistered_straight (manager : EventManager) (event : EventData) :
    (triggerEventIfRegistered manager event).Straight fun o => o.isNotice := by
  unfold triggerEventIfRegistered
  split_ifs
  · exact triggerEvent_straight manager event
  · simp

/-- The event neither opens nor ends a run. -/
def EventType.ordinary : EventType → Bool
  | .pipelineStart | .pipelineEnd | .statsReport => false
  | _ => true

/-- The operations `φ` cover triggering events of the types `P`. -/
structure Triggers (P : EventType → Prop) (φ : Op → Prop) : Prop where
  fires : ∀ event : EventData, P event.eventType → φ (.updatePipelineStats event)
  delivers : ∀ event : EventData, P event.eventType → φ (.onEvent event)

section events

variable {φ : Op → Prop} {event : EventData}

theorem Triggers.triggerEvent {P : EventType → Prop} (h : Triggers P φ) (manager : EventManager)
    (hevent : P event.eventType)
    (hend : event.eventType = .pipelineEnd → φ .pipelineStats ∧ P .statsReport) :
    (S3rm.triggerEvent manager event).Straight φ := by
  unfold S3rm.triggerEvent
  refine straight_perform_bind.mpr ⟨h.fires event hevent, fun _ => ?_⟩
  by_cases hstats : event.eventType = .pipelineEnd ∧ manager.eventFlags .statsReport
  · obtain ⟨hread, htype⟩ := hend hstats.1
    simp only [hstats, and_self, if_true]
    split_ifs
    · exact ⟨h.delivers _ (hstats.1 ▸ hevent), fun _ => ⟨hread, fun _ =>
        ⟨h.delivers _ htype, fun _ => trivial⟩⟩⟩
    · exact ⟨hread, fun _ => ⟨h.delivers _ htype, fun _ => trivial⟩⟩
    · trivial
  · simp only [hstats, if_false]
    split_ifs
    · exact ⟨h.delivers _ hevent, fun _ => trivial⟩
    · trivial
    · trivial

/-- The operations `φ` cover the events that neither open nor end a run. -/
structure OrdinaryEvents (φ : Op → Prop) : Prop where
  fires : ∀ event : EventData, event.eventType.ordinary → φ (.updatePipelineStats event)
  delivers : ∀ event : EventData, event.eventType.ordinary → φ (.onEvent event)

theorem OrdinaryEvents.triggers (h : OrdinaryEvents φ) :
    Triggers (fun type => type.ordinary) φ :=
  ⟨h.fires, h.delivers⟩

theorem OrdinaryEvents.triggerEvent (h : OrdinaryEvents φ) (manager : EventManager)
    (hevent : event.eventType.ordinary) : (S3rm.triggerEvent manager event).Straight φ := by
  refine h.triggers.triggerEvent manager hevent fun hend => ?_
  rw [hend] at hevent
  cases hevent

theorem OrdinaryEvents.triggerEventIfRegistered (h : OrdinaryEvents φ) (manager : EventManager)
    (hevent : event.eventType.ordinary) :
    (S3rm.triggerEventIfRegistered manager event).Straight φ := by
  unfold S3rm.triggerEventIfRegistered
  split_ifs
  · exact h.triggerEvent manager hevent
  · trivial

end events

/-- An event is fired when it is triggered, whoever listens. -/
theorem fired_triggerEvent {manager : EventManager} {event : EventData} {t : Trace} {a : Unit}
    (h : (triggerEvent manager event).Run t a) : t.flatMap fired = [event] := by
  unfold triggerEvent at h
  obtain ⟨_, u, rfl, hu⟩ := run_perform_bind.mp h
  split_ifs at hu
  · obtain ⟨_, v, rfl, hv⟩ := run_perform_bind.mp hu
    obtain ⟨stats, w, rfl, hw⟩ := run_perform_bind.mp hv
    obtain rfl := run_perform.mp hw
    rfl
  · obtain ⟨stats, w, rfl, hw⟩ := run_perform_bind.mp hu
    obtain rfl := run_perform.mp hw
    rfl
  · obtain rfl := run_perform.mp hu
    rfl
  · obtain ⟨rfl, -⟩ := hu
    rfl
  · obtain ⟨rfl, -⟩ := hu
    rfl

theorem counted_triggerEvent {manager : EventManager} {event : EventData} {t : Trace} {a : Unit}
    (h : (triggerEvent manager event).Run t a) : Counted [] t :=
  ⟨flatMap_eq_nil_of_straight h (triggerEvent_straight _ _) fun _ => noted_notice,
    flatMap_eq_nil_of_straight h (triggerEvent_straight _ _) fun _ => cancels_notice⟩

theorem counted_triggerEventIfRegistered {manager : EventManager} {event : EventData} {t : Trace}
    {a : Unit} (h : (triggerEventIfRegistered manager event).Run t a) : Counted [] t :=
  ⟨flatMap_eq_nil_of_straight h (triggerEventIfRegistered_straight _ _) fun _ => noted_notice,
    flatMap_eq_nil_of_straight h (triggerEventIfRegistered_straight _ _) fun _ => cancels_notice⟩

/-- Sending to the next stage: one send, and a look at the channel when it failed. -/
theorem run_stageSend {chan : Nat} {o : S3Object} {t : Trace} {r : Except Error SendResult} :
    Run (stageSend chan o) t r ↔ (t = [⟨.send chan o, true⟩] ∧ r = .ok .success) ∨
      (t = [⟨.send chan o, false⟩, ⟨.isClosed chan, true⟩] ∧ r = .ok .closed) ∨
      (t = [⟨.send chan o, false⟩, ⟨.isClosed chan, false⟩] ∧
        r = .error (.context "async_channel::Sender::send() failed."
          (.other "sending into a closed channel"))) := by
  unfold stageSend
  simp only [run_ask_bind]
  constructor
  · rintro ⟨b, u, rfl, h⟩
    cases b with
    | true =>
      obtain ⟨rfl, rfl⟩ := h
      exact .inl ⟨rfl, rfl⟩
    | false =>
      simp only [Bool.false_eq_true, if_false, run_ask_bind] at h
      obtain ⟨b, u, rfl, h⟩ := h
      cases b with
      | true =>
        obtain ⟨rfl, rfl⟩ := h
        exact .inr (.inl ⟨rfl, rfl⟩)
      | false =>
        obtain ⟨rfl, rfl⟩ := h
        exact .inr (.inr ⟨rfl, rfl⟩)
  · rintro (⟨rfl, rfl⟩ | ⟨rfl, rfl⟩ | ⟨rfl, rfl⟩)
    · exact ⟨true, [], rfl, rfl, rfl⟩
    · exact ⟨false, _, rfl, true, [], rfl, rfl, rfl⟩
    · exact ⟨false, _, rfl, false, [], rfl, rfl, rfl⟩

theorem stageSend_straight (chan : Nat) (o : S3Object) :
    Straight (fun op => op = .send chan o ∨ op = .isClosed chan) (stageSend chan o) := by
  unfold stageSend
  simp only [straight_ask_bind]
  refine ⟨.inl trivial, fun b => ?_⟩
  cases b <;> simp

end S3rm
