/-
S3rm/FilterSteps.lean

The turns of a filter stage, event by event: how it receives an object, what it
decides about it and what it does then.
-/
import S3rm.Filters
import S3rm.Traces

namespace S3rm

open Conc Conc.Prog

variable {stage : Stage} {kind : FilterKind} {o : S3Object} {t u : Trace}

/-- One turn of a filter stage. -/
def FilterKind.turn (kind : FilterKind) (stage : Stage) : Act (Unit ⊕ Unit) :=
  match kind with
  | base filter => filter.turn stage
  | userDefined => userDefinedFilterTurn stage

theorem FilterKind.filter_eq (kind : FilterKind) (stage : Stage) :
    kind.filter stage = loop (fun _ => kind.turn stage) () := by
  cases kind <;> rfl

/-- What a filter stage decides about an object: `true` keeps it. -/
inductive Verdict (stage : Stage) (o : S3Object) : FilterKind → Trace → Except Error Bool → Prop
  | base {filter : ObjectFilterBase} :
      Verdict stage o (.base filter) [] (.ok (filter.filterFn o stage.config.filterConfig))
  | unregistered (h : stage.config.filterCallbackRegistered = false) :
      Verdict stage o .userDefined [] (.ok true)
  | answered {b : Bool} (h : stage.config.filterCallbackRegistered = true) :
      Verdict stage o .userDefined [⟨.executeFilter o, .ok b⟩] (.ok b)
  | erred {e : Error} {w : Trace} {a : Unit} (h : stage.config.filterCallbackRegistered = true)
      (fires : (triggerEventIfRegistered stage.config.eventManager
        (userDefinedFilterErrorEvent e)).Run w a) :
      Verdict stage o .userDefined (⟨.executeFilter o, .error e⟩ :: (w ++ [⟨.cancel, ()⟩]))
        (.error (.other ("user defined filter worker cancelled with error: " ++ e.display)))

/-- How a stage receives from its channel. -/
def FilterKind.receives (kind : FilterKind) (chan : Nat) (r : Option S3Object) : Trace :=
  match kind with
  | base _ => [⟨.isCancelled, false⟩, ⟨.recv chan, r⟩]
  | userDefined => [⟨.select chan, .received r⟩]

/-- How it finds the token cancelled. -/
def FilterKind.stops (kind : FilterKind) (chan : Nat) : Event :=
  match kind with
  | base _ => ⟨.isCancelled, true⟩
  | userDefined => ⟨.select chan, .cancelled⟩

/-- What a stage does about an object it rejects. -/
structure Skips (config : Config) (o : S3Object) (t : Trace) : Prop where
  reports : ∀ e ∈ t, (∃ stats, e.1 = .sendStats stats) ∨ e.1.isNotice
  notes : t.flatMap noted = [.deleteSkip o.key]
  fires : ∃ message, t.flatMap fired =
    if config.eventManager.callbackRegistered then [filteredEvent o message] else []

/-- The turns of a filter stage. -/
inductive FilterStep (stage : Stage) (kind : FilterKind) : Trace → Unit ⊕ Except Error Unit → Prop
  | cancelled : FilterStep stage kind [kind.stops stage.receiver] (.inr (.ok ()))
  | ended : FilterStep stage kind (kind.receives stage.receiver none) (.inr (.ok ()))
  | failed {o : S3Object} {v : Trace} {e : Error} (verdict : Verdict stage o kind v (.error e)) :
      FilterStep stage kind (kind.receives stage.receiver (some o) ++ v) (.inr (.error e))
  | rejected {o : S3Object} {v w : Trace} (verdict : Verdict stage o kind v (.ok false))
      (skips : Skips stage.config o w) :
      FilterStep stage kind (kind.receives stage.receiver (some o) ++ (v ++ w)) (.inl ())
  | sent {o : S3Object} {v : Trace} (verdict : Verdict stage o kind v (.ok true)) :
      FilterStep stage kind
        (kind.receives stage.receiver (some o) ++ (v ++ [⟨.send stage.sender o, true⟩])) (.inl ())
  | unsent {o : S3Object} {v : Trace} {c : Bool} {r : Except Error Unit}
      (verdict : Verdict stage o kind v (.ok true)) :
      FilterStep stage kind (kind.receives stage.receiver (some o) ++
        (v ++ [⟨.send stage.sender o, false⟩, ⟨.isClosed stage.sender, c⟩])) (.inr r)

/-! ### Runs -/

/-- A kept object goes on to the next stage. -/
theorem filterStep_send {v s : Trace} {x : Unit ⊕ Except Error Unit}
    (verdict : Verdict stage o kind v (.ok true))
    (h : Run (do if (← stageSend stage.sender o) = .closed then return .inr ()
                 return .inl () : Act (Unit ⊕ Unit)) s (turnResult x)) :
    FilterStep stage kind (kind.receives stage.receiver (some o) ++ (v ++ s)) x := by
  rcases run_fallible_bind.mp h with ⟨e, hsend, hx⟩ | ⟨s₁, r, s₂, rfl, hsend, hrest⟩
  · rcases run_stageSend.mp hsend with ⟨-, he⟩ | ⟨-, he⟩ | ⟨rfl, he⟩
    · cases he
    · cases he
    · rcases x with _ | (e' | _) <;> cases hx
      exact .unsent verdict
  · rcases run_stageSend.mp hsend with ⟨rfl, he⟩ | ⟨rfl, he⟩ | ⟨-, he⟩
    · cases he
      obtain ⟨rfl, hx⟩ := hrest
      rcases x with _ | (_ | _) <;> cases hx
      exact .sent verdict
    · cases he
      obtain ⟨rfl, hx⟩ := hrest
      rcases x with _ | (_ | _) <;> cases hx
      exact .unsent verdict
    · cases he

theorem run_needDelete_verdict {r : Except Error Bool} (h : Run (needDelete stage o) t r) :
    Verdict stage o .userDefined t r := by
  unfold needDelete at h
  split_ifs at h with hcallback
  · obtain ⟨v, a, w, rfl, hv, hw⟩ := run_attempt_bind.mp h
    obtain rfl := run_perform.mp hv
    rcases a with e | b
    · obtain ⟨z, _, _, rfl, hz, hw'⟩ := run_lift_bind.mp hw
      obtain ⟨_, _, rfl, rfl, rfl⟩ := run_ask_bind.mp hw'
      exact .erred hcallback hz
    · obtain ⟨rfl, rfl⟩ := hw
      exact .answered hcallback
  · obtain ⟨rfl, rfl⟩ := h
    exact .unregistered (by simpa using hcallback)

theorem fired_triggerEventIfRegistered {manager : EventManager} {event : EventData} {a : Unit}
    (h : (triggerEventIfRegistered manager event).Run t a) :
    t.flatMap fired = if manager.callbackRegistered then [event] else [] := by
  unfold triggerEventIfRegistered at h
  split_ifs at h ⊢
  · exact fired_triggerEvent h
  · obtain ⟨rfl, -⟩ := h
    rfl

theorem base_step {filter : ObjectFilterBase} {x : Unit ⊕ Except Error Unit}
    (h : Turn (fun _ => filter.turn stage) () t x) : FilterStep stage (.base filter) t x := by
  unfold Turn ObjectFilterBase.turn at h
  simp only [run_ask_bind] at h
  obtain ⟨b, u, rfl, h⟩ := h
  cases b with
  | true =>
    obtain ⟨rfl, hx⟩ := h
    rcases x with _ | (_ | _) <;> cases hx
    exact .cancelled
  | false =>
    simp only [Bool.false_eq_true, if_false, run_ask_bind] at h
    obtain ⟨r, u, rfl, h⟩ := h
    rcases r with - | o
    · obtain ⟨rfl, hx⟩ := h
      rcases x with _ | (_ | _) <;> cases hx
      exact .ended
    · have hverdict : Verdict stage o (.base filter) []
          (.ok (filter.filterFn o stage.config.filterConfig)) := .base
      by_cases hf : filter.filterFn o stage.config.filterConfig
      · rw [hf] at hverdict
        simp only [hf, Bool.not_true, Bool.false_eq_true, if_false] at h
        exact filterStep_send hverdict h
      · rw [Bool.not_eq_true] at hf
        rw [hf] at hverdict
        simp only [hf, Bool.not_false, if_true, run_ask_bind] at h
        obtain ⟨_, u, rfl, h⟩ := h
        obtain ⟨v, a, _, rfl, hv, rfl, hx⟩ := run_lift_bind.mp h
        rcases x with _ | (_ | _) <;> cases hx
        have hnotice := hv.uses (triggerEventIfRegistered_straight _ _).uses
        refine .rejected hverdict ⟨?_, ?_, "Object filtered by " ++ filter.name, ?_⟩
        · rw [List.append_nil]
          rintro e (- | ⟨_, he⟩)
          · exact .inl ⟨_, rfl⟩
          · exact .inr (hnotice e he)
        · simp [noted, (counted_triggerEventIfRegistered hv).noted]
        · simp [fired, fired_triggerEventIfRegistered hv]

theorem userDefined_step {x : Unit ⊕ Except Error Unit}
    (h : Turn (fun _ => userDefinedFilterTurn stage) () t x) : FilterStep stage .userDefined t x := by
  unfold Turn userDefinedFilterTurn at h
  obtain ⟨sel, u, rfl, hsel⟩ := run_ask_bind.mp h
  rcases sel with (- | o) | -
  · obtain ⟨rfl, hx⟩ := hsel
    rcases x with _ | (_ | _) <;> cases hx
    exact .ended
  · rcases run_fallible_bind.mp hsel with ⟨e, hneed, hx⟩ | ⟨v, b, w, rfl, hneed, hw⟩
    · rcases x with _ | (_ | _) <;> cases hx
      exact .failed (run_needDelete_verdict hneed)
    · have hverdict := run_needDelete_verdict hneed
      cases b with
      | true => exact filterStep_send hverdict hw
      | false =>
        obtain ⟨z, _, _, rfl, hz, hw'⟩ := run_lift_bind.mp hw
        obtain ⟨_, _, rfl, rfl, hx⟩ := run_ask_bind.mp hw'
        rcases x with _ | (_ | _) <;> cases hx
        have hnotice := hz.uses (triggerEventIfRegistered_straight _ _).uses
        refine .rejected hverdict ⟨fun e he => ?_, ?_, "Object filtered by user defined filter", ?_⟩
        · rcases List.mem_append.mp he with he | he
          · exact .inr (hnotice e he)
          · exact .inl ⟨_, congrArg Sigma.fst (List.mem_singleton.mp he)⟩
        · simp [noted, (counted_triggerEventIfRegistered hz).noted]
        · simp [fired, fired_triggerEventIfRegistered hz]
  · obtain ⟨rfl, hx⟩ := hsel
    rcases x with _ | (_ | _) <;> cases hx
    exact .cancelled

/-- **The turns of a filter stage.** -/
theorem FilterKind.step {x : Unit ⊕ Except Error Unit}
    (h : Turn (fun _ => kind.turn stage) () t x) : FilterStep stage kind t x := by
  cases kind with
  | base filter => exact base_step h
  | userDefined => exact userDefined_step h

end S3rm
