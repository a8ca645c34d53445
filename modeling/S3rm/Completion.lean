/-
S3rm/Completion.lean

What `run()` does once the stages are started: it waits for the terminator,
promotes warnings to errors, closes the statistics and fires the completion
events.  `Completion` is such a run in its parts, and `run_runStarted` says
there is no other.
-/
import S3rm.Books

namespace S3rm

open Conc Conc.Prog

variable {config : Config} {outside : Outside} {w : PipelineWorld} {t : Trace}

/-! ### Events -/

/-- Where the callback is registered for it, it gets the event; the end of the
pipeline is followed by the statistics. -/
theorem delivered_triggerEvent {manager : EventManager} {event : EventData} {a : Unit}
    (h : (triggerEvent manager event).Run t a) (hreg : manager.callbackRegistered = true)
    (hall : ∀ type, manager.eventFlags type = true) : ∃ stats : PipelineStats, t.flatMap delivered =
      { event with dryRun := manager.dryRun } ::
        if event.eventType = .pipelineEnd then
          [{ EventData.new .statsReport with stats := some stats, dryRun := manager.dryRun }]
        else [] := by
  unfold triggerEvent at h
  obtain ⟨_, u, rfl, hu⟩ := run_perform_bind.mp h
  simp only [hreg, hall, and_true, if_true] at hu
  split_ifs at hu with hend
  · obtain ⟨_, v, rfl, hv⟩ := run_perform_bind.mp hu
    obtain ⟨stats, w, rfl, hw⟩ := run_perform_bind.mp hv
    obtain rfl := run_perform.mp hw
    exact ⟨stats, by rw [if_pos hend]; rfl⟩
  · obtain rfl := run_perform.mp hu
    exact ⟨{}, by rw [if_neg hend]; rfl⟩

/-! ### The parts of a run -/

/-- An error was recorded, and that it was a panic. -/
structure Records (panic : Prop) (t : Trace) : Prop where
  error : ∃ e ∈ t, e.1 = .setError
  errors : t.flatMap pushed ≠ []
  panic : panic → ∃ e ∈ t, e.1 = .setPanic

/-- What was recorded in a part was recorded. -/
theorem Records.of_sublist {panic : Prop} {u : Trace} (h : Records panic t) (hsub : t.Sublist u) :
    Records panic u := by
  refine ⟨?_, fun hnil => h.errors ?_, fun hp => ?_⟩
  · obtain ⟨e, he, heq⟩ := h.error
    exact ⟨e, hsub.subset he, heq⟩
  · exact List.sublist_nil.mp (hnil ▸ hsub.flatMap pushed)
  · obtain ⟨e, he, heq⟩ := h.panic hp
    exact ⟨e, hsub.subset he, heq⟩

/-- What `run()` did from the moment it waited for the terminator. -/
structure Completion where
  terminator : Outcome (Except Error Unit)
  recorded : Trace
  promoted : Trace
  failing : Bool
  errorEvents : Trace
  cancelEvents : Trace
  endEvents : Trace

namespace Completion

/-- Up to the moment `run()` looks whether there were errors. -/
def before (c : Completion) : Trace :=
  ⟨.join .terminator, c.terminator⟩ :: (c.recorded ++ (c.promoted ++ [⟨.closeStatsSender, ()⟩]))

/-- The completion events. -/
def after (c : Completion) : Trace := c.errorEvents ++ (c.cancelEvents ++ c.endEvents)

def trace (c : Completion) : Trace := c.before ++ ⟨.hasError, c.failing⟩ :: c.after

/-- The parts are what the code makes of them. -/
structure Ok (config : Config) (c : Completion) : Prop where
  recorded : c.terminator = .panicked → Records True c.recorded
  promoted : (promoteWarnings config).Run c.promoted ()
  errorEvents : c.failing = true → ∃ u event, event.eventType = .pipelineError ∧
    (triggerEvent config.eventManager event).Run u () ∧ u <:+ c.errorEvents
  cancelEvents : (fireCancelEvent config).Run c.cancelEvents ()
  endEvents : (triggerEvent config.eventManager (EventData.new .pipelineEnd)).Run c.endEvents ()

end Completion

theorem run_awaitTerminator {a : Unit} (h : awaitTerminator.Run t a) :
    ∃ o u, t = ⟨.join .terminator, o⟩ :: u ∧ (o = .panicked → Records True u) := by
  obtain ⟨o, u, rfl, hu⟩ := run_perform_bind.mp h
  refine ⟨o, u, rfl, ?_⟩
  rintro rfl
  obtain ⟨_, v, rfl, hv⟩ := run_perform_bind.mp hu
  obtain ⟨_, w, rfl, hw⟩ := run_perform_bind.mp hv
  obtain rfl := run_perform.mp hw
  exact ⟨by simp, by simp [pushed], by simp⟩

theorem run_fireErrorEvent {a : Unit} (h : (fireErrorEvent config).Run t a) :
    ∃ b u, t = ⟨.hasError, b⟩ :: u ∧ (b = true → ∃ v event, event.eventType = .pipelineError ∧
      (triggerEvent config.eventManager event).Run v () ∧ v <:+ u) := by
  obtain ⟨b, u, rfl, hu⟩ := run_perform_bind.mp h
  refine ⟨b, u, rfl, ?_⟩
  rintro rfl
  obtain ⟨v, messages, w, rfl, -, hw⟩ := run_bind.mp hu
  exact ⟨w, errorEvent messages, rfl, hw, List.suffix_append v w⟩

/-- **The runs of `run()` after its start.** -/
theorem run_runStarted {r : Except Error Unit} (h : Run (runStarted config) t r) :
    ∃ c : Completion, t = c.trace ∧ c.Ok config := by
  obtain ⟨t₁, _, t₂, rfl, h₁, h₂⟩ := run_bind.mp h
  obtain ⟨t₃, _, t₄, rfl, h₃, h₄⟩ := run_bind.mp h₂
  obtain ⟨_, t₅, rfl, h₅⟩ := run_perform_bind.mp h₄
  obtain ⟨t₆, _, _, rfl, h₆, rfl, -⟩ := run_bind.mp h₅
  obtain ⟨t₇, _, t₈, rfl, h₇, h₈⟩ := run_bind.mp h₆
  obtain ⟨t₉, _, t₁₀, rfl, h₉, h₁₀⟩ := run_bind.mp h₈
  obtain ⟨o, u, rfl, hu⟩ := run_awaitTerminator h₁
  obtain ⟨b, v, rfl, hv⟩ := run_fireErrorEvent h₇
  refine ⟨⟨o, u, t₃, b, v, t₉, t₁₀⟩, ?_, ⟨hu, h₃, hv, h₉, h₁₀⟩⟩
  simp [Completion.trace, Completion.before, Completion.after]

end S3rm
