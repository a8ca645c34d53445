/-
S3rm/Progress.lean

The pipeline does not get stuck.  A task waits only at a channel: to receive
from one that is empty and open, or to send on one that is full and open.  An
open channel has a sender that has not ended; the sender of an empty channel
does not wait to send on it, so it waits one channel further up, and the lister
at the top waits for nobody (`pipeline_progress`).
-/
import S3rm.Schedule

namespace S3rm

open Conc Conc.Prog

variable {config : Config} {outside : Outside} {w : PipelineWorld} {i : TaskId} {c : Nat}

/-! ### What a task waits for -/

/-- Calls of the storage and of the callbacks. -/
def Op.isOutside : Op → Bool
  | .nextListed | .executeFilter _ | .headObject _ _ | .getObjectTagging _ _ | .deleteObject _ _ _
  | .deleteObjects _ | .sleep _ | .onEvent _ => true
  | _ => false

/-- The outside always answers, and has no say in what the tasks share. -/
structure Outside.Responsive (outside : Outside) : Prop where
  returns : ∀ o : Op, o.isOutside → ∃ r, outside.admits ⟨o, r⟩
  free : ∀ (o : Op) (r : Resp o), o.isOutside = false → outside.admits ⟨o, r⟩

/-- The task waits at a channel. -/
inductive Waiting (config : Config) (w : PipelineWorld) (i : TaskId) : Prop
  | toReceive {o : Op} {k : Resp o → Task (Except Error Unit)} {c : Nat}
      (run : w.tasks i = .running (.op o k)) (receives : o = .recv c ∨ o = .select c)
      (empty : w.shared.queues c = []) (opened : isChannelClosed config w.outcome c = false) :
      Waiting config w i
  | toSend {k : Bool → Task (Except Error Unit)} {c : Nat} {x : S3Object}
      (run : w.tasks i = .running (.op (.send c x) k))
      (full : config.objectListingQueueSize ≤ (w.shared.queues c).length) : Waiting config w i
  | toJoin {j : TaskId} {k : Outcome (Except Error Unit) → Task (Except Error Unit)}
      (run : w.tasks i = .running (.op (.join j) k)) : Waiting config w i

/-- An operation on the shared state that can be answered. -/
theorem ready_of_handle (hresp : outside.Responsive) {o : Op}
    {k : Resp o → Task (Except Error Unit)} (run : w.tasks i = .running (.op o k)) {r : Resp o}
    {sh : Shared} (handled : w.shared.handle config w.outcome o r = some sh)
    (hin : o.isOutside = false) : (pipeline config outside).Ready w i :=
  .perform run handled (hresp.free o r hin) trivial

/-- A call to the outside is answered. -/
theorem ready_of_isOutside (hresp : outside.Responsive) {o : Op}
    {k : Resp o → Task (Except Error Unit)} (run : w.tasks i = .running (.op o k))
    (hout : o.isOutside) : (pipeline config outside).Ready w i := by
  obtain ⟨r, hr⟩ := hresp.returns o hout
  have handled : w.shared.handle config w.outcome o r = some w.shared := by
    cases o <;> first | rfl | cases hout
  exact .perform run handled hr trivial

/-- Receiving waits only for an empty, open channel. -/
theorem receive_or_waiting (c : Nat) :
    (∃ r sh, w.shared.receive config w.outcome c r = some sh) ∨
      (w.shared.queues c = [] ∧ isChannelClosed config w.outcome c = false) := by
  rcases hq : w.shared.queues c with - | ⟨x, rest⟩
  · rcases hc : isChannelClosed config w.outcome c with - | -
    · exact .inr ⟨rfl, rfl⟩
    · exact .inl ⟨none, w.shared, by simp [Shared.receive, hc, hq]⟩
  · exact .inl ⟨some x, { w.shared with queues := Function.update w.shared.queues c rest },
      by simp [Shared.receive, hq]⟩

/-- **A task that cannot go on waits.** -/
theorem ready_or_waiting (hresp : outside.Responsive) {p : Task (Except Error Unit)}
    (run : w.tasks i = .running p) : (pipeline config outside).Ready w i ∨ Waiting config w i := by
  rcases p with a | ⟨o, k⟩ | ⟨body, s, k⟩
  · exact .inl (.finish run)
  · by_cases hout : o.isOutside
    · exact .inl (ready_of_isOutside hresp run hout)
    rw [Bool.not_eq_true] at hout
    have answer : ∀ (r : Resp o) sh, w.shared.handle config w.outcome o r = some sh →
        (pipeline config outside).Ready w i ∨ Waiting config w i :=
      fun r sh handled => .inl (ready_of_handle hresp run handled hout)
    cases o
    case recv c =>
      rcases receive_or_waiting (w := w) c with ⟨r, sh, hr⟩ | ⟨hempty, hopen⟩
      · exact answer r sh hr
      · exact .inr (.toReceive run (.inl rfl) hempty hopen)
    case select c =>
      rcases receive_or_waiting (w := w) c with ⟨r, sh, hr⟩ | ⟨hempty, hopen⟩
      · exact answer (.received r) sh hr
      · exact .inr (.toReceive run (.inr rfl) hempty hopen)
    case send c x =>
      rcases hc : isChannelClosed config w.outcome c with - | -
      · by_cases hfull : config.objectListingQueueSize ≤ (w.shared.queues c).length
        · exact .inr (.toSend run hfull)
        · exact answer true _ (by simp [Shared.handle, hc, Nat.lt_of_not_le hfull]; rfl)
      · exact answer false _ (by simp [Shared.handle, hc]; rfl)
    case join j => exact .inr (.toJoin run)
    case isClosed c => exact answer (isChannelClosed config w.outcome c) _ (if_pos rfl)
    case isCancelled => exact answer w.shared.cancelled _ (if_pos rfl)
    case fetchAdd => exact answer w.shared.deleteCounter _ (if_pos rfl)
    case hasWarning => exact answer w.shared.hasWarning _ (if_pos rfl)
    case hasError => exact answer w.shared.hasError _ (if_pos rfl)
    case errorMessages => exact answer (w.shared.errors.map Error.display) _ (if_pos rfl)
    case pipelineStats => exact answer w.shared.pipelineStats _ (if_pos rfl)
    case nextListed | executeFilter | headObject | getObjectTagging | deleteObject | deleteObjects
      | sleep | onEvent => cases hout
    all_goals exact answer () _ rfl
  · exact .inl (.unroll run)

/-! ### Up the chain -/

theorem Running.task_running (h : Running config outside w) (hi : i.started config)
    (hout : w.outcome i = none) : ∃ p, w.tasks i = .running p := by
  obtain ⟨p, hp⟩ := Option.isSome_iff_exists.mp hi
  exact Machine.Reachable.running_of_outcome (start_initial config) h ((h.code_eq i).trans hp) hout

theorem Running.mayUse_next (h : Running config outside w) (hi : i.started config) {o : Op}
    {k : Resp o → Task (Except Error Unit)} (run : w.tasks i = .running (.op o k)) :
    i.mayUse config o := by
  obtain ⟨p, hp⟩ := Option.isSome_iff_exists.mp hi
  exact Machine.Reachable.next_uses (start_initial config) h ((h.code_eq i).trans hp)
    (TaskId.program_uses hp) run

/-- An open channel has a sender that has not ended. -/
theorem exists_sender (h : isChannelClosed config w.outcome c = false) :
    ∃ i ∈ senders config c, w.outcome i = none := by
  simp only [isChannelClosed, Bool.or_eq_false_iff, List.all_eq_false] at h
  obtain ⟨i, hi, hout⟩ := h.1
  exact ⟨i, hi, by simpa using hout⟩

/-- The senders of a channel are stages of the run. -/
theorem started_of_mem_senders (hc : c ≤ filterCount config + 1) (hi : i ∈ senders config c) :
    i.started config ∧ ∃ s, i = .stage s := by
  rcases c with - | n
  · obtain rfl : i = .stage .lister := by simpa [senders_zero] using hi
    exact ⟨rfl, _, rfl⟩
  · rcases Nat.lt_or_ge n (filterCount config) with hn | hn
    · obtain rfl : i = .stage (.filter n) := by simpa [senders_filter hn] using hi
      exact ⟨StageId.filter_started.mpr hn, _, rfl⟩
    · obtain rfl : n = filterCount config := by omega
      rw [senders_last] at hi
      obtain ⟨k, hk, rfl⟩ := mem_workers.mp hi
      exact ⟨StageId.worker_started.mpr hk, _, rfl⟩

/-- A sender has one channel to send on, and receives from the one before it. -/
theorem sender_channels (hc : c ≤ filterCount config + 1) (hi : i ∈ senders config c) :
    (∀ {c' x}, i.mayUse config (.send c' x) → c' = c) ∧
      (∀ {c'}, i ∈ receivers config c' → c' + 1 = c) ∧ ∀ {j}, ¬ i.mayUse config (.join j) := by
  rcases c with - | n
  · obtain rfl : i = .stage .lister := by simpa [senders_zero] using hi
    refine ⟨fun hu => by simpa [TaskId.mayUse, Op.isListing] using hu, fun hr => ?_,
      by simp [TaskId.mayUse, Op.isListing]⟩
    unfold receivers at hr
    split_ifs at hr <;> simp [workers] at hr
  · rcases Nat.lt_or_ge n (filterCount config) with hn | hn
    · obtain rfl : i = .stage (.filter n) := by simpa [senders_filter hn] using hi
      refine ⟨fun hu => by simpa [TaskId.mayUse, Op.isFiltering] using hu, fun hr => ?_,
        by simp [TaskId.mayUse, Op.isFiltering, Op.isNotice]⟩
      unfold receivers at hr
      split_ifs at hr <;> simp [workers] at hr
      rw [hr]
    · obtain rfl : n = filterCount config := by omega
      rw [senders_last] at hi
      obtain ⟨k, hk, rfl⟩ := mem_workers.mp hi
      refine ⟨fun hu => ?_, fun hr => ?_, ?_⟩
      · simpa [TaskId.mayUse, Op.isWorking, Op.isScreening, Op.isFlush, Op.isFinish, Op.isReport,
          Op.isNotice, Op.isBackend] using hu
      · unfold receivers at hr
        split_ifs at hr with h₁ h₂
        · simp at hr
        · rw [h₂]
        · simp at hr
      · simp [TaskId.mayUse, Op.isWorking, Op.isScreening, Op.isFlush, Op.isFinish, Op.isReport,
          Op.isNotice, Op.isBackend]

/-- A sender of an empty channel can go on, or waits one channel further up. -/
theorem sender_ready_or_up (h : Running config outside w) (hresp : outside.Responsive)
    (hcap : 0 < config.objectListingQueueSize) (hc : c ≤ filterCount config + 1)
    (hi : i ∈ senders config c) (hout : w.outcome i = none) (hempty : w.shared.queues c = []) :
    (pipeline config outside).Ready w i ∨ ∃ c', c' + 1 = c ∧ w.shared.queues c' = [] ∧
      isChannelClosed config w.outcome c' = false := by
  obtain ⟨hstarted, -⟩ := started_of_mem_senders hc hi
  obtain ⟨hsend, hreceive, hjoin⟩ := sender_channels hc hi
  obtain ⟨p, run⟩ := h.task_running hstarted hout
  refine (ready_or_waiting hresp run).imp_right ?_
  rintro (@⟨o, k, c', run, receives, empty, opened⟩ | @⟨k, c', x, run, full⟩ | @⟨j, k, run⟩)
  · have hmem := mem_receivers hstarted (h.mayUse_next hstarted run) receives
    exact ⟨c', hreceive hmem, empty, opened⟩
  · obtain rfl := hsend (h.mayUse_next hstarted run)
    simp only [hempty, List.length_nil] at full
    omega
  · exact absurd (h.mayUse_next hstarted run) hjoin

/-- Above an empty, open channel a stage can go on. -/
theorem exists_ready_above (h : Running config outside w) (hresp : outside.Responsive)
    (hcap : 0 < config.objectListingQueueSize) (hc : c ≤ filterCount config + 1)
    (hempty : w.shared.queues c = []) (hopen : isChannelClosed config w.outcome c = false) :
    ∃ s, (pipeline config outside).Ready w (.stage s) := by
  induction c with
  | zero =>
    obtain ⟨i, hi, hout⟩ := exists_sender hopen
    obtain ⟨-, s, rfl⟩ := started_of_mem_senders hc hi
    rcases sender_ready_or_up h hresp hcap hc hi hout hempty with hready | ⟨c', hc', -⟩
    · exact ⟨s, hready⟩
    · omega
  | succ n ih =>
    obtain ⟨i, hi, hout⟩ := exists_sender hopen
    obtain ⟨-, s, rfl⟩ := started_of_mem_senders hc hi
    rcases sender_ready_or_up h hresp hcap hc hi hout hempty with hready | ⟨c', hc', hempty', hopen'⟩
    · exact ⟨s, hready⟩
    · obtain rfl := Nat.succ.inj hc'
      exact ih (by omega) hempty' hopen'

/-- The terminator can go on, or waits for the workers. -/
theorem terminator_ready_or_waits (h : Running config outside w) (hresp : outside.Responsive)
    (hterm : w.outcome .terminator = none) : (pipeline config outside).Ready w .terminator ∨
      w.shared.queues (filterCount config + 1) = [] ∧
        isChannelClosed config w.outcome (filterCount config + 1) = false := by
  have hstarted : TaskId.terminator.started config := rfl
  obtain ⟨p, run⟩ := h.task_running hstarted hterm
  rcases ready_or_waiting hresp run with hready | hwaiting
  · exact .inl hready
  obtain ⟨run, receives, empty, opened⟩ | ⟨run, full⟩ | ⟨run⟩ := hwaiting
  · obtain rfl : _ = filterCount config + 1 := by
      rcases receives with rfl | rfl <;> simpa [TaskId.mayUse] using h.mayUse_next hstarted run
    exact .inr ⟨empty, opened⟩
  · simpa [TaskId.mayUse] using h.mayUse_next hstarted run
  · simpa [TaskId.mayUse] using h.mayUse_next hstarted run

/-- **The pipeline never gets stuck.**  Whatever was cancelled, failed or
panicked, as long as the terminator has not ended, it or a stage can go on. -/
theorem pipeline_progress (h : Running config outside w) (hresp : outside.Responsive)
    (hcap : 0 < config.objectListingQueueSize) (hterm : w.outcome .terminator = none) :
    ∃ i, (i = .terminator ∨ ∃ s, i = .stage s) ∧ (pipeline config outside).Ready w i := by
  rcases terminator_ready_or_waits h hresp hterm with hready | ⟨empty, opened⟩
  · exact ⟨_, .inl rfl, hready⟩
  · obtain ⟨s, hready⟩ := exists_ready_above h hresp hcap le_rfl empty opened
    exact ⟨_, .inr ⟨s, rfl⟩, hready⟩

/-! ### A run under back-pressure -/

theorem Script.responsive (script : Script) : script.outside.Responsive where
  returns o _ := script.answers.agrees_total o
  free o r h := by
    show script.answers.agrees ⟨o, r⟩
    cases o
    case executeFilter | headObject | getObjectTagging => cases h
    all_goals trivial

/-- One place in every channel. -/
def crampedConfig : Config where
  workerSize := 1
  objectListingQueueSize := 1

def crampedScript : Script where
  listing := [.object (sampleObject "a" 1), .object (sampleObject "b" 1), .finished (.ok ())]

/-- The lister has filled its channel and has another object to send. -/
def crampedRun : PipelineWorld :=
  crampedScript.run crampedConfig crampedScript.outside (List.replicate 5 (.stage .lister))

theorem crampedRun_running : Running crampedConfig crampedScript.outside crampedRun :=
  Script.running (fun _ _ _ => Script.agrees) _

/-- `pipeline_progress` on that run. -/
theorem pipeline_progress_crampedRun : crampedRun.shared.queues 0 = [sampleObject "a" 1] ∧
    ∃ i, (i = .terminator ∨ ∃ s, i = .stage s) ∧
      (pipeline crampedConfig crampedScript.outside).Ready crampedRun i :=
  ⟨by decide +kernel, pipeline_progress crampedRun_running crampedScript.responsive (by decide)
    (by decide +kernel)⟩

end S3rm
