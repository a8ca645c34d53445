/-
S3rm/CompletionEvents.lean

The order of the events a callback gets.  `run()` fires PIPELINE_START before
the stages start and PIPELINE_END after it has waited for the terminator, which
returns when all workers have ended; after a cancellation, filter stages can
still be at work then, and fire their events later (`event_after_end`).

    Awaits             a step that does not deliver PIPELINE_END too early
    completion_last    in a run of such steps the completion events come last
-/
import S3rm.Api
import S3rm.Completion
import S3rm.Schedule

namespace S3rm

open Conc Conc.Prog

variable {config : Config} {outside : Outside} {w : PipelineWorld} {i : TaskId} {e : Event}
  {t u v : Trace}

/-! ### Ordinary events -/

/-- The operation fires no event that opens or ends a run. -/
def Op.isOrdinary : Op → Bool
  | .updatePipelineStats event | .onEvent event => event.eventType.ordinary
  | _ => true

theorem ordinaryEvents : OrdinaryEvents fun o => o.isOrdinary := ⟨fun _ h => h, fun _ h => h⟩

theorem filterCovers_isOrdinary (inp out : Nat) : FilterCovers inp out fun o => o.isOrdinary where
  recv := rfl
  select := rfl
  send _ := rfl
  isClosed := rfl
  isCancelled := rfl
  executeFilter _ := rfl
  sendStats _ := rfl
  cancel := rfl
  events := ordinaryEvents

theorem covers_isOrdinary (stage : Stage) : Covers stage fun o => o.isOrdinary where
  select := rfl
  isClosed := rfl
  isCancelled := rfl
  fetchAdd := rfl
  screens := ⟨fun _ _ => rfl, fun _ _ => rfl, fun _ => rfl, rfl, ordinaryEvents⟩
  finishes := ⟨fun _ => rfl, fun _ => rfl, rfl, rfl, rfl, fun _ => rfl, rfl, ordinaryEvents⟩
  begins _ _ := rfl
  backend _ o ho := by cases o <;> first | rfl | cases ho

/-- Who is not `run()` itself fires only ordinary events. -/
theorem Running.isOrdinary (h : Running config outside w) (he : (i, e) ∈ w.log) (hi : i ≠ .main) :
    e.1.isOrdinary := by
  have hmem := mem_traceOf.mpr he
  have hu := h.mayUse he
  rcases i with (_ | n | n) | s | _ | _
  · rcases e with ⟨o, r⟩
    cases o <;> first | rfl | cases hu
  · obtain ⟨kind, hprog, -⟩ := filter_program (A := {}) (StageId.filter_started.mp (h.started he))
    exact (h.part hprog).uses ((filterCovers_isOrdinary n (n + 1)).uses kind config) e hmem
  · have hn := StageId.worker_started.mp (h.started he)
    exact (h.part (worker_program hn)).uses (covers_isOrdinary (workerStage config)).uses e hmem
  · rcases e with ⟨o, r⟩
    cases o <;> first | rfl | cases hu
  · rcases e with ⟨o, r⟩
    cases o <;> first | rfl | cases hu
  · exact absurd rfl hi

/-- Only filters, workers and `run()` fire any. -/
theorem Running.delivers (h : Running config outside w) (he : (i, e) ∈ w.log)
    (hd : delivered e ≠ []) : i = .main ∨ ∃ s : StageId, i = .stage s ∧ s ≠ .lister := by
  have hu := h.mayUse he
  rcases e with ⟨o, r⟩
  cases o
  case onEvent event =>
    rcases i with (_ | n | n) | s | _ | _
    · cases hu
    · exact .inr ⟨_, rfl, by simp⟩
    · exact .inr ⟨_, rfl, by simp⟩
    · cases hu
    · cases hu
    · exact .inl rfl
  all_goals exact absurd rfl hd

/-! ### Events of `run()` -/

/-- The types of the events that were delivered. -/
def deliveredTypes (t : Trace) : List EventType := (t.flatMap delivered).map EventData.eventType

@[simp] theorem deliveredTypes_append (t u : Trace) :
    deliveredTypes (t ++ u) = deliveredTypes t ++ deliveredTypes u := by simp [deliveredTypes]

theorem ordinary_of_isOrdinary {x : EventData} (h : e.1.isOrdinary) (hx : x ∈ delivered e) :
    x.eventType.ordinary := by
  rcases e with ⟨o, r⟩
  cases o
  case onEvent event =>
    obtain rfl := List.mem_singleton.mp hx
    exact h
  all_goals cases hx

/-- Programs that fire ordinary events only. -/
theorem ordinary_of_run {α : Type} {p : Task α} {a : α} (h : p.Run t a)
    (hp : p.Straight fun o => o.isOrdinary) : ∀ x ∈ deliveredTypes t, x.ordinary := by
  intro x hx
  obtain ⟨event, hevent, rfl⟩ := List.mem_map.mp hx
  obtain ⟨e, he, hd⟩ := List.mem_flatMap.mp hevent
  exact ordinary_of_isOrdinary (h.uses hp.uses e he) hd

/-- Ordinary events, and then the end with its statistics. -/
def Closing (types : List EventType) : Prop :=
  ∃ m : List EventType, (∀ x ∈ m, x.ordinary) ∧ types = m ++ [.pipelineEnd, .statsReport]

theorem Closing.append_left {m types : List EventType} (h : Closing types)
    (hm : ∀ x ∈ m, x.ordinary) : Closing (m ++ types) := by
  obtain ⟨m', hm', rfl⟩ := h
  exact ⟨m ++ m', fun x hx => (List.mem_append.mp hx).elim (hm x) (hm' x), by simp⟩

theorem deliveredTypes_triggerEvent {event : EventData} {a : Unit} (hreg : Registered config)
    (h : (triggerEvent config.eventManager event).Run t a) : deliveredTypes t =
      event.eventType :: if event.eventType = .pipelineEnd then [.statsReport] else [] := by
  obtain ⟨stats, hs⟩ := delivered_triggerEvent h hreg.callback hreg.all
  rw [deliveredTypes, hs]
  split_ifs <;> rfl

theorem completes_isOrdinary : Completes fun o => o.isOrdinary where
  join := rfl
  setError := rfl
  setPanic := rfl
  pushError _ := rfl
  hasWarning := rfl
  hasError := rfl
  errorMessages := rfl
  isCancelled := rfl
  closeStatsSender := rfl
  events := by
    refine ⟨fun event h => ?_, fun event h => ?_⟩ <;> rcases h with h | h <;>
      simp [Op.isOrdinary, h, EventType.ordinary]

theorem closing_fireCompletionEvents {a : Unit} (hreg : Registered config)
    (h : (fireCompletionEvents config).Run t a) : Closing (deliveredTypes t) := by
  obtain ⟨t₁, _, t₂, rfl, h₁, h₂⟩ := run_bind.mp h
  obtain ⟨t₃, _, t₄, rfl, h₃, h₄⟩ := run_bind.mp h₂
  have hend : Closing (deliveredTypes t₄) := ⟨[], by simp, deliveredTypes_triggerEvent hreg h₄⟩
  rw [deliveredTypes_append, deliveredTypes_append]
  exact (hend.append_left (ordinary_of_run h₃ (completes_isOrdinary.fireCancelEvent config))).append_left
    (ordinary_of_run h₁ (completes_isOrdinary.fireErrorEvent config))

/-- The events of `run()` once the stages are started. -/
theorem closing_runStarted {r : Except Error Unit} (hreg : Registered config)
    (h : Run (runStarted config) t r) : Closing (deliveredTypes t) := by
  obtain ⟨t₁, _, t₂, rfl, h₁, h₂⟩ := run_bind.mp h
  obtain ⟨t₃, _, t₄, rfl, h₃, h₄⟩ := run_bind.mp h₂
  obtain ⟨_, t₅, rfl, h₅⟩ := run_perform_bind.mp h₄
  obtain ⟨t₆, _, _, rfl, h₆, rfl, -⟩ := run_bind.mp h₅
  have hclosing := closing_fireCompletionEvents hreg h₆
  have hall := (hclosing.append_left
    (ordinary_of_run h₃ (completes_isOrdinary.promoteWarnings config))).append_left
      (ordinary_of_run h₁ completes_isOrdinary.awaitTerminator)
  simpa [deliveredTypes, delivered] using hall

/-- The events of `run()` after a failed check. -/
theorem closing_runRefused {error : Error} {r : Except Error Unit} (hreg : Registered config)
    (h : Run (runRefused config error) t r) : Closing (deliveredTypes t) := by
  obtain ⟨t₁, _, t₂, rfl, h₁, h₂⟩ := run_bind.mp h
  obtain ⟨_, t₃, rfl, h₃⟩ := run_perform_bind.mp h₂
  obtain ⟨t₄, _, _, rfl, h₄, rfl, -⟩ := run_bind.mp h₃
  have hall := (closing_fireCompletionEvents hreg h₄).append_left
    (ordinary_of_run h₁ (completes_isOrdinary.recordError error))
  simpa [deliveredTypes, delivered] using hall

/-- As far as a program has come, its events are the beginning of such a closing. -/
theorem closing_of_part {α : Type} {p : Task α} (hp : p.LoopFree)
    (hclosing : ∀ t r, p.Run t r → Closing (deliveredTypes t)) (h : p.Part t) :
    ∃ types, Closing types ∧ deliveredTypes t <+: types := by
  obtain ⟨u, r, hu, -⟩ :=
    h.extend ({} : Answers).agrees_total hp
  exact ⟨_, hclosing _ r hu, deliveredTypes_append t u ▸ List.prefix_append _ _⟩

/-- What comes before the end is ordinary. -/
theorem Closing.before_end {l types : List EventType} (h : Closing types) (hpre : l <+: types)
    (hend : EventType.pipelineEnd ∉ l) : ∀ x ∈ l, x.ordinary := by
  obtain ⟨m, hm, rfl⟩ := h
  rcases prefix_middle hpre with hl | ⟨z, -, rfl⟩
  · exact fun x hx => hm x (hl.subset hx)
  · exact absurd (List.mem_append_right m List.mem_cons_self) hend

/-- Nothing but the statistics comes after the end. -/
theorem Closing.after_end {m rest types : List EventType} (h : Closing types)
    (hm : ∀ x ∈ m, x.ordinary) (hpre : m ++ .pipelineEnd :: rest <+: types) :
    rest <+: [.statsReport] ∧ (m ++ .pipelineEnd :: rest = types → rest = [.statsReport]) := by
  obtain ⟨m', hm', rfl⟩ := h
  obtain ⟨z, hz⟩ := hpre
  have hnot : EventType.pipelineEnd ∉ m' := fun hmem => Bool.false_ne_true (hm' _ hmem)
  rw [List.append_assoc, List.cons_append] at hz
  obtain ⟨rfl, -, hrest⟩ := (List.append_cons_inj_of_notMem hnot (by simp)).mp hz.symm
  exact ⟨⟨z, hrest.symm⟩, fun heq => by simpa using heq⟩

/-! ### Runs whose end is awaited -/

/-- The types of the events delivered so far. -/
def typesOf (w : PipelineWorld) : List EventType := (w.proj delivered).map EventData.eventType

/-- `run()` has delivered PIPELINE_END. -/
def EndDelivered (w : PipelineWorld) : Prop :=
  .pipelineEnd ∈ deliveredTypes (traceOf .main w.log)

/-- The filters and the workers have ended. -/
def Quiet (config : Config) (w : PipelineWorld) : Prop :=
  ∀ s : StageId, s ≠ .lister → s.exists config → (w.outcome (.stage s)).isSome

/-- The step from `u` to `v` does not deliver PIPELINE_END while filters or
workers are still there. -/
def Awaits (config : Config) (u v : PipelineWorld) : Prop :=
  ¬ EndDelivered u → EndDelivered v → Quiet config u

/-- The states a run of such steps can be in. -/
def AwaitedRun (config : Config) (outside : Outside) : PipelineWorld → Prop :=
  Relation.ReflTransGen (fun u v => (pipeline config outside).Step u v ∧ Awaits config u v)
    (start config)

theorem AwaitedRun.running (h : AwaitedRun config outside w) : Running config outside w := by
  induction h with
  | refl => exact .refl
  | tail _ hs ih => exact ih.tail hs.1

/-- How far `run()` has come with its events. -/
theorem Running.main_closing (hreg : Registered config) (h : Running config outside w) :
    ∃ types, Closing types ∧ deliveredTypes (traceOf .main w.log) <+: types :=
  closing_of_part (runStarted_straight config).loopFree (fun _ _ => closing_runStarted hreg)
    (h.part (i := .main) rfl)

/-- Before PIPELINE_END all events are ordinary. -/
theorem Running.types_ordinary (hreg : Registered config) (h : Running config outside w)
    (hend : ¬ EndDelivered w) : ∀ x ∈ typesOf w, x.ordinary := by
  intro x hx
  obtain ⟨event, hevent, rfl⟩ := List.mem_map.mp hx
  obtain ⟨⟨i, e⟩, he, hd⟩ := List.mem_flatMap.mp hevent
  by_cases hi : i = .main
  · subst hi
    obtain ⟨types, htypes, hpre⟩ := h.main_closing hreg
    refine htypes.before_end hpre hend _ (List.mem_map_of_mem ?_)
    exact List.mem_flatMap.mpr ⟨e, mem_traceOf.mpr he, hd⟩
  · exact ordinary_of_isOrdinary (h.isOrdinary he hi) hd

/-- Since PIPELINE_END only `run()` has delivered events. -/
structure Final (config : Config) (w : PipelineWorld) : Prop where
  quiet : Quiet config w
  last : ∃ m m' rest, (∀ x ∈ m, x.ordinary) ∧ (∀ x ∈ m', x.ordinary) ∧
    typesOf w = m ++ .pipelineEnd :: rest ∧
      deliveredTypes (traceOf .main w.log) = m' ++ .pipelineEnd :: rest

theorem Quiet.mono {u v : PipelineWorld} (h : Quiet config u)
    (hmono : ∀ i o, u.outcome i = some o → v.outcome i = some o) : Quiet config v := by
  intro s hne hs
  obtain ⟨o, ho⟩ := Option.isSome_iff_exists.mp (h s hne hs)
  exact Option.isSome_iff_exists.mpr ⟨o, hmono _ _ ho⟩

theorem Final.own {u v : PipelineWorld} (h : Final config u) (hlog : v.log = u.log)
    (hmono : ∀ i o, u.outcome i = some o → v.outcome i = some o) : Final config v := by
  have htypes : typesOf v = typesOf u := by
    rw [typesOf, World.proj, hlog]
    rfl
  refine ⟨h.quiet.mono hmono, ?_⟩
  rw [htypes, hlog]
  exact h.last

/-- An event of another task than `run()` comes before the end. -/
theorem Quiet.silent {u : PipelineWorld} {o : Op} {r : Resp o} {k : Resp o → Act Unit}
    {sh : Shared} (h : Quiet config u) (hi : i ≠ .main) (run : u.tasks i = .running (.op o k))
    (hv : Running config outside ((u.put i (.running (k r))).record i ⟨o, r⟩ sh)) :
    delivered ⟨o, r⟩ = [] := by
  by_contra hne
  have he : (i, (⟨o, r⟩ : Event)) ∈ ((u.put i (.running (k r))).record i ⟨o, r⟩ sh).log := by
    simp
  rcases hv.delivers he hne with rfl | ⟨s, rfl, hs⟩
  · exact hi rfl
  · have hended := h s hs (StageId.exists_of_started (hv.started he))
    rw [running_of_tasks run] at hended
    cases hended

/-- A delivery is one event. -/
theorem deliveredTypes_singleton {x : EventType} (h : x ∈ deliveredTypes [e]) :
    deliveredTypes [e] = [x] := by
  rcases e with ⟨o, r⟩
  cases o
  case onEvent event =>
    obtain rfl := List.mem_singleton.mp h
    rfl
  all_goals cases h

/-- `run()` delivers an event, or does something else. -/
theorem Final.main {u v : PipelineWorld} (h : EndDelivered u → Final config u)
    (hquiet : Quiet config v) (hlog : v.log = u.log ++ [(.main, e)])
    (hord : ¬ EndDelivered u → ∀ x ∈ typesOf u, x.ordinary)
    (hmain : ¬ EndDelivered u → ∀ x ∈ deliveredTypes (traceOf .main u.log), x.ordinary)
    (hend : EndDelivered v) : Final config v := by
  have htypes : typesOf v = typesOf u ++ deliveredTypes [e] := by
    simp [typesOf, deliveredTypes, World.proj, hlog]
  have htrace : deliveredTypes (traceOf .main v.log) =
      deliveredTypes (traceOf .main u.log) ++ deliveredTypes [e] := by
    rw [hlog, traceOf_snoc_self, deliveredTypes_append]
  refine ⟨hquiet, ?_⟩
  by_cases hended : EndDelivered u
  · obtain ⟨m, m', rest, hm, hm', hu, hu'⟩ := (h hended).last
    refine ⟨m, m', rest ++ deliveredTypes [e], hm, hm', ?_, ?_⟩
    · rw [htypes, hu, List.append_assoc, List.cons_append]
    · rw [htrace, hu', List.append_assoc, List.cons_append]
  · have hnow : EventType.pipelineEnd ∈ deliveredTypes [e] := by
      rw [EndDelivered, htrace] at hend
      exact (List.mem_append.mp hend).resolve_left hended
    refine ⟨typesOf u, deliveredTypes (traceOf .main u.log), [], hord hended, hmain hended, ?_, ?_⟩
    · rw [htypes, deliveredTypes_singleton hnow]
    · rw [htrace, deliveredTypes_singleton hnow]

/-- **Steps that await the end** let no event come after it. -/
theorem AwaitedRun.final (hreg : Registered config) (h : AwaitedRun config outside w) :
    EndDelivered w → Final config w := by
  induction h with
  | refl =>
    intro hend
    cases hend
  | @tail u v hu hs ih =>
    obtain ⟨hstep, hawait⟩ := hs
    have hrun : Running config outside u := AwaitedRun.running hu
    have hv : Running config outside v := hrun.tail hstep
    have hmono := fun i o (hi : u.outcome i = some o) => hstep.outcome_mono hi
    cases hstep with
    | @perform i o k r sh run handled admitted _ =>
      intro hend
      have hquiet : Quiet config u := by
        by_cases hended : EndDelivered u
        · exact (ih hended).quiet
        · exact hawait hended hend
      by_cases hi : i = .main
      · subst hi
        refine Final.main ih (hquiet.mono hmono) rfl (hrun.types_ordinary hreg) ?_ hend
        intro hended
        obtain ⟨types, htypes, hpre⟩ := hrun.main_closing hreg
        exact htypes.before_end hpre hended
      · have hsilent := hquiet.silent hi run hv
        have hmain : traceOf .main (u.log ++ [(i, (⟨o, r⟩ : Event))]) = traceOf .main u.log :=
          traceOf_snoc_ne hi _ _
        have hended : EndDelivered u := by
          rw [EndDelivered, ← hmain]
          exact hend
        obtain ⟨m, m', rest, hm, hm', htypes, htrace⟩ := (ih hended).last
        have hsame : typesOf ((u.put i (.running (k r))).record i ⟨o, r⟩ sh) = typesOf u := by
          simp [typesOf, hsilent]
        exact ⟨hquiet.mono hmono, m, m', rest, hm, hm', hsame.trans htypes,
          (congrArg deliveredTypes hmain).trans htrace⟩
    | unroll | finish | panic => exact fun hend => (ih hend).own rfl hmono
    | env => exact fun hend => (ih hend).own rfl hmono

/-- The events of the stages and of `run()`, as far as they have come. -/
theorem AwaitedRun.closing (hreg : Registered config) (h : AwaitedRun config outside w) :
    ∃ types, Closing types ∧ typesOf w <+: types ∧
      ((w.outcome .main).isSome → typesOf w = types) := by
  obtain ⟨types, htypes, hpre⟩ := h.running.main_closing hreg
  have hreturned : (w.outcome .main).isSome → Closing (deliveredTypes (traceOf .main w.log)) := by
    intro hmain
    obtain ⟨o | -, ho⟩ := Option.isSome_iff_exists.mp hmain
    · exact closing_runStarted hreg (h.running.run rfl ho)
    · exact absurd ho (h.running.not_panicked id)
  by_cases hend : EndDelivered w
  · obtain ⟨m, m', rest, hm, hm', hw, hmain⟩ := (h.final hreg hend).last
    have hclosing : Closing (m ++ [.pipelineEnd, .statsReport]) := ⟨m, hm, rfl⟩
    rw [hmain] at hpre hreturned
    obtain ⟨⟨z, hz⟩, -⟩ := htypes.after_end hm' hpre
    refine ⟨_, hclosing, ⟨z, by rw [hw, List.append_assoc, List.cons_append, hz]⟩, fun hret => ?_⟩
    obtain ⟨-, hrest⟩ := (hreturned hret).after_end hm' (List.prefix_refl _)
    rw [hw, hrest rfl]
  · refine ⟨typesOf w ++ [.pipelineEnd, .statsReport], ⟨_, h.running.types_ordinary hreg hend, rfl⟩,
      List.prefix_append _ _, fun hret => absurd ?_ hend⟩
    obtain ⟨m, -, hm⟩ := hreturned hret
    rw [EndDelivered, hm]
    simp

/-! ### Refused runs -/

/-- A refused run is `run()` alone. -/
theorem refused_types {error : Error} (h : (pipeline config outside).Reachable (refuse config error) w) :
    typesOf w = deliveredTypes (traceOf .main w.log) := by
  have hcode := Machine.Reachable.code_eq (fun _ _ _ => rfl) h
  refine congrArg (List.map EventData.eventType) (World.proj_eq_projOf ?_)
  rintro ⟨i, e⟩ he hi
  have hnone : w.code i = none := (congrFun hcode i).trans (if_neg hi)
  have hmem := mem_traceOf.mpr he
  rw [h.traceOf_eq_nil (refuse_initial config error) hnone] at hmem
  cases hmem

theorem refused_closing (hreg : Registered config) {error : Error}
    (h : (pipeline config outside).Reachable (refuse config error) w) :
    ∃ types, Closing types ∧ typesOf w <+: types ∧
      ((w.outcome .main).isSome → typesOf w = types) := by
  have hcode : w.code .main = some (runRefused config error) :=
    congrFun (Machine.Reachable.code_eq (fun _ _ _ => rfl) h) .main
  rw [refused_types h]
  obtain ⟨types, htypes, hpre⟩ := closing_of_part (runRefused_straight config error).loopFree
    (fun _ _ => closing_runRefused hreg) (h.part (refuse_initial config error) hcode)
  by_cases hret : (w.outcome .main).isSome
  · obtain ⟨o | -, ho⟩ := Option.isSome_iff_exists.mp hret
    · have hrun := h.run (refuse_initial config error) hcode ho
      exact ⟨_, closing_runRefused hreg hrun, List.prefix_refl _, fun _ => rfl⟩
    · exact (h.mayPanic (refuse_initial config error) ho).elim
  · exact ⟨types, htypes, hpre, fun h => absurd h hret⟩

/-! ### The events of a pipeline -/

namespace Api

/-- The types of the events the callback got. -/
def types (s : Api) : List EventType :=
  deliveredTypes s.opening ++
    match s.run with
    | .notCalled => []
    | .refused _ w | .started _ _ w => typesOf w

/-- `run()` has returned. -/
def Returned (s : Api) : Prop :=
  match s.run with
  | .notCalled => False
  | .refused _ w | .started _ _ w => (w.outcome .main).isSome

/-- The step from `s` to `s'` does not deliver PIPELINE_END too early. -/
def Awaits (s s' : Api) : Prop :=
  ∀ c calls u v, s.run = .started c calls u → s'.run = .started c calls v → S3rm.Awaits c u v

/-- The states such steps can bring a new pipeline to. -/
def AwaitedReachable (outside : Outside) (config : Config) (s : Api) : Prop :=
  Relation.ReflTransGen (fun s s' => Step outside s s' ∧ s.Awaits s') (new config) s

variable {s s' : Api}

theorem AwaitedReachable.reachable (h : AwaitedReachable outside config s) :
    Reachable outside config s := by
  induction h with
  | refl => exact .refl
  | tail _ hs ih => exact ih.tail hs.1

/-- What holds of a pipeline all of whose steps await the end. -/
structure AwaitedInv (outside : Outside) (s : Api) : Prop where
  opening : s.run = .notCalled ∧ s.opening = [] ∨ deliveredTypes s.opening = [.pipelineStart]
  refused : ∀ c w, s.run = .refused c w →
    Registered c ∧ ∃ error, (pipeline c outside).Reachable (S3rm.refuse c error) w
  started : ∀ c calls w, s.run = .started c calls w → Registered c ∧ AwaitedRun c outside w

theorem AwaitedInv.opened (h : AwaitedInv outside s) (hrun : s.run ≠ .notCalled) :
    deliveredTypes s.opening = [.pipelineStart] :=
  h.opening.resolve_left fun hnot => hrun hnot.1

theorem Opens.types {opening : Trace} (hreg : Registered s.config) (h : s.Opens opening) :
    deliveredTypes opening = [.pipelineStart] := deliveredTypes_triggerEvent hreg h

theorem AwaitedInv.checked (h : AwaitedInv outside s) (call : CheckCall) :
    AwaitedInv outside (s.checked call) := by
  rcases call with ⟨t, error | c⟩
  · exact ⟨h.opening, h.refused, h.started⟩
  · exact ⟨h.opening, h.refused, h.started⟩

theorem AwaitedInv.start {opening : Trace} (hreg : Registered s.config)
    (hopening : deliveredTypes opening = [.pipelineStart]) :
    AwaitedInv outside (s.start opening) := by
  refine ⟨.inr hopening, ?_, ?_⟩
  · intro c w hrun
    cases hrun
  · intro c calls w hrun
    cases hrun
    exact ⟨hreg, .refl⟩

theorem AwaitedInv.refuse {opening : Trace} (hreg : Registered s.config)
    (hopening : deliveredTypes opening = [.pipelineStart]) (error : Error) :
    AwaitedInv outside (s.refuse opening error) := by
  refine ⟨.inr hopening, ?_, ?_⟩
  · intro c w hrun
    cases hrun
    exact ⟨hreg, error, .refl⟩
  · intro c calls w hrun
    cases hrun

/-- **Every call and every step that awaits the end keeps it.** -/
theorem AwaitedInv.step (h : AwaitedInv outside s) (hreg : Registered s.config)
    (hreg' : Registered s'.config) (hs : Step outside s s') (hawait : s.Awaits s') :
    AwaitedInv outside s' := by
  cases hs with
  | check => exact h.checked _
  | runChecked _ _ opens => exact .start hreg (opens.types hreg)
  | runPassed _ _ opens => exact .start hreg' (opens.types hreg)
  | runRefused _ _ opens => exact .refuse hreg' (opens.types hreg) _
  | stages at_ step =>
    refine ⟨.inr (h.opened (at_ ▸ nofun)), ?_, ?_⟩
    · intro c w hrun
      cases hrun
    · intro c calls w hrun
      cases hrun
      obtain ⟨hreg', hrun'⟩ := h.started _ _ _ at_
      exact ⟨hreg', hrun'.tail ⟨step, hawait _ _ _ _ at_ rfl⟩⟩
  | ending at_ step =>
    refine ⟨.inr (h.opened (at_ ▸ nofun)), ?_, ?_⟩
    · intro c w hrun
      cases hrun
      obtain ⟨hreg', error, hreach⟩ := h.refused _ _ at_
      exact ⟨hreg', error, hreach.tail step⟩
    · intro c calls w hrun
      cases hrun

/-- A registered callback stays registered. -/
theorem Reachable.registered (h : Reachable outside config s) (hreg : Registered config) :
    Registered s.config := by
  rw [h.inv.options]
  exact ⟨hreg.callback, hreg.all⟩

theorem AwaitedReachable.inv (hreg : Registered config) (h : AwaitedReachable outside config s) :
    AwaitedInv outside s := by
  induction h with
  | refl =>
    refine ⟨.inl ⟨rfl, rfl⟩, ?_, ?_⟩
    · intro c w hrun
      cases hrun
    · intro c calls w hrun
      cases hrun
  | @tail u v hu hs ih =>
    have hreach : Reachable outside config u := reachable hu
    exact ih.step (hreach.registered hreg) (Reachable.registered (hreach.tail hs.1) hreg) hs.1 hs.2

end Api

/-- **The completion events come last**, in every life of a pipeline whose
steps all await the end: PIPELINE_START comes first, and when `run()` returns,
PIPELINE_END and STATS_REPORT are the last there are, then and ever after. -/
theorem completion_last {s : Api} (hreg : Registered config)
    (h : Api.AwaitedReachable outside config s) :
    ∃ m : List EventType, (∀ x ∈ m, x.ordinary) ∧
      s.types <+: .pipelineStart :: (m ++ [.pipelineEnd, .statsReport]) ∧
      (s.Returned → s.types = .pipelineStart :: (m ++ [.pipelineEnd, .statsReport])) := by
  have hinv := h.inv hreg
  have hclosing : ∀ w : PipelineWorld, deliveredTypes s.opening = [.pipelineStart] →
      (∃ types, Closing types ∧ typesOf w <+: types ∧
        ((w.outcome .main).isSome → typesOf w = types)) →
      ∃ m : List EventType, (∀ x ∈ m, x.ordinary) ∧
        deliveredTypes s.opening ++ typesOf w <+:
          .pipelineStart :: (m ++ [.pipelineEnd, .statsReport]) ∧
        ((w.outcome .main).isSome → deliveredTypes s.opening ++ typesOf w =
          .pipelineStart :: (m ++ [.pipelineEnd, .statsReport])) := by
    rintro w hopening ⟨_, ⟨m, hm, rfl⟩, hpre, hret⟩
    rw [hopening]
    exact ⟨m, hm, (List.prefix_append_right_inj [_]).mpr hpre,
      fun h => congrArg (List.cons EventType.pipelineStart) (hret h)⟩
  rcases hrun : s.run with - | ⟨c, w⟩ | ⟨c, calls, w⟩
  · refine ⟨[], by simp, ?_, ?_⟩
    · simp only [Api.types, hrun, List.append_nil, List.nil_append]
      rcases hinv.opening with ⟨-, hopening⟩ | hopening
      · rw [hopening]
        exact List.nil_prefix
      · rw [hopening]
        exact List.prefix_append [_] _
    · simp [Api.Returned, hrun]
  · obtain ⟨hreg', error, hreach⟩ := hinv.refused c w hrun
    simpa only [Api.types, Api.Returned, hrun] using
      hclosing w (hinv.opened (hrun ▸ nofun)) (refused_closing hreg' hreach)
  · obtain ⟨hreg', hrun'⟩ := hinv.started c calls w hrun
    simpa only [Api.types, Api.Returned, hrun] using
      hclosing w (hinv.opened (hrun ▸ nofun)) (hrun'.closing hreg')

/-! ### Schedules that await the end -/

theorem EndDelivered.mono {v : PipelineWorld} (h : EndDelivered w)
    (hs : (pipeline config outside).Step w v) : EndDelivered v := by
  have hpre : traceOf .main w.log <+: traceOf .main v.log := hs.log_isPrefix.filterMap _
  exact ((hpre.flatMap delivered).map EventData.eventType).subset h

/-- Until PIPELINE_END is delivered, no step delivers it too early. -/
theorem AwaitedRun.exec_before {respond : PipelineWorld → TaskId → (o : Op) → Option (Resp o)}
    (hr : ∀ w i o r, respond w i o = some r → outside.admits ⟨o, r⟩) (is : List TaskId)
    (h : AwaitedRun config outside w)
    (hnot : ¬ EndDelivered ((pipeline config outside).exec respond w is)) :
    AwaitedRun config outside ((pipeline config outside).exec respond w is) := by
  refine h.trans (Machine.exec_steps (M := pipeline config outside) hr w is fun u v _ _ hv _ hend => ?_)
  exact absurd (hv.invariant (P := EndDelivered) (fun _ _ _ hu hs => hu.mono hs) hend) hnot

/-- Once filters and workers have ended, none does. -/
theorem AwaitedRun.exec_quiet {respond : PipelineWorld → TaskId → (o : Op) → Option (Resp o)}
    (hr : ∀ w i o r, respond w i o = some r → outside.admits ⟨o, r⟩) (is : List TaskId)
    (h : AwaitedRun config outside w) (hquiet : Quiet config w) :
    AwaitedRun config outside ((pipeline config outside).exec respond w is) :=
  h.trans (Machine.exec_steps (M := pipeline config outside) hr w is fun _ _ hu _ _ _ _ =>
    hu.invariant (P := Quiet config) (fun _ _ _ hx hy => hx.mono fun _ _ ho => hy.outcome_mono ho)
      hquiet)

/-! ### Two runs of a filter that rejects -/

def rejectingConfig : Config where
  workerSize := 1
  filterConfig := { largerSize := some 4 }
  eventManager := { callbackRegistered := true }
  force := true

theorem rejectingConfig_registered : Registered rejectingConfig := ⟨rfl, fun _ => rfl⟩

def rejectingOpening : Trace :=
  [⟨.updatePipelineStats (EventData.new .pipelineStart), ()⟩,
    ⟨.onEvent (EventData.new .pipelineStart), ()⟩]

/-- A pipeline whose `run()` has checked and goes on to the stages. -/
def rejectingStart : Api :=
  ((Api.new rejectingConfig).checked ⟨[], .ok rejectingConfig⟩).start rejectingOpening

theorem rejectingStart_step (outside : Outside) :
    Api.Step outside (Api.new rejectingConfig) rejectingStart :=
  .runPassed trivial rfl ⟨(), _, rfl, (), _, rfl, rfl, rfl⟩ rfl ⟨rfl, rfl⟩

def strayScript : Script where
  listing := [.object (sampleObject "a" 3), .subListingFailed (.other "timeout"), .finished (.ok ())]

/-- The filter has received an object when a sub-listing fails; the worker and
the terminator end, `run()` returns, and then the filter goes on. -/
def strayRun : PipelineWorld :=
  strayScript.run rejectingConfig strayScript.outside
    (List.replicate 3 (.stage .lister) ++ List.replicate 3 (.stage (.filter 0)) ++
      List.replicate 20 (.stage .lister) ++ List.replicate 20 (.stage (.worker 0)) ++
      List.replicate 20 .terminator ++ List.replicate 20 .main ++
      List.replicate 20 (.stage (.filter 0)))

def strayApi : Api :=
  { rejectingStart with
    run := .started rejectingConfig [⟨[], .ok rejectingConfig⟩] strayRun }

theorem strayApi_reachable : Api.Reachable strayScript.outside rejectingConfig strayApi := by
  have hstart : Api.Reachable strayScript.outside rejectingConfig rejectingStart :=
    .single (rejectingStart_step _)
  exact hstart.stages rfl (Script.running (fun _ _ _ => Script.agrees) _)

/-- **The completion events need not come last**: the filter reports the object
it has rejected after `run()` has returned. -/
theorem event_after_end :
    ¬ ∀ (config : Config) (outside : Outside) (s : Api), Registered config →
      Api.Reachable outside config s → ∃ m : List EventType, (∀ x ∈ m, x.ordinary) ∧
        s.types <+: .pipelineStart :: (m ++ [.pipelineEnd, .statsReport]) := by
  intro hlast
  obtain ⟨m, hm, hpre⟩ := hlast _ _ _ rejectingConfig_registered strayApi_reachable
  have htypes : strayApi.types = .pipelineStart ::
      ([.deleteCancel] ++ .pipelineEnd :: [.statsReport, .deleteFiltered]) := by decide +kernel
  rw [htypes, List.prefix_cons_inj] at hpre
  obtain ⟨hrest, -⟩ := Closing.after_end ⟨m, hm, rfl⟩ (by simp [EventType.ordinary]) hpre
  exact absurd hrest.length_le (by decide)

/-- What the stages do step by step, the API does. -/
theorem Api.AwaitedReachable.stages {s : Api} {calls : List CheckCall} {c : Config}
    (h : Api.AwaitedReachable outside config s) (at_ : s.run = .started c calls (S3rm.start c))
    (hw : AwaitedRun c outside w) :
    Api.AwaitedReachable outside config { s with run := .started c calls w } := by
  induction hw with
  | refl =>
    rw [← at_]
    exact h
  | tail _ hs ih =>
    refine ih.tail ⟨.stages rfl hs.1, ?_⟩
    intro c' calls' u v hu hv
    cases hu
    cases hv
    exact hs.2

/-- Nothing fails, and all stages end before `run()` takes a step. -/
def calmScript : Script where
  listing := [.object (sampleObject "a" 3), .finished (.ok ())]

def quietRun : PipelineWorld :=
  calmScript.run rejectingConfig calmScript.outside
    (roundRobin rejectingConfig 40 |>.filter (· ≠ .main))

def calmRun : PipelineWorld :=
  (pipeline rejectingConfig calmScript.outside).exec
    (fun w _ o => calmScript.respond rejectingConfig w o) quietRun (List.replicate 20 .main)

theorem quietRun_awaited : AwaitedRun rejectingConfig calmScript.outside quietRun := by
  have hnot : ¬ EndDelivered quietRun := by
    unfold EndDelivered
    decide +kernel
  exact AwaitedRun.exec_before (fun _ _ _ _ => Script.agrees) _ .refl hnot

theorem quietRun_quiet : Quiet rejectingConfig quietRun := by
  rintro (_ | n | n) hne hs
  · exact absurd rfl hne
  · obtain rfl : n = 0 := Nat.lt_one_iff.mp (of_decide_eq_true hs)
    decide +kernel
  · obtain rfl : n = 0 := Nat.lt_one_iff.mp (of_decide_eq_true hs)
    decide +kernel

theorem calmRun_awaited : AwaitedRun rejectingConfig calmScript.outside calmRun :=
  quietRun_awaited.exec_quiet (fun _ _ _ _ => Script.agrees) _ quietRun_quiet

def calmApi : Api :=
  { rejectingStart with run := .started rejectingConfig [⟨[], .ok rejectingConfig⟩] calmRun }

theorem calmApi_reachable : Api.AwaitedReachable calmScript.outside rejectingConfig calmApi := by
  have hawaits : (Api.new rejectingConfig).Awaits rejectingStart := by
    intro c calls u v hu
    cases hu
  have hstart : Api.AwaitedReachable calmScript.outside rejectingConfig rejectingStart :=
    .single ⟨rejectingStart_step _, hawaits⟩
  exact hstart.stages rfl calmRun_awaited

/-- `completion_last` on that run. -/
theorem completion_last_calmRun :
    calmApi.types = [.pipelineStart, .deleteFiltered, .pipelineEnd, .statsReport] ∧
      ∃ m : List EventType, (∀ x ∈ m, x.ordinary) ∧
        calmApi.types = .pipelineStart :: (m ++ [.pipelineEnd, .statsReport]) := by
  obtain ⟨m, hm, -, hreturned⟩ := completion_last rejectingConfig_registered calmApi_reachable
  have hmain : (calmRun.outcome .main).isSome := by decide +kernel
  exact ⟨by decide +kernel, m, hm, hreturned hmain⟩

end S3rm
