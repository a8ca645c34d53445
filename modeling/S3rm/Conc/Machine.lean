/-
S3rm/Conc/Machine.lean

A machine runs many task programs (`Conc.Prog`) against one shared state, one
operation of one task at a time, in any order.  Which response an operation can
have is decided by the shared state (`handle`) and, for what comes from outside,
by `admits`; a task may start others (`spawn`), and what it owned is given back
when it ends (`retire`).

The log records every operation in the order it took effect.  The two facts the
rest is built on:

    Reachable.follows     every task's part of the log is a trace of its program
    Reachable.invariant   what holds at the start and is kept by every step
                          holds in every reachable world

so a statement about all interleavings is assembled from facts about each
program's own traces and invariants of the shared state.  `exec` runs a machine
on an explicit schedule; `exec_sound` turns its results into reachable worlds.
-/
import S3rm.Conc.Prog
import Mathlib.Algebra.BigOperators.Group.Finset.Basic
import Mathlib.Algebra.BigOperators.Pi
import Mathlib.Algebra.Order.Group.Multiset
import Mathlib.Data.Multiset.Basic
import Mathlib.Logic.Function.Basic

namespace Conc

/-- What became of a task. -/
inductive Outcome (ρ : Type) where
  | done (r : ρ)
  | panicked
  deriving DecidableEq, Repr

/-- Where a task is. -/
inductive TaskState (Op : Type) (Resp : Op → Type) (ρ : Type) : Type 1
  | idle
  | running (p : Prog Op Resp ρ)
  | finished (o : Outcome ρ)

/-- A system of tasks `ι` over the shared state `σ`, all returning `ρ`. -/
structure Machine (ι : Type) (Op : Type) (Resp : Op → Type) (ρ σ : Type) where
  /-- The shared state after task `i` got response `r` to `o`; `none` when it cannot. -/
  handle : (ι → Option (Outcome ρ)) → ι → σ → (o : Op) → Resp o → Option σ
  /-- Responses the outside may give. -/
  admits : Ev Op Resp → Prop
  /-- The task an operation starts. -/
  spawn : ι → σ → Op → Option (ι × Prog Op Resp ρ)
  /-- What a task's end does to the shared state. -/
  retire : ι → Outcome ρ → σ → σ
  /-- Tasks that may panic. -/
  mayPanic : ι → Prop
  /-- Steps of the outside. -/
  env : σ → σ → Prop

/-- A state of the whole system, with its history: the program each task was
started with and the log of all operations. -/
structure World (ι : Type) (Op : Type) (Resp : Op → Type) (ρ σ : Type) where
  tasks : ι → TaskState Op Resp ρ
  code : ι → Option (Prog Op Resp ρ)
  shared : σ
  log : List (ι × Ev Op Resp)

variable {ι Op ρ σ : Type} {Resp : Op → Type}

namespace World

/-- What became of task `i`, once it has ended. -/
def outcome (w : World ι Op Resp ρ σ) (i : ι) : Option (Outcome ρ) :=
  match w.tasks i with
  | .finished o => some o
  | _ => none

/-- Note an operation of task `i` in the log, with the shared state it left. -/
def record (w : World ι Op Resp ρ σ) (i : ι) (e : Ev Op Resp) (sh : σ) : World ι Op Resp ρ σ :=
  { w with shared := sh, log := w.log ++ [(i, e)] }

/-- The same system with another shared state. -/
def withShared (w : World ι Op Resp ρ σ) (sh : σ) : World ι Op Resp ρ σ := { w with shared := sh }

/-- The task may be started: it has not been before. -/
def Startable (w : World ι Op Resp ρ σ) : Option (ι × Prog Op Resp ρ) → Prop
  | none => True
  | some (j, _) => w.tasks j = .idle

/-- Task `i` has asked for `o`, or is about to. -/
def Issued (w : World ι Op Resp ρ σ) (i : ι) (o : Op) : Prop :=
  (∃ r, (i, ⟨o, r⟩) ∈ w.log) ∨ ∃ k, w.tasks i = .running (.op o k)

/-- Nothing has happened yet: every task is idle or about to run its program. -/
structure Initial (w : World ι Op Resp ρ σ) : Prop where
  log : w.log = []
  tasks : ∀ i, (w.code i = none ∧ w.tasks i = .idle) ∨
    ∃ p, w.code i = some p ∧ w.tasks i = .running p

/-- The values a projection of events picks out of the log, in order. -/
def proj {β : Type} (f : Ev Op Resp → List β) (w : World ι Op Resp ρ σ) : List β :=
  w.log.flatMap fun e => f e.2

section fields

variable (w : World ι Op Resp ρ σ) (i : ι) (e : Ev Op Resp) (sh : σ)

@[simp] theorem record_tasks : (w.record i e sh).tasks = w.tasks := rfl
@[simp] theorem record_code : (w.record i e sh).code = w.code := rfl
@[simp] theorem record_shared : (w.record i e sh).shared = sh := rfl
@[simp] theorem record_log : (w.record i e sh).log = w.log ++ [(i, e)] := rfl
@[simp] theorem record_proj {β : Type} (f : Ev Op Resp → List β) :
    (w.record i e sh).proj f = w.proj f ++ f e := by simp [proj, record]
@[simp] theorem withShared_tasks : (w.withShared sh).tasks = w.tasks := rfl
@[simp] theorem withShared_code : (w.withShared sh).code = w.code := rfl
@[simp] theorem withShared_shared : (w.withShared sh).shared = sh := rfl
@[simp] theorem withShared_log : (w.withShared sh).log = w.log := rfl

end fields

end World

variable [DecidableEq ι]

/-- The part of a log that task `i` performed. -/
def traceOf (i : ι) (log : List (ι × Ev Op Resp)) : List (Ev Op Resp) :=
  log.filterMap fun e => if e.1 = i then some e.2 else none

@[simp] theorem traceOf_nil (i : ι) : traceOf i ([] : List (ι × Ev Op Resp)) = [] := rfl

@[simp] theorem traceOf_snoc_self (i : ι) (l : List (ι × Ev Op Resp)) (e : Ev Op Resp) :
    traceOf i (l ++ [(i, e)]) = traceOf i l ++ [e] := by
  simp [traceOf]

theorem traceOf_snoc_ne {i j : ι} (h : j ≠ i) (l : List (ι × Ev Op Resp)) (e : Ev Op Resp) :
    traceOf i (l ++ [(j, e)]) = traceOf i l := by
  simp [traceOf, h]

theorem mem_traceOf {i : ι} {l : List (ι × Ev Op Resp)} {e : Ev Op Resp} :
    e ∈ traceOf i l ↔ (i, e) ∈ l := by
  simp only [traceOf, List.mem_filterMap]
  constructor
  · rintro ⟨⟨j, e'⟩, he, hj⟩
    split at hj
    · rename_i h
      cases hj
      exact h ▸ he
    · cases hj
  · exact fun h => ⟨(i, e), h, by simp⟩

namespace World

/-- Start a task. -/
def launch (w : World ι Op Resp ρ σ) : Option (ι × Prog Op Resp ρ) → World ι Op Resp ρ σ
  | none => w
  | some (j, p) =>
    { w with tasks := Function.update w.tasks j (.running p),
             code := Function.update w.code j (some p) }

/-- Put task `i` in state `x`. -/
def put (w : World ι Op Resp ρ σ) (i : ι) (x : TaskState Op Resp ρ) : World ι Op Resp ρ σ :=
  { w with tasks := Function.update w.tasks i x }

/-- The values a projection picks out of one task's part of the log. -/
def projOf {β : Type} (f : Ev Op Resp → List β) (w : World ι Op Resp ρ σ) (i : ι) : List β :=
  (traceOf i w.log).flatMap f

section fields

variable (w : World ι Op Resp ρ σ) (i : ι) (x : TaskState Op Resp ρ)
  (n : Option (ι × Prog Op Resp ρ))

@[simp] theorem put_tasks : (w.put i x).tasks = Function.update w.tasks i x := rfl
@[simp] theorem put_code : (w.put i x).code = w.code := rfl
@[simp] theorem put_shared : (w.put i x).shared = w.shared := rfl
@[simp] theorem put_log : (w.put i x).log = w.log := rfl
@[simp] theorem put_proj {β : Type} (f : Ev Op Resp → List β) : (w.put i x).proj f = w.proj f := rfl
@[simp] theorem launch_none : w.launch none = w := rfl
@[simp] theorem launch_log : (w.launch n).log = w.log := by rcases n with - | ⟨j, p⟩ <;> rfl
@[simp] theorem launch_shared : (w.launch n).shared = w.shared := by
  rcases n with - | ⟨j, p⟩ <;> rfl
@[simp] theorem launch_some_tasks (j : ι) (p : Prog Op Resp ρ) :
    (w.launch (some (j, p))).tasks = Function.update w.tasks j (.running p) := rfl
@[simp] theorem launch_some_code (j : ι) (p : Prog Op Resp ρ) :
    (w.launch (some (j, p))).code = Function.update w.code j (some p) := rfl

end fields

/-- A task that is put back to run, or started, has not ended. -/
theorem finished_of_put {w : World ι Op Resp ρ σ} {i j : ι} {p : Prog Op Resp ρ} {o : Outcome ρ}
    (h : (w.put i (.running p)).tasks j = .finished o) : w.tasks j = .finished o := by
  by_cases hij : j = i
  · subst hij
    simp at h
  · simpa [hij] using h

theorem finished_of_launch {w : World ι Op Resp ρ σ} {n : Option (ι × Prog Op Resp ρ)} {j : ι}
    {o : Outcome ρ} (h : (w.launch n).tasks j = .finished o) : w.tasks j = .finished o := by
  rcases n with - | ⟨i, p⟩
  · exact h
  · exact finished_of_put h

end World

namespace Machine

variable (M : Machine ι Op Resp ρ σ)

/-- One step of the system. -/
inductive Step : World ι Op Resp ρ σ → World ι Op Resp ρ σ → Prop
  | perform {w : World ι Op Resp ρ σ} {i : ι} {o : Op} {k : Resp o → Prog Op Resp ρ}
      {r : Resp o} {sh : σ} (run : w.tasks i = .running (.op o k))
      (handled : M.handle w.outcome i w.shared o r = some sh) (admitted : M.admits ⟨o, r⟩)
      (startable : w.Startable (M.spawn i w.shared o)) :
      Step w (((w.put i (.running (k r))).launch (M.spawn i w.shared o)).record i ⟨o, r⟩ sh)
  | unroll {w : World ι Op Resp ρ σ} {i : ι} {σ' τ : Type} {body : σ' → Prog Op Resp (σ' ⊕ τ)}
      {s : σ'} {k : τ → Prog Op Resp ρ} (run : w.tasks i = .running (.iter body s k)) :
      Step w (w.put i (.running (Prog.unroll body s k)))
  | finish {w : World ι Op Resp ρ σ} {i : ι} {a : ρ} (run : w.tasks i = .running (.ret a)) :
      Step w ((w.put i (.finished (.done a))).withShared (M.retire i (.done a) w.shared))
  | panic {w : World ι Op Resp ρ σ} {i : ι} {p : Prog Op Resp ρ} (may : M.mayPanic i)
      (run : w.tasks i = .running p) :
      Step w ((w.put i (.finished .panicked)).withShared (M.retire i .panicked w.shared))
  | env {w : World ι Op Resp ρ σ} {sh : σ} (h : M.env w.shared sh) :
      Step w (w.withShared sh)

/-- Task `i` can go on by itself: it has something to do on its own, or its
operation can be answered now.  Panics do not count. -/
inductive Ready (w : World ι Op Resp ρ σ) (i : ι) : Prop
  | perform {o : Op} {k : Resp o → Prog Op Resp ρ} {r : Resp o} {sh : σ}
      (run : w.tasks i = .running (.op o k))
      (handled : M.handle w.outcome i w.shared o r = some sh) (admitted : M.admits ⟨o, r⟩)
      (startable : w.Startable (M.spawn i w.shared o)) : Ready w i
  | unroll {σ' τ : Type} {body : σ' → Prog Op Resp (σ' ⊕ τ)} {s : σ'} {k : τ → Prog Op Resp ρ}
      (run : w.tasks i = .running (.iter body s k)) : Ready w i
  | finish {a : ρ} (run : w.tasks i = .running (.ret a)) : Ready w i

/-- `w'` can come about from `w`. -/
def Reachable : World ι Op Resp ρ σ → World ι Op Resp ρ σ → Prop :=
  Relation.ReflTransGen M.Step

variable {M}

/-- **The invariant rule for machines.** -/
theorem Reachable.invariant {P : World ι Op Resp ρ σ → Prop} {w w' : World ι Op Resp ρ σ}
    (step : ∀ u v, M.Reachable w u → P u → M.Step u v → P v) (h : M.Reachable w w') (h₀ : P w) :
    P w' := by
  induction h with
  | refl => exact h₀
  | tail hr hs ih => exact step _ _ hr ih hs

end Machine

/-! ### Every task follows its program -/

/-- `q` is what is left of `p` after the trace `t`. -/
def Residual (p : Prog Op Resp ρ) (t : List (Ev Op Resp)) (q : Prog Op Resp ρ) : Prop :=
  (∀ u a, q.Run u a → p.Run (t ++ u) a) ∧ (∀ u, q.Part u → p.Part (t ++ u)) ∧
    ∀ φ : Op → Prop, p.Uses φ → q.Uses φ

theorem Residual.refl (p : Prog Op Resp ρ) : Residual p [] p :=
  ⟨fun _ _ h => h, fun _ h => h, fun _ h => h⟩

theorem Residual.op {p : Prog Op Resp ρ} {t : List (Ev Op Resp)} {o : Op}
    {k : Resp o → Prog Op Resp ρ} (h : Residual p t (.op o k)) (r : Resp o) :
    Residual p (t ++ [⟨o, r⟩]) (k r) := by
  refine ⟨fun u a hu => ?_, fun u hu => ?_, fun φ hφ => (h.2.2 φ hφ).2 r⟩
  · simpa using h.1 _ a ⟨r, u, rfl, hu⟩
  · simpa using h.2.1 _ (.inr ⟨r, u, rfl, hu⟩)

theorem Prog.Uses.unroll {σ' τ : Type} {body : σ' → Prog Op Resp (σ' ⊕ τ)} {s : σ'}
    {k : τ → Prog Op Resp ρ} {φ : Op → Prop} (h : (Prog.iter body s k).Uses φ) :
    (Prog.unroll body s k).Uses φ := by
  refine Prog.Uses.bind (h.1 s) ?_
  rintro (s' | c)
  · exact h
  · exact h.2 c

theorem Residual.unroll {p : Prog Op Resp ρ} {t : List (Ev Op Resp)} {σ' τ : Type}
    {body : σ' → Prog Op Resp (σ' ⊕ τ)} {s : σ'} {k : τ → Prog Op Resp ρ}
    (h : Residual p t (.iter body s k)) : Residual p t (Prog.unroll body s k) :=
  ⟨fun u a hu => h.1 u a (Prog.run_unroll hu), fun u hu => h.2.1 u (Prog.part_unroll hu),
    fun φ hφ => (h.2.2 φ hφ).unroll⟩

/-- The state of a task agrees with its program and what it has done. -/
def TaskState.Follows (p : Prog Op Resp ρ) (t : List (Ev Op Resp)) : TaskState Op Resp ρ → Prop
  | .idle => False
  | .running q => Residual p t q
  | .finished (.done a) => p.Run t a
  | .finished .panicked => p.Part t

/-- What `World` invariants say about one task. -/
def World.TaskOk (w : World ι Op Resp ρ σ) (i : ι) : Prop :=
  match w.code i with
  | none => w.tasks i = .idle ∧ traceOf i w.log = []
  | some p => (w.tasks i).Follows p (traceOf i w.log)

theorem World.TaskOk.congr {w w' : World ι Op Resp ρ σ} {i : ι} (h : w.TaskOk i)
    (hc : w'.code i = w.code i) (ht : w'.tasks i = w.tasks i)
    (hl : traceOf i w'.log = traceOf i w.log) : w'.TaskOk i := by
  unfold World.TaskOk at *
  rw [hc, ht, hl]
  exact h

/-- A running task has a program, and the rest of it is what remains to run. -/
theorem World.TaskOk.residual {w : World ι Op Resp ρ σ} {i : ι} (h : w.TaskOk i)
    {q : Prog Op Resp ρ} (hq : w.tasks i = .running q) :
    ∃ p, w.code i = some p ∧ Residual p (traceOf i w.log) q := by
  unfold World.TaskOk at h
  split at h
  · simp [hq] at h
  · rename_i p hp
    rw [hq] at h
    exact ⟨p, hp, h⟩

theorem World.TaskOk.of_code {w : World ι Op Resp ρ σ} {i : ι} {p : Prog Op Resp ρ}
    (hp : w.code i = some p) (h : (w.tasks i).Follows p (traceOf i w.log)) : w.TaskOk i := by
  unfold World.TaskOk
  rw [hp]
  exact h

namespace Machine

variable {M : Machine ι Op Resp ρ σ}

theorem Step.taskOk {w w' : World ι Op Resp ρ σ} (hw : ∀ i, w.TaskOk i) (h : M.Step w w') :
    ∀ i, w'.TaskOk i := by
  intro j
  cases h with
  | @perform i o k r sh run handled admitted startable =>
    obtain ⟨p, hp, hres⟩ := (hw i).residual run
    rcases hsp : M.spawn i w.shared o with - | ⟨j', q⟩
    · by_cases hj : j = i
      · subst hj
        exact .of_code (p := p) (by simpa using hp) (by simpa [TaskState.Follows] using hres.op r)
      · exact (hw j).congr rfl (by simp [hj]) (traceOf_snoc_ne (Ne.symm hj) _ _)
    · have hidle : w.tasks j' = .idle := by simpa [hsp, World.Startable] using startable
      have hne : i ≠ j' := by
        rintro rfl
        simp [run] at hidle
      by_cases hj' : j = j'
      · subst hj'
        have hnil : traceOf j w.log = [] := by
          have := hw j
          unfold World.TaskOk at this
          split at this
          · exact this.2
          · rw [hidle] at this
            exact this.elim
        refine .of_code (p := q) (by simp) ?_
        simpa [traceOf_snoc_ne hne, hnil, TaskState.Follows] using Residual.refl q
      · by_cases hj : j = i
        · subst hj
          refine .of_code (p := p) (by simpa [hj'] using hp) ?_
          simpa [hj', TaskState.Follows] using hres.op r
        · exact (hw j).congr (by simp [hj']) (by simp [hj, hj']) (traceOf_snoc_ne (Ne.symm hj) _ _)
  | @unroll i _ _ body s k run =>
    obtain ⟨p, hp, hres⟩ := (hw i).residual run
    by_cases hj : j = i
    · subst hj
      exact .of_code (p := p) hp (by simpa [TaskState.Follows] using hres.unroll)
    · exact (hw j).congr rfl (by simp [hj]) rfl
  | @finish i a run =>
    obtain ⟨p, hp, hres⟩ := (hw i).residual run
    by_cases hj : j = i
    · subst hj
      exact .of_code (p := p) hp (by simpa [TaskState.Follows] using hres.1 [] a ⟨rfl, rfl⟩)
    · exact (hw j).congr rfl (by simp [hj]) rfl
  | @panic i q may run =>
    obtain ⟨p, hp, hres⟩ := (hw i).residual run
    by_cases hj : j = i
    · subst hj
      exact .of_code (p := p) hp
        (by simpa [TaskState.Follows] using hres.2.1 [] (Prog.part_nil _))
    · exact (hw j).congr rfl (by simp [hj]) rfl
  | env h => exact (hw j).congr rfl rfl rfl

theorem Reachable.taskOk {w₀ w : World ι Op Resp ρ σ} (h₀ : w₀.Initial) (h : M.Reachable w₀ w) :
    ∀ i, w.TaskOk i := by
  refine h.invariant (P := fun w => ∀ i, w.TaskOk i) (fun u v _ hu hs => hs.taskOk hu) ?_
  intro i
  unfold World.TaskOk
  rcases h₀.tasks i with ⟨hc, ht⟩ | ⟨p, hc, ht⟩
  · rw [hc, h₀.log]
    exact ⟨ht, rfl⟩
  · rw [hc, ht, h₀.log]
    exact Residual.refl p

/-- **Every task follows its program**, whatever the interleaving. -/
theorem Reachable.follows {w₀ w : World ι Op Resp ρ σ} (h₀ : w₀.Initial) (h : M.Reachable w₀ w)
    {i : ι} {p : Prog Op Resp ρ} (hp : w.code i = some p) :
    (w.tasks i).Follows p (traceOf i w.log) := by
  have := h.taskOk h₀ i
  unfold World.TaskOk at this
  rwa [hp] at this

theorem Reachable.part {w₀ w : World ι Op Resp ρ σ} (h₀ : w₀.Initial) (h : M.Reachable w₀ w)
    {i : ι} {p : Prog Op Resp ρ} (hp : w.code i = some p) : p.Part (traceOf i w.log) := by
  have := h.follows h₀ hp
  rcases hi : w.tasks i with - | q | (a | -)
  · rw [hi] at this
    exact this.elim
  · rw [hi] at this
    simpa using this.2.1 [] (Prog.part_nil q)
  · rw [hi] at this
    exact Prog.Run.part this
  · rw [hi] at this
    exact this

/-- A task that has returned went through a complete run of its program. -/
theorem Reachable.run {w₀ w : World ι Op Resp ρ σ} (h₀ : w₀.Initial) (h : M.Reachable w₀ w)
    {i : ι} {p : Prog Op Resp ρ} (hp : w.code i = some p) {a : ρ}
    (hi : w.outcome i = some (.done a)) : p.Run (traceOf i w.log) a := by
  have := h.follows h₀ hp
  unfold World.outcome at hi
  split at hi
  · rename_i o ho
    cases hi
    rwa [ho] at this
  · cases hi

/-- A task that was never started has done nothing. -/
theorem Reachable.traceOf_eq_nil {w₀ w : World ι Op Resp ρ σ} (h₀ : w₀.Initial)
    (h : M.Reachable w₀ w) {i : ι} (hi : w.code i = none) : traceOf i w.log = [] := by
  have := h.taskOk h₀ i
  unfold World.TaskOk at this
  rw [hi] at this
  exact this.2

/-- What became of a task does not change. -/
theorem Step.outcome_mono {w w' : World ι Op Resp ρ σ} (h : M.Step w w') {i : ι} {o : Outcome ρ}
    (hi : w.outcome i = some o) : w'.outcome i = some o := by
  have hfin : w.tasks i = .finished o := by
    unfold World.outcome at hi
    split at hi
    · rename_i o' ho'
      cases hi
      exact ho'
    · cases hi
  have key : w'.tasks i = w.tasks i := by
    cases h with
    | @perform j op k r sh run _ _ startable =>
      have hj : i ≠ j := by
        rintro rfl
        simp [run] at hfin
      rcases hsp : M.spawn j w.shared op with - | ⟨l, q⟩
      · simp [hj]
      · have hl : i ≠ l := by
          rintro rfl
          simp [hsp, World.Startable, hfin] at startable
        simp [hj, hl]
    | @unroll j _ _ _ _ _ run | @finish j _ run | @panic j _ _ run =>
      have hj : i ≠ j := by
        rintro rfl
        simp [run] at hfin
      simp [hj]
    | env => rfl
  unfold World.outcome
  rw [key, hfin]

/-- Only tasks that may panic do. -/
theorem Reachable.mayPanic {w₀ w : World ι Op Resp ρ σ} (h₀ : w₀.Initial) (h : M.Reachable w₀ w)
    {i : ι} (hi : w.outcome i = some .panicked) : M.mayPanic i := by
  have key : w.tasks i = .finished .panicked → M.mayPanic i := by
    refine h.invariant (P := fun w => w.tasks i = .finished .panicked → M.mayPanic i) ?_ ?_
    · intro u v _ hP hs hv
      cases hs with
      | @perform j op k r sh run _ _ startable =>
        have hne : ∀ {l : ι} {p : Prog Op Resp ρ},
            Function.update u.tasks l (.running p) i = .finished .panicked →
            u.tasks i = .finished .panicked := by
          intro l p hl
          by_cases hil : i = l
          · subst hil
            simp at hl
          · rwa [Function.update_of_ne hil] at hl
        rcases hsp : M.spawn j u.shared op with - | ⟨l, q⟩
        · rw [hsp] at hv
          exact hP (hne hv)
        · rw [hsp] at hv
          have hput : (u.put j (.running (k r))).tasks i = .finished .panicked := by
            by_cases hil : i = l
            · subst hil
              simp at hv
            · simpa [hil] using hv
          exact hP (hne hput)
      | @unroll j _ _ _ _ _ run =>
        by_cases hij : i = j
        · subst hij
          simp at hv
        · exact hP (by simpa [hij] using hv)
      | @finish j _ run =>
        by_cases hij : i = j
        · subst hij
          simp at hv
        · exact hP (by simpa [hij] using hv)
      | @panic j _ may run =>
        by_cases hij : i = j
        · exact hij ▸ may
        · exact hP (by simpa [hij] using hv)
      | env => exact hP hv
    · intro hw
      rcases h₀.tasks i with ⟨-, ht⟩ | ⟨p, -, ht⟩ <;> simp [ht] at hw
  unfold World.outcome at hi
  split at hi
  · rename_i o ho
    cases hi
    exact key ho
  · cases hi

/-- A task that was started and has not ended is running. -/
theorem Reachable.running_of_outcome {w₀ w : World ι Op Resp ρ σ} (h₀ : w₀.Initial)
    (h : M.Reachable w₀ w) {i : ι} {p : Prog Op Resp ρ} (hp : w.code i = some p)
    (hi : w.outcome i = none) : ∃ q, w.tasks i = .running q := by
  have hfollows := h.follows h₀ hp
  unfold World.outcome at hi
  rcases ht : w.tasks i with - | q | o
  · rw [ht] at hfollows
    exact hfollows.elim
  · exact ⟨q, rfl⟩
  · simp [ht] at hi

/-- What a task is about to ask for, its program uses. -/
theorem Reachable.next_uses {w₀ w : World ι Op Resp ρ σ} (h₀ : w₀.Initial) (h : M.Reachable w₀ w)
    {φ : Op → Prop} {i : ι} {p : Prog Op Resp ρ} (hp : w.code i = some p) (hφ : p.Uses φ) {o : Op}
    {k : Resp o → Prog Op Resp ρ} (hi : w.tasks i = .running (.op o k)) : φ o := by
  obtain ⟨q, hq, hres⟩ := (h.taskOk h₀ i).residual hi
  obtain rfl := Option.some.inj (hp.symm.trans hq)
  exact (hres.2.2 φ hφ).1

/-- A task at its end has gone through a complete run of its program. -/
theorem Reachable.run_of_ret {w₀ w : World ι Op Resp ρ σ} (h₀ : w₀.Initial)
    (h : M.Reachable w₀ w) {i : ι} {p : Prog Op Resp ρ} (hp : w.code i = some p) {a : ρ}
    (hi : w.tasks i = .running (.ret a)) : p.Run (traceOf i w.log) a := by
  obtain ⟨q, hq, hres⟩ := (h.taskOk h₀ i).residual hi
  obtain rfl := Option.some.inj (hp.symm.trans hq)
  simpa using hres.1 [] a ⟨rfl, rfl⟩

/-- The system left to itself: no task panics, and nothing steps but the tasks. -/
def alone (M : Machine ι Op Resp ρ σ) : Machine ι Op Resp ρ σ :=
  { M with mayPanic := fun _ => False, env := fun _ _ => False }

theorem Reachable.of_alone {w w' : World ι Op Resp ρ σ} (h : M.alone.Reachable w w') :
    M.Reachable w w' := by
  induction h with
  | refl => exact .refl
  | tail _ hs ih =>
    refine ih.tail ?_
    cases hs with
    | perform run handled admitted startable => exact .perform run handled admitted startable
    | unroll run => exact .unroll run
    | finish run => exact .finish run
    | panic may run => exact may.elim
    | env h => exact h.elim

theorem Reachable.outcome_mono {w w' : World ι Op Resp ρ σ} (h : M.Reachable w w') {i : ι}
    {o : Outcome ρ} (hi : w.outcome i = some o) : w'.outcome i = some o := by
  induction h with
  | refl => exact hi
  | tail _ hs ih => exact hs.outcome_mono ih

/-- **The moment a task returned**: it was at its end, and has done nothing since. -/
theorem Reachable.returned {w₀ w : World ι Op Resp ρ σ} (h₀ : w₀.Initial) (h : M.Reachable w₀ w)
    {i : ι} {a : ρ} (hi : w.tasks i = .finished (.done a)) :
    ∃ u, M.Reachable w₀ u ∧ u.tasks i = .running (.ret a) ∧ M.Reachable u w ∧
      traceOf i w.log = traceOf i u.log := by
  induction h with
  | refl =>
    rcases h₀.tasks i with ⟨-, ht⟩ | ⟨p, -, ht⟩ <;> rw [ht] at hi <;> cases hi
  | @tail v w hr hs ih =>
    -- the step is the task's return, or the task has returned before
    have hbefore : v.tasks i = .finished (.done a) → traceOf i w.log = traceOf i v.log →
        ∃ u, M.Reachable w₀ u ∧ u.tasks i = .running (.ret a) ∧ M.Reachable u w ∧
          traceOf i w.log = traceOf i u.log := by
      intro hv hlog
      obtain ⟨u, hu, hret, huv, htrace⟩ := ih hv
      exact ⟨u, hu, hret, huv.tail hs, hlog.trans htrace⟩
    cases hs with
    | @perform j o k r sh run _ _ startable =>
      rw [World.record_tasks] at hi
      have hput : (v.put j (.running (k r))).tasks i = .finished (.done a) := by
        rcases hsp : M.spawn j v.shared o with - | ⟨l, q⟩
        · rwa [hsp] at hi
        · rw [hsp] at hi
          by_cases hil : i = l
          · subst hil
            simp at hi
          · simpa [hil] using hi
      by_cases hij : i = j
      · subst hij
        simp at hput
      · refine hbefore (by simpa [hij] using hput) ?_
        rw [World.record_log, World.launch_log, World.put_log, traceOf_snoc_ne (Ne.symm hij)]
    | @unroll j _ _ _ _ _ run =>
      by_cases hij : i = j
      · subst hij
        simp at hi
      · exact hbefore (by simpa [hij] using hi) rfl
    | @finish j b run =>
      by_cases hij : i = j
      · subst hij
        obtain rfl : b = a := by simpa using hi
        exact ⟨v, hr, run, .single (.finish run), rfl⟩
      · exact hbefore (by simpa [hij] using hi) rfl
    | @panic j p _ run =>
      by_cases hij : i = j
      · subst hij
        simp at hi
      · exact hbefore (by simpa [hij] using hi) rfl
    | env => exact hbefore hi rfl

/-- The log only grows. -/
theorem Step.log_isPrefix {w w' : World ι Op Resp ρ σ} (h : M.Step w w') : w.log <+: w'.log := by
  cases h with
  | perform => simp
  | unroll | finish | panic | env => exact List.prefix_refl w.log

theorem Reachable.log_isPrefix {w w' : World ι Op Resp ρ σ} (h : M.Reachable w w') :
    w.log <+: w'.log :=
  h.invariant (P := fun v => w.log <+: v.log) (fun _ _ _ hu hs => hu.trans hs.log_isPrefix)
    (List.prefix_refl _)

theorem Step.proj_subset {β : Type} (f : Ev Op Resp → List β) {w w' : World ι Op Resp ρ σ}
    (h : M.Step w w') : w.proj f ⊆ w'.proj f := by
  obtain ⟨l, hl⟩ := h.log_isPrefix
  unfold World.proj
  rw [← hl, List.flatMap_append]
  exact List.subset_append_left _ _

/-- Every response in the log was admitted. -/
theorem Reachable.admits {w₀ w : World ι Op Resp ρ σ} (h₀ : w₀.Initial) (h : M.Reachable w₀ w) :
    ∀ e ∈ w.log, M.admits e.2 := by
  refine h.invariant (P := fun w => ∀ e ∈ w.log, M.admits e.2) ?_ (by simp [h₀.log])
  intro u v _ hu hs
  cases hs with
  | perform _ _ admitted _ =>
    intro e he
    simp only [World.record_log, World.launch_log, World.put_log, List.mem_append,
      List.mem_singleton] at he
    rcases he with he | rfl
    · exact hu e he
    · exact admitted
  | unroll | finish | panic | env => exact hu

theorem Reachable.admits_traceOf {w₀ w : World ι Op Resp ρ σ} (h₀ : w₀.Initial)
    (h : M.Reachable w₀ w) (i : ι) : ∀ e ∈ traceOf i w.log, M.admits e :=
  fun e he => h.admits h₀ (i, e) (mem_traceOf.mp he)

/-- **What a task has asked for, or is about to**, its program asks for there,
whatever the answer. -/
theorem Reachable.issued {w₀ w : World ι Op Resp ρ σ} (h₀ : w₀.Initial) (h : M.Reachable w₀ w)
    {i : ι} {o : Op} (hi : w.Issued i o) :
    ∃ p, w.code i = some p ∧
      ((∃ r, ⟨o, r⟩ ∈ traceOf i w.log) ∨ ∀ r, p.Part (traceOf i w.log ++ [⟨o, r⟩])) := by
  rcases hi with ⟨r, hr⟩ | ⟨k, hk⟩
  · have hmem := mem_traceOf.mpr hr
    rcases hp : w.code i with - | p
    · rw [h.traceOf_eq_nil h₀ hp] at hmem
      cases hmem
    · exact ⟨p, rfl, .inl ⟨r, hmem⟩⟩
  · obtain ⟨p, hp, hres⟩ := (h.taskOk h₀ i).residual hk
    refine ⟨p, hp, .inr fun r => ?_⟩
    exact hres.2.1 _ (.inr ⟨r, [], rfl, Prog.part_nil _⟩)

/-- Only what the programs use is ever asked for. -/
theorem Reachable.issued_uses {w₀ w : World ι Op Resp ρ σ} (h₀ : w₀.Initial)
    (h : M.Reachable w₀ w) {φ : Op → Prop} (hφ : ∀ i p, w.code i = some p → p.Uses φ) {i : ι} {o : Op}
    (hi : w.Issued i o) : φ o := by
  rcases hi with ⟨r, hr⟩ | ⟨k, hk⟩
  · obtain ⟨p, hp, -⟩ := h.issued h₀ (.inl ⟨r, hr⟩)
    exact (h.part h₀ hp).uses (hφ i p hp) ⟨o, r⟩ (mem_traceOf.mpr hr)
  · obtain ⟨p, hp, hres⟩ := (h.taskOk h₀ i).residual hk
    exact (hres.2.2 φ (hφ i p hp)).1

/-- A task that was there at the start keeps its program. -/
theorem Reachable.code_some {w₀ w : World ι Op Resp ρ σ} (h₀ : w₀.Initial) (h : M.Reachable w₀ w)
    {i : ι} {p : Prog Op Resp ρ} (hp : w₀.code i = some p) : w.code i = some p := by
  refine h.invariant (P := fun w => w.code i = some p) (fun u v hr hu hs => ?_) hp
  cases hs with
  | @perform j o k r sh _ _ _ startable =>
    rcases hsp : M.spawn j u.shared o with - | ⟨l, q⟩
    · exact hu
    · have hli : i ≠ l := by
        rintro rfl
        have hfollows := Reachable.follows h₀ hr hu
        rw [hsp] at startable
        rw [show u.tasks i = .idle from startable] at hfollows
        exact hfollows
      simpa [hli] using hu
  | unroll | finish | panic | env => exact hu

/-- A machine that starts no tasks keeps the programs it began with. -/
theorem Reachable.code_eq (hM : ∀ i s o, M.spawn i s o = none) {w₀ w : World ι Op Resp ρ σ}
    (h : M.Reachable w₀ w) : w.code = w₀.code := by
  refine h.invariant (P := fun w => w.code = w₀.code) (fun u v _ hu hs => ?_) rfl
  cases hs with
  | perform => simpa [hM] using hu
  | unroll | finish | panic | env => exact hu

end Machine

/-! ### From the log to the tasks -/

/-- A projection that only one task contributes to is that task's. -/
theorem World.proj_eq_projOf {β : Type} {f : Ev Op Resp → List β} {w : World ι Op Resp ρ σ} {i : ι}
    (h : ∀ e ∈ w.log, e.1 ≠ i → f e.2 = []) : w.proj f = w.projOf f i := by
  unfold World.proj World.projOf
  generalize w.log = l at h
  induction l with
  | nil => rfl
  | cons e l ih =>
    rw [List.flatMap_cons, ih fun e' he' => h e' (List.mem_cons_of_mem e he')]
    by_cases he : e.1 = i
    · simp [traceOf, he]
    · simp [traceOf, he, h e List.mem_cons_self he]

/-- What a task contributes is in the log. -/
theorem World.mem_proj {β : Type} {f : Ev Op Resp → List β} {w : World ι Op Resp ρ σ} {i : ι} {x : β}
    (h : x ∈ w.projOf f i) : x ∈ w.proj f := by
  obtain ⟨e, he, hx⟩ := List.mem_flatMap.mp h
  exact List.mem_flatMap.mpr ⟨(i, e), mem_traceOf.mp he, hx⟩

/-- A task's values stand in the log in their order. -/
theorem World.projOf_sublist {β : Type} (f : Ev Op Resp → List β) (w : World ι Op Resp ρ σ) (i : ι) :
    (w.projOf f i).Sublist (w.proj f) := by
  unfold World.proj World.projOf
  generalize w.log = l
  induction l with
  | nil => exact List.Sublist.refl _
  | cons e l ih =>
    rw [List.flatMap_cons]
    by_cases he : e.1 = i
    · simpa [traceOf, he] using ih
    · simpa [traceOf, he] using ih.trans (List.sublist_append_right _ _)

/-- Over any finite set of tasks that covers a projection, the log's values are
the tasks' values taken together. -/
theorem World.coe_proj {β : Type} {f : Ev Op Resp → List β} {w : World ι Op Resp ρ σ}
    {S : Finset ι} (h : ∀ e ∈ w.log, e.1 ∉ S → f e.2 = []) :
    (w.proj f : Multiset β) = ∑ i ∈ S, (w.projOf f i : Multiset β) := by
  unfold World.proj World.projOf
  generalize w.log = l at h
  induction l with
  | nil => simp
  | cons e l ih =>
    have hcons : ∀ i, ((traceOf i (e :: l)).flatMap f : Multiset β) =
        (if e.1 = i then (f e.2 : Multiset β) else 0) + ((traceOf i l).flatMap f : Multiset β) := by
      intro i
      by_cases he : e.1 = i <;> simp [traceOf, he]
    rw [List.flatMap_cons, ← Multiset.coe_add, ih fun e' he' => h e' (List.mem_cons_of_mem e he'),
      Finset.sum_congr rfl fun i _ => hcons i, Finset.sum_add_distrib]
    congr 1
    rw [Finset.sum_ite_eq]
    split
    · rfl
    · rename_i he
      simp [h e List.mem_cons_self he]

/-! ### Running a schedule -/

namespace Machine

variable (M : Machine ι Op Resp ρ σ)
  (respond : World ι Op Resp ρ σ → ι → (o : Op) → Option (Resp o))

/-- Let task `i` take its next step, answered by `respond`; `none` when it has to
wait, or has ended. -/
def turn (w : World ι Op Resp ρ σ) (i : ι) : Option (World ι Op Resp ρ σ) :=
  match w.tasks i with
  | .running (.op o k) =>
    match respond w i o with
    | none => none
    | some r =>
      match M.handle w.outcome i w.shared o r with
      | none => none
      | some sh =>
        match M.spawn i w.shared o with
        | none => some ((w.put i (.running (k r))).record i ⟨o, r⟩ sh)
        | some (j, p) =>
          match w.tasks j with
          | .idle => some (((w.put i (.running (k r))).launch (some (j, p))).record i ⟨o, r⟩ sh)
          | _ => none
  | .running (.iter body s k) => some (w.put i (.running (Prog.unroll body s k)))
  | .running (.ret a) =>
    some ((w.put i (.finished (.done a))).withShared (M.retire i (.done a) w.shared))
  | _ => none

/-- Run a schedule: the tasks named take one step each, in this order, or wait. -/
def exec (w : World ι Op Resp ρ σ) : List ι → World ι Op Resp ρ σ
  | [] => w
  | i :: is => exec ((M.turn respond w i).getD w) is

variable {M respond}

theorem turn_sound (hr : ∀ w i o r, respond w i o = some r → M.admits ⟨o, r⟩)
    {w w' : World ι Op Resp ρ σ} {i : ι} (h : M.turn respond w i = some w') : M.Step w w' := by
  unfold turn at h
  split at h
  · rename_i o k run
    split at h
    · cases h
    · rename_i r hresp
      split at h
      · cases h
      · rename_i sh hsh
        have hstep := fun hst => Step.perform (M := M) run hsh (hr _ _ _ _ hresp) hst
        split at h
        · rename_i hsp
          cases h
          simpa [hsp, World.Startable] using hstep
        · rename_i j p hsp
          split at h
          · rename_i hj
            cases h
            simpa [hsp, World.Startable, hj] using hstep
          · cases h
  · rename_i run
    cases h
    exact .unroll run
  · rename_i run
    cases h
    exact .finish run
  · cases h

/-- What a schedule leads to is reachable. -/
theorem exec_sound (hr : ∀ w i o r, respond w i o = some r → M.admits ⟨o, r⟩)
    (w : World ι Op Resp ρ σ) (is : List ι) : M.Reachable w (M.exec respond w is) := by
  induction is generalizing w with
  | nil => exact .refl
  | cons i is ih =>
    rcases hv : M.turn respond w i with - | v
    · simpa [exec, hv] using ih w
    · simp only [exec, hv, Option.getD_some]
      exact .head (turn_sound hr hv) (ih v)

/-- The steps of a schedule have a property that all steps between its ends have. -/
theorem exec_steps {Q : World ι Op Resp ρ σ → World ι Op Resp ρ σ → Prop}
    (hr : ∀ w i o r, respond w i o = some r → M.admits ⟨o, r⟩) (w : World ι Op Resp ρ σ)
    (is : List ι) (hQ : ∀ u v, M.Reachable w u → M.Step u v →
      M.Reachable v (M.exec respond w is) → Q u v) :
    Relation.ReflTransGen (fun u v => M.Step u v ∧ Q u v) w (M.exec respond w is) := by
  induction is generalizing w with
  | nil => exact .refl
  | cons i is ih =>
    rcases hv : M.turn respond w i with - | v
    · simp only [exec, hv, Option.getD_none] at hQ ⊢
      exact ih w hQ
    · simp only [exec, hv, Option.getD_some] at hQ ⊢
      have hs := turn_sound hr hv
      refine .head ⟨hs, hQ w v .refl hs (exec_sound hr v is)⟩ (ih v fun u u' hu => ?_)
      exact hQ u u' (.head hs hu)

/-- A check of the worlds a schedule goes through, each with the task that is
next. -/
def execAll (M : Machine ι Op Resp ρ σ) (respond : World ι Op Resp ρ σ → ι → (o : Op) → Option (Resp o))
    (check : World ι Op Resp ρ σ → ι → Bool) (w : World ι Op Resp ρ σ) : List ι → Bool
  | [] => true
  | i :: is => check w i && execAll M respond check ((M.turn respond w i).getD w) is

/-- The steps of a schedule have a property that the check ensures. -/
theorem exec_checked {Q : World ι Op Resp ρ σ → World ι Op Resp ρ σ → Prop}
    (check : World ι Op Resp ρ σ → ι → Bool)
    (hr : ∀ w i o r, respond w i o = some r → M.admits ⟨o, r⟩)
    (hQ : ∀ u v i, check u i = true → M.turn respond u i = some v → Q u v)
    (w : World ι Op Resp ρ σ) (is : List ι) (h : M.execAll respond check w is = true) :
    Relation.ReflTransGen (fun u v => M.Step u v ∧ Q u v) w (M.exec respond w is) := by
  induction is generalizing w with
  | nil => exact .refl
  | cons i is ih =>
    obtain ⟨hw, his⟩ := Bool.and_eq_true_iff.mp h
    rcases hv : M.turn respond w i with - | v
    · rw [hv] at his
      simpa only [exec, hv, Option.getD_none] using ih w his
    · rw [hv] at his
      simp only [exec, hv, Option.getD_some]
      exact .head ⟨turn_sound hr hv, hQ w v i hw hv⟩ (ih v his)

/-- A turn adds to the log at most an operation of its own task. -/
theorem turn_log {w v : World ι Op Resp ρ σ} {i : ι} (h : M.turn respond w i = some v) :
    v.log = w.log ∨ ∃ e, v.log = w.log ++ [(i, e)] := by
  unfold turn at h
  split at h
  · split at h
    · cases h
    · split at h
      · cases h
      · split at h
        · cases h
          exact .inr ⟨_, rfl⟩
        · split at h
          · cases h
            exact .inr ⟨_, rfl⟩
          · cases h
  · cases h
    exact .inl rfl
  · cases h
    exact .inl rfl
  · cases h

end Machine

end Conc
