/-
S3rm/Conc/Obeys.lean

A calculus of pre- and postconditions for task programs.  A protocol keeps a
state of its own (`after`), says from this state what may be asked for (`may`),
and which answers are to be expected (`ok`):

    P.Obeys p s Q    from the state `s` on, as long as every answer is to be
                     expected, `p` asks only for what it may, and returns
                     with `Q`

There is one rule for each way of making a program (`obeys_bind`, `obeys_loop`),
and what is left of a task of a machine obeys from where its history has led
(`Reachable.obeys`).
-/
import S3rm.Conc.Fallible
import S3rm.Conc.Machine

namespace Conc

/-- What a program is held to. -/
structure Protocol (Op : Type) (Resp : Op → Type) (S : Type) where
  ok : Ev Op Resp → Prop
  may : S → Op → Prop
  after : S → Ev Op Resp → S

namespace Protocol

open Prog

variable {Op : Type} {Resp : Op → Type} {S α β : Type} (P : Protocol Op Resp S)

/-- The state after a trace. -/
def afterAll (s : S) (t : List (Ev Op Resp)) : S := t.foldl P.after s

@[simp] theorem afterAll_nil (s : S) : P.afterAll s [] = s := rfl

@[simp] theorem afterAll_cons (s : S) (e : Ev Op Resp) (t : List (Ev Op Resp)) :
    P.afterAll s (e :: t) = P.afterAll (P.after s e) t := rfl

@[simp] theorem afterAll_append (s : S) (t u : List (Ev Op Resp)) :
    P.afterAll s (t ++ u) = P.afterAll (P.afterAll s t) u := by
  simp [afterAll]

/-- The program keeps to the protocol and returns with `Q`. -/
def Obeys {α : Type} : Prog Op Resp α → S → (α → S → Prop) → Prop
  | .ret a, s, Q => Q a s
  | .op o k, s, Q => P.may s o ∧ ∀ r, P.ok ⟨o, r⟩ → Obeys (k r) (P.after s ⟨o, r⟩) Q
  | @iter _ _ σ _ _ body x k, s, Q => ∃ I : σ → S → Prop, I x s ∧
      ∀ x s, I x s → Obeys (body x) s fun y s =>
        match y with
        | .inl x' => I x' s
        | .inr c => Obeys (k c) s Q

variable {P} {s : S}

section rules

/-- A weaker postcondition. -/
theorem Obeys.mono {p : Prog Op Resp α} {Q Q' : α → S → Prop} (h : P.Obeys p s Q)
    (hQ : ∀ a s, Q a s → Q' a s) : P.Obeys p s Q' := by
  induction p generalizing s with
  | ret a => exact hQ a s h
  | op o k ih =>
    obtain ⟨hmay, h⟩ := h
    exact ⟨hmay, fun r hr => ih r (h r hr) hQ⟩
  | iter body x k ihb ih =>
    obtain ⟨I, hI, hbody⟩ := h
    refine ⟨I, hI, fun x s hx => ihb x (hbody x s hx) ?_⟩
    rintro (x' | c) s h
    · exact h
    · exact ih c h hQ

theorem obeys_bind {p : Prog Op Resp α} {f : α → Prog Op Resp β} {Q : β → S → Prop}
    (h : P.Obeys p s fun a s => P.Obeys (f a) s Q) : P.Obeys (p >>= f) s Q := by
  show P.Obeys (p.bind f) s Q
  induction p generalizing s with
  | ret a => exact h
  | op o k ih =>
    obtain ⟨hmay, h⟩ := h
    exact ⟨hmay, fun r hr => ih r (h r hr)⟩
  | iter body x k _ ih =>
    obtain ⟨I, hI, hbody⟩ := h
    refine ⟨I, hI, fun x s hx => (hbody x s hx).mono ?_⟩
    rintro (x' | c) s h
    · exact h
    · exact ih c h

@[simp] theorem obeys_pure {a : α} {Q : α → S → Prop} :
    P.Obeys (pure a : Prog Op Resp α) s Q ↔ Q a s := Iff.rfl

end rules

/-! ### Programs that may fail -/

section fallible

variable {ε σ τ : Type}

/-- What is asked of a program that goes on with `next` when it succeeds. -/
def Then (Q : Except ε β → S → Prop) (next : α → S → Prop) : Except ε α → S → Prop
  | .ok a, s => next a s
  | .error e, s => Q (.error e) s

/-- A postcondition on success only. -/
def IfOk (Q : α → S → Prop) : Except ε α → S → Prop
  | .ok a, s => Q a s
  | .error _, _ => True

@[simp] theorem ifOk_ok {Q : α → S → Prop} {a : α} : IfOk Q (.ok a : Except ε α) s ↔ Q a s := Iff.rfl

@[simp] theorem ifOk_error {Q : α → S → Prop} {e : ε} :
    IfOk Q (.error e : Except ε α) s ↔ True := Iff.rfl

@[simp] theorem then_ifOk {Q : β → S → Prop} {next : α → S → Prop} :
    Then (ε := ε) (IfOk Q) next = IfOk next := by
  funext r s
  cases r <;> rfl

theorem obeys_fallible_bind {x : Fallible ε Op Resp α} {f : α → Fallible ε Op Resp β}
    {Q : Except ε β → S → Prop} (h : P.Obeys x s (Then Q fun a s => P.Obeys (f a) s Q)) :
    P.Obeys (x >>= f : Fallible ε Op Resp β) s Q := by
  apply obeys_bind (p := (x : Prog Op Resp (Except ε α)))
  apply Obeys.mono h
  rintro (e | a) s h <;> exact h

@[simp] theorem obeys_fallible_pure {a : α} {Q : Except ε α → S → Prop} :
    P.Obeys (pure a : Fallible ε Op Resp α) s Q ↔ Q (.ok a) s := Iff.rfl

@[simp] theorem obeys_throw {e : ε} {Q : Except ε α → S → Prop} :
    P.Obeys (throw e : Fallible ε Op Resp α) s Q ↔ Q (.error e) s := Iff.rfl

/-- **The rule for loops**: an invariant of the loop head. -/
theorem obeys_loop {body : σ → Fallible ε Op Resp (σ ⊕ τ)} {x : σ} {Q : Except ε τ → S → Prop}
    (I : σ → S → Prop) (init : I x s)
    (turn : ∀ x s, I x s → P.Obeys (body x) s (Then Q fun y s =>
      match y with
      | .inl x' => I x' s
      | .inr c => Q (.ok c) s)) :
    P.Obeys (loop body x) s Q := by
  refine ⟨I, init, fun x s hx => ?_⟩
  apply obeys_bind (p := (body x : Prog Op Resp (Except ε (σ ⊕ τ))))
  apply Obeys.mono (turn x s hx)
  rintro (e | x' | c) s h <;> exact h

/-- Another type of errors. -/
theorem obeys_adapt {ε' : Type} {f : ε → ε'} {x : Fallible ε Op Resp α}
    {Q : Except ε' α → S → Prop} (h : P.Obeys x s fun r s => Q (r.mapError f) s) :
    P.Obeys (ExceptT.adapt f x : Fallible ε' Op Resp α) s Q :=
  obeys_bind (p := (x : Prog Op Resp (Except ε α))) h

end fallible

/-- What is left of a loop before a turn. -/
theorem Obeys.unroll {σ τ : Type} {body : σ → Prog Op Resp (σ ⊕ τ)} {x : σ}
    {k : τ → Prog Op Resp α} {Q : α → S → Prop} (h : P.Obeys (iter body x k) s Q) :
    P.Obeys (Prog.unroll body x k) s Q := by
  obtain ⟨I, hI, hbody⟩ := h
  apply obeys_bind
  apply (hbody x s hI).mono
  rintro (x' | c) s h
  · exact ⟨I, h, hbody⟩
  · exact h

end Protocol

/-! ### Tasks of a machine -/

section machine

open Protocol

variable {ι Op ρ σ S : Type} {Resp : Op → Type} [DecidableEq ι] {M : Machine ι Op Resp ρ σ}
  {P : Protocol Op Resp S} {s₀ : S} {Q : ρ → S → Prop} {w₀ w : World ι Op Resp ρ σ} {i : ι}
  {p : Prog Op Resp ρ}

/-- **What is left of a task** obeys too, from where its history has led. -/
theorem Machine.Reachable.obeys (h₀ : w₀.Initial) (h : M.Reachable w₀ w)
    (hok : ∀ e ∈ w.log, P.ok e.2) (hp : w.code i = some p) (hobeys : P.Obeys p s₀ Q)
    {q : Prog Op Resp ρ} (hq : w.tasks i = .running q) :
    P.Obeys q (P.afterAll s₀ (traceOf i w.log)) Q := by
  refine h.invariant (P := fun w => (∀ e ∈ w.log, P.ok e.2) → w.code i = some p →
    ∀ q, w.tasks i = .running q → P.Obeys q (P.afterAll s₀ (traceOf i w.log)) Q) ?_ ?_ hok hp q hq
  · intro u v hr ih hs hok hp q hq
    cases hs with
    | @perform j o k r sh run _ _ startable =>
      rw [World.record_log, World.launch_log, World.put_log] at hok ⊢
      have hok' : ∀ e ∈ u.log, P.ok e.2 := fun e he => hok e (List.mem_append_left _ he)
      have hlast : P.ok ⟨o, r⟩ := hok (j, ⟨o, r⟩) (List.mem_append_right _ (List.mem_singleton.mpr rfl))
      -- a task that has just been started has no history
      by_cases hnew : ∃ p', M.spawn j u.shared o = some (i, p')
      · obtain ⟨p', hsp⟩ := hnew
        have hidle : u.tasks i = .idle := by
          rw [hsp] at startable
          exact startable
        have hne : j ≠ i := by
          rintro rfl
          rw [hidle] at run
          cases run
        have hpp : p' = p := by
          simpa [hsp] using hp
        have hqp : p' = q := by
          simpa [hsp] using hq
        have hnil : traceOf i u.log = [] := by
          have htask := Machine.Reachable.taskOk h₀ hr i
          unfold World.TaskOk at htask
          split at htask
          · exact htask.2
          · rw [hidle] at htask
            exact htask.elim
        rw [traceOf_snoc_ne hne, hnil, ← hqp, hpp]
        exact hobeys
      · have hlaunch : ∀ n, M.spawn j u.shared o = n →
            ((u.put j (.running (k r))).launch n).tasks i = (u.put j (.running (k r))).tasks i ∧
            ((u.put j (.running (k r))).launch n).code i = u.code i := by
          rintro (- | ⟨l, p'⟩) hn
          · exact ⟨rfl, rfl⟩
          · have hl : i ≠ l := by
              rintro rfl
              exact hnew ⟨p', hn⟩
            simp [hl]
        obtain ⟨htasks, hcode⟩ := hlaunch _ rfl
        have hp' : u.code i = some p := hcode.symm.trans hp
        have hq' : (u.put j (.running (k r))).tasks i = .running q := htasks.symm.trans hq
        by_cases hij : i = j
        · subst hij
          have hk : k r = q := by simpa using hq'
          rw [traceOf_snoc_self, afterAll_append, ← hk]
          exact (ih hok' hp' _ run).2 r hlast
        · rw [traceOf_snoc_ne (Ne.symm hij)]
          exact ih hok' hp' q (by simpa [hij] using hq')
    | @unroll j _ _ body s k run =>
      by_cases hij : i = j
      · subst hij
        have hk : Prog.unroll body s k = q := by simpa using hq
        rw [← hk]
        exact (ih hok hp _ run).unroll
      · exact ih hok hp q (by simpa [hij] using hq)
    | @finish j a run | @panic j p' _ run =>
      by_cases hij : i = j
      · subst hij
        simp at hq
      · exact ih hok hp q (by simpa [hij] using hq)
    | env => exact ih hok hp q hq
  · intro _ hp q hq
    rcases h₀.tasks i with ⟨hc, -⟩ | ⟨p', hc, ht⟩
    · rw [hc] at hp
      cases hp
    · rw [h₀.log]
      have hpp : p' = p := Option.some.inj (hc.symm.trans hp)
      have hqp : p' = q := by simpa [ht] using hq
      rw [← hqp, hpp]
      exact hobeys

end machine

end Conc
