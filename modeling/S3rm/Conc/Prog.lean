/-
S3rm/Conc/Prog.lean

Task programs.  A task is a tree of operations on its surroundings: `ret` ends
it, `op o k` asks for the operation `o` and goes on with the response, and
`iter body s k` is an unbounded loop whose body either yields the next loop
state or leaves the loop.  Nothing here says what an operation does; that is
the business of the machine the program runs on (`Conc.Machine`).

Two readings of a program, both over traces of (operation, response) pairs:

    p.Run t a    the program can go through exactly `t` and return `a`
    p.Part t     `t` is how far some execution of the program has come

`run_bind`, `run_iter` and their `Part` versions make both compositional, so
that a property of a long program is assembled from its parts.

    Run.deterministic      what happens determines the run
    Rounds.afterEach       the rule for what follows an event of a loop
    always_of_part_iter    the invariant rule for a task that is one loop
-/
import Mathlib.Logic.Relation
import Mathlib.Data.List.Infix

namespace Conc

/-- Programs over operations `Op`, where `o` is answered by a `Resp o`. -/
inductive Prog (Op : Type) (Resp : Op → Type) : Type → Type 1
  | ret {α : Type} (a : α) : Prog Op Resp α
  | op {α : Type} (o : Op) (k : Resp o → Prog Op Resp α) : Prog Op Resp α
  | iter {σ τ α : Type} (body : σ → Prog Op Resp (σ ⊕ τ)) (s : σ)
      (k : τ → Prog Op Resp α) : Prog Op Resp α

/-- An operation together with the response it got. -/
abbrev Ev (Op : Type) (Resp : Op → Type) := (o : Op) × Resp o

variable {Op : Type} {Resp : Op → Type} {α β : Type}

namespace Prog

/-- Sequencing. -/
def bind {α β : Type} : Prog Op Resp α → (α → Prog Op Resp β) → Prog Op Resp β
  | .ret a, f => f a
  | .op o k, f => .op o fun r => (k r).bind f
  | .iter body s k, f => .iter body s fun c => (k c).bind f

instance : Monad (Prog Op Resp) where
  pure := .ret
  bind := bind

/-- The program that performs one operation and returns its response. -/
def perform (o : Op) : Prog Op Resp (Resp o) := .op o .ret

/-- One unfolding of a loop. -/
def unroll {σ τ : Type} (body : σ → Prog Op Resp (σ ⊕ τ)) (s : σ)
    (k : τ → Prog Op Resp α) : Prog Op Resp α :=
  (body s).bind (Sum.elim (fun s' => .iter body s' k) k)

/-! ### Complete runs -/

/-- Finitely many full turns of a loop with body semantics `R`. -/
inductive Rounds {σ τ ε : Type} (R : σ → List ε → σ ⊕ τ → Prop) : σ → List ε → σ → Prop
  | nil (s : σ) : Rounds R s [] s
  | cons {s t s' u s''} : R s t (.inl s') → Rounds R s' u s'' → Rounds R s (t ++ u) s''

/-- `p.Run t a`: some execution of `p` performs exactly the trace `t` and
returns `a`. -/
def Run {α : Type} : Prog Op Resp α → List (Ev Op Resp) → α → Prop
  | .ret a, t, b => t = [] ∧ a = b
  | .op o k, t, b => ∃ r t', t = ⟨o, r⟩ :: t' ∧ (k r).Run t' b
  | .iter body s k, t, b => ∃ s' c t₁ t₂ t₃, t = t₁ ++ (t₂ ++ t₃) ∧
      Rounds (fun s u x => (body s).Run u x) s t₁ s' ∧ (body s').Run t₂ (.inr c) ∧
      (k c).Run t₃ b

@[simp] theorem run_ret {a b : α} {t : List (Ev Op Resp)} :
    (ret a : Prog Op Resp α).Run t b ↔ t = [] ∧ a = b := Iff.rfl

@[simp] theorem run_pure {a b : α} {t : List (Ev Op Resp)} :
    (pure a : Prog Op Resp α).Run t b ↔ t = [] ∧ a = b := Iff.rfl

@[simp] theorem run_op {o : Op} {k : Resp o → Prog Op Resp α} {t : List (Ev Op Resp)} {b : α} :
    (op o k).Run t b ↔ ∃ r t', t = ⟨o, r⟩ :: t' ∧ (k r).Run t' b := Iff.rfl

@[simp] theorem run_perform {o : Op} {t : List (Ev Op Resp)} {r : Resp o} :
    (perform o).Run t r ↔ t = [⟨o, r⟩] := by
  simp [perform]

theorem run_bind' {p : Prog Op Resp α} {f : α → Prog Op Resp β} {t : List (Ev Op Resp)} {b : β} :
    (p.bind f).Run t b ↔ ∃ t₁ a t₂, t = t₁ ++ t₂ ∧ p.Run t₁ a ∧ (f a).Run t₂ b := by
  induction p generalizing t with
  | ret a =>
    constructor
    · exact fun h => ⟨[], a, t, rfl, ⟨rfl, rfl⟩, h⟩
    · rintro ⟨_, _, t₂, rfl, ⟨rfl, rfl⟩, h⟩
      exact h
  | op o k ih =>
    simp only [bind, Run, ih]
    constructor
    · rintro ⟨r, _, rfl, t₁, a, t₂, rfl, h₁, h₂⟩
      exact ⟨_, a, t₂, rfl, ⟨r, t₁, rfl, h₁⟩, h₂⟩
    · rintro ⟨_, a, t₂, rfl, ⟨r, t₁, rfl, h₁⟩, h₂⟩
      exact ⟨r, _, rfl, t₁, a, t₂, rfl, h₁, h₂⟩
  | iter body s k _ ih =>
    simp only [bind, Run, ih]
    constructor
    · rintro ⟨s', c, u, v, _, rfl, hr, hb, t₁, a, t₂, rfl, h₁, h₂⟩
      exact ⟨u ++ (v ++ t₁), a, t₂, by simp, ⟨s', c, u, v, t₁, rfl, hr, hb, h₁⟩, h₂⟩
    · rintro ⟨_, a, t₂, rfl, ⟨s', c, u, v, t₁, rfl, hr, hb, h₁⟩, h₂⟩
      exact ⟨s', c, u, v, t₁ ++ t₂, by simp, hr, hb, t₁, a, t₂, rfl, h₁, h₂⟩

theorem run_bind {p : Prog Op Resp α} {f : α → Prog Op Resp β} {t : List (Ev Op Resp)} {b : β} :
    (p >>= f).Run t b ↔ ∃ t₁ a t₂, t = t₁ ++ t₂ ∧ p.Run t₁ a ∧ (f a).Run t₂ b :=
  run_bind'

theorem run_map {p : Prog Op Resp α} {f : α → β} {t : List (Ev Op Resp)} {b : β} :
    (f <$> p).Run t b ↔ ∃ a, p.Run t a ∧ f a = b := by
  show (p.bind fun a => .ret (f a)).Run t b ↔ _
  rw [run_bind']
  constructor
  · rintro ⟨t₁, a, _, rfl, h, rfl, rfl⟩
    exact ⟨a, by simpa using h, rfl⟩
  · rintro ⟨a, h, rfl⟩
    exact ⟨t, a, [], by simp, h, rfl, rfl⟩

/-- An operation first: its response heads the trace. -/
theorem run_perform_bind {o : Op} {f : Resp o → Prog Op Resp β} {t : List (Ev Op Resp)} {b : β} :
    (perform o >>= f).Run t b ↔ ∃ r u, t = ⟨o, r⟩ :: u ∧ (f r).Run u b := Iff.rfl

/-- The invariant rule for a fold: `I` relates what was folded over to the trace
and the accumulator. -/
theorem run_foldlM {γ : Type} {f : β → γ → Prog Op Resp β}
    {I : List γ → List (Ev Op Resp) → β → Prop}
    (step : ∀ xs x t u b b', I xs t b → (f b x).Run u b' → I (xs ++ [x]) (t ++ u) b')
    {xs : List γ} {t : List (Ev Op Resp)} {b b' : β} (h₀ : I [] [] b)
    (h : (xs.foldlM f b).Run t b') : I xs t b' := by
  suffices go : ∀ (ys xs : List γ) (u t : List (Ev Op Resp)) (b : β), I ys u b →
      (xs.foldlM f b).Run t b' → I (ys ++ xs) (u ++ t) b' from go [] xs [] t b h₀ h
  intro ys xs
  induction xs generalizing ys with
  | nil =>
    rintro u t b hI ⟨rfl, rfl⟩
    simpa using hI
  | cons x xs ih =>
    intro u t b hI h
    obtain ⟨t₁, c, t₂, rfl, h₁, h₂⟩ := run_bind.mp h
    simpa using ih (ys ++ [x]) (u ++ t₁) t₂ c (step _ _ _ _ _ _ hI h₁) h₂

theorem run_unroll {σ τ : Type} {body : σ → Prog Op Resp (σ ⊕ τ)} {s : σ}
    {k : τ → Prog Op Resp α} {t : List (Ev Op Resp)} {b : α}
    (h : (unroll body s k).Run t b) : (iter body s k).Run t b := by
  obtain ⟨t₁, x, t₂, rfl, hb, hk⟩ := run_bind'.mp h
  rcases x with s' | c
  · obtain ⟨s'', c, u, v, w, rfl, hr, hb', hk'⟩ := hk
    exact ⟨s'', c, t₁ ++ u, v, w, by simp, .cons hb hr, hb', hk'⟩
  · exact ⟨s, c, [], t₁, t₂, rfl, .nil s, hb, hk⟩

/-- The loop invariant rule for complete runs: what holds at the loop head
with the trace so far is kept by every full turn. -/
theorem Rounds.invariant {σ τ ε : Type} {R : σ → List ε → σ ⊕ τ → Prop}
    {I : σ → List ε → Prop}
    (step : ∀ s t u s', I s t → R s u (.inl s') → I s' (t ++ u))
    {s s' : σ} {u : List ε} (h : Rounds R s u s') {t : List ε} (h₀ : I s t) :
    I s' (t ++ u) := by
  induction h generalizing t with
  | nil s => simpa using h₀
  | cons hb _ ih => simpa using ih (step _ _ _ _ h₀ hb)

theorem Rounds.mono {σ τ ε : Type} {R S : σ → List ε → σ ⊕ τ → Prop}
    (hRS : ∀ s t x, R s t x → S s t x) {s s' : σ} {u : List ε} (h : Rounds R s u s') :
    Rounds S s u s' := by
  induction h with
  | nil s => exact .nil s
  | cons hb _ ih => exact .cons (hRS _ _ _ hb) ih

/-- Turns whose events are all admissible. -/
theorem Rounds.restrict {σ τ ε : Type} {R : σ → List ε → σ ⊕ τ → Prop} {ok : ε → Prop}
    {s s' : σ} {t : List ε} (h : Rounds R s t s') (ht : ∀ e ∈ t, ok e) :
    Rounds (fun s u x => R s u x ∧ ∀ e ∈ u, ok e) s t s' := by
  induction h with
  | nil s => exact .nil s
  | cons hb _ ih =>
    exact .cons ⟨hb, fun e he => ht e (List.mem_append_left _ he)⟩
      (ih fun e he => ht e (List.mem_append_right _ he))

/-! ### What happens determines the run -/

/-- The full turns of a loop up to a turn that leaves it are determined by what
happens. -/
theorem Rounds.deterministic {σ τ ε : Type} {R : σ → List ε → σ ⊕ τ → Prop}
    (det : ∀ s l t t' x x', R s t x → R s t' x' → t <+: l → t' <+: l → t = t' ∧ x = x')
    {l t t' u u' : List ε} {s s₁ s₂ : σ} {c c' : τ} (h : Rounds R s t s₁) (hu : R s₁ u (.inr c))
    (h' : Rounds R s t' s₂) (hu' : R s₂ u' (.inr c')) (hl : t ++ u <+: l) (hl' : t' ++ u' <+: l) :
    t = t' ∧ u = u' ∧ c = c' := by
  induction h generalizing l t' with
  | nil s =>
    cases h' with
    | nil =>
      obtain ⟨rfl, hc⟩ := det _ _ _ _ _ _ hu hu' hl hl'
      exact ⟨rfl, rfl, Sum.inr.inj hc⟩
    | cons hb _ =>
      have hpre := (List.prefix_append _ _).trans ((List.append_assoc _ _ _).symm ▸ hl')
      obtain ⟨-, hc⟩ := det _ _ _ _ _ _ hu hb hl hpre
      cases hc
  | cons hb hr ih =>
    cases h' with
    | nil =>
      have hpre := (List.prefix_append _ _).trans ((List.append_assoc _ _ _).symm ▸ hl)
      obtain ⟨-, hc⟩ := det _ _ _ _ _ _ hb hu' hpre hl'
      cases hc
    | cons hb' hr' =>
      rw [List.append_assoc] at hl hl'
      obtain ⟨rfl, hc⟩ := det _ _ _ _ _ _ hb hb' ((List.prefix_append _ _).trans hl)
        ((List.prefix_append _ _).trans hl')
      obtain rfl := Sum.inl.inj hc
      obtain ⟨l, rfl⟩ := (List.prefix_append _ _).trans hl
      rw [List.prefix_append_right_inj] at hl hl'
      obtain ⟨rfl, rfl, rfl⟩ := ih hu hr' hl hl'
      exact ⟨rfl, rfl, rfl⟩

/-- **What happens determines the run**: of two complete runs along the same
events, neither goes on after the other. -/
theorem Run.deterministic {p : Prog Op Resp α} {l t t' : List (Ev Op Resp)} {a b : α}
    (h : p.Run t a) (h' : p.Run t' b) (ht : t <+: l) (ht' : t' <+: l) : t = t' ∧ a = b := by
  induction p generalizing l t t' with
  | ret c =>
    obtain ⟨rfl, rfl⟩ := h
    obtain ⟨rfl, rfl⟩ := h'
    exact ⟨rfl, rfl⟩
  | op o k ih =>
    obtain ⟨r, t, rfl, h⟩ := h
    obtain ⟨r', t', rfl, h'⟩ := h'
    obtain ⟨v, rfl⟩ := ht
    obtain ⟨he, htail⟩ := List.cons_prefix_cons.mp ht'
    cases he
    obtain ⟨rfl, rfl⟩ := ih r h h' (List.prefix_append t v) htail
    exact ⟨rfl, rfl⟩
  | iter body s k ihb ih =>
    obtain ⟨s₁, c, t₁, t₂, t₃, rfl, hr, hb, hk⟩ := h
    obtain ⟨s₂, c', t₁', t₂', t₃', rfl, hr', hb', hk'⟩ := h'
    rw [← List.append_assoc] at ht ht'
    obtain ⟨rfl, rfl, rfl⟩ := Rounds.deterministic (fun s l t t' x x' h h' ht ht' => ihb s h h' ht ht')
      hr hb hr' hb' ((List.prefix_append _ _).trans ht) ((List.prefix_append _ _).trans ht')
    obtain ⟨v, hv⟩ := (List.prefix_append _ _).trans ht
    rw [← hv, List.prefix_append_right_inj] at ht ht'
    obtain ⟨rfl, rfl⟩ := ih c hk hk' ht ht'
    exact ⟨rfl, rfl⟩

/-! ### What follows an event -/

section follow

variable {C : (o : Op) → Resp o → List (Ev Op Resp) → Prop}

/-- After every event of the trace, the rest satisfies `C`. -/
def AfterEach (C : (o : Op) → Resp o → List (Ev Op Resp) → Prop) (t : List (Ev Op Resp)) : Prop :=
  ∀ t₁ o r t₂, t = t₁ ++ ⟨o, r⟩ :: t₂ → C o r t₂

theorem AfterEach.append (mono : ∀ o r t u, C o r t → C o r (t ++ u)) {t u : List (Ev Op Resp)}
    (ht : AfterEach C t) (hu : AfterEach C u) : AfterEach C (t ++ u) := by
  intro t₁ o r t₂ h
  rcases List.append_eq_append_iff.mp h with ⟨v, rfl, hv⟩ | ⟨v, rfl, hv⟩
  · exact hu v o r t₂ hv
  · rcases v with - | ⟨e, v⟩
    · exact hu [] o r t₂ (by simpa using hv.symm)
    · obtain ⟨rfl, rfl⟩ := List.cons.inj hv
      exact mono _ _ _ _ (ht t₁ o r v rfl)

theorem AfterEach.cons {o : Op} {r : Resp o} {t : List (Ev Op Resp)} (ht : AfterEach C t)
    (h : C o r t) : AfterEach C (⟨o, r⟩ :: t) := by
  intro t₁ o' r' t₂ he
  rcases t₁ with - | ⟨e, t₁⟩
  · obtain ⟨hop, rfl⟩ := List.cons.inj he
    cases hop
    exact h
  · obtain ⟨rfl, rfl⟩ := List.cons.inj he
    exact ht t₁ o' r' t₂ rfl

theorem afterEach_of_forall {t : List (Ev Op Resp)} (h : ∀ e ∈ t, ∀ u, C e.1 e.2 u) :
    AfterEach C t := by
  rintro t₁ o r t₂ rfl
  exact h ⟨o, r⟩ (by simp) t₂

/-- **The rule for what follows an event of a loop.** -/
theorem Rounds.afterEach (mono : ∀ o r t u, C o r t → C o r (t ++ u)) {σ τ : Type}
    {R : σ → List (Ev Op Resp) → σ ⊕ τ → Prop} (hR : ∀ s t x, R s t x → AfterEach C t) {s s' : σ}
    {t : List (Ev Op Resp)} (h : Rounds R s t s') : AfterEach C t := by
  induction h with
  | nil s => exact fun t₁ o r t₂ h => by simp at h
  | cons hb _ ih => exact (hR _ _ _ hb).append mono ih

end follow

/-! ### Partial runs -/

/-- `p.Part t`: some execution of `p` has performed the trace `t` so far. -/
def Part {α : Type} : Prog Op Resp α → List (Ev Op Resp) → Prop
  | .ret _, t => t = []
  | .op o k, t => t = [] ∨ ∃ r t', t = ⟨o, r⟩ :: t' ∧ (k r).Part t'
  | .iter body s k, t => ∃ s' t₁ t₂, t = t₁ ++ t₂ ∧
      Rounds (fun s u x => (body s).Run u x) s t₁ s' ∧
      ((body s').Part t₂ ∨
        ∃ c u v, t₂ = u ++ v ∧ (body s').Run u (.inr c) ∧ (k c).Part v)

theorem part_nil (p : Prog Op Resp α) : p.Part [] := by
  induction p with
  | ret a => rfl
  | op o k _ => exact .inl rfl
  | iter body s k ih _ => exact ⟨s, [], [], rfl, .nil s, .inl (ih s)⟩

theorem Run.part {p : Prog Op Resp α} {t : List (Ev Op Resp)} {a : α} (h : p.Run t a) :
    p.Part t := by
  induction p generalizing t with
  | ret b => exact h.1
  | op o k ih =>
    obtain ⟨r, t', rfl, h⟩ := h
    exact .inr ⟨r, t', rfl, ih r h⟩
  | iter body s k _ ih =>
    obtain ⟨s', c, t₁, t₂, t₃, rfl, hr, hb, hk⟩ := h
    exact ⟨s', t₁, t₂ ++ t₃, rfl, hr, .inr ⟨c, t₂, t₃, rfl, hb, ih c hk⟩⟩

theorem part_bind' {p : Prog Op Resp α} {f : α → Prog Op Resp β} {t : List (Ev Op Resp)} :
    (p.bind f).Part t ↔
      p.Part t ∨ ∃ t₁ a t₂, t = t₁ ++ t₂ ∧ p.Run t₁ a ∧ (f a).Part t₂ := by
  induction p generalizing t with
  | ret a =>
    constructor
    · exact fun h => .inr ⟨[], a, t, rfl, ⟨rfl, rfl⟩, h⟩
    · rintro (h | ⟨_, _, t₂, rfl, ⟨rfl, rfl⟩, h⟩)
      · obtain rfl : t = [] := h
        exact part_nil _
      · exact h
  | op o k ih =>
    simp only [bind, Part, Run, ih]
    constructor
    · rintro (rfl | ⟨r, t', rfl, h | ⟨t₁, a, t₂, rfl, h₁, h₂⟩⟩)
      · exact .inl (.inl rfl)
      · exact .inl (.inr ⟨r, t', rfl, h⟩)
      · exact .inr ⟨_, a, t₂, rfl, ⟨r, t₁, rfl, h₁⟩, h₂⟩
    · rintro ((rfl | ⟨r, t', rfl, h⟩) | ⟨_, a, t₂, rfl, ⟨r, t₁, rfl, h₁⟩, h₂⟩)
      · exact .inl rfl
      · exact .inr ⟨r, t', rfl, .inl h⟩
      · exact .inr ⟨r, _, rfl, .inr ⟨t₁, a, t₂, rfl, h₁, h₂⟩⟩
  | iter body s k _ ih =>
    simp only [bind, Part, Run, ih]
    constructor
    · rintro ⟨s', u, _, rfl, hr, hb | ⟨c, v, w, rfl, hb, hk | ⟨t₁, a, t₂, rfl, h₁, h₂⟩⟩⟩
      · exact .inl ⟨s', u, _, rfl, hr, .inl hb⟩
      · exact .inl ⟨s', u, _, rfl, hr, .inr ⟨c, v, w, rfl, hb, hk⟩⟩
      · exact .inr ⟨u ++ (v ++ t₁), a, t₂, by simp, ⟨s', c, u, v, t₁, rfl, hr, hb, h₁⟩, h₂⟩
    · rintro (⟨s', u, _, rfl, hr, hb | ⟨c, v, w, rfl, hb, hk⟩⟩ |
        ⟨_, a, t₂, rfl, ⟨s', c, u, v, t₁, rfl, hr, hb, h₁⟩, h₂⟩)
      · exact ⟨s', u, _, rfl, hr, .inl hb⟩
      · exact ⟨s', u, _, rfl, hr, .inr ⟨c, v, w, rfl, hb, .inl hk⟩⟩
      · exact ⟨s', u, v ++ (t₁ ++ t₂), by simp, hr,
          .inr ⟨c, v, t₁ ++ t₂, rfl, hb, .inr ⟨t₁, a, t₂, rfl, h₁, h₂⟩⟩⟩

theorem part_unroll {σ τ : Type} {body : σ → Prog Op Resp (σ ⊕ τ)} {s : σ}
    {k : τ → Prog Op Resp α} {t : List (Ev Op Resp)} (h : (unroll body s k).Part t) :
    (iter body s k).Part t := by
  rcases part_bind'.mp h with hb | ⟨t₁, x, t₂, rfl, hb, hk⟩
  · exact ⟨s, [], t, rfl, .nil s, .inl hb⟩
  · rcases x with s' | c
    · obtain ⟨s'', u, v, rfl, hr, hv⟩ := hk
      exact ⟨s'', t₁ ++ u, v, by simp, .cons hb hr, hv⟩
    · exact ⟨s, [], _, rfl, .nil s, .inr ⟨c, t₁, t₂, rfl, hb, hk⟩⟩

/-! ### Answers that determine the run -/

section determined

variable {ok : Ev Op Resp → Prop}

theorem Rounds.trans {σ τ ε : Type} {R : σ → List ε → σ ⊕ τ → Prop} {s s' s'' : σ}
    {t u : List ε} (h : Rounds R s t s') (h' : Rounds R s' u s'') : Rounds R s (t ++ u) s'' := by
  induction h with
  | nil s => exact h'
  | cons hb _ ih =>
    rw [List.append_assoc]
    exact .cons hb (ih h')

/-- Two runs that are beginnings of each other are one. -/
theorem Run.eq_of_isPrefix {p : Prog Op Resp α} {t t' : List (Ev Op Resp)} {a b : α}
    (h : p.Run t a) (h' : p.Run t' b) (ht : t <+: t') : t = t' ∧ a = b :=
  h.deterministic h' ht (List.prefix_refl t')

/-- **When each operation has one answer, all a program ever does is a beginning
of its complete run.** -/
theorem Part.isPrefix_of_run (hdet : ∀ o r r', ok ⟨o, r⟩ → ok ⟨o, r'⟩ → r = r')
    {p : Prog Op Resp α} {t u : List (Ev Op Resp)} {a : α} (hu : p.Part u) (ht : p.Run t a)
    (hoku : ∀ e ∈ u, ok e) (hokt : ∀ e ∈ t, ok e) : u <+: t := by
  induction p generalizing t u with
  | ret b =>
    obtain rfl : u = [] := hu
    exact List.nil_prefix
  | op o k ih =>
    obtain ⟨r, t, rfl, ht⟩ := ht
    rcases hu with rfl | ⟨r', u, rfl, hu⟩
    · exact List.nil_prefix
    · obtain rfl := hdet o r r' (hokt _ List.mem_cons_self) (hoku _ List.mem_cons_self)
      apply List.cons_prefix_cons.mpr ⟨rfl, _⟩
      exact ih r hu ht (fun e he => hoku e (List.mem_cons_of_mem _ he))
        fun e he => hokt e (List.mem_cons_of_mem _ he)
  | iter body s k ihb ih =>
    obtain ⟨s', c, t₁, t₂, t₃, rfl, hr, hb, hk⟩ := ht
    obtain ⟨s'', u₁, u₂, rfl, hr', hu⟩ := hu
    simp only [List.mem_append] at hokt hoku
    -- one turn is determined, as the body's run is
    have hturn : ∀ {s v v' x x'}, (body s).Run v x → (body s).Run v' x' → (∀ e ∈ v, ok e) →
        (∀ e ∈ v', ok e) → v = v' ∧ x = x' := by
      intro s v v' x x' hv hv' hokv hokv'
      exact hv.eq_of_isPrefix hv' (ihb s hv.part hv' hokv hokv')
    induction hr' generalizing t₁ with
    | nil s =>
      rw [List.nil_append]
      cases hr with
      | nil =>
        rcases hu with hu | ⟨c', v, w, rfl, hv, hw⟩
        · apply (ihb _ hu hb (fun e he => hoku e (.inr he)) fun e he => hokt e (.inr (.inl he))).trans
          exact List.prefix_append _ _
        · simp only [List.mem_append] at hoku
          obtain ⟨rfl, hc⟩ := hturn hv hb (fun e he => hoku e (.inr (.inl he)))
            fun e he => hokt e (.inr (.inl he))
          obtain rfl := Sum.inr.inj hc
          rw [List.nil_append, List.prefix_append_right_inj]
          exact ih c' hw hk (fun e he => hoku e (.inr (.inr he))) fun e he => hokt e (.inr (.inr he))
      | @cons _ v s₁ v' _ hv hrest =>
        simp only [List.mem_append] at hokt
        rcases hu with hu | ⟨c', w, w', rfl, hw, -⟩
        · rw [List.append_assoc]
          apply (ihb _ hu hv (fun e he => hoku e (.inr he))
            fun e he => hokt e (.inl (.inl he))).trans
          exact List.prefix_append _ _
        · simp only [List.mem_append] at hoku
          obtain ⟨-, hc⟩ := hturn hw hv (fun e he => hoku e (.inr (.inl he)))
            fun e he => hokt e (.inl (.inl he))
          cases hc
    | @cons _ v s₁ v' _ hv hrest ihr =>
      simp only [List.mem_append] at hoku
      cases hr with
      | nil =>
        obtain ⟨-, hc⟩ := hturn hv hb (fun e he => hoku e (.inl (.inl he)))
          fun e he => hokt e (.inr (.inl he))
        cases hc
      | @cons _ w s₂ w' _ hw hrest' =>
        simp only [List.mem_append] at hokt
        obtain ⟨rfl, hc⟩ := hturn hv hw (fun e he => hoku e (.inl (.inl he)))
          fun e he => hokt e (.inl (.inl he))
        obtain rfl := Sum.inl.inj hc
        rw [List.append_assoc, List.append_assoc, List.prefix_append_right_inj]
        apply ihr w' hrest' hu
        · intro e he
          rcases he with he | he
          · exact hokt e (.inl (.inr he))
          · exact hokt e (.inr he)
        · intro e he
          rcases he with he | he
          · exact hoku e (.inl (.inr he))
          · exact hoku e (.inr he)

end determined

/-! ### Operations a program may perform -/

/-- Every operation the program can ever perform satisfies `φ`. -/
def Uses (φ : Op → Prop) {α : Type} : Prog Op Resp α → Prop
  | .ret _ => True
  | .op o k => φ o ∧ ∀ r, (k r).Uses φ
  | .iter body _ k => (∀ s, (body s).Uses φ) ∧ ∀ c, (k c).Uses φ

theorem Uses.bind {φ : Op → Prop} {p : Prog Op Resp α} {f : α → Prog Op Resp β}
    (hp : p.Uses φ) (hf : ∀ a, (f a).Uses φ) : (p >>= f).Uses φ := by
  show (p.bind f).Uses φ
  induction p with
  | ret a => exact hf a
  | op o k ih => exact ⟨hp.1, fun r => ih r (hp.2 r) hf⟩
  | iter body s k _ ih => exact ⟨hp.1, fun c => ih c (hp.2 c) hf⟩

theorem Uses.mono {φ ψ : Op → Prop} (hφψ : ∀ o, φ o → ψ o) {p : Prog Op Resp α}
    (hp : p.Uses φ) : p.Uses ψ := by
  induction p with
  | ret a => trivial
  | op o k ih => exact ⟨hφψ o hp.1, fun r => ih r (hp.2 r)⟩
  | iter body s k ihb ih => exact ⟨fun s => ihb s (hp.1 s), fun c => ih c (hp.2 c)⟩

@[simp] theorem uses_pure {φ : Op → Prop} {a : α} :
    (pure a : Prog Op Resp α).Uses φ ↔ True := Iff.rfl

@[simp] theorem uses_perform {φ : Op → Prop} {o : Op} :
    (perform o : Prog Op Resp (Resp o)).Uses φ ↔ φ o :=
  ⟨fun h => h.1, fun h => ⟨h, fun _ => trivial⟩⟩

theorem Rounds.forall_mem {σ τ ε : Type} {R : σ → List ε → σ ⊕ τ → Prop} {φ : ε → Prop}
    (hR : ∀ s t x, R s t x → ∀ e ∈ t, φ e) {s s' : σ} {t : List ε} (h : Rounds R s t s') :
    ∀ e ∈ t, φ e := by
  induction h with
  | nil s => simp
  | cons hb _ ih =>
    intro e he
    rcases List.mem_append.mp he with he | he
    · exact hR _ _ _ hb e he
    · exact ih e he

theorem Run.uses {φ : Op → Prop} {p : Prog Op Resp α} {t : List (Ev Op Resp)} {a : α}
    (h : p.Run t a) (hp : p.Uses φ) : ∀ e ∈ t, φ e.1 := by
  induction p generalizing t with
  | ret b => simp [h.1]
  | op o k ih =>
    obtain ⟨r, t', rfl, h⟩ := h
    intro e he
    rcases List.mem_cons.mp he with rfl | he
    · exact hp.1
    · exact ih r h (hp.2 r) e he
  | iter body s k ihb ih =>
    obtain ⟨s', c, t₁, t₂, t₃, rfl, hr, hb, hk⟩ := h
    intro e he
    simp only [List.mem_append] at he
    rcases he with he | he | he
    · exact hr.forall_mem (fun s u x hu => ihb s hu (hp.1 s)) e he
    · exact ihb s' hb (hp.1 s') e he
    · exact ih c hk (hp.2 c) e he

theorem Part.uses {φ : Op → Prop} {p : Prog Op Resp α} {t : List (Ev Op Resp)}
    (h : p.Part t) (hp : p.Uses φ) : ∀ e ∈ t, φ e.1 := by
  induction p generalizing t with
  | ret b => simp [show t = [] from h]
  | op o k ih =>
    rcases h with rfl | ⟨r, t', rfl, h⟩
    · simp
    · intro e he
      rcases List.mem_cons.mp he with rfl | he
      · exact hp.1
      · exact ih r h (hp.2 r) e he
  | iter body s k ihb ih =>
    obtain ⟨s', t₁, t₂, rfl, hr, ht₂⟩ := h
    intro e he
    rcases List.mem_append.mp he with he | he
    · exact hr.forall_mem (fun s u x hu => hu.uses (hp.1 s)) e he
    · rcases ht₂ with hb | ⟨c, u, v, rfl, hb, hk⟩
      · exact ihb s' hb (hp.1 s') e he
      · rcases List.mem_append.mp he with he | he
        · exact hb.uses (hp.1 s') e he
        · exact ih c hk (hp.2 c) e he

/-! ### Running a partial execution to its end -/

/-- The program has no unbounded loop and performs only operations in `φ`. -/
def Straight (φ : Op → Prop) {α : Type} : Prog Op Resp α → Prop
  | .ret _ => True
  | .op o k => φ o ∧ ∀ r, (k r).Straight φ
  | .iter _ _ _ => False

/-- The program has no unbounded loop. -/
abbrev LoopFree {α : Type} (p : Prog Op Resp α) : Prop := p.Straight fun _ => True

section straight

variable {φ ψ : Op → Prop}

theorem Straight.bind {p : Prog Op Resp α} {f : α → Prog Op Resp β}
    (hp : p.Straight φ) (hf : ∀ a, (f a).Straight φ) : (p >>= f).Straight φ := by
  show (p.bind f).Straight φ
  induction p with
  | ret a => exact hf a
  | op o k ih => exact ⟨hp.1, fun r => ih r (hp.2 r) hf⟩
  | iter => exact hp.elim

theorem Straight.mono (hφψ : ∀ o, φ o → ψ o) {p : Prog Op Resp α} (hp : p.Straight φ) :
    p.Straight ψ := by
  induction p with
  | ret a => trivial
  | op o k ih => exact ⟨hφψ o hp.1, fun r => ih r (hp.2 r)⟩
  | iter => exact hp.elim

theorem Straight.loopFree {p : Prog Op Resp α} (hp : p.Straight φ) : p.LoopFree :=
  hp.mono fun _ _ => trivial

theorem Straight.uses {p : Prog Op Resp α} (hp : p.Straight φ) : p.Uses φ := by
  induction p with
  | ret a => trivial
  | op o k ih => exact ⟨hp.1, fun r => ih r (hp.2 r)⟩
  | iter => exact hp.elim

@[simp] theorem straight_ret {a : α} : (ret a : Prog Op Resp α).Straight φ ↔ True := Iff.rfl

@[simp] theorem straight_pure {a : α} : (pure a : Prog Op Resp α).Straight φ ↔ True := Iff.rfl

theorem Straight.forM {f : β → Prog Op Resp Unit} (hf : ∀ b, (f b).Straight φ) (xs : List β) :
    Straight φ (xs.forM f) := by
  induction xs with
  | nil => trivial
  | cons x xs ih => exact (hf x).bind fun _ => ih

theorem Straight.foldlM {γ : Type} {f : β → γ → Prog Op Resp β}
    (hf : ∀ b c, (f b c).Straight φ) (b : β) (xs : List γ) : Straight φ (xs.foldlM f b) := by
  induction xs generalizing b with
  | nil => trivial
  | cons x xs ih => exact (hf b x).bind fun b' => ih b'

@[simp] theorem straight_perform {o : Op} :
    (perform o : Prog Op Resp (Resp o)).Straight φ ↔ φ o :=
  ⟨fun h => h.1, fun h => ⟨h, fun _ => trivial⟩⟩

@[simp] theorem straight_perform_bind {o : Op} {f : Resp o → Prog Op Resp β} :
    (perform o >>= f).Straight φ ↔ φ o ∧ ∀ r, (f r).Straight φ := Iff.rfl

end straight

/-- A loop-free program can always be run to its end, whatever it has done so
far, when every operation has an admissible response. -/
theorem Part.extend {ok : Ev Op Resp → Prop} (hok : ∀ o, ∃ r, ok ⟨o, r⟩) {p : Prog Op Resp α}
    (hp : p.LoopFree) {t : List (Ev Op Resp)} (h : p.Part t) :
    ∃ u a, p.Run (t ++ u) a ∧ ∀ e ∈ u, ok e := by
  induction p generalizing t with
  | ret a =>
    obtain rfl : t = [] := h
    exact ⟨[], a, ⟨rfl, rfl⟩, by simp⟩
  | op o k ih =>
    rcases h with rfl | ⟨r, t', rfl, h⟩
    · obtain ⟨r, hr⟩ := hok o
      obtain ⟨u, a, hu, hall⟩ := ih r (hp.2 r) (part_nil (k r))
      exact ⟨⟨o, r⟩ :: u, a, ⟨r, u, rfl, hu⟩, by simpa using ⟨hr, hall⟩⟩
    · obtain ⟨u, a, hu, hall⟩ := ih r (hp.2 r) h
      exact ⟨u, a, ⟨r, t' ++ u, rfl, hu⟩, hall⟩
  | iter => exact hp.elim

/-- The result of a program without loops whose operations `answer` responds to. -/
def eval (answer : (o : Op) → Resp o) {α : Type} : Prog Op Resp α → Option α
  | .ret a => some a
  | .op o k => (k (answer o)).eval answer
  | .iter _ _ _ => none

theorem Run.eval {answer : (o : Op) → Resp o} {p : Prog Op Resp α} (hp : p.LoopFree)
    {t : List (Ev Op Resp)} {a : α} (h : p.Run t a) (ht : ∀ e ∈ t, e.2 = answer e.1) :
    p.eval answer = some a := by
  induction p generalizing t with
  | ret b => exact congrArg some h.2
  | op o k ih =>
    obtain ⟨r, t, rfl, h⟩ := h
    obtain rfl : r = answer o := ht ⟨o, r⟩ List.mem_cons_self
    exact ih _ (hp.2 _) h fun e he => ht e (List.mem_cons_of_mem _ he)
  | iter => exact hp.elim

end Prog

/-! ### Properties of every prefix of a trace -/

/-- `P` holds of `t` and of everything that came before it. -/
def Always {ε : Type} (P : List ε → Prop) (t : List ε) : Prop := ∀ u, u <+: t → P u

theorem Always.self {ε : Type} {P : List ε → Prop} {t : List ε} (h : Always P t) : P t :=
  h t (List.prefix_refl t)

theorem Always.of_isPrefix {ε : Type} {P : List ε → Prop} {t u : List ε} (h : Always P t)
    (hu : u <+: t) : Always P u := fun v hv => h v (hv.trans hu)

theorem always_nil {ε : Type} {P : List ε → Prop} : Always P [] ↔ P [] :=
  ⟨fun h => h.self, fun h u hu => by rwa [List.prefix_nil.mp hu]⟩

/-- A stretch of events that `P` does not look at keeps `Always P`. -/
theorem Always.append {ε : Type} {P : List ε → Prop} {t u : List ε} (h : Always P t)
    (hu : ∀ v, v <+: u → P t → P (t ++ v)) : Always P (t ++ u) := by
  rintro w ⟨x, hw⟩
  rcases List.append_eq_append_iff.mp hw with ⟨a, rfl, -⟩ | ⟨v, rfl, rfl⟩
  · exact h w (List.prefix_append w a)
  · exact hu v (List.prefix_append v x) h.self

namespace Prog

variable {σ τ : Type}

/-- **The invariant rule for a task that is one loop.**  `Inv` relates the loop
state to the trace at the loop head; a full turn keeps it and a leaving turn
establishes the result, each with `P` along the way.  Then `P` holds of every
trace the task can have at any moment. -/
theorem always_of_part_iter {ok : Ev Op Resp → Prop} (hok : ∀ o, ∃ r, ok ⟨o, r⟩)
    {body : σ → Prog Op Resp (σ ⊕ τ)} {k : τ → Prog Op Resp α} {s : σ}
    {Inv : σ → List (Ev Op Resp) → Prop} {P : List (Ev Op Resp) → Prop}
    (hbody : ∀ s, (body s).LoopFree) (hk : ∀ c, (k c).LoopFree)
    (init : Inv s []) (head : ∀ s t, Inv s t → Always P t)
    (turn : ∀ s t u s', Inv s t → (body s).Run u (.inl s') → (∀ e ∈ u, ok e) → Inv s' (t ++ u))
    (leave : ∀ s t u c v b, Inv s t → (body s).Run u (.inr c) → (k c).Run v b →
      (∀ e ∈ u ++ v, ok e) → Always P (t ++ (u ++ v)))
    {t : List (Ev Op Resp)} (h : (iter body s k).Part t) (ht : ∀ e ∈ t, ok e) : Always P t := by
  obtain ⟨s', t₁, t₂, rfl, hr, ht₂⟩ := h
  have hInv : Inv s' t₁ := by
    have hr' := hr.restrict fun e he => ht e (List.mem_append_left _ he)
    simpa using hr'.invariant (fun s t u s' hI hb => turn s t u s' hI hb.1 hb.2) init
  rcases ht₂ with hb | ⟨c, u, v, rfl, hb, hkv⟩
  · obtain ⟨w, x, hw, hokw⟩ := hb.extend hok (hbody s')
    have hoku : ∀ e ∈ t₂ ++ w, ok e := by
      intro e he
      rcases List.mem_append.mp he with he | he
      · exact ht e (by simp [he])
      · exact hokw e he
    rcases x with s'' | c
    · exact (head _ _ (turn _ _ _ _ hInv hw hoku)).of_isPrefix ⟨w, by simp⟩
    · obtain ⟨v, b, hv, hokv⟩ := (part_nil (k c)).extend hok (hk c)
      refine (leave _ _ _ _ _ _ hInv hw hv ?_).of_isPrefix ⟨w ++ v, by simp⟩
      intro e he
      rcases List.mem_append.mp he with he | he
      · exact hoku e he
      · exact hokv e (by simpa using he)
  · obtain ⟨w, b, hw, hokw⟩ := hkv.extend hok (hk c)
    refine (leave _ _ _ _ _ _ hInv hb hw ?_).of_isPrefix ⟨w, by simp⟩
    intro e he
    rw [← List.append_assoc] at he
    rcases List.mem_append.mp he with he | he
    · exact ht e (List.mem_append_right _ he)
    · exact hokw e he

end Prog

end Conc
