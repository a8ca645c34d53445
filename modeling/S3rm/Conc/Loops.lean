/-
S3rm/Conc/Loops.lean

Loops whose turns are determined: every operation has one expected answer, and
from every loop state that can come up, these answers carry one turn to its end
(`Determined`).  Such a loop returns exactly when the chain of its loop states is
well-founded at the first (`Determined.returns_iff`), and when only finitely many
states can come up, that is when none of them comes back (`acc_iff_no_cycle`).
-/
import S3rm.Conc.Fallible
import Mathlib.Data.Fintype.Card
import Mathlib.Data.Set.Finite.Basic

namespace Conc

/-! ### Chains -/

section chain

variable {σ : Type} {r : σ → σ → Prop} {a : σ}

/-- Nothing accessible comes back. -/
theorem not_cycle_of_acc (h : Acc (Function.swap r) a) : ¬ Relation.TransGen r a a := by
  induction h with
  | intro a _ ih =>
    intro hcycle
    obtain ⟨b, hab, hba⟩ := Relation.TransGen.head'_iff.mp hcycle
    exact ih b hab (Relation.TransGen.tail' hba hab)

/-- What is ahead of something accessible is accessible. -/
theorem acc_of_path {b : σ} (h : Acc (Function.swap r) a) (hab : Relation.ReflTransGen r a b) :
    Acc (Function.swap r) b := by
  induction hab with
  | refl => exact h
  | tail _ hbc ih => exact ih.inv hbc

theorem no_cycle_of_acc (h : Acc (Function.swap r) a) :
    ¬ ∃ c, Relation.ReflTransGen r a c ∧ Relation.TransGen r c c := by
  rintro ⟨c, hac, hcycle⟩
  exact not_cycle_of_acc (acc_of_path h hac) hcycle

/-- **With finitely many successors in all, a chain ends unless it comes back.** -/
theorem acc_iff_no_cycle (hfin : {b | Relation.ReflTransGen r a b}.Finite) :
    Acc (Function.swap r) a ↔ ¬ ∃ c, Relation.ReflTransGen r a c ∧ Relation.TransGen r c c := by
  constructor
  · exact no_cycle_of_acc
  · intro hno
    have : Finite {b | Relation.ReflTransGen r a b} := hfin
    let below : {b | Relation.ReflTransGen r a b} → {b | Relation.ReflTransGen r a b} → Prop :=
      fun x y => Relation.TransGen r y.1 x.1
    have htrans : IsTrans _ below := ⟨fun x y z hxy hyz => hyz.trans hxy⟩
    have hirrefl : Std.Irrefl below := ⟨fun x hx => hno ⟨x.1, x.2, hx⟩⟩
    have hwf : WellFounded below := Finite.wellFounded_of_trans_of_irrefl below
    have hacc : ∀ x : {b | Relation.ReflTransGen r a b}, Acc (Function.swap r) x.1 := by
      intro x
      refine hwf.induction (C := fun x => Acc (Function.swap r) x.1) x ?_
      intro x ih
      apply Acc.intro
      intro y hxy
      exact ih ⟨y, x.2.tail hxy⟩ (Relation.TransGen.single hxy)
    exact hacc ⟨a, .refl⟩

end chain

/-! ### Determined loops -/

namespace Prog

variable {Op : Type} {Resp : Op → Type} {ε σ τ : Type} {ok : Ev Op Resp → Prop}
  {body : σ → Fallible ε Op Resp (σ ⊕ τ)}

theorem turnResult_injective : Function.Injective (turnResult : σ ⊕ Except ε τ → _) := by
  intro x y h
  rcases x with s | (e | c) <;> rcases y with s' | (e' | c') <;> cases h <;> rfl

/-- One turn is determined by the expected answers. -/
theorem Turn.determined (hdet : ∀ o r r', ok ⟨o, r⟩ → ok ⟨o, r'⟩ → r = r') {s : σ}
    {u u' : List (Ev Op Resp)} {x x' : σ ⊕ Except ε τ} (h : Turn body s u x)
    (h' : Turn body s u' x') (hu : ∀ e ∈ u, ok e) (hu' : ∀ e ∈ u', ok e) : u = u' ∧ x = x' := by
  have hpre : u <+: u' := Part.isPrefix_of_run hdet (Run.part h) h' hu hu'
  obtain ⟨rfl, hx⟩ := Run.eq_of_isPrefix h h' hpre
  exact ⟨rfl, turnResult_injective hx⟩

/-- From every loop state that can come up, the expected answers carry the turn
to the end that `next` says. -/
structure Determined (ok : Ev Op Resp → Prop) (body : σ → Fallible ε Op Resp (σ ⊕ τ))
    (good : σ → Prop) (next : σ → σ ⊕ Except ε τ) : Prop where
  answers : ∀ o r r', ok ⟨o, r⟩ → ok ⟨o, r'⟩ → r = r'
  turn : ∀ s, good s → ∃ u, Turn body s u (next s) ∧ ∀ e ∈ u, ok e
  good : ∀ s s', good s → next s = .inl s' → good s'

section determined

variable {good : σ → Prop} {next : σ → σ ⊕ Except ε τ}

/-- The loop returns along expected answers. -/
def Returns (ok : Ev Op Resp → Prop) (p : Fallible ε Op Resp τ) : Prop :=
  ∃ t r, Run p t r ∧ ∀ e ∈ t, ok e

theorem Determined.next_eq (h : Determined ok body good next) {s : σ} (hs : good s)
    {u : List (Ev Op Resp)} {x : σ ⊕ Except ε τ} (ht : Turn body s u x) (hu : ∀ e ∈ u, ok e) :
    next s = x := by
  obtain ⟨u', ht', hu'⟩ := h.turn s hs
  exact (ht'.determined h.answers ht hu' hu).2

theorem Determined.returns_of_acc (h : Determined ok body good next) {s : σ} (hs : good s)
    (hacc : Acc (fun s' s => next s = .inl s') s) : Returns ok (loop body s) := by
  induction hacc with
  | intro s _ ih =>
    obtain ⟨u, hturn, hu⟩ := h.turn s hs
    rcases hnext : next s with s' | r
    · rw [hnext] at hturn
      obtain ⟨t, r, hrun, ht⟩ := ih s' hnext (h.good s s' hs hnext)
      obtain ⟨s'', v, w, rfl, hrounds, hend⟩ := run_loop.mp hrun
      refine ⟨u ++ (v ++ w), r, run_loop.mpr ⟨s'', u ++ v, w, ?_, .cons hturn hrounds, hend⟩, ?_⟩
      · rw [List.append_assoc]
      · intro e he
        rcases List.mem_append.mp he with he | he
        · exact hu e he
        · exact ht e he
    · rw [hnext] at hturn
      exact ⟨u, r, run_loop.mpr ⟨s, [], u, rfl, .nil s, hturn⟩, hu⟩

theorem Determined.acc_of_returns (h : Determined ok body good next) {s : σ} (hs : good s)
    (hret : Returns ok (loop body s)) : Acc (fun s' s => next s = .inl s') s := by
  obtain ⟨t, r, hrun, ht⟩ := hret
  obtain ⟨s', u, v, rfl, hrounds, hend⟩ := run_loop.mp hrun
  simp only [List.mem_append] at ht
  induction hrounds with
  | nil s =>
    have hnext := h.next_eq hs hend fun e he => ht e (.inr he)
    apply Acc.intro
    intro y hy
    rw [hnext] at hy
    cases hy
  | @cons s u₁ s₁ u₂ s₂ hturn hrest ih =>
    simp only [List.mem_append] at ht
    have hnext := h.next_eq hs hturn fun e he => ht e (.inl (.inl he))
    apply Acc.intro
    intro y hy
    obtain rfl : s₁ = y := Sum.inl.inj (hnext.symm.trans hy)
    apply ih (h.good s s₁ hs hnext) (run_loop.mpr ⟨s₂, u₂, v, rfl, hrest, hend⟩) hend
    intro e he
    rcases he with he | he
    · exact ht e (.inl (.inr he))
    · exact ht e (.inr he)

/-- What a determined loop returns, its last turn does. -/
theorem Determined.last_turn (h : Determined ok body good next) {s : σ} (hs : good s)
    {t : List (Ev Op Resp)} {r : Except ε τ} (hrun : Run (loop body s) t r) (ht : ∀ e ∈ t, ok e) :
    ∃ s', good s' ∧ next s' = .inr r := by
  obtain ⟨s', u, v, rfl, hrounds, hend⟩ := run_loop.mp hrun
  simp only [List.mem_append] at ht
  have hgood : good s' := by
    have hrounds' := hrounds.restrict fun e he => ht e (.inl he)
    refine hrounds'.invariant (I := fun s _ => good s) ?_ (t := []) hs
    rintro s _ u s' hs ⟨hturn, hu⟩
    exact h.good s s' hs (h.next_eq hs hturn hu)
  exact ⟨s', hgood, h.next_eq hgood hend fun e he => ht e (.inr he)⟩

/-- **A determined loop returns** exactly when its states do not go on for ever. -/
theorem Determined.returns_iff (h : Determined ok body good next) {s : σ} (hs : good s) :
    Returns ok (loop body s) ↔ Acc (fun s' s => next s = .inl s') s :=
  ⟨h.acc_of_returns hs, h.returns_of_acc hs⟩

end determined

end Prog

end Conc
