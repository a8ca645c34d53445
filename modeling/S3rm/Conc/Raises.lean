/-
S3rm/Conc/Raises.lean

Where the errors of a program come from.  `Raises ok E x` says that, as long as
every answer is `ok`, the program `x` fails only with errors that are `E`.  There
is one rule for each way of making a program, so that a verdict follows the code
line by line; a program that looks at the result of another one (`attempt`) may
count on its verdict.
-/
import S3rm.Conc.Fallible

namespace Conc

namespace Prog

variable {Op : Type} {Resp : Op → Type} {ε α β σ τ : Type} {ok : Ev Op Resp → Prop} {E : ε → Prop}
  {t : List (Ev Op Resp)}

/-- Answered as it should be, the program fails with an `E` or not at all. -/
def Raises (ok : Ev Op Resp → Prop) (E : ε → Prop) (x : Fallible ε Op Resp α) : Prop :=
  ∀ t e, Run x t (.error e) → (∀ ev ∈ t, ok ev) → E e

namespace Raises

theorem pure (a : α) : Raises ok E (pure a : Fallible ε Op Resp α) := by
  rintro t e ⟨-, he⟩ -
  cases he

theorem throw {e : ε} (he : E e) : Raises ok E (throw e : Fallible ε Op Resp α) := by
  rintro t e' ⟨-, heq⟩ -
  cases heq
  exact he

theorem ofResult {x : Except ε α} (hx : ∀ e, x = .error e → E e) :
    Raises ok E (ofResult x : Fallible ε Op Resp α) := by
  rintro t e ⟨-, heq⟩ -
  exact hx e heq

/-- What cannot fail raises nothing. -/
theorem lift (p : Prog Op Resp α) : Raises ok E (liftM p : Fallible ε Op Resp α) := by
  intro t e h _
  obtain ⟨_, -, he⟩ := run_fallible_lift.mp h
  cases he

/-- An operation whose answer the rest takes as its result. -/
theorem op {o : Op} {k : Resp o → Prog Op Resp (Except ε α)}
    (h : ∀ r, ok ⟨o, r⟩ → Raises ok E (k r)) : Raises ok E (Prog.op o k : Fallible ε Op Resp α) := by
  rintro t e ⟨r, u, rfl, hrun⟩ hok
  exact h r (hok _ List.mem_cons_self) u e hrun fun ev hev => hok ev (List.mem_cons_of_mem _ hev)

section bind

variable {x : Fallible ε Op Resp α} {f : α → Fallible ε Op Resp β}

theorem bind (hx : Raises ok E x) (hf : ∀ a, Raises ok E (f a)) :
    Raises ok E (x >>= f : Fallible ε Op Resp β) := by
  intro t e h hok
  rcases run_fallible_bind.mp h with ⟨e', h, he⟩ | ⟨t₁, a, t₂, rfl, -, h⟩
  · cases he
    exact hx t e h hok
  · exact hf a t₂ e h fun ev hev => hok ev (List.mem_append_right _ hev)

/-- An operation, then the rest. -/
theorem ask_bind {o : Op} {f : Resp o → Fallible ε Op Resp β}
    (hf : ∀ r, ok ⟨o, r⟩ → Raises ok E (f r)) :
    Raises ok E (liftM (perform o) >>= f : Fallible ε Op Resp β) := op hf

/-- Whoever looks at the result finds an error that is an `E`, if any. -/
theorem attempt_bind {f : Except ε α → Fallible ε Op Resp β} (hx : Raises ok E x)
    (hok : ∀ a, Raises ok E (f (.ok a))) (herror : ∀ e, E e → Raises ok E (f (.error e))) :
    Raises ok E (attempt x >>= f : Fallible ε Op Resp β) := by
  intro t e h hevents
  obtain ⟨t₁, r, t₂, rfl, h₁, h₂⟩ := run_attempt_bind.mp h
  have h₂' : ∀ ev ∈ t₂, ok ev := fun ev hev => hevents ev (List.mem_append_right _ hev)
  rcases r with e' | a
  · have he : E e' := hx t₁ e' h₁ fun ev hev => hevents ev (List.mem_append_left _ hev)
    exact herror e' he t₂ e h₂ h₂'
  · exact hok a t₂ e h₂ h₂'

end bind

theorem foldlM {f : β → α → Fallible ε Op Resp β} (hf : ∀ b a, Raises ok E (f b a)) (b : β)
    (xs : List α) : Raises ok E (xs.foldlM f b : Fallible ε Op Resp β) := by
  induction xs generalizing b with
  | nil => exact pure b
  | cons a xs ih => exact (hf b a).bind fun b' => ih b'

/-- **The rule for loops**: an invariant of the loop head, and what a turn raises
from there. -/
theorem loop_of {body : σ → Fallible ε Op Resp (σ ⊕ τ)} {s : σ} (I : σ → Prop) (init : I s)
    (next : ∀ s u s', I s → Turn body s u (.inl s') → (∀ ev ∈ u, ok ev) → I s')
    (hbody : ∀ s, I s → Raises ok E (body s)) : Raises ok E (loop body s) := by
  intro t e h hok
  obtain ⟨s', u, v, rfl, hrounds, hv⟩ := run_loop.mp h
  have hinv : (∀ ev ∈ u, ok ev) → I s' := by
    refine hrounds.invariant (t := []) (I := fun s t => (∀ ev ∈ t, ok ev) → I s) ?_ fun _ => init
    intro s t u s' hI hu hok
    exact next s u s' (hI fun ev hev => hok ev (List.mem_append_left _ hev)) hu
      fun ev hev => hok ev (List.mem_append_right _ hev)
  apply hbody s' (hinv fun ev hev => hok ev (List.mem_append_left _ hev)) v e hv
  exact fun ev hev => hok ev (List.mem_append_right _ hev)

theorem loop {body : σ → Fallible ε Op Resp (σ ⊕ τ)} (hbody : ∀ s, Raises ok E (body s)) (s : σ) :
    Raises ok E (loop body s) :=
  loop_of (fun _ => True) trivial (fun _ _ _ _ _ _ => trivial) fun s _ => hbody s

end Raises

end Prog

end Conc
