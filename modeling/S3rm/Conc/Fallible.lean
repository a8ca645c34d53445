/-
S3rm/Conc/Fallible.lean

Programs that may fail: `Fallible ε Op Resp α` is a program returning
`Except ε α`, with `do` notation stopping at the first error.  This module
turns the run lemmas of `Conc.Prog` into that shape and adds `loop`, a loop
whose body goes on, returns or fails:

    run_loop          complete runs of a loop are full turns and a last one
    always_of_loop    the invariant rule, for every moment of a loop

`Turn body s u x` is one turn: from loop state `s`, with trace `u`, ending in
`x`, which is the next loop state or the result of the whole loop.
-/
import S3rm.Conc.Prog

namespace Conc

/-- Programs that return `Except ε α`. -/
abbrev Fallible (ε : Type) (Op : Type) (Resp : Op → Type) := ExceptT ε (Prog Op Resp)

namespace Prog

variable {Op : Type} {Resp : Op → Type} {ε α β σ τ : Type} {t : List (Ev Op Resp)}

/-- A computed result as a program. -/
def ofResult (x : Except ε α) : Fallible ε Op Resp α := .ret x

/-- Run a program that may fail and look at its result. -/
def attempt (x : Fallible ε Op Resp α) : Fallible ε Op Resp (Except ε α) :=
  ExceptT.lift x.run

/-- Fail with `e` if `c` holds. -/
def throwIf (c : Bool) (e : ε) : Fallible ε Op Resp Unit := if c then throw e else pure ()

/-! ### Runs -/

theorem run_fallible_bind {x : Fallible ε Op Resp α} {f : α → Fallible ε Op Resp β}
    {r : Except ε β} :
    Run (x >>= f : Fallible ε Op Resp β) t r ↔
      (∃ e, Run x t (.error e) ∧ r = .error e) ∨
        ∃ t₁ a t₂, t = t₁ ++ t₂ ∧ Run x t₁ (.ok a) ∧ Run (f a) t₂ r := by
  show Run (Prog.bind x _) t r ↔ _
  rw [run_bind']
  constructor
  · rintro ⟨t₁, (e | a), t₂, rfl, h₁, h₂⟩
    · obtain ⟨rfl, rfl⟩ := h₂
      exact .inl ⟨e, by simpa using h₁, rfl⟩
    · exact .inr ⟨t₁, a, t₂, rfl, h₁, h₂⟩
  · rintro (⟨e, h, rfl⟩ | ⟨t₁, a, t₂, rfl, h₁, h₂⟩)
    · exact ⟨t, .error e, [], by simp, h, rfl, rfl⟩
    · exact ⟨t₁, .ok a, t₂, rfl, h₁, h₂⟩

@[simp] theorem run_fallible_pure {a : α} {r : Except ε α} :
    Run (pure a : Fallible ε Op Resp α) t r ↔ t = [] ∧ .ok a = r := Iff.rfl

@[simp] theorem run_fallible_throw {e : ε} {r : Except ε α} :
    Run (throw e : Fallible ε Op Resp α) t r ↔ t = [] ∧ .error e = r := Iff.rfl

@[simp] theorem run_ofResult {x r : Except ε α} :
    Run (ofResult x : Fallible ε Op Resp α) t r ↔ t = [] ∧ x = r := Iff.rfl

/-- A check that was passed: its condition does not hold. -/
theorem run_throwIf {c : Bool} {e : ε} :
    Run (throwIf c e : Fallible ε Op Resp Unit) t (.ok ()) ↔ t = [] ∧ c = false := by
  cases c with
  | true =>
    show t = [] ∧ Except.error e = Except.ok () ↔ _
    simp
  | false =>
    show t = [] ∧ Except.ok () = Except.ok () ↔ _
    simp

@[simp] theorem run_fallible_lift {p : Prog Op Resp α} {r : Except ε α} :
    Run (liftM p : Fallible ε Op Resp α) t r ↔ ∃ a, Run p t a ∧ .ok a = r :=
  run_map

/-- A program that cannot fail, then the rest. -/
theorem run_lift_bind {p : Prog Op Resp α} {f : α → Fallible ε Op Resp β} {r : Except ε β} :
    Run (liftM p >>= f : Fallible ε Op Resp β) t r ↔
      ∃ t₁ a t₂, t = t₁ ++ t₂ ∧ Run p t₁ a ∧ Run (f a) t₂ r := by
  rw [run_fallible_bind]
  constructor
  · rintro (⟨e, h, -⟩ | ⟨t₁, a, t₂, rfl, h, hf⟩)
    · obtain ⟨a, -, ha⟩ := run_fallible_lift.mp h
      cases ha
    · obtain ⟨a', h, ha⟩ := run_fallible_lift.mp h
      cases ha
      exact ⟨t₁, a, t₂, rfl, h, hf⟩
  · rintro ⟨t₁, a, t₂, rfl, h, hf⟩
    exact .inr ⟨t₁, a, t₂, rfl, run_fallible_lift.mpr ⟨a, h, rfl⟩, hf⟩

/-- An operation, then the rest: its response heads the trace. -/
theorem run_ask_bind {o : Op} {f : Resp o → Fallible ε Op Resp β} {r : Except ε β} :
    Run (liftM (perform o) >>= f : Fallible ε Op Resp β) t r ↔
      ∃ a u, t = ⟨o, a⟩ :: u ∧ Run (f a) u r := by
  simp only [run_lift_bind, run_perform]
  constructor
  · rintro ⟨_, a, u, rfl, rfl, h⟩
    exact ⟨a, u, rfl, h⟩
  · rintro ⟨a, u, rfl, h⟩
    exact ⟨[⟨o, a⟩], a, u, rfl, rfl, h⟩

/-- A program that succeeds, and then the rest. -/
theorem run_bind_ok {x : Fallible ε Op Resp α} {f : α → Fallible ε Op Resp β} {b : β} :
    Run (x >>= f : Fallible ε Op Resp β) t (.ok b) ↔
      ∃ t₁ a t₂, t = t₁ ++ t₂ ∧ Run x t₁ (.ok a) ∧ Run (f a) t₂ (.ok b) := by
  rw [run_fallible_bind]
  constructor
  · rintro (⟨e, -, he⟩ | h)
    · cases he
    · exact h
  · exact .inr

theorem run_attempt_bind {x : Fallible ε Op Resp α} {f : Except ε α → Fallible ε Op Resp β}
    {r : Except ε β} :
    Run (attempt x >>= f : Fallible ε Op Resp β) t r ↔
      ∃ t₁ a t₂, t = t₁ ++ t₂ ∧ Run x t₁ a ∧ Run (f a) t₂ r := run_lift_bind

theorem run_ofResult_bind {x : Except ε α} {f : α → Fallible ε Op Resp β} {r : Except ε β} :
    Run (ofResult x >>= f : Fallible ε Op Resp β) t r ↔
      (∃ e, x = .error e ∧ t = [] ∧ r = .error e) ∨ ∃ a, x = .ok a ∧ Run (f a) t r := by
  rw [run_fallible_bind]
  rcases x with e | a
  · simp
  · simp

/-- The invariant rule for a fold that may fail: it ends with the invariant, or
fails at an element up to which the invariant holds. -/
theorem run_fallible_foldlM {f : β → α → Fallible ε Op Resp β}
    {I : List α → List (Ev Op Resp) → β → Prop}
    (step : ∀ xs x t u b b', I xs t b → Run (f b x) u (.ok b') → I (xs ++ [x]) (t ++ u) b')
    {xs : List α} {t : List (Ev Op Resp)} {b : β} {r : Except ε β} (h₀ : I [] [] b)
    (h : Run (xs.foldlM f b : Fallible ε Op Resp β) t r) :
    (∃ b', r = .ok b' ∧ I xs t b') ∨
      ∃ x xs₁ xs₂ t₁ t₂ b₁ e, xs = xs₁ ++ x :: xs₂ ∧ t = t₁ ++ t₂ ∧ I xs₁ t₁ b₁ ∧
        Run (f b₁ x) t₂ (.error e) ∧ r = .error e := by
  suffices go : ∀ (ys xs : List α) (u t : List (Ev Op Resp)) (b : β), I ys u b →
      Run (xs.foldlM f b : Fallible ε Op Resp β) t r →
      (∃ b', r = .ok b' ∧ I (ys ++ xs) (u ++ t) b') ∨
        ∃ x xs₁ xs₂ t₁ t₂ b₁ e, xs = xs₁ ++ x :: xs₂ ∧ t = t₁ ++ t₂ ∧ I (ys ++ xs₁) (u ++ t₁) b₁ ∧
          Run (f b₁ x) t₂ (.error e) ∧ r = .error e from go [] xs [] t b h₀ h
  intro ys xs
  induction xs generalizing ys with
  | nil =>
    rintro u t b hI ⟨rfl, rfl⟩
    exact .inl ⟨b, rfl, by simpa using hI⟩
  | cons x xs ih =>
    intro u t b hI h
    rcases run_fallible_bind.mp h with ⟨e, h₁, rfl⟩ | ⟨t₁, c, t₂, rfl, h₁, h₂⟩
    · exact .inr ⟨x, [], xs, [], t, b, e, rfl, rfl, by simpa using hI, h₁, rfl⟩
    · rcases ih (ys ++ [x]) (u ++ t₁) t₂ c (step _ _ _ _ _ _ hI h₁) h₂ with ⟨b', rfl, hI'⟩ |
        ⟨z, xs₁, xs₂, v₁, v₂, b₁, e, rfl, rfl, hI', hz, rfl⟩
      · exact .inl ⟨b', rfl, by simpa using hI'⟩
      · refine .inr ⟨z, x :: xs₁, xs₂, t₁ ++ v₁, v₂, b₁, e, rfl, by simp, ?_, hz, rfl⟩
        simpa using hI'

/-! ### What a fallible program may perform -/

section straight

variable {φ : Op → Prop} {x : Fallible ε Op Resp α} {f : α → Fallible ε Op Resp β}

theorem Straight.fallible_bind (hx : Straight φ x) (hf : ∀ a, Straight φ (f a)) :
    Straight φ (x >>= f : Fallible ε Op Resp β) := by
  refine Straight.bind (p := (x : Prog Op Resp (Except ε α))) hx ?_
  rintro (e | a)
  · trivial
  · exact hf a

/-- A fold, where what is done about each element is covered. -/
theorem Straight.fallible_foldlM_mem {f : β → α → Fallible ε Op Resp β} (xs : List α)
    (hf : ∀ b, ∀ a ∈ xs, Straight φ (f b a)) (b : β) :
    Straight φ (xs.foldlM f b : Fallible ε Op Resp β) := by
  induction xs generalizing b with
  | nil => trivial
  | cons a xs ih =>
    exact (hf b a List.mem_cons_self).fallible_bind
      (ih fun b a ha => hf b a (List.mem_cons_of_mem _ ha))

theorem Straight.lift {p : Prog Op Resp α} (hp : Straight φ p) :
    Straight φ (liftM p : Fallible ε Op Resp α) :=
  Straight.bind hp fun _ => trivial

theorem Straight.attempt (hx : Straight φ x) : Straight φ (attempt x) := Straight.lift hx

@[simp] theorem straight_fallible_pure {a : α} :
    Straight φ (pure a : Fallible ε Op Resp α) ↔ True := Iff.rfl

@[simp] theorem straight_throw {e : ε} :
    Straight φ (throw e : Fallible ε Op Resp α) ↔ True := Iff.rfl

@[simp] theorem straight_ofResult {x : Except ε α} :
    Straight φ (ofResult x : Fallible ε Op Resp α) ↔ True := Iff.rfl

@[simp] theorem straight_ask {o : Op} :
    Straight φ (liftM (perform o) : Fallible ε Op Resp (Resp o)) ↔ φ o :=
  ⟨fun h => h.1, fun h => ⟨h, fun _ => trivial⟩⟩

@[simp] theorem straight_ask_bind {o : Op} {f : Resp o → Fallible ε Op Resp β} :
    Straight φ (liftM (perform o) >>= f : Fallible ε Op Resp β) ↔ φ o ∧ ∀ r, Straight φ (f r) :=
  Iff.rfl

end straight

/-! ### Loops -/

/-- What a turn that ended in `x` returned. -/
def turnResult : σ ⊕ Except ε τ → Except ε (σ ⊕ τ)
  | .inl s => .ok (.inl s)
  | .inr (.ok c) => .ok (.inr c)
  | .inr (.error e) => .error e

/-- How the loop goes on after its body returned. -/
def nextTurn : Except ε (σ ⊕ τ) → σ ⊕ Except ε τ
  | .ok (.inl s) => .inl s
  | .ok (.inr c) => .inr (.ok c)
  | .error e => .inr (.error e)

/-- `loop { .. }` around a body that may fail. -/
def loop (body : σ → Fallible ε Op Resp (σ ⊕ τ)) (s : σ) : Fallible ε Op Resp τ :=
  .iter (fun s => Prog.bind (body s) fun x => .ret (nextTurn x)) s .ret

/-- One turn of a loop. -/
def Turn (body : σ → Fallible ε Op Resp (σ ⊕ τ)) (s : σ) (u : List (Ev Op Resp))
    (x : σ ⊕ Except ε τ) : Prop := Run (body s) u (turnResult x)

theorem turn_iff {body : σ → Fallible ε Op Resp (σ ⊕ τ)} {s : σ} {x : σ ⊕ Except ε τ} :
    Run (Prog.bind (body s) fun x => .ret (nextTurn x)) t x ↔ Turn body s t x := by
  rw [run_bind']
  constructor
  · rintro ⟨t₁, y, _, rfl, h, rfl, rfl⟩
    rcases y with e | (s' | c) <;> simpa [Turn, turnResult, nextTurn] using h
  · intro h
    refine ⟨t, turnResult x, [], by simp, h, rfl, ?_⟩
    rcases x with s' | (e | c) <;> rfl

theorem run_loop {body : σ → Fallible ε Op Resp (σ ⊕ τ)} {s : σ} {r : Except ε τ} :
    Run (loop body s) t r ↔ ∃ s' u v, t = u ++ v ∧ Rounds (Turn body) s u s' ∧
      Turn body s' v (.inr r) := by
  constructor
  · rintro ⟨s', c, u, v, _, rfl, hr, hb, rfl, rfl⟩
    exact ⟨s', u, v, by simp, hr.mono fun _ _ _ => turn_iff.mp, turn_iff.mp hb⟩
  · rintro ⟨s', u, v, rfl, hr, hv⟩
    exact ⟨s', r, u, v, [], by simp, hr.mono fun _ _ _ => turn_iff.mpr, turn_iff.mpr hv, rfl, rfl⟩

theorem Uses.loop {φ : Op → Prop} {body : σ → Fallible ε Op Resp (σ ⊕ τ)}
    (hbody : ∀ s, Straight φ (body s)) (s : σ) : Uses φ (loop body s) :=
  ⟨fun s => (Straight.bind (p := (body s : Prog Op Resp (Except ε (σ ⊕ τ)))) (hbody s)
    fun _ => straight_ret.mpr trivial).uses, fun _ => trivial⟩

/-- A run of a loop that starts with full turns goes on from there. -/
theorem Run.of_rounds {body : σ → Fallible ε Op Resp (σ ⊕ τ)} {s s' : σ} {t u : List (Ev Op Resp)}
    {r : Except ε τ} (ht : Rounds (Turn body) s t s') (h : Run (loop body s) (t ++ u) r) :
    Run (loop body s') u r := by
  induction ht with
  | nil s => exact h
  | @cons s t₁ s₁ t₂ s₂ hb _ ih =>
    refine ih ?_
    rw [List.append_assoc] at h
    obtain ⟨s₃, v, w, he, hr, hw⟩ := run_loop.mp h
    cases hr with
    | nil =>
      obtain ⟨-, hc⟩ := Run.deterministic hb hw (List.prefix_append t₁ (t₂ ++ u)) ⟨[], by simp [he]⟩
      rcases r with e | c <;> cases hc
    | @cons _ v₁ s₄ v₂ _ hb' hr' =>
      rw [List.append_assoc] at he
      obtain ⟨rfl, hc⟩ := Run.deterministic hb hb' (List.prefix_append t₁ (t₂ ++ u)) ⟨v₂ ++ w, he.symm⟩
      obtain rfl : s₁ = s₄ := Sum.inl.inj (Except.ok.inj hc)
      rw [List.append_cancel_left he]
      exact run_loop.mpr ⟨s₃, v₂, w, rfl, hr', hw⟩

/-- **The invariant rule for a loop that may fail**: what `Inv` relates at the
loop head is kept by every turn that goes on, and every turn keeps `P`.  Then
`P` holds at every moment. -/
theorem always_of_loop {ok : Ev Op Resp → Prop} (hok : ∀ o, ∃ r, ok ⟨o, r⟩)
    {body : σ → Fallible ε Op Resp (σ ⊕ τ)} {s : σ} {Inv : σ → List (Ev Op Resp) → Prop}
    {P : List (Ev Op Resp) → Prop} (hbody : ∀ s, LoopFree (body s)) (init : Inv s [])
    (head : ∀ s t, Inv s t → Always P t)
    (turn : ∀ s t u s', Inv s t → Turn body s u (.inl s') → (∀ e ∈ u, ok e) → Inv s' (t ++ u))
    (leave : ∀ s t u r, Inv s t → Turn body s u (.inr r) → (∀ e ∈ u, ok e) → Always P (t ++ u))
    (h : Part (loop body s) t) (ht : ∀ e ∈ t, ok e) : Always P t := by
  refine always_of_part_iter (k := .ret) hok (fun s => ?_) (fun _ => straight_ret.mpr trivial) init head ?_ ?_ h ht
  · exact Straight.bind (p := (body s : Prog Op Resp (Except ε (σ ⊕ τ)))) (hbody s)
      fun _ => straight_ret.mpr trivial
  · exact fun s t u s' hI hb => turn s t u s' hI (turn_iff.mp hb)
  · rintro s t u c v b hI hb ⟨rfl, rfl⟩ hu
    simpa using leave s t u c hI (turn_iff.mp hb) (by simpa using hu)

/-- The rule for properties of every moment: `I` holds at the loop head, and
`P` during every turn from there. -/
theorem part_of_loop {ok : Ev Op Resp → Prop} (hok : ∀ o, ∃ r, ok ⟨o, r⟩)
    {body : σ → Fallible ε Op Resp (σ ⊕ τ)} {s : σ} {I : σ → List (Ev Op Resp) → Prop}
    {P : List (Ev Op Resp) → Prop} (hbody : ∀ s, LoopFree (body s)) (init : I s []) (nil : P [])
    (moment : ∀ s t u x, I s t → Turn body s u x → (∀ e ∈ u, ok e) → ∀ v, v <+: u → P (t ++ v))
    (next : ∀ s t u s', I s t → Turn body s u (.inl s') → (∀ e ∈ u, ok e) → I s' (t ++ u))
    (h : Part (loop body s) t) (ht : ∀ e ∈ t, ok e) : P t := by
  have keep : ∀ s t u x, I s t ∧ Always P t → Turn body s u x → (∀ e ∈ u, ok e) →
      Always P (t ++ u) := fun s t u x hI hu hok =>
    hI.2.append fun v hv _ => moment s t u x hI.1 hu hok v hv
  have inv : (fun s t => I s t ∧ Always P t) s [] := ⟨init, always_nil.mpr nil⟩
  refine (always_of_loop hok hbody inv (fun _ _ h => h.2) (fun s t u s' hI hu hok => ?_)
    (fun s t u r => keep s t u (.inr r)) h ht).self
  exact ⟨next s t u s' hI.1 hu hok, keep s t u (.inl s') hI hu hok⟩

/-- The rule for loops without a state of their own. -/
theorem part_of_turns {ok : Ev Op Resp → Prop} (hok : ∀ o, ∃ r, ok ⟨o, r⟩)
    {body : σ → Fallible ε Op Resp (σ ⊕ τ)} {s : σ} {P : List (Ev Op Resp) → Prop}
    (hbody : ∀ s, LoopFree (body s)) (init : P [])
    (turn : ∀ s t u x, P t → Turn body s u x → (∀ e ∈ u, ok e) → ∀ v, v <+: u → P (t ++ v))
    (h : Part (loop body s) t) (ht : ∀ e ∈ t, ok e) : P t :=
  part_of_loop (I := fun _ t => P t) hok hbody init init turn
    (fun s t u s' hP hu hok => turn s t u (.inl s') hP hu hok u (List.prefix_refl u)) h ht

/-- At every moment a loop has gone through full turns and is in another turn. -/
theorem part_loop {ok : Ev Op Resp → Prop} (hok : ∀ o, ∃ r, ok ⟨o, r⟩)
    {body : σ → Fallible ε Op Resp (σ ⊕ τ)} {s : σ} (hbody : ∀ s, LoopFree (body s))
    (h : Part (loop body s) t) :
    ∃ s' u v w x, t = u ++ v ∧ Rounds (Turn body) s u s' ∧ Turn body s' (v ++ w) x ∧
      ∀ e ∈ w, ok e := by
  obtain ⟨s', u, v, rfl, hr, hv⟩ := h
  refine ⟨s', u, v, ?_⟩
  rcases hv with hv | ⟨c, v₁, v₂, rfl, hv, rfl⟩
  · obtain ⟨w, x, hw, hokw⟩ := hv.extend hok (Straight.bind (p := (body s' :
      Prog Op Resp (Except ε (σ ⊕ τ)))) (hbody s') fun _ => straight_ret.mpr trivial)
    exact ⟨w, x, rfl, hr.mono fun _ _ _ => turn_iff.mp, turn_iff.mp hw, hokw⟩
  · refine ⟨[], .inr c, rfl, hr.mono fun _ _ _ => turn_iff.mp, ?_, by simp⟩
    simpa using turn_iff.mp hv

/-- The rule for complete runs: `I` holds where the last turn starts. -/
theorem run_of_loop {ok : Ev Op Resp → Prop} {body : σ → Fallible ε Op Resp (σ ⊕ τ)} {s : σ}
    {I : σ → List (Ev Op Resp) → Prop} {r : Except ε τ} (init : I s [])
    (next : ∀ s t u s', I s t → Turn body s u (.inl s') → (∀ e ∈ u, ok e) → I s' (t ++ u))
    (h : Run (loop body s) t r) (ht : ∀ e ∈ t, ok e) :
    ∃ s' u v, t = u ++ v ∧ I s' u ∧ Turn body s' v (.inr r) ∧ ∀ e ∈ v, ok e := by
  obtain ⟨s', u, v, rfl, hr, hv⟩ := run_loop.mp h
  have hr' := hr.restrict fun e he => ht e (List.mem_append_left _ he)
  refine ⟨s', u, v, rfl, ?_, hv, fun e he => ht e (List.mem_append_right _ he)⟩
  simpa using hr'.invariant (fun s t u s' hI hb => next s t u s' hI hb.1 hb.2) init

end Prog

end Conc
