/-
S3rm/Conc/Settling.lean

Tasks that come to rest.  A loop is guarded by a kind of events when it has no loop
inside and every turn after which it goes on shows an event of the kind.  A task
whose loops are guarded, and that sees finitely many such events, makes finitely
many steps, whatever the other tasks go on doing (`Path.settles`).

A path is an infinite course of the system, which may stand still.  Nothing is
assumed of its scheduling here.
-/
import S3rm.Conc.Fallible
import S3rm.Conc.Machine
import Mathlib.Data.Set.Finite.Lemmas
import Mathlib.Order.Interval.Set.Nat

namespace Conc

variable {ι Op ρ σ : Type} {Resp : Op → Type} {α β : Type}

/-! ### Sequences -/

/-- A sequence that only ever goes down in an accessible way comes to rest. -/
theorem eventually_eq_of_acc {X : Type*} {r : X → X → Prop} {x : ℕ → X} {N : ℕ}
    (hacc : Acc r (x N)) (hx : ∀ n ≥ N, x (n + 1) = x n ∨ r (x (n + 1)) (x n)) :
    ∃ K ≥ N, ∀ n ≥ K, x n = x K := by
  generalize ha : x N = a at hacc
  induction hacc generalizing N with
  | intro a _ ih =>
    subst ha
    by_cases hrest : ∀ n ≥ N, x n = x N
    · exact ⟨N, le_rfl, hrest⟩
    · -- the first move goes down, and the rest comes to rest
      push Not at hrest
      classical
      have hfirst := Nat.find_spec hrest
      obtain ⟨m, hm⟩ : ∃ m, Nat.find hrest = m + 1 := by
        refine Nat.exists_eq_succ_of_ne_zero fun hzero => ?_
        rw [hzero] at hfirst
        obtain rfl : N = 0 := by omega
        exact hfirst.2 rfl
      rw [hm] at hfirst
      have hNm : N ≤ m := by
        by_contra hlt
        obtain rfl : N = m + 1 := by omega
        exact hfirst.2 rfl
      have hbefore : x m = x N := by
        by_contra hne
        exact Nat.find_min hrest (by omega) ⟨hNm, hne⟩
      have hmove : r (x (m + 1)) (x N) := by
        rcases hx m hNm with heq | hr
        · exact absurd (heq.trans hbefore) hfirst.2
        · rwa [hbefore] at hr
      obtain ⟨K, hK, hrest⟩ := ih _ hmove (N := m + 1) (fun n hn => hx n (by omega)) rfl
      exact ⟨K, by omega, hrest⟩

/-- A bounded count comes to rest. -/
theorem eventually_eq_of_bounded {f : ℕ → ℕ} (hmono : Monotone f) (hbound : ∃ k, ∀ n, f n ≤ k) :
    ∃ N, ∀ n ≥ N, f n = f N := by
  obtain ⟨k, hk⟩ := hbound
  have hfinite : (Set.range f).Finite :=
    (Set.finite_Iic k).subset (Set.range_subset_iff.mpr hk)
  obtain ⟨_, ⟨N, rfl⟩, hN⟩ := Set.exists_max_image _ id hfinite (Set.range_nonempty f)
  exact ⟨N, fun n hn => le_antisymm (hN _ (Set.mem_range_self n)) (hmono hn)⟩

/-! ### Guarded programs -/

namespace Prog

variable {mark : Ev Op Resp → Bool}

/-- No loop has a loop inside, and every turn after which a loop goes on shows an
event of the kind. -/
def Guarded (mark : Ev Op Resp → Bool) {α : Type} : Prog Op Resp α → Prop
  | .ret _ => True
  | .op _ k => ∀ r, (k r).Guarded mark
  | .iter body _ k => (∀ s, (body s).LoopFree) ∧
      (∀ s t s', (body s).Run t (.inl s') → ∃ e ∈ t, mark e) ∧ ∀ c, (k c).Guarded mark

theorem Guarded.bind {p : Prog Op Resp α} {f : α → Prog Op Resp β} (hp : p.Guarded mark)
    (hf : ∀ a, (f a).Guarded mark) : (p.bind f).Guarded mark := by
  induction p with
  | ret a => exact hf a
  | op o k ih => exact fun r => ih r (hp r) hf
  | iter body s k _ ih => exact ⟨hp.1, hp.2.1, fun c => ih c (hp.2.2 c) hf⟩

theorem LoopFree.guarded {p : Prog Op Resp α} (hp : p.LoopFree) : p.Guarded mark := by
  induction p with
  | ret a => trivial
  | op o k ih => exact fun r => ih r (hp.2 r)
  | iter => exact hp.elim

theorem Guarded.unroll {σ' τ : Type} {body : σ' → Prog Op Resp (σ' ⊕ τ)} {s : σ'}
    {k : τ → Prog Op Resp α} (h : (iter body s k).Guarded mark) :
    (unroll body s k).Guarded mark := by
  refine (h.1 s).guarded.bind ?_
  rintro (s' | c)
  · exact h
  · exact h.2.2 c

/-- A loop whose turns go on only after an event of the kind. -/
theorem guarded_loop {ε σ' τ : Type} {body : σ' → Fallible ε Op Resp (σ' ⊕ τ)}
    (hbody : ∀ s, LoopFree (body s))
    (hturn : ∀ s t s', Turn body s t (.inl s') → ∃ e ∈ t, mark e) (s : σ') :
    Guarded mark (loop body s) := by
  refine ⟨fun s => (hbody s).bind fun _ => trivial, fun s t s' ht => ?_, fun _ => trivial⟩
  exact hturn s t s' (turn_iff.mp ht)

/-- As long as there is no event of the kind, the program goes to its end. -/
inductive Ends (mark : Ev Op Resp → Bool) : {α : Type} → Prog Op Resp α → Prop
  | ret {α : Type} (a : α) : Ends mark (.ret a)
  | op {α : Type} {o : Op} {k : Resp o → Prog Op Resp α}
      (h : ∀ r, mark ⟨o, r⟩ = false → Ends mark (k r)) : Ends mark (.op o k)
  | iter {σ' τ α : Type} {body : σ' → Prog Op Resp (σ' ⊕ τ)} {s : σ'} {k : τ → Prog Op Resp α}
      (h : Ends mark (unroll body s k)) : Ends mark (.iter body s k)

/-- A turn goes to its end, where it shows an event or what follows does. -/
theorem LoopFree.ends_bind {p : Prog Op Resp α} {f : α → Prog Op Resp β} {stop : α → Prop}
    (hp : p.LoopFree) (hmark : ∀ t a, p.Run t a → stop a ∨ ∃ e ∈ t, mark e)
    (hf : ∀ a, stop a → Ends mark (f a)) : Ends mark (p.bind f) := by
  induction p with
  | ret a =>
    rcases hmark [] a ⟨rfl, rfl⟩ with ha | ⟨e, he, -⟩
    · exact hf a ha
    · cases he
  | op o k ih =>
    refine .op fun r hr => ih r (hp.2 r) (fun t a ht => ?_) hf
    rcases hmark _ a ⟨r, t, rfl, ht⟩ with ha | ⟨e, he, hmark⟩
    · exact .inl ha
    · rcases List.mem_cons.mp he with rfl | he
      · rw [hr] at hmark
        cases hmark
      · exact .inr ⟨e, he, hmark⟩
  | iter => exact hp.elim

/-- **A guarded program goes to its end**, or to the next event of the kind. -/
theorem Guarded.ends {p : Prog Op Resp α} (hp : p.Guarded mark) : Ends mark p := by
  induction p with
  | ret a => exact .ret a
  | op o k ih => exact .op fun r _ => ih r (hp r)
  | iter body s k _ ih =>
    apply Ends.iter
    -- a turn that goes on shows an event; the last one is followed by the rest
    have hturn : ∀ t x, (body s).Run t x → (∃ c, x = Sum.inr c) ∨ ∃ e ∈ t, mark e := by
      rintro t (s' | c) hx
      · exact .inr (hp.2.1 s t s' hx)
      · exact .inl ⟨c, rfl⟩
    apply (hp.1 s).ends_bind hturn
    rintro _ ⟨c, rfl⟩
    exact ih c (hp.2.2 c)

end Prog

/-! ### Quiet steps of a task -/

namespace TaskState

variable {mark : Ev Op Resp → Bool}

/-- A step a task can make, or that is made to it, without an event of the kind. -/
inductive Quiet (mark : Ev Op Resp → Bool) : TaskState Op Resp ρ → TaskState Op Resp ρ → Prop
  | launch {p : Prog Op Resp ρ} (h : p.Guarded mark) : Quiet mark .idle (.running p)
  | perform {o : Op} {k : Resp o → Prog Op Resp ρ} {r : Resp o} (h : mark ⟨o, r⟩ = false) :
      Quiet mark (.running (.op o k)) (.running (k r))
  | unroll {σ' τ : Type} {body : σ' → Prog Op Resp (σ' ⊕ τ)} {s : σ'} {k : τ → Prog Op Resp ρ} :
      Quiet mark (.running (.iter body s k)) (.running (Prog.unroll body s k))
  | finish {a : ρ} : Quiet mark (.running (.ret a)) (.finished (.done a))
  | panic {p : Prog Op Resp ρ} : Quiet mark (.running p) (.finished .panicked)

/-- The programs a task may still run are guarded. -/
def Guarded (mark : Ev Op Resp → Bool) : TaskState Op Resp ρ → Prop
  | .running p => p.Guarded mark
  | _ => True

theorem acc_finished (o : Outcome ρ) :
    Acc (Function.swap (Quiet mark)) (.finished o : TaskState Op Resp ρ) := by
  apply Acc.intro
  rintro _ ⟨⟩

theorem acc_running {p : Prog Op Resp ρ} (h : p.Ends mark) :
    Acc (Function.swap (Quiet mark)) (.running p) := by
  induction h with
  | ret a =>
    apply Acc.intro
    rintro _ (_ | _ | _ | _ | _) <;> exact acc_finished _
  | op _ ih =>
    apply Acc.intro
    intro y hy
    cases hy with
    | perform hmark => exact ih _ hmark
    | panic => exact acc_finished _
  | iter _ ih =>
    apply Acc.intro
    intro y hy
    cases hy with
    | unroll => exact ih
    | panic => exact acc_finished _

/-- **Quiet steps come to an end.** -/
theorem Guarded.acc {x : TaskState Op Resp ρ} (h : x.Guarded mark) :
    Acc (Function.swap (Quiet mark)) x := by
  rcases x with - | p | o
  · apply Acc.intro
    intro y hy
    cases hy with
    | launch hp => exact acc_running hp.ends
  · exact acc_running (Prog.Guarded.ends h)
  · exact acc_finished o

end TaskState

/-! ### Paths -/

variable [DecidableEq ι] {M : Machine ι Op Resp ρ σ} {w : ℕ → World ι Op Resp ρ σ} {i : ι}
  {mark : Ev Op Resp → Bool}

namespace Machine

/-- A course of the system: at each moment it makes a step or stands still. -/
def Path (M : Machine ι Op Resp ρ σ) (w : ℕ → World ι Op Resp ρ σ) : Prop :=
  ∀ n, w (n + 1) = w n ∨ M.Step (w n) (w (n + 1))

theorem Path.reachable (h : M.Path w) {m n : ℕ} (hmn : m ≤ n) : M.Reachable (w m) (w n) := by
  induction n, hmn using Nat.le_induction with
  | base => exact .refl
  | succ n _ ih =>
    rcases h n with heq | hstep
    · rwa [heq]
    · exact ih.tail hstep

/-- Every program that is started as task `i` is guarded. -/
def SpawnsGuarded (M : Machine ι Op Resp ρ σ) (mark : Ev Op Resp → Bool) (i : ι) : Prop :=
  ∀ j s o p, M.spawn j s o = some (i, p) → p.Guarded mark

/-- What a step is to one task: nothing, a quiet step, or an event of the kind. -/
theorem Step.of_task {u v : World ι Op Resp ρ σ} (h : M.Step u v) (hspawn : M.SpawnsGuarded mark i) :
    (v.tasks i = u.tasks i ∧ traceOf i v.log = traceOf i u.log) ∨
      (TaskState.Quiet mark (u.tasks i) (v.tasks i) ∧
        (traceOf i v.log).countP mark = (traceOf i u.log).countP mark) ∨
      ∃ o r k, u.tasks i = .running (.op o k) ∧ v.tasks i = .running (k r) ∧ mark ⟨o, r⟩ ∧
        traceOf i v.log = traceOf i u.log ++ [⟨o, r⟩] := by
  cases h with
  | @perform j o k r sh run handled admitted startable =>
    rcases hsp : M.spawn j u.shared o with - | ⟨j', p⟩
    · by_cases hij : j = i
      · subst hij
        cases hm : mark ⟨o, r⟩ with
        | true => exact .inr (.inr ⟨o, r, k, run, by simp, hm, by simp⟩)
        | false =>
          refine .inr (.inl ⟨?_, by simp [hm]⟩)
          rw [run]
          simpa using .perform hm
      · refine .inl ⟨?_, ?_⟩
        · simp [Function.update_of_ne (Ne.symm hij)]
        · simp [traceOf_snoc_ne hij]
    · rw [hsp] at startable
      have hidle : u.tasks j' = .idle := startable
      have hne : j' ≠ j := by
        rintro rfl
        rw [run] at hidle
        cases hidle
      by_cases hij : j = i
      · subst hij
        have htask : (((u.put j (.running (k r))).launch (some (j', p))).record j ⟨o, r⟩ sh).tasks j =
            .running (k r) := by
          simp [Function.update_of_ne (Ne.symm hne)]
        cases hm : mark ⟨o, r⟩ with
        | true => exact .inr (.inr ⟨o, r, k, run, htask, hm, by simp⟩)
        | false =>
          refine .inr (.inl ⟨?_, by simp [hm]⟩)
          rw [run, htask]
          exact .perform hm
      · by_cases hij' : j' = i
        · subst hij'
          refine .inr (.inl ⟨?_, by simp [traceOf_snoc_ne hij]⟩)
          rw [hidle]
          simpa using .launch (hspawn j u.shared o p hsp)
        · refine .inl ⟨?_, ?_⟩
          · simp [Function.update_of_ne (Ne.symm hij), Function.update_of_ne (Ne.symm hij')]
          · simp [traceOf_snoc_ne hij]
  | @unroll j _ _ body s k run =>
    by_cases hij : j = i
    · subst hij
      refine .inr (.inl ⟨?_, rfl⟩)
      rw [run]
      simpa using .unroll
    · exact .inl ⟨by simp [Function.update_of_ne (Ne.symm hij)], rfl⟩
  | @finish j a run =>
    by_cases hij : j = i
    · subst hij
      refine .inr (.inl ⟨?_, rfl⟩)
      rw [run]
      simpa using .finish
    · exact .inl ⟨by simp [Function.update_of_ne (Ne.symm hij)], rfl⟩
  | @panic j p may run =>
    by_cases hij : j = i
    · subst hij
      refine .inr (.inl ⟨?_, rfl⟩)
      rw [run]
      simpa using .panic
    · exact .inl ⟨by simp [Function.update_of_ne (Ne.symm hij)], rfl⟩
  | env => exact .inl ⟨rfl, rfl⟩

/-- Guarded tasks stay guarded. -/
theorem Path.guarded (h : M.Path w) (hspawn : M.SpawnsGuarded mark i)
    (h₀ : ((w 0).tasks i).Guarded mark) (n : ℕ) : ((w n).tasks i).Guarded mark := by
  induction n with
  | zero => exact h₀
  | succ n ih =>
    rcases h n with heq | hstep
    · rwa [heq]
    rcases hstep.of_task hspawn with ⟨heq, -⟩ | ⟨hquiet, -⟩ | ⟨o, r, k, hu, hv, -⟩
    · rwa [heq]
    · generalize (w (n + 1)).tasks i = y at hquiet
      generalize (w n).tasks i = x at hquiet ih
      cases hquiet with
      | launch hp => exact hp
      | perform => exact ih _
      | unroll => exact Prog.Guarded.unroll ih
      | finish | panic => trivial
    · rw [hu] at ih
      rw [hv]
      exact ih r

/-- The events of the kind that a task has seen are never fewer. -/
theorem Path.countP_mono (h : M.Path w) (hspawn : M.SpawnsGuarded mark i) :
    Monotone fun n => (traceOf i (w n).log).countP mark := by
  refine monotone_nat_of_le_succ fun n => ?_
  rcases h n with heq | hstep
  · rw [heq]
  rcases hstep.of_task hspawn with ⟨-, heq⟩ | ⟨-, heq⟩ | ⟨o, r, k, -, -, -, heq⟩
  · rw [heq]
  · rw [heq]
  · rw [heq, List.countP_append]
    exact Nat.le_add_right _ _

/-- Task `i` does nothing any more after the moment `N`. -/
def RestsFrom (w : ℕ → World ι Op Resp ρ σ) (i : ι) (N : ℕ) : Prop :=
  ∀ n ≥ N, (w n).tasks i = (w N).tasks i ∧ traceOf i (w n).log = traceOf i (w N).log

theorem RestsFrom.mono {N K : ℕ} (h : RestsFrom w i N) (hNK : N ≤ K) : RestsFrom w i K := by
  intro n hn
  obtain ⟨htasks, htrace⟩ := h K hNK
  rw [htasks, htrace]
  exact h n (hNK.trans hn)

/-- **A guarded task that sees finitely many events of the kind comes to rest.** -/
theorem Path.settles (h : M.Path w) (hspawn : M.SpawnsGuarded mark i)
    (h₀ : ((w 0).tasks i).Guarded mark)
    (hmarks : ∃ k, ∀ n, (traceOf i (w n).log).countP mark ≤ k) : ∃ N, RestsFrom w i N := by
  obtain ⟨N, hN⟩ := eventually_eq_of_bounded (h.countP_mono hspawn) hmarks
  let x : ℕ → TaskState Op Resp ρ × List (Ev Op Resp) := fun n => ((w n).tasks i, traceOf i (w n).log)
  have hacc : Acc (InvImage (Function.swap (TaskState.Quiet mark)) Prod.fst) (x N) :=
    InvImage.accessible Prod.fst (h.guarded hspawn h₀ N).acc
  obtain ⟨K, -, hK⟩ := eventually_eq_of_acc hacc (x := x) fun n hn => by
    rcases h n with heq | hstep
    · left
      simp only [x, heq]
    rcases hstep.of_task hspawn with ⟨htask, htrace⟩ | ⟨hquiet, -⟩ | ⟨o, r, k, -, -, hmark, htrace⟩
    · left
      simp only [x, htask, htrace]
    · exact .inr hquiet
    · -- no event of the kind is left
      have hcount := (hN (n + 1) (by omega)).trans (hN n hn).symm
      simp [htrace, hmark] at hcount
  exact ⟨K, fun n hn => Prod.mk.inj (hK n hn)⟩

/-- Finitely many tasks come to rest together. -/
theorem restsFrom_all {l : List ι} (h : ∀ i ∈ l, ∃ N, RestsFrom w i N) :
    ∃ N, ∀ i ∈ l, RestsFrom w i N := by
  induction l with
  | nil => exact ⟨0, by simp⟩
  | cons i l ih =>
    obtain ⟨N, hN⟩ := h i List.mem_cons_self
    obtain ⟨K, hK⟩ := ih fun j hj => h j (List.mem_cons_of_mem i hj)
    refine ⟨max N K, fun j hj => ?_⟩
    rcases List.mem_cons.mp hj with rfl | hj
    · exact hN.mono (le_max_left N K)
    · exact (hK j hj).mono (le_max_right N K)

/-! ### Schedules -/

section exec

variable {respond : World ι Op Resp ρ σ → ι → (o : Op) → Option (Resp o)}

theorem exec_append (w : World ι Op Resp ρ σ) (l l' : List ι) :
    M.exec respond w (l ++ l') = M.exec respond (M.exec respond w l) l' := by
  induction l generalizing w with
  | nil => rfl
  | cons i l ih => exact ih _

/-- A schedule, step by step, is a path that stands still in the end. -/
theorem exec_path (hr : ∀ w i o r, respond w i o = some r → M.admits ⟨o, r⟩)
    (w : World ι Op Resp ρ σ) (l : List ι) : M.Path fun n => M.exec respond w (l.take n) := by
  intro n
  show M.exec respond w (l.take (n + 1)) = _ ∨ M.Step _ (M.exec respond w (l.take (n + 1)))
  rcases hi : l[n]? with - | i
  · left
    rw [List.take_add_one, hi, Option.toList_none, List.append_nil]
  · rw [List.take_add_one, hi, Option.toList_some, exec_append]
    rcases hv : M.turn respond (M.exec respond w (l.take n)) i with - | v
    · left
      simp [exec, hv]
    · right
      simpa [exec, hv] using turn_sound hr hv

end exec

end Machine

end Conc
