/-
S3rm/Chain.lean

The filter chain as a function of its input.  Each stage decides about the
objects it receives, one after the other: by its predicate, or by asking the
filter callback, which may keep a state of its own.  `survivors` lists what
passes a number of stages.  Whatever the order of steps,

    filter_chain    what leaves the chain is an initial part of the survivors;
                    in an undisturbed run it is all of them, each rejected
                    object is entered once as skipped, by the stage that
                    rejects it, and the callback is asked once about each
                    object that reaches its stage
-/
import S3rm.Schedule

namespace S3rm

open Conc Conc.Prog

variable {config : Config} {outside : Outside} {w : PipelineWorld} {stage : Stage}
  {kind : FilterKind} {t u v : Trace} {σ : Type}

/-! ### What the chain computes -/

/-- Objects with what was decided about them: `true` keeps an object. -/
abbrev Decisions := List (S3Object × Except Error Bool)

/-- The objects that are kept. -/
def accepted (ds : Decisions) : List S3Object := (ds.filter fun d => d.2 = .ok true).map Prod.fst

/-- The objects that are filtered out. -/
def rejected (ds : Decisions) : List S3Object := (ds.filter fun d => d.2 = .ok false).map Prod.fst

theorem accepted_append (ds ds' : Decisions) :
    accepted (ds ++ ds') = accepted ds ++ accepted ds' := by simp [accepted]

theorem rejected_append (ds ds' : Decisions) :
    rejected (ds ++ ds') = rejected ds ++ rejected ds' := by simp [rejected]

theorem accepted_isPrefix {ds ds' : Decisions} (h : ds <+: ds') : accepted ds <+: accepted ds' := by
  obtain ⟨x, rfl⟩ := h
  rw [accepted_append]
  exact List.prefix_append _ _

/-- A filter callback with a state of its own. -/
structure Callback (σ : Type) where
  initial : σ
  executeFilter : σ → S3Object → Except Error Bool × σ

namespace Callback

variable (f : Callback σ)

/-- Its answers about objects, one after the other, from state `s` on. -/
def answersFrom (s : σ) : List S3Object → Decisions
  | [] => []
  | o :: os => (o, (f.executeFilter s o).1) :: answersFrom (f.executeFilter s o).2 os

def answers (os : List S3Object) : Decisions := f.answersFrom f.initial os

/-- These are calls of the callback with its answers. -/
def Follows (ds : Decisions) : Prop := ds = f.answers (ds.map Prod.fst)

theorem answersFrom_length (s : σ) (os : List S3Object) :
    (f.answersFrom s os).length = os.length := by
  induction os generalizing s with
  | nil => rfl
  | cons o os ih => simp [answersFrom, ih]

theorem answersFrom_isPrefix (s : σ) {os os' : List S3Object} (h : os <+: os') :
    f.answersFrom s os <+: f.answersFrom s os' := by
  obtain ⟨x, rfl⟩ := h
  induction os generalizing s with
  | nil => exact List.nil_prefix
  | cons o os ih =>
    show _ :: _ <+: _ :: _
    rw [List.prefix_cons_inj]
    exact ih _

variable {f}

theorem Follows.of_isPrefix {ds ds' : Decisions} (h : f.Follows ds') (hpre : ds <+: ds') :
    f.Follows ds := by
  have hanswers : f.answers (ds.map Prod.fst) <+: ds' := by
    rw [h]
    exact f.answersFrom_isPrefix _ (hpre.map _)
  have hlen : (f.answers (ds.map Prod.fst)).length = ds.length := by
    rw [answers, answersFrom_length, List.length_map]
  exact (List.prefix_of_prefix_length_le hpre hanswers hlen.ge).eq_of_length hlen.symm

end Callback

/-- The stage asks the callback. -/
def FilterKind.consults (config : Config) : FilterKind → Bool
  | .base _ => false
  | .userDefined => config.filterCallbackRegistered

/-- What the stage decides by itself. -/
def FilterKind.accepts (config : Config) : FilterKind → S3Object → Bool
  | .base filter, o => filter.filterFn o config.filterConfig
  | .userDefined, _ => true

/-- What the stage decides about a sequence of objects. -/
def FilterKind.decisions (config : Config) (f : Callback σ) (kind : FilterKind)
    (os : List S3Object) : Decisions :=
  if kind.consults config then f.answers os
  else os.map fun o => (o, .ok (kind.accepts config o))

/-- What gets through the stages. -/
def survivors (config : Config) (f : Callback σ) : List FilterKind → List S3Object → List S3Object
  | [], os => os
  | kind :: kinds, os => survivors config f kinds (accepted (kind.decisions config f os))

theorem survivors_concat (f : Callback σ) (kinds : List FilterKind) (kind : FilterKind)
    (os : List S3Object) : survivors config f (kinds ++ [kind]) os =
      accepted (kind.decisions config f (survivors config f kinds os)) := by
  induction kinds generalizing os with
  | nil => rfl
  | cons k kinds ih => exact ih _

theorem FilterKind.decisions_isPrefix (f : Callback σ) (kind : FilterKind) {os os' : List S3Object}
    (h : os <+: os') : kind.decisions config f os <+: kind.decisions config f os' := by
  unfold FilterKind.decisions
  split_ifs
  · exact f.answersFrom_isPrefix _ h
  · exact h.map _

/-! ### The traces of a stage -/

/-- The calls of the filter callback, with their answers. -/
def consulted : Event → Decisions
  | ⟨.executeFilter o, r⟩ => [(o, r)]
  | _ => []

/-- The stage has decided `ds`, and acted on it. -/
structure Decided (stage : Stage) (kind : FilterKind) (ds : Decisions) (t : Trace) : Prop where
  received : t.flatMap (got stage.receiver) = ds.map Prod.fst
  sent : t.flatMap (sentTo stage.sender) = accepted ds
  skipped : t.flatMap noted = (rejected ds).map fun o => .deleteSkip o.key
  asked : t.flatMap consulted = if kind.consults stage.config then ds else []
  own : kind.consults stage.config = false →
    ∀ d ∈ ds, d.2 = .ok (kind.accepts stage.config d.1)
  answered : ∀ d ∈ ds, ∃ b, d.2 = .ok b

theorem Decided.nil : Decided stage kind [] [] :=
  ⟨rfl, rfl, rfl, by simp, by simp, by simp⟩

theorem Decided.append {ds ds' : Decisions} (ht : Decided stage kind ds t)
    (hu : Decided stage kind ds' u) : Decided stage kind (ds ++ ds') (t ++ u) where
  received := by simp [ht.received, hu.received]
  sent := by rw [List.flatMap_append, ht.sent, hu.sent, accepted_append]
  skipped := by rw [List.flatMap_append, ht.skipped, hu.skipped, rejected_append, List.map_append]
  asked := by
    rw [List.flatMap_append, ht.asked, hu.asked]
    split_ifs <;> rfl
  own h d hd := (List.mem_append.mp hd).elim (ht.own h d) (hu.own h d)
  answered d hd := (List.mem_append.mp hd).elim (ht.answered d) (hu.answered d)

/-- The decisions are those of the callback, or the stage's own. -/
theorem Decided.eq_decisions {f : Callback σ} {ds : Decisions} (h : Decided stage kind ds t)
    (hf : kind.consults stage.config = true → f.Follows (t.flatMap consulted)) :
    ds = kind.decisions stage.config f (t.flatMap (got stage.receiver)) := by
  unfold FilterKind.decisions
  rw [h.received]
  by_cases hc : kind.consults stage.config
  · have hds := hf hc
    rw [h.asked, if_pos hc] at hds
    rw [if_pos hc]
    exact hds
  · rw [if_neg hc, List.map_map]
    rw [Bool.not_eq_true] at hc
    conv_lhs => rw [← List.map_id ds]
    refine List.map_congr_left fun d hd => ?_
    show d = (d.1, _)
    rw [← h.own hc d hd]

theorem Verdict.consulted {o : S3Object} {b : Bool} (h : Verdict stage o kind v (.ok b)) :
    v.flatMap consulted = if kind.consults stage.config then [(o, .ok b)] else [] := by
  generalize hr : (Except.ok b : Except Error Bool) = r at h
  cases h with
  | base => rfl
  | unregistered hcallback => simp [FilterKind.consults, hcallback]
  | answered hcallback =>
    cases hr
    simp [FilterKind.consults, hcallback, S3rm.consulted]
  | erred => cases hr

theorem Verdict.own {o : S3Object} {b : Bool} (h : Verdict stage o kind v (.ok b))
    (hc : kind.consults stage.config = false) : b = kind.accepts stage.config o := by
  generalize hr : (Except.ok b : Except Error Bool) = r at h
  cases h with
  | base | unregistered =>
    cases hr
    rfl
  | answered hcallback => simp [FilterKind.consults, hcallback] at hc
  | erred => cases hr

theorem Skips.consulted {o : S3Object} (h : Skips config o t) : t.flatMap consulted = [] := by
  refine List.flatMap_eq_nil_iff.mpr fun e he => ?_
  rcases e with ⟨op, r⟩
  rcases h.reports _ he with ⟨stats, rfl⟩ | hnotice
  · rfl
  · cases op <;> first | rfl | cases hnotice

/-- A full turn of a stage decides about one object. -/
theorem FilterStep.decided (h : FilterStep stage kind t (.inl ())) :
    ∃ o b, Decided stage kind [(o, .ok b)] t := by
  have hverdict : ∀ {o v b}, Verdict stage o kind v (.ok b) → ∀ {s : Trace},
      s.flatMap (got stage.receiver) = [] → s.flatMap consulted = [] →
      s.flatMap (sentTo stage.sender) = accepted [(o, .ok b)] →
      s.flatMap noted = (S3rm.rejected [(o, .ok b)]).map (fun o => .deleteSkip o.key) →
      Decided stage kind [(o, .ok b)] (kind.receives stage.receiver (some o) ++ (v ++ s)) := by
    intro o v b hv s hgot hasked hsent hnoted
    refine ⟨?_, ?_, ?_, ?_, ?_, ?_⟩
    · rw [List.flatMap_append, List.flatMap_append, kind.got_receives, hv.quiet fun _ _ => rfl, hgot]
      rfl
    · rw [List.flatMap_append, List.flatMap_append, hv.quiet fun _ _ => rfl,
        kind.receives_quiet _ _ (fun _ => rfl) rfl rfl, hsent]
      rfl
    · rw [List.flatMap_append, List.flatMap_append, hv.quiet fun _ _ => rfl,
        kind.receives_quiet _ _ (fun _ => rfl) rfl rfl, hnoted]
      rfl
    · rw [List.flatMap_append, List.flatMap_append, hv.consulted,
        kind.receives_quiet _ _ (fun _ => rfl) rfl rfl, hasked, List.nil_append, List.append_nil]
    · intro hc d hd
      obtain rfl := List.mem_singleton.mp hd
      rw [hv.own hc]
    · intro d hd
      obtain rfl := List.mem_singleton.mp hd
      exact ⟨b, rfl⟩
  cases h with
  | @rejected o v s verdict skips =>
    obtain ⟨hgot, hsent, -⟩ := skips.quiet stage.receiver stage.sender
    exact ⟨o, false, hverdict verdict hgot skips.consulted hsent skips.notes⟩
  | @sent o v verdict =>
    refine ⟨o, true, hverdict verdict rfl rfl ?_ rfl⟩
    simp [sentTo, accepted]

/-- What is left unfinished of a turn has not sent anything. -/
theorem FilterStep.unsent_isPrefix {x : Unit ⊕ Except Error Unit}
    (h : FilterStep stage kind (v ++ u) x) :
    v.flatMap (sentTo stage.sender) = [] ∨ u = [] ∧ x = .inl () := by
  have hquiet : (v ++ u).flatMap (sentTo stage.sender) = [] →
      v.flatMap (sentTo stage.sender) = [] := by
    rw [List.flatMap_append, List.append_eq_nil_iff]
    exact fun h => h.1
  have hreceives : ∀ r, (kind.receives stage.receiver r).flatMap (sentTo stage.sender) = [] :=
    fun r => kind.receives_quiet _ _ (fun _ => rfl) rfl rfl
  generalize ht : v ++ u = t at h hquiet
  cases h with
  | cancelled => exact .inl (hquiet (by cases kind <;> rfl))
  | ended => exact .inl (hquiet (hreceives none))
  | failed verdict =>
    refine .inl (hquiet ?_)
    rw [List.flatMap_append, hreceives, verdict.sent_nil]
    rfl
  | @rejected o v' s verdict skips =>
    refine .inl (hquiet ?_)
    rw [List.flatMap_append, List.flatMap_append, hreceives, verdict.sent_nil,
      (skips.quiet stage.receiver stage.sender).2.1]
    rfl
  | unsent verdict =>
    refine .inl (hquiet ?_)
    rw [List.flatMap_append, List.flatMap_append, hreceives, verdict.sent_nil]
    rfl
  | @sent o v' verdict =>
    rw [← List.append_assoc] at ht
    rcases List.prefix_concat_iff.mp ⟨u, ht⟩ with rfl | ⟨z, hz⟩
    · exact .inr ⟨List.append_right_eq_self.mp ht, rfl⟩
    · left
      have hall : (kind.receives stage.receiver (some o) ++ v').flatMap
          (sentTo stage.sender) = [] := by
        rw [List.flatMap_append, hreceives, verdict.sent_nil]
        rfl
      rw [← hz, List.flatMap_append, List.append_eq_nil_iff] at hall
      exact hall.1

theorem Rounds.decided (h : Rounds (Turn fun _ => kind.turn stage) () t ()) :
    ∃ ds, Decided stage kind ds t := by
  have := Prog.Rounds.invariant (t := []) (I := fun _ t => ∃ ds, Decided stage kind ds t)
    (fun _ t u _ hI hu => ?_) h ⟨[], .nil⟩
  · exact this
  · obtain ⟨ds, hds⟩ := hI
    obtain ⟨o, b, hob⟩ := (FilterKind.step hu).decided
    exact ⟨ds ++ [(o, .ok b)], hds.append hob⟩

/-- At every moment a stage has decided about some objects, and is in a turn. -/
theorem part_filter_decided (h : Part (kind.filter stage) t) :
    ∃ ds u v z x, t = u ++ v ∧ Decided stage kind ds u ∧ FilterStep stage kind (v ++ z) x := by
  rw [kind.filter_eq] at h
  obtain ⟨_, u, v, z, x, rfl, hrounds, hturn, -⟩ := part_loop ({} : Answers).agrees_total
    (fun _ => ((filterCovers_isFiltering stage.receiver stage.sender).turn kind
      stage.config).loopFree) h
  obtain ⟨ds, hds⟩ := Rounds.decided hrounds
  exact ⟨ds, u, v, z, x, rfl, hds, FilterKind.step hturn⟩

/-- A stage that has returned has decided about some objects, and taken a turn
that left the loop. -/
theorem run_filter_decided {r : Except Error Unit} (h : Run (kind.filter stage) t r) :
    ∃ ds u v, t = u ++ v ∧ Decided stage kind ds u ∧ FilterStep stage kind v (.inr r) := by
  rw [kind.filter_eq] at h
  obtain ⟨_, u, v, rfl, hrounds, hturn⟩ := run_loop.mp h
  obtain ⟨ds, hds⟩ := Rounds.decided hrounds
  exact ⟨ds, u, v, rfl, hds, FilterKind.step hturn⟩

/-- **A stage at every moment**: what it has sent is an initial part of what it
keeps of the objects it has received. -/
theorem part_filter_isPrefix {f : Callback σ} (h : Part (kind.filter stage) t)
    (hf : kind.consults stage.config = true → f.Follows (t.flatMap consulted)) :
    t.flatMap (sentTo stage.sender) <+:
      accepted (kind.decisions stage.config f (t.flatMap (got stage.receiver))) := by
  obtain ⟨ds, u, v, z, x, rfl, hds, hstep⟩ := part_filter_decided h
  have hfu : kind.consults stage.config = true → f.Follows (u.flatMap consulted) := fun hc =>
    (hf hc).of_isPrefix (by rw [List.flatMap_append]; exact List.prefix_append _ _)
  rcases hstep.unsent_isPrefix with hv | ⟨rfl, rfl⟩
  · rw [List.flatMap_append, hv, List.append_nil, hds.sent, hds.eq_decisions hfu]
    apply accepted_isPrefix
    apply kind.decisions_isPrefix
    rw [List.flatMap_append]
    exact List.prefix_append _ _
  · rw [List.append_nil] at hstep
    obtain ⟨o, b, hob⟩ := hstep.decided
    have hall := hds.append hob
    rw [hall.sent, hall.eq_decisions hf]

/-! ### The stages of a run -/

/-- Only the last stage asks the callback. -/
theorem filterObjects_eq (config : Config) : ∃ kinds : List FilterKind,
    filterObjects config =
      kinds ++ (if config.filterCallbackRegistered then [.userDefined] else []) ∧
        FilterKind.userDefined ∉ kinds := by
  have hsplit : filterObjects config = List.filterMap
      (fun entry : Bool × FilterKind => if entry.1 then some entry.2 else none)
      ([_, _, _, _, _, _, _, _] ++ [(config.filterCallbackRegistered, .userDefined)]) := rfl
  rw [List.filterMap_append] at hsplit
  refine ⟨_, hsplit.trans (congrArg _ ?_), by simp⟩
  cases config.filterCallbackRegistered <;> rfl

theorem filterObjects_program {n : Nat} (h : (filterObjects config)[n]? = some kind) :
    TaskId.program config (.stage (.filter n)) = some (kind.filter ⟨config, n, n + 1⟩) := by
  show (filterObjects config)[n]?.map _ = _
  rw [h]
  rfl

theorem consults_last {n : Nat} (h : (filterObjects config)[n]? = some kind)
    (hc : kind.consults config = true) :
    kind = .userDefined ∧ config.filterCallbackRegistered = true ∧ n + 1 = filterCount config := by
  cases kind with
  | base => cases hc
  | userDefined =>
    have hcallback : config.filterCallbackRegistered = true := hc
    refine ⟨rfl, hcallback, ?_⟩
    obtain ⟨kinds, hkinds, hnone⟩ := filterObjects_eq config
    rw [if_pos hcallback] at hkinds
    unfold filterCount
    rw [hkinds] at h ⊢
    rcases Nat.lt_trichotomy n kinds.length with hn | rfl | hn
    · rw [List.getElem?_append_left hn] at h
      exact absurd (List.mem_of_getElem? h) hnone
    · simp
    · rw [List.getElem?_append_right hn.le, List.getElem?_eq_none (by simp; omega)] at h
      cases h

theorem base_consulted {filter : ObjectFilterBase} {x : Unit ⊕ Except Error Unit}
    (h : FilterStep stage (.base filter) t x) : t.flatMap consulted = [] := by
  cases h with
  | cancelled | ended => rfl
  | failed verdict => nomatch verdict
  | sent verdict | unsent verdict =>
    generalize hr : (Except.ok true : Except Error Bool) = r at verdict
    cases verdict
    rfl
  | @rejected o v s verdict skips =>
    generalize hr : (Except.ok false : Except Error Bool) = r at verdict
    cases verdict
    exact skips.consulted

/-- Only the callback's stage has asked the callback. -/
theorem consulted_of_not_consults (h : Running config outside w) {i : TaskId} {e : Event}
    (he : (i, e) ∈ w.log) (hi : ∀ n kind, (filterObjects config)[n]? = some kind →
      kind.consults config = true → i ≠ .stage (.filter n)) : consulted e = [] := by
  have hmem := mem_traceOf.mpr he
  have hs := h.started he
  have hu := h.mayUse he
  rcases e with ⟨o, r⟩
  cases o
  case executeFilter o =>
    rcases i with (_ | n | n) | s | _ | _
    case stage.filter =>
      have hn : n < (filterObjects config).length := StageId.filter_started.mp hs
      have hkind : (filterObjects config)[n]? = some (filterObjects config)[n] :=
        List.getElem?_eq_getElem hn
      cases hk : (filterObjects config)[n] with
      | base filter =>
        rw [hk] at hkind
        obtain ⟨ds, u, v, z, x, htrace, hds, hstep⟩ :=
          part_filter_decided (h.part (filterObjects_program hkind))
        have hv := base_consulted hstep
        rw [List.flatMap_append, List.append_eq_nil_iff] at hv
        have hall : (traceOf (.stage (.filter n)) w.log).flatMap consulted = [] := by
          rw [htrace, List.flatMap_append, hds.asked, hv.1]
          rfl
        exact List.flatMap_eq_nil_iff.mp hall _ hmem
      | userDefined =>
        rw [hk] at hkind
        obtain ⟨kinds, hkinds, hnone⟩ := filterObjects_eq config
        refine absurd rfl (hi n _ hkind ?_)
        by_contra hc
        rw [FilterKind.consults] at hc
        rw [hkinds, if_neg hc, List.append_nil] at hkind
        exact hnone (List.mem_of_getElem? hkind)
    all_goals cases hu
  all_goals rfl

theorem proj_consulted (h : Running config outside w) {n : Nat}
    (hkind : (filterObjects config)[n]? = some kind) (hc : kind.consults config = true) :
    w.proj consulted = w.projOf consulted (.stage (.filter n)) := by
  apply World.proj_eq_projOf
  intro e he hne
  refine consulted_of_not_consults h (i := e.1) he fun n' kind' hkind' hc' heq => hne ?_
  have hn := (consults_last hkind hc).2.2
  have hn' := (consults_last hkind' hc').2.2
  obtain rfl : n = n' := by omega
  exact heq

theorem Running.follows {f : Callback σ} (h : Running config outside w)
    (hf : f.Follows (w.proj consulted)) {n : Nat} (hkind : (filterObjects config)[n]? = some kind)
    (hc : kind.consults config = true) :
    f.Follows ((traceOf (.stage (.filter n)) w.log).flatMap consulted) := by
  have hproj := proj_consulted h hkind hc
  rw [hproj] at hf
  exact hf

/-- **What leaves the stages at every moment** is an initial part of the survivors. -/
theorem chain_isPrefix {f : Callback σ} (h : Running config outside w)
    (hf : f.Follows (w.proj consulted)) {n : Nat} (hn : n ≤ filterCount config) :
    w.proj (sentTo n) <+:
      survivors config f ((filterObjects config).take n) (w.proj (sentTo 0)) := by
  induction n with
  | zero => exact List.prefix_refl _
  | succ n ih =>
    have hkind : (filterObjects config)[n]? = some (filterObjects config)[n] :=
      List.getElem?_eq_getElem hn
    have hstage := part_filter_isPrefix (f := f) (h.part (filterObjects_program hkind))
      (h.follows hf hkind)
    rw [List.take_succ_eq_append_getElem hn, survivors_concat, proj_sentTo_filter h hn]
    refine hstage.trans (accepted_isPrefix (FilterKind.decisions_isPrefix f _ ?_))
    have hgot : w.proj (got n) <+: w.proj (sentTo n) := by
      rw [channel_law h n]
      exact List.prefix_append _ _
    rw [proj_got_filter h hn] at hgot
    exact hgot.trans (ih (Nat.le_of_succ_le hn))

/-! ### Undisturbed runs -/

/-- The token is not cancelled, the chain's last channel has a receiver, and no
stage of the chain has panicked. -/
structure Undisturbed (config : Config) (w : PipelineWorld) : Prop where
  live : w.shared.cancelled = false
  received : ∃ i ∈ receivers config (filterCount config), w.outcome i = none
  unpanicked : ∀ n, w.outcome (.stage (.filter n)) ≠ some .panicked

/-- A stage that has returned with its channel open and the token live has come
to the end of its input, and decided about all of it. -/
theorem filter_returned (h : Running config outside w) (live : w.shared.cancelled = false) {n : Nat}
    (hkind : (filterObjects config)[n]? = some kind) {r : Except Error Unit}
    (hout : w.outcome (.stage (.filter n)) = some (.done r))
    (unclosed : ∀ i (e : Event), (i, e) ∈ w.log → ¬ e.sawClosed (n + 1)) :
    ∃ ds, Decided ⟨config, n, n + 1⟩ kind ds (traceOf (.stage (.filter n)) w.log) ∧
      Drained config w n := by
  obtain ⟨ds, u, v, htrace, hds, hstep⟩ := run_filter_decided (h.run (filterObjects_program hkind) hout)
  have hlog : ∀ e ∈ v, (.stage (.filter n), e) ∈ w.log := fun e he =>
    mem_traceOf.mp (htrace ▸ List.mem_append_right u he)
  have hstop : ∀ e ∈ v, (e.sawCancelled ∨ e.1 = .cancel) → False := fun e he hsaw => by
    simpa [live] using token_law h (hlog e he) hsaw
  cases hstep with
  | cancelled =>
    refine absurd ?_ (hstop (kind.stops n) (List.mem_singleton_self _))
    cases kind <;> exact .inl trivial
  | ended =>
    have hend : ∃ e ∈ kind.receives n none, Event.isEnd n e := by
      cases kind
      · exact ⟨⟨.recv n, none⟩, by simp [FilterKind.receives], rfl⟩
      · exact ⟨_, List.mem_singleton_self _, rfl⟩
    obtain ⟨e, he, hend⟩ := hend
    have hreceives := fun {β : Type} {g : Event → List β} => kind.receives_quiet n none (f := g)
    have hnil : Decided ⟨config, n, n + 1⟩ kind [] (kind.receives n none) := by
      refine ⟨?_, ?_, ?_, ?_, by simp, by simp⟩
      · exact hreceives (fun _ => rfl) rfl rfl
      · exact hreceives (fun _ => rfl) rfl rfl
      · exact hreceives (fun _ => rfl) rfl rfl
      · rw [hreceives (fun _ => rfl) rfl rfl]
        split_ifs <;> rfl
    have hall := hds.append hnil
    rw [List.append_nil] at hall
    exact ⟨ds, htrace ▸ hall, drained_law h (hlog e he) hend⟩
  | @failed o v e verdict =>
    generalize hr : (Except.error e : Except Error Bool) = r at verdict
    cases verdict with
    | erred => exact absurd (.inr rfl) (hstop ⟨.cancel, ()⟩ (by simp))
    | base | unregistered | answered => cases hr
  | @unsent o v c r verdict =>
    exact absurd rfl (unclosed _ ⟨.send (n + 1) o, false⟩ (hlog _ (by simp)))

theorem Undisturbed.unclosed (h : Running config outside w) (hw : Undisturbed config w) {c : Nat}
    (hc : c ≤ filterCount config) {i : TaskId} {e : Event} (he : (i, e) ∈ w.log) :
    ¬ e.sawClosed c := by
  refine unclosed_of (Q := Undisturbed config) (fun u v hcan hout hv => ?_)
    (fun u hu hQ c hc hunclosed hgone => ?_) h hw hc he
  · refine ⟨?_, ?_, fun n hn => hv.unpanicked n (hout _ _ hn)⟩
    · by_contra hu
      simpa [hv.live] using hcan (by simpa using hu)
    · obtain ⟨i, hi, hnone⟩ := hv.received
      refine ⟨i, hi, ?_⟩
      by_contra hsome
      obtain ⟨o, ho⟩ := Option.ne_none_iff_exists'.mp hsome
      rw [hout i o ho] at hnone
      cases hnone
  · rcases Nat.lt_or_eq_of_le hc with hlt | rfl
    · have hkind : (filterObjects config)[c]? = some (filterObjects config)[c] :=
        List.getElem?_eq_getElem hlt
      obtain ⟨o, ho⟩ := Option.isSome_iff_exists.mp
        (hgone (.stage (.filter c)) (by simp [receivers_filter hlt]))
      cases o with
      | done r => exact (filter_returned hu hQ.live hkind ho (hunclosed hlt)).choose_spec.2
      | panicked => exact absurd ho (hQ.unpanicked c)
    · obtain ⟨i, hi, hnone⟩ := hQ.received
      have hi' := hgone i hi
      rw [hnone] at hi'
      cases hi'

section undisturbed

variable {f : Callback σ} (h : Running config outside w) (hw : Undisturbed config w)
  (hret : ∀ n < filterCount config, ∃ r, w.outcome (.stage (.filter n)) = some (.done r))

include h hw hret

/-- A stage has decided about everything that was sent to it. -/
theorem stage_decided {n : Nat} (hkind : (filterObjects config)[n]? = some kind) :
    ∃ ds, Decided ⟨config, n, n + 1⟩ kind ds (traceOf (.stage (.filter n)) w.log) ∧
      (traceOf (.stage (.filter n)) w.log).flatMap (got n) = w.proj (sentTo n) := by
  obtain ⟨hn, -⟩ := List.getElem?_eq_some_iff.mp hkind
  obtain ⟨r, hr⟩ := hret n hn
  obtain ⟨ds, hds, hdrained⟩ := filter_returned h hw.live hkind hr fun i e he =>
    hw.unclosed h hn he
  refine ⟨ds, hds, ?_⟩
  rw [channel_law h n, hdrained.2, List.append_nil, proj_got_filter h hn]
  rfl

variable (hf : f.Follows (w.proj consulted))

include hf

/-- **In the end the survivors have left the stages.** -/
theorem chain_eq {n : Nat} (hn : n ≤ filterCount config) :
    w.proj (sentTo n) =
      survivors config f ((filterObjects config).take n) (w.proj (sentTo 0)) := by
  induction n with
  | zero => rfl
  | succ n ih =>
    have hkind : (filterObjects config)[n]? = some (filterObjects config)[n] :=
      List.getElem?_eq_getElem hn
    obtain ⟨ds, hds, hgot⟩ := stage_decided h hw hret hkind
    rw [List.take_succ_eq_append_getElem hn, survivors_concat, ← ih (Nat.le_of_succ_le hn), ← hgot,
      proj_sentTo_filter h hn, ← hds.eq_decisions (h.follows hf hkind)]
    exact hds.sent

/-- Each stage has entered what it rejects as skipped, once. -/
theorem chain_skips {n : Nat} (hkind : (filterObjects config)[n]? = some kind) :
    w.projOf noted (.stage (.filter n)) = (rejected (kind.decisions config f
      (survivors config f ((filterObjects config).take n) (w.proj (sentTo 0))))).map
        fun o => .deleteSkip o.key := by
  obtain ⟨hn, -⟩ := List.getElem?_eq_some_iff.mp hkind
  obtain ⟨ds, hds, hgot⟩ := stage_decided h hw hret hkind
  rw [← chain_eq h hw hret hf hn.le, ← hgot, ← hds.eq_decisions (h.follows hf hkind)]
  exact hds.skipped

/-- The callback has been asked about what reached its stage, in order. -/
theorem chain_consulted {n : Nat} (hkind : (filterObjects config)[n]? = some kind)
    (hc : kind.consults config = true) : w.proj consulted =
      f.answers (survivors config f ((filterObjects config).take n) (w.proj (sentTo 0))) := by
  obtain ⟨hn, -⟩ := List.getElem?_eq_some_iff.mp hkind
  obtain ⟨ds, hds, hgot⟩ := stage_decided h hw hret hkind
  have hasked := hds.asked
  have hdecisions := hds.eq_decisions (h.follows hf hkind)
  rw [if_pos hc] at hasked
  rw [FilterKind.decisions, if_pos hc, hgot, chain_eq h hw hret hf hn.le] at hdecisions
  rw [proj_consulted h hkind hc, ← hdecisions]
  exact hasked

end undisturbed

/-! ### Errors of the callback -/

/-- In the turn in which the callback returns an error, the stage only reports it
and cancels the token. -/
theorem FilterStep.erred {o : S3Object} {e : Error} {x : Unit ⊕ Except Error Unit}
    (h : FilterStep stage kind (t ++ ⟨.executeFilter o, .error e⟩ :: u) x) :
    t.flatMap (sentTo stage.sender) = [] ∧ t.flatMap consulted = [] ∧
      (∀ y ∈ u, y.1.isNotice ∨ y.1 = .cancel) ∧ (⟨.cancel, ()⟩ : Event) ∈ u := by
  have hmem : (o, .error e) ∈ (t ++ ⟨.executeFilter o, .error e⟩ :: u).flatMap consulted := by
    simp [consulted]
  generalize ht : t ++ ⟨.executeFilter o, .error e⟩ :: u = s at h hmem
  have hreceives : ∀ r, (kind.receives stage.receiver r).flatMap consulted = [] :=
    fun r => kind.receives_quiet _ _ (fun _ => rfl) rfl rfl
  have hkept : ∀ {o' v' b}, Verdict stage o' kind v' (.ok b) →
      (o, .error e) ∉ v'.flatMap consulted := by
    intro o' v' b hv hin
    rw [hv.consulted] at hin
    split_ifs at hin <;> simp at hin
  cases h with
  | cancelled => cases kind <;> cases hmem
  | ended =>
    rw [hreceives] at hmem
    cases hmem
  | @failed o' v' e' verdict =>
    generalize hr : (Except.error e' : Except Error Bool) = r at verdict
    cases verdict with
    | @erred e₀ s a hcallback fires =>
      have hnotice := fires.uses (triggerEventIfRegistered_straight _ _).uses
      have hrest : ∀ y ∈ s ++ [⟨.cancel, ()⟩], y.1.isNotice ∨ y.1 = .cancel := by
        intro y hy
        rcases List.mem_append.mp hy with hy | hy
        · exact .inl (hnotice y hy)
        · exact .inr (congrArg Sigma.fst (List.mem_singleton.mp hy))
      -- the stage received the object, and asked the callback at once
      rcases t with - | ⟨y, t⟩
      · cases (List.cons.inj ht).1
      · obtain ⟨rfl, hasks⟩ := List.cons.inj ht
        replace hasks : t ++ ⟨.executeFilter o, .error e⟩ :: u =
          ⟨.executeFilter o', .error e₀⟩ :: (s ++ [⟨.cancel, ()⟩]) := hasks
        rcases t with - | ⟨z, t⟩
        · obtain ⟨-, rfl⟩ := List.cons.inj hasks
          exact ⟨rfl, rfl, hrest, by simp⟩
        · obtain ⟨-, hasks⟩ := List.cons.inj hasks
          have := hrest ⟨.executeFilter o, .error e⟩ (by rw [← hasks]; simp)
          simp [Op.isNotice] at this
    | base | unregistered | answered => cases hr
  | rejected verdict skips =>
    rw [List.flatMap_append, List.flatMap_append, hreceives, skips.consulted] at hmem
    refine absurd ?_ (hkept verdict)
    simpa using hmem
  | sent verdict | unsent verdict =>
    rw [List.flatMap_append, List.flatMap_append, hreceives] at hmem
    refine absurd ?_ (hkept verdict)
    simpa [consulted] using hmem

/-- What the decisions hold are answers, no errors. -/
theorem Decided.not_erred {ds : Decisions} (h : Decided stage kind ds t) {o : S3Object} {e : Error} :
    (⟨.executeFilter o, .error e⟩ : Event) ∉ t := by
  intro hmem
  have hasked : (o, .error e) ∈ t.flatMap consulted :=
    List.mem_flatMap.mpr ⟨_, hmem, List.mem_singleton_self _⟩
  rw [h.asked] at hasked
  split_ifs at hasked
  · obtain ⟨b, hb⟩ := h.answered _ hasked
    cases hb
  · cases hasked

/-- An error of the callback is in the turn the stage is in. -/
theorem erred_in_turn {o : S3Object} {e : Error} {r : Trace} {ds : Decisions}
    (h : t ++ ⟨.executeFilter o, .error e⟩ :: u = r ++ v) (hds : Decided stage kind ds r) :
    ∃ s, t = r ++ s ∧ v = s ++ ⟨.executeFilter o, .error e⟩ :: u := by
  rcases List.append_eq_append_iff.mp h with ⟨a, rfl, ha⟩ | ⟨a, rfl, ha⟩
  · rcases a with - | ⟨y, a⟩
    · exact ⟨[], by simp, ha.symm⟩
    · obtain ⟨rfl, -⟩ := List.cons.inj ha
      exact absurd (List.mem_append_right _ List.mem_cons_self) hds.not_erred
  · exact ⟨a, rfl, ha⟩

/-- **After an error of the callback** the stage only reports it and cancels the
token; what it has sent are the objects kept before. -/
theorem part_filter_erred {o : S3Object} {e : Error} (hc : kind.consults stage.config = true)
    (h : Part (kind.filter stage) (t ++ ⟨.executeFilter o, .error e⟩ :: u)) :
    t.flatMap (sentTo stage.sender) = accepted (t.flatMap consulted) ∧
      ∀ x ∈ u, x.1.isNotice ∨ x.1 = .cancel := by
  obtain ⟨ds, r, v, z, x, heq, hds, hstep⟩ := part_filter_decided h
  obtain ⟨s, rfl, rfl⟩ := erred_in_turn heq hds
  rw [List.append_assoc, List.cons_append] at hstep
  obtain ⟨hsent, hasked, hrest, -⟩ := hstep.erred
  have hds' := hds.asked
  rw [if_pos hc] at hds'
  refine ⟨?_, fun y hy => hrest y (List.mem_append_left _ hy)⟩
  rw [List.flatMap_append, List.flatMap_append, hsent, hasked, hds.sent, hds', List.append_nil,
    List.append_nil]

/-- A stage that has returned has cancelled the token. -/
theorem run_filter_erred {o : S3Object} {e : Error} {r : Except Error Unit}
    (h : Run (kind.filter stage) (t ++ ⟨.executeFilter o, .error e⟩ :: u) r) :
    (⟨.cancel, ()⟩ : Event) ∈ u := by
  obtain ⟨ds, r, v, heq, hds, hstep⟩ := run_filter_decided h
  obtain ⟨s, rfl, rfl⟩ := erred_in_turn heq hds
  exact hstep.erred.2.2.2

/-! ### The chain -/

/-- **The filter chain is a deterministic ordered filter**, whatever the order of
steps.  Let the filter callback answer as `f` does.  At every moment what has
left the stages is an initial part of the survivors of what the lister has sent
in.  With the token live, a receiver left at the last channel, and the chain's
stages returned, it is all of them; each stage has entered the objects it
rejects as skipped, once each; and the callback has been asked once about each
object that reached its stage, in order.  When the callback returns an error,
its stage has passed on the objects it kept before, sends nothing from then on,
and has cancelled the token when it returns. -/
theorem filter_chain {f : Callback σ} (h : Running config outside w)
    (hf : f.Follows (w.proj consulted)) :
    (∀ n ≤ filterCount config, w.proj (sentTo n) <+:
      survivors config f ((filterObjects config).take n) (w.proj (sentTo 0))) ∧
    (w.shared.cancelled = false →
      (∃ i ∈ receivers config (filterCount config), w.outcome i = none) →
      (∀ n < filterCount config, ∃ r, w.outcome (.stage (.filter n)) = some (.done r)) →
        w.proj (sentTo (filterCount config)) =
          survivors config f (filterObjects config) (w.proj (sentTo 0)) ∧
        ∀ n kind, (filterObjects config)[n]? = some kind →
          w.projOf noted (.stage (.filter n)) = (rejected (kind.decisions config f
            (survivors config f ((filterObjects config).take n) (w.proj (sentTo 0))))).map
              (fun o => .deleteSkip o.key) ∧
          (kind.consults config = true → w.proj consulted = f.answers
            (survivors config f ((filterObjects config).take n) (w.proj (sentTo 0))))) ∧
    ∀ n t o e u, traceOf (.stage (.filter n)) w.log = t ++ ⟨.executeFilter o, .error e⟩ :: u →
      t.flatMap (sentTo (n + 1)) = accepted (t.flatMap consulted) ∧
      (∀ c x r, (⟨.send c x, r⟩ : Event) ∉ u) ∧
      ∀ r, w.outcome (.stage (.filter n)) = some (.done r) → w.shared.cancelled = true := by
  refine ⟨fun n hn => chain_isPrefix h hf hn, fun live hrecv hret => ?_, fun n t o e u htrace => ?_⟩
  · have hw : Undisturbed config w := by
      refine ⟨live, hrecv, fun n hp => ?_⟩
      have hn : n < filterCount config := StageId.filter_started.mp (h.started_of_outcome hp)
      obtain ⟨r, hr⟩ := hret n hn
      rw [hr] at hp
      cases hp
    refine ⟨?_, fun n kind hkind => ⟨chain_skips h hw hret hf hkind, chain_consulted h hw hret hf hkind⟩⟩
    have hall := chain_eq h hw hret hf le_rfl
    rwa [filterCount, List.take_length] at hall
  · have hmem : (⟨.executeFilter o, .error e⟩ : Event) ∈ traceOf (.stage (.filter n)) w.log := by
      simp [htrace]
    have hn : n < filterCount config := StageId.filter_started.mp (h.started (mem_traceOf.mp hmem))
    have hkind : (filterObjects config)[n]? = some (filterObjects config)[n] :=
      List.getElem?_eq_getElem hn
    have hpart := h.part (filterObjects_program hkind)
    have hc : (filterObjects config)[n].consults config = true := by
      by_contra hc
      have hnil := consulted_of_not_consults h (mem_traceOf.mp hmem) fun n' kind' hkind' hc' heq => by
        obtain rfl : n = n' := by simpa using heq
        obtain rfl := Option.some.inj (hkind.symm.trans hkind')
        exact hc hc'
      cases hnil
    rw [htrace] at hpart
    obtain ⟨hsent, hrest⟩ := part_filter_erred hc hpart
    refine ⟨hsent, fun c x r hx => ?_, fun r hr => ?_⟩
    · rcases hrest _ hx with hnotice | hcancel
      · cases hnotice
      · cases hcancel
    · have hrun := h.run (filterObjects_program hkind) hr
      rw [htrace] at hrun
      have hcancel : (⟨.cancel, ()⟩ : Event) ∈ traceOf (.stage (.filter n)) w.log := by
        rw [htrace]
        exact List.mem_append_right _ (List.mem_cons_of_mem _ (run_filter_erred hrun))
      exact token_law h (mem_traceOf.mp hcancel) (.inr rfl)

/-! ### A callback that keeps every other object -/

def everyOther : Callback Bool where
  initial := true
  executeFilter keep _ := (.ok keep, !keep)

def chainConfig : Config where
  workerSize := 1
  filterConfig := { largerSize := some 4 }
  filterCallbackRegistered := true

def chainScript : Script where
  listing := [.object (sampleObject "a" 3), .object (sampleObject "b" 4),
    .object (sampleObject "c" 5), .object (sampleObject "d" 6), .finished (.ok ())]

def anyOutside : Outside where
  admits _ := True
  mayCancel := False

/-- The worker has not taken a step when the chain's stages have returned. -/
def chainRun : PipelineWorld :=
  (pipeline chainConfig anyOutside).exec
    (fun w _ o => match o with
      | .executeFilter _ => some (.ok ((w.proj consulted).length % 2 = 0))
      | o => chainScript.respond chainConfig w o)
    (start chainConfig) (List.replicate 16 (.stage .lister) ++
      List.replicate 30 (.stage (.filter 0)) ++ List.replicate 30 (.stage (.filter 1)))

theorem chainRun_running : Running chainConfig anyOutside chainRun :=
  Machine.exec_sound (fun _ _ _ _ _ => trivial) _ _

/-- `filter_chain` on that run. -/
theorem filter_chain_chainRun :
    chainRun.proj (sentTo 2) = survivors chainConfig everyOther (filterObjects chainConfig)
        (chainRun.proj (sentTo 0)) ∧
      chainRun.proj (sentTo 2) = [sampleObject "b" 4, sampleObject "d" 6] := by
  have hf : everyOther.Follows (chainRun.proj consulted) := by
    unfold Callback.Follows
    decide +kernel
  obtain ⟨-, hend, -⟩ := filter_chain chainRun_running hf
  have hret : ∀ n < 2, ∃ r, chainRun.outcome (.stage (.filter n)) = some (.done r) := by
    intro n hn
    have hok : ∀ n < 2, chainRun.outcome (.stage (.filter n)) = some (.done (.ok ())) := by
      decide +kernel
    exact ⟨_, hok n hn⟩
  refine ⟨(hend (by decide +kernel) ⟨.stage (.worker 0), ?_, by decide +kernel⟩ hret).1, ?_⟩
  · decide +kernel
  · decide +kernel

end S3rm
