/-
S3rm/FilterLaws.lean

What a filter stage does to the stream of objects, whichever filter it runs:
`FilterTurn` lists the turns its loop can take, and over a whole trace

    part_filter   at any moment, what was sent is a sublist of what was
                  received and kept
    run_filter    a stage that returned was cancelled, found its receiver's
                  side closed, or passed on exactly what it kept and counted
                  everything else as skipped
-/
import S3rm.FilterSteps

namespace S3rm

open Conc Conc.Prog

/-! ### Answers -/

/-- What is known of the outside's answers about objects: `none` where nothing is. -/
structure Answers where
  filter : S3Object → Option (Except Error Bool) := fun _ => none
  head : String → Option String → Option (Except Error HeadObjectOutput) := fun _ _ => none
  tagging : String → Option String → Option (Except Error GetObjectTaggingOutput) :=
    fun _ _ => none

/-- Every answer is known. -/
structure Answers.Known (A : Answers) : Prop where
  filter : ∀ o, (A.filter o).isSome
  head : ∀ key versionId, (A.head key versionId).isSome
  tagging : ∀ key versionId, (A.tagging key versionId).isSome

/-- The event is answered as `answers` has it. -/
def Answers.agrees (A : Answers) : Event → Prop
  | ⟨.executeFilter o, r⟩ => ∀ a, A.filter o = some a → r = a
  | ⟨.headObject key versionId, r⟩ => ∀ a, A.head key versionId = some a → r = a
  | ⟨.getObjectTagging key versionId, r⟩ => ∀ a, A.tagging key versionId = some a → r = a
  | _ => True

theorem Resp.nonempty (o : Op) : Nonempty (Resp o) := by
  cases o
  case nextListed => exact ⟨.finished (.ok ())⟩
  case pipelineStats => exact ⟨{}⟩
  case select => exact ⟨.cancelled⟩
  case join => exact ⟨.panicked⟩
  case executeFilter | headObject | getObjectTagging | deleteObject | deleteObjects =>
    exact ⟨.error (.other "")⟩
  all_goals exact ⟨default⟩

theorem Answers.agrees_total (A : Answers) (o : Op) : ∃ r, A.agrees ⟨o, r⟩ := by
  cases o
  case executeFilter o =>
    exact ⟨(A.filter o).getD (.ok true), fun a ha => by simp [ha]⟩
  case headObject key versionId =>
    exact ⟨(A.head key versionId).getD (.error (.other "")), fun a ha => by simp [ha]⟩
  case getObjectTagging key versionId =>
    exact ⟨(A.tagging key versionId).getD (.error (.other "")), fun a ha => by simp [ha]⟩
  all_goals exact ⟨(Resp.nonempty _).some, trivial⟩

/-- Nothing known is no restriction. -/
theorem Answers.agrees_unknown (e : Event) : ({} : Answers).agrees e := by
  rcases e with ⟨o, r⟩
  cases o
  case executeFilter | headObject | getObjectTagging =>
    intro a ha
    cases ha
  all_goals trivial

/-- The objects a filter stage passes on, as far as the answers are known. -/
def FilterKind.keep (config : Config) (A : Answers) : FilterKind → S3Object → Bool
  | .base filter, o => filter.filterFn o config.filterConfig
  | .userDefined, o =>
    if config.filterCallbackRegistered then
      match A.filter o with
      | none => true
      | some (.ok needDelete) => needDelete
      | some (.error _) => false
    else true

/-- Receiving found the channel closed and empty. -/
def Event.isEnd (chan : Nat) : Event → Prop
  | ⟨.recv c, none⟩ => c = chan
  | ⟨.select c, .received none⟩ => c = chan
  | _ => False

/-- The token was seen cancelled. -/
def Event.sawCancelled : Event → Prop
  | ⟨.isCancelled, true⟩ => True
  | ⟨.select _, .cancelled⟩ => True
  | _ => False

/-- A send found the channel closed. -/
def Event.sawClosed (chan : Nat) : Event → Prop
  | ⟨.send c _, false⟩ => c = chan
  | _ => False

/-! ### Turns -/

/-- The turns of a filter stage from channel `inp` to channel `out`, which keeps
what satisfies `keep` and, if that is `known`, nothing else. -/
inductive FilterTurn (inp out : Nat) (keep : S3Object → Bool) (known : Prop) :
    Trace → Unit ⊕ Except Error Unit → Prop
  | forwarded {o : S3Object} {u : Trace} (kept : keep o) (received : u.flatMap (got inp) = [o])
      (unsent : u.flatMap (sentTo out) = []) (quiet : Counted [] u) :
      FilterTurn inp out keep known (u ++ [⟨.send out o, true⟩]) (.inl ())
  | skipped {o : S3Object} {u : Trace} (dropped : known → keep o = false)
      (received : u.flatMap (got inp) = [o]) (unsent : u.flatMap (sentTo out) = [])
      (counted : Counted [.deleteSkip o.key] u) : FilterTurn inp out keep known u (.inl ())
  | ended {u : Trace} (received : u.flatMap (got inp) = []) (unsent : u.flatMap (sentTo out) = [])
      (quiet : Counted [] u) (saw : ∃ e ∈ u, Event.isEnd inp e) :
      FilterTurn inp out keep known u (.inr (.ok ()))
  | stopped {u : Trace} (unsent : u.flatMap (sentTo out) = []) (live : u.flatMap cancels = [])
      (saw : ∃ e ∈ u, Event.sawCancelled e ∨ Event.sawClosed out e) :
      FilterTurn inp out keep known u (.inr (.ok ()))
  | failed {u : Trace} {e : Error} (unsent : u.flatMap (sentTo out) = []) :
      FilterTurn inp out keep known u (.inr (.error e))

/-- Deciding about an object only asks the callback. -/
theorem Verdict.quiet {stage : Stage} {kind : FilterKind} {o : S3Object} {v : Trace} {b : Bool}
    (h : Verdict stage o kind v (.ok b)) {β : Type} {f : Event → List β}
    (hf : ∀ o r, f ⟨.executeFilter o, r⟩ = []) : v.flatMap f = [] := by
  generalize hr : (Except.ok b : Except Error Bool) = r at h
  cases h with
  | base | unregistered => rfl
  | answered => simp [hf]
  | erred => cases hr

/-- The verdict on an object, as far as the answers are known. -/
theorem Verdict.keep {stage : Stage} {kind : FilterKind} {o : S3Object} {v : Trace} {b : Bool}
    {A : Answers} (h : Verdict stage o kind v (.ok b)) (hv : ∀ e ∈ v, A.agrees e) :
    (b = true → kind.keep stage.config A o = true) ∧
      (A.Known → kind.keep stage.config A o = b) := by
  generalize hr : (Except.ok b : Except Error Bool) = r at h
  cases h with
  | base =>
    cases hr
    exact ⟨id, fun _ => rfl⟩
  | unregistered hcallback =>
    cases hr
    simp [FilterKind.keep, hcallback]
  | @answered b' hcallback =>
    cases hr
    have ha : ∀ a, A.filter o = some a → .ok b = a := hv _ (List.mem_singleton_self _)
    rcases hf : A.filter o with - | a
    · refine ⟨fun _ => by simp [FilterKind.keep, hcallback, hf], fun hK => ?_⟩
      simpa [hf] using hK.filter o
    · obtain rfl := ha a hf
      simp [FilterKind.keep, hcallback, hf]
  | erred => cases hr

theorem Verdict.sent_nil {stage : Stage} {kind : FilterKind} {o : S3Object} {v : Trace}
    {r : Except Error Bool} (h : Verdict stage o kind v r) (c : Nat) : v.flatMap (sentTo c) = [] := by
  cases h with
  | base | unregistered | answered => rfl
  | erred _ fires =>
    have hw := flatMap_eq_nil_of_straight fires (triggerEventIfRegistered_straight _ _)
      fun _ => sentTo_notice (c := c)
    simp [sentTo, hw]

theorem FilterKind.got_receives (kind : FilterKind) (c : Nat) (o : S3Object) :
    (kind.receives c (some o)).flatMap (got c) = [o] := by
  cases kind <;> simp [FilterKind.receives, got]

/-- Receiving does nothing else. -/
theorem FilterKind.receives_quiet (kind : FilterKind) (c : Nat) (r : Option S3Object) {β : Type}
    {f : Event → List β} (hlook : ∀ b, f ⟨.isCancelled, b⟩ = []) (hrecv : f ⟨.recv c, r⟩ = [])
    (hselect : f ⟨.select c, .received r⟩ = []) : (kind.receives c r).flatMap f = [] := by
  cases kind <;> simp [FilterKind.receives, hlook, hrecv, hselect]

theorem Skips.quiet {config : Config} {o : S3Object} {t : Trace} (h : Skips config o t) (c c' : Nat) :
    t.flatMap (got c) = [] ∧ t.flatMap (sentTo c') = [] ∧ t.flatMap cancels = [] := by
  have hall : ∀ e ∈ t, got c e = [] ∧ sentTo c' e = [] ∧ cancels e = [] := by
    intro e he
    rcases h.reports e he with ⟨stats, hs⟩ | hnotice
    · rcases e with ⟨o, r⟩
      cases hs
      exact ⟨rfl, rfl, rfl⟩
    · exact ⟨got_notice hnotice, sentTo_notice hnotice, cancels_notice hnotice⟩
  exact ⟨List.flatMap_eq_nil_iff.mpr fun e he => (hall e he).1,
    List.flatMap_eq_nil_iff.mpr fun e he => (hall e he).2.1,
    List.flatMap_eq_nil_iff.mpr fun e he => (hall e he).2.2⟩

/-- **What the turns of a filter stage do to the stream.** -/
theorem FilterStep.filterTurn {config : Config} {inp out : Nat} {kind : FilterKind} {A : Answers}
    {u : Trace} {x : Unit ⊕ Except Error Unit} (h : FilterStep ⟨config, inp, out⟩ kind u x)
    (hu : ∀ e ∈ u, A.agrees e) : FilterTurn inp out (kind.keep config A) A.Known u x := by
  have hverdict : ∀ {o v b}, Verdict ⟨config, inp, out⟩ o kind v (.ok b) →
      (kind.receives inp (some o) ++ v).flatMap (got inp) = [o] ∧
        (kind.receives inp (some o) ++ v).flatMap (sentTo out) = [] ∧
          Counted [] (kind.receives inp (some o) ++ v) := by
    intro o v b hv
    have hreceives := fun {β : Type} {f : Event → List β} => kind.receives_quiet inp (some o) (f := f)
    refine ⟨?_, ?_, ?_, ?_⟩
    · rw [List.flatMap_append, kind.got_receives, hv.quiet fun _ _ => rfl, List.append_nil]
    · rw [List.flatMap_append, hv.quiet fun _ _ => rfl, hreceives (fun _ => rfl) rfl rfl]
      rfl
    · rw [List.flatMap_append, hv.quiet fun _ _ => rfl, hreceives (fun _ => rfl) rfl rfl]
      rfl
    · rw [List.flatMap_append, hv.quiet fun _ _ => rfl, hreceives (fun _ => rfl) rfl rfl]
      rfl
  cases h with
  | cancelled =>
    cases kind <;> exact .stopped rfl rfl ⟨_, List.mem_singleton_self _, .inl trivial⟩
  | ended =>
    cases kind
    · exact .ended rfl rfl ⟨rfl, rfl⟩ ⟨⟨.recv inp, none⟩, by simp [FilterKind.receives], rfl⟩
    · exact .ended rfl rfl ⟨rfl, rfl⟩ ⟨_, List.mem_singleton_self _, rfl⟩
  | failed verdict =>
    refine .failed ?_
    rw [List.flatMap_append, verdict.sent_nil, kind.receives_quiet inp _ (fun _ => rfl) rfl rfl]
    rfl
  | @rejected o v w verdict skips =>
    obtain ⟨hgot, hsent, hcounted⟩ := hverdict verdict
    obtain ⟨hgot', hsent', hlive⟩ := skips.quiet inp out
    have hkeep := (verdict.keep fun e he => hu e (by simp [he])).2
    have hskips : Counted [.deleteSkip o.key] w := ⟨skips.notes, hlive⟩
    rw [← List.append_assoc]
    refine .skipped hkeep ?_ ?_ (hcounted.append hskips)
    · rw [List.flatMap_append, hgot, hgot', List.append_nil]
    · rw [List.flatMap_append, hsent, hsent', List.append_nil]
  | @sent o v verdict =>
    obtain ⟨hgot, hsent, hcounted⟩ := hverdict verdict
    rw [← List.append_assoc]
    exact .forwarded ((verdict.keep fun e he => hu e (by simp [he])).1 rfl) hgot hsent hcounted
  | @unsent o v c r verdict =>
    obtain ⟨hgot, hsent, hcounted⟩ := hverdict verdict
    rw [← List.append_assoc]
    have hunsent : (kind.receives inp (some o) ++ v ++
        [(⟨.send out o, false⟩ : Event), ⟨.isClosed out, c⟩]).flatMap (sentTo out) = [] := by
      rw [List.flatMap_append, hsent]
      rfl
    rcases r with e | _
    · exact .failed hunsent
    · refine .stopped hunsent ?_ ⟨⟨.send out o, false⟩, by simp, .inr rfl⟩
      rw [List.flatMap_append, hcounted.live]
      rfl

/-! ### Whole traces -/

section whole

variable {config : Config} {inp out : Nat} {kind : FilterKind} {A : Answers} {t : Trace}

theorem FilterKind.filterTurn {u : Trace} {x : Unit ⊕ Except Error Unit}
    (h : Turn (fun _ => kind.turn ⟨config, inp, out⟩) () u x) (hu : ∀ e ∈ u, A.agrees e) :
    FilterTurn inp out (kind.keep config A) A.Known u x :=
  (FilterKind.step h).filterTurn hu

/-- What a filter stage from channel `inp` to channel `out` does. -/
def Op.isFiltering (inp out : Nat) : Op → Bool
  | .recv c | .select c => c = inp
  | .send c _ | .isClosed c => c = out
  | .isCancelled | .cancel | .executeFilter _ | .sendStats _ => true
  | o => o.isNotice

/-- The operations `φ` cover what a filter stage does. -/
structure FilterCovers (inp out : Nat) (φ : Op → Prop) : Prop where
  recv : φ (.recv inp)
  select : φ (.select inp)
  send : ∀ o, φ (.send out o)
  isClosed : φ (.isClosed out)
  isCancelled : φ .isCancelled
  executeFilter : ∀ o, φ (.executeFilter o)
  sendStats : ∀ stats, φ (.sendStats stats)
  cancel : φ .cancel
  events : OrdinaryEvents φ

section covers

variable {φ : Op → Prop} (h : FilterCovers inp out φ)

include h

theorem FilterCovers.stageSend (o : S3Object) : Straight φ (do
    if (← stageSend out o) = .closed then return .inr ()
    return .inl () : Act (Unit ⊕ Unit)) := by
  refine Straight.fallible_bind ((stageSend_straight _ o).mono ?_) fun r => ?_
  · rintro _ (rfl | rfl)
    · exact h.send o
    · exact h.isClosed
  · split_ifs <;> trivial

theorem FilterCovers.needDelete (stage : Stage) (object : S3Object) :
    Straight φ (needDelete stage object) := by
  unfold S3rm.needDelete
  split_ifs
  · refine Straight.fallible_bind (Straight.attempt ⟨h.executeFilter object, fun _ => trivial⟩)
      fun r => ?_
    rcases r with e | b
    · refine Straight.fallible_bind (Straight.lift ?_) fun _ => ⟨h.cancel, fun _ => trivial⟩
      exact h.events.triggerEventIfRegistered _ rfl
    · trivial
  · trivial

theorem FilterCovers.turn (kind : FilterKind) (config : Config) :
    (kind.turn ⟨config, inp, out⟩).Straight φ := by
  have hskip : ∀ o message, Straight φ (liftM (triggerEventIfRegistered config.eventManager
      (filteredEvent o message)) : Act Unit) := fun o message =>
    (h.events.triggerEventIfRegistered _ rfl).lift
  cases kind with
  | base filter =>
    refine straight_ask_bind.mpr ⟨h.isCancelled, fun b => ?_⟩
    split_ifs
    · trivial
    refine straight_ask_bind.mpr ⟨h.recv, ?_⟩
    rintro (- | o)
    · trivial
    · dsimp only
      split_ifs
      · exact ⟨h.sendStats _, fun _ => (hskip o _).fallible_bind fun _ => trivial⟩
      · exact h.stageSend o
  | userDefined =>
    refine straight_ask_bind.mpr ⟨h.select, ?_⟩
    rintro ((- | o) | -)
    · trivial
    · refine Straight.fallible_bind (h.needDelete _ o) fun b => ?_
      split_ifs
      · exact (hskip o _).fallible_bind fun _ => ⟨h.sendStats _, fun _ => trivial⟩
      · exact h.stageSend o
    · trivial

theorem FilterCovers.uses (kind : FilterKind) (config : Config) :
    (kind.filter ⟨config, inp, out⟩).Uses φ := by
  rw [kind.filter_eq]
  exact Uses.loop (fun _ => h.turn kind config) ()

end covers

theorem filterCovers_isFiltering (inp out : Nat) :
    FilterCovers inp out fun o => o.isFiltering inp out where
  recv := by simp [Op.isFiltering]
  select := by simp [Op.isFiltering]
  send o := by simp [Op.isFiltering]
  isClosed := by simp [Op.isFiltering]
  isCancelled := rfl
  executeFilter o := rfl
  sendStats _ := rfl
  cancel := rfl
  events := ⟨fun _ _ => rfl, fun _ _ => rfl⟩

/-- **Soundness of a filter stage at every moment**: it sends only what it
received and keeps, in order. -/
theorem part_filter (h : Part (kind.filter ⟨config, inp, out⟩) t)
    (ht : ∀ e ∈ t, A.agrees e) :
    (t.flatMap (sentTo out)).Sublist ((t.flatMap (got inp)).filter (kind.keep config A)) := by
  rw [kind.filter_eq] at h
  refine part_of_turns A.agrees_total (fun _ => ((filterCovers_isFiltering inp out).turn kind config).loopFree)
    (P := fun t => (t.flatMap (sentTo out)).Sublist
      ((t.flatMap (got inp)).filter (kind.keep config A)))
    (by simp) ?_ h ht
  intro _ t u x hP hu hok v hv
  have quiet : v.flatMap (sentTo out) = [] →
      ((t ++ v).flatMap (sentTo out)).Sublist
        (((t ++ v).flatMap (got inp)).filter (kind.keep config A)) := by
    intro hs
    simpa [hs] using hP.trans (List.sublist_append_left _ _)
  have silent : u.flatMap (sentTo out) = [] → v.flatMap (sentTo out) = [] := by
    obtain ⟨w, rfl⟩ := hv
    simp only [List.flatMap_append, List.append_eq_nil_iff]
    exact fun h => h.1
  cases FilterKind.filterTurn hu hok with
  | @forwarded o u kept received unsent quiet' =>
    rcases List.prefix_concat_iff.mp hv with rfl | ⟨w, rfl⟩
    · have hk : ((t.flatMap (got inp)) ++ [o]).filter (kind.keep config A) =
          (t.flatMap (got inp)).filter (kind.keep config A) ++ [o] := by simp [kept]
      simpa [received, unsent, sentTo, got, hk] using hP.append_right [o]
    · refine quiet ?_
      simp only [List.flatMap_append, List.append_eq_nil_iff] at unsent
      exact unsent.1
  | skipped _ _ unsent _ => exact quiet (silent unsent)
  | ended _ unsent _ _ => exact quiet (silent unsent)
  | stopped unsent _ _ => exact quiet (silent unsent)
  | failed unsent => exact quiet (silent unsent)

/-- The stream law of a filter stage that misses nothing: what it keeps goes on,
the rest is counted as skipped. -/
structure Filtered (inp out : Nat) (keep : S3Object → Bool) (known : Prop) (t : Trace) : Prop where
  kept : known → t.flatMap (sentTo out) = (t.flatMap (got inp)).filter keep
  counted : ∃ dropped : List S3Object,
    (t.flatMap (got inp)).Perm (t.flatMap (sentTo out) ++ dropped) ∧
      t.flatMap noted = dropped.map fun o => .deleteSkip o.key

theorem Filtered.nil {keep : S3Object → Bool} {known : Prop} : Filtered inp out keep known [] :=
  ⟨fun _ => rfl, [], List.Perm.refl _, rfl⟩

theorem FilterTurn.filtered {keep : S3Object → Bool} {known : Prop} {u : Trace}
    (h : FilterTurn inp out keep known u (.inl ())) (ht : Filtered inp out keep known t) :
    Filtered inp out keep known (t ++ u) := by
  obtain ⟨hs, dropped, hperm, hn⟩ := ht
  cases h with
  | @forwarded o u kept received unsent quiet =>
    refine ⟨fun hk => by simp [hs hk, unsent, received, sentTo, got, kept], dropped, ?_,
      by simp [hn, quiet.noted, noted]⟩
    simp only [List.flatMap_append, received, unsent, sentTo, got, List.flatMap_cons,
      List.flatMap_nil, List.append_nil, List.nil_append, if_true]
    refine (hperm.append_right [o]).trans ?_
    rw [List.append_assoc, List.append_assoc]
    exact List.perm_append_comm.append_left _
  | @skipped o u dropped' received unsent counted =>
    refine ⟨fun hk => by simp [hs hk, unsent, received, dropped' hk], dropped ++ [o], ?_,
      by simp [hn, counted.noted]⟩
    simpa [received, unsent] using hperm.append_right [o]

theorem Filtered.append_quiet {keep : S3Object → Bool} {known : Prop}
    (h : Filtered inp out keep known t) {u : Trace} (hg : u.flatMap (got inp) = [])
    (hs : u.flatMap (sentTo out) = []) (hn : u.flatMap noted = []) :
    Filtered inp out keep known (t ++ u) :=
  ⟨fun hk => by simp [h.kept hk, hs, hg], by simpa [hg, hs, hn] using h.counted⟩

/-- **Completeness of a filter stage**: returning without having been cancelled
and without having lost its receiver's side, it came to the end of its channel
and filtered everything it received. -/
theorem run_filter (h : Run (kind.filter ⟨config, inp, out⟩) t (.ok ()))
    (ht : ∀ e ∈ t, A.agrees e) :
    (∃ e ∈ t, Event.sawCancelled e ∨ Event.sawClosed out e) ∨
      ((∃ e ∈ t, Event.isEnd inp e) ∧
        Filtered inp out (kind.keep config A) A.Known t) := by
  rw [kind.filter_eq] at h
  obtain ⟨_, u, v, rfl, hfull, hv, hok⟩ :=
    run_of_loop (I := fun _ => Filtered inp out (kind.keep config A) A.Known) .nil
      (fun _ _ _ _ hI hb hok => (FilterKind.filterTurn hb hok).filtered hI) h ht
  cases FilterKind.filterTurn hv hok with
  | stopped _ _ saw =>
    obtain ⟨e, he, hsaw⟩ := saw
    exact .inl ⟨e, List.mem_append_right _ he, hsaw⟩
  | ended received unsent quiet saw =>
    obtain ⟨e, he, hend⟩ := saw
    exact .inr ⟨⟨e, List.mem_append_right _ he, hend⟩, hfull.append_quiet received unsent quiet.noted⟩

/-- A filter stage that returned without an error has not cancelled the token. -/
theorem filter_live (h : Run (kind.filter ⟨config, inp, out⟩) t (.ok ())) :
    t.flatMap cancels = [] := by
  have turn : ∀ {u x}, Turn (fun _ => kind.turn ⟨config, inp, out⟩) () u x →
      (∀ e, x ≠ .inr (.error e)) → u.flatMap cancels = [] := by
    intro u x hu hx
    cases FilterKind.filterTurn (A := {}) hu fun e _ => Answers.agrees_unknown e with
    | forwarded _ _ _ quiet => simp [quiet.live, cancels]
    | skipped _ _ _ counted => exact counted.live
    | ended _ _ quiet _ => exact quiet.live
    | stopped _ live _ => exact live
    | failed => exact absurd rfl (hx _)
  rw [kind.filter_eq] at h
  have all : ∀ e ∈ t, (fun _ : Event => True) e := fun _ _ => trivial
  obtain ⟨_, u, v, rfl, hI, hv, -⟩ := run_of_loop (I := fun _ t => t.flatMap cancels = []) rfl
    (fun _ t u _ hI hu _ => by simp [hI, turn hu (by simp)]) h all
  simp [hI, turn hv (by simp)]

end whole

end S3rm
