/-
S3rm/Aftermath.lean

What a run leaves behind.  S3 applies a delete request it was sent at any moment,
or never, and says that an entry is deleted only when the entry is gone.  Nobody
else deletes or writes under the target.

    issued_begun    a request is about an object passed to `Deleter::delete`
    what_is_left    no run removes what is not selected, and with exit status 0
                    what is left of the bucket is all that is not
-/
import S3rm.Conc.Settling
import S3rm.ExitStatus
import S3rm.ParallelListing
import S3rm.Requests

namespace S3rm

open Conc Conc.Prog

variable {config : Config} {outside : Outside} {w : PipelineWorld} {stage : Stage} {A : Answers}
  {o : S3Object} {b b' : List S3Object} {t u v z : Trace} {n : Nat}

/-! ### Requests are about what was passed on -/

/-- At every moment of the trace, the requests are about objects passed to
`Deleter::delete` before. -/
def Backed (config : Config) (t : Trace) : Prop :=
  ∀ v, v <+: t → AsksAbout config (v.flatMap begun) v

theorem Backed.of_quiet (h : t.flatMap asked = []) : Backed config t := by
  intro v hv
  apply AsksAbout.of_nil
  rw [← List.prefix_nil, ← h]
  exact hv.flatMap asked

theorem Backed.append (ht : Backed config t) (hu : Backed config u) : Backed config (t ++ u) := by
  intro v hv
  rcases List.prefix_or_prefix_of_prefix hv (List.prefix_append t u) with hvt | ⟨v', rfl⟩
  · exact ht v hvt
  · rw [List.flatMap_append]
    have hv' : v' <+: u := (List.prefix_append_right_inj t).mp hv
    exact ((ht t (List.prefix_refl t)).mono (List.subset_append_left _ _)).append
      ((hu v' hv').mono (List.subset_append_right _ _))

theorem Backed.cons {e : Event} (he : asked e = []) (ht : Backed config t) :
    Backed config (e :: t) := by
  have hquiet : Backed config [e] := .of_quiet (by simp [he])
  exact hquiet.append ht

theorem Backed.of_isPrefix (h : Backed config t) (hv : v <+: t) : Backed config v :=
  fun _ hu => h _ (hu.trans hv)

/-- What follows the passing on of objects may be about these. -/
theorem Backed.begin {objects : List S3Object} (h : AsksAbout config objects t) :
    Backed config (⟨.beginDelete objects, ()⟩ :: t) := by
  intro v hv
  rcases v with - | ⟨e, v⟩
  · exact .of_nil rfl
  · obtain ⟨rfl, hv'⟩ := List.cons_prefix_cons.mp hv
    have hasks : AsksAbout config objects v := h.of_isPrefix hv'
    exact AsksAbout.mono (t := ⟨.beginDelete objects, ()⟩ :: v) hasks
      (List.subset_append_left objects (v.flatMap begun))

theorem asked_screening_nil {w : Trace} {r : Except Error Bool}
    (h : Run (screen stage.config o) w r) : w.flatMap asked = [] :=
  flatMap_eq_nil_of_straight h (screen_straight ..) fun _ => asked_screening

theorem Flush.backed {r : Except Error (List S3Object)} (h : Flush stage b t r)
    (ht : ∀ e ∈ t, EchoesErrors e) : Backed stage.config t := by
  cases h with
  | empty | cancelled => exact .of_quiet rfl
  | simulated h dry finish =>
    apply Backed.cons rfl
    apply Backed.of_quiet
    exact flatMap_eq_nil_of_straight finish (finishBatch_straight ..) fun _ => asked_finish
  | @failed o rest v e h wet delete =>
    subst h
    have hv := run_deleterDelete_targets delete fun e he => ht e (by simp [he])
    exact .cons rfl (.begin (AsksAbout.append hv (.of_nil rfl)))
  | @deleted o rest v w result y h wet delete finish =>
    subst h
    have hv := run_deleterDelete_targets delete fun e he => ht e (by simp [he])
    exact .cons rfl (.begin (AsksAbout.append hv (asksAbout_finishBatch finish)))

theorem Process.backed {r : Except Error (List S3Object)} (h : Process stage b o t r)
    (ht : ∀ e ∈ t, EchoesErrors e) : Backed stage.config t := by
  cases h with
  | failed screened | skipped screened => exact .of_quiet (asked_screening_nil screened)
  | buffered screened =>
    exact (Backed.of_quiet (asked_screening_nil screened)).append (.of_quiet rfl)
  | flushed screened _ flush | overFailed screened _ flush =>
    exact (Backed.of_quiet (asked_screening_nil screened)).append
      (.cons rfl (flush.backed fun e he => ht e (by simp [he])))
  | exceeded screened _ flush stop =>
    refine (Backed.of_quiet (asked_screening_nil screened)).append (.cons rfl ?_)
    refine (flush.backed fun e he => ht e (by simp [he])).append (.of_quiet ?_)
    obtain ⟨notices, -⟩ := stop
    refine List.flatMap_eq_nil_iff.mpr fun e he => ?_
    simp only [List.mem_cons, List.mem_append, List.not_mem_nil, or_false] at he
    rcases he with rfl | rfl | he | rfl
    · rfl
    · rfl
    · exact asked_screening (Op.isScreening_of_isReport (Op.isReport_of_isNotice (notices e he)))
    · rfl

theorem WorkerTurn.backed {x : List S3Object ⊕ Except Error Unit} (h : WorkerTurn stage b u x)
    (hu : ∀ e ∈ u, EchoesErrors e) : Backed stage.config u := by
  cases h with
  | cancelled | lost => exact .of_quiet rfl
  | drained flush => exact .cons rfl (.cons rfl (flush.backed fun e he => hu e (by simp [he])))
  | received process rest =>
    refine .cons rfl ((process.backed fun e he => hu e (by simp [he])).append (.of_quiet ?_))
    cases rest <;> rfl

/-- **A worker asks only about what it has passed on.** -/
theorem part_backed (h : Part (receiveAndDelete stage) t) (ht : ∀ e ∈ t, EchoesErrors e) :
    Backed stage.config t := by
  refine part_of_loop (P := Backed stage.config) (I := fun _ => Backed stage.config)
    EchoesErrors.total (fun b => (workerTurn_straight stage b).loopFree) (.of_quiet rfl)
    (.of_quiet rfl) ?_ ?_ h ht
  · intro b t u x hI hu hok v hv
    exact hI.append (((run_workerTurn hu).backed hok).of_isPrefix hv)
  · exact fun _ _ _ _ hI hu hok => hI.append ((run_workerTurn hu).backed hok)

/-- **A request is about an object passed to `Deleter::delete`**, when it has been
sent or is about to be. -/
theorem issued_begun (h : Running config outside w)
    (hecho : ∀ e, outside.admits e → EchoesErrors e) {i : TaskId} {o : Op} (hi : w.Issued i o)
    {q : Request} (hq : q ∈ o.requests) : Targets config (w.proj begun) q := by
  have hdel := Op.isDeletion_of_requests hq
  obtain ⟨n, rfl⟩ := issued_worker h hi hdel
  obtain ⟨p, hp, hpart⟩ := Machine.Reachable.issued (start_initial config) h hi
  rw [h.code_eq] at hp
  have hn : n < config.workerSize := by
    rw [← StageId.worker_started]
    exact Option.isSome_iff_exists.mpr ⟨p, hp⟩
  obtain rfl : receiveAndDelete (workerStage config) = p :=
    Option.some.inj ((worker_program hn).symm.trans hp)
  have hadmits : ∀ e ∈ traceOf (.stage (.worker n)) w.log, EchoesErrors e := fun e he =>
    hecho e (h.admits _ e he)
  have hbegun : Targets config (w.projOf begun (.stage (.worker n))) q := by
    rcases hpart with ⟨r, hr⟩ | hpart
    · refine part_backed (h.part (worker_program hn)) hadmits _ (List.prefix_refl _) q ?_
      refine List.mem_flatMap.mpr ⟨_, hr, ?_⟩
      rw [asked_eq]
      exact hq
    · -- it is about to be sent, whatever the answer will be
      obtain ⟨r, hr, -⟩ := exists_echoing o hdel
      have hall : Targets config
          ((traceOf (TaskId.stage (.worker n)) w.log ++ [(⟨o, r⟩ : Event)]).flatMap begun) q := by
        refine part_backed (hpart r) (fun e he => ?_) _ (List.prefix_refl _) q ?_
        · rcases List.mem_append.mp he with he | he
          · exact hadmits e he
          · rw [List.mem_singleton.mp he]
            exact hr
        · rw [List.flatMap_append, List.mem_append]
          refine .inr (List.mem_flatMap.mpr ⟨_, List.mem_singleton_self _, ?_⟩)
          rw [asked_eq]
          exact hq
      have hnone : begun ⟨o, r⟩ = [] := by cases o <;> first | rfl | cases hdel
      rwa [List.flatMap_append, List.flatMap_singleton, hnone, List.append_nil] at hall
  exact hbegun.mono fun x hx => World.mem_proj hx

/-! ### What S3 says is deleted -/

/-- The entries an answer says are deleted. -/
def confirmed : Event → List ObjectId
  | ⟨.deleteObject key versionId _, .ok ()⟩ => [(key, versionId)]
  | ⟨.deleteObjects _, .ok output⟩ => output.deleted.map fun d => (d.key.getD "", d.versionId)
  | _ => []

theorem confirmed_of_called {q : Request} (h : (q, .ok ()) ∈ t.flatMap called) :
    q.id ∈ t.flatMap confirmed := by
  obtain ⟨⟨o, r⟩, he, hq⟩ := List.mem_flatMap.mp h
  refine List.mem_flatMap.mpr ⟨_, he, ?_⟩
  cases o
  case deleteObject key versionId ifMatch =>
    obtain ⟨rfl, hr⟩ := Prod.mk.inj (List.mem_singleton.mp hq)
    obtain rfl : r = .ok () := hr.symm
    exact List.mem_singleton_self _
  all_goals cases hq

theorem ChunkRun.Ok.confirmed {c : ChunkRun} (h : c.Ok config) {dk : DeletedKey}
    (hdk : dk ∈ c.deleted) : (dk.key, dk.versionId) ∈ (c.events config).flatMap confirmed := by
  rw [ChunkRun.events, List.flatMap_cons, List.mem_append]
  rcases List.mem_append.mp hdk with hresponse | hrecovered
  · obtain ⟨d, hd, rfl⟩ := List.mem_map.mp hresponse
    exact .inl (List.mem_map_of_mem (f := fun d : DeletedObject => (d.key.getD "", d.versionId)) hd)
  · -- the last call of the fallback succeeded
    obtain ⟨x, hx, rfl⟩ := List.mem_map.mp hrecovered
    obtain ⟨hmem, hgone⟩ := List.mem_filter.mp hx
    have hcalls := (h.entries x hmem).calls
    rw [hgone] at hcalls
    have hlast : (fallbackRequest config c.chunk x.err, .ok ()) ∈ x.trace.flatMap called := by
      generalize x.trace.flatMap called = calls at hcalls
      cases hcalls with
      | recovered => simp
    have hconfirmed : x.err.id ∈ x.trace.flatMap S3rm.confirmed := confirmed_of_called hlast
    refine .inr ?_
    rw [List.flatMap_assoc]
    exact List.mem_flatMap.mpr ⟨x, hmem, hconfirmed⟩

/-- **What `Deleter::delete` reports as deleted, S3 has said is deleted.** -/
theorem deleted_confirmed {rest : List S3Object} {result : DeleteResult}
    (h : Run (deleterDelete config o rest) t (.ok result)) {id : ObjectId}
    (hid : id ∈ result.deletedIds) : id ∈ t.flatMap confirmed := by
  obtain ⟨dk, hdk, rfl⟩ := List.mem_map.mp hid
  unfold deleterDelete at h
  split_ifs at h with hsize
  · unfold singleDelete at h
    obtain ⟨v, a, w, rfl, hv, hw⟩ := run_attempt_bind.mp h
    obtain rfl := run_perform.mp hv
    rcases a with e | _
    · obtain ⟨_, _, rfl, rfl, hr⟩ := run_ask_bind.mp hw
      cases hr
      cases hdk
    · obtain ⟨rfl, hr⟩ := hw
      cases hr
      obtain rfl := List.mem_singleton.mp hdk
      exact List.mem_singleton_self _
  · obtain ⟨runs, hruns, hok | ⟨_, _, _, hr, -⟩⟩ := run_batchDelete h
    · obtain ⟨hr, rfl, -⟩ := hok
      cases hr
      obtain ⟨c, hc, hdk⟩ := List.mem_flatMap.mp hdk
      rw [List.flatMap_assoc]
      exact List.mem_flatMap.mpr ⟨c, hc, (hruns c hc).confirmed hdk⟩
    · cases hr

/-- What the statistics of a real run call deleted, S3 has said is deleted. -/
theorem Removed.confirmed (h : Removed config w o) (hdry : config.dryRun = false) :
    o.id ∈ w.proj confirmed := by
  obtain ⟨n, t, z, u, b, result, htrace, dealt, hid⟩ := h
  apply World.mem_proj (i := .stage (.worker n))
  rw [World.projOf, htrace]
  cases dealt with
  | simulated dry => exact absurd (hdry.symm.trans dry) (by decide)
  | @deleted x rest v y _ hb wet delete finish =>
    have hv := deleted_confirmed delete hid
    simp only [List.flatMap_append, List.flatMap_cons, List.mem_append]
    exact .inr (.inl (.inr (.inr (.inl hv))))

/-! ### The pipeline and the bucket -/

/-- The pipeline and the entries that are left in the bucket. -/
structure OwnBucket : Type 1 where
  world : PipelineWorld
  entries : List S3Object

namespace OwnBucket

/-- The bucket after S3 deleted the entry `id`. -/
def delete (s : OwnBucket) (id : ObjectId) : OwnBucket :=
  { s with entries := s.entries.filter fun o => o.id ≠ id }

/-- What can happen next: a step of the pipeline, in which S3 says of no entry that
is there that it is deleted, or S3 applies one of the requests made. -/
inductive Step (config : Config) (outside : Outside) : OwnBucket → OwnBucket → Prop
  | pipeline {s : OwnBucket} {w : PipelineWorld} (step : (pipeline config outside).Step s.world w)
      (truthful : ∀ id ∈ w.proj confirmed, ∀ o ∈ s.entries, o.id ≠ id) :
      Step config outside s { s with world := w }
  | applied {s : OwnBucket} {i : TaskId} {o : Op} {q : Request} (issued : s.world.Issued i o)
      (asks : q ∈ o.requests) : Step config outside s (s.delete q.id)

/-- The states a run on this bucket can be in. -/
def Reachable (config : Config) (outside : Outside) (entries : List S3Object) : OwnBucket → Prop :=
  Relation.ReflTransGen (Step config outside) { world := start config, entries := entries }

variable {entries : List S3Object} {s s' : OwnBucket}

/-- What was deleted had been passed on, and what S3 says is deleted is gone. -/
structure Kept (config : Config) (outside : Outside) (entries : List S3Object) (s : OwnBucket) :
    Prop where
  running : Running config outside s.world
  deleted : ∃ ids : List ObjectId, s.entries = entries.filter (fun o => o.id ∉ ids) ∧
    ∀ id ∈ ids, ∃ x ∈ s.world.proj begun, id = x.id
  gone : ∀ id ∈ s.world.proj confirmed, ∀ o ∈ s.entries, o.id ≠ id

/-- **Every step keeps it.** -/
theorem Kept.step (h : Kept config outside entries s)
    (hecho : ∀ e, outside.admits e → EchoesErrors e) (hs : Step config outside s s') :
    Kept config outside entries s' := by
  obtain ⟨ids, heq, hids⟩ := h.deleted
  cases hs with
  | pipeline step truthful =>
    refine ⟨h.running.tail step, ⟨ids, heq, fun id hid => ?_⟩, truthful⟩
    obtain ⟨x, hx, rfl⟩ := hids id hid
    exact ⟨x, step.proj_subset begun hx, rfl⟩
  | @applied i o q issued asks =>
    refine ⟨h.running, ⟨q.id :: ids, ?_, fun id hid => ?_⟩, fun id hid o ho => ?_⟩
    · show s.entries.filter _ = _
      rw [heq, List.filter_filter]
      refine List.filter_congr fun x _ => ?_
      simp [not_or]
    · rcases List.mem_cons.mp hid with rfl | hid
      · obtain ⟨x, hx, rfl⟩ := issued_begun h.running hecho issued asks
        exact ⟨x, hx, rfl⟩
      · exact hids id hid
    · exact h.gone id hid o (List.mem_filter.mp ho).1

theorem Reachable.kept (h : Reachable config outside entries s)
    (hecho : ∀ e, outside.admits e → EchoesErrors e) : Kept config outside entries s := by
  induction h with
  | refl =>
    refine ⟨.refl, ⟨[], by simp, by simp⟩, fun id hid => ?_⟩
    cases hid
  | tail _ hs ih => exact ih.step hecho hs

end OwnBucket

/-! ### From the listing to the end -/

theorem Echoes.errors {e : Event} (h : Echoes e) : EchoesErrors e := by
  rcases e with ⟨o, r⟩
  cases o
  case deleteObjects objects =>
    rcases r with e | output
    · trivial
    intro err herr
    have hmem := List.Perm.subset h (List.mem_append_right _ (List.mem_map_of_mem herr))
    obtain ⟨i, hi, heq⟩ := List.mem_map.mp hmem
    obtain ⟨hkey, hversion⟩ := Prod.mk.inj heq
    exact ⟨i, hi, hkey.symm, hversion.symm⟩
  all_goals trivial

/-- What is passed on was listed and is selected. -/
theorem selected_of_begun (h : Running config outside w) (hK : A.Known)
    (hA : ∀ e, outside.admits e → A.agrees e) (ho : o ∈ w.proj begun) :
    o ∈ w.proj listed ∧ Selects config A o := by
  obtain ⟨adm, hbooks⟩ := running_books h hA
  -- it was admitted, so it had been received, and came down the whole chain
  have hadm : o ∈ adm.map Prod.fst := by
    have hpassed := Multiset.mem_of_le hbooks.passed (Multiset.mem_coe.mpr ho)
    exact Multiset.mem_of_le (Multiset.map_le_map (Multiset.filter_le _ _)) hpassed
  obtain ⟨hgot, hworker⟩ := Multiset.mem_filter.mp (Multiset.mem_of_le hbooks.admitted hadm)
  have hsent : o ∈ w.proj (sentTo (filterCount config)) := by
    rw [channel_law h]
    exact List.mem_append_left _ hgot
  obtain ⟨hlisted, hchain⟩ := List.mem_filter.mp ((stream_sound h hA le_rfl).subset hsent)
  refine ⟨hlisted, (selects_iff hK).mpr ?_⟩
  rw [passes, Bool.and_eq_true]
  exact ⟨hchain, hworker⟩

/-- The lister is handed what the listing sends, in this order, and is told of its
success after all of it. -/
structure HandsOver (lw : ListWorld) (w : PipelineWorld) : Prop where
  isPrefix : w.proj listed <+: lw.proj intoChannel
  whole : ∀ i, (i, (⟨.nextListed, .finished (.ok ())⟩ : Event)) ∈ w.log →
    w.proj listed = lw.proj intoChannel

/-- A lister that returns without an error was told of the listing's success. -/
theorem lister_finished (h : Run (listTarget 0) t (.ok ())) :
    (⟨.nextListed, .finished (.ok ())⟩ : Event) ∈ t := by
  obtain ⟨failed, u, v, rfl, -, hv⟩ := run_loop.mp h
  have hturn := run_listTurn hv
  generalize hx : (Sum.inr (.ok ()) : Option Error ⊕ Except Error Unit) = x at hturn
  cases hturn with
  | object | subListing => cases hx
  | @finished result =>
    rcases failed with - | e
    · obtain rfl : .ok () = result := Sum.inr.inj hx
      simp
    · cases Sum.inr.inj hx

/-- **What a run leaves in the bucket.**  Let the lister be handed what a listing of
the target sends, of a bucket whose entries are told apart by key and version id.
At any moment of any run only entries under the target that the filters select are
gone; and when the tool's exit status is 0, all of them are. -/
theorem what_is_left [DecidablePred (Selects config A)] {bucket : Bucket} {s3 : S3 bucket}
    {storage : S3Storage} {mode : ListingMode} {maxKeys : Int} {lw : ListWorld} {s : OwnBucket}
    {listing : Outcome (Except Exit Unit)}
    (hlist : (listMachine storage s3.endpoint).alone.Reachable (listStart storage mode maxKeys) lw)
    (hroot : lw.outcome [] = some listing) (hids : ((bucket.entries mode).map S3Object.id).Nodup)
    (hs : OwnBucket.Reachable config outside (bucket.entries mode) s) (hover : HandsOver lw s.world)
    (hecho : ∀ e, outside.admits e → Echoes e) (hK : A.Known)
    (hA : ∀ e, outside.admits e → A.agrees e) :
    (∀ o ∈ bucket.entries mode, o ∉ s.entries →
      Text.startsWith o.key storage.pathPrefix ∧ Selects config A o) ∧
    ∀ {x : PipelineWorld} {r : Readings}, TimelyRun config outside s.world → isReturning s.world →
      Ended config s.world → (∀ e, outside.admits e → Event.Foreign e) → 0 < config.workerSize →
      config.dryRun = false → TakenAfter config outside s.world x r →
      (outside.mayCancel → r.ctrlCReceived = true) → exitStatus r = 0 →
        s.entries = (bucket.entries mode).filter fun o =>
          !(Text.startsWith o.key storage.pathPrefix && decide (Selects config A o)) := by
  have hkept := hs.kept fun e he => (hecho e he).errors
  have hrun := hkept.running
  obtain ⟨ids, heq, hbegun⟩ := hkept.deleted
  have hsent := (sent_of_outcome hlist hroot).2
  have hunder : ∀ o, o ∈ lw.proj intoChannel ↔ o ∈ bucket.under mode storage.pathPrefix := by
    intro o
    rw [← Multiset.mem_coe, hsent, Multiset.mem_coe]
  -- what was deleted is the entry that was passed on
  have hdeleted : ∀ o ∈ bucket.entries mode, o.id ∈ ids →
      Text.startsWith o.key storage.pathPrefix ∧ Selects config A o := by
    intro o ho hid
    obtain ⟨x, hx, hxid⟩ := hbegun _ hid
    obtain ⟨hlisted, hsel⟩ := selected_of_begun hrun hK hA hx
    obtain ⟨hmem, hstart⟩ := List.mem_filter.mp ((hunder x).mp (hover.isPrefix.subset hlisted))
    obtain rfl : o = x := List.inj_on_of_nodup_map hids ho hmem hxid
    exact ⟨hstart, hsel⟩
  refine ⟨fun o ho hgone => hdeleted o ho ?_, ?_⟩
  · by_contra hid
    rw [heq] at hgone
    exact hgone (List.mem_filter.mpr ⟨ho, decide_eq_true hid⟩)
  intro x r htimely hret hended hforeign hsize hdry hreads hmay hzero
  obtain ⟨-, -, hclean, hkeys⟩ := (exit_zero_iff htimely hret hended hforeign hreads hmay).mp hzero
  have hwhole : s.world.proj listed = lw.proj intoChannel := by
    have hlister := hrun.run (i := .stage .lister) rfl (hended.ok hclean (s := .lister) rfl)
    exact hover.whole _ (mem_traceOf.mp (lister_finished hlister))
  have hall := begun_of_clean hrun hK hA hsize hdry hended hclean
  rw [heq]
  refine List.filter_congr fun o ho => ?_
  rw [Bool.eq_iff_iff, decide_eq_true_eq, Bool.not_eq_true', Bool.and_eq_false_imp]
  constructor
  · -- it is still there, so S3 has not said that it is deleted
    intro hid hstart
    refine decide_eq_false fun hsel => ?_
    have hlisted : o ∈ s.world.proj listed := by
      rw [hwhole, hunder]
      exact List.mem_filter.mpr ⟨ho, hstart⟩
    have hpassed : o ∈ (s.world.proj begun : Multiset S3Object) := by
      rw [hall]
      exact Multiset.mem_filter.mpr ⟨hlisted, hsel⟩
    have hremoved := removed_of_begun hrun hecho hdry hended hclean hkeys hpassed
    refine hkept.gone _ (hremoved.confirmed hdry) o ?_ rfl
    rw [heq]
    exact List.mem_filter.mpr ⟨ho, decide_eq_true hid⟩
  · intro himp hid
    obtain ⟨hstart, hsel⟩ := hdeleted o ho hid
    exact of_decide_eq_false (himp hstart) hsel

/-! ### A bucket after a run -/

/-- The delete requests a task is about to make. -/
def nextRequests (w : PipelineWorld) (i : TaskId) : List Request :=
  match w.tasks i with
  | .running (.op o _) => o.requests
  | _ => []

theorem issued_of_next {i : TaskId} {q : Request} (h : q ∈ nextRequests w i) :
    ∃ o, w.Issued i o ∧ q ∈ o.requests := by
  unfold nextRequests at h
  split at h
  · rename_i o k run
    exact ⟨o, .inr ⟨k, run⟩, h⟩
  · cases h

/-- Steps of the pipeline that confirm only what is gone already. -/
theorem OwnBucket.Reachable.pipeline {entries : List S3Object} {s : OwnBucket}
    (hs : OwnBucket.Reachable config outside entries s)
    (hw : (pipeline config outside).Reachable s.world w)
    (htrue : ∀ id ∈ w.proj confirmed, ∀ o ∈ s.entries, o.id ≠ id) :
    OwnBucket.Reachable config outside entries { s with world := w } := by
  induction hw with
  | refl => exact hs
  | tail _ hstep ih =>
    have hprev := ih fun id hid => htrue id (hstep.proj_subset confirmed hid)
    exact hprev.tail (.pipeline hstep htrue)

def leftConfig : Config where
  workerSize := 1
  batchSize := 2
  filterConfig := { largerSize := some 2 }

def leftListing : List ListStep :=
  [.object (.notVersioning (sampleEntry "logs/a" 1)), .object (.notVersioning (sampleEntry "logs/b/c" 2)),
    .finished (.ok ())]

def leftSchedule : List TaskId := (roundRobin leftConfig 60).filter (· ≠ .main)

/-- The worker is about to ask S3 to delete "logs/b/c". -/
@[irreducible] def leftAsking : PipelineWorld :=
  (listingScript leftListing).run leftConfig (listingOutside leftListing) (leftSchedule.take 101)

@[irreducible] def leftRun : PipelineWorld := orderlyRun leftConfig leftListing 5

/-- The bucket after the run. -/
def leftBucket : OwnBucket where
  world := leftRun
  entries := (logsBucket.entries .objects).filter fun o => o.id ≠ ("logs/b/c", none)

theorem leftListing_foreign : ∀ step ∈ leftListing, Event.Foreign ⟨.nextListed, step⟩ := by
  simp [leftListing, Event.Foreign]

theorem leftAsking_running : Running leftConfig (listingOutside leftListing) leftAsking := by
  unfold leftAsking
  exact Script.running (fun _ _ _ => listingScript_admits leftListing_foreign) _

theorem leftRun_of_asking :
    (pipeline leftConfig (listingOutside leftListing)).Reachable leftAsking leftRun := by
  have hsplit : (roundRobin leftConfig 60).filter (· ≠ .main) =
      leftSchedule.take 101 ++ leftSchedule.drop 101 := (List.take_append_drop 101 leftSchedule).symm
  unfold leftRun orderlyRun leftAsking Script.run
  rw [hsplit, Machine.exec_append]
  exact (Machine.exec_sound (fun _ _ _ _ => listingScript_admits leftListing_foreign) _ _).trans
    (Machine.exec_sound (fun _ _ _ _ => listingScript_admits leftListing_foreign) _ _)

theorem leftBucket_reachable : OwnBucket.Reachable leftConfig (listingOutside leftListing)
    (logsBucket.entries .objects) leftBucket := by
  have hasking : OwnBucket.Reachable leftConfig (listingOutside leftListing)
      (logsBucket.entries .objects) ⟨leftAsking, logsBucket.entries .objects⟩ := by
    refine OwnBucket.Reachable.pipeline .refl leftAsking_running ?_
    have hnone : leftAsking.proj confirmed = [] := by decide +kernel
    rw [hnone]
    exact fun _ hid => absurd hid List.not_mem_nil
  obtain ⟨o, hissued, hasks⟩ := issued_of_next (w := leftAsking) (i := .stage (.worker 0))
    (q := ⟨("logs/b/c", none), none⟩) (by decide +kernel)
  have hdeleted := hasking.tail (.applied (s := ⟨leftAsking, _⟩) hissued hasks)
  refine OwnBucket.Reachable.pipeline hdeleted leftRun_of_asking ?_
  have hconfirmed : leftRun.proj confirmed = [("logs/b/c", none)] := by decide +kernel
  rw [hconfirmed]
  intro id hid o ho
  rw [List.mem_singleton.mp hid]
  exact of_decide_eq_true (List.mem_filter.mp ho).2

theorem leftBucket_world : leftBucket.world = leftRun := rfl

/-- `what_is_left` of two objects, one of them large enough for the filter. -/
theorem what_is_left_leftRun : leftBucket.entries = [.notVersioning (sampleEntry "logs/a" 1)] ∧
    leftBucket.entries = (logsBucket.entries .objects).filter fun o =>
      !(Text.startsWith o.key logsOnePermit.pathPrefix &&
        decide (Selects leftConfig (listingScript leftListing).answers o)) := by
  have htimely : TimelyRun leftConfig (listingOutside leftListing) leftRun := by
    unfold leftRun
    exact orderlyRun_timely leftListing_foreign (by decide +kernel) (by decide +kernel)
  have hlisted : leftRun.proj listed = logsSequential.proj intoChannel := by decide +kernel
  have hover : HandsOver logsSequential leftBucket.world := by
    rw [leftBucket_world]
    exact ⟨hlisted ▸ List.prefix_refl _, fun _ _ => hlisted⟩
  have hlist : (listMachine logsOnePermit logsS3.endpoint).alone.Reachable
      (listStart logsOnePermit .objects 1) logsSequential := Machine.exec_sound (logsReply_admits _) _ _
  have hroot : logsSequential.outcome [] = some (.done (.ok ())) := by decide +kernel
  have hids : ((logsBucket.entries .objects).map S3Object.id).Nodup := by decide +kernel
  obtain ⟨-, hleft⟩ := what_is_left hlist hroot hids leftBucket_reachable hover
    (fun _ he => he.2.2) (Script.known _) (fun _ he => he.1)
  refine ⟨by decide +kernel, hleft htimely (by decide +kernel) (ended_of_settled (by decide +kernel))
    (fun _ he => he.2.1) (by decide) rfl takenAfter_readingsAt (fun hmay => hmay.elim)
    (by decide +kernel)⟩

end S3rm
