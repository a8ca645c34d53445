/-
S3rm/Requests.lean

Whom the delete requests of a run are about.  `Targets` follows a request from
the batch it was made for, through the buffer of its worker and the channels, to
an entry of the listing:

    part_requests      at any moment a worker has asked only about objects it
                       received
    issued_targets     at any moment of a run, a request that has been sent, or is
                       about to be, is about an object the listing handed over
                       and every filter stage keeps
-/
import S3rm.Books
import S3rm.Deleter.Results

namespace S3rm

open Conc Conc.Prog

variable {config : Config} {outside : Outside} {w : PipelineWorld} {stage : Stage}
  {b : List S3Object} {o : S3Object} {t u v : Trace}

/-! ### The requests of an operation -/

/-- The delete requests an operation makes, one for each object. -/
def Op.requests : Op → List Request
  | .deleteObject key versionId ifMatch => [⟨(key, versionId), ifMatch⟩]
  | .deleteObjects objects => objects.map ObjectIdentifier.request
  | _ => []

theorem asked_eq (e : Event) : asked e = e.1.requests := by
  rcases e with ⟨o, r⟩
  cases o <;> rfl

/-- Requests about one list of objects. -/
def AsksAbout (config : Config) (objects : List S3Object) (t : Trace) : Prop :=
  ∀ q ∈ t.flatMap asked, Targets config objects q

theorem AsksAbout.of_nil {objects : List S3Object} (h : t.flatMap asked = []) :
    AsksAbout config objects t := by
  intro q hq
  rw [h] at hq
  cases hq

theorem AsksAbout.append {objects : List S3Object} (ht : AsksAbout config objects t)
    (hu : AsksAbout config objects u) : AsksAbout config objects (t ++ u) := by
  intro q hq
  rw [List.flatMap_append, List.mem_append] at hq
  exact hq.elim (ht q) (hu q)

theorem AsksAbout.mono {objects objects' : List S3Object} (ht : AsksAbout config objects t)
    (hsub : objects ⊆ objects') : AsksAbout config objects' t :=
  fun q hq => (ht q hq).mono hsub

theorem AsksAbout.of_isPrefix {objects : List S3Object} (ht : AsksAbout config objects t)
    (hv : v <+: t) : AsksAbout config objects v :=
  fun q hq => ht q ((hv.flatMap asked).subset hq)

/-! ### A worker's requests -/

theorem asksAbout_screening {objects : List S3Object} (h : ∀ e ∈ t, e.1.isScreening) :
    AsksAbout config objects t :=
  .of_nil (List.flatMap_eq_nil_iff.mpr fun e he => asked_screening (h e he))

theorem asksAbout_finishBatch {objects batch : List S3Object} {result : DeleteResult}
    {y : Except Error Unit} (h : Run (finishBatch stage batch result) t y) :
    AsksAbout config objects t :=
  .of_nil (flatMap_eq_nil_of_straight h (finishBatch_straight ..) fun _ => asked_finish)

/-- A flush asks about its buffer. -/
theorem Flush.asksAbout {r : Except Error (List S3Object)} (h : Flush stage b t r)
    (ht : ∀ e ∈ t, EchoesErrors e) : AsksAbout stage.config b t := by
  cases h with
  | empty | cancelled => exact .of_nil rfl
  | @simulated w y h dry finish =>
    show AsksAbout _ _ w
    exact asksAbout_finishBatch finish
  | @failed o rest v e h wet delete =>
    subst h
    have hv := run_deleterDelete_targets delete fun e he => ht e (by simp [he])
    show AsksAbout _ _ (v ++ [⟨.cancel, ()⟩])
    exact AsksAbout.append hv (.of_nil rfl)
  | @deleted o rest v w result y h wet delete finish =>
    subst h
    have hv := run_deleterDelete_targets delete fun e he => ht e (by simp [he])
    show AsksAbout _ _ (v ++ w)
    exact AsksAbout.append hv (asksAbout_finishBatch finish)

/-- Processing an object asks about the buffer and the object. -/
theorem Process.asksAbout {r : Except Error (List S3Object)} (h : Process stage b o t r)
    (ht : ∀ e ∈ t, EchoesErrors e) : AsksAbout stage.config (b ++ [o]) t := by
  have hscreening : ∀ {w s}, Run (screen stage.config o) w s → AsksAbout stage.config (b ++ [o]) w :=
    fun hw => asksAbout_screening (hw.uses (screen_straight ..).uses)
  have hdrawn : ∀ {k : Nat} {z : Trace}, AsksAbout stage.config (b ++ [o]) z →
      AsksAbout stage.config (b ++ [o]) (⟨.fetchAdd, k⟩ :: z) := fun hz => hz
  have hsub : b ⊆ b ++ [o] := List.subset_append_left _ _
  cases h with
  | failed screened | skipped screened => exact hscreening screened
  | buffered screened _ _ => exact (hscreening screened).append (.of_nil rfl)
  | flushed screened _ flush =>
    exact (hscreening screened).append (hdrawn (flush.asksAbout fun e he => ht e (by simp [he])))
  | overFailed screened _ flush =>
    exact (hscreening screened).append
      (hdrawn ((flush.asksAbout fun e he => ht e (by simp [he])).mono hsub))
  | @exceeded w z y k b' screened _ flush stop =>
    have hz := (flush.asksAbout fun e he => ht e (by simp [he])).mono hsub
    refine (hscreening screened).append (hdrawn (hz.append ?_))
    obtain ⟨notices, -⟩ := stop
    refine AsksAbout.of_nil (List.flatMap_eq_nil_iff.mpr fun e he => ?_)
    simp only [List.mem_cons, List.mem_append, List.not_mem_nil, or_false] at he
    rcases he with rfl | rfl | he | rfl
    · rfl
    · rfl
    · exact asked_screening (Op.isScreening_of_isReport (Op.isReport_of_isNotice (notices e he)))
    · rfl

/-- At every moment of a turn, the worker asks about its buffer and the object
it received in the turn. -/
theorem WorkerTurn.asksAbout {x : List S3Object ⊕ Except Error Unit} (h : WorkerTurn stage b u x)
    (hu : ∀ e ∈ u, EchoesErrors e) (hv : v <+: u) :
    AsksAbout stage.config (b ++ v.flatMap (got stage.receiver)) v := by
  cases h with
  | cancelled | lost =>
    refine AsksAbout.of_isPrefix (.of_nil rfl) hv
  | @drained z r flush =>
    have hz := flush.asksAbout fun e he => hu e (by simp [he])
    have hall : AsksAbout stage.config b (⟨.select stage.receiver, .received none⟩ ::
        ⟨.isClosed stage.receiver, true⟩ :: z) := hz
    exact (hall.of_isPrefix hv).mono (List.subset_append_left _ _)
  | @received o p y r x process rest =>
    rcases v with - | ⟨e, v⟩
    · exact .of_nil rfl
    · obtain ⟨rfl, hv'⟩ := List.cons_prefix_cons.mp hv
      have hp := process.asksAbout fun e he => hu e (by simp [he])
      have hy : AsksAbout stage.config (b ++ [o]) y := by
        cases rest <;> exact .of_nil rfl
      have hall : AsksAbout stage.config (b ++ [o]) v := (hp.append hy).of_isPrefix hv'
      refine AsksAbout.mono (t := ⟨.select stage.receiver, .received (some o)⟩ :: v) hall ?_
      refine List.append_subset.mpr ⟨List.subset_append_left _ _, ?_⟩
      rw [List.flatMap_cons]
      simp [got]

/-- The buffer holds what was received. -/
theorem Flush.buffer_subset {b' : List S3Object} (h : Flush stage b u (.ok b')) : b' ⊆ b := by
  generalize hr : (Except.ok b' : Except Error (List S3Object)) = r at h
  cases h with
  | empty =>
    cases hr
    exact List.nil_subset _
  | cancelled =>
    cases hr
    exact List.Subset.refl _
  | @simulated w y h dry finish =>
    rcases y with _ | _ <;> cases hr
    exact List.nil_subset _
  | failed => cases hr
  | @deleted o rest v w result y h wet delete finish =>
    rcases y with _ | _ <;> cases hr
    exact List.nil_subset _

theorem Process.buffer_subset {b' : List S3Object} (h : Process stage b o u (.ok b')) :
    b' ⊆ b ++ [o] := by
  generalize hr : (Except.ok b' : Except Error (List S3Object)) = r at h
  cases h with
  | failed | overFailed => cases hr
  | skipped =>
    cases hr
    exact List.subset_append_left _ _
  | buffered =>
    cases hr
    exact List.Subset.refl _
  | flushed _ _ flush =>
    subst hr
    exact flush.buffer_subset
  | exceeded _ _ flush _ =>
    cases hr
    exact List.Subset.trans flush.buffer_subset (List.subset_append_left _ _)

theorem WorkerTurn.buffer_subset {b' : List S3Object} (h : WorkerTurn stage b u (.inl b')) :
    b' ⊆ b ++ u.flatMap (got stage.receiver) := by
  generalize hx : (.inl b' : List S3Object ⊕ Except Error Unit) = x at h
  cases h with
  | cancelled | lost | drained => cases hx
  | @received o p y r x process rest =>
    cases rest with
    | failed | cancelled => cases hx
    | next =>
      cases hx
      refine List.Subset.trans process.buffer_subset
        (List.append_subset.mpr ⟨List.subset_append_left _ _, ?_⟩)
      rw [List.flatMap_cons]
      simp [got]

/-- **A worker asks only about what it received.** -/
theorem part_requests (h : Part (receiveAndDelete stage) t) (ht : ∀ e ∈ t, EchoesErrors e) :
    AsksAbout stage.config (t.flatMap (got stage.receiver)) t := by
  refine part_of_loop (P := fun t => AsksAbout stage.config (t.flatMap (got stage.receiver)) t)
    (I := fun b t => b ⊆ t.flatMap (got stage.receiver) ∧
      AsksAbout stage.config (t.flatMap (got stage.receiver)) t)
    EchoesErrors.total (fun b => (workerTurn_straight stage b).loopFree)
    ⟨List.nil_subset _, .of_nil rfl⟩ (.of_nil rfl) ?_ ?_ h ht
  · intro b t u x hI hu hok v hv
    rw [List.flatMap_append]
    refine AsksAbout.append (hI.2.mono (List.subset_append_left _ _)) ?_
    refine ((run_workerTurn hu).asksAbout hok hv).mono (List.append_subset.mpr ⟨?_, ?_⟩)
    · exact List.Subset.trans hI.1 (List.subset_append_left _ _)
    · exact List.subset_append_right _ _
  · intro b t u b' hI hu hok
    have hturn := run_workerTurn hu
    have hsub : b ++ u.flatMap (got stage.receiver) ⊆ (t ++ u).flatMap (got stage.receiver) := by
      rw [List.flatMap_append]
      exact List.append_subset.mpr ⟨List.Subset.trans hI.1 (List.subset_append_left _ _),
        List.subset_append_right _ _⟩
    refine ⟨List.Subset.trans hturn.buffer_subset hsub, ?_⟩
    refine AsksAbout.append ?_ ((hturn.asksAbout hok (List.prefix_refl u)).mono hsub)
    rw [List.flatMap_append]
    exact hI.2.mono (List.subset_append_left _ _)

/-! ### The requests of a run -/

theorem Op.isDeletion_of_requests {o : Op} {q : Request} (hq : q ∈ o.requests) :
    o.isDeletion = true := by
  cases o <;> first | rfl | cases hq

/-- A request that was sent was asked for. -/
theorem issued_of_asked_request {q : Request} (h : q ∈ w.proj asked) :
    ∃ i o, w.Issued i o ∧ q ∈ o.requests := by
  obtain ⟨⟨i, o, r⟩, hmem, hq⟩ := List.mem_flatMap.mp h
  rw [asked_eq] at hq
  exact ⟨i, o, .inl ⟨r, hmem⟩, hq⟩

/-- Who asks for a deletion is a worker. -/
theorem issued_worker (h : Running config outside w) {i : TaskId} {o : Op} (hi : w.Issued i o)
    (hdel : o.isDeletion = true) : ∃ n, i = .stage (.worker n) := by
  by_contra hn
  obtain ⟨p, hp, -⟩ := Machine.Reachable.issued (start_initial config) h hi
  have hmay : i.mayUse config o := by
    rcases hi with ⟨r, hr⟩ | ⟨k, hk⟩
    · exact h.mayUse hr
    · obtain ⟨p, hp, hres⟩ := (Machine.Reachable.taskOk (start_initial config) h i).residual hk
      rw [h.code_eq i] at hp
      exact (hres.2.2 _ (TaskId.program_uses hp)).1
  rw [TaskId.not_isDeletion hmay fun n hi => hn ⟨n, hi⟩] at hdel
  cases hdel

/-- A response that breaks no promise about errors, and hands over no object. -/
theorem exists_echoing (o : Op) (hdel : o.isDeletion = true) :
    ∃ r, EchoesErrors ⟨o, r⟩ ∧ ∀ c, got c ⟨o, r⟩ = [] := by
  obtain ⟨r, hr⟩ := EchoesErrors.total o
  refine ⟨r, hr, fun c => ?_⟩
  cases o <;> first | rfl | cases hdel

/-- **Every request of a run is about a listed object** that every filter stage
keeps, at any moment and whatever the schedule. -/
theorem issued_targets (h : Running config outside w)
    (hecho : ∀ e, outside.admits e → EchoesErrors e) {i : TaskId} {o : Op} (hi : w.Issued i o)
    {q : Request} (hq : q ∈ o.requests) :
    Targets config ((w.proj listed).filter (chainKeeps config {} (filterCount config))) q := by
  have hdel := Op.isDeletion_of_requests hq
  obtain ⟨n, rfl⟩ := issued_worker h hi hdel
  obtain ⟨p, hp, hpart⟩ := Machine.Reachable.issued (start_initial config) h hi
  rw [h.code_eq] at hp
  have hn : n < config.workerSize := by
    rw [← StageId.worker_started]
    exact Option.isSome_iff_exists.mpr ⟨p, hp⟩
  obtain rfl : receiveAndDelete ⟨config, filterCount config, filterCount config + 1⟩ = p :=
    Option.some.inj ((worker_program hn).symm.trans hp)
  have hadmits : ∀ e ∈ traceOf (.stage (.worker n)) w.log, EchoesErrors e := fun e he =>
    hecho e (h.admits _ e he)
  -- the worker received the object
  have hgot : Targets config (w.projOf (got (filterCount config)) (.stage (.worker n))) q := by
    rcases hpart with ⟨r, hr⟩ | hpart
    · refine part_requests (h.part (worker_program hn)) hadmits q ?_
      refine List.mem_flatMap.mpr ⟨_, hr, ?_⟩
      rw [asked_eq]
      exact hq
    · obtain ⟨r, hr, hgot⟩ := exists_echoing o hdel
      have hall := part_requests (hpart r) (fun e he => by
        rcases List.mem_append.mp he with he | he
        · exact hadmits e he
        · rw [List.mem_singleton.mp he]
          exact hr) q (by
        rw [List.flatMap_append, List.mem_append]
        refine .inr (List.mem_flatMap.mpr ⟨_, List.mem_singleton_self _, ?_⟩)
        rw [asked_eq]
        exact hq)
      simpa [World.projOf, hgot] using hall
  -- and what a worker receives has come down the whole chain
  refine hgot.mono fun x hx => ?_
  have hsound := stream_sound h (A := {}) (fun e _ => Answers.agrees_unknown e)
    (le_refl (filterCount config))
  refine hsound.subset ?_
  rw [channel_law h]
  exact List.mem_append_left _ (World.mem_proj hx)

end S3rm
