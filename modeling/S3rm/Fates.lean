/-
S3rm/Fates.lean

What becomes of the objects of a run.  An object is rejected by a stage of the
chain or by a worker's filters; or it goes through a batch, and the batch's result
lists it as deleted, or as failed.  Each of these is entered in another place, by
another task.

    object_accounted    in a clean run each listed object has one of the three
                        fates, and the statistics are those of the fates
-/
import S3rm.Accounts
import S3rm.Chain
import S3rm.Deleter.History
import S3rm.Modes

namespace S3rm

open Conc Conc.Prog

variable {config : Config} {outside : Outside} {stage : Stage} {w : PipelineWorld} {kind : FilterKind}
  {o : S3Object} {b b' : List S3Object} {t u v : Trace} {ds : List Deed} {result : DeleteResult}

/-! ### Fates -/

inductive Fate where
  | skipped
  | deleted
  | failed
  deriving DecidableEq, Repr

/-- The statistics of an object with this fate. -/
def Fate.stats (o : S3Object) : Fate → List DeletionStatistics
  | skipped => [.deleteSkip o.key]
  | deleted => [.deleteComplete o.key, .deleteBytes (asU64 o.size)]
  | failed => [.deleteError o.key]

/-- Stage `n` of the chain has received the object, and it or the callback has
decided against it. -/
structure RejectedBy (config : Config) (w : PipelineWorld) (o : S3Object) (n : Nat)
    (kind : FilterKind) : Prop where
  stage : (filterObjects config)[n]? = some kind
  received : o ∈ w.projOf (got n) (.stage (.filter n))
  decided : if kind.consults config then (o, .ok false) ∈ w.projOf consulted (.stage (.filter n))
    else kind.accepts config o = false

/-- Worker `n` has received the object, and its filters have rejected it or did
not find it. -/
def ScreenedOut (config : Config) (w : PipelineWorld) (o : S3Object) (n : Nat) : Prop :=
  ∃ t v u, traceOf (.stage (.worker n)) w.log =
      t ++ ⟨.select (filterCount config), .received (some o)⟩ :: (v ++ u) ∧
    Run (screen config o) v (.ok true)

def Rejected (config : Config) (w : PipelineWorld) (o : S3Object) : Prop :=
  (∃ n kind, RejectedBy config w o n kind) ∨ ∃ n, ScreenedOut config w o n

/-- The keys the result lists as deleted. -/
def DeleteResult.deletedIds (result : DeleteResult) : List ObjectId :=
  result.deleted.map fun dk => (dk.key, dk.versionId)

/-- A result of the run lists the object as deleted. -/
def Removed (config : Config) (w : PipelineWorld) (o : S3Object) : Prop :=
  ∃ n t z u b result, traceOf (.stage (.worker n)) w.log = t ++ (z ++ u) ∧
    Dealt (workerStage config) b z result ∧ o.id ∈ result.deletedIds

open Classical in
/-- What became of an object. -/
noncomputable def fate (config : Config) (w : PipelineWorld) (o : S3Object) : Fate :=
  if Rejected config w o then .skipped else if Removed config w o then .deleted else .failed

/-! ### A batch -/

/-- What a result says of each object, as the answers of a service. -/
def DeleteResult.service (result : DeleteResult) : Service := fun id =>
  (result.failed.find? fun fk => decide ((fk.key, fk.versionId) = id)).map FailedKey.errorCode

section result

variable (hids : result.ids.Perm (b.map S3Object.id)) (hnodup : (b.map S3Object.id).Nodup)

include hids hnodup

theorem DeleteResult.service_deleted {id : ObjectId} (hid : id ∈ result.deletedIds) :
    result.service id = none := by
  have hdisjoint := List.disjoint_of_nodup_append (hids.nodup_iff.mpr hnodup)
  rw [DeleteResult.service, Option.map_eq_none_iff, List.find?_eq_none]
  intro fk hfk heq
  refine hdisjoint hid ?_
  rw [← of_decide_eq_true heq]
  exact List.mem_map_of_mem hfk

theorem DeleteResult.service_failed {fk : FailedKey} (hfk : fk ∈ result.failed) :
    result.service (fk.key, fk.versionId) = some fk.errorCode := by
  have hnodup' : (result.failed.map fun fk => (fk.key, fk.versionId)).Nodup :=
    (hids.nodup_iff.mpr hnodup).of_append_right
  obtain ⟨fk', hfk'⟩ := Option.isSome_iff_exists.mp (List.find?_isSome (p := fun x : FailedKey =>
    decide ((x.key, x.versionId) = (fk.key, fk.versionId))).mpr ⟨fk, hfk, decide_eq_true rfl⟩)
  have hmem := List.mem_of_find?_eq_some hfk'
  have hfound := List.find?_some hfk'
  have heq : (fk'.key, fk'.versionId) = (fk.key, fk.versionId) := of_decide_eq_true hfound
  rw [DeleteResult.service, hfk', Option.map_some, List.inj_on_of_nodup_map hnodup' hmem hfk heq]

theorem DeleteResult.settles : Settles result.service b result where
  all := hids
  deleted _ hdk := result.service_deleted hids hnodup (List.mem_map_of_mem hdk)
  failed _ hfk := result.service_failed hids hnodup hfk

theorem DeleteResult.service_eq_none (ho : o ∈ b) :
    result.service o.id = none ↔ o.id ∈ result.deletedIds := by
  constructor
  · intro hnone
    rcases List.mem_append.mp (hids.mem_iff.mpr (List.mem_map_of_mem ho)) with hdel | hfail
    · exact hdel
    · obtain ⟨fk, hfk, hid⟩ := List.mem_map.mp hfail
      rw [← hid, result.service_failed hids hnodup hfk] at hnone
      cases hnone
  · exact result.service_deleted hids hnodup

/-- The statistics of a batch are those of its objects' fates. -/
theorem result_stats_perm {f : S3Object → Fate}
    (hf : ∀ o ∈ b, f o = if o.id ∈ result.deletedIds then .deleted else .failed) :
    (result.errorStats ++ completeStats b result).Perm (b.flatMap fun o => (f o).stats o) := by
  have halike : (batchEntries {} b result).Alike (settledEntries {} result.service b) :=
    (DeleteResult.settles hids hnodup).alike hnodup
  refine halike.stats.trans (.of_eq ?_)
  refine List.flatMap_congr fun o ho => ?_
  rw [hf o ho]
  by_cases hdel : o.id ∈ result.deletedIds
  · rw [objectEntries_deleted ((result.service_eq_none hids hnodup ho).mpr hdel), if_pos hdel]
    rfl
  · rw [objectEntries_failed (fun h => hdel ((result.service_eq_none hids hnodup ho).mp h)), if_neg hdel]
    rfl

end result

/-! ### Distinct values -/

/-- What stands only once in a concatenation comes from one list. -/
theorem eq_of_mem_flatMap {α β : Type} {f : α → List β} {l : List α} (h : (l.flatMap f).Nodup)
    {a a' : α} {x : β} (ha : a ∈ l) (ha' : a' ∈ l) (hx : x ∈ f a) (hx' : x ∈ f a') : a = a' := by
  obtain ⟨-, hpair⟩ := List.nodup_flatMap.mp h
  have hsymm : Std.Symm (Function.onFun List.Disjoint f) := ⟨fun _ _ hd => List.Disjoint.symm hd⟩
  by_contra hne
  exact hpair.forall ha ha' hne hx hx'

/-- What stands only once in the log comes from one task. -/
theorem task_eq_of_nodup {β : Type} {f : Event → List β} (h : (w.proj f).Nodup) {i j : TaskId}
    {x : β} (hi : x ∈ w.projOf f i) (hj : x ∈ w.projOf f j) : i = j := by
  obtain ⟨e, he, hx⟩ := List.mem_flatMap.mp hi
  obtain ⟨e', he', hx'⟩ := List.mem_flatMap.mp hj
  have hpair : (i, e) = (j, e') :=
    eq_of_mem_flatMap (f := fun y : TaskId × Event => f y.2) h (mem_traceOf.mp he)
      (mem_traceOf.mp he') hx hx'
  exact congrArg Prod.fst hpair

/-! ### The workers of a clean run -/

/-- The trace shows nothing of a cancelled token. -/
theorem live_of_clean (h : Running config outside w) (hclean : Clean w) {i : TaskId} {e : Event}
    (he : e ∈ traceOf i w.log) : ¬ (e.sawCancelled ∨ e.1 = .cancel) := fun hsaw => by
  have hcancelled := token_law h (mem_traceOf.mp he) hsaw
  rw [hclean.live] at hcancelled
  cases hcancelled

/-- A worker of a clean run ends with an empty buffer. -/
theorem worker_history (h : Running config outside w) (hclean : Clean w) {n : Nat}
    (hout : w.outcome (.stage (.worker n)) = some (.done (.ok ()))) :
    ∃ ds, History (workerStage config) ds (traceOf (.stage (.worker n)) w.log) [] := by
  have hn : n < config.workerSize := StageId.worker_started.mp (h.started_of_outcome hout)
  have hlive : ∀ e ∈ traceOf (.stage (.worker n)) w.log, ¬ Event.sawCancelled e :=
    fun e he hsaw => live_of_clean h hclean he (.inl hsaw)
  obtain ⟨b, u, v, htrace, hrounds, hturn⟩ := run_loop.mp (h.run (worker_program hn) hout)
  rw [htrace] at hlive ⊢
  have hperm : Permanent u := fun t₁ t₂ he e hmem hsaw => hlive e (by rw [he]; simp [hmem]) hsaw
  obtain ⟨⟨ds, hds⟩, hroom⟩ := history_of_rounds hrounds hperm
  obtain ⟨ds', b', hds', hend⟩ := (run_workerTurn hturn).history_end hds hroom
  rcases hend with ⟨z, rfl, flush⟩ | rfl | rfl | ⟨o, p, rfl, -⟩
  · rcases flush.dealt with ⟨-, -, rfl⟩ | ⟨rfl, -⟩ | ⟨result, -, rfl⟩
    · exact ⟨ds', hds'⟩
    · exact absurd trivial (hlive ⟨.isCancelled, true⟩ (by simp))
    · exact ⟨ds', hds'⟩
  · exact absurd trivial (hlive ⟨.select (workerStage config).receiver, .cancelled⟩ (by simp))
  · exact (worker_not_lost h htrace).elim
  · exact absurd trivial (hlive ⟨.isCancelled, true⟩ (by simp))

/-- The deed that receives an object rejects it, or lets it draw a ticket. -/
theorem Did.of_received {d : Deed}
    (h : Did stage b d (u ++ ⟨.select stage.receiver, .received (some o)⟩ :: v) b') :
    (d = .skip o ∧ Run (screen stage.config o) v (.ok true)) ∨
      ∃ w, w <+: v ∧ Run (screen stage.config o) w (.ok false) := by
  have hmem : (⟨.select stage.receiver, .received (some o)⟩ : Event) ∈
      u ++ ⟨.select stage.receiver, .received (some o)⟩ :: v := by simp
  generalize hz : u ++ ⟨.select stage.receiver, .received (some o)⟩ :: v = z at h hmem
  -- it is the first event: the filters receive nothing
  have hfirst : ∀ {x : S3Object} {y : Trace},
      u ++ ⟨.select stage.receiver, .received (some o)⟩ :: v =
        ⟨.select stage.receiver, .received (some x)⟩ :: y →
      (∀ e ∈ y, got stage.receiver e = []) → o = x ∧ v = y := by
    intro x y heq hy
    rcases u with - | ⟨e, u⟩
    · obtain ⟨he, rfl⟩ := List.cons.inj heq
      cases he
      exact ⟨rfl, rfl⟩
    · obtain ⟨-, rfl⟩ := List.cons.inj heq
      have hnil := hy ⟨.select stage.receiver, .received (some o)⟩ (by simp)
      simp [got] at hnil
  cases h with
  | @skip x y screened =>
    obtain ⟨rfl, rfl⟩ := hfirst hz fun e he =>
      got_screening (screened.uses (screen_straight ..).uses e he)
    exact .inl ⟨rfl, screened⟩
  | @draw x y k screened =>
    obtain ⟨rfl, rfl⟩ := hfirst hz fun e he => by
      rcases List.mem_append.mp he with he | he
      · exact got_screening (screened.uses (screen_straight ..).uses e he)
      · rw [List.mem_singleton.mp he]
        rfl
    exact .inr ⟨y, List.prefix_append _ _, screened⟩
  | settle dealt => cases dealt.isFlush _ hmem
  | exceed stop => cases stop.isFlush 0 _ hmem
  | look looks => exact (looks _ hmem).elim

/-- The deed that passes on a batch settles it. -/
theorem Did.of_begun {d : Deed} {objects : List S3Object} {r : Unit}
    (h : Did stage b d (u ++ ⟨.beginDelete objects, r⟩ :: v) b') :
    ∃ result o rest v₁ v₂, d = .settle objects result ∧ objects = o :: rest ∧ v = v₁ ++ v₂ ∧
      Run (deleterDelete stage.config o rest) v₁ (.ok result) := by
  have hmem : (⟨.beginDelete objects, r⟩ : Event) ∈ u ++ ⟨.beginDelete objects, r⟩ :: v := by simp
  generalize hz : u ++ ⟨.beginDelete objects, r⟩ :: v = z at h hmem
  have hscreen : ∀ {x : S3Object} {y : Trace} {r'}, Run (screen stage.config x) y r' →
      (⟨.beginDelete objects, r⟩ : Event) ∉ y := by
    intro x y r' hy he
    cases hy.uses (screen_straight ..).uses _ he
  cases h with
  | skip screened =>
    rcases List.mem_cons.mp hmem with he | he
    · cases he
    · exact (hscreen screened he).elim
  | draw screened =>
    rcases List.mem_cons.mp hmem with he | he
    · cases he
    · rcases List.mem_append.mp he with he | he
      · exact (hscreen screened he).elim
      · cases List.mem_singleton.mp he
  | settle dealt =>
    have hfinish : ∀ {y result r'}, Run (finishBatch stage b result) y r' →
        (⟨.beginDelete objects, r⟩ : Event) ∉ y := by
      intro y result r' hy he
      cases hy.uses (finishBatch_straight ..).uses _ he
    cases dealt with
    | simulated dry finish =>
      rcases List.mem_cons.mp hmem with he | he
      · cases he
      · exact (hfinish finish he).elim
    | @deleted o rest v₁ v₂ _ hb wet delete finish =>
      -- past the call there are the requests and the report
      have hrest : (⟨.beginDelete objects, r⟩ : Event) ∉ v₁ ++ v₂ := by
        intro he
        rcases List.mem_append.mp he with he | he
        · cases delete.uses (deleterDelete_straight ..).uses _ he
        · exact hfinish finish he
      rcases u with - | ⟨e, - | ⟨e', u⟩⟩
      · cases hz
      · obtain ⟨-, htail⟩ := List.cons.inj hz
        obtain ⟨he, rfl⟩ := List.cons.inj htail
        cases he
        exact ⟨_, o, rest, v₁, v₂, rfl, hb, rfl, delete⟩
      · obtain ⟨-, htail⟩ := List.cons.inj hz
        obtain ⟨-, hrest'⟩ := List.cons.inj htail
        exact absurd (hrest' ▸ by simp) hrest
  | exceed stop =>
    obtain ⟨notices, -⟩ := stop
    cases notices _ (by simpa using hmem)
  | look looks => exact (looks _ hmem).elim

theorem History.skip_iff {n : Nat}
    (h : History (workerStage config) ds (traceOf (.stage (.worker n)) w.log) b) :
    Deed.skip o ∈ ds ↔ ScreenedOut config w o n := by
  constructor
  · intro hd
    obtain ⟨b₁, u, b₂, t₁, t₂, htrace, hdid⟩ := h.exists_did hd
    cases hdid with
    | @skip _ v screened => exact ⟨t₁, v, t₂, htrace, screened⟩
  · rintro ⟨t, v, u, htrace, screened⟩
    obtain ⟨d, hd, b₁, u₁, u₂, b₂, z, hdid, hu₂⟩ := h.of_event htrace
    rcases hdid.of_received with ⟨rfl, -⟩ | ⟨y, hy, screened'⟩
    · exact hd
    · -- it cannot have passed as well
      have heq := (screened.deterministic screened' (List.prefix_append v u)
        (hy.trans (hu₂ ▸ List.prefix_append u₂ z))).2
      cases heq

theorem Deed.received_of_skip (hd : Deed.skip o ∈ ds) : o ∈ ds.flatMap Deed.skipped :=
  List.mem_flatMap.mpr ⟨_, hd, List.mem_singleton_self _⟩

/-- A batch in the trace has been settled with its result. -/
theorem History.settle_of_dealt {z : Trace} (h : History stage ds t b)
    (wet : stage.config.dryRun = false) {b₁ : List S3Object} (ht : t = u ++ (z ++ v))
    (dealt : Dealt stage b₁ z result) : Deed.settle b₁ result ∈ ds := by
  cases dealt with
  | simulated dry => simp [wet] at dry
  | @deleted o rest v₁ v₂ _ hb _ delete finish =>
    have hsplit : t = (u ++ [⟨.isCancelled, false⟩]) ++ ⟨.beginDelete b₁, ()⟩ :: (v₁ ++ v₂ ++ v) := by
      rw [ht]
      simp
    obtain ⟨d, hd, b', u₁, u₂, b'', z, hdid, hu₂⟩ := h.of_event hsplit
    obtain ⟨result', o', rest', w₁, w₂, rfl, hb', rfl, delete'⟩ := hdid.of_begun
    rw [hb] at hb'
    obtain ⟨rfl, rfl⟩ := List.cons.inj hb'
    rw [List.append_assoc, List.append_assoc] at hu₂
    obtain ⟨-, heq⟩ := delete.deterministic delete' (List.prefix_append v₁ (v₂ ++ v))
      (hu₂ ▸ List.prefix_append w₁ (w₂ ++ z))
    obtain rfl := Except.ok.inj heq
    exact hd

/-- Without a limit, what is received is rejected or ends up in a batch. -/
theorem History.received_perm (h : History stage ds t []) (hmax : stage.config.maxDelete = none) :
    (ds.flatMap Deed.received).Perm (ds.flatMap Deed.skipped ++ ds.flatMap Deed.batch) := by
  have hall : allowed stage.config (ds.flatMap Deed.drawn) = (ds.flatMap Deed.drawn).map Prod.fst := by
    rw [allowed, List.filter_eq_self.mpr]
    intro a _
    simp [withinLimit, hmax]
  have hbatches := h.conserved
  rw [List.append_nil, hall] at hbatches
  rw [hbatches]
  exact Deed.received_perm ds

/-- What is entered deed by deed is entered object by object. -/
theorem deeds_stats_perm {f : S3Object → List DeletionStatistics}
    (hf : ∀ d ∈ ds, d.stats.Perm ((d.skipped ++ d.batch).flatMap f)) :
    (ds.flatMap Deed.stats).Perm ((ds.flatMap Deed.skipped ++ ds.flatMap Deed.batch).flatMap f) := by
  induction ds with
  | nil => exact .refl _
  | cons d ds ih =>
    have hhead := hf d List.mem_cons_self
    have htail := ih fun d' hd' => hf d' (List.mem_cons_of_mem d hd')
    simp only [List.flatMap_cons, List.flatMap_append] at hhead htail ⊢
    -- the rejected and the batched of the head are taken apart
    refine (hhead.append htail).trans ?_
    rw [List.append_assoc, List.append_assoc]
    refine List.Perm.append_left _ ?_
    rw [← List.append_assoc, ← List.append_assoc]
    exact List.Perm.append_right _ List.perm_append_comm

/-! ### The chain of a clean run -/

theorem accepted_sublist (ds : Decisions) : (accepted ds).Sublist (ds.map Prod.fst) :=
  (List.filter_sublist).map _

/-- What was decided about is accepted or rejected. -/
theorem decisions_perm {ds : Decisions} (h : ∀ d ∈ ds, ∃ c, d.2 = .ok c) :
    (ds.map Prod.fst).Perm (rejected ds ++ accepted ds) := by
  rw [rejected, accepted, ← List.map_append]
  refine List.Perm.map _ ((List.filter_append_perm _ ds).symm.trans (.append_left _ (.of_eq ?_)))
  refine List.filter_congr fun d hd => ?_
  obtain ⟨c, hc⟩ := h d hd
  cases c <;> simp [hc]

/-- What the stages of the chain have decided, in the end. -/
structure ChainBooks (config : Config) (w : PipelineWorld) (ds : Nat → Decisions) : Prop where
  decided : ∀ n kind, (filterObjects config)[n]? = some kind →
    Decided ⟨config, n, n + 1⟩ kind (ds n) (traceOf (.stage (.filter n)) w.log)
  received : ∀ n < filterCount config, (ds n).map Prod.fst = w.proj (sentTo n)
  passed : ∀ n < filterCount config, accepted (ds n) = w.proj (sentTo (n + 1))

theorem chain_books (h : Running config outside w) (hsize : 0 < config.workerSize)
    (hclean : Clean w) (hended : Ended config w) : ∃ ds, ChainBooks config w ds := by
  have hstage : ∀ n, ∃ ds, ∀ kind, (filterObjects config)[n]? = some kind →
      Decided ⟨config, n, n + 1⟩ kind ds (traceOf (.stage (.filter n)) w.log) ∧
        ds.map Prod.fst = w.proj (sentTo n) ∧ accepted ds = w.proj (sentTo (n + 1)) := by
    intro n
    rcases hkind : (filterObjects config)[n]? with - | kind
    · exact ⟨[], nofun⟩
    obtain ⟨hn, -⟩ := List.getElem?_eq_some_iff.mp hkind
    have hout := hended.ok hclean (s := .filter n) (decide_eq_true hn)
    obtain ⟨ds, hds, hdrained⟩ := filter_returned h hclean.live hkind hout fun i e he =>
      unclosed_of_clean h (fun e _ => Answers.agrees_unknown e) hsize hclean hn he
    refine ⟨ds, fun kind' hkind' => ?_⟩
    obtain rfl := Option.some.inj hkind'
    refine ⟨hds, ?_, ?_⟩
    · rw [← hds.received, channel_law h n, hdrained.2, List.append_nil, proj_got_filter h hn]
      rfl
    · rw [proj_sentTo_filter h hn]
      exact hds.sent.symm
  choose ds hds using hstage
  exact ⟨ds, fun n kind hkind => (hds n kind hkind).1,
    fun n hn => (hds n _ (List.getElem?_eq_getElem hn)).2.1,
    fun n hn => (hds n _ (List.getElem?_eq_getElem hn)).2.2⟩

namespace ChainBooks

variable {ds : Nat → Decisions} (h : ChainBooks config w ds)

include h

theorem sublist {n : Nat} (hn : n ≤ filterCount config) :
    (w.proj (sentTo n)).Sublist (w.proj (sentTo 0)) := by
  induction n with
  | zero => exact List.Sublist.refl _
  | succ n ih =>
    rw [← h.passed n hn]
    exact (accepted_sublist _).trans (h.received n hn ▸ ih (Nat.le_of_succ_le hn))

/-- What a stage has passed on, the stages before it have. -/
theorem subset {m n : Nat} (hmn : m ≤ n) (hn : n ≤ filterCount config) :
    w.proj (sentTo n) ⊆ w.proj (sentTo m) := by
  induction n, hmn using Nat.le_induction with
  | base => exact List.Subset.refl _
  | succ n _ ih =>
    rw [← h.passed n hn]
    intro x hx
    have hreceived := (accepted_sublist _).subset hx
    rw [h.received n hn] at hreceived
    exact ih (Nat.le_of_succ_le hn) hreceived

/-- What the lister sent is rejected by a stage, or leaves the chain. -/
theorem partition {n : Nat} (hn : n ≤ filterCount config) :
    (w.proj (sentTo 0) : Multiset S3Object) =
      (∑ m ∈ Finset.range n, (rejected (ds m) : Multiset S3Object)) + w.proj (sentTo n) := by
  induction n with
  | zero => simp
  | succ n ih =>
    have hget : (filterObjects config)[n]? = some (filterObjects config)[n] :=
      List.getElem?_eq_getElem hn
    have hperm := Multiset.coe_eq_coe.mpr (decisions_perm (h.decided n _ hget).answered)
    rw [h.received n hn, h.passed n hn, ← Multiset.coe_add] at hperm
    rw [ih (Nat.le_of_succ_le hn), hperm, Finset.sum_range_succ, add_assoc]

theorem rejected_iff {n : Nat} (hkind : (filterObjects config)[n]? = some kind) :
    o ∈ rejected (ds n) ↔ RejectedBy config w o n kind := by
  have hds := h.decided n kind hkind
  have hgot : w.projOf (got n) (.stage (.filter n)) = (ds n).map Prod.fst := hds.received
  have hasked : w.projOf consulted (.stage (.filter n)) = if kind.consults config then ds n else [] :=
    hds.asked
  have hmem : o ∈ rejected (ds n) ↔ (o, .ok false) ∈ ds n := by simp [rejected]
  rw [hmem]
  constructor
  · intro ho
    refine ⟨hkind, hgot ▸ List.mem_map_of_mem ho, ?_⟩
    split_ifs with hc
    · rw [hasked, if_pos hc]
      exact ho
    · have hown : Except.ok false = Except.ok (kind.accepts config o) :=
        hds.own (by simpa using hc) _ ho
      exact (Except.ok.inj hown).symm
  · rintro ⟨-, hreceived, hdecided⟩
    split_ifs at hdecided with hc
    · rwa [hasked, if_pos hc] at hdecided
    · rw [hgot] at hreceived
      obtain ⟨⟨x, r⟩, hd, rfl⟩ := List.mem_map.mp hreceived
      have hown : r = .ok (kind.accepts config x) := hds.own (by simpa using hc) _ hd
      rwa [hown, hdecided] at hd

/-- What leaves the chain was not rejected. -/
theorem not_rejected (hnodup : (w.proj (sentTo 0)).Nodup)
    (ho : o ∈ w.proj (sentTo (filterCount config))) (n : Nat) : ¬ RejectedBy config w o n kind := by
  intro hrej
  obtain ⟨hn, -⟩ := List.getElem?_eq_some_iff.mp hrej.stage
  have hkeys : ((ds n).map Prod.fst).Nodup := by
    rw [h.received n hn]
    exact hnodup.sublist (h.sublist hn.le)
  have hfalse : (o, .ok false) ∈ ds n := by
    simpa [rejected] using (h.rejected_iff hrej.stage).mpr hrej
  have htrue : (o, .ok true) ∈ ds n := by
    have hpassed := h.subset (m := n + 1) hn le_rfl ho
    rw [← h.passed n hn] at hpassed
    simpa [accepted] using hpassed
  have heq := List.inj_on_of_nodup_map hkeys hfalse htrue rfl
  cases heq

end ChainBooks

/-- Everything listed was sent into the chain. -/
theorem sent_of_clean (h : Running config outside w) (hsize : 0 < config.workerSize)
    (hclean : Clean w) (hended : Ended config w) : w.proj (sentTo 0) = w.proj listed := by
  rw [proj_sentTo_lister h, proj_listed h]
  refine (run_listTarget (h.run rfl (hended.ok hclean rfl))).resolve_right ?_
  rintro ⟨e, he, hclosed⟩
  exact unclosed_of_clean h (fun e _ => Answers.agrees_unknown e) hsize hclean (Nat.zero_le _)
    (mem_traceOf.mp he) hclosed

/-! ### The channel is closed last -/

/-- `run()` joins the terminator before anything else. -/
theorem part_runStarted (h : Part (runStarted config) t) (hne : t ≠ []) :
    ∃ r, (⟨.join .terminator, r⟩ : Event) ∈ t := by
  obtain hnil | ⟨r, t', rfl, -⟩ : t = [] ∨ ∃ r t', t = ⟨.join .terminator, r⟩ :: t' ∧ _ := h
  · exact absurd hnil hne
  · exact ⟨r, List.mem_cons_self⟩

/-- Statistics come from the stages that are not the lister. -/
theorem noted_of_stage (h : Running config outside w) {i : TaskId} {e : Event} (he : (i, e) ∈ w.log)
    (hne : noted e ≠ []) : ∃ s : StageId, i = .stage s ∧ s ≠ .lister ∧ s.exists config := by
  have hs := h.started he
  have hu := h.mayUse he
  rcases e with ⟨o, r⟩
  cases o
  case sendStats =>
    rcases i with (_ | n | n) | s | _ | _
    case stage.filter | stage.worker => exact ⟨_, rfl, nofun, StageId.exists_of_started hs⟩
    all_goals
      simp [TaskId.mayUse, Op.isListing, Op.isSupervising, Op.isCompleting, Op.isNotice] at hu
  all_goals exact absurd rfl hne

/-- Only `run()` closes the statistics channel. -/
theorem closed_by_main (h : Running config outside w) {i : TaskId} {e : Event} (he : (i, e) ∈ w.log)
    (hclose : e.1 = .closeStatsSender) : i = .main := by
  have hu := h.mayUse he
  rw [hclose] at hu
  rcases i with (_ | n | n) | s | _ | _
  case main => rfl
  all_goals
    simp [TaskId.mayUse, Op.isListing, Op.isFiltering, Op.isWorking, Op.isScreening, Op.isFlush,
      Op.isFinish, Op.isBackend, Op.isSupervising, Op.isReport, Op.isNotice] at hu

/-- In a clean run no statistics come too late. -/
theorem late_of_clean (h : Running config outside w) (hsize : 0 < config.workerSize)
    (hclean : Clean w) : late w = [] := by
  refine h.induction (P := fun w => Clean w → late w = []) (fun _ => rfl) ?_ ?_ ?_ hclean
  · intro u i o k r sh hu hP run hh hv hclean
    have hcleanU : Clean u := by
      refine ⟨fun j x hx => hclean.returned j x (by rwa [outcome_perform run]), ?_⟩
      by_contra hcan
      have hlive := hclean.live
      rw [World.record_shared, hh.token.mpr (.inl (by simpa using hcan))] at hlive
      cases hlive
    have hsum := stats_law hv
    rw [World.record_proj, World.put_proj, World.record_shared, hh.stats, ← stats_law hu,
      hP hcleanU, List.append_nil] at hsum
    split_ifs at hsum with hclosed
    · -- all stages have ended by now, so the event is not a statistic
      obtain ⟨x, hx, hclose⟩ := (statsClosed_law hu).mp hclosed
      obtain ⟨i', e'⟩ := x
      obtain rfl := closed_by_main hu hx hclose
      obtain ⟨r', hr'⟩ := part_runStarted (hu.part rfl) (List.ne_nil_of_mem (mem_traceOf.mpr hx))
      have hended := ended_of_terminated hu hsize hcleanU (join_law hu (mem_traceOf.mp hr'))
      rw [List.append_cancel_left hsum]
      by_contra hne
      obtain ⟨s, rfl, -, hs⟩ := noted_of_stage hv (i := i) (e := ⟨o, r⟩) (by simp) hne
      have hsome := hended s hs
      rw [running_of_tasks run] at hsome
      cases hsome
    · rw [List.append_assoc] at hsum
      simpa using hsum
  · intro u v _ hP hlog hsh hout hclean
    have hlate : late v = late u := by simp [late, hlog]
    rw [hlate]
    exact hP ⟨fun i o ho => hclean.returned i o (hout i o ho), hsh ▸ hclean.live⟩
  · intro u _ hP _ hclean
    cases hclean.live

/-! ### Accounts of the stages -/

/-- What every task of a clean run that is over has left behind. -/
structure Concluded (config : Config) (w : PipelineWorld) (ds : Nat → Decisions)
    (hist : Nat → List Deed) : Prop where
  chain : ChainBooks config w ds
  history : ∀ n < config.workerSize,
    History (workerStage config) (hist n) (traceOf (.stage (.worker n)) w.log) []
  received : w.proj (got (filterCount config)) = w.proj (sentTo (filterCount config))
  sent : w.proj (sentTo 0) = w.proj listed
  live : ∀ i e, (i, e) ∈ w.log → e.1 ≠ .cancel

theorem concluded_of_finished (h : Running config outside w) (hsize : 0 < config.workerSize)
    (hclean : Clean w) (hfin : Finished w) : ∃ ds hist, Concluded config w ds hist := by
  have hended := ended_of_finished h hsize hclean hfin
  obtain ⟨ds, hds⟩ := chain_books h hsize hclean hended
  have hworker : ∀ n, ∃ deeds, n < config.workerSize →
      History (workerStage config) deeds (traceOf (.stage (.worker n)) w.log) [] := by
    intro n
    by_cases hn : n < config.workerSize
    · obtain ⟨deeds, hdeeds⟩ := worker_history h hclean
        (hended.ok hclean (s := .worker n) (decide_eq_true hn))
      exact ⟨deeds, fun _ => hdeeds⟩
    · exact ⟨[], fun hn' => absurd hn' hn⟩
  choose hist hhist using hworker
  refine ⟨ds, hist, hds, hhist, ?_, sent_of_clean h hsize hclean hended, fun i e he hcancel => ?_⟩
  · exact got_of_ended h (fun e _ => Answers.agrees_unknown e) hsize hclean hended le_rfl
  · exact live_of_clean h hclean (mem_traceOf.mpr he) (.inr hcancel)

section concluded

variable {ds : Nat → Decisions} {hist : Nat → List Deed} (h : Concluded config w ds hist)
  (hnodup : ((w.proj listed).map S3Object.id).Nodup) (hmax : config.maxDelete = none)

include h

theorem Concluded.nodup (hnodup : ((w.proj listed).map S3Object.id).Nodup) :
    (w.proj (got (filterCount config))).Nodup := by
  have hsent : (w.proj (sentTo 0)).Nodup := h.sent ▸ hnodup.of_map
  rw [h.received]
  exact hsent.sublist (h.chain.sublist le_rfl)

theorem Concluded.mem_listed {n : Nat} (ho : o ∈ w.projOf (got (filterCount config)) (.stage (.worker n))) :
    o ∈ w.proj listed := by
  have hgot := World.mem_proj ho
  rw [h.received] at hgot
  exact h.sent ▸ (h.chain.sublist le_rfl).subset hgot

/-- What a worker has received it rejected, or put in a batch. -/
theorem Concluded.received_perm (hmax : config.maxDelete = none) {n : Nat} (hn : n < config.workerSize) :
    (w.projOf (got (filterCount config)) (.stage (.worker n))).Perm
      ((hist n).flatMap Deed.skipped ++ (hist n).flatMap Deed.batch) := by
  have hgot : w.projOf (got (filterCount config)) (.stage (.worker n)) =
      (hist n).flatMap Deed.received := (h.history n hn).received
  rw [hgot]
  exact (h.history n hn).received_perm hmax

/-- What a stage of the chain enters is what becomes of the objects it rejects. -/
theorem Concluded.stage_account {n : Nat} (hn : n < filterCount config) :
    w.projOf noted (.stage (.filter n)) =
      (rejected (ds n)).flatMap fun o => (fate config w o).stats o := by
  have hkind : (filterObjects config)[n]? = some (filterObjects config)[n] :=
    List.getElem?_eq_getElem hn
  have hnoted : w.projOf noted (.stage (.filter n)) =
      (rejected (ds n)).map fun o => .deleteSkip o.key := (h.chain.decided n _ hkind).skipped
  rw [hnoted, List.map_eq_flatMap]
  refine List.flatMap_congr fun o ho => ?_
  have hrej : Rejected config w o := .inl ⟨n, _, (h.chain.rejected_iff hkind).mp ho⟩
  rw [fate, if_pos hrej]
  rfl

include hnodup hmax

/-- What a worker has put in a batch was not rejected. -/
theorem Concluded.not_rejected (hrun : Running config outside w) {n : Nat} (hn : n < config.workerSize)
    (ho : o ∈ (hist n).flatMap Deed.batch) : ¬ Rejected config w o := by
  have hgot := (h.received_perm hmax hn).mem_iff.mpr (List.mem_append_right _ ho)
  rintro (⟨m, kind, hstage⟩ | ⟨m, hscreened⟩)
  · refine h.chain.not_rejected (h.sent ▸ hnodup.of_map) ?_ m hstage
    rw [← h.received]
    exact World.mem_proj hgot
  · obtain ⟨t, v, u, htrace, -⟩ := id hscreened
    have hm : m < config.workerSize :=
      hrun.worker_lt (htrace ▸ List.mem_append_right t List.mem_cons_self)
    have hskipped := Deed.received_of_skip ((h.history m hm).skip_iff.mpr hscreened)
    have hgot' := (h.received_perm hmax hm).mem_iff.mpr (List.mem_append_left _ hskipped)
    -- it was received only once, by this worker
    obtain rfl : n = m := by simpa using task_eq_of_nodup (h.nodup hnodup) hgot hgot'
    have honce : (w.projOf (got (filterCount config)) (.stage (.worker n))).Nodup :=
      (h.nodup hnodup).sublist (World.projOf_sublist _ _ _)
    exact List.disjoint_of_nodup_append ((h.received_perm hmax hn).nodup_iff.mp honce) hskipped ho

/-- A batch's result decides about its objects. -/
theorem Concluded.removed_iff (hrun : Running config outside w)
    (hecho : ∀ e, outside.admits e → Echoes e) {n : Nat} (hn : n < config.workerSize)
    (hd : Deed.settle b result ∈ hist n) (ho : o ∈ b) :
    Removed config w o ↔ o.id ∈ result.deletedIds := by
  have hids : ∀ {m x y}, m < config.workerSize → Deed.settle x y ∈ hist m →
      y.ids.Perm (x.map S3Object.id) := by
    intro m x y hm hd
    obtain ⟨b₁, z, b₂, t₁, t₂, htrace, hdid⟩ := (h.history m hm).exists_did hd
    cases hdid with
    | settle dealt fits =>
      refine dealt.ids (fun e he => hecho e ?_) fits
      exact hrun.admits _ e (htrace ▸ List.mem_append_right t₁ (List.mem_append_left t₂ he))
  have hgot : ∀ {m x y o}, m < config.workerSize → Deed.settle x y ∈ hist m → o ∈ x →
      o ∈ w.projOf (got (filterCount config)) (.stage (.worker m)) := fun hm hd ho =>
    (h.received_perm hmax hm).mem_iff.mpr (List.mem_append_right _ (List.mem_flatMap.mpr ⟨_, hd, ho⟩))
  constructor
  · rintro ⟨m, t, z, u, x, y, htrace, dealt, hid⟩
    by_cases dry : config.dryRun = true
    · -- a dry run has everything deleted
      obtain ⟨b₁, z', b₂, t₁, t₂, -, hdid⟩ := (h.history n hn).exists_did hd
      cases hdid with
      | settle dealt' =>
        cases dealt' with
        | simulated => exact List.mem_map.mpr ⟨⟨o.key, o.versionId⟩, List.mem_map.mpr ⟨o, ho, rfl⟩, rfl⟩
        | deleted _ wet => cases dry.symm.trans wet
    · have wet : (workerStage config).config.dryRun = false := Bool.eq_false_iff.mpr dry
      have hm : m < config.workerSize := by
        cases dealt with
        | simulated dry' => exact absurd dry' dry
        | deleted =>
          exact hrun.worker_lt
            (htrace ▸ List.mem_append_right t (List.mem_append_left u List.mem_cons_self))
      have hd' := (h.history m hm).settle_of_dealt wet htrace dealt
      obtain ⟨o', ho', heq⟩ := List.mem_map.mp
        ((hids hm hd').mem_iff.mp (List.mem_append_left _ hid))
      have hgot₁ := hgot hn hd ho
      have hgot₂ := hgot hm hd' ho'
      -- the object of that result is this one, received by this worker, in this batch
      obtain rfl : o' = o :=
        List.inj_on_of_nodup_map hnodup (h.mem_listed hgot₂) (h.mem_listed hgot₁) heq
      obtain rfl : n = m := by simpa using task_eq_of_nodup (h.nodup hnodup) hgot₁ hgot₂
      have honce : ((hist n).flatMap Deed.batch).Nodup := by
        have hall : (w.projOf (got (filterCount config)) (.stage (.worker n))).Nodup :=
          (h.nodup hnodup).sublist (World.projOf_sublist _ _ _)
        exact ((h.received_perm hmax hn).nodup_iff.mp hall).of_append_right
      have hdeed := eq_of_mem_flatMap honce hd hd' (x := o') ho ho'
      cases hdeed
      exact hid
  · intro hid
    obtain ⟨b₁, z, b₂, t₁, t₂, htrace, hdid⟩ := (h.history n hn).exists_did hd
    cases hdid with
    | settle dealt => exact ⟨n, t₁, z, t₂, b, result, htrace, dealt, hid⟩

/-- **What a worker enters** is what becomes of the objects it has received. -/
theorem Concluded.worker_account (hrun : Running config outside w)
    (hecho : ∀ e, outside.admits e → Echoes e) {n : Nat} (hn : n < config.workerSize) :
    (w.projOf noted (.stage (.worker n))).Perm ((w.projOf (got (filterCount config))
      (.stage (.worker n))).flatMap fun o => (fate config w o).stats o) := by
  have hnoted : w.projOf noted (.stage (.worker n)) = (hist n).flatMap Deed.stats :=
    (h.history n hn).noted
  rw [hnoted]
  refine (deeds_stats_perm fun d hd => ?_).trans ((h.received_perm hmax hn).symm.flatMap_right _)
  obtain ⟨b₁, z, b₂, t₁, t₂, htrace, hdid⟩ := (h.history n hn).exists_did hd
  cases d with
  | skip o =>
    have hrej : Rejected config w o := .inr ⟨n, (h.history n hn).skip_iff.mp hd⟩
    simp [Deed.stats, Deed.skipped, Deed.batch, fate, hrej, Fate.stats]
  | settle batch result =>
    have hfate : ∀ o ∈ batch, fate config w o =
        if o.id ∈ result.deletedIds then .deleted else .failed := by
      intro o ho
      have hkept := h.not_rejected hnodup hmax hrun hn (List.mem_flatMap.mpr ⟨_, hd, ho⟩)
      have hiff := h.removed_iff hnodup hmax hrun hecho hn hd ho
      rw [fate, if_neg hkept]
      by_cases hdel : o.id ∈ result.deletedIds
      · rw [if_pos hdel, if_pos (hiff.mpr hdel)]
      · rw [if_neg hdel, if_neg fun hrem => hdel (hiff.mp hrem)]
    have hbatch : (batch.map S3Object.id).Nodup := by
      have hgot : (w.projOf (got (filterCount config)) (.stage (.worker n))).Nodup :=
        (h.nodup hnodup).sublist (World.projOf_sublist _ _ _)
      have honce := ((h.received_perm hmax hn).nodup_iff.mp hgot).of_append_right
      refine ((List.nodup_flatMap.mp honce).1 _ hd).map_on fun x hx y hy heq => ?_
      have hmem : ∀ {x}, x ∈ batch → x ∈ w.proj listed := fun hx => h.mem_listed (n := n)
        ((h.received_perm hmax hn).mem_iff.mpr
          (List.mem_append_right _ (List.mem_flatMap.mpr ⟨_, hd, hx⟩)))
      exact List.inj_on_of_nodup_map hnodup (hmem hx) (hmem hy) heq
    cases hdid with
    | settle dealt fits =>
      refine result_stats_perm (dealt.ids (fun e he => hecho e ?_) fits) hbatch hfate
      exact hrun.admits _ e (htrace ▸ List.mem_append_right t₁ (List.mem_append_left t₂ he))
  | exceed o =>
    -- it would have cancelled the token
    cases hdid with
    | exceed stop =>
      obtain ⟨notices, -⟩ := stop
      refine absurd rfl (h.live (.stage (.worker n)) ⟨.cancel, ()⟩ (mem_traceOf.mp ?_))
      rw [htrace]
      simp
  | draw | look => exact .refl _

end concluded

theorem bind_sum {ι α β : Type} (f : α → Multiset β) (S : Finset ι) (g : ι → Multiset α) :
    (∑ i ∈ S, g i).bind f = ∑ i ∈ S, (g i).bind f :=
  map_sum (⟨⟨fun s => s.bind f, Multiset.zero_bind f⟩, fun s t => Multiset.add_bind s t f⟩ :
    Multiset α →+ Multiset β) g S

/-- What the stages and the workers have entered is all there is. -/
theorem coe_noted (h : Running config outside w) : (w.proj noted : Multiset DeletionStatistics) =
    (∑ n ∈ Finset.range (filterCount config), (w.projOf noted (.stage (.filter n)) : Multiset _)) +
      ∑ n ∈ Finset.range config.workerSize, (w.projOf noted (.stage (.worker n)) : Multiset _) := by
  have hfilter : Function.Injective fun n => TaskId.stage (.filter n) := fun a b h => by simpa using h
  have hworker : Function.Injective fun n => TaskId.stage (.worker n) := fun a b h => by simpa using h
  have hdisjoint : Disjoint ((Finset.range (filterCount config)).map ⟨_, hfilter⟩)
      ((Finset.range config.workerSize).map ⟨_, hworker⟩) := by
    rw [Finset.disjoint_left]
    intro i hi hi'
    obtain ⟨n, -, rfl⟩ := Finset.mem_map.mp hi
    obtain ⟨m, -, hm⟩ := Finset.mem_map.mp hi'
    cases hm
  rw [World.coe_proj (S := (Finset.range (filterCount config)).map ⟨_, hfilter⟩ ∪
    (Finset.range config.workerSize).map ⟨_, hworker⟩), Finset.sum_union hdisjoint, Finset.sum_map,
    Finset.sum_map]
  · rfl
  · intro e he hi
    by_contra hne
    obtain ⟨s, hs, hlister, hexists⟩ := noted_of_stage h (i := e.1) (e := e.2) he hne
    refine hi (Finset.mem_union.mpr ?_)
    rw [hs]
    rcases s with _ | n | n
    · exact absurd rfl hlister
    · exact .inl (Finset.mem_map.mpr ⟨n, Finset.mem_range.mpr (of_decide_eq_true hexists), rfl⟩)
    · exact .inr (Finset.mem_map.mpr ⟨n, Finset.mem_range.mpr (of_decide_eq_true hexists), rfl⟩)

def fatesConfig : Config where
  workerSize := 2
  batchSize := 2
  filterConfig := { largerSize := some 2 }

/-- The first object is too small, the second locked. -/
def fatesRun : PipelineWorld :=
  (servingScript lockedService lockedObjects).run fatesConfig lockedOutside
    (roundRobin fatesConfig 40)

theorem fatesRun_running : Running fatesConfig lockedOutside fatesRun :=
  Script.running (fun _ _ _ => servingScript_serves) _

/-- Who serves all it is asked for reports on all of it. -/
theorem Serves.echoes {service : Service} {e : Event} (h : Serves service e) : Echoes e := by
  rcases e with ⟨o, r⟩
  cases o
  case deleteObjects objects =>
    rcases r with e | output
    · trivial
    · exact h.1
  all_goals trivial

end S3rm
