/-
S3rm/Modes.lean

Single mode and batch mode.  A service that answers DeleteObject and
DeleteObjects alike leaves no difference in what a worker reports: both modes
report, object by object, what the service did to it.

    settledEntries    what is to be reported about objects, one after the other
    Reports           a trace reports that, and nothing else
    modes_agree       two workers that admit the same objects, one in single
                      mode and one in batch mode, report the same
-/
import S3rm.Batching
import S3rm.Deleter.Keys
import S3rm.Warnings

namespace S3rm

open Conc Conc.Prog

variable {config : Config} {outside : Outside} {stage : Stage} {w : PipelineWorld}
  {o : S3Object} {rest b b' os : List S3Object} {t u v : Trace}

/-! ### The service -/

/-- What the service does to an object: deletes it, or fails with an error code. -/
abbrev Service := ObjectId → Option String

/-- An answer is that of the service, whichever way it was asked. -/
def Serves (service : Service) : Event → Prop
  | ⟨.deleteObject key versionId _, .ok _⟩ => service (key, versionId) = none
  | ⟨.deleteObject key versionId _, .error e⟩ =>
    service (key, versionId) = some e.extractDeleteObjectErrorCode
  | ⟨.deleteObjects objects, .ok output⟩ =>
    Echoes ⟨.deleteObjects objects, .ok output⟩ ∧
      (∀ d ∈ output.deleted, service (d.key.getD "", d.versionId) = none) ∧
      ∀ err ∈ output.errors, service err.id = some err.codeOr
  | ⟨.deleteObjects _, .error _⟩ => False
  | _ => True

/-- Its errors are permanent. -/
def PermanentErrors (service : Service) : Prop :=
  ∀ id code, service id = some code → isRetryableErrorCode code = false

/-- The result says of every object of the batch what the service does to it. -/
structure Settles (service : Service) (batch : List S3Object) (result : DeleteResult) : Prop where
  all : result.ids.Perm (batch.map S3Object.id)
  deleted : ∀ dk ∈ result.deleted, service (dk.key, dk.versionId) = none
  failed : ∀ fk ∈ result.failed, service (fk.key, fk.versionId) = some fk.errorCode

variable {service : Service}

theorem singleDelete_settles {r : Except Error DeleteResult} (h : Run (singleDelete config o) t r)
    (ht : ∀ e ∈ t, Serves service e) : ∃ result, r = .ok result ∧ Settles service [o] result := by
  unfold singleDelete at h
  obtain ⟨v, a, u, rfl, hv, hu⟩ := run_attempt_bind.mp h
  obtain rfl := run_perform.mp hv
  have hanswer := ht _ (List.mem_append_left _ (List.mem_singleton_self _))
  rcases a with e | _
  · obtain ⟨_, _, rfl, rfl, rfl⟩ := run_ask_bind.mp hu
    refine ⟨_, rfl, List.Perm.refl _, fun dk hdk => absurd hdk List.not_mem_nil, fun fk hfk => ?_⟩
    rw [List.mem_singleton.mp hfk]
    exact hanswer
  · obtain ⟨rfl, rfl⟩ := hu
    refine ⟨_, rfl, List.Perm.refl _, fun dk hdk => ?_, fun fk hfk => absurd hfk List.not_mem_nil⟩
    rw [List.mem_singleton.mp hdk]
    exact hanswer

/-- A key whose error is permanent stays failed. -/
theorem EntryRun.Ok.stays {c : EntryRun} {chunk : List S3Object} (h : c.Ok config chunk)
    (hcode : isRetryableErrorCode c.err.codeOr = false) : c.gone = false :=
  h.calls.gone_iff.mpr (.inl hcode)

/-- The keys of a chunk are deleted or failed as the response says. -/
theorem ChunkRun.Ok.settles {c : ChunkRun} (h : c.Ok config) (hpermanent : PermanentErrors service)
    (hserves : Serves service ⟨.deleteObjects (c.chunk.map (objectIdentifier config)), .ok c.response⟩) :
    (∀ dk ∈ c.deleted, service (dk.key, dk.versionId) = none) ∧
      ∀ fk ∈ c.failed, service (fk.key, fk.versionId) = some fk.errorCode := by
  obtain ⟨-, hdeleted, herrors⟩ := hserves
  have herr : ∀ x ∈ c.entries, service x.err.id = some x.err.codeOr := by
    intro x hx
    apply herrors
    rw [← h.errors]
    exact List.mem_map_of_mem hx
  have hgone : ∀ x ∈ c.entries, x.gone = false := fun x hx =>
    (h.entries x hx).stays (hpermanent _ _ (herr x hx))
  constructor
  · intro dk hdk
    rcases List.mem_append.mp hdk with hdk | hdk
    · obtain ⟨d, hd, rfl⟩ := List.mem_map.mp hdk
      exact hdeleted d hd
    · -- no key recovers
      obtain ⟨x, hx, rfl⟩ := List.mem_map.mp hdk
      have hx' := List.mem_filter.mp hx
      rw [hgone x hx'.1] at hx'
      cases hx'.2
  · intro fk hfk
    obtain ⟨x, hx, rfl⟩ := List.mem_map.mp hfk
    exact herr x (List.mem_filter.mp hx).1

theorem batchDelete_settles {r : Except Error DeleteResult} (hsize : 0 < config.batchSize)
    (h : Run (batchDelete config os) t r) (ht : ∀ e ∈ t, Serves service e)
    (hpermanent : PermanentErrors service) : ∃ result, r = .ok result ∧ Settles service os result := by
  have hrun := h
  obtain ⟨runs, hok, ⟨rfl, rfl, -⟩ | ⟨chunk, left, e, -, -, rfl⟩⟩ := run_batchDelete h
  · have hserves : ∀ c ∈ runs, Serves service
        ⟨.deleteObjects (c.chunk.map (objectIdentifier config)), .ok c.response⟩ := fun c hc =>
      ht _ (List.mem_flatMap.mpr ⟨c, hc, List.mem_cons_self⟩)
    have hecho : ∀ e ∈ runs.flatMap (ChunkRun.events config), Echoes e := by
      rintro ⟨op, a⟩ he
      have hserve := ht _ he
      cases op
      case deleteObjects objects =>
        rcases a with e | output
        · trivial
        · exact hserve.1
      all_goals trivial
    refine ⟨_, rfl, (run_batchDelete_result hsize hrun).2 hecho, fun dk hdk => ?_, fun fk hfk => ?_⟩
    · obtain ⟨c, hc, hdk⟩ := List.mem_flatMap.mp hdk
      exact ((hok c hc).settles hpermanent (hserves c hc)).1 dk hdk
    · obtain ⟨c, hc, hfk⟩ := List.mem_flatMap.mp hfk
      exact ((hok c hc).settles hpermanent (hserves c hc)).2 fk hfk
  · exact (ht ⟨.deleteObjects (chunk.map (objectIdentifier config)), .error e⟩ (by simp)).elim

/-- **Both backends do to a batch what the service does to it.**  The single one
gets batches of one. -/
theorem deleterDelete_settles {r : Except Error DeleteResult}
    (h : Run (deleterDelete config o rest) t r) (ht : ∀ e ∈ t, Serves service e)
    (hpermanent : PermanentErrors service) (hsingle : config.batchSize ≤ 1 → rest = []) :
    ∃ result, r = .ok result ∧ Settles service (o :: rest) result := by
  unfold deleterDelete at h
  split_ifs at h with hsize
  · rw [hsingle hsize]
    exact singleDelete_settles h ht
  · exact batchDelete_settles (by omega) h ht hpermanent

/-! ### What is to be reported -/

/-- An event without its messages. -/
def EventData.bare (event : EventData) : EventData :=
  { event with errorMessage := none, message := none }

/-- The same entries, in whatever order and with whatever messages. -/
structure Entries.Alike (x y : Entries) : Prop where
  stats : x.stats.Perm y.stats
  events : (x.events.map EventData.bare).Perm (y.events.map EventData.bare)
  counts : x.counts.Perm y.counts

theorem Entries.Alike.refl (x : Entries) : x.Alike x :=
  ⟨List.Perm.refl _, List.Perm.refl _, List.Perm.refl _⟩

theorem Entries.Alike.symm {x y : Entries} (h : x.Alike y) : y.Alike x :=
  ⟨h.stats.symm, h.events.symm, h.counts.symm⟩

theorem Entries.Alike.trans {x y z : Entries} (h : x.Alike y) (h' : y.Alike z) : x.Alike z :=
  ⟨h.stats.trans h'.stats, h.events.trans h'.events, h.counts.trans h'.counts⟩

theorem Entries.Alike.append {x x' y y' : Entries} (h : x.Alike y) (h' : x'.Alike y') :
    (x ++ x').Alike (y ++ y') := by
  refine ⟨h.stats.append h'.stats, ?_, h.counts.append h'.counts⟩
  rw [Entries.events_append, Entries.events_append, List.map_append, List.map_append]
  exact h.events.append h'.events

/-- The event of an object, less its messages. -/
def settledEvent (config : Config) (service : Service) (o : S3Object) : EventData :=
  if service o.id = none then
    { EventData.new .deleteComplete with
      dryRun := config.dryRun, key := some o.key, versionId := o.versionId,
      size := some (asU64 o.size), lastModified := some o.lastModified }
  else
    { EventData.new .deleteFailed with
      dryRun := config.dryRun, key := some o.key, versionId := o.versionId }

/-- The entries of an object to which the service does this. -/
def objectEntries (config : Config) (service : Service) (o : S3Object) : Entries where
  stats :=
    if service o.id = none then [.deleteComplete o.key, .deleteBytes (asU64 o.size)]
    else [.deleteError o.key]
  events := [settledEvent config service o]
  counts := [if service o.id = none then some (asU64 o.size) else none]

theorem objectEntries_deleted (h : service o.id = none) : objectEntries config service o =
    ⟨[.deleteComplete o.key, .deleteBytes (asU64 o.size)], [settledEvent config service o],
      [some (asU64 o.size)]⟩ := by
  rw [objectEntries, if_pos h, if_pos h]

theorem objectEntries_failed (h : ¬ service o.id = none) : objectEntries config service o =
    ⟨[.deleteError o.key], [settledEvent config service o], [none]⟩ := by
  rw [objectEntries, if_neg h, if_neg h]

/-- The entries of objects, one after the other. -/
def settledEntries (config : Config) (service : Service) (os : List S3Object) : Entries where
  stats := os.flatMap fun o => (objectEntries config service o).stats
  events := os.flatMap fun o => (objectEntries config service o).events
  counts := os.flatMap fun o => (objectEntries config service o).counts

theorem settledEntries_append (xs ys : List S3Object) :
    settledEntries config service (xs ++ ys) =
      settledEntries config service xs ++ settledEntries config service ys := by
  ext1 <;> simp [settledEntries]

/-- What is listed for the objects that satisfy `p`, and what for the others, is
together what is listed for all. -/
theorem flatMap_filter_perm {α β : Type} {p : α → Bool} {f g h : α → List β} {xs : List α}
    (hf : ∀ x ∈ xs, p x = true → f x = h x) (hg : ∀ x ∈ xs, p x = false → g x = h x) :
    ((xs.filter p).flatMap f ++ (xs.filter fun x => !p x).flatMap g).Perm (xs.flatMap h) := by
  have hleft : (xs.filter p).flatMap f = (xs.filter p).flatMap h :=
    List.flatMap_congr fun x hx => hf x (List.mem_filter.mp hx).1 (List.mem_filter.mp hx).2
  have hright : (xs.filter fun x => !p x).flatMap g = (xs.filter fun x => !p x).flatMap h :=
    List.flatMap_congr fun x hx => hg x (List.mem_filter.mp hx).1 (by simpa using (List.mem_filter.mp hx).2)
  rw [hleft, hright, ← List.flatMap_append]
  exact (List.filter_append_perm p xs).flatMap_right h

section settles

variable {result : DeleteResult} (h : Settles service b result)

include h

/-- The deleted keys are the objects the service deletes. -/
theorem Settles.deleted_perm : result.deleted.Perm
    ((b.filter fun o => service o.id = none).map fun o => ⟨o.key, o.versionId⟩) := by
  have hfilter := h.all.filter fun id => service id = none
  rw [DeleteResult.ids, List.filter_append, List.filter_eq_self.mpr, List.filter_eq_nil_iff.mpr,
    List.append_nil, List.filter_map] at hfilter
  · have hkeys := hfilter.map fun id : ObjectId => (⟨id.1, id.2⟩ : DeletedKey)
    rw [List.map_map, List.map_map] at hkeys
    simpa [Function.comp_def, S3Object.id] using hkeys
  · intro id hid
    obtain ⟨fk, hfk, rfl⟩ := List.mem_map.mp hid
    simp [h.failed fk hfk]
  · intro id hid
    obtain ⟨dk, hdk, rfl⟩ := List.mem_map.mp hid
    simp [h.deleted dk hdk]

/-- The failed keys are the others, each with the service's code. -/
theorem Settles.failed_perm : (result.failed.map fun fk => (fk.key, fk.versionId, fk.errorCode)).Perm
    ((b.filter fun o => !decide (service o.id = none)).map fun o =>
      (o.key, o.versionId, (service o.id).getD "")) := by
  have hfilter := h.all.filter fun id => !decide (service id = none)
  rw [DeleteResult.ids, List.filter_append, List.filter_eq_nil_iff.mpr, List.filter_eq_self.mpr,
    List.nil_append, List.filter_map] at hfilter
  · have hkeys := hfilter.map fun id : ObjectId => (id.1, id.2, (service id).getD "")
    rw [List.map_map, List.map_map] at hkeys
    refine List.Perm.trans (List.Perm.of_eq (List.map_congr_left fun fk hfk => ?_)) hkeys
    show _ = (fk.key, fk.versionId, (service (fk.key, fk.versionId)).getD "")
    rw [h.failed fk hfk, Option.getD_some]
  · intro id hid
    obtain ⟨fk, hfk, rfl⟩ := List.mem_map.mp hid
    simp [h.failed fk hfk]
  · intro id hid
    obtain ⟨dk, hdk, rfl⟩ := List.mem_map.mp hid
    simp [h.deleted dk hdk]

end settles

/-- Among distinct objects, each is found under its id. -/
theorem objLookup_of_nodup (hnodup : (b.map S3Object.id).Nodup) (ho : o ∈ b) :
    objLookup b o.id = some o := by
  obtain ⟨o', ho'⟩ := objLookup_isSome ho
  obtain ⟨hmem, hid⟩ := objLookup_some ho'
  rw [ho', List.inj_on_of_nodup_map hnodup hmem ho hid]

theorem deletedSize_of_nodup (hnodup : (b.map S3Object.id).Nodup) (ho : o ∈ b) :
    deletedSize b ⟨o.key, o.versionId⟩ = asU64 o.size := by
  have hfound : objLookup b (o.key, o.versionId) = some o := objLookup_of_nodup hnodup ho
  rw [deletedSize, hfound]
  rfl

theorem completeEvent_of_nodup (hnodup : (b.map S3Object.id).Nodup) (ho : o ∈ b)
    (hdel : service o.id = none) :
    completeEvent config b ⟨o.key, o.versionId⟩ = settledEvent config service o := by
  have hfound : objLookup b (o.key, o.versionId) = some o := objLookup_of_nodup hnodup ho
  rw [completeEvent, deletedSize_of_nodup hnodup ho, hfound, settledEvent, if_pos hdel]
  rfl

/-- **A batch is reported object by object**, whatever backend it went to. -/
theorem Settles.alike {result : DeleteResult} (h : Settles service b result)
    (hnodup : (b.map S3Object.id).Nodup) :
    (batchEntries config b result).Alike (settledEntries config service b) := by
  have hdeleted := h.deleted_perm
  have hfailed := h.failed_perm
  refine ⟨?_, ?_, ?_⟩
  · -- the failures come first, from the backend
    have hstats : result.errorStats = (result.failed.map fun fk =>
        (fk.key, fk.versionId, fk.errorCode)).flatMap fun x => [.deleteError x.1] := by
      rw [DeleteResult.errorStats, List.flatMap_map, List.map_eq_flatMap]
    show (result.errorStats ++ result.deleted.flatMap (deletedStats b)).Perm _
    rw [hstats]
    refine ((hfailed.flatMap_right _).append (hdeleted.flatMap_right _)).trans ?_
    refine List.perm_append_comm.trans ?_
    rw [List.flatMap_map, List.flatMap_map]
    refine flatMap_filter_perm (fun x hx hdel => ?_) fun x hx hfail => ?_
    · rw [decide_eq_true_eq] at hdel
      rw [objectEntries_deleted hdel, deletedStats, deletedSize_of_nodup hnodup hx]
    · rw [decide_eq_false_iff_not] at hfail
      rw [objectEntries_failed hfail]
  · have hevents : (result.failed.map (failedEvent config)).map EventData.bare =
        (result.failed.map fun fk => (fk.key, fk.versionId, fk.errorCode)).flatMap fun x =>
          [{ EventData.new .deleteFailed with
              dryRun := config.dryRun, key := some x.1, versionId := x.2.1 }] := by
      rw [List.map_map, List.flatMap_map, List.map_eq_flatMap]
      rfl
    have hcompletes : (result.deleted.map (completeEvent config b)).map EventData.bare =
        result.deleted.flatMap fun dk => [completeEvent config b dk] := by
      rw [List.map_map, List.map_eq_flatMap]
      rfl
    have hbare : (settledEntries config service b).events.map EventData.bare =
        b.flatMap fun o => [settledEvent config service o] := by
      rw [settledEntries, List.map_flatMap]
      refine List.flatMap_congr fun x _ => ?_
      show [(settledEvent config service x).bare] = _
      rw [settledEvent]
      split_ifs <;> rfl
    show ((result.deleted.map (completeEvent config b) ++
      result.failed.map (failedEvent config)).map EventData.bare).Perm _
    rw [List.map_append, hevents, hcompletes, hbare]
    refine ((hdeleted.flatMap_right _).append (hfailed.flatMap_right _)).trans ?_
    rw [List.flatMap_map, List.flatMap_map]
    refine flatMap_filter_perm (fun x hx hdel => ?_) fun x hx hfail => ?_
    · rw [decide_eq_true_eq] at hdel
      rw [completeEvent_of_nodup hnodup hx hdel]
    · rw [decide_eq_false_iff_not] at hfail
      rw [settledEvent, if_neg hfail]
  · have hcounts : (result.failed.map fun _ => (none : Option Nat)) = (result.failed.map fun fk =>
        (fk.key, fk.versionId, fk.errorCode)).flatMap fun _ => [none] := by
      rw [List.flatMap_map, List.map_eq_flatMap]
    show (result.deleted.map (fun dk => some (deletedSize b dk)) ++
      result.failed.map fun _ => none).Perm _
    rw [hcounts, List.map_eq_flatMap]
    refine ((hdeleted.flatMap_right _).append (hfailed.flatMap_right _)).trans ?_
    rw [List.flatMap_map, List.flatMap_map]
    refine flatMap_filter_perm (fun x hx hdel => ?_) fun x hx hfail => ?_
    · rw [decide_eq_true_eq] at hdel
      rw [objectEntries_deleted hdel, deletedSize_of_nodup hnodup hx]
    · rw [decide_eq_false_iff_not] at hfail
      rw [objectEntries_failed hfail]

/-! ### What a trace reports -/

/-- The service as a worker meets it: a dry run asks nobody, and nothing fails. -/
def Service.inRun (service : Service) (config : Config) : Service :=
  if config.dryRun then fun _ => none else service

/-- What follows the start of a deletion: its result, as the service has it. -/
def Settling (config : Config) (service : Service) : (o : Op) → Resp o → Trace → Prop
  | .beginDelete (o :: rest), _, t => ∃ v u result, t = v ++ u ∧
      Run (deleterDelete config o rest) v (.ok result) ∧ Settles service (o :: rest) result
  | _, _, _ => True

theorem Settling.mono (o : Op) (r : Resp o) (t u : Trace) (h : Settling config service o r t) :
    Settling config service o r (t ++ u) := by
  cases o
  case beginDelete objects =>
    cases objects with
    | nil => trivial
    | cons o rest =>
      obtain ⟨v, w, result, rfl, hv, hsettles⟩ := h
      exact ⟨v, w ++ u, result, by simp, hv, hsettles⟩
  all_goals trivial

/-- Where no deletion begins there is nothing to settle. -/
theorem afterEach_settling (h : ∀ e ∈ t, e.1.beginsNone) : AfterEach (Settling config service) t := by
  refine afterEach_of_forall ?_
  rintro ⟨op, r⟩ he u
  have hbegins := h _ he
  cases op
  case beginDelete => cases hbegins
  all_goals trivial

theorem begun_of_beginsNone (h : ∀ e ∈ t, e.1.beginsNone) : t.flatMap begun = [] := by
  refine List.flatMap_eq_nil_iff.mpr ?_
  rintro ⟨op, r⟩ he
  have hbegins := h _ he
  cases op
  case beginDelete => cases hbegins
  all_goals rfl

/-- **The trace reports what the service does to these objects**, and nothing else. -/
structure Reports (config : Config) (service : Service) (t : Trace) (os : List S3Object) : Prop where
  entered : (entries t).Alike (settledEntries config (service.inRun config) os)
  warned : Warned t ↔ ∃ o ∈ os, service.inRun config o.id ≠ none
  passed : t.flatMap begun = if config.dryRun then [] else os
  settling : AfterEach (Settling config service) t

theorem Reports.quiet (hentries : entries t = {}) (hwarned : ¬ Warned t)
    (hbegins : ∀ e ∈ t, e.1.beginsNone) : Reports config service t [] := by
  refine ⟨?_, ?_, ?_, afterEach_settling hbegins⟩
  · rw [hentries]
    exact .refl _
  · exact ⟨fun h => absurd h hwarned, fun ⟨_, ho, _⟩ => absurd ho List.not_mem_nil⟩
  · rw [begun_of_beginsNone hbegins, ite_self]

theorem warned_append : Warned (t ++ u) ↔ Warned t ∨ Warned u := by
  constructor
  · rintro ⟨e, he, heq⟩
    exact (List.mem_append.mp he).imp (fun he => ⟨e, he, heq⟩) fun he => ⟨e, he, heq⟩
  · rintro (h | h)
    · exact h.subset (List.subset_append_left _ _)
    · exact h.subset (List.subset_append_right _ _)

theorem Reports.append {xs ys : List S3Object} (h : Reports config service t xs)
    (h' : Reports config service u ys) : Reports config service (t ++ u) (xs ++ ys) := by
  refine ⟨?_, ?_, ?_, h.settling.append Settling.mono h'.settling⟩
  · rw [entries_append, settledEntries_append]
    exact h.entered.append h'.entered
  · rw [warned_append, h.warned, h'.warned]
    simp only [List.mem_append, or_and_right, exists_or]
  · rw [List.flatMap_append, h.passed, h'.passed]
    split_ifs <;> rfl

/-- Events around those that report it. -/
theorem Reports.between (h : Reports config service v os) (ht : Reports config service t [])
    (hu : Reports config service u []) : Reports config service (t ++ (v ++ u)) os := by
  have hall := ht.append (h.append hu)
  rwa [List.nil_append, List.append_nil] at hall

/-! ### Flushes -/

theorem emitResult_unwarned {result : DeleteResult} {a : Unit}
    (h : (emitResult config b result).Run t a) : ¬ Warned t := by
  have hevents : ∀ event, (triggerEvent config.eventManager event).Straight (· ≠ .setWarning) :=
    fun event => (triggerEvent_straight _ _).mono fun op hop heq => by
      rw [heq] at hop
      cases hop
  have hstraight : (emitResult config b result).Straight (· ≠ .setWarning) := by
    refine Straight.bind (Straight.forM (fun dk => ?_) _) fun _ => Straight.forM (fun fk => ?_) _
    · exact ⟨nofun, fun _ => ⟨nofun, fun _ => ⟨nofun, fun _ => hevents _⟩⟩⟩
    · exact ⟨nofun, fun _ => hevents _⟩
  rintro ⟨e, he, heq⟩
  exact h.uses hstraight.uses e he heq

theorem forwardBatch_unwarned {r : Except Error Unit} (h : Run (forwardBatch stage b) t r) :
    ¬ Warned t := by
  rintro ⟨e, he, heq⟩
  rcases h.uses (forwardBatch_straight stage b).uses e he with ⟨o, hop⟩ | hop
  · rw [heq] at hop
    cases hop
  · rw [heq] at hop
    cases hop

/-- The warning is about failed keys. -/
theorem finishBatch_warned_iff {result : DeleteResult} {r : Except Error Unit}
    (h : Run (finishBatch stage b result) t r) : Warned t ↔ result.failed ≠ [] := by
  refine ⟨fun hwarned hnone => ?_, finishBatch_warned h⟩
  unfold finishBatch at h
  obtain ⟨u, _, v, rfl, hu, hv⟩ := run_lift_bind.mp h
  rw [if_pos (by rw [hnone]; rfl)] at hv
  rcases warned_append.mp hwarned with hwarned | hwarned
  · exact emitResult_unwarned hu hwarned
  · exact forwardBatch_unwarned hv hwarned

/-- Keys fail for the objects that the service does not delete. -/
theorem Settles.failed_ne_nil {result : DeleteResult} (h : Settles service b result) :
    result.failed ≠ [] ↔ ∃ o ∈ b, service o.id ≠ none := by
  rw [← List.length_pos_iff, ← List.length_map (f := fun fk => (fk.key, fk.versionId, fk.errorCode)),
    h.failed_perm.length_eq, List.length_map, List.length_filter_pos_iff]
  simp

/-- What follows a result, with the errors that the backend counted before. -/
theorem finishBatch_settled {result : DeleteResult} {r : Except Error Unit}
    (h : Run (finishBatch stage b result) u r)
    (hsettles : Settles (service.inRun stage.config) b result) (hnodup : (b.map S3Object.id).Nodup)
    (hbackend : entries t = { stats := result.errorStats }) (hunwarned : ¬ Warned t) :
    (entries (t ++ u)).Alike (settledEntries stage.config (service.inRun stage.config) b) ∧
      (Warned (t ++ u) ↔ ∃ o ∈ b, service.inRun stage.config o.id ≠ none) := by
  refine ⟨?_, ?_⟩
  · rw [entries_append, hbackend, entries_finishBatch h]
    exact hsettles.alike hnodup
  · rw [warned_append, finishBatch_warned_iff h, hsettles.failed_ne_nil]
    exact or_iff_right hunwarned

/-- **A flush that finds the token live reports its buffer.** -/
theorem Flush.reports (h : Flush stage b t (.ok b')) (hlive : ∀ e ∈ t, ¬ Event.sawCancelled e)
    (ht : ∀ e ∈ t, Serves service e) (hpermanent : PermanentErrors service)
    (hnodup : (b.map S3Object.id).Nodup) (hsingle : stage.config.batchSize ≤ 1 → b.length ≤ 1) :
    b' = [] ∧ Reports stage.config service t b := by
  have hbackend : ∀ {o rest w r}, Run (deleterDelete stage.config o rest) w r →
      ∀ e ∈ w, e.1.isBackend := fun hw => hw.uses (deleterDelete_straight ..).uses
  have hfinish : ∀ {result w y}, Run (finishBatch stage b result) w y → ∀ e ∈ w, e.1.beginsNone :=
    fun hw e he => Op.beginsNone_of_isFinish (hw.uses (finishBatch_straight ..).uses e he)
  generalize hr : (Except.ok b' : Except Error (List S3Object)) = r at h
  cases h with
  | empty h =>
    obtain rfl := Except.ok.inj hr
    subst h
    exact ⟨rfl, .quiet rfl (by simp [Warned]) (by simp)⟩
  | cancelled => exact absurd trivial (hlive ⟨.isCancelled, true⟩ (List.mem_singleton_self _))
  | @simulated w y _ dry finish =>
    rcases y with _ | _ <;> cases hr
    have hsettles : Settles (service.inRun stage.config) b (dryRunResult b) := by
      rw [Service.inRun, if_pos dry]
      refine ⟨?_, fun _ _ => rfl, fun fk hfk => absurd hfk List.not_mem_nil⟩
      simp only [dryRunResult, DeleteResult.ids, List.map_map, List.map_nil, List.append_nil]
      exact List.Perm.refl _
    have hlook : ¬ Warned [⟨.isCancelled, false⟩] := by simp [Warned]
    obtain ⟨hentered, hwarned⟩ := finishBatch_settled finish hsettles hnodup
      (t := [⟨.isCancelled, false⟩]) rfl hlook
    have hbegins : ∀ e ∈ (⟨.isCancelled, false⟩ :: w : Trace), e.1.beginsNone := fun e he =>
      (List.mem_cons.mp he).elim (fun heq => heq ▸ rfl) (hfinish finish e)
    refine ⟨rfl, hentered, hwarned, ?_, afterEach_settling hbegins⟩
    rw [begun_of_beginsNone hbegins, if_pos dry]
  | failed => cases hr
  | @deleted o rest v w result y h wet delete finish =>
    rcases y with _ | _ <;> cases hr
    subst h
    have hserves : ∀ e ∈ v, Serves service e := fun e he => ht e (by simp [he])
    obtain ⟨_, hresult, hsettles⟩ := deleterDelete_settles delete hserves hpermanent fun hsize =>
      List.length_eq_zero_iff.mp (Nat.le_zero.mp (Nat.le_of_succ_le_succ (hsingle hsize)))
    obtain rfl := Except.ok.inj hresult
    have hinRun : service.inRun stage.config = service := by
      rw [Service.inRun, wet]
      rfl
    have hunwarned : ¬ Warned (⟨.isCancelled, false⟩ :: ⟨.beginDelete (o :: rest), ()⟩ :: v) := by
      rintro ⟨e, he, heq⟩
      rcases List.mem_cons.mp he with rfl | he
      · cases heq
      rcases List.mem_cons.mp he with rfl | he
      · cases heq
      · have hop := hbackend delete e he
        rw [heq] at hop
        cases hop
    have hentries : entries (⟨.isCancelled, false⟩ :: ⟨.beginDelete (o :: rest), ()⟩ :: v) =
        { stats := result.errorStats } := by
      rw [entries_quiet rfl, entries_quiet rfl, entries_deleterDelete delete]
    have hsettles' : Settles (service.inRun stage.config) (o :: rest) result := by rwa [hinRun]
    obtain ⟨hentered, hwarned⟩ := finishBatch_settled finish hsettles' hnodup hentries hunwarned
    refine ⟨rfl, hentered, hwarned, ?_, ?_⟩
    · rw [wet]
      simp [begun, begun_of_delete delete, begun_of_finish finish]
    · have hrest : AfterEach (Settling stage.config service) (v ++ w) := by
        refine afterEach_settling fun e he => (List.mem_append.mp he).elim (fun he => ?_) (hfinish finish e)
        exact Op.beginsNone_of_isBackend (hbackend delete e he)
      have hsettling : Settling stage.config service (.beginDelete (o :: rest)) () (v ++ w) :=
        ⟨v, w, result, rfl, delete, hsettles⟩
      exact (hrest.cons hsettling).cons trivial

/-! ### A worker -/

theorem screen_unwarned {r : Except Error Bool} (h : Run (screen config o) t r) : ¬ Warned t := by
  have hscreens : Screens (· ≠ .setWarning) :=
    ⟨fun _ _ => nofun, fun _ _ => nofun, fun _ => nofun, nofun,
      ⟨fun _ _ => nofun, fun _ _ => nofun⟩⟩
  have hstraight : Straight (· ≠ .setWarning) (screen config o) :=
    (hscreens.applyHeadObjectFilters config o).fallible_bind fun b => by
      split_ifs
      · trivial
      · exact hscreens.applyTagFilters config o
  rintro ⟨e, he, heq⟩
  exact h.uses hstraight.uses e he heq

/-- Nothing is reported up to the ticket of an object that gets through. -/
theorem screen_reports {k : Nat} (h : Run (screen config o) t (.ok false)) (c : Nat) :
    Reports config service (⟨.select c, .received (some o)⟩ :: (t ++ [⟨.fetchAdd, k⟩])) [] := by
  have hpassed : entries t = {} := by
    cases run_screen_entries h with
    | passed none => exact none
  refine .quiet ?_ ?_ ?_
  · rw [entries_quiet rfl, entries_append, hpassed]
    rfl
  · rintro ⟨e, he, heq⟩
    simp only [List.mem_cons, List.mem_append, List.not_mem_nil, or_false] at he
    rcases he with rfl | he | rfl
    · cases heq
    · exact screen_unwarned h ⟨e, he, heq⟩
    · cases heq
  · intro e he
    simp only [List.mem_cons, List.mem_append, List.not_mem_nil, or_false] at he
    rcases he with rfl | he | rfl
    · rfl
    · exact Op.beginsNone_of_isScreening (h.uses (screen_straight ..).uses e he)
    · rfl

/-- A look at the token reports nothing. -/
theorem look_reports (c : Bool) : Reports config service [⟨.isCancelled, c⟩] [] :=
  .quiet rfl (by simp [Warned]) (by simp [Op.beginsNone])

theorem got_process {r : Except Error (List S3Object)} (h : Process stage b o t r) (c : Nat) :
    t.flatMap (got c) = [] := by
  have hscreen : ∀ {w s}, Run (screen stage.config o) w s → w.flatMap (got c) = [] := fun hw =>
    List.flatMap_eq_nil_iff.mpr fun e he => got_screening (hw.uses (screen_straight ..).uses e he)
  have hflush : ∀ {z : Trace}, (∀ e ∈ z, e.1.isFlush stage.sender) → z.flatMap (got c) = [] :=
    fun hz => List.flatMap_eq_nil_iff.mpr fun e he => got_flush (hz e he)
  cases h with
  | failed hw | skipped hw => exact hscreen hw
  | buffered hw => rw [List.flatMap_append, hscreen hw]; rfl
  | flushed hw _ flush | overFailed hw _ flush =>
    rw [List.flatMap_append, hscreen hw, List.flatMap_cons, hflush flush.isFlush]
    rfl
  | exceeded hw _ flush stop =>
    rw [List.flatMap_append, hscreen hw, List.flatMap_cons, List.flatMap_append,
      hflush flush.isFlush, hflush (stop.isFlush _)]
    rfl

/-- A turn that goes on takes one object off the channel and admits at most that.
If it does, what it reports and what it leaves in the buffer is what was there. -/
theorem WorkerTurn.reports (h : WorkerTurn stage b u (.inl b'))
    (hroom : b.length < effectiveBatchSize stage.config) (hlive : ∀ e ∈ u, ¬ Event.sawCancelled e)
    (hu : ∀ e ∈ u, Serves service e) (hpermanent : PermanentErrors service) :
    ∃ o new, u.flatMap (got stage.receiver) = [o] ∧ new.length ≤ 1 ∧
      (∀ s, (u.foldl (admitStep stage.config) s).2 = s.2 ++ new) ∧
      (new = [o] → ((b ++ [o]).map S3Object.id).Nodup →
        ∃ os, Reports stage.config service u os ∧ os ++ b' = b ++ [o]) := by
  cases h with
  | @received o p v r x process rest =>
    cases rest with
    | next =>
      have hgot : (⟨.select stage.receiver, .received (some o)⟩ ::
          (p ++ [⟨.isCancelled, false⟩]) : Trace).flatMap (got stage.receiver) = [o] := by
        rw [List.flatMap_cons, List.flatMap_append, got_process process]
        simp [got]
      have hreads : ∀ {new : List S3Object} {p : Trace},
          (∀ s, ((⟨.select stage.receiver, .received (some o)⟩ :: p).foldl
            (admitStep stage.config) s).2 = s.2 ++ new) →
          ∀ s, ((⟨.select stage.receiver, .received (some o)⟩ :: (p ++ [⟨.isCancelled, false⟩]) :
            Trace).foldl (admitStep stage.config) s).2 = s.2 ++ new := by
        intro new p hp s
        rw [← List.cons_append, List.foldl_append, ← hp]
        rfl
      generalize hr : (Except.ok b' : Except Error (List S3Object)) = r at process
      cases process with
      | failed | overFailed => cases hr
      | skipped hw =>
        refine ⟨o, [], hgot, Nat.zero_le _, hreads fun s => ?_, fun hnone => by cases hnone⟩
        rw [List.foldl_cons, foldl_admitStep_quiet (n := 0) fun e he =>
          .inl (hw.uses (screen_straight ..).uses e he)]
        simp [admitStep]
      | @buffered w k hw within _ =>
        cases hr
        refine ⟨o, [o], hgot, Nat.le_refl _, hreads fun s => ?_, fun _ _ => ⟨[], ?_, rfl⟩⟩
        · rw [foldl_received (n := 0) o (hw.uses (screen_straight ..).uses) (by simp), if_pos within]
        · exact (screen_reports hw stage.receiver).append (look_reports false)
      | @flushed w z k _ hw within flush =>
        subst hr
        refine ⟨o, [o], hgot, Nat.le_refl _, hreads fun s => ?_, fun _ hnodup => ?_⟩
        · rw [foldl_received o (hw.uses (screen_straight ..).uses) flush.isFlush, if_pos within]
        · obtain ⟨rfl, hflush⟩ := flush.reports (fun e he => hlive e (by simp [he]))
            (fun e he => hu e (by simp [he])) hpermanent hnodup fun hsize => by
              rw [effectiveBatchSize, if_pos hsize] at hroom
              simpa using hroom
          refine ⟨b ++ [o], ?_, List.append_nil _⟩
          have hall := hflush.between (screen_reports (k := k) hw stage.receiver) (look_reports false)
          simpa using hall
      | exceeded hw exceeded flush stop =>
        refine ⟨o, [], hgot, Nat.zero_le _, hreads fun s => ?_, fun hnone => by cases hnone⟩
        rw [foldl_received o (hw.uses (screen_straight ..).uses) (fun e he =>
          (List.mem_append.mp he).elim (flush.isFlush e) (stop.isFlush _ e)), exceeded]
        rfl

/-- At the head of the loop, if everything received was admitted, all of it but the
buffer has been reported. -/
structure ReportedAtHead (stage : Stage) (service : Service) (b : List S3Object) (t : Trace) :
    Prop where
  fewer : (admitted stage.config t).length ≤ (t.flatMap (got stage.receiver)).length
  reports : admitted stage.config t = t.flatMap (got stage.receiver) →
    ((admitted stage.config t).map S3Object.id).Nodup →
      ∃ os, Reports stage.config service t os ∧ os ++ b = admitted stage.config t

theorem ReportedAtHead.nil : ReportedAtHead stage service [] [] :=
  ⟨Nat.le_refl _, fun _ _ => ⟨[], .quiet rfl (by simp [Warned]) (by simp), rfl⟩⟩

theorem ReportedAtHead.next (h : ReportedAtHead stage service b t)
    (hturn : WorkerTurn stage b u (.inl b')) (hroom : b.length < effectiveBatchSize stage.config)
    (hlive : ∀ e ∈ u, ¬ Event.sawCancelled e) (hu : ∀ e ∈ u, Serves service e)
    (hpermanent : PermanentErrors service) : ReportedAtHead stage service b' (t ++ u) := by
  obtain ⟨o, new, hgot, hlen, hreads, hnew⟩ := hturn.reports hroom hlive hu hpermanent
  have hadmitted := admitted_append (t := t) hreads
  have hfewer := h.fewer
  refine ⟨?_, fun hall hnodup => ?_⟩
  · rw [hadmitted, List.flatMap_append, hgot, List.length_append, List.length_append]
    exact Nat.add_le_add hfewer hlen
  · -- nothing was left out before, and nothing is now
    rw [hadmitted, List.flatMap_append, hgot] at hall
    have hlength := congrArg List.length hall
    rw [List.length_append, List.length_append, List.length_singleton] at hlength
    obtain ⟨hbefore, rfl⟩ := List.append_inj hall (by omega)
    rw [hadmitted, List.map_append] at hnodup
    obtain ⟨os, hos, hsplit⟩ := h.reports hbefore hnodup.of_append_left
    rw [← hsplit, ← List.map_append, List.append_assoc, List.map_append] at hnodup
    obtain ⟨os', hos', hsplit'⟩ := hnew rfl hnodup.of_append_right
    refine ⟨os ++ os', hos.append hos', ?_⟩
    rw [hadmitted, ← hsplit, List.append_assoc, hsplit', List.append_assoc]

/-- **A worker that ended at the end of its channel has reported all it admitted**,
if it admitted all it received. -/
theorem run_worker_reports (h : Run (receiveAndDelete stage) t (.ok ()))
    (hlive : ∀ e ∈ t, ¬ Event.sawCancelled e)
    (hlost : ∀ t₁ t₂, t = t₁ ++ ⟨.isClosed stage.receiver, false⟩ :: t₂ →
      ∀ e ∈ t₁, ¬ Event.isEnd stage.receiver e)
    (ht : ∀ e ∈ t, Serves service e) (hpermanent : PermanentErrors service)
    (hall : admitted stage.config t = t.flatMap (got stage.receiver))
    (hnodup : ((admitted stage.config t).map S3Object.id).Nodup) :
    Reports stage.config service t (admitted stage.config t) := by
  obtain ⟨b, u, v, rfl, hr, hv⟩ := run_loop.mp h
  have hok : ∀ e ∈ u, ¬ Event.sawCancelled e ∧ Serves service e := fun e he =>
    ⟨hlive e (List.mem_append_left _ he), ht e (List.mem_append_left _ he)⟩
  have hturns := hr.restrict hok
  have hinv := hturns.invariant
    (I := fun b t => AtHead stage b t ∧ (∀ e ∈ t, ¬ Event.sawCancelled e) ∧
      ReportedAtHead stage service b t) ?_ ⟨.nil, by simp, .nil⟩
  · obtain ⟨hhead, -, hreported⟩ : AtHead stage b u ∧ _ ∧ ReportedAtHead stage service b u := by
      simpa using hinv
    generalize hx : (Sum.inr (Except.ok ()) : List S3Object ⊕ Except Error Unit) = x at hv
    cases run_workerTurn hv with
    | cancelled => exact absurd trivial (hlive ⟨.select stage.receiver, .cancelled⟩ (by simp))
    | lost =>
      refine absurd rfl (hlost (u ++ [⟨.select stage.receiver, .received none⟩]) [] (by simp)
        ⟨.select stage.receiver, .received none⟩ (by simp))
    | received process rest =>
      cases rest with
      | failed => cases hx
      | cancelled => exact absurd trivial (hlive ⟨.isCancelled, true⟩ (by simp))
      | next => cases hx
    | @drained z r flush =>
      rcases r with e | b'
      · cases hx
      -- the last flush takes what the loop head held
      have hadmitted := admitted_drained (t := u) flush
      have hgot : (⟨.select stage.receiver, .received none⟩ :: ⟨.isClosed stage.receiver, true⟩ :: z :
          Trace).flatMap (got stage.receiver) = [] := by
        rw [List.flatMap_cons, List.flatMap_cons,
          List.flatMap_eq_nil_iff.mpr fun e he => got_flush (flush.isFlush e he)]
        rfl
      rw [hadmitted, List.flatMap_append, hgot, List.append_nil] at hall
      rw [hadmitted] at hnodup ⊢
      obtain ⟨os, hos, hsplit⟩ := hreported.reports hall hnodup
      have hperm : Permanent u := fun t₁ t₂ he e hmem hsaw =>
        hlive e (by rw [he]; simp [hmem]) hsaw
      have hnodup' : (b.map S3Object.id).Nodup := by
        rw [← hsplit, List.map_append] at hnodup
        exact hnodup.of_append_right
      obtain ⟨-, hflush⟩ := flush.reports (fun e he => hlive e (by simp [he]))
        (fun e he => ht e (by simp [he])) hpermanent hnodup' fun hsize => by
          have hroom := hhead.room hperm
          rw [effectiveBatchSize, if_pos hsize] at hroom
          exact Nat.le_of_lt hroom
      have hend : Reports stage.config service [⟨.select stage.receiver, .received none⟩,
          ⟨.isClosed stage.receiver, true⟩] [] :=
        .quiet rfl (by simp [Warned]) (by simp [Op.beginsNone])
      rw [← hsplit]
      exact hos.append (hend.append hflush)
  · rintro b t u b' ⟨hhead, hlive, hreported⟩ ⟨hturn, hu⟩
    have hperm : Permanent t := fun t₁ t₂ he e hmem hsaw => hlive e (by rw [he]; simp [hmem]) hsaw
    refine ⟨hhead.next hturn, fun e he => ?_, ?_⟩
    · exact (List.mem_append.mp he).elim (hlive e) fun he => (hu e he).1
    · exact hreported.next (run_workerTurn hturn) (hhead.room hperm) (fun e he => (hu e he).1)
        (fun e he => (hu e he).2) hpermanent

/-! ### What is read off the reports -/

/-- The deletion an event reports as done, with the size. -/
def EventData.deletes (event : EventData) : List (String × Option String × Nat) :=
  if event.eventType = .deleteComplete then
    [(event.key.getD "", event.versionId, event.size.getD 0)]
  else []

/-- The deletions reported as done: key, version id and size. -/
def deletions (t : Trace) : List (String × Option String × Nat) :=
  (t.flatMap fired).flatMap EventData.deletes

theorem Entries.Alike.deletions_perm (h : (entries t).Alike (entries u)) :
    (deletions t).Perm (deletions u) := by
  have hbare : ∀ v : Trace, deletions v = ((v.flatMap fired).map EventData.bare).flatMap
      EventData.deletes := by
    intro v
    rw [List.flatMap_map]
    rfl
  rw [hbare t, hbare u]
  exact h.events.flatMap_right _

/-- A call of `Deleter::delete` returned this result. -/
inductive DeleterReturned (config : Config) : Trace → DeleteResult → Prop
  | mk {t v u : Trace} {o : S3Object} {rest : List S3Object} {result : DeleteResult}
      (delete : Run (deleterDelete config o rest) v (.ok result)) :
      DeleterReturned config (t ++ ⟨.beginDelete (o :: rest), ()⟩ :: (v ++ u)) result

/-- The keys reported as failed: key, version id and error code. -/
def failures (config : Config) (t : Trace) : Set (String × Option String × String) :=
  { x | ∃ result fk, DeleterReturned config t result ∧ fk ∈ result.failed ∧
    x = (fk.key, fk.versionId, fk.errorCode) }

theorem Settles.mem_failed {result : DeleteResult} (h : Settles service b result)
    {x : String × Option String × String} :
    x ∈ (result.failed.map fun fk => (fk.key, fk.versionId, fk.errorCode)) ↔
      ∃ o ∈ b, ∃ code, service o.id = some code ∧ x = (o.key, o.versionId, code) := by
  rw [h.failed_perm.mem_iff, List.mem_map]
  constructor
  · rintro ⟨o, ho, rfl⟩
    obtain ⟨hmem, hfails⟩ := List.mem_filter.mp ho
    obtain ⟨code, hcode⟩ := Option.ne_none_iff_exists'.mp (by simpa using hfails)
    refine ⟨o, hmem, code, hcode, ?_⟩
    rw [hcode, Option.getD_some]
  · rintro ⟨o, ho, code, hcode, rfl⟩
    refine ⟨o, List.mem_filter.mpr ⟨ho, by simp [hcode]⟩, ?_⟩
    rw [hcode, Option.getD_some]

/-- What failed is what the service fails, and why. -/
theorem Reports.mem_failures (h : Reports config service t os)
    {x : String × Option String × String} : x ∈ failures config t ↔
      ∃ o ∈ os, ∃ code, service.inRun config o.id = some code ∧ x = (o.key, o.versionId, code) := by
  by_cases hdry : config.dryRun = true
  · -- a dry run asks nobody
    have hbegun : t.flatMap begun = [] := by rw [h.passed, if_pos hdry]
    constructor
    · rintro ⟨result, fk, ⟨delete⟩, -, -⟩
      simp [begun] at hbegun
    · rintro ⟨o, -, code, hcode, -⟩
      rw [Service.inRun, if_pos hdry] at hcode
      cases hcode
  have hinRun : service.inRun config = service := by rw [Service.inRun, if_neg hdry]
  have hpassed : t.flatMap begun = os := by rw [h.passed, if_neg hdry]
  rw [hinRun]
  constructor
  · rintro ⟨result, fk, hreturned, hfk, rfl⟩
    obtain @⟨t, v, u, o, rest, result, delete⟩ := hreturned
    obtain ⟨v', u', result', hsplit, delete', hsettles⟩ := h.settling t _ _ _ rfl
    obtain ⟨rfl, hresult⟩ := Run.deterministic delete delete' (List.prefix_append v u)
      (hsplit ▸ List.prefix_append v' u')
    obtain rfl := Except.ok.inj hresult
    obtain ⟨o', ho', code, hcode, hx⟩ := hsettles.mem_failed.mp (List.mem_map_of_mem hfk)
    refine ⟨o', ?_, code, hcode, hx⟩
    rw [← hpassed, List.flatMap_append, List.flatMap_cons]
    exact List.mem_append_right _ (List.mem_append_left _ ho')
  · rintro ⟨o, ho, code, hcode, rfl⟩
    rw [← hpassed, List.mem_flatMap] at ho
    obtain ⟨⟨op, r⟩, he, ho⟩ := ho
    cases op
    case beginDelete objects =>
      obtain ⟨t₁, t₂, rfl⟩ := List.append_of_mem he
      have hsettling := h.settling t₁ _ _ t₂ rfl
      cases objects with
      | nil => cases ho
      | cons o₁ rest =>
        obtain ⟨v, u, result, rfl, delete, hsettles⟩ := hsettling
        obtain ⟨fk, hfk, hx⟩ := List.mem_map.mp (hsettles.mem_failed.mpr ⟨o, ho, code, hcode, rfl⟩)
        exact ⟨result, fk, ⟨delete⟩, hfk, hx.symm⟩
    all_goals cases ho

/-! ### Two workers -/

/-- Worker `n` has ended well, without seeing the token cancelled, having received
the objects `os` and admitted them all. -/
structure WorkedOff (config : Config) (w : PipelineWorld) (n : Nat) (os : List S3Object) : Prop where
  ended : w.outcome (.stage (.worker n)) = some (.done (.ok ()))
  live : ∀ e ∈ traceOf (.stage (.worker n)) w.log, ¬ Event.sawCancelled e
  received : (traceOf (.stage (.worker n)) w.log).flatMap (got (filterCount config)) = os
  admitted : admitted config (traceOf (.stage (.worker n)) w.log) = os

theorem WorkedOff.reports {n : Nat} (h : WorkedOff config w n os) (hrun : Running config outside w)
    (hserves : ∀ e, outside.admits e → Serves service e) (hpermanent : PermanentErrors service)
    (hnodup : (os.map S3Object.id).Nodup) :
    Reports config service (traceOf (.stage (.worker n)) w.log) os := by
  have hn : n < config.workerSize := StageId.worker_started.mp (hrun.started_of_outcome h.ended)
  have hadmitted : S3rm.admitted (workerStage config).config
      (traceOf (.stage (.worker n)) w.log) = os := h.admitted
  have hreports := run_worker_reports (hrun.run (worker_program hn) h.ended) h.live
    (fun t₁ t₂ ht e he => not_lost hrun ht he) (fun e he => hserves e (hrun.admits _ e he)) hpermanent
    (h.admitted.trans h.received.symm) (by rwa [hadmitted])
  rwa [hadmitted] at hreports

/-- **Single mode and batch mode agree.**  Let a service delete each object or fail
with a permanent error, and answer DeleteObject and DeleteObjects alike.  A worker
with batch size 1 and one with batch size `b`, in two runs that are otherwise
configured alike, that admit the same distinct objects and end well without seeing
the token cancelled, report the same deletions with their sizes, the same failures
with their codes, the same statistics, the same events but for their messages, and
both or neither warn.  (`--warn-as-error` could make a difference only by
cancelling the token.) -/
theorem modes_agree {outside' : Outside} {w' : PipelineWorld} {size n m : Nat}
    (h : Running { config with batchSize := 1 } outside w)
    (h' : Running { config with batchSize := size } outside' w')
    (hserves : ∀ e, outside.admits e → Serves service e)
    (hserves' : ∀ e, outside'.admits e → Serves service e) (hpermanent : PermanentErrors service)
    (hnodup : (os.map S3Object.id).Nodup)
    (hw : WorkedOff { config with batchSize := 1 } w n os)
    (hw' : WorkedOff { config with batchSize := size } w' m os) {t t' : Trace}
    (ht : t = traceOf (.stage (.worker n)) w.log) (ht' : t' = traceOf (.stage (.worker m)) w'.log) :
    (deletions t).Perm (deletions t') ∧
      failures { config with batchSize := 1 } t = failures { config with batchSize := size } t' ∧
      (t.flatMap noted).Perm (t'.flatMap noted) ∧
      ((t.flatMap fired).map EventData.bare).Perm ((t'.flatMap fired).map EventData.bare) ∧
      (Warned t ↔ Warned t') := by
  subst ht ht'
  have hsingle := hw.reports h hserves hpermanent hnodup
  have hbatch := hw'.reports h' hserves' hpermanent hnodup
  have halike := hsingle.entered.trans hbatch.entered.symm
  refine ⟨halike.deletions_perm, ?_, halike.stats, halike.events, ?_⟩
  · apply Set.ext
    intro x
    rw [hsingle.mem_failures, hbatch.mem_failures]
    rfl
  · rw [hsingle.warned, hbatch.warned]
    rfl

/-! ### Three objects, one of them locked -/

/-- A backend that answers as the service does. -/
def servingScript (service : Service) (objects : List S3Object) : Script where
  listing := objects.map .object ++ [.finished (.ok ())]
  deleteObject key versionId _ :=
    match service (key, versionId) with
    | none => .ok ()
    | some code => .error (.deleteObject (some code) "refused")
  deleteObjects identifiers := .ok
    { deleted := (identifiers.filter fun i => service (i.key, i.versionId) = none).map fun i =>
        ⟨some i.key, i.versionId⟩
      errors := (identifiers.filter fun i => !decide (service (i.key, i.versionId) = none)).map fun i =>
        ⟨some i.key, i.versionId, service (i.key, i.versionId), none⟩ }

theorem servingScript_serves {objects : List S3Object} {o : Op} {r : Resp o}
    (h : (servingScript service objects).respond config w o = some r) : Serves service ⟨o, r⟩ := by
  cases o
  case deleteObject key versionId ifMatch =>
    obtain rfl := Option.some.inj h
    show Serves service ⟨.deleteObject key versionId ifMatch, match service (key, versionId) with
      | none => .ok ()
      | some code => .error (.deleteObject (some code) "refused")⟩
    rcases hs : service (key, versionId) with - | code
    · exact hs
    · exact hs
  case deleteObjects identifiers =>
    obtain rfl := Option.some.inj h
    refine ⟨?_, fun d hd => ?_, fun err herr => ?_⟩
    · show List.Perm (List.map _ (List.map _ _) ++ List.map _ (List.map _ _)) _
      rw [List.map_map, List.map_map]
      exact (List.filter_append_perm _ identifiers).map _ |> fun hp => by rwa [List.map_append] at hp
    · obtain ⟨i, hi, rfl⟩ := List.mem_map.mp hd
      simpa using (List.mem_filter.mp hi).2
    · obtain ⟨i, hi, rfl⟩ := List.mem_map.mp herr
      obtain ⟨code, hcode⟩ := Option.ne_none_iff_exists'.mp (by simpa using (List.mem_filter.mp hi).2)
      show service (i.key, i.versionId) = some ((service (i.key, i.versionId)).getD "unknown")
      rw [hcode, Option.getD_some]
  all_goals trivial

def lockedService : Service := fun id => if id.1 = "b" then some "AccessDenied" else none

def lockedObjects : List S3Object :=
  [sampleObject "a" 1, sampleObject "b" 2, sampleObject "c" 3]

def lockedConfig : Config where
  workerSize := 1

def lockedOutside : Outside where
  admits := Serves lockedService
  mayCancel := False

/-- The run with this batch size. -/
def lockedRun (size : Nat) : PipelineWorld :=
  (servingScript lockedService lockedObjects).run { lockedConfig with batchSize := size }
    lockedOutside (roundRobin lockedConfig 80)

theorem lockedRun_running (size : Nat) :
    Running { lockedConfig with batchSize := size } lockedOutside (lockedRun size) :=
  Script.running (fun _ _ _ => servingScript_serves) _

theorem lockedRun_live {size n : Nat} (h : (lockedRun size).shared.cancelled = false) :
    ∀ e ∈ traceOf (.stage (.worker n)) (lockedRun size).log, ¬ Event.sawCancelled e := by
  intro e he hsaw
  have hcan := token_law (lockedRun_running size) (mem_traceOf.mp he) (.inl hsaw)
  rw [h] at hcan
  cases hcan

/-- `modes_agree` with batches of two. -/
theorem modes_agree_lockedRun :
    (deletions (traceOf (.stage (.worker 0)) (lockedRun 1).log)).Perm
        (deletions (traceOf (.stage (.worker 0)) (lockedRun 2).log)) ∧
      deletions (traceOf (.stage (.worker 0)) (lockedRun 1).log) =
        [("a", none, 1), ("c", none, 3)] := by
  have hpermanent : PermanentErrors lockedService := by
    intro id code hcode
    unfold lockedService at hcode
    split_ifs at hcode
    obtain rfl := Option.some.inj hcode
    decide
  have hsingle : WorkedOff { lockedConfig with batchSize := 1 } (lockedRun 1) 0 lockedObjects :=
    ⟨by decide +kernel, lockedRun_live (by decide +kernel), by decide +kernel, by decide +kernel⟩
  have hbatch : WorkedOff { lockedConfig with batchSize := 2 } (lockedRun 2) 0 lockedObjects :=
    ⟨by decide +kernel, lockedRun_live (by decide +kernel), by decide +kernel, by decide +kernel⟩
  obtain ⟨hdeletions, -⟩ := @modes_agree lockedConfig _ _ _ _ _ _ _ _ _ (lockedRun_running 1)
    (lockedRun_running 2) (fun _ => id) (fun _ => id) hpermanent (by decide) hsingle hbatch _ _ rfl rfl
  exact ⟨hdeletions, by decide +kernel⟩

end S3rm
