/-
S3rm/Targeting.lean

Which versions a run deletes when it deletes all versions.  Every delete request
names a listed version by its key and version id (`version_targeting`), and a
version the active filters may not touch is never named: with
`keep_latest_only` the current one of each key, with `delete_marker_only`
everything that is not a delete marker.
-/
import S3rm.Requests
import S3rm.Selection

namespace S3rm

open Conc Conc.Prog

variable {config : Config} {outside : Outside} {w : PipelineWorld}

/-- With `delete_all_versions` the listing is of versions and delete markers,
each with its version id. -/
def ListsVersions (config : Config) (w : PipelineWorld) : Prop :=
  config.deleteAllVersions = true → ∀ x ∈ w.proj listed, x.versionId.isSome = true

instance (config : Config) (w : PipelineWorld) : Decidable (ListsVersions config w) :=
  inferInstanceAs (Decidable (config.deleteAllVersions = true → _))

/-- The object may go, as far as its place among the versions is concerned. -/
structure Expendable (config : Config) (x : S3Object) : Prop where
  notLatest : config.filterConfig.keepLatestOnly = true → x.reportedLatest = some false
  marker : config.filterConfig.deleteMarkerOnly = true → x.isDeleteMarker = true

/-- What the filter stages let through is expendable, whatever the callback says. -/
theorem expendable_of_chainKeeps {A : Answers} {x : S3Object}
    (h : chainKeeps config A (filterCount config) x = true) : Expendable config x := by
  obtain ⟨hmarker, -, -, -, -, -, -, hlatest, -⟩ := chainKeeps_iff.mp h
  exact ⟨fun hk => isNotLatest_iff.mp (hlatest hk), hmarker⟩

/-- **Version targeting.**  At any moment of any run that deletes all versions,
a delete request that has been sent, or is about to be, names a listed version
by key and version id, and an expendable one; when the listing names no version
twice, every listed entry it names is expendable. -/
theorem version_targeting (h : Running config outside w)
    (hecho : ∀ e, outside.admits e → EchoesErrors e) (hall : config.deleteAllVersions = true)
    (hlist : ListsVersions config w) {i : TaskId} {o : Op} (hi : w.Issued i o) {q : Request}
    (hq : q ∈ o.requests) :
    q.id.2.isSome = true ∧ (∃ x ∈ w.proj listed, q.id = x.id ∧ Expendable config x) ∧
      (((w.proj listed).map S3Object.id).Nodup →
        ∀ x ∈ w.proj listed, q.id = x.id → Expendable config x) := by
  obtain ⟨x, hx, rfl⟩ := issued_targets h hecho hi hq
  obtain ⟨hmem, hkept⟩ := List.mem_filter.mp hx
  have hexpendable := expendable_of_chainKeeps hkept
  refine ⟨hlist hall x hmem, ⟨x, hmem, rfl, hexpendable⟩, ?_⟩
  intro hnodup y hy hid
  obtain rfl : x = y := List.inj_on_of_nodup_map hnodup hmem hy hid
  exact hexpendable

/-- A run that deletes the old versions of a key, one of them after a retry. -/
def versionsConfig : Config where
  workerSize := 1
  batchSize := 2
  deleteAllVersions := true
  filterConfig := { keepLatestOnly := true }
  forceRetryConfig := { forceRetryCount := 1 }

def sampleVersion (versionId : String) (isLatest : Bool) : S3Object :=
  .versioning { key := "a", versionId := some versionId, size := ⟨1, rfl⟩, lastModified := ⟨0, 0⟩,
                eTag := none, isLatest := some isLatest }

def versionsScript : Script where
  listing := [.object (sampleVersion "3" true), .object (sampleVersion "2" false),
    .object (.deleteMarker ⟨"a", some "1", ⟨0, 0⟩, some false⟩), .finished (.ok ())]
  deleteObjects objects := .ok
    { deleted := objects.tail.map fun i => ⟨some i.key, i.versionId⟩
      errors := objects.head?.toList.map fun i =>
        ⟨some i.key, i.versionId, some "SlowDown", none⟩ }

/-- The outside of a script, kept to its promises about errors. -/
def Script.echoing (script : Script) : Outside where
  admits e := script.answers.agrees e ∧ EchoesErrors e
  mayCancel := False

theorem versionsScript_echoes {o : Op} {r : Resp o}
    (h : versionsScript.respond versionsConfig w o = some r) : EchoesErrors ⟨o, r⟩ := by
  cases o
  case deleteObjects objects =>
    obtain rfl := Option.some.inj h
    intro err herr
    obtain ⟨i, hi, rfl⟩ := List.mem_map.mp herr
    exact ⟨i, List.mem_of_mem_head? (Option.mem_toList.mp hi), rfl, rfl⟩
  all_goals trivial

def versionsRun : PipelineWorld :=
  versionsScript.run versionsConfig versionsScript.echoing (roundRobin versionsConfig 40)

theorem versionsRun_running : Running versionsConfig versionsScript.echoing versionsRun := by
  refine Script.running (fun _ _ _ hr => ?_) _
  exact ⟨Script.agrees hr, versionsScript_echoes hr⟩

/-- `version_targeting` on the requests for the old versions, one of them sent again. -/
theorem version_targeting_versionsRun :
    (versionsRun.proj asked).map (fun q => q.id.2) = [some "2", some "1", some "2"] ∧
      ∀ q ∈ versionsRun.proj asked, q.id.2.isSome = true ∧
        ∃ x ∈ versionsRun.proj listed, q.id = x.id ∧ Expendable versionsConfig x := by
  refine ⟨by decide +kernel, ?_⟩
  intro q hq
  obtain ⟨i, o, hissued, hreq⟩ := issued_of_asked_request hq
  obtain ⟨hsome, hlisted, -⟩ := version_targeting versionsRun_running (fun _ h => h.2) rfl
    (by decide +kernel) hissued hreq
  exact ⟨hsome, hlisted⟩

end S3rm
