/-
S3rm/Selection.lean

Which objects a run deletes.  `Selects config answers o` says, filter by
filter, what it means that the active filters select `o`, over what HeadObject,
GetObjectTagging and the callback answer about it; `selected_iff` that the nine
stages and the worker's own filters decide just that.  `selection_correct` is
the result about runs: at any moment only selected objects have been passed to
`Deleter::delete`, and at the end of a clean run all of them.
-/
import S3rm.Schedule

namespace S3rm

open Conc Conc.Prog

variable {config : Config} {outside : Outside} {w : PipelineWorld} {A : Answers} {o : S3Object}

/-! ### The filters' meaning -/

/-- `t` is the time `d`, truncated to milliseconds, where chrono can hold it. -/
def TruncatedTo (d : DateTime) (t : Int) : Prop :=
  t = (d.seconds * 1000 + d.subsecondNanos / 1000000) * 1000000 ∧
    -8334601228800000 * 1000000 ≤ t ∧ t ≤ 8210266876799999 * 1000000

/-- An include filter: the value is there and matches. -/
def Included (regex : Option Regex) (value : Option String) : Prop :=
  ∀ r, regex = some r → ∃ v, value = some v ∧ r.isMatch v = .ok true

/-- An exclude filter: the value, if it is there, does not match. -/
def Excluded (regex : Option Regex) (value : Option String) : Prop :=
  ∀ r, regex = some r → ∀ v, value = some v → r.isMatch v = .ok false

/-- Every active filter selects the object. -/
structure Selects (config : Config) (A : Answers) (o : S3Object) : Prop where
  deleteMarkerOnly : config.filterConfig.deleteMarkerOnly → o.isDeleteMarker
  beforeTime : ∀ t, config.filterConfig.beforeTime = some t →
    ∃ m : Int, TruncatedTo o.lastModified m ∧ m < t
  afterTime : ∀ t, config.filterConfig.afterTime = some t →
    ∃ m : Int, TruncatedTo o.lastModified m ∧ t ≤ m
  smallerSize : ∀ n : Nat, config.filterConfig.smallerSize = some n →
    o.isDeleteMarker = false ∧ 0 ≤ o.size ∧ o.size < n
  largerSize : ∀ n : Nat, config.filterConfig.largerSize = some n →
    o.isDeleteMarker = false ∧ 0 ≤ o.size ∧ n ≤ o.size
  includeRegex : Included config.filterConfig.includeRegex (some o.key)
  excludeRegex : Excluded config.filterConfig.excludeRegex (some o.key)
  keepLatestOnly : config.filterConfig.keepLatestOnly → o.reportedLatest = some false
  callback : config.filterCallbackRegistered → A.filter o = some (.ok true)
  head : needsHeadObject config.filterConfig → o.isDeleteMarker = false ∧
    ∃ output, A.head o.key o.versionId = some (.ok output) ∧
      Included config.filterConfig.includeContentTypeRegex output.contentType ∧
      Excluded config.filterConfig.excludeContentTypeRegex output.contentType ∧
      Included config.filterConfig.includeMetadataRegex
        (formattedMetadata config.filterConfig output) ∧
      Excluded config.filterConfig.excludeMetadataRegex
        (formattedMetadata config.filterConfig output)
  tagging : needsTagging config.filterConfig → o.isDeleteMarker = false ∧
    ∃ output, A.tagging o.key o.versionId = some (.ok output) ∧
      Included config.filterConfig.includeTagRegex
        (some (formatTags config.filterConfig.encode output.tagSet)) ∧
      Excluded config.filterConfig.excludeTagRegex
        (some (formatTags config.filterConfig.encode output.tagSet))

/-! ### The stages decide it -/

theorem lastModifiedChrono_eq_some {t : Int} :
    lastModifiedChrono o = some t ↔ TruncatedTo o.lastModified t := by
  simp only [lastModifiedChrono, DateTime.toMillis, chronoOfMillis, TruncatedTo, inI64,
    Option.bind_eq_some_iff, Option.ite_none_right_eq_some, Option.some.injEq, Bool.and_eq_true,
    decide_eq_true_eq]
  constructor
  · rintro ⟨_, ⟨-, rfl⟩, hrange, rfl⟩
    exact ⟨rfl, by omega, by omega⟩
  · rintro ⟨rfl, hlo, hhi⟩
    exact ⟨_, ⟨by omega, rfl⟩, by omega, rfl⟩

theorem isBefore_iff {fc : FilterConfig} (h : fc.beforeTime.isSome) : isBefore o fc ↔
    ∀ t, fc.beforeTime = some t → ∃ m, TruncatedTo o.lastModified m ∧ m < t := by
  obtain ⟨t, ht⟩ := Option.isSome_iff_exists.mp h
  simp only [isBefore, ht, Option.some.injEq, forall_eq', ← lastModifiedChrono_eq_some]
  rcases lastModifiedChrono o with - | m <;> simp

theorem isAfterOrEqual_iff {fc : FilterConfig} (h : fc.afterTime.isSome) : isAfterOrEqual o fc ↔
    ∀ t, fc.afterTime = some t → ∃ m, TruncatedTo o.lastModified m ∧ t ≤ m := by
  obtain ⟨t, ht⟩ := Option.isSome_iff_exists.mp h
  simp only [isAfterOrEqual, ht, Option.some.injEq, forall_eq', ← lastModifiedChrono_eq_some]
  rcases lastModifiedChrono o with - | m <;> simp

theorem isSmaller_iff {fc : FilterConfig} (h : fc.smallerSize.isSome) : isSmaller o fc ↔
    ∀ n : Nat, fc.smallerSize = some n → o.isDeleteMarker = false ∧ 0 ≤ o.size ∧ o.size < n := by
  obtain ⟨n, hn⟩ := Option.isSome_iff_exists.mp h
  simp only [isSmaller, hn, Option.some.injEq, forall_eq']
  by_cases hneg : o.size < 0
  · simp [hneg, show ¬ 0 ≤ o.size by omega]
  · have := S3Object.asU64_size (not_lt.mp hneg)
    cases o.isDeleteMarker <;> simp [hneg, not_lt.mp hneg]
    omega

theorem isLargerOrEqual_iff {fc : FilterConfig} (h : fc.largerSize.isSome) : isLargerOrEqual o fc ↔
    ∀ n : Nat, fc.largerSize = some n → o.isDeleteMarker = false ∧ 0 ≤ o.size ∧ n ≤ o.size := by
  obtain ⟨n, hn⟩ := Option.isSome_iff_exists.mp h
  simp only [isLargerOrEqual, hn, Option.some.injEq, forall_eq']
  by_cases hneg : o.size < 0
  · simp [hneg, show ¬ 0 ≤ o.size by omega]
  · have := S3Object.asU64_size (not_lt.mp hneg)
    cases o.isDeleteMarker <;> simp [hneg, not_lt.mp hneg]
    omega

theorem isMatch_iff {fc : FilterConfig} (h : fc.includeRegex.isSome) :
    isMatch o fc ↔ Included fc.includeRegex (some o.key) := by
  obtain ⟨r, hr⟩ := Option.isSome_iff_exists.mp h
  rcases hm : r.isMatch o.key with e | b <;> simp [isMatch, Included, hr, hm]

theorem isNotMatch_iff {fc : FilterConfig} (h : fc.excludeRegex.isSome) :
    isNotMatch o fc ↔ Excluded fc.excludeRegex (some o.key) := by
  obtain ⟨r, hr⟩ := Option.isSome_iff_exists.mp h
  rcases hm : r.isMatch o.key with e | b <;> simp [isNotMatch, Excluded, hr, hm]

theorem isNotLatest_iff {fc : FilterConfig} : isNotLatest o fc ↔ o.reportedLatest = some false := by
  rw [← S3Object.isLatest_eq_false, isNotLatest]
  cases o.isLatest <;> simp

theorem keep_userDefined_iff (hK : A.Known) (h : config.filterCallbackRegistered) :
    FilterKind.userDefined.keep config A o ↔ A.filter o = some (.ok true) := by
  obtain ⟨a, ha⟩ := Option.isSome_iff_exists.mp (hK.filter o)
  rcases a with e | b <;> simp [FilterKind.keep, h, ha]

/-- All entries that are switched on satisfy `p`. -/
theorem all_filterMap_iff {α : Type} {p : α → Bool} {entries : List (Bool × α)} :
    (entries.filterMap fun e => if e.1 then some e.2 else none).all p ↔
      ∀ e ∈ entries, e.1 → p e.2 := by
  simp

/-- The whole chain, filter by filter. -/
theorem chainKeeps_iff : chainKeeps config A (filterCount config) o ↔
    (config.filterConfig.deleteMarkerOnly → o.isDeleteMarker) ∧
    (config.filterConfig.beforeTime.isSome → isBefore o config.filterConfig) ∧
    (config.filterConfig.afterTime.isSome → isAfterOrEqual o config.filterConfig) ∧
    (config.filterConfig.smallerSize.isSome → isSmaller o config.filterConfig) ∧
    (config.filterConfig.largerSize.isSome → isLargerOrEqual o config.filterConfig) ∧
    (config.filterConfig.includeRegex.isSome → isMatch o config.filterConfig) ∧
    (config.filterConfig.excludeRegex.isSome → isNotMatch o config.filterConfig) ∧
    (config.filterConfig.keepLatestOnly → isNotLatest o config.filterConfig) ∧
    (config.filterCallbackRegistered → FilterKind.userDefined.keep config A o) := by
  rw [chainKeeps, filterCount, List.take_length, filterObjects, all_filterMap_iff]
  simp only [List.forall_mem_cons, List.not_mem_nil, false_implies, implies_true, and_true]
  rfl

theorem regexPasses_include {regex : Option Regex} {value : Option String} :
    regexPasses regex value true ↔ Included regex value := by
  rcases regex with - | r
  · simp [regexPasses, decideDeleteByRegex, Included]
  · rcases value with - | v
    · simp [regexPasses, decideDeleteByRegex, Included]
    · rcases hm : r.isMatch v with e | b <;> simp [regexPasses, decideDeleteByRegex, Included, hm]

theorem regexPasses_exclude {regex : Option Regex} {value : Option String} :
    regexPasses regex value false ↔ Excluded regex value := by
  rcases regex with - | r
  · simp [regexPasses, decideDeleteByRegex, Excluded]
  · rcases value with - | v
    · simp [regexPasses, decideDeleteByRegex, Excluded]
    · rcases hm : r.isMatch v with e | b <;> simp [regexPasses, decideDeleteByRegex, Excluded, hm]

theorem headSelects_iff (hK : A.Known) : headSelects config A o ↔
    (needsHeadObject config.filterConfig → o.isDeleteMarker = false ∧
      ∃ output, A.head o.key o.versionId = some (.ok output) ∧
        Included config.filterConfig.includeContentTypeRegex output.contentType ∧
        Excluded config.filterConfig.excludeContentTypeRegex output.contentType ∧
        Included config.filterConfig.includeMetadataRegex
          (formattedMetadata config.filterConfig output) ∧
        Excluded config.filterConfig.excludeMetadataRegex
          (formattedMetadata config.filterConfig output)) := by
  obtain ⟨a, ha⟩ := Option.isSome_iff_exists.mp (hK.head o.key o.versionId)
  cases hneeds : needsHeadObject config.filterConfig
  · simp [headSelects, hneeds]
  · rcases a with e | output
    · simp [headSelects, hneeds, ha, headPasses]
    · simp [headSelects, hneeds, ha, headPasses, regexPasses_include, regexPasses_exclude, and_assoc]

theorem tagSelects_iff (hK : A.Known) : tagSelects config A o ↔
    (needsTagging config.filterConfig → o.isDeleteMarker = false ∧
      ∃ output, A.tagging o.key o.versionId = some (.ok output) ∧
        Included config.filterConfig.includeTagRegex
          (some (formatTags config.filterConfig.encode output.tagSet)) ∧
        Excluded config.filterConfig.excludeTagRegex
          (some (formatTags config.filterConfig.encode output.tagSet))) := by
  obtain ⟨a, ha⟩ := Option.isSome_iff_exists.mp (hK.tagging o.key o.versionId)
  cases hneeds : needsTagging config.filterConfig
  · simp [tagSelects, hneeds]
  · rcases a with e | output
    · simp [tagSelects, hneeds, ha, tagPasses]
    · simp [tagSelects, hneeds, ha, tagPasses, regexPasses_include, regexPasses_exclude]

/-- The stages and the worker let the object through. -/
def passes (config : Config) (A : Answers) (o : S3Object) : Bool :=
  chainKeeps config A (filterCount config) o && workerSelects config A o

/-- **The filters decide their meaning.** -/
theorem selects_iff (hK : A.Known) : Selects config A o ↔ passes config A o := by
  rw [passes, workerSelects, Bool.and_eq_true, Bool.and_eq_true, chainKeeps_iff,
    headSelects_iff hK, tagSelects_iff hK]
  constructor
  · intro h
    refine ⟨⟨h.deleteMarkerOnly, fun hs => (isBefore_iff hs).mpr h.beforeTime,
      fun hs => (isAfterOrEqual_iff hs).mpr h.afterTime, fun hs => (isSmaller_iff hs).mpr h.smallerSize,
      fun hs => (isLargerOrEqual_iff hs).mpr h.largerSize, fun hs => (isMatch_iff hs).mpr h.includeRegex,
      fun hs => (isNotMatch_iff hs).mpr h.excludeRegex,
      fun hs => isNotLatest_iff.mpr (h.keepLatestOnly hs),
      fun hs => (keep_userDefined_iff hK hs).mpr (h.callback hs)⟩, h.head, h.tagging⟩
  · rintro ⟨⟨hm, hb, ha, hs, hl, hi, he, hk, hc⟩, hhead, htag⟩
    refine ⟨hm, fun t ht => ?_, fun t ht => ?_, fun n hn => ?_, fun n hn => ?_, fun r hr => ?_,
      fun r hr => ?_, fun h => isNotLatest_iff.mp (hk h),
      fun h => (keep_userDefined_iff hK h).mp (hc h), hhead, htag⟩
    · have hsome : config.filterConfig.beforeTime.isSome := by simp [ht]
      exact (isBefore_iff hsome).mp (hb hsome) t ht
    · have hsome : config.filterConfig.afterTime.isSome := by simp [ht]
      exact (isAfterOrEqual_iff hsome).mp (ha hsome) t ht
    · have hsome : config.filterConfig.smallerSize.isSome := by simp [hn]
      exact (isSmaller_iff hsome).mp (hs hsome) n hn
    · have hsome : config.filterConfig.largerSize.isSome := by simp [hn]
      exact (isLargerOrEqual_iff hsome).mp (hl hsome) n hn
    · have hsome : config.filterConfig.includeRegex.isSome := by simp [hr]
      exact (isMatch_iff hsome).mp (hi hsome) r hr
    · have hsome : config.filterConfig.excludeRegex.isSome := by simp [hr]
      exact (isNotMatch_iff hsome).mp (he hsome) r hr

/-! ### Runs -/

/-- **Selection is correct end to end.**  At any moment of any run the objects
passed to `Deleter::delete` are selected objects, none more often than listed;
when a clean run is over, they are all the selected objects. -/
theorem selection_correct [DecidablePred (Selects config A)] (h : Running config outside w)
    (hK : A.Known) (hA : ∀ e, outside.admits e → A.agrees e)
    (hsize : 0 < config.workerSize) (hdry : config.dryRun = false) :
    (w.proj begun : Multiset S3Object) ≤ Multiset.filter (Selects config A) (w.proj listed) ∧
      (Clean w → Finished w →
        (w.proj begun : Multiset S3Object) =
          Multiset.filter (Selects config A) (w.proj listed)) := by
  have hsel : ∀ s : Multiset S3Object, s.filter (Selects config A) =
      (s.filter (chainKeeps config A (filterCount config) ·)).filter
        (workerSelects config A ·) := by
    intro s
    rw [Multiset.filter_filter]
    refine Multiset.filter_congr fun o _ => ?_
    rw [selects_iff hK, passes, Bool.and_eq_true, and_comm]
  have hchain : (w.proj listed : Multiset S3Object).filter
      (chainKeeps config A (filterCount config) ·) =
        ((w.proj listed).filter (chainKeeps config A (filterCount config)) : List S3Object) := by
    simp
  rw [hsel, hchain]
  refine ⟨?_, fun hclean hfin => ?_⟩
  · obtain ⟨adm, hbooks⟩ := running_books h hA
    -- begun ≤ admitted within the limit ≤ admitted ≤ received ≤ sent ≤ listed
    refine hbooks.passed.trans ((Multiset.map_le_map (Multiset.filter_le _ _)).trans
      (hbooks.admitted.trans (Multiset.filter_le_filter _ ?_)))
    refine Multiset.coe_le.mpr (List.Sublist.subperm ?_)
    refine List.Sublist.trans ?_ (stream_sound h hA le_rfl)
    rw [channel_law h]
    exact List.sublist_append_left _ _
  · have hended := ended_of_finished h hsize hclean hfin
    rw [books_closed h hK hA hclean hended hdry, got_of_ended h hA hsize hclean hended le_rfl,
      stream_complete h hK hA hsize hclean hended le_rfl]

/-- A run over three objects with a size filter and a content-type filter. -/
def selectionConfig : Config where
  workerSize := 2
  batchSize := 2
  filterConfig := { largerSize := some 4, includeContentTypeRegex := some ⟨fun s => .ok (s == "text")⟩ }

def selectionScript : Script where
  listing := [.object (sampleObject "a" 3), .object (sampleObject "b" 5),
    .object (sampleObject "c" 6), .finished (.ok ())]
  head key _ := if key == "c" then .error (.headObject true "") else .ok ⟨some "text", none⟩

def selectionRun : PipelineWorld :=
  selectionScript.run selectionConfig selectionScript.outside (roundRobin selectionConfig 40)

theorem selectionRun_running : Running selectionConfig selectionScript.outside selectionRun :=
  Script.running (fun _ _ _ => Script.agrees) _

instance (script : Script) (config : Config) : DecidablePred (Selects config script.answers) :=
  fun _ => decidable_of_iff _ (selects_iff script.known).symm

/-- `selection_correct` on a run that is clean and over. -/
theorem selection_correct_selectionRun :
    (selectionRun.proj begun : Multiset S3Object) =
      Multiset.filter (Selects selectionConfig selectionScript.answers) (selectionRun.proj listed) ∧
    selectionRun.proj begun = [sampleObject "b" 5] :=
  ⟨(selection_correct selectionRun_running selectionScript.known (fun _ h => h) (by decide) rfl).2
    (clean_of_isClean selectionRun_running (by decide +kernel)) (by decide +kernel), by decide +kernel⟩

end S3rm
