/-
S3rm/Deleter/Screening.lean

The worker's own filters: `workerSelects` says which objects get through the
content-type, metadata and tag filters, given what HeadObject and
GetObjectTagging answer, and `run_screen` that the two filter functions, one
after the other, decide exactly that: `false` lets the object through, `true`
rejects it and counts it as skipped, and anything else is an error.
-/
import S3rm.Deleter.Worker
import S3rm.FilterLaws

namespace S3rm

open Conc Conc.Prog

/-! ### Selection -/

/-- A regex filter lets a value through. -/
def regexPasses (regex : Option Regex) (value : Option String) (isInclude : Bool) : Bool :=
  match decideDeleteByRegex "" regex value "" isInclude with
  | .ok b => b
  | .error _ => false

/-- The content-type and metadata filters let an object through on this answer. -/
def headPasses (fc : FilterConfig) : Except Error HeadObjectOutput → Bool
  | .error _ => false
  | .ok output =>
    regexPasses fc.includeContentTypeRegex output.contentType true &&
    regexPasses fc.excludeContentTypeRegex output.contentType false &&
    regexPasses fc.includeMetadataRegex (formattedMetadata fc output) true &&
    regexPasses fc.excludeMetadataRegex (formattedMetadata fc output) false

/-- The content-type and metadata filters let the object through, as far as the
answers are known. -/
def headSelects (config : Config) (A : Answers) (o : S3Object) : Bool :=
  !needsHeadObject config.filterConfig || !o.isDeleteMarker &&
    ((A.head o.key o.versionId).map (headPasses config.filterConfig)).getD true

/-- The tag filters let an object through on this answer. -/
def tagPasses (fc : FilterConfig) : Except Error GetObjectTaggingOutput → Bool
  | .error _ => false
  | .ok output =>
    regexPasses fc.includeTagRegex (some (formatTags fc.encode output.tagSet)) true &&
    regexPasses fc.excludeTagRegex (some (formatTags fc.encode output.tagSet)) false

/-- The tag filters let the object through, as far as the answers are known. -/
def tagSelects (config : Config) (A : Answers) (o : S3Object) : Bool :=
  !needsTagging config.filterConfig || !o.isDeleteMarker &&
    ((A.tagging o.key o.versionId).map (tagPasses config.filterConfig)).getD true

/-- The worker's filters let the object through. -/
def workerSelects (config : Config) (A : Answers) (o : S3Object) : Bool :=
  headSelects config A o && tagSelects config A o

theorem decideDeleteByRegex_ok {key name : String} {regex : Option Regex} {value : Option String}
    {isInclude b : Bool} (h : decideDeleteByRegex key regex value name isInclude = .ok b) :
    regexPasses regex value isInclude = b := by
  unfold regexPasses
  rcases regex with - | regex
  · simpa [decideDeleteByRegex] using h
  rcases value with - | value
  · simpa [decideDeleteByRegex] using h
  rcases hm : regex.isMatch value with e | m
  · simp [decideDeleteByRegex, hm] at h
  · simpa [decideDeleteByRegex, hm] using h

/-! ### Runs -/

/-- A filter function decided `selects` about `o`: passed on, rejected (which
means something only if `selects` is `known`) and counted, or failed. -/
def Decides (o : S3Object) (selects : Bool) (known : Prop) (u : Trace) : Except Error Bool → Prop
  | .ok false => selects = true ∧ Counted [] u
  | .ok true => (known → selects = false) ∧ Counted [.deleteSkip o.key] u
  | .error _ => True

section

variable {config : Config} {o : S3Object} {A : Answers} {known : Prop} {u : Trace}
  {r : Except Error Bool}

theorem run_emitFilterSkip {name : String} {a : Unit}
    (h : (emitFilterSkip config o name).Run u a) : Counted [.deleteSkip o.key] u := by
  unfold emitFilterSkip at h
  obtain ⟨_, v, rfl, hv⟩ := run_perform_bind.mp h
  have hv := counted_triggerEventIfRegistered hv
  exact ⟨by simp [noted, hv.noted], by simp [cancels, hv.live]⟩

theorem run_skipByRegex {regex : Option Regex} {value : Option String} {name : String}
    {isInclude : Bool} (h : Run (skipByRegex config o regex value name isInclude) u r) :
    Decides o (regexPasses regex value isInclude) known u r := by
  unfold skipByRegex at h
  rcases run_ofResult_bind.mp h with ⟨e, -, -, rfl⟩ | ⟨b, hb, hrest⟩
  · trivial
  · have hp := decideDeleteByRegex_ok hb
    cases b with
    | true =>
      obtain ⟨rfl, rfl⟩ := hrest
      exact ⟨hp, .nil⟩
    | false =>
      obtain ⟨v, _, _, rfl, hv, rfl, rfl⟩ := run_lift_bind.mp hrest
      exact ⟨fun _ => hp, by simpa using run_emitFilterSkip hv⟩

theorem Decides.cons {p : Bool} {e : Event} (h : Decides o p known u r) (he : noted e = [])
    (he' : cancels e = []) : Decides o p known (e :: u) r := by
  rcases r with _ | (_ | _)
  · trivial
  · exact ⟨h.1, h.2.cons he he'⟩
  · exact ⟨h.1, h.2.cons he he'⟩

/-- One filter after another. -/
theorem Decides.andThen {p q : Bool} {x : Act Bool} {y : Act Bool}
    (hx : ∀ t r, Run x t r → (∀ e ∈ t, A.agrees e) → Decides o p known t r)
    (hy : ∀ t r, Run y t r → (∀ e ∈ t, A.agrees e) → Decides o q known t r)
    (h : Run (do if ← x then return true
                 y : Act Bool) u r) (hu : ∀ e ∈ u, A.agrees e) :
    Decides o (p && q) known u r := by
  rcases run_fallible_bind.mp h with ⟨e, -, rfl⟩ | ⟨v, b, w, rfl, hv, hw⟩
  · trivial
  · have hd := hx v _ hv fun e he => hu e (List.mem_append_left _ he)
    cases b with
    | true =>
      obtain ⟨rfl, rfl⟩ := hw
      exact ⟨fun hk => by simp [hd.1 hk], by simpa using hd.2⟩
    | false =>
      have hd' := hy w _ hw fun e he => hu e (List.mem_append_right _ he)
      rcases r with e | (_ | _)
      · trivial
      · exact ⟨by simp [hd.1, hd'.1], hd.2.append hd'.2⟩
      · exact ⟨fun hk => by simp [hd'.1 hk], hd.2.append hd'.2⟩

theorem run_handleApiError {e : Error} {operation : String}
    (h : Run (handleApiError e o.key operation) u r) : Decides o false known u r := by
  unfold handleApiError at h
  split_ifs at h
  · obtain ⟨_, _, rfl, rfl, rfl⟩ := run_ask_bind.mp h
    exact ⟨fun _ => rfl, rfl, rfl⟩
  · obtain ⟨_, _, rfl, rfl, rfl⟩ := run_ask_bind.mp h
    trivial

/-- What an answer decides, it decides as far as the answer is known. -/
theorem Decides.ofKnown {α : Type} {passes : α → Bool} {a : α} {answer : Option α} {known' : Prop}
    (h : Decides o (passes a) True u r) (ha : ∀ a', answer = some a' → a = a')
    (hk : known' → answer.isSome) : Decides o ((answer.map passes).getD true) known' u r := by
  rcases answer with - | a'
  · rcases r with _ | (_ | _)
    · trivial
    · exact ⟨rfl, h.2⟩
    · exact ⟨fun hk' => by simpa using hk hk', h.2⟩
  · obtain rfl := ha a' rfl
    rcases r with _ | (_ | _)
    · trivial
    · exact h
    · exact ⟨fun _ => h.1 trivial, h.2⟩

/-- **The content-type and metadata filters decide `headSelects`.** -/
theorem run_applyHeadObjectFilters (h : Run (applyHeadObjectFilters config o) u r)
    (hu : ∀ e ∈ u, A.agrees e) :
    Decides o (headSelects config A o) A.Known u r := by
  unfold applyHeadObjectFilters at h
  unfold headSelects
  dsimp only at h
  split_ifs at h with hneeds hmarker
  · obtain ⟨rfl, rfl⟩ := h
    exact ⟨by simp_all, .nil⟩
  · obtain ⟨v, _, _, rfl, hv, rfl, rfl⟩ := run_lift_bind.mp h
    exact ⟨by simp_all, by simpa using run_emitFilterSkip hv⟩
  · obtain ⟨v, a, w, rfl, hv, hw⟩ := run_attempt_bind.mp h
    obtain rfl := run_perform.mp hv
    have hd : Decides o (headPasses config.filterConfig a) True w r := by
      rcases a with e | output
      · exact run_handleApiError hw
      · have hskip : ∀ regex value name isInclude t r,
            Run (skipByRegex config o regex value name isInclude) t r →
              (∀ e ∈ t, A.agrees e) → Decides o (regexPasses regex value isInclude) True t r :=
          fun _ _ _ _ _ _ h _ => run_skipByRegex h
        have hd := Decides.andThen (hskip _ _ _ _)
          (fun _ _ h hu => Decides.andThen (hskip _ _ _ _)
            (fun _ _ h hu => Decides.andThen (hskip _ _ _ _) (hskip _ _ _ _) h hu) h hu) hw
          fun e he => hu e (List.mem_append_right _ he)
        simpa [headPasses, Bool.and_assoc] using hd
    simpa [hneeds, hmarker] using (hd.cons (e := ⟨.headObject o.key o.versionId, a⟩) rfl rfl).ofKnown
      (hu ⟨.headObject o.key o.versionId, a⟩ (by simp)) (·.head o.key o.versionId)

/-- **The tag filters decide `tagSelects`.** -/
theorem run_applyTagFilters (h : Run (applyTagFilters config o) u r)
    (hu : ∀ e ∈ u, A.agrees e) :
    Decides o (tagSelects config A o) A.Known u r := by
  unfold applyTagFilters at h
  unfold tagSelects
  dsimp only at h
  split_ifs at h with hneeds hmarker
  · obtain ⟨rfl, rfl⟩ := h
    exact ⟨by simp_all, .nil⟩
  · obtain ⟨v, _, _, rfl, hv, rfl, rfl⟩ := run_lift_bind.mp h
    exact ⟨by simp_all, by simpa using run_emitFilterSkip hv⟩
  · obtain ⟨v, a, w, rfl, hv, hw⟩ := run_attempt_bind.mp h
    obtain rfl := run_perform.mp hv
    have hd : Decides o (tagPasses config.filterConfig a) True w r := by
      rcases a with e | output
      · exact run_handleApiError hw
      · have hskip : ∀ regex value name isInclude t r,
            Run (skipByRegex config o regex value name isInclude) t r →
              (∀ e ∈ t, A.agrees e) → Decides o (regexPasses regex value isInclude) True t r :=
          fun _ _ _ _ _ _ h _ => run_skipByRegex h
        exact Decides.andThen (hskip _ _ _ _) (hskip _ _ _ _) hw
          fun e he => hu e (List.mem_append_right _ he)
    simpa [hneeds, hmarker] using
      (hd.cons (e := ⟨.getObjectTagging o.key o.versionId, a⟩) rfl rfl).ofKnown
        (hu ⟨.getObjectTagging o.key o.versionId, a⟩ (by simp)) (·.tagging o.key o.versionId)

end

/-! ### What screening may do -/

/-- The operations `φ` cover what the worker's filters do. -/
structure Screens (φ : Op → Prop) : Prop where
  headObject : ∀ key versionId, φ (.headObject key versionId)
  getObjectTagging : ∀ key versionId, φ (.getObjectTagging key versionId)
  sendStats : ∀ stats, φ (.sendStats stats)
  cancel : φ .cancel
  events : OrdinaryEvents φ

section screens

variable {φ : Op → Prop} (h : Screens φ) (config : Config) (o : S3Object)

include h

theorem Screens.emitFilterSkip (name : String) : (emitFilterSkip config o name).Straight φ :=
  ⟨h.sendStats _, fun _ => h.events.triggerEventIfRegistered _ rfl⟩

theorem Screens.skipByRegex (regex : Option Regex) (value : Option String) (name : String)
    (isInclude : Bool) : Straight φ (skipByRegex config o regex value name isInclude) := by
  refine Straight.fallible_bind (by simp) fun b => ?_
  split_ifs
  · exact (h.emitFilterSkip config o name).lift.fallible_bind fun _ => trivial
  · trivial

theorem Screens.handleApiError (e : Error) (key operation : String) :
    Straight φ (handleApiError e key operation) := by
  unfold S3rm.handleApiError
  split_ifs
  · exact ⟨h.sendStats _, fun _ => trivial⟩
  · exact ⟨h.cancel, fun _ => trivial⟩

theorem Screens.applyHeadObjectFilters : Straight φ (applyHeadObjectFilters config o) := by
  have hskip := h.skipByRegex config o
  have hthen : ∀ {x y : Act Bool}, Straight φ x → Straight φ y →
      Straight φ (do if ← x then return true
                     y : Act Bool) :=
    fun hx hy => hx.fallible_bind fun b => by split_ifs <;> [trivial; exact hy]
  unfold S3rm.applyHeadObjectFilters
  dsimp only
  split_ifs
  · trivial
  · exact (h.emitFilterSkip config o _).lift.fallible_bind fun _ => trivial
  · refine Straight.fallible_bind (Straight.attempt ⟨h.headObject _ _, fun _ => trivial⟩) fun r => ?_
    rcases r with e | output
    · exact h.handleApiError _ _ _
    · exact hthen (hskip ..) (hthen (hskip ..) (hthen (hskip ..) (hskip ..)))

theorem Screens.applyTagFilters : Straight φ (applyTagFilters config o) := by
  unfold S3rm.applyTagFilters
  dsimp only
  split_ifs
  · trivial
  · exact (h.emitFilterSkip config o _).lift.fallible_bind fun _ => trivial
  · refine Straight.fallible_bind (Straight.attempt ⟨h.getObjectTagging _ _, fun _ => trivial⟩)
      fun r => ?_
    rcases r with e | output
    · exact h.handleApiError _ _ _
    · refine (h.skipByRegex ..).fallible_bind fun b => ?_
      split_ifs
      · trivial
      · exact h.skipByRegex ..

end screens

theorem screens_isScreening : Screens fun op => op.isScreening where
  headObject _ _ := rfl
  getObjectTagging _ _ := rfl
  sendStats _ := rfl
  cancel := rfl
  events := ⟨fun _ _ => rfl, fun _ _ => rfl⟩

end S3rm
