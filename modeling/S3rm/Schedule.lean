/-
S3rm/Schedule.lean

Running the pipeline on a schedule.  A `Script` fixes what the outside does (the
listing, the answers about objects, the answers to delete requests); everything
else an operation is answered with follows from the state of the run.  With the
order in which tasks take their steps, that determines a run (`Script.run`),
which is one of the runs the theorems speak about (`Script.running`).
-/
import S3rm.Books

namespace S3rm

open Conc

/-! ### Scripts -/

/-- DeleteObjects deletes what it is asked to. -/
def echoDeleted (objects : List ObjectIdentifier) : DeleteObjectsOutput where
  deleted := objects.map fun i => ⟨some i.key, i.versionId⟩
  errors := []

/-- What the outside does in a run. -/
structure Script where
  listing : List ListStep
  filter : S3Object → Except Error Bool := fun _ => .ok true
  head : String → Option String → Except Error HeadObjectOutput := fun _ _ => .ok ⟨none, none⟩
  tagging : String → Option String → Except Error GetObjectTaggingOutput := fun _ _ => .ok ⟨[]⟩
  deleteObject : String → Option String → Option String → Except Error Unit := fun _ _ _ => .ok ()
  deleteObjects : List ObjectIdentifier → Except Error DeleteObjectsOutput :=
    fun objects => .ok (echoDeleted objects)

/-- The answers of a script. -/
def Script.answers (script : Script) : Answers where
  filter o := some (script.filter o)
  head key versionId := some (script.head key versionId)
  tagging key versionId := some (script.tagging key versionId)

theorem Script.known (script : Script) : script.answers.Known :=
  ⟨fun _ => rfl, fun _ _ => rfl, fun _ _ => rfl⟩

def isNextListed : Event → Bool
  | ⟨.nextListed, _⟩ => true
  | _ => false

/-- The response to an operation, where it can have one now. -/
def Script.respond (script : Script) (config : Config) (w : PipelineWorld) :
    (o : Op) → Option (Resp o)
  | .recv chan =>
    match w.shared.queues chan with
    | object :: _ => some (some object)
    | [] => some none
  | .select chan =>
    match w.shared.queues chan with
    | object :: _ => some (.received (some object))
    | [] => some (if w.shared.cancelled then .cancelled else .received none)
  | .send chan _ => some (!isChannelClosed config w.outcome chan)
  | .isClosed chan => some (isChannelClosed config w.outcome chan)
  | .isCancelled => some w.shared.cancelled
  | .hasWarning => some w.shared.hasWarning
  | .hasError => some w.shared.hasError
  | .fetchAdd => some w.shared.deleteCounter
  | .errorMessages => some (w.shared.errors.map Error.display)
  | .pipelineStats => some w.shared.pipelineStats
  | .join task => w.outcome task
  | .nextListed => script.listing[(w.log.filter fun e => isNextListed e.2).length]?
  | .executeFilter object => some (script.filter object)
  | .headObject key versionId => some (script.head key versionId)
  | .getObjectTagging key versionId => some (script.tagging key versionId)
  | .deleteObject key versionId ifMatch => some (script.deleteObject key versionId ifMatch)
  | .deleteObjects objects => some (script.deleteObjects objects)
  | .cancel | .incrementDeleted _ | .incrementFailed | .setWarning | .setError | .setPanic
  | .pushError _ | .sendStats _ | .closeStatsSender | .updatePipelineStats _ | .onEvent _
  | .sleep _ | .beginDelete _ => some ()

/-- The outside of a script: its answers, and no cancellation. -/
def Script.outside (script : Script) : Outside where
  admits := script.answers.agrees
  mayCancel := False

variable {config : Config} {outside : Outside} {w : PipelineWorld}

theorem Script.agrees {script : Script} {o : Op} {r : Resp o}
    (h : script.respond config w o = some r) : script.answers.agrees ⟨o, r⟩ := by
  cases o
  case executeFilter | headObject | getObjectTagging =>
    intro a ha
    exact (Option.some.inj h).symm.trans (Option.some.inj ha)
  all_goals trivial

/-- The run of a schedule. -/
def Script.run (script : Script) (config : Config) (outside : Outside) (schedule : List TaskId) :
    PipelineWorld :=
  (pipeline config outside).exec (fun w _ o => script.respond config w o) (start config) schedule

/-- **What a schedule leads to is a state of a run.** -/
theorem Script.running {script : Script}
    (hr : ∀ w o r, script.respond config w o = some r → outside.admits ⟨o, r⟩)
    (schedule : List TaskId) : Running config outside (script.run config outside schedule) :=
  Machine.exec_sound (fun w _ o r => hr w o r) (start config) schedule

/-! ### Checking the end of a run -/

/-- The tasks of a run. -/
def tasksOf (config : Config) : List TaskId :=
  let stages := .lister :: ((List.range (filterCount config)).map StageId.filter ++
    (List.range config.workerSize).map StageId.worker)
  stages.map .stage ++ stages.map .supervisor ++ [.terminator, .main]

theorem mem_tasksOf {i : TaskId} (h : i.started config) : i ∈ tasksOf config := by
  have hstage : ∀ s : StageId, s.exists config → s ∈ StageId.lister ::
      ((List.range (filterCount config)).map StageId.filter ++
        (List.range config.workerSize).map StageId.worker) := by
    rintro (_ | n | n) hs <;> simp_all [StageId.exists]
  rcases i with s | s | _ | _
  · simpa [tasksOf] using hstage s (StageId.exists_of_started h)
  · have hs : s.exists config := by
      simp only [TaskId.started, TaskId.program] at h
      split_ifs at h with hs
      · exact hs
      · cases h
    simpa [tasksOf] using hstage s hs
  · simp [tasksOf]
  · simp [tasksOf]

/-- A task that has ended is one of the run. -/
theorem Running.started_of_outcome (h : Running config outside w) {i : TaskId}
    {o : Outcome (Except Error Unit)} (ho : w.outcome i = some o) : i.started config := by
  by_contra hi
  have hp : i.program config = none := by simpa [TaskId.started] using hi
  have hfollow := Machine.Reachable.taskOk (start_initial config) h i
  simp only [World.TaskOk, h.code_eq i, hp] at hfollow
  simp [World.outcome, hfollow.1] at ho

/-- No task of the run has ended otherwise than well, and the token is not cancelled. -/
def isClean (config : Config) (w : PipelineWorld) : Bool :=
  (tasksOf config).all (fun i =>
    match w.outcome i with
    | none | some (.done (.ok ())) => true
    | _ => false) && !w.shared.cancelled

theorem clean_of_isClean (h : Running config outside w) (hw : isClean config w) : Clean w := by
  simp only [isClean, Bool.and_eq_true, List.all_eq_true, Bool.not_eq_true'] at hw
  refine ⟨fun i o ho => ?_, hw.2⟩
  have := hw.1 i (mem_tasksOf (h.started_of_outcome ho))
  rw [ho] at this
  rcases o with (e | _) | _
  · cases this
  · rfl
  · cases this

/-- What became of no task of the run became of no task. -/
theorem Running.forall_outcome (h : Running config outside w) {o : Outcome (Except Error Unit)}
    (hw : ∀ i ∈ tasksOf config, w.outcome i ≠ some o) (i : TaskId) : w.outcome i ≠ some o :=
  fun ho => hw i (mem_tasksOf (h.started_of_outcome ho)) ho

/-- Every task of the run takes `k` steps in turn. -/
def roundRobin (config : Config) (k : Nat) : List TaskId :=
  (List.replicate k (tasksOf config)).flatten

/-- All tasks of the run have ended. -/
def Over (config : Config) (w : PipelineWorld) : Prop := ∀ i ∈ tasksOf config, (w.outcome i).isSome

instance (config : Config) (w : PipelineWorld) : Decidable (Over config w) :=
  inferInstanceAs (Decidable (∀ i ∈ tasksOf config, (w.outcome i).isSome = true))

end S3rm
