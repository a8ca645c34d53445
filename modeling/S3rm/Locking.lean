/-
S3rm/Locking.lean

Optimistic locking.  Other clients write to the bucket while the pipeline runs:
they overwrite, delete and recreate keys between any two of its steps, and S3
applies a delete request that has been sent at any moment, or several times, or
never, as long as the condition on the ETag is met where it is applied.

`locked_removals`: with `if_match`, whatever the schedule, a removal hits an
object with the ETag that was listed.
-/
import S3rm.Targeting

namespace S3rm

open Conc Conc.Prog

variable {config : Config} {outside : Outside}

/-- The object at `key` with the ETag `eTag` was removed. -/
structure Removal where
  key : String
  eTag : String
  deriving DecidableEq, Repr

/-- The pipeline and the bucket it shares with other clients: the current ETag
of each key, and what the pipeline's requests have removed. -/
structure SharedBucket : Type 1 where
  world : PipelineWorld
  current : String → Option String
  removals : List Removal := []

/-- S3 may apply the request to an object with this ETag. -/
def Request.Met (q : Request) (eTag : String) : Prop := ∀ e, q.ifMatch = some e → eTag = e

namespace SharedBucket

/-- The bucket with `eTag` at `key` from now on. -/
def write (s : SharedBucket) (key : String) (eTag : Option String) : SharedBucket :=
  { s with current := Function.update s.current key eTag }

/-- The bucket after one of the pipeline's requests removed what is at `key`. -/
def remove (s : SharedBucket) (key eTag : String) : SharedBucket :=
  { s.write key none with removals := s.removals ++ [⟨key, eTag⟩] }

/-- What can happen next: a step of the pipeline, a write of another client, or
S3 applies one of the requests the pipeline has made. -/
inductive Step (config : Config) (outside : Outside) : SharedBucket → SharedBucket → Prop
  | pipeline {s : SharedBucket} {w : PipelineWorld}
      (step : (pipeline config outside).Step s.world w) :
      Step config outside s { s with world := w }
  | client {s : SharedBucket} (key : String) (eTag : Option String) :
      Step config outside s (s.write key eTag)
  | applied {s : SharedBucket} {i : TaskId} {o : Op} {q : Request} {eTag : String}
      (issued : s.world.Issued i o) (asks : q ∈ o.requests)
      (there : s.current q.id.1 = some eTag) (met : q.Met eTag) :
      Step config outside s (s.remove q.id.1 eTag)

/-- The states a run on this bucket can be in. -/
def Reachable (config : Config) (outside : Outside) (bucket : String → Option String) :
    SharedBucket → Prop :=
  Relation.ReflTransGen (Step config outside) { world := start config, current := bucket }

end SharedBucket

/-- The removal hit the object listed as `x`, as far as its ETag was listed. -/
def Removal.Hits (r : Removal) (x : S3Object) : Prop :=
  x.key = r.key ∧ ∀ e, x.eTag = some e → r.eTag = e

/-- With `if_match`, a request made for `x` is applied only to what was listed as `x`. -/
theorem hits_of_met {x : S3Object} {eTag : String} (hmatch : config.ifMatch = true)
    (met : Request.Met ⟨x.id, ifMatchETag config x⟩ eTag) : Removal.Hits ⟨x.id.1, eTag⟩ x := by
  refine ⟨rfl, fun e he => met e ?_⟩
  simpa [ifMatchETag, hmatch] using he

namespace SharedBucket

variable {bucket : String → Option String} {s s' : SharedBucket}

/-- What holds of a run with `if_match`, whatever the other clients do. -/
structure Locked (config : Config) (outside : Outside) (s : SharedBucket) : Prop where
  running : Running config outside s.world
  hits : ∀ r ∈ s.removals, ∃ x ∈ s.world.proj listed, r.Hits x

/-- **Every step keeps it.** -/
theorem Locked.step (h : Locked config outside s) (hmatch : config.ifMatch = true)
    (hecho : ∀ e, outside.admits e → EchoesErrors e) (hs : Step config outside s s') :
    Locked config outside s' := by
  cases hs with
  | pipeline step =>
    refine ⟨h.running.tail step, fun r hr => ?_⟩
    obtain ⟨x, hx, hhits⟩ := h.hits r hr
    exact ⟨x, step.proj_subset listed hx, hhits⟩
  | client key eTag => exact ⟨h.running, h.hits⟩
  | @applied i o q eTag issued asks there met =>
    refine ⟨h.running, fun r hr => ?_⟩
    rcases List.mem_append.mp hr with hr | hr
    · exact h.hits r hr
    · obtain rfl := List.mem_singleton.mp hr
      obtain ⟨x, hx, rfl⟩ := issued_targets h.running hecho issued asks
      exact ⟨x, (List.mem_filter.mp hx).1, hits_of_met hmatch met⟩

theorem Reachable.locked (h : Reachable config outside bucket s) (hmatch : config.ifMatch = true)
    (hecho : ∀ e, outside.admits e → EchoesErrors e) : Locked config outside s := by
  induction h with
  | refl => exact ⟨.refl, fun r hr => absurd hr List.not_mem_nil⟩
  | tail _ hs ih => exact ih.step hmatch hecho hs

end SharedBucket

/-- **Optimistic locking is safe.**  Whatever other clients do between any two
steps, a removal by a run with `if_match` hits a listed object with the ETag it
was listed with; when the listing has no key twice, that is the entry of its key. -/
theorem locked_removals {bucket : String → Option String} {s : SharedBucket}
    (h : SharedBucket.Reachable config outside bucket s) (hmatch : config.ifMatch = true)
    (hecho : ∀ e, outside.admits e → EchoesErrors e) {r : Removal} (hr : r ∈ s.removals) :
    (∃ x ∈ s.world.proj listed, r.Hits x) ∧
      (((s.world.proj listed).map S3Object.key).Nodup →
        ∀ x ∈ s.world.proj listed, x.key = r.key → ∀ e, x.eTag = some e → r.eTag = e) := by
  obtain ⟨x, hx, hkey, hhits⟩ := (h.locked hmatch hecho).hits r hr
  refine ⟨⟨x, hx, hkey, hhits⟩, ?_⟩
  intro hnodup y hy hy'
  obtain rfl : x = y := List.inj_on_of_nodup_map hnodup hx hy (hkey.trans hy'.symm)
  exact hhits

/-- What the pipeline does alone, it does beside other clients. -/
theorem SharedBucket.Reachable.pipeline {bucket : String → Option String} {w : PipelineWorld}
    (h : Running config outside w) :
    SharedBucket.Reachable config outside bucket { world := w, current := bucket } := by
  induction h with
  | refl => exact .refl
  | tail _ hs ih => exact ih.tail (.pipeline hs)

/-- A run with `if_match` whose bucket another client overwrites before S3
applies the request for "a", and leaves alone at "b". -/
def lockingConfig : Config where
  workerSize := 1
  batchSize := 2
  ifMatch := true

def lockingScript : Script where
  listing := [.object (sampleObject "a" 3), .object (sampleObject "b" 5), .finished (.ok ())]

theorem lockingScript_echoes {w : PipelineWorld} {o : Op} {r : Resp o}
    (h : lockingScript.respond lockingConfig w o = some r) : EchoesErrors ⟨o, r⟩ := by
  cases o
  case deleteObjects objects =>
    obtain rfl := Option.some.inj h
    intro err herr
    cases herr
  all_goals trivial

def lockingRun : PipelineWorld :=
  lockingScript.run lockingConfig lockingScript.echoing (roundRobin lockingConfig 40)

theorem lockingRun_running : Running lockingConfig lockingScript.echoing lockingRun := by
  refine Script.running (fun _ _ _ hr => ?_) _
  exact ⟨Script.agrees hr, lockingScript_echoes hr⟩

/-- The bucket before the run: every key has itself for an ETag, as listed. -/
def lockingBucket : SharedBucket where
  world := lockingRun
  current := fun key => some key

def lockingState : SharedBucket := (lockingBucket.write "a" (some "other")).remove "b" "b"

theorem lockingState_reachable :
    SharedBucket.Reachable lockingConfig lockingScript.echoing (fun key => some key)
      lockingState := by
  have hasked : (⟨("b", none), some "b"⟩ : Request) ∈
      (lockingBucket.write "a" (some "other")).world.proj asked := by decide +kernel
  obtain ⟨i, o, hissued, hreq⟩ := issued_of_asked_request hasked
  have hwritten : SharedBucket.Reachable lockingConfig lockingScript.echoing (fun key => some key)
      (lockingBucket.write "a" (some "other")) :=
    (SharedBucket.Reachable.pipeline lockingRun_running).tail (.client "a" (some "other"))
  have hthere : (lockingBucket.write "a" (some "other")).current "b" = some "b" := by
    simp [lockingBucket, SharedBucket.write]
  have hstep : SharedBucket.Step lockingConfig lockingScript.echoing
      (lockingBucket.write "a" (some "other")) lockingState :=
    .applied (q := ⟨("b", none), some "b"⟩) hissued hreq hthere fun e he => Option.some.inj he
  exact hwritten.tail hstep

/-- `locked_removals` on the removal of "b". -/
theorem locked_removals_lockingState :
    lockingState.removals = [⟨"b", "b"⟩] ∧
      ∃ x ∈ lockingState.world.proj listed, Removal.Hits ⟨"b", "b"⟩ x :=
  ⟨rfl, (locked_removals lockingState_reachable rfl (fun _ h => h.2)
    (List.mem_singleton_self _)).1⟩

end S3rm
