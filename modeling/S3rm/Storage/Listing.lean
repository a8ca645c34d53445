/-
S3rm/Storage/Listing.lean

Listing a bucket (`list_dispatch`, `list_sequential`, `list_with_parallel`,
`fetch_list_page` and `send_listed_objects` in src/storage/s3/mod.rs).

A listing is a task program.  The parallel listing of one prefix is one task;
it starts a task for each sub-prefix of a page, and waits for them before its
next page.  Tasks are named by their place in this tree, `[]` being the call
itself and `i ++ [n]` the n-th task that `i` started.

A task that its parent no longer waits for is aborted: it ends at its next
`await`, which here answers `none`.  However a task ends, its permit goes back
to the semaphore and the tasks it still waited for are aborted; both are the
drops of `current_permit` and `join_set`.
-/
import S3rm.Config
import S3rm.Conc.Fallible
import S3rm.Conc.Machine
import S3rm.Text.Slice

namespace S3rm

open Conc Conc.Prog

/-! ### Pages -/

inductive ListingMode where
  | objects
  | versions
  deriving DecidableEq, Repr

/-- `ListingMode::label`. -/
def ListingMode.label : ListingMode → String
  | objects => "object"
  | versions => "object version"

structure ListObjectsV2Output where
  contents : List Object := []
  commonPrefixes : List (Option String) := []
  isTruncated : Option Bool := none
  nextContinuationToken : Option String := none
  deriving DecidableEq, Repr

structure ListObjectVersionsOutput where
  versions : List ObjectVersion := []
  deleteMarkers : List DeleteMarkerEntry := []
  commonPrefixes : List (Option String) := []
  isTruncated : Option Bool := none
  nextKeyMarker : Option String := none
  nextVersionIdMarker : Option String := none
  deriving DecidableEq, Repr

/-- The answer of the API a mode calls. -/
abbrev ListingMode.Output : ListingMode → Type
  | objects => ListObjectsV2Output
  | versions => ListObjectVersionsOutput

/-- Where a listing goes on: the token of `ListObjectsV2`, or the markers of
`ListObjectVersions`. -/
structure Cursor where
  continuationToken : Option String := none
  keyMarker : Option String := none
  versionIdMarker : Option String := none
  deriving DecidableEq, Repr

/-- A page request. -/
structure ListRequest where
  bucket : String
  pathPrefix : String
  delimiter : Option String
  maxKeys : Int
  cursor : Cursor
  deriving DecidableEq, Repr

structure ListPage where
  objects : List S3Object
  subPrefixes : List String
  isTruncated : Bool
  next : Cursor
  deriving DecidableEq, Repr

/-- How `fetch_list_page` reads an answer. -/
def ListingMode.toPage : (mode : ListingMode) → mode.Output → ListPage
  | objects, output =>
    { objects := output.contents.map .notVersioning
      subPrefixes := output.commonPrefixes.filterMap id
      isTruncated := output.isTruncated == some true
      next := { continuationToken := output.nextContinuationToken } }
  | versions, output =>
    { objects := output.versions.map .versioning ++ output.deleteMarkers.map .deleteMarker
      subPrefixes := output.commonPrefixes.filterMap id
      isTruncated := output.isTruncated == some true
      next := { keyMarker := output.nextKeyMarker, versionIdMarker := output.nextVersionIdMarker } }

/-- What a mode sends of a cursor. -/
def ListingMode.sent : ListingMode → Cursor → Cursor
  | objects, cursor => { continuationToken := cursor.continuationToken }
  | versions, cursor => { keyMarker := cursor.keyMarker, versionIdMarker := cursor.versionIdMarker }

/-- The API call of a mode, as errors name it. -/
def ListingMode.callName : ListingMode → String
  | objects => "list_objects_v2"
  | versions => "list_object_versions"

/-! ### Operations -/

/-- The tasks of a listing. -/
abbrev ListTaskId := List Nat

/-- What `join_next` finds out about a task. -/
inductive Joined where
  | ok
  | failed (error : Error)
  | joinError (message : String)
  deriving DecidableEq, Repr

/-- Why a task ends early. -/
inductive Exit where
  | error (error : Error)
  /-- Dropped at an `await`. -/
  | aborted
  deriving DecidableEq, Repr

inductive ListOp where
  /-- The first poll of a task that was started. -/
  | start
  | isCancelled
  /-- `exec_rate_limit_objects_per_sec`. -/
  | rateLimit
  | request (mode : ListingMode) (r : ListRequest)
  | send (o : S3Object)
  | isClosed
  /-- `listing_worker_semaphore.acquire_owned()`. -/
  | acquire
  /-- The drop of `current_permit`. -/
  | release
  | spawn (mode : ListingMode) (subPrefix : String) (maxKeys : Int) (depth : Nat)
  | joinNext
  | cancel
  deriving DecidableEq

/-- Where the source awaits, `none` stands for the task being dropped there. -/
abbrev ListResp : ListOp → Type
  | .start => Option Unit
  | .isCancelled => Bool
  | .rateLimit => Option Unit
  | .request mode _ => Option (Except Error mode.Output)
  | .send _ => Option Bool
  | .isClosed => Bool
  | .acquire => Option Unit
  | .release => Unit
  | .spawn _ _ _ _ => Unit
  | .joinNext => Option (Option (ListTaskId × Joined))
  | .cancel => Unit

abbrev ListEvent := Ev ListOp ListResp
abbrev ListTrace := List ListEvent

/-- The programs of listing tasks. -/
abbrev ListTask := Fallible Exit ListOp ListResp

namespace ListTask

abbrev ask (o : ListOp) : ListTask (ListResp o) := liftM (perform o)

/-- An answer that may be the task's end. -/
def awaited {α : Type} : Option α → ListTask α
  | some a => pure a
  | none => throw .aborted

abbrev bail {α : Type} (e : Error) : ListTask α := throw (.error e)

/-- `.context(message)` on a result. -/
def context {α : Type} (message : String) (x : ListTask α) : ListTask α :=
  ExceptT.adapt (fun | .error e => .error (.context message e) | .aborted => .aborted) x

end ListTask

open ListTask

/-! ### The storage -/

/-- `S3Storage`, less its client and the state shared by its tasks. -/
structure S3Storage where
  config : Config
  bucket : String
  pathPrefix : String

/-- `is_express_onezone_bucket`. -/
def isExpressOnezoneBucket (bucket : String) : Bool := Text.endsWith bucket "--x-s3"

namespace S3Storage

variable (storage : S3Storage) (mode : ListingMode)

/-- `fetch_list_page`. -/
def fetchListPage (pathPrefix : String) (delimiter : Option String) (maxKeys : Int)
    (cursor : Cursor) : ListTask ListPage := do
  let answer ← ListTask.ask (.request mode
    { bucket := storage.bucket, pathPrefix, delimiter, maxKeys, cursor := mode.sent cursor })
  match ← awaited answer with
  | .ok output => return mode.toPage output
  | .error e =>
    bail (.context ("aws_sdk_s3::client::" ++ mode.callName ++ "() failed. s3://" ++
      storage.bucket ++ "/" ++ pathPrefix) e)

/-- `send_listed_objects`: whether listing is to stop. -/
def sendListedObjects : List S3Object → ListTask Bool
  | [] => return false
  | o :: objects => do
    if ← ListTask.ask .isCancelled then return true
    let sent ← ListTask.ask (.send o)
    if ← awaited sent then sendListedObjects objects
    else if ← ListTask.ask .isClosed then return true
    else bail (.context "async_channel::Sender::send() failed."
      (.other "sending into a closed channel"))

/-- The end of a page loop's turn: the next cursor of a truncated page. -/
def nextCursor (pathPrefix : String) (cursor : Cursor) (page : ListPage) : Except Error Cursor :=
  let location := "s3://" ++ storage.bucket ++ "/" ++ pathPrefix
  match mode with
  | .objects =>
    if page.next.continuationToken = none then
      .error (.other ("S3 returned truncated response but no continuation token for " ++ location))
    else if page.next.continuationToken = cursor.continuationToken then
      .error (.other ("S3 returned the same continuation token twice for " ++ location ++
        "; refusing to loop. This is likely a bug in the S3-compatible endpoint."))
    else .ok { cursor with continuationToken := page.next.continuationToken }
  | .versions =>
    if page.next.keyMarker = none then
      .error (.other ("S3 returned truncated response but no next key marker for " ++ location))
    else if page.next.keyMarker = cursor.keyMarker ∧
        page.next.versionIdMarker = cursor.versionIdMarker then
      .error (.other ("S3 returned the same key/version marker twice for " ++ location ++
        "; refusing to loop. This is likely a bug in the S3-compatible endpoint."))
    else .ok { cursor with keyMarker := page.next.keyMarker
                           versionIdMarker := page.next.versionIdMarker }

/-! ### Sequential listing -/

/-- A turn of the loop of `list_sequential`. -/
def sequentialTurn (maxKeys : Int) (cursor : Cursor) : ListTask (Cursor ⊕ Unit) := do
  if ← ListTask.ask .isCancelled then return .inr ()
  awaited (← ListTask.ask .rateLimit)
  let page ← storage.fetchListPage mode storage.pathPrefix none maxKeys cursor
  if ← sendListedObjects page.objects then return .inr ()
  if page.isTruncated then
    match storage.nextCursor mode storage.pathPrefix cursor page with
    | .ok next => return .inl next
    | .error e => bail e
  else return .inr ()

/-- `list_sequential`. -/
def listSequential (maxKeys : Int) : ListTask Unit :=
  loop (storage.sequentialTurn mode maxKeys) {}

/-! ### Parallel listing -/

/-- The loop over the sub-prefixes of a page: whether `current_permit` is still
there after it. -/
def spawnSubListings (maxKeys : Int) (depth : Nat) : List String → Bool → ListTask Bool
  | [], permit => return permit
  | subPrefix :: subPrefixes, permit => do
    if ← ListTask.ask .isCancelled then return permit
    if permit then ListTask.ask .release
    awaited (← ListTask.ask .acquire)
    ListTask.ask (.spawn mode subPrefix maxKeys (depth + 1))
    spawnSubListings maxKeys depth subPrefixes false

/-- `while let Some(join_result) = join_set.join_next().await`. -/
def joinSubListings : ListTask Unit :=
  loop (fun _ => do
    match ← awaited (← ListTask.ask .joinNext) with
    | none => return .inr ()
    | some (_, .ok) => return .inl ()
    | some (_, .failed e) => do
      ListTask.ask .cancel
      bail e
    | some (_, .joinError message) => do
      ListTask.ask .cancel
      bail (.other message)) ()

/-- The state of the page loop: where it is, and whether `current_permit` is
there. -/
structure PageLoop where
  cursor : Cursor := {}
  permit : Bool := true

/-- A turn of the loop of `list_with_parallel`.  It leaves the loop with what
`current_permit` is after a `break`, or with `none` to return at once. -/
def parallelTurn (pathPrefix : String) (delimiter : Option String) (maxKeys : Int) (depth : Nat)
    (s : PageLoop) : ListTask (PageLoop ⊕ Option Bool) := do
  if ← ListTask.ask .isCancelled then return .inr (some s.permit)
  awaited (← ListTask.ask .rateLimit)
  let page ← storage.fetchListPage mode pathPrefix delimiter maxKeys s.cursor
  if ← sendListedObjects page.objects then return .inr none
  let permit ← if page.subPrefixes = [] then pure s.permit else do
    let permit ← spawnSubListings mode maxKeys depth page.subPrefixes s.permit
    joinSubListings
    pure permit
  if page.isTruncated then
    match storage.nextCursor mode pathPrefix s.cursor page with
    | .ok next => return .inl { cursor := next, permit }
    | .error e => bail e
  else return .inr (some permit)

/-- `list_with_parallel`. -/
def listWithParallel (pathPrefix : String) (maxKeys : Int) (depth : Nat) : ListTask Unit := do
  let pathPrefix := if pathPrefix = "" then storage.pathPrefix else pathPrefix
  let delimiter := if depth ≤ storage.config.maxParallelListingMaxDepth then some "/" else none
  let left ← loop (storage.parallelTurn mode pathPrefix delimiter maxKeys depth) {}
  if left = some true then ListTask.ask .release

/-- The task spawned for a sub-prefix. -/
def subListing (subPrefix : String) (maxKeys : Int) (depth : Nat) : ListTask Unit := do
  awaited (← ListTask.ask .start)
  context ("Failed to list " ++ mode.label ++ "s in sub-prefix")
    (storage.listWithParallel mode subPrefix maxKeys depth)

/-- Whether `list_dispatch` lists in parallel. -/
def usesParallel : Bool :=
  storage.config.maxParallelListings > 1 &&
    (!isExpressOnezoneBucket storage.bucket ||
      storage.config.allowParallelListingsInExpressOneZone)

/-- `list_dispatch`. -/
def listDispatch (maxKeys : Int) : ListTask Unit := do
  if storage.usesParallel then
    awaited (← ListTask.ask .acquire)
    context ("Failed to parallel " ++ mode.label ++ " listing.")
      (storage.listWithParallel mode "" maxKeys 1)
  else storage.listSequential mode maxKeys

end S3Storage

/-! ### The shared state -/

/-- What the tasks of a listing share, and for each task the permits it holds,
its join set, how many tasks it has started, and whether it is aborted. -/
structure ListingState where
  permits : Nat
  held : ListTaskId → Nat := fun _ => 0
  joinSet : ListTaskId → List ListTaskId := fun _ => []
  spawned : ListTaskId → Nat := fun _ => 0
  aborted : ListTaskId → Bool := fun _ => false
  cancelled : Bool := false
  closed : Bool := false

namespace ListingState

variable (outcomes : ListTaskId → Option (Outcome (Except Exit Unit))) (i : ListTaskId)
  (sh : ListingState)

/-- An `await` that goes on with `next`; an aborted task may be dropped. -/
def await {α : Type} (next : α → Option ListingState) : Option α → Option ListingState
  | some a => next a
  | none => if sh.aborted i then some sh else none

/-- What `join_next` can say of a task that ended so. -/
def joins : Option (Outcome (Except Exit Unit)) → Joined → Bool
  | some (.done (.ok ())), .ok => true
  | some (.done (.error (.error e))), .failed e' => e = e'
  | some (.done (.error .aborted)), .joinError _ => true
  | some .panicked, .joinError _ => true
  | _, _ => false

/-- The task `i` would start next. -/
def child : ListTaskId := i ++ [sh.spawned i]

def handle : (o : ListOp) → ListResp o → Option ListingState
  | .start, r => sh.await i (fun _ => some sh) r
  | .isCancelled, r => if sh.cancelled = r then some sh else none
  | .rateLimit, r => sh.await i (fun _ => some sh) r
  | .request _ _, r => sh.await i (fun _ => some sh) r
  | .send _, r => sh.await i (fun sent => if sent = !sh.closed then some sh else none) r
  | .isClosed, r => if sh.closed = r then some sh else none
  | .acquire, r => sh.await i (fun _ =>
      if 0 < sh.permits then
        some { sh with permits := sh.permits - 1
                       held := Function.update sh.held i (sh.held i + 1) }
      else none) r
  | .release, _ => some { sh with permits := sh.permits + 1
                                  held := Function.update sh.held i (sh.held i - 1) }
  | .spawn _ _ _ _, _ => some { sh with
      held := Function.update (Function.update sh.held i (sh.held i - 1)) (sh.child i) 1
      joinSet := Function.update sh.joinSet i (sh.joinSet i ++ [sh.child i])
      spawned := Function.update sh.spawned i (sh.spawned i + 1) }
  | .joinNext, r => sh.await i (fun
      | none => if sh.joinSet i = [] then some sh else none
      | some (j, joined) =>
        if j ∈ sh.joinSet i ∧ joins (outcomes j) joined then
          some { sh with joinSet := Function.update sh.joinSet i ((sh.joinSet i).erase j) }
        else none) r
  | .cancel, _ => some { sh with cancelled := true }

/-- The drops at the end of a task. -/
def retire : ListingState :=
  { sh with permits := sh.permits + sh.held i
            held := Function.update sh.held i 0
            aborted := fun j => sh.aborted j || (sh.joinSet i).contains j
            joinSet := Function.update sh.joinSet i [] }

/-- What others may do meanwhile: cancel the run, or close the channel. -/
inductive Env : ListingState → ListingState → Prop
  | cancel (sh : ListingState) : Env sh { sh with cancelled := true }
  | close (sh : ListingState) : Env sh { sh with closed := true }

end ListingState

/-- Which answers the endpoint may give to a page request. -/
abbrev Endpoint := (mode : ListingMode) → ListRequest → Except Error mode.Output → Prop

/-- What the endpoint does not decide is open. -/
def Endpoint.Admits (endpoint : Endpoint) : ListEvent → Prop
  | ⟨.request mode r, some answer⟩ => endpoint mode r answer
  | _ => True

/-- The tasks of one call of `list_dispatch`. -/
def listMachine (storage : S3Storage) (endpoint : Endpoint) :
    Machine ListTaskId ListOp ListResp (Except Exit Unit) ListingState where
  handle outcomes i sh o r := sh.handle outcomes i o r
  admits := endpoint.Admits
  spawn i sh o :=
    match o with
    | .spawn mode subPrefix maxKeys depth =>
      some (sh.child i, storage.subListing mode subPrefix maxKeys depth)
    | _ => none
  retire i _ sh := sh.retire i
  mayPanic _ := True
  env := ListingState.Env

abbrev ListWorld := World ListTaskId ListOp ListResp (Except Exit Unit) ListingState

/-- A call of `list_dispatch`, with `max_parallel_listings` permits. -/
def listStart (storage : S3Storage) (mode : ListingMode) (maxKeys : Int) : ListWorld where
  tasks i := if i = [] then .running (storage.listDispatch mode maxKeys) else .idle
  code i := if i = [] then some (storage.listDispatch mode maxKeys) else none
  shared := { permits := storage.config.maxParallelListings }
  log := []

/-! ### Schedules -/

/-- An endpoint that answers by a function of the request. -/
abbrev Answering (answer : (mode : ListingMode) → ListRequest → Except Error mode.Output) :
    Endpoint := fun mode r result => result = answer mode r

/-- The answers along a schedule on which nothing fails outside the endpoint. -/
def listReply (answer : (mode : ListingMode) → ListRequest → Except Error mode.Output)
    (w : ListWorld) (i : ListTaskId) : (o : ListOp) → Option (ListResp o)
  | .start | .rateLimit | .acquire => some (some ())
  | .isCancelled => some w.shared.cancelled
  | .request mode r => some (some (answer mode r))
  | .send _ => some (some !w.shared.closed)
  | .isClosed => some w.shared.closed
  | .release | .spawn _ _ _ _ | .cancel => some ()
  | .joinNext =>
    match w.shared.joinSet i with
    | [] => some (some none)
    | cs => (cs.find? fun c => ListingState.joins (w.outcome c) .ok).map fun c => some (some (c, .ok))

theorem listReply_admits {answer : (mode : ListingMode) → ListRequest → Except Error mode.Output}
    (w : ListWorld) (i : ListTaskId) (o : ListOp) (r : ListResp o)
    (h : listReply answer w i o = some r) : (Answering answer).Admits ⟨o, r⟩ := by
  cases o with
  | request mode req =>
    cases h
    rfl
  | _ => trivial

end S3rm
