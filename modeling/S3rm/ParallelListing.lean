/-
S3rm/ParallelListing.lean

Listing in parallel lists what listing sequentially lists.  With S3 as in
Storage/Bucket.lean, and left to itself, a listing succeeds (`succeeds`).  It is
then complete (`Listed`), and the tree of its tasks follows the common prefixes:
what is sent at and below a task is what is under its prefix (`sent_of_listed`),
whichever prefixes got a task of their own.

    parallel_sends_sequential    both send the same objects, equally often
-/
import Mathlib.Algebra.BigOperators.Fin
import S3rm.ListingComplete
import S3rm.Storage.Bucket

namespace S3rm

open Conc Conc.Prog ListTask

variable {storage : S3Storage} {endpoint : Endpoint} {mode : ListingMode} {maxKeys : Int}
  {w : ListWorld} {i : ListTaskId}

/-! ### A listing left to itself -/

/-- Every page request gets a page, and every truncated page says where to go on. -/
def Endpoint.Sound (endpoint : Endpoint) : Prop :=
  ∀ mode r answer, endpoint mode r answer → ∃ output, answer = .ok output ∧
    ((mode.toPage output).isTruncated = true →
      (mode.toPage output).next.Given mode ∧ (mode.toPage output).next ≠ r.cursor)

/-- Nothing has gone wrong. -/
structure ListWorld.Fine (w : ListWorld) : Prop where
  live : w.shared.cancelled = false
  opened : w.shared.closed = false
  kept : ∀ i, w.shared.aborted i = false
  awaited : ∀ x ∈ w.log, ListEvent.drops x.2 = false
  joined : ∀ i, (ListWorld.ledger w i).failed = false
  done : ∀ i o, w.tasks i = .finished o → o = .done (.ok ())

/-- Only a success is joined where all tasks that have ended succeeded. -/
theorem joins_done {joined : Joined}
    (h : ListingState.joins (some (.done (.ok ()))) joined = true) : joined = .ok := by
  cases joined with
  | ok => rfl
  | failed | joinError => cases h

/-- A join that was answered tells of a task that has ended. -/
theorem joins_of_handle {outcomes : ListTaskId → Option (Outcome (Except Exit Unit))}
    {sh sh' : ListingState} {j : ListTaskId} {joined : Joined}
    (h : sh.handle outcomes i .joinNext (some (some (j, joined))) = some sh') :
    ListingState.joins (outcomes j) joined = true :=
  (Option.ite_none_right_eq_some.mp h).1.2

/-- No operation makes a failure known where there is none. -/
theorem ListWorld.Fine.failed_after (hw : ListWorld.Fine w) {o : ListOp} {r : ListResp o}
    {sh : ListingState} (handled : w.shared.handle w.outcome i o r = some sh) :
    ((ListWorld.ledger w i).after ⟨o, r⟩).failed = false := by
  have hno := hw.joined i
  cases o with
  | joinNext =>
    rcases r with - | - | ⟨j, joined⟩
    · exact hno
    · exact hno
    · have hjoins := joins_of_handle handled
      rcases hj : w.outcome j with - | o
      · rw [hj] at hjoins
        cases hjoins
      · rw [hj, hw.done j o (ListWorld.tasks_of_outcome hj)] at hjoins
        show ((ListWorld.ledger w i).failed || (joined != .ok)) = false
        rw [hno, joins_done hjoins]
        rfl
  | start | isCancelled | request | isClosed | cancel | send => exact hno
  | rateLimit | acquire => rcases r with - | - <;> exact hno
  | release | spawn => exact hno

/-- A task at its end has succeeded. -/
theorem ListWorld.Fine.ret (hw : ListWorld.Fine w) (hsound : endpoint.Sound)
    (h : (listMachine storage endpoint).Reachable (listStart storage mode maxKeys) w)
    {r : Except Exit Unit} (hi : w.tasks i = .running (.ret r)) : r = .ok () := by
  obtain ⟨p, prog, hcode, hprog⟩ := taskRun_of_started h (i := i) (by simp [hi])
  have hrun := hprog _ _ (h.run_of_ret listStart_initial hcode hi)
  have hadmits := h.admits_traceOf listStart_initial i
  rcases r with (e | -) | ⟨⟨⟩⟩
  · exfalso
    rcases hrun.cause with ⟨x, hx, hfails⟩ | hcancel | ⟨c, output, e', hc, hx, htruncated, hnext⟩
    · rcases Bool.or_eq_true_iff.mp hfails with hfails | hstops
      · obtain ⟨o, r⟩ := x
        cases o with
        | request m req =>
          rcases r with - | e | output
          · cases hfails
          · obtain ⟨output, heq, -⟩ := hsound _ _ _ (hadmits _ hx)
            cases heq
          · cases hfails
        | _ => cases hfails
      · rcases (flags_of_log h).1 _ (mem_traceOf.mp hx) hstops with hc | hc
        · rw [hw.live] at hc
          cases hc
        · rw [hw.opened] at hc
          cases hc
    · have hc := (flags_of_log h).2 _ (mem_traceOf.mp hcancel) rfl
      rw [hw.live] at hc
      cases hc
    · obtain ⟨output', heq, hgoes⟩ := hsound _ _ _ (hadmits _ hx)
      obtain rfl := Except.ok.inj heq
      obtain ⟨hgiven, hne⟩ := hgoes htruncated
      replace hne : (p.mode.toPage output).next ≠ p.mode.sent c := hne
      rw [hc] at hne
      rw [(nextCursor_eq hc).mpr ⟨rfl, hgiven, hne⟩] at hnext
      cases hnext
  · exfalso
    obtain ⟨x, hx, hdrops⟩ := hrun.drops
    rw [hw.awaited _ (mem_traceOf.mp hx)] at hdrops
    cases hdrops
  · rfl

/-- **A listing left to itself succeeds**, whatever the interleaving: no task fails,
and nothing is cancelled. -/
theorem succeeds (hsound : endpoint.Sound)
    (h : (listMachine storage endpoint).alone.Reachable (listStart storage mode maxKeys) w) :
    ListWorld.Fine w := by
  refine h.invariant (P := ListWorld.Fine) ?_ ?_
  · intro u v hr hu hs
    replace hr := hr.of_alone
    cases hs with
    | @perform i o k r sh run handled _ startable =>
      replace handled : u.shared.handle u.outcome i o r = some sh := handled
      have heff := listingEffect_of_handle handled
      have hnot : (⟨o, r⟩ : ListEvent) ≠ ⟨.cancel, ()⟩ := by
        rintro heq
        cases heq
        have hmay : (ListWorld.ledger u i).failed = true := may_of_running hr run
        rw [hu.joined i] at hmay
        cases hmay
      refine ⟨(heff.cancelled hnot).trans hu.live, heff.closed.trans hu.opened, fun j => ?_,
        fun x hx => ?_, fun j => ?_, fun j o' hj => ?_⟩
      · rw [World.record_shared, heff.aborted]
        exact hu.kept j
      · rw [World.record_log, World.launch_log, World.put_log] at hx
        rcases List.mem_append.mp hx with hx | hx
        · exact hu.awaited x hx
        · obtain rfl := List.mem_singleton.mp hx
          rw [← Bool.not_eq_true]
          intro hdrops
          have haborted := heff.drops hdrops
          rw [hu.kept i] at haborted
          cases haborted
      · by_cases hij : i = j
        · subst hij
          rw [ListWorld.ledger_snoc_self (u := u) (e := ⟨o, r⟩) (by simp)]
          exact hu.failed_after handled
        · rw [ListWorld.ledger_snoc_ne (u := u) (e := ⟨o, r⟩) (by simp) (Ne.symm hij)]
          exact hu.joined j
      · exact hu.done j o' (World.finished_of_put (World.finished_of_launch hj))
    | unroll run =>
      exact ⟨hu.live, hu.opened, hu.kept, hu.awaited, hu.joined, fun j o hj =>
        hu.done j o (World.finished_of_put hj)⟩
    | @finish i r run =>
      obtain rfl := hu.ret hsound hr run
      -- it does not leave any task behind
      have hnil : u.shared.joinSet i = [] := by
        have hlen := (((listing_books hr).rows i).running run).2
        rw [(settled_of_ret hr run).1] at hlen
        exact List.eq_nil_of_length_eq_zero hlen
      refine ⟨hu.live, hu.opened, fun j => ?_, hu.awaited, hu.joined, fun j o hj => ?_⟩
      · show (u.shared.aborted j || (u.shared.joinSet i).contains j) = false
        rw [hu.kept j, hnil]
        rfl
      · by_cases hij : j = i
        · subst hij
          rw [World.withShared_tasks, World.put_tasks, Function.update_self] at hj
          exact (TaskState.finished.inj hj).symm
        · rw [World.withShared_tasks, World.put_tasks, Function.update_of_ne hij] at hj
          exact hu.done j o hj
    | panic may => exact may.elim
    | env h => exact h.elim
  · refine ⟨rfl, rfl, fun _ => rfl, by simp [listStart], fun _ => rfl, fun j o hj => ?_⟩
    rcases listStart_initial.tasks j with ⟨-, ht⟩ | ⟨p, -, ht⟩ <;> rw [ht] at hj <;> cases hj

/-! ### What is sent below a task -/

/-- The objects that a task and those below it have sent. -/
def sentBelow (log : List (ListTaskId × ListEvent)) (i : ListTaskId) : Multiset S3Object :=
  (log.map fun x => if i <+: x.1 then (↑(intoChannel x.2) : Multiset S3Object) else 0).sum

theorem sentBelow_root (log : List (ListTaskId × ListEvent)) :
    sentBelow log [] = ↑(log.flatMap fun x => intoChannel x.2) := by
  induction log with
  | nil => rfl
  | cons x log ih =>
    show (if [] <+: x.1 then (↑(intoChannel x.2) : Multiset S3Object) else 0) + sentBelow log [] = _
    rw [if_pos List.nil_prefix, ih, Multiset.coe_add, List.flatMap_cons]

/-- An event is the task's own, or of one below a child. -/
theorem below_or {j : ListTaskId} {n : Nat} (hj : ∀ k l, j = i ++ k :: l → k < n)
    (m : Multiset S3Object) :
    (if i <+: j then m else 0) =
      (if j = i then m else 0) + ∑ k ∈ Finset.range n, if i ++ [k] <+: j then m else 0 := by
  by_cases hij : i <+: j
  · obtain ⟨l, rfl⟩ := hij
    rw [if_pos (List.prefix_append i l)]
    rcases l with - | ⟨k, l⟩
    · rw [List.append_nil, if_pos rfl, Finset.sum_eq_zero, add_zero]
      intro k _
      rw [if_neg]
      intro h
      simpa using h.length_le
    · rw [if_neg (by simp), zero_add, Finset.sum_eq_single_of_mem k (Finset.mem_range.mpr (hj k l rfl)),
        if_pos]
      · rw [List.prefix_append_right_inj]
        exact List.cons_prefix_cons.mpr ⟨rfl, List.nil_prefix⟩
      · intro k' _ hne
        rw [if_neg]
        rw [List.prefix_append_right_inj]
        exact fun h => hne (List.cons_prefix_cons.mp h).1
  · have hne : j ≠ i := fun h => hij (h ▸ List.prefix_refl i)
    rw [if_neg hij, if_neg hne, zero_add, Finset.sum_eq_zero]
    intro k _
    rw [if_neg]
    exact fun h => hij ((List.prefix_append i [k]).trans h)

/-- **At and below a task** is what it sends itself, and what its children send. -/
theorem sentBelow_children {log : List (ListTaskId × ListEvent)} {n : Nat}
    (hlog : ∀ x ∈ log, ∀ k l, x.1 = i ++ k :: l → k < n) :
    sentBelow log i =
      ↑((traceOf i log).flatMap intoChannel) + ∑ k ∈ Finset.range n, sentBelow log (i ++ [k]) := by
  induction log with
  | nil =>
    show (0 : Multiset S3Object) = 0 + ∑ k ∈ Finset.range n, 0
    rw [Finset.sum_const_zero, add_zero]
  | cons x log ih =>
    have hown : (↑((traceOf i (x :: log)).flatMap intoChannel) : Multiset S3Object) =
        (if x.1 = i then ↑(intoChannel x.2) else 0) + ↑((traceOf i log).flatMap intoChannel) := by
      by_cases hx : x.1 = i
      · rw [if_pos hx, Multiset.coe_add, ← List.flatMap_cons]
        simp [traceOf, hx]
      · rw [if_neg hx, zero_add]
        simp [traceOf, hx]
    show (if i <+: x.1 then (↑(intoChannel x.2) : Multiset S3Object) else 0) + sentBelow log i = _ +
      ∑ k ∈ Finset.range n, ((if i ++ [k] <+: x.1 then (↑(intoChannel x.2) : Multiset S3Object) else 0) +
        sentBelow log (i ++ [k]))
    rw [ih fun y hy => hlog y (List.mem_cons_of_mem x hy), below_or (hlog x List.mem_cons_self), hown,
      Finset.sum_add_distrib]
    exact add_add_add_comm _ _ _ _

/-! ### What a listing sends -/

/-- A task below another one was started for one of its sub-prefixes. -/
theorem lt_of_code
    (h : (listMachine storage endpoint).Reachable (listStart storage mode maxKeys) w) {k : Nat}
    {l : List Nat} (hcode : w.code (i ++ k :: l) ≠ none) :
    k < ((traceOf i w.log).flatMap startedFor).length := by
  induction l using List.reverseRecOn with
  | nil =>
    rw [(children_of_reachable h i).code k] at hcode
    by_contra hlt
    rw [List.getElem?_eq_none (Nat.le_of_not_lt hlt)] at hcode
    exact hcode rfl
  | append_singleton l k' ih =>
    -- its parent was started, too
    apply ih
    intro hnone
    rw [← List.cons_append, ← List.append_assoc, (children_of_reachable h _).code k',
      h.traceOf_eq_nil listStart_initial hnone] at hcode
    exact hcode rfl

/-- The sources of the program: sub-prefixes are found where they are listed. -/
def PageSource.Whole (p : PageSource) : Prop :=
  p.delimiter = none ∨ p.delimiter = some "/" ∧ p.depth ≠ none

theorem whole_parallelSource (storage : S3Storage) (mode : ListingMode) (pathPrefix : String)
    (maxKeys : Int) (depth : Nat) : (storage.parallelSource mode pathPrefix maxKeys depth).Whole := by
  show (if depth ≤ storage.config.maxParallelListingMaxDepth then some "/" else none) = none ∨ _ ∧ _
  split
  · exact .inr ⟨if_pos ‹_›, nofun⟩
  · exact .inl rfl

/-- **A complete listing sends what is under its prefix**, itself or through its
sub-listings.  The induction follows the tree of tasks. -/
theorem sent_of_listed {bucket : Bucket} {s3 : S3 bucket}
    (h : (listMachine storage s3.endpoint).Reachable (listStart storage mode maxKeys) w)
    {p : PageSource} (hl : Listed storage w i p) (hp : p.Whole) :
    sentBelow w.log i = ↑(bucket.under p.mode p.pathPrefix) := by
  induction hl with
  | @mk i p pages paged handed subs ih =>
    have hanswers : ∀ q ∈ pages, s3.Answers p.mode (p.request q.1) q.2 := by
      intro q hq
      have hmem : p.fetched q.1 q.2 ∈ (S3rm.handed (traceOf i w.log)).fetched := by
        rw [handed]
        exact List.mem_map_of_mem hq
      obtain ⟨output, heq, hanswer⟩ :=
        h.admits_traceOf listStart_initial i _ (List.mem_of_mem_filter hmem)
      obtain rfl := Except.ok.inj heq
      exact hanswer
    obtain ⟨hobjects, hnames⟩ := paged.items (by cases p.mode <;> rfl) hanswers
    rw [s3.left_start] at hobjects hnames
    have hown : (traceOf i w.log).flatMap intoChannel =
        pages.flatMap fun q => (p.mode.toPage q.2).objects := congrArg Handed.delivered handed
    -- the sub-prefixes of all pages, in order
    set names := pages.flatMap fun q => (p.mode.toPage q.2).subPrefixes with hset
    have hlen : ((traceOf i w.log).flatMap startedFor).length ≤ names.length := by
      rcases hdepth : p.depth with - | depth
      · have hnone : (p.handedOn pages).started = [] := by
          simp [PageSource.handedOn, PageSource.tasks, hdepth]
        have hstarted : (traceOf i w.log).flatMap startedFor = [] :=
          (congrArg Handed.started handed).trans hnone
        rw [hstarted]
        exact Nat.zero_le _
      · rw [started_of_handed handed hdepth]
        exact Nat.le_of_eq (List.length_map _)
    have hlog : ∀ x ∈ w.log, ∀ k l, x.1 = i ++ k :: l → k < names.length := by
      intro x hx k l heq
      apply Nat.lt_of_lt_of_le (lt_of_code h (l := l) _) hlen
      intro hnone
      have hmem := mem_traceOf.mpr hx
      rw [heq, h.traceOf_eq_nil listStart_initial hnone] at hmem
      cases hmem
    have hchild : ∀ k : Fin names.length,
        sentBelow w.log (i ++ [k.val]) = ↑(bucket.under p.mode names[k.val]) := by
      intro k
      have hk : names[k.val]? = some names[k.val] := List.getElem?_eq_getElem k.isLt
      have hmem : names[k.val] ∈ names := List.getElem_mem k.isLt
      rcases hp with hnone | ⟨hslash, hdepth⟩
      · rw [hnone, bucket.names_items_none] at hnames
        exact absurd k.isLt (by simp [hnames])
      · obtain ⟨depth, hdepth⟩ := Option.ne_none_iff_exists'.mp hdepth
        have hitem : names[k.val] ∈
            (bucket.items p.mode p.pathPrefix (some "/")).filterMap Item.commonPrefix? := by
          rw [← hslash, ← hnames]
          exact hmem
        have hne := Bucket.ne_empty_of_mem_items (by decide) hitem
        rw [ih depth hdepth k _ hk (whole_parallelSource _ _ _ _ _)]
        show (↑(bucket.under p.mode (if names[k.val] = "" then _ else _)) : Multiset S3Object) = _
        rw [if_neg hne]
    rw [sentBelow_children hlog, hown, hobjects, ← bucket.sum_items p.delimiter, ← hnames,
      Finset.sum_range, Finset.sum_congr rfl fun k _ => hchild k]
    congr 1
    exact Fin.sum_univ_fun_getElem names fun name => (↑(bucket.under p.mode name) : Multiset S3Object)

theorem sound_endpoint {bucket : Bucket} (s3 : S3 bucket) : s3.endpoint.Sound := by
  rintro mode r answer ⟨output, rfl, hanswers⟩
  exact ⟨output, rfl, hanswers.next⟩

theorem rootSource_pathPrefix : (storage.rootSource mode maxKeys).pathPrefix = storage.pathPrefix := by
  unfold S3Storage.rootSource
  split <;> rfl

theorem rootSource_mode : (storage.rootSource mode maxKeys).mode = mode := by
  unfold S3Storage.rootSource
  split <;> rfl

theorem whole_rootSource : (storage.rootSource mode maxKeys).Whole := by
  unfold S3Storage.rootSource
  split
  · exact whole_parallelSource storage mode "" maxKeys 1
  · exact .inl rfl

/-- **What a call sends** to its end: the entries under the target. -/
theorem sent_of_outcome {bucket : Bucket} {s3 : S3 bucket}
    (h : (listMachine storage s3.endpoint).alone.Reachable (listStart storage mode maxKeys) w)
    {o : Outcome (Except Exit Unit)} (hroot : w.outcome [] = some o) :
    o = .done (.ok ()) ∧
      (↑(w.proj intoChannel) : Multiset S3Object) = ↑(bucket.under mode storage.pathPrefix) := by
  have hfine := succeeds (sound_endpoint s3) h
  obtain rfl := hfine.done [] o (ListWorld.tasks_of_outcome hroot)
  refine ⟨rfl, ?_⟩
  have hlisted := listed_of_undisturbed h.of_alone hroot hfine.live hfine.opened
  have hsent := sent_of_listed h.of_alone hlisted whole_rootSource
  rw [sentBelow_root, rootSource_mode, rootSource_pathPrefix] at hsent
  exact hsent

/-- **Listing in parallel sends what listing sequentially sends.**  Of two calls for the
same target in the same bucket, one may list in parallel and the other not (see
`usesParallel`), their pages, limits and interleavings may differ: at their ends both
have succeeded, and have sent the same objects, equally often: the entries under the target. -/
theorem parallel_sends_sequential (bucket : Bucket) (s3 s3' : S3 bucket) (storage storage' : S3Storage)
    (mode : ListingMode) (maxKeys maxKeys' : Int) (htarget : storage.pathPrefix = storage'.pathPrefix)
    (w w' : ListWorld)
    (h : (listMachine storage s3.endpoint).alone.Reachable (listStart storage mode maxKeys) w)
    (h' : (listMachine storage' s3'.endpoint).alone.Reachable (listStart storage' mode maxKeys') w')
    (o o' : Outcome (Except Exit Unit)) (ho : w.outcome [] = some o) (ho' : w'.outcome [] = some o') :
    o = .done (.ok ()) ∧ o' = .done (.ok ()) ∧
      (↑(w.proj intoChannel) : Multiset S3Object) = ↑(w'.proj intoChannel) ∧
      (↑(w.proj intoChannel) : Multiset S3Object) = ↑(bucket.under mode storage.pathPrefix) := by
  obtain ⟨hok, hsent⟩ := sent_of_outcome h ho
  obtain ⟨hok', hsent'⟩ := sent_of_outcome h' ho'
  refine ⟨hok, hok', ?_, hsent⟩
  rw [hsent, hsent', htarget]

/-- Two objects, one of them a level below `logs/`. -/
def logsBucket : Bucket := { objects := [sampleEntry "logs/a" 1, sampleEntry "logs/b/c" 2] }

/-- Every cursor but the first stands for what follows the first item. -/
def logsS3 : S3 logsBucket where
  left mode pathPrefix delimiter cursor :=
    (logsBucket.items mode pathPrefix delimiter).drop (if cursor = {} then 0 else 1)
  left_start _ _ _ := rfl

/-- A page request of the sample runs. -/
def logsRequest (pathPrefix : String) (delimiter token : Option String) : ListRequest :=
  { bucket := "bucket", pathPrefix, delimiter, maxKeys := 1, cursor := { continuationToken := token } }

/-- The pages of the sample runs, one item each. -/
def logsAnswer (r : ListRequest) : Option ListObjectsV2Output :=
  let first := { contents := [sampleEntry "logs/a" 1], isTruncated := some true
                 nextContinuationToken := some "logs/a" }
  if r = logsRequest "logs/" (some "/") none ∨ r = logsRequest "logs/" none none then some first
  else if r = logsRequest "logs/" (some "/") (some "logs/a") then
    some { commonPrefixes := [some "logs/b/"] }
  else if r = logsRequest "logs/" none (some "logs/a") ∨ r = logsRequest "logs/b/" none none then
    some { contents := [sampleEntry "logs/b/c" 2] }
  else none

def logsReply (w : ListWorld) (i : ListTaskId) : (o : ListOp) → Option (ListResp o)
  | .request .objects r => (logsAnswer r).map fun output => some (.ok output)
  | .request .versions _ => none
  | o => listReply logsPages w i o

theorem logsReply_admits (storage : S3Storage) (w : ListWorld) (i : ListTaskId) (o : ListOp)
    (r : ListResp o) (h : logsReply w i o = some r) :
    (listMachine storage logsS3.endpoint).alone.admits ⟨o, r⟩ := by
  cases o with
  | request mode req =>
    cases mode with
    | versions => cases h
    | objects =>
      obtain ⟨output, houtput, rfl⟩ := Option.map_eq_some_iff.mp h
      refine ⟨output, rfl, ?_⟩
      unfold logsAnswer at houtput
      split_ifs at houtput with h₁ h₂ h₃
      · obtain rfl := Option.some.inj houtput
        rcases h₁ with rfl | rfl
        · exact ⟨[.entry (.notVersioning (sampleEntry "logs/a" 1))], [.commonPrefix "logs/b/"],
            by decide +kernel, by decide, ⟨rfl, rfl⟩, .inr ⟨nofun, _, ⟨rfl, _, rfl, rfl⟩, nofun,
              by decide +kernel⟩⟩
        · exact ⟨[.entry (.notVersioning (sampleEntry "logs/a" 1))],
            [.entry (.notVersioning (sampleEntry "logs/b/c" 2))], by decide +kernel, by decide,
            ⟨rfl, rfl⟩, .inr ⟨nofun, _, ⟨rfl, _, rfl, rfl⟩, nofun, by decide +kernel⟩⟩
      · obtain rfl := Option.some.inj houtput
        obtain rfl := h₂
        exact ⟨[.commonPrefix "logs/b/"], [], by decide +kernel, by decide, ⟨rfl, rfl⟩,
          .inl ⟨rfl, nofun⟩⟩
      · obtain rfl := Option.some.inj houtput
        rcases h₃ with rfl | rfl
        · exact ⟨[.entry (.notVersioning (sampleEntry "logs/b/c" 2))], [], by decide +kernel, by decide,
            ⟨rfl, rfl⟩, .inl ⟨rfl, nofun⟩⟩
        · exact ⟨[.entry (.notVersioning (sampleEntry "logs/b/c" 2))], [], by decide +kernel, by decide,
            ⟨rfl, rfl⟩, .inl ⟨rfl, nofun⟩⟩
  | _ => trivial

/-- The listing of `logs/` in parallel. -/
def logsParallel : ListWorld :=
  (listMachine logsStorage logsS3.endpoint).alone.exec logsReply (listStart logsStorage .objects 1)
    (.replicate 20 [] ++ .replicate 10 [0] ++ .replicate 4 [])

/-- The same target with one permit. -/
def logsOnePermit : S3Storage := { logsStorage with config := { maxParallelListings := 1 } }

/-- The listing of `logs/` one page after the other. -/
def logsSequential : ListWorld :=
  (listMachine logsOnePermit logsS3.endpoint).alone.exec logsReply
    (listStart logsOnePermit .objects 1) (.replicate 16 [])

theorem parallel_sends_sequential_logs :
    (↑(logsParallel.proj intoChannel) : Multiset S3Object) = ↑(logsSequential.proj intoChannel) :=
  (parallel_sends_sequential logsBucket logsS3 logsS3 logsStorage logsOnePermit
    .objects 1 1 rfl logsParallel logsSequential (Machine.exec_sound (logsReply_admits _) _ _)
    (Machine.exec_sound (logsReply_admits _) _ _) (.done (.ok ())) (.done (.ok ()))
    (by decide +kernel) (by decide +kernel)).2.2.1

end S3rm
