/-
S3rm/ListingComplete.lean

A listing that reports success is complete.  When the call returns `Ok`, every
task of it has succeeded; when besides nothing was cancelled and the channel
stayed open, each of them has been through all pages of its prefix, and the
sub-prefixes of the pages have each a task of their own (`Listed`).

    listing_complete          success means complete, and what goes wrong is not
                              reported as success
    listing_complete_fails    two ways in which less can be listed: cancellation
                              hides a page that does not say where to go on, and
                              the empty sub-prefix stands for the whole target
-/
import S3rm.Storage.Pages
import S3rm.Storage.Pool

namespace S3rm

open Conc Conc.Prog ListTask

variable {storage : S3Storage} {endpoint : Endpoint} {mode : ListingMode} {maxKeys : Int}
  {w : ListWorld} {i : ListTaskId}

/-! ### The tasks of a listing -/

/-- The program of a task that was started. -/
def S3Storage.subTask (storage : S3Storage) (a : ListingMode × String × Int × Nat) : ListTask Unit :=
  storage.subListing a.1 a.2.1 a.2.2.1 a.2.2.2

theorem startedFor_of_ne {o : ListOp} (r : ListResp o)
    (h : ∀ mode subPrefix maxKeys depth, o ≠ .spawn mode subPrefix maxKeys depth) :
    startedFor ⟨o, r⟩ = [] := by
  cases o
  case spawn => exact absurd rfl (h _ _ _ _)
  all_goals rfl

/-- What an operation of the task `i` does beside the permits: it says what the
events say, and takes nothing back. -/
structure ListingEffect (i : ListTaskId) (e : ListEvent) (sh sh' : ListingState) : Prop where
  spawned : sh'.spawned = Function.update sh.spawned i (sh.spawned i + (startedFor e).length)
  aborted : sh'.aborted = sh.aborted
  cancelled : e ≠ ⟨.cancel, ()⟩ → sh'.cancelled = sh.cancelled
  closed : sh'.closed = sh.closed
  stops : ListEvent.stops e = true → sh'.cancelled = true ∨ sh'.closed = true
  cancels : e = ⟨.cancel, ()⟩ → sh'.cancelled = true
  drops : ListEvent.drops e = true → sh.aborted i = true

section effect

variable {outcomes : ListTaskId → Option (Outcome (Except Exit Unit))} {sh sh' : ListingState}

/-- An operation that says nothing and touches none of it. -/
theorem ListingEffect.quiet {e : ListEvent} (hstarted : startedFor e = [])
    (hspawned : sh'.spawned = sh.spawned) (haborted : sh'.aborted = sh.aborted)
    (hcancelled : sh'.cancelled = sh.cancelled) (hclosed : sh'.closed = sh.closed)
    (hstops : ListEvent.stops e = false) (hcancel : e ≠ ⟨.cancel, ()⟩)
    (hdrops : ListEvent.drops e = true → sh.aborted i = true) : ListingEffect i e sh sh' where
  spawned := by
    rw [hstarted, hspawned]
    exact (Function.update_eq_self i sh.spawned).symm
  aborted := haborted
  cancelled _ := hcancelled
  closed := hclosed
  stops h := by
    rw [hstops] at h
    cases h
  cancels h := absurd h hcancel
  drops := hdrops

theorem ListingEffect.still_cancelled {e : ListEvent} (h : ListingEffect i e sh sh')
    (hsh : sh.cancelled = true) : sh'.cancelled = true := by
  by_cases he : e = ⟨.cancel, ()⟩
  · exact h.cancels he
  · exact (h.cancelled he).trans hsh

theorem listingEffect_of_handle {o : ListOp} {r : ListResp o}
    (h : sh.handle outcomes i o r = some sh') : ListingEffect i ⟨o, r⟩ sh sh' := by
  cases o with
  | spawn mode subPrefix maxKeys depth =>
    cases h
    exact ⟨rfl, rfl, fun _ => rfl, rfl, nofun, nofun, nofun⟩
  | release =>
    cases h
    exact .quiet rfl rfl rfl rfl rfl rfl nofun nofun
  | cancel =>
    cases h
    exact ⟨(Function.update_eq_self i sh.spawned).symm, rfl, fun h => absurd rfl h, rfl, nofun,
      fun _ => rfl, nofun⟩
  | isCancelled =>
    obtain ⟨heq, h⟩ := Option.ite_none_right_eq_some.mp h
    cases h
    exact ⟨(Function.update_eq_self i sh.spawned).symm, rfl, fun _ => rfl, rfl,
      fun hs => .inl (heq.trans hs), nofun, nofun⟩
  | isClosed =>
    obtain ⟨heq, h⟩ := Option.ite_none_right_eq_some.mp h
    cases h
    exact ⟨(Function.update_eq_self i sh.spawned).symm, rfl, fun _ => rfl, rfl,
      fun hs => .inr (heq.trans hs), nofun, nofun⟩
  | start | request | rateLimit =>
    rcases await_cases h with ⟨rfl, rfl, haborted⟩ | ⟨a, rfl, h⟩
    · exact .quiet rfl rfl rfl rfl rfl rfl nofun fun _ => haborted
    · cases h
      exact .quiet rfl rfl rfl rfl rfl rfl nofun nofun
  | send =>
    rcases await_cases h with ⟨rfl, rfl, haborted⟩ | ⟨sent, rfl, h⟩
    · exact .quiet rfl rfl rfl rfl rfl rfl nofun fun _ => haborted
    · obtain ⟨heq, h⟩ := Option.ite_none_right_eq_some.mp h
      cases h
      refine ⟨(Function.update_eq_self i sh.spawned).symm, rfl, fun _ => rfl, rfl, fun hs => .inr ?_,
        nofun, nofun⟩
      simpa [ListEvent.stops, heq] using hs
  | acquire =>
    rcases await_cases h with ⟨rfl, rfl, haborted⟩ | ⟨a, rfl, h⟩
    · exact .quiet rfl rfl rfl rfl rfl rfl nofun fun _ => haborted
    · obtain ⟨-, h⟩ := Option.ite_none_right_eq_some.mp h
      cases h
      exact .quiet rfl rfl rfl rfl rfl rfl nofun nofun
  | joinNext =>
    rcases await_cases h with ⟨rfl, rfl, haborted⟩ | ⟨- | ⟨c, joined⟩, rfl, h⟩
    · exact .quiet rfl rfl rfl rfl rfl rfl nofun fun _ => haborted
    · obtain ⟨-, h⟩ := Option.ite_none_right_eq_some.mp h
      cases h
      exact .quiet rfl rfl rfl rfl rfl rfl nofun nofun
    · obtain ⟨-, h⟩ := Option.ite_none_right_eq_some.mp h
      cases h
      exact .quiet rfl rfl rfl rfl rfl rfl nofun nofun

end effect

/-- The children of a task, by what it asked for. -/
structure ListWorld.Children (w : ListWorld) (storage : S3Storage) (i : ListTaskId) : Prop where
  spawned : w.shared.spawned i = ((traceOf i w.log).flatMap startedFor).length
  code : ∀ k, w.code (i ++ [k]) =
    ((traceOf i w.log).flatMap startedFor)[k]?.map storage.subTask

/-- **A task's children** run the listings it started. -/
theorem children_of_reachable
    (h : (listMachine storage endpoint).Reachable (listStart storage mode maxKeys) w)
    (i : ListTaskId) : ListWorld.Children w storage i := by
  refine h.invariant (P := fun w => ∀ i, ListWorld.Children w storage i) ?_ ?_ i
  · intro u v _ ih hs i
    cases hs with
    | @perform j o k r sh run handled _ startable =>
      have hspawned := (listingEffect_of_handle handled).spawned
      refine ⟨?_, fun n => ?_⟩
      · rw [World.record_shared, World.record_log, World.launch_log, World.put_log, hspawned]
        by_cases hij : i = j
        · subst hij
          rw [Function.update_self, traceOf_snoc_self, List.flatMap_append, List.length_append,
            (ih i).spawned]
          simp
        · rw [Function.update_of_ne hij, traceOf_snoc_ne (Ne.symm hij), (ih i).spawned]
      · rw [World.record_code, World.record_log, World.launch_log, World.put_log]
        by_cases hspawn : ∃ mode subPrefix maxKeys depth, o = .spawn mode subPrefix maxKeys depth
        · obtain ⟨mode, subPrefix, maxKeys, depth, rfl⟩ := hspawn
          show Function.update u.code (u.shared.child j) _ (i ++ [n]) = _
          by_cases hij : i = j
          · subst hij
            rw [traceOf_snoc_self, List.flatMap_append]
            by_cases hn : n = u.shared.spawned i
            · subst hn
              rw [show u.shared.child i = i ++ [u.shared.spawned i] from rfl, Function.update_self,
                (ih i).spawned]
              simp [startedFor, S3Storage.subTask]
            · have hne : i ++ [n] ≠ u.shared.child i := by
                intro heq
                exact hn (by simpa [ListingState.child] using heq)
              rw [Function.update_of_ne hne, (ih i).code n]
              rcases Nat.lt_or_gt_of_ne hn with hlt | hgt
              · rw [(ih i).spawned] at hlt
                rw [List.getElem?_append_left hlt]
              · rw [(ih i).spawned] at hgt
                have hlen : ((traceOf i u.log).flatMap startedFor ++ [(mode, subPrefix, maxKeys,
                    depth)]).length ≤ n := by
                  rw [List.length_append, List.length_singleton]
                  omega
                rw [List.getElem?_eq_none (Nat.le_of_lt hgt)]
                exact (congrArg (Option.map storage.subTask) (List.getElem?_eq_none hlen)).symm
          · have hne : i ++ [n] ≠ u.shared.child j := by
              intro heq
              exact hij (List.append_inj_left' heq rfl)
            rw [Function.update_of_ne hne, traceOf_snoc_ne (Ne.symm hij), (ih i).code n]
        · have hnone : (listMachine storage endpoint).spawn j u.shared o = none := by
            cases o with
            | spawn mode subPrefix maxKeys depth => exact absurd ⟨_, _, _, _, rfl⟩ hspawn
            | _ => rfl
          rw [hnone, World.launch_none, World.put_code, (ih i).code n]
          by_cases hij : i = j
          · subst hij
            have hquiet := startedFor_of_ne r fun mode subPrefix maxKeys depth heq =>
              hspawn ⟨mode, subPrefix, maxKeys, depth, heq⟩
            simp [hquiet]
          · rw [traceOf_snoc_ne (Ne.symm hij)]
    | unroll | finish | panic => exact ⟨(ih i).spawned, (ih i).code⟩
    | env henv => cases henv <;> exact ⟨(ih i).spawned, (ih i).code⟩
  · intro i
    exact ⟨rfl, fun k => by simp [listStart]⟩

/-! ### Cancellation and the channel -/

/-- What a task noticed is so, and stays so. -/
theorem flags_of_log
    (h : (listMachine storage endpoint).Reachable (listStart storage mode maxKeys) w) :
    (∀ x ∈ w.log, ListEvent.stops x.2 = true → w.shared.cancelled = true ∨ w.shared.closed = true) ∧
      ∀ x ∈ w.log, x.2 = ⟨.cancel, ()⟩ → w.shared.cancelled = true := by
  refine h.invariant (P := fun w => (∀ x ∈ w.log, ListEvent.stops x.2 = true →
    w.shared.cancelled = true ∨ w.shared.closed = true) ∧
      ∀ x ∈ w.log, x.2 = ⟨.cancel, ()⟩ → w.shared.cancelled = true) ?_ ⟨by simp [listStart], by simp [listStart]⟩
  rintro u v - ⟨hstops, hcancel⟩ hs
  cases hs with
  | @perform j o k r sh run handled _ startable =>
    have heff := listingEffect_of_handle handled
    rw [World.record_log, World.launch_log, World.put_log, World.record_shared]
    refine ⟨fun x hx hstop => ?_, fun x hx heq => ?_⟩
    · rcases List.mem_append.mp hx with hx | hx
      · exact (hstops x hx hstop).imp heff.still_cancelled heff.closed.trans
      · obtain rfl := List.mem_singleton.mp hx
        exact heff.stops hstop
    · rcases List.mem_append.mp hx with hx | hx
      · exact heff.still_cancelled (hcancel x hx heq)
      · obtain rfl := List.mem_singleton.mp hx
        exact heff.cancels heq
  | unroll | finish | panic => exact ⟨hstops, hcancel⟩
  | env henv =>
    cases henv with
    | cancel => exact ⟨fun _ _ _ => .inl rfl, fun _ _ _ => rfl⟩
    | close => exact ⟨fun _ _ _ => .inr rfl, hcancel⟩

/-- The call itself is not dropped. -/
theorem root_not_dropped
    (h : (listMachine storage endpoint).Reachable (listStart storage mode maxKeys) w) :
    ∀ x ∈ traceOf [] w.log, ListEvent.drops x = false := by
  suffices hall : w.shared.aborted [] = false ∧ ∀ x ∈ traceOf [] w.log, ListEvent.drops x = false from
    hall.2
  refine h.invariant (P := fun w => w.shared.aborted [] = false ∧
    ∀ x ∈ traceOf [] w.log, ListEvent.drops x = false) ?_ ⟨rfl, by simp [listStart]⟩
  rintro u v hr ⟨habort, hdrops⟩ hs
  have hretire : ∀ j, (u.shared.retire j).aborted [] = false := by
    intro j
    show (u.shared.aborted [] || (u.shared.joinSet j).contains []) = false
    rw [habort, Bool.false_or]
    by_contra hmem
    rw [Bool.not_eq_false, List.contains_iff_mem] at hmem
    obtain ⟨k, hk⟩ := ((listing_books hr).members j [] hmem).1
    simp at hk
  cases hs with
  | @perform j o k r sh run handled _ startable =>
    have heff := listingEffect_of_handle handled
    rw [World.record_log, World.launch_log, World.put_log, World.record_shared, heff.aborted]
    refine ⟨habort, fun x hx => ?_⟩
    by_cases hj : j = []
    · subst hj
      rw [traceOf_snoc_self, List.mem_append] at hx
      rcases hx with hx | hx
      · exact hdrops x hx
      · obtain rfl := List.mem_singleton.mp hx
        rw [← Bool.not_eq_true]
        intro hdrop
        have hab := heff.drops hdrop
        rw [habort] at hab
        cases hab
    · rw [traceOf_snoc_ne hj] at hx
      exact hdrops x hx
  | unroll => exact ⟨habort, hdrops⟩
  | finish | panic => exact ⟨hretire _, hdrops⟩
  | env henv => cases henv <;> exact ⟨habort, hdrops⟩

/-! ### Success is complete -/

/-- **A task that has succeeded** has below it only tasks that have succeeded. -/
theorem succeeded_below
    (h : (listMachine storage endpoint).Reachable (listStart storage mode maxKeys) w)
    (hi : w.tasks i = .finished (.done (.ok ()))) {l : List Nat} (hl : w.tasks (i ++ l) ≠ .idle) :
    w.tasks (i ++ l) = .finished (.done (.ok ())) := by
  rcases l with - | ⟨k, l⟩
  · rwa [List.append_nil]
  · have hb := listing_books h
    have hsettled : w.tasks i = .idle ∨ w.Sound i ∧ w.shared.joinSet i = [] :=
      .inr ⟨(ListWorld.sound_finished hi).mpr rfl, ((hb.rows i).finished hi).2⟩
    exact (hb.settled_below hsettled (List.cons_ne_nil k l)).resolve_left hl

/-- Task `i` has listed what `p` reads: it has been through all pages, handed on
what was on them, and every sub-prefix has been listed in the same way by a task
of its own. -/
inductive Listed (storage : S3Storage) (w : ListWorld) : ListTaskId → PageSource → Prop
  | mk {i : ListTaskId} {p : PageSource} {pages : List (Cursor × p.mode.Output)}
      (paged : p.Paged {} pages) (handed : handed (traceOf i w.log) = p.handedOn pages)
      (subs : ∀ depth, p.depth = some depth → ∀ k subPrefix,
        (pages.flatMap fun q => (p.mode.toPage q.2).subPrefixes)[k]? = some subPrefix →
          Listed storage w (i ++ [k]) (storage.parallelSource p.mode subPrefix p.maxKeys (depth + 1))) :
      Listed storage w i p

theorem started_of_code
    (h : (listMachine storage endpoint).Reachable (listStart storage mode maxKeys) w)
    {p : ListTask Unit} (hp : w.code i = some p) : w.tasks i ≠ .idle := by
  have htask := h.taskOk listStart_initial i
  unfold World.TaskOk at htask
  rw [hp] at htask
  intro hidle
  rw [hidle] at htask
  exact htask.elim

/-- The sub-prefixes of all pages, in order, are those that a task was started for. -/
theorem started_of_handed {p : PageSource} {pages : List (Cursor × p.mode.Output)} {depth : Nat}
    {t : ListTrace} (hhanded : handed t = p.handedOn pages) (hdepth : p.depth = some depth) :
    t.flatMap startedFor =
      subTasks p.mode p.maxKeys depth (pages.flatMap fun q => (p.mode.toPage q.2).subPrefixes) := by
  apply (congrArg Handed.started hhanded).trans
  show (pages.flatMap fun q => p.tasks (p.mode.toPage q.2).subPrefixes) = List.map _ _
  rw [List.map_flatMap]
  unfold PageSource.tasks
  rw [hdepth]
  rfl

/-- The task of a sub-prefix. -/
theorem code_of_handed
    (h : (listMachine storage endpoint).Reachable (listStart storage mode maxKeys) w)
    {p : PageSource} {pages : List (Cursor × p.mode.Output)} {depth : Nat}
    (hhanded : handed (traceOf i w.log) = p.handedOn pages) (hdepth : p.depth = some depth) {k : Nat}
    {subPrefix : String}
    (hk : (pages.flatMap fun q => (p.mode.toPage q.2).subPrefixes)[k]? = some subPrefix) :
    w.code (i ++ [k]) = some (storage.subListing p.mode subPrefix p.maxKeys (depth + 1)) := by
  rw [(children_of_reachable h i).code k, started_of_handed hhanded hdepth, subTasks,
    List.getElem?_map, hk]
  rfl

theorem outcome_of_tasks {o : Outcome (Except Exit Unit)} (h : w.tasks i = .finished o) :
    w.outcome i = some o := by
  unfold World.outcome
  rw [h]

/-- What a task that has succeeded did itself, when nothing was cancelled and the
channel stayed open. -/
theorem pages_of_succeeded
    (h : (listMachine storage endpoint).Reachable (listStart storage mode maxKeys) w)
    (hlive : w.shared.cancelled = false) (hopen : w.shared.closed = false) {p : PageSource}
    {prog : ListTask Unit} (hcode : w.code i = some prog)
    (hprog : ∀ t r, Run prog t r → p.TaskRun t r) (hi : w.tasks i = .finished (.done (.ok ()))) :
    ∃ pages, p.Paged {} pages ∧ handed (traceOf i w.log) = p.handedOn pages := by
  have hrun := h.run listStart_initial hcode (outcome_of_tasks hi)
  rcases (hprog _ _ hrun).paged with hpages | ⟨x, hx, hstops⟩
  · exact hpages
  · rcases (flags_of_log h).1 _ (mem_traceOf.mp hx) hstops with hc | hc
    · rw [hlive] at hc
      cases hc
    · rw [hopen] at hc
      cases hc

/-- **A task that has succeeded has listed what it reads.**  The induction is on how
deep tasks can be below it. -/
theorem listed_of_succeeded
    (h : (listMachine storage endpoint).Reachable (listStart storage mode maxKeys) w)
    (hlive : w.shared.cancelled = false) (hopen : w.shared.closed = false) {n : Nat} {p : PageSource}
    {prog : ListTask Unit} (hcode : w.code i = some prog)
    (hprog : ∀ t r, Run prog t r → p.TaskRun t r) (hi : w.tasks i = .finished (.done (.ok ())))
    (hn : ∀ j, w.tasks j ≠ .idle → j.length ≤ i.length + n) : Listed storage w i p := by
  induction n generalizing i p prog with
  | zero =>
    obtain ⟨pages, hpaged, hhanded⟩ := pages_of_succeeded h hlive hopen hcode hprog hi
    refine .mk hpaged hhanded fun depth hdepth k subPrefix hk => ?_
    have hlen := hn _ (started_of_code h (code_of_handed h hhanded hdepth hk))
    rw [List.length_append, List.length_singleton] at hlen
    omega
  | succ n ih =>
    obtain ⟨pages, hpaged, hhanded⟩ := pages_of_succeeded h hlive hopen hcode hprog hi
    refine .mk hpaged hhanded fun depth hdepth k subPrefix hk => ?_
    have hchild := code_of_handed h hhanded hdepth hk
    apply ih hchild (fun t r => taskRun_subListing) (succeeded_below h hi (started_of_code h hchild))
    intro j hj
    rw [List.length_append, List.length_singleton]
    have hlen := hn j hj
    omega

theorem rootCode
    (h : (listMachine storage endpoint).Reachable (listStart storage mode maxKeys) w) :
    w.code [] = some (storage.listDispatch mode maxKeys) :=
  h.code_some listStart_initial rfl

/-! ### What goes wrong -/

/-- What a listing must not report as success. -/
inductive ListWorld.Wrong (w : ListWorld) : Prop
  /-- A page request failed. -/
  | fetch {i : ListTaskId} {mode : ListingMode} {r : ListRequest} {e : Error}
      (failed : (i, ⟨.request mode r, some (.error e)⟩) ∈ w.log)
  /-- A truncated page has no token, or that of the request, and the sending of the
  page was not interrupted. -/
  | page {i : ListTaskId} {mode : ListingMode} {r : ListRequest} {output : mode.Output}
      {t₁ t₂ : ListTrace}
      (fetched : traceOf i w.log = t₁ ++ ⟨.request mode r, some (.ok output)⟩ :: t₂)
      (truncated : (mode.toPage output).isTruncated = true)
      (stuck : (mode.toPage output).next.Given mode → (mode.toPage output).next = r.cursor)
      (sent : ∀ v, v <+: t₂ → ¬ Interrupted (mode.toPage output).objects v)
  /-- A sub-listing failed or panicked. -/
  | subListing {i : ListTaskId} {o : Outcome (Except Exit Unit)} (below : i ≠ [])
      (ended : w.outcome i = some o) (failed : o ≠ .done (.ok ()))

theorem started_of_trace
    (h : (listMachine storage endpoint).Reachable (listStart storage mode maxKeys) w)
    (hi : traceOf i w.log ≠ []) : w.tasks i ≠ .idle := by
  rcases hcode : w.code i with - | p
  · have htask := h.taskOk listStart_initial i
    unfold World.TaskOk at htask
    rw [hcode] at htask
    exact absurd htask.2 hi
  · exact started_of_code h hcode

/-- Every task that was started is a page loop. -/
theorem taskRun_of_started
    (h : (listMachine storage endpoint).Reachable (listStart storage mode maxKeys) w)
    (hi : w.tasks i ≠ .idle) : ∃ p : PageSource, ∃ prog, w.code i = some prog ∧
      ∀ t r, Run prog t r → p.TaskRun t r := by
  rcases List.eq_nil_or_concat i with rfl | ⟨j, k, rfl⟩
  · exact ⟨_, _, rootCode h, fun t r => taskRun_listDispatch⟩
  · rw [List.concat_eq_append] at hi ⊢
    have hcode := (children_of_reachable h j).code k
    rcases ha : ((traceOf j w.log).flatMap startedFor)[k]? with - | a
    · rw [ha] at hcode
      have htask := h.taskOk listStart_initial (j ++ [k])
      unfold World.TaskOk at htask
      rw [hcode] at htask
      exact absurd htask.1 hi
    · rw [ha] at hcode
      exact ⟨_, _, hcode, fun t r => taskRun_subListing⟩

theorem not_wrong_of_succeeded
    (h : (listMachine storage endpoint).Reachable (listStart storage mode maxKeys) w)
    (hroot : w.outcome [] = some (.done (.ok ()))) : ¬ ListWorld.Wrong w := by
  have hdone : ∀ i, w.tasks i ≠ .idle → w.outcome i = some (.done (.ok ())) := by
    intro i hi
    exact outcome_of_tasks (succeeded_below (l := i) h (ListWorld.tasks_of_outcome hroot) hi)
  have hrun : ∀ {i t₁ e t₂}, traceOf i w.log = t₁ ++ e :: t₂ → ListEvent.fetches e = true →
      ∃ p : PageSource, ∃ c output, p.mode.sent c = c ∧ e = p.fetched c output ∧
        ((p.mode.toPage output).isTruncated = true →
          (p.mode.toPage output).next.Given p.mode ∧ (p.mode.toPage output).next ≠ c ∨
          ∃ v, v <+: t₂ ∧ Interrupted (p.mode.toPage output).objects v) := by
    intro i t₁ e t₂ ht he
    have hi : w.tasks i ≠ .idle := started_of_trace h (by simp [ht])
    obtain ⟨p, prog, hcode, hprog⟩ := taskRun_of_started h hi
    exact ⟨p, (hprog _ _ (h.run listStart_initial hcode (hdone i hi))).at_fetch ht he⟩
  rintro (⟨failed⟩ | ⟨fetched, truncated, stuck, sent⟩ | ⟨below, ended, failed⟩)
  · obtain ⟨t₁, t₂, ht⟩ := List.append_of_mem (mem_traceOf.mpr failed)
    obtain ⟨p, c, output, -, heq, -⟩ := hrun ht rfl
    cases heq
  · obtain ⟨p, c, output, hc, heq, htrunc⟩ := hrun fetched rfl
    cases heq
    rcases htrunc truncated with ⟨hgiven, hne⟩ | ⟨v, hv, hstop⟩
    · exact hne ((stuck hgiven).trans hc)
    · exact sent v hv hstop
  · have hstarted := ListWorld.tasks_of_outcome ended
    rw [hdone _ (by simp [hstarted])] at ended
    exact failed (Option.some.inj ended).symm

/-- **A call that has returned** cancelled the run, or all its sub-listings succeeded. -/
theorem succeeded_of_live
    (h : (listMachine storage endpoint).Reachable (listStart storage mode maxKeys) w)
    {r : Except Exit Unit} (hroot : w.tasks [] = .finished (.done r)) (hlive : w.shared.cancelled = false)
    (hne : i ≠ []) (hi : w.tasks i ≠ .idle) : w.tasks i = .finished (.done (.ok ())) := by
  obtain ⟨u, hu, hret, huw, htrace⟩ := h.returned listStart_initial hroot
  have hdispatch := taskRun_listDispatch (h.run listStart_initial (rootCode h) (outcome_of_tasks hroot))
  rcases hdispatch.joinsAll with hjoins | hcancel | ⟨x, hx, hdrops⟩
  · -- when it returned, it had joined all its children
    have hsettled : (ListWorld.ledger u []).Settled := by
      unfold ListWorld.ledger
      rw [← htrace]
      exact hjoins { permit := false } ⟨rfl, rfl⟩
    have hbu := listing_books hu
    have hchild : ∀ k < w.shared.spawned [], w.tasks [k] = .finished (.done (.ok ())) := by
      intro k hk
      rw [(children_of_reachable h []).spawned, htrace, ← (children_of_reachable hu []).spawned] at hk
      rcases hbu.children [] ((ListWorld.sound_running hret).mpr hsettled.2) k hk with hc | hc
      · rw [List.eq_nil_of_length_eq_zero (((hbu.rows []).running hret).2.trans hsettled.1)] at hc
        cases hc
      · exact ListWorld.tasks_of_outcome (huw.outcome_mono (outcome_of_tasks hc))
    rcases i with - | ⟨k, l⟩
    · exact absurd rfl hne
    · by_cases hk : w.shared.spawned [] ≤ k
      · have hidle : w.tasks [k] = .idle := (listing_books h).fresh [] k hk
        rcases l with - | ⟨k', l⟩
        · exact absurd hidle hi
        · exact ((listing_books h).settled_below (.inl hidle) (List.cons_ne_nil k' l)).resolve_left hi
      · exact succeeded_below (l := l) h (hchild k (by omega)) hi
  · rw [(flags_of_log h).2 _ (mem_traceOf.mp hcancel) rfl] at hlive
    cases hlive
  · rw [root_not_dropped h x hx] at hdrops
    cases hdrops

/-- When the call succeeds undisturbed, the target is listed. -/
theorem listed_of_undisturbed
    (h : (listMachine storage endpoint).Reachable (listStart storage mode maxKeys) w)
    (hroot : w.outcome [] = some (.done (.ok ()))) (hlive : w.shared.cancelled = false)
    (hopen : w.shared.closed = false) :
    Listed storage w [] (storage.rootSource mode maxKeys) := by
  obtain ⟨S, hS, -⟩ := (listing_books h).total
  apply listed_of_succeeded h hlive hopen (n := S.sup List.length) (rootCode h)
    (fun t r => taskRun_listDispatch) (ListWorld.tasks_of_outcome hroot)
  intro j hj
  rw [List.length_nil, Nat.zero_add]
  exact Finset.le_sup (f := List.length) (hS j hj)

/-- **A listing that reports success is complete.**  When the call returns `Ok`, nothing
was cancelled and the channel stayed open, the target is listed.  Whenever
something goes wrong (`Wrong`), the call does not return `Ok` but an error; and when
a sub-listing fails or panics, the token is cancelled by then. -/
theorem listing_complete (storage : S3Storage) (endpoint : Endpoint) (mode : ListingMode)
    (maxKeys : Int) (w : ListWorld)
    (h : (listMachine storage endpoint).Reachable (listStart storage mode maxKeys) w) :
    (w.outcome [] = some (.done (.ok ())) → w.shared.cancelled = false → w.shared.closed = false →
      Listed storage w [] (storage.rootSource mode maxKeys)) ∧
    (ListWorld.Wrong w → ∀ r, w.outcome [] = some (.done r) → ∃ e, r = .error (.error e)) ∧
    ∀ i o, i ≠ [] → w.outcome i = some o → o ≠ .done (.ok ()) →
      ∀ r, w.outcome [] = some (.done r) → w.shared.cancelled = true := by
  refine ⟨listed_of_undisturbed h, fun hwrong r hroot => ?_, fun i o hne ho hfailed r hroot => ?_⟩
  · rcases r with (e | -) | ⟨⟨⟩⟩
    · exact ⟨e, rfl⟩
    · obtain ⟨x, hx, hdrops⟩ :=
        (taskRun_listDispatch (h.run listStart_initial (rootCode h) hroot)).drops
      rw [root_not_dropped h x hx] at hdrops
      cases hdrops
    · exact absurd hwrong (not_wrong_of_succeeded h hroot)
  · by_contra hlive
    have hstarted := ListWorld.tasks_of_outcome ho
    have hdone := succeeded_of_live h (ListWorld.tasks_of_outcome hroot) (by simpa using hlive) hne
      (by simp [hstarted])
    rw [hstarted] at hdone
    cases hdone
    exact hfailed rfl

/-- An entry of a sample page. -/
def sampleEntry (key : String) (size : UInt32) : Object :=
  { key, size := ⟨size.toNat, inI64_uint32 size⟩, lastModified := ⟨0, 0⟩, eTag := none }

/-- A storage with two permits, below `logs/`. -/
def logsStorage : S3Storage :=
  { config := { maxParallelListings := 2, maxParallelListingMaxDepth := 1 }
    bucket := "bucket", pathPrefix := "logs/" }

/-- Two pages below `logs/`, and one object below its sub-prefix. -/
def logsPages : (mode : ListingMode) → ListRequest → Except Error mode.Output
  | .objects, r => .ok (
    match r.pathPrefix, r.cursor.continuationToken with
    | "logs/", none =>
      { contents := [sampleEntry "logs/a" 1]
        isTruncated := some true
        nextContinuationToken := some "logs/a" }
    | "logs/", some _ => { commonPrefixes := [some "logs/b/"] }
    | _, _ => { contents := [sampleEntry "logs/b/c" 2] })
  | .versions, _ => .ok {}

/-- The run to its end, the sub-listing after the call's own two pages. -/
def logsListed : ListWorld :=
  (listMachine logsStorage (Answering logsPages)).exec (listReply logsPages)
    (listStart logsStorage .objects 1) (.replicate 20 [] ++ .replicate 10 [0] ++ .replicate 4 [])

theorem listing_complete_logsListed :
    Listed logsStorage logsListed [] (logsStorage.rootSource .objects 1) :=
  (listing_complete logsStorage (Answering logsPages) .objects 1 logsListed
    (Machine.exec_sound listReply_admits _ _)).1 (by decide +kernel) rfl rfl

/-! ### Where less is listed -/

/-- One object, and more to come, but no token to go on with. -/
def noToken : (mode : ListingMode) → ListRequest → Except Error mode.Output
  | .objects, _ => .ok { contents := [sampleEntry "a" 1], isTruncated := some true }
  | .versions, _ => .ok {}

def onePermit : S3Storage :=
  { config := { maxParallelListings := 1 }, bucket := "bucket", pathPrefix := "" }

/-- The page is there. -/
def noTokenFetched : ListWorld :=
  (listMachine onePermit (Answering noToken)).exec (listReply noToken)
    (listStart onePermit .objects 1) (.replicate 4 [])

/-- The token is cancelled before the page is sent. -/
def noTokenEnd : ListWorld :=
  (listMachine onePermit (Answering noToken)).exec (listReply noToken)
    (noTokenFetched.withShared { noTokenFetched.shared with cancelled := true }) (.replicate 4 [])

theorem noTokenEnd_reachable :
    (listMachine onePermit (Answering noToken)).Reachable (listStart onePermit .objects 1) noTokenEnd :=
  ((Machine.exec_sound listReply_admits _ _).tail (.env (ListingState.Env.cancel _))).trans
    (Machine.exec_sound listReply_admits _ _)

/-- The empty string for a sub-prefix. -/
def emptySubPrefix : (mode : ListingMode) → ListRequest → Except Error mode.Output
  | .objects, r => .ok (if r.delimiter = none then {} else { commonPrefixes := [some ""] })
  | .versions, _ => .ok {}

/-- The empty sub-prefix has been listed as if it were `logs/`. -/
def emptySubPrefixEnd : ListWorld :=
  (listMachine logsStorage (Answering emptySubPrefix)).exec (listReply emptySubPrefix)
    (listStart logsStorage .objects 1) (.replicate 12 [] ++ .replicate 8 [0] ++ .replicate 4 [])

/-- A page request for this prefix. -/
def ListOp.asksFor (pathPrefix : String) : ListOp → Bool
  | .request _ r => r.pathPrefix == pathPrefix
  | _ => false

/-- Not every truncated page of a call that returns `Ok` has a token, and not every
sub-prefix has been asked for. -/
theorem listing_complete_fails :
    (¬ ∀ (storage : S3Storage) (endpoint : Endpoint) (mode : ListingMode) (maxKeys : Int) (w : ListWorld)
      (i : ListTaskId) (r : ListRequest) (output : mode.Output),
      (listMachine storage endpoint).Reachable (listStart storage mode maxKeys) w →
      w.outcome [] = some (.done (.ok ())) → (i, ⟨.request mode r, some (.ok output)⟩) ∈ w.log →
      (mode.toPage output).isTruncated = true → (mode.toPage output).next.Given mode) ∧
    ¬ ∀ (storage : S3Storage) (endpoint : Endpoint) (mode : ListingMode) (maxKeys : Int) (w : ListWorld)
      (i : ListTaskId) (r : ListRequest) (output : mode.Output) (subPrefix : String),
      (listMachine storage endpoint).Reachable (listStart storage mode maxKeys) w →
      w.outcome [] = some (.done (.ok ())) → w.shared.cancelled = false → w.shared.closed = false →
      storage.usesParallel = true → (i, ⟨.request mode r, some (.ok output)⟩) ∈ w.log →
      subPrefix ∈ (mode.toPage output).subPrefixes →
      ∃ x ∈ w.log, ∃ r' answer, x.2 = ⟨.request mode r', answer⟩ ∧ r'.pathPrefix = subPrefix := by
  constructor
  · intro hall
    have hgiven := hall onePermit (Answering noToken) .objects 1 noTokenEnd []
      { bucket := "bucket", pathPrefix := "", delimiter := none, maxKeys := 1, cursor := {} }
      { contents := [sampleEntry "a" 1], isTruncated := some true } noTokenEnd_reachable
      (by decide +kernel) (List.mem_of_getElem? (i := 2) rfl) rfl
    exact hgiven rfl
  · intro hall
    obtain ⟨x, hx, r, answer, heq, hr⟩ := hall logsStorage (Answering emptySubPrefix) .objects 1
      emptySubPrefixEnd []
      { bucket := "bucket", pathPrefix := "logs/", delimiter := some "/", maxKeys := 1, cursor := {} }
      { commonPrefixes := [some ""] } "" (Machine.exec_sound listReply_admits _ _)
      (by decide +kernel) rfl rfl rfl (List.mem_of_getElem? (i := 3) rfl) (by decide)
    have hlogs : ∀ x ∈ emptySubPrefixEnd.log, x.2.1.asksFor "" = false := by decide +kernel
    have hno := hlogs x hx
    rw [heq, show ListOp.asksFor "" (.request .objects r) = (r.pathPrefix == "") from rfl, hr] at hno
    exact absurd hno (by decide)

end S3rm
