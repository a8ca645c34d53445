/-
S3rm/Pagination.lean

Pagination of a sequential listing against an endpoint that answers a page
request by a function of its token, or pair of markers.  `list_sequential` only
compares a token with the one before it, so it returns exactly when following
the tokens never comes back to one (`listSequential_returns_iff`); an endpoint
whose tokens take turns keeps it going for ever (`listSequential_loops`).
-/
import S3rm.Conc.Loops
import S3rm.Storage.Pages

namespace S3rm

open Conc Conc.Prog ListTask

/-- What such an endpoint answers. -/
abbrev PageAnswers := (mode : ListingMode) → Cursor → Except Error mode.Output

/-- The reader keeps receiving, nothing is cancelled, and the endpoint answers
each page request by `answer`. -/
def Served (answer : PageAnswers) : ListEvent → Prop
  | ⟨.isCancelled, cancelled⟩ => cancelled = false
  | ⟨.rateLimit, r⟩ => r = some ()
  | ⟨.request mode q, r⟩ => r = some (answer mode q.cursor)
  | ⟨.send _, r⟩ => r = some true
  | _ => False

/-- The endpoint answers the cursor `c` by a truncated page that goes on at the
cursor `c'`, another one. -/
def Follows (answer : PageAnswers) (mode : ListingMode) (c c' : Cursor) : Prop :=
  ∃ output, answer mode c = .ok output ∧ (mode.toPage output).isTruncated = true ∧
    (mode.toPage output).next = c' ∧ c'.Given mode ∧ c' ≠ c

/-- The tokens, or pairs of markers, that the endpoint gives out. -/
def PageAnswers.tokens (answer : PageAnswers) (mode : ListingMode) : Set Cursor :=
  {n | ∃ c output, answer mode c = .ok output ∧ (mode.toPage output).next = n}

/-- `list_sequential` issues finitely many requests and returns `Ok` or `Err`:
there is one complete run, and whatever it does is a beginning of it. -/
def SequentialReturns (storage : S3Storage) (mode : ListingMode) (maxKeys : Int)
    (answer : PageAnswers) : Prop :=
  ∃ t r, Run (storage.listSequential mode maxKeys) t r ∧ (∀ e ∈ t, Served answer e) ∧
    (r = .ok () ∨ ∃ e, r = .error (.error e)) ∧
    ∀ u, Part (storage.listSequential mode maxKeys) u → (∀ e ∈ u, Served answer e) → u <+: t

section pagination

variable {storage : S3Storage} {mode : ListingMode} {maxKeys : Int} {answer : PageAnswers}

theorem served_determined (o : ListOp) (r r' : ListResp o) (h : Served answer ⟨o, r⟩)
    (h' : Served answer ⟨o, r'⟩) : r = r' := by
  cases o with
  | isCancelled | rateLimit | request | send => exact h.trans h'.symm
  | start | isClosed | acquire | release | spawn | joinNext | cancel => exact h.elim

/-- How the loop goes on after the page of the cursor `c`. -/
def S3Storage.afterPage (storage : S3Storage) (mode : ListingMode) (answer : PageAnswers) (c : Cursor) :
    Cursor ⊕ Except Exit Unit :=
  match answer mode c with
  | .error e => .inr (.error (.error (.context ("aws_sdk_s3::client::" ++ mode.callName ++
      "() failed. s3://" ++ storage.bucket ++ "/" ++ storage.pathPrefix) e)))
  | .ok output =>
    let page := mode.toPage output
    if page.isTruncated then
      match storage.nextCursor mode storage.pathPrefix c page with
      | .ok next => .inl next
      | .error e => .inr (.error (.error e))
    else .inr (.ok ())

theorem sends_served (objects : List S3Object) : ∀ e ∈ sends objects, Served answer e := by
  intro e he
  obtain ⟨o, -, he⟩ := List.mem_flatMap.mp he
  simp only [List.mem_cons, List.not_mem_nil, or_false] at he
  rcases he with rfl | rfl <;> rfl

/-- The page request of a turn, answered. -/
def pageRequest (storage : S3Storage) (mode : ListingMode) (maxKeys : Int) (answer : PageAnswers)
    (c : Cursor) : ListTrace :=
  [⟨.isCancelled, false⟩, ⟨.rateLimit, some ()⟩, ⟨.request mode
    { bucket := storage.bucket, pathPrefix := storage.pathPrefix, delimiter := none, maxKeys,
      cursor := mode.sent c }, some (answer mode (mode.sent c))⟩]

theorem pageRequest_served (c : Cursor) :
    ∀ e ∈ pageRequest storage mode maxKeys answer c, Served answer e := by
  intro e he
  simp only [pageRequest, List.mem_cons, List.not_mem_nil, or_false] at he
  rcases he with rfl | rfl | rfl <;> rfl

/-- **One turn** against the endpoint goes on as its answer says. -/
theorem sequentialTurn_run (c : Cursor) (hc : mode.sent c = c) :
    ∃ u, Turn (storage.sequentialTurn mode maxKeys) c u (storage.afterPage mode answer c) ∧
      ∀ e ∈ u, Served answer e := by
  unfold S3Storage.afterPage
  rcases hpage : answer mode c with e | output
  · refine ⟨pageRequest storage mode maxKeys answer c, ?_, pageRequest_served c⟩
    have hsent : answer mode (mode.sent c) = .error e := by rw [hc, hpage]
    unfold pageRequest
    rw [hsent]
    exact ⟨false, _, rfl, some (), _, rfl, some (.error e), [], rfl, rfl, rfl⟩
  · refine ⟨pageRequest storage mode maxKeys answer c ++ sends (mode.toPage output).objects, ?_, ?_⟩
    · have hsent : answer mode (mode.sent c) = .ok output := by rw [hc, hpage]
      unfold pageRequest
      rw [hsent]
      refine ⟨false, _, rfl, some (), _, rfl, some (.ok output), _, rfl, ?_⟩
      apply run_fallible_bind.mpr
      refine .inr ⟨_, false, [], (List.append_nil _).symm, run_sendListedObjects _, ?_⟩
      by_cases htrunc : (mode.toPage output).isTruncated = true
      · rcases hnext : storage.nextCursor mode storage.pathPrefix c (mode.toPage output) with e | next
        · simp only [htrunc, hnext, if_true]
          exact ⟨rfl, rfl⟩
        · simp only [htrunc, hnext, if_true]
          exact ⟨rfl, rfl⟩
      · simp only [htrunc]
        exact ⟨rfl, rfl⟩
    · intro e he
      rcases List.mem_append.mp he with he | he
      · exact pageRequest_served c e he
      · exact sends_served _ e he

theorem afterPage_eq_inl {c c' : Cursor} (hc : mode.sent c = c) :
    storage.afterPage mode answer c = .inl c' ↔ Follows answer mode c c' := by
  unfold S3Storage.afterPage Follows
  rcases hpage : answer mode c with e | output
  · simp
  · simp only [Except.ok.injEq, exists_eq_left']
    by_cases htrunc : (mode.toPage output).isTruncated = true
    · rw [if_pos htrunc, ← @nextCursor_eq storage mode storage.pathPrefix c c' hc]
      rcases storage.nextCursor mode storage.pathPrefix c (mode.toPage output) with e | next
      · simp
      · simp [htrunc]
    · simp [htrunc]

/-- The loop of `list_sequential` is determined by the endpoint. -/
theorem sequential_determined :
    Determined (Served answer) (storage.sequentialTurn mode maxKeys) (fun c => mode.sent c = c)
      (storage.afterPage mode answer) where
  answers := served_determined
  turn := sequentialTurn_run
  good c c' hc h := by
    obtain ⟨output, -, -, rfl, -, -⟩ := (afterPage_eq_inl hc).mp h
    cases mode <;> rfl

/-- Only cursors of the mode come up. -/
theorem sent_of_follows {c c' : Cursor} (h : Follows answer mode c c') : mode.sent c' = c' := by
  obtain ⟨output, -, -, rfl, -, -⟩ := h
  cases mode <;> rfl

/-- Cursors of the mode are accessible by the loop as by the endpoint's tokens. -/
theorem acc_follows_iff {c : Cursor} (hc : mode.sent c = c) :
    Acc (fun c' c => storage.afterPage mode answer c = .inl c') c ↔
      Acc (Function.swap (Follows answer mode)) c := by
  constructor
  · intro h
    induction h with
    | intro c _ ih =>
      exact Acc.intro c fun c' h => ih c' ((afterPage_eq_inl hc).mpr h) (sent_of_follows h)
  · intro h
    induction h with
    | intro c _ ih =>
      apply Acc.intro c
      intro c' h
      have hfollows := (afterPage_eq_inl hc).mp h
      exact ih c' hfollows (sent_of_follows hfollows)

/-- Finitely many tokens, finitely many cursors on the way. -/
theorem finite_path (hfin : (answer.tokens mode).Finite) (c : Cursor) :
    {c' | Relation.ReflTransGen (Follows answer mode) c c'}.Finite := by
  apply (hfin.insert c).subset
  intro c' h
  rcases Relation.ReflTransGen.cases_tail h with rfl | ⟨b, -, output, hb, -, hnext, -⟩
  · exact Set.mem_insert _ _
  · exact Set.mem_insert_of_mem _ ⟨b, output, hb, hnext⟩

/-- A turn against the endpoint is not dropped. -/
theorem afterPage_ne_aborted {c : Cursor} {r : Except Exit Unit}
    (h : storage.afterPage mode answer c = .inr r) : r = .ok () ∨ ∃ e, r = .error (.error e) := by
  unfold S3Storage.afterPage at h
  rcases hpage : answer mode c with e | output
  · rw [hpage] at h
    obtain rfl := Sum.inr.inj h
    exact .inr ⟨_, rfl⟩
  · simp only [hpage] at h
    split at h
    · rcases hnext : storage.nextCursor mode storage.pathPrefix c (mode.toPage output) with e | next
      · rw [hnext] at h
        obtain rfl := Sum.inr.inj h
        exact .inr ⟨_, rfl⟩
      · rw [hnext] at h
        cases h
    · obtain rfl := Sum.inr.inj h
      exact .inl rfl

end pagination

/-- A sequential listing returns when the chain of its tokens ends. -/
theorem sequentialReturns_iff_acc {storage : S3Storage} {mode : ListingMode} {maxKeys : Int}
    {answer : PageAnswers} : SequentialReturns storage mode maxKeys answer ↔
      Acc (Function.swap (Follows answer mode)) {} := by
  have hfirst : mode.sent ({} : Cursor) = {} := by cases mode <;> rfl
  have hdet : Determined (Served answer) (storage.sequentialTurn mode maxKeys)
    (fun c => mode.sent c = c) (storage.afterPage mode answer) := sequential_determined
  rw [← @acc_follows_iff storage mode answer _ hfirst, ← hdet.returns_iff hfirst]
  constructor
  · rintro ⟨t, r, hrun, ht, -, -⟩
    exact ⟨t, r, hrun, ht⟩
  · rintro ⟨t, r, hrun, ht⟩
    refine ⟨t, r, hrun, ht, ?_, fun u hu hserved => ?_⟩
    · obtain ⟨c, -, hlast⟩ := hdet.last_turn hfirst hrun ht
      exact afterPage_ne_aborted hlast
    · exact Part.isPrefix_of_run served_determined hu hrun hserved ht

/-- **When a sequential listing returns**: exactly when following the endpoint's
tokens from the first request never comes back to one. -/
theorem listSequential_returns_iff (storage : S3Storage) (mode : ListingMode) (maxKeys : Int)
    (answer : PageAnswers) (hfin : (answer.tokens mode).Finite) :
    SequentialReturns storage mode maxKeys answer ↔
      ¬ ∃ c, Relation.ReflTransGen (Follows answer mode) {} c ∧
        Relation.TransGen (Follows answer mode) c c := by
  rw [← acc_iff_no_cycle (finite_path hfin {})]
  exact sequentialReturns_iff_acc

/-! ### Endpoints -/

/-- After the first page comes the token `first`, and after the page of a token
what `step` says. -/
def nextToken (first : Option String) (step : String → Option String) (c : Cursor) : Option String :=
  match c.continuationToken with
  | none => first
  | some token => step token

/-- Empty pages, for as long as there is a next token. -/
def tokenPages (first : Option String) (step : String → Option String) : PageAnswers
  | .objects, c => .ok { isTruncated := some (nextToken first step c).isSome
                         nextContinuationToken := nextToken first step c }
  | .versions, _ => .ok {}

theorem tokenPages_finite {first : Option String} {step : String → Option String}
    (T : Set (Option String)) (hfin : T.Finite) (hT : ∀ c, nextToken first step c ∈ T) :
    ((tokenPages first step).tokens .objects).Finite := by
  apply (hfin.image fun token => ({ continuationToken := token } : Cursor)).subset
  rintro n ⟨c, output, hc, rfl⟩
  obtain rfl := Except.ok.inj hc
  exact ⟨_, hT c, rfl⟩

theorem tokenPages_follows {first : Option String} {step : String → Option String} {c c' : Cursor} :
    Follows (tokenPages first step) .objects c c' ↔ ∃ token, nextToken first step c = some token ∧
      c' = { continuationToken := some token } ∧ c' ≠ c := by
  constructor
  · rintro ⟨output, hc, -, rfl, hgiven, hne⟩
    obtain rfl := Except.ok.inj hc
    obtain ⟨token, htoken⟩ := Option.ne_none_iff_exists'.mp hgiven
    refine ⟨token, htoken, ?_, hne⟩
    exact congrArg (fun token => ({ continuationToken := token } : Cursor)) htoken
  · rintro ⟨token, htoken, rfl, hne⟩
    refine ⟨_, rfl, ?_, ?_, Option.some_ne_none token, hne⟩
    · simp [ListingMode.toPage, htoken]
    · simp [ListingMode.toPage, htoken]

/-- Two pages. -/
def twoPages : PageAnswers := tokenPages (some "a") fun _ => none

/-- After the first page, the tokens `a` and `b` take turns. -/
def turnAbout : PageAnswers :=
  tokenPages (some "a") fun token => if token = "a" then some "b" else some "a"

def sampleStorage : S3Storage := { config := {}, bucket := "bucket", pathPrefix := "" }

theorem listSequential_returns_twoPages :
    SequentialReturns sampleStorage .objects 1000 twoPages := by
  apply (listSequential_returns_iff sampleStorage .objects 1000 twoPages ?_).mpr
  · -- a cursor that is followed has no token, and one that follows has
    rintro ⟨c, -, hcycle⟩
    obtain ⟨c', hfirst, -⟩ := Relation.TransGen.head'_iff.mp hcycle
    obtain ⟨c'', -, hlast⟩ := Relation.TransGen.tail'_iff.mp hcycle
    obtain ⟨token, htoken, -, -⟩ := tokenPages_follows.mp hfirst
    obtain ⟨token', -, rfl, -⟩ := tokenPages_follows.mp hlast
    cases htoken
  · apply tokenPages_finite {some "a", none} (Set.toFinite _)
    intro c
    unfold nextToken
    split <;> simp

theorem listSequential_loops :
    ¬ ∀ (storage : S3Storage) (mode : ListingMode) (maxKeys : Int) (answer : PageAnswers),
      (answer.tokens mode).Finite → SequentialReturns storage mode maxKeys answer := by
  intro hall
  have hfin : (turnAbout.tokens .objects).Finite := by
    apply tokenPages_finite {some "a", some "b"} (Set.toFinite _)
    intro c
    unfold nextToken
    split
    · simp
    · rename_i token _
      by_cases ha : token = "a" <;> simp [ha]
  have hacc := sequentialReturns_iff_acc.mp (hall sampleStorage .objects 1000 turnAbout hfin)
  apply no_cycle_of_acc hacc
  have hfirst : Follows turnAbout .objects {} { continuationToken := some "a" } := by
    apply tokenPages_follows.mpr
    exact ⟨"a", rfl, rfl, by decide⟩
  have hab : Follows turnAbout .objects { continuationToken := some "a" }
      { continuationToken := some "b" } := by
    apply tokenPages_follows.mpr
    exact ⟨"b", rfl, rfl, by decide⟩
  have hba : Follows turnAbout .objects { continuationToken := some "b" }
      { continuationToken := some "a" } := by
    apply tokenPages_follows.mpr
    exact ⟨"a", rfl, rfl, by decide⟩
  exact ⟨_, .single hfirst, (Relation.TransGen.single hab).tail hba⟩

end S3rm
