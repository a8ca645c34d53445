/-
S3rm/Storage/Bucket.lean

S3, as the listing sees it.  A listing of a prefix enumerates, in the order of
the keys, the entries under it; with a delimiter, entries with the delimiter
behind the prefix are left out, and their groups, the common prefixes, are
enumerated instead.  A page holds at most `max_keys` of the items that are left
at its cursor, and names a cursor for what is left after it.

    sum_items        the entries of a listing, and those under its common
                     prefixes, are the entries under the prefix
    Paged.items      the pages of a loop hold what its listing enumerates
-/
import Mathlib.Data.List.Sort
import S3rm.Storage.Pages
import S3rm.Text.Groups

namespace S3rm

open Text

/-- The content of a bucket. -/
structure Bucket where
  objects : List Object := []
  versions : List ObjectVersion := []
  deleteMarkers : List DeleteMarkerEntry := []

/-- What a listing enumerates. -/
inductive Item where
  | entry (o : S3Object)
  | commonPrefix (name : String)
  deriving DecidableEq

namespace Item

def key : Item → String
  | entry o => o.key
  | commonPrefix name => name

def entry? : Item → Option S3Object
  | entry o => some o
  | commonPrefix _ => none

def commonPrefix? : Item → Option String
  | entry _ => none
  | commonPrefix name => some name

end Item

/-- The common prefix an object is grouped under: `pathPrefix` and what follows
it, up to and including the first delimiter. -/
def S3Object.group (delimiter pathPrefix : String) (o : S3Object) : Option String :=
  (groupOf delimiter.toList pathPrefix.toList o.key.toList).map String.ofList

namespace Bucket

variable (bucket : Bucket) (mode : ListingMode)

def entries : ListingMode → List S3Object
  | .objects => bucket.objects.map .notVersioning
  | .versions => bucket.versions.map .versioning ++ bucket.deleteMarkers.map .deleteMarker

/-- The entries under a prefix. -/
def under (pathPrefix : String) : List S3Object :=
  (bucket.entries mode).filter fun o => startsWith o.key pathPrefix

/-- The common prefixes, once each. -/
def commonPrefixes (pathPrefix delimiter : String) : List String :=
  ((bucket.under mode pathPrefix).filterMap (S3Object.group delimiter pathPrefix)).dedup

/-- The entries that a listing enumerates, and its common prefixes. -/
def found (pathPrefix : String) : Option String → List Item
  | none => (bucket.under mode pathPrefix).map Item.entry
  | some delimiter =>
    ((bucket.under mode pathPrefix).filter fun o => S3Object.group delimiter pathPrefix o = none).map
        Item.entry ++
      (bucket.commonPrefixes mode pathPrefix delimiter).map Item.commonPrefix

/-- What a listing enumerates, in the order of the keys. -/
def items (pathPrefix : String) (delimiter : Option String) : List Item :=
  (bucket.found mode pathPrefix delimiter).insertionSort fun x y => x.key ≤ y.key

theorem items_perm (pathPrefix : String) (delimiter : Option String) :
    (bucket.items mode pathPrefix delimiter).Perm (bucket.found mode pathPrefix delimiter) :=
  List.perm_insertionSort _ _

/-! ### Groups -/

section groups

variable {bucket mode} {pathPrefix delimiter name : String}

theorem startsWith_iff_prefix {s start : String} : startsWith s start ↔ start.toList <+: s.toList := by
  rw [startsWith, List.isPrefixOf_iff_prefix]

/-- **The entries under a common prefix** are those grouped there. -/
theorem under_commonPrefix (h : name ∈ bucket.commonPrefixes mode pathPrefix delimiter) :
    bucket.under mode name =
      (bucket.under mode pathPrefix).filter fun o => o.group delimiter pathPrefix = some name := by
  obtain ⟨o, ho, hname⟩ := List.mem_filterMap.mp (List.mem_dedup.mp h)
  obtain ⟨cs, hcs, rfl⟩ := Option.map_eq_some_iff.mp hname
  have hstart := startsWith_iff_prefix.mp (List.mem_filter.mp ho).2
  unfold under
  rw [List.filter_filter]
  apply List.filter_congr
  intro o' _
  rw [Bool.eq_iff_iff, startsWith_iff_prefix, String.toList_ofList, Bool.and_eq_true, decide_eq_true_eq,
    startsWith_iff_prefix, prefix_group_iff hstart hcs, and_comm]
  apply and_congr_left'
  unfold S3Object.group
  rw [Option.map_eq_some_iff]
  constructor
  · intro hgroup
    exact ⟨cs, hgroup, rfl⟩
  · rintro ⟨cs', hgroup, heq⟩
    rwa [← String.ofList_inj.mp heq]

/-- **What is enumerated, and what is under the common prefixes**, is what is under
the prefix. -/
theorem sum_commonPrefixes :
    (↑((bucket.under mode pathPrefix).filter fun o => o.group delimiter pathPrefix = none) :
        Multiset S3Object) +
      ((bucket.commonPrefixes mode pathPrefix delimiter).map fun name =>
        (↑(bucket.under mode name) : Multiset S3Object)).sum = ↑(bucket.under mode pathPrefix) := by
  have hmem : ∀ name, name ∈ bucket.commonPrefixes mode pathPrefix delimiter ↔
      ∃ o ∈ (↑(bucket.under mode pathPrefix) : Multiset S3Object),
        o.group delimiter pathPrefix = some name := by
    intro name
    unfold commonPrefixes
    rw [List.mem_dedup, List.mem_filterMap]
    rfl
  rw [← sum_groups (S3Object.group delimiter pathPrefix) ↑(bucket.under mode pathPrefix)
    (List.nodup_dedup _) hmem, Multiset.filter_coe]
  congr 2
  apply List.map_congr_left
  intro name hname
  rw [under_commonPrefix hname, Multiset.filter_coe]

section read

variable (os : List S3Object) (names : List String)

@[simp] theorem entry?_entries : (os.map Item.entry).filterMap Item.entry? = os := by
  simp [List.filterMap_map, Function.comp_def, Item.entry?]

@[simp] theorem commonPrefix?_entries : (os.map Item.entry).filterMap Item.commonPrefix? = [] := by
  simp [Item.commonPrefix?]

@[simp] theorem entry?_names : (names.map Item.commonPrefix).filterMap Item.entry? = [] := by
  simp [Item.entry?]

@[simp] theorem commonPrefix?_names :
    (names.map Item.commonPrefix).filterMap Item.commonPrefix? = names := by
  simp [List.filterMap_map, Function.comp_def, Item.commonPrefix?]

end read

/-- Without a delimiter there are no common prefixes. -/
theorem names_items_none :
    (bucket.items mode pathPrefix none).filterMap Item.commonPrefix? = [] := by
  have hperm := (bucket.items_perm mode pathPrefix none).filterMap Item.commonPrefix?
  unfold found at hperm
  rw [commonPrefix?_entries] at hperm
  exact hperm.eq_nil

/-- **A listing and its sub-listings** find what is under the prefix. -/
theorem sum_items (delimiter : Option String) :
    (↑((bucket.items mode pathPrefix delimiter).filterMap Item.entry?) : Multiset S3Object) +
      (((bucket.items mode pathPrefix delimiter).filterMap Item.commonPrefix?).map fun name =>
        (↑(bucket.under mode name) : Multiset S3Object)).sum = ↑(bucket.under mode pathPrefix) := by
  have hperm := bucket.items_perm mode pathPrefix delimiter
  rw [Multiset.coe_eq_coe.mpr (hperm.filterMap Item.entry?),
    ((hperm.filterMap Item.commonPrefix?).map _).sum_eq]
  cases delimiter with
  | none =>
    unfold found
    rw [entry?_entries, commonPrefix?_entries, List.map_nil, List.sum_nil, add_zero]
  | some delimiter =>
    unfold found
    rw [List.filterMap_append, List.filterMap_append, entry?_entries, commonPrefix?_entries, entry?_names,
      commonPrefix?_names, List.append_nil, List.nil_append]
    exact sum_commonPrefixes

/-- Common prefixes are not empty. -/
theorem ne_empty_of_mem_items (hd : delimiter ≠ "")
    (h : name ∈ (bucket.items mode pathPrefix (some delimiter)).filterMap Item.commonPrefix?) :
    name ≠ "" := by
  obtain ⟨x, hx, hname⟩ := List.mem_filterMap.mp h
  cases x with
  | entry => cases hname
  | commonPrefix name' =>
    cases hname
    have hmem := (bucket.items_perm mode pathPrefix (some delimiter)).mem_iff.mp hx
    unfold found at hmem
    simp only [List.mem_append, List.mem_map, reduceCtorEq, and_false, exists_false, false_or,
      Item.commonPrefix.injEq, exists_eq_right] at hmem
    obtain ⟨o, -, ho⟩ := List.mem_filterMap.mp (List.mem_dedup.mp hmem)
    obtain ⟨cs, hcs, rfl⟩ := Option.map_eq_some_iff.mp ho
    intro hempty
    refine ne_nil_of_groupOf ?_ hcs ?_
    · rwa [Ne, String.toList_eq_nil_iff]
    · rw [← String.toList_ofList (l := cs), hempty]
      rfl

end groups

end Bucket

/-! ### Pages -/

/-- The answer holds these items. -/
def ListingMode.Holds : (mode : ListingMode) → mode.Output → List Item → Prop
  | .objects, output, page =>
    output.contents.map .notVersioning = page.filterMap Item.entry? ∧
      output.commonPrefixes = (page.filterMap Item.commonPrefix?).map some
  | .versions, output, page =>
    output.versions.map .versioning = (page.filterMap Item.entry?).filter (!·.isDeleteMarker) ∧
      output.deleteMarkers.map .deleteMarker = (page.filterMap Item.entry?).filter (·.isDeleteMarker) ∧
      output.commonPrefixes = (page.filterMap Item.commonPrefix?).map some

/-- The answer ends the listing. -/
def ListingMode.Last : (mode : ListingMode) → mode.Output → Prop
  | .objects, output => output.isTruncated ≠ some true
  | .versions, output => output.isTruncated ≠ some true

/-- The answer says that the listing goes on at this cursor. -/
def ListingMode.GoesOn : (mode : ListingMode) → mode.Output → Cursor → Prop
  | .objects, output, next =>
    output.isTruncated = some true ∧ ∃ token, output.nextContinuationToken = some token ∧
      next = { continuationToken := some token }
  | .versions, output, next =>
    output.isTruncated = some true ∧ ∃ keyMarker, output.nextKeyMarker = some keyMarker ∧
      next = { keyMarker := some keyMarker, versionIdMarker := output.nextVersionIdMarker }

/-- S3 with this bucket: what a cursor stands for. -/
structure S3 (bucket : Bucket) where
  /-- What is left to enumerate at a cursor. -/
  left : ListingMode → (pathPrefix : String) → (delimiter : Option String) → Cursor → List Item
  left_start : ∀ mode pathPrefix delimiter,
    left mode pathPrefix delimiter {} = bucket.items mode pathPrefix delimiter

namespace S3

variable {bucket : Bucket} (s3 : S3 bucket)

/-- A page: at most `max_keys` of the items that are left, and a fresh cursor for
the others. -/
def Answers (mode : ListingMode) (r : ListRequest) (output : mode.Output) : Prop :=
  ∃ page rest, s3.left mode r.pathPrefix r.delimiter r.cursor = page ++ rest ∧
    page.length ≤ r.maxKeys.toNat ∧ mode.Holds output page ∧
    (rest = [] ∧ mode.Last output ∨ rest ≠ [] ∧ ∃ next, mode.GoesOn output next ∧
      next ≠ r.cursor ∧ s3.left mode r.pathPrefix r.delimiter next = rest)

/-- Every page request gets its page. -/
def endpoint : Endpoint := fun mode r answer => ∃ output, answer = .ok output ∧ s3.Answers mode r output

end S3

section pages

variable {bucket : Bucket} {s3 : S3 bucket} {mode : ListingMode} {output : mode.Output}

/-- `fetch_list_page` finds the items that the answer holds. -/
theorem toPage_of_holds {page : List Item} (h : mode.Holds output page) :
    (↑(mode.toPage output).objects : Multiset S3Object) = ↑(page.filterMap Item.entry?) ∧
      (mode.toPage output).subPrefixes = page.filterMap Item.commonPrefix? := by
  cases mode with
  | objects =>
    obtain ⟨hcontents, hnames⟩ := h
    refine ⟨congrArg _ hcontents, ?_⟩
    show output.commonPrefixes.filterMap id = _
    rw [hnames]
    simp [List.filterMap_map]
  | versions =>
    obtain ⟨hversions, hmarkers, hnames⟩ := h
    constructor
    · show (↑(output.versions.map S3Object.versioning ++ output.deleteMarkers.map S3Object.deleteMarker) :
        Multiset S3Object) = _
      rw [hversions, hmarkers, ← Multiset.coe_add, add_comm]
      have hsplit := Multiset.filter_add_not (fun o : S3Object => o.isDeleteMarker)
        ↑(page.filterMap Item.entry?)
      simpa using hsplit
    · show output.commonPrefixes.filterMap id = _
      rw [hnames]
      simp [List.filterMap_map]

theorem toPage_of_last (h : mode.Last output) : (mode.toPage output).isTruncated = false := by
  cases mode <;> exact beq_false_of_ne h

theorem toPage_of_goesOn {next : Cursor} (h : mode.GoesOn output next) :
    (mode.toPage output).isTruncated = true ∧ (mode.toPage output).next = next ∧ next.Given mode := by
  cases mode with
  | objects =>
    obtain ⟨htruncated, token, htoken, rfl⟩ := h
    refine ⟨beq_iff_eq.mpr htruncated, ?_, nofun⟩
    show ({ continuationToken := output.nextContinuationToken } : Cursor) = _
    rw [htoken]
  | versions =>
    obtain ⟨htruncated, keyMarker, hmarker, rfl⟩ := h
    refine ⟨beq_iff_eq.mpr htruncated, ?_, nofun⟩
    show ({ keyMarker := output.nextKeyMarker, versionIdMarker := output.nextVersionIdMarker } :
      Cursor) = _
    rw [hmarker]

/-- A truncated page says where to go on. -/
theorem S3.Answers.next {r : ListRequest} (h : s3.Answers mode r output)
    (htruncated : (mode.toPage output).isTruncated = true) :
    (mode.toPage output).next.Given mode ∧ (mode.toPage output).next ≠ r.cursor := by
  obtain ⟨page, rest, -, -, -, ⟨-, hlast⟩ | ⟨-, next, hnext, hfresh, -⟩⟩ := h
  · rw [toPage_of_last hlast] at htruncated
    cases htruncated
  · obtain ⟨-, rfl, hgiven⟩ := toPage_of_goesOn hnext
    exact ⟨hgiven, hfresh⟩

/-- **What is left at a cursor** is what the pages of a loop hold from there on. -/
theorem PageSource.Paged.items {p : PageSource} {c : Cursor} {pages : List (Cursor × p.mode.Output)}
    (h : p.Paged c pages) (hc : p.mode.sent c = c)
    (hanswers : ∀ q ∈ pages, s3.Answers p.mode (p.request q.1) q.2) :
    (↑(pages.flatMap fun q => (p.mode.toPage q.2).objects) : Multiset S3Object) =
        ↑((s3.left p.mode p.pathPrefix p.delimiter c).filterMap Item.entry?) ∧
      (pages.flatMap fun q => (p.mode.toPage q.2).subPrefixes) =
        (s3.left p.mode p.pathPrefix p.delimiter c).filterMap Item.commonPrefix? := by
  induction h with
  | @last c output whole =>
    obtain ⟨page, rest, hleft, -, hholds, hrest⟩ := hanswers (c, output) List.mem_cons_self
    replace hleft : s3.left p.mode p.pathPrefix p.delimiter (p.mode.sent c) = page ++ rest := hleft
    rw [hc] at hleft
    rcases hrest with ⟨rfl, -⟩ | ⟨-, next, hnext, -⟩
    · obtain ⟨hobjects, hnames⟩ := toPage_of_holds hholds
      rw [List.append_nil] at hleft
      rw [hleft, List.flatMap_singleton, List.flatMap_singleton]
      exact ⟨hobjects, hnames⟩
    · rw [(toPage_of_goesOn hnext).1] at whole
      cases whole
  | @next c output pages truncated given other rest ih =>
    obtain ⟨page, rest, hleft, -, hholds, hrest⟩ := hanswers (c, output) List.mem_cons_self
    replace hleft : s3.left p.mode p.pathPrefix p.delimiter (p.mode.sent c) = page ++ rest := hleft
    rw [hc] at hleft
    rcases hrest with ⟨-, hlast⟩ | ⟨-, next, hnext, -, hgoes⟩
    · rw [toPage_of_last hlast] at truncated
      cases truncated
    · obtain ⟨hobjects, hnames⟩ := toPage_of_holds hholds
      obtain ⟨hobjects', hnames'⟩ := ih (sent_next output) fun q hq =>
        hanswers q (List.mem_cons_of_mem _ hq)
      have hleft' : s3.left p.mode p.pathPrefix p.delimiter (p.mode.toPage output).next = rest := by
        rw [(toPage_of_goesOn hnext).2.1]
        exact hgoes
      rw [hleft'] at hobjects' hnames'
      rw [hleft, List.flatMap_cons, List.flatMap_cons, List.filterMap_append, List.filterMap_append,
        ← Multiset.coe_add, ← Multiset.coe_add, hobjects, hobjects', hnames, hnames']
      exact ⟨rfl, rfl⟩

end pages

end S3rm
