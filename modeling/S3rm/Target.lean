/-
S3rm/Target.lean

The target of a run as text: the parser of the command line
(`check_s3_target` and `CLIArgs::parse_target` in src/config/args/mod.rs), the
parser of the library (`S3Target::parse` in src/types/mod.rs), and what each
side shows of a target (`format_target`, `Display`).

`Written` says which texts name a target.  Both parsers read what is written
and nothing else (`targets_agree`).
-/
import S3rm.Safety
import S3rm.Text.Slice

namespace S3rm

open Text

/-- The `match without_scheme.find('/')` of both parsers: what is before the
first `/`, and after it if there is one.  `none` where a slice panics. -/
def cutAtSlash (withoutScheme : String) : Option (String × Option String) :=
  match find withoutScheme '/' with
  | some idx => do
    let bucket ← sliceTo withoutScheme idx
    let rest ← sliceFrom withoutScheme (idx + 1)
    return (bucket, some rest)
  | none => return (withoutScheme, none)

/-! ### The command line -/

def errorMessageInvalidTarget : String := "target must be an S3 path (e.g. s3://bucket/prefix)"

/-- `check_s3_target`. -/
def checkS3Target (s : String) : Except String String :=
  if startsWith s "s3://" ∧ 5 < s.utf8ByteSize then .ok s else .error errorMessageInvalidTarget

/-- `CLIArgs::parse_target`. -/
def parseTarget (target : String) : Option (Except String StoragePath) := do
  let withoutScheme ← sliceFrom target 5
  let (bucket, rest) ← cutAtSlash withoutScheme
  if bucket = "" then return .error errorMessageInvalidTarget
  return .ok ⟨bucket, rest.getD ""⟩

/-- The argument as clap takes it, and what becomes of it. -/
def readTarget (s : String) : Option (Except String StoragePath) :=
  match checkS3Target s with
  | .ok target => parseTarget target
  | .error message => some (.error message)

/-! ### The library -/

structure S3Target where
  bucket : String
  pathPrefix : Option String
  endpoint : Option String
  region : Option String
  deriving DecidableEq, Repr

/-- `S3Target::parse`. -/
def S3Target.parse (s3Uri : String) : Option (Except Error S3Target) := do
  if ¬startsWith s3Uri "s3://" then
    return .error (.s3rm (.invalidUri ("Target URI must start with 's3://': " ++ s3Uri)))
  let withoutScheme ← sliceFrom s3Uri 5
  if withoutScheme = "" then
    return .error (.s3rm (.invalidUri ("Bucket name cannot be empty: " ++ s3Uri)))
  let (bucket, rest) ← cutAtSlash withoutScheme
  if bucket = "" then
    return .error (.s3rm (.invalidUri ("Bucket name cannot be empty: " ++ s3Uri)))
  return .ok ⟨bucket, rest.filter (· ≠ ""), none, none⟩

/-- `Display`. -/
def S3Target.display (target : S3Target) : String :=
  match target.pathPrefix with
  | some rest => "s3://" ++ target.bucket ++ "/" ++ rest
  | none => "s3://" ++ target.bucket

/-! ### Targets as written -/

/-- A text that names a target: its bucket and the prefix in it. -/
inductive Written : String → String → String → Prop
  | bare {bucket : String} : bucket ≠ "" → '/' ∉ bucket.toList →
      Written ("s3://" ++ bucket) bucket ""
  | slash {bucket : String} (rest : String) : bucket ≠ "" → '/' ∉ bucket.toList →
      Written ("s3://" ++ bucket ++ "/" ++ rest) bucket rest

/-- What is left of a text without its scheme names a target or has no bucket. -/
theorem written_or (rest : String) :
    (∃ bucket inner, Written ("s3://" ++ rest) bucket inner) ∨
      rest = "" ∨ ∃ inner, rest = "/" ++ inner := by
  by_cases hmem : '/' ∈ rest.toList
  · obtain ⟨before, after, heq, hfirst⟩ := List.eq_append_cons_of_mem hmem
    have hrest : rest = String.ofList before ++ "/" ++ String.ofList after := by
      apply String.toList_inj.mp
      simp [heq]
    by_cases hempty : before = []
    · right; right
      refine ⟨String.ofList after, ?_⟩
      rw [hrest, hempty]
      rfl
    · left
      refine ⟨String.ofList before, String.ofList after, ?_⟩
      rw [hrest, ← String.append_assoc, ← String.append_assoc]
      apply Written.slash
      · intro h
        exact hempty (by rw [← String.toList_ofList (l := before), h]; rfl)
      · rw [String.toList_ofList]
        exact hfirst
  · by_cases hempty : rest = ""
    · exact .inr (.inl hempty)
    · exact .inl ⟨rest, "", .bare hempty hmem⟩

/-! ### Reading -/

theorem sliceFrom_scheme (rest : String) : sliceFrom ("s3://" ++ rest) 5 = some rest :=
  sliceFrom_append "s3://" rest

theorem startsWith_scheme (rest : String) : startsWith ("s3://" ++ rest) "s3://" = true :=
  startsWith_iff.mpr ⟨rest, rfl⟩

theorem checkS3Target_scheme {rest : String} (h : rest ≠ "") :
    checkS3Target ("s3://" ++ rest) = .ok ("s3://" ++ rest) := by
  have hpos : rest.utf8ByteSize ≠ 0 := by
    intro h0
    exact h (String.utf8ByteSize_eq_zero_iff.mp h0)
  have hlen : 5 < ("s3://" ++ rest).utf8ByteSize := by
    have hscheme : "s3://".utf8ByteSize = 5 := rfl
    rw [String.utf8ByteSize_append, hscheme]
    omega
  rw [checkS3Target, if_pos ⟨startsWith_scheme rest, hlen⟩]

theorem cutAtSlash_bare {s : String} (h : '/' ∉ s.toList) : cutAtSlash s = some (s, none) := by
  rw [cutAtSlash, find_eq_none.mpr h]
  rfl

theorem cutAtSlash_slash {before : String} (h : '/' ∉ before.toList) (rest : String) :
    cutAtSlash (before ++ "/" ++ rest) = some (before, some rest) := by
  have hfind : find (before ++ "/" ++ rest) '/' = some before.utf8ByteSize := find_append h rest
  have hto : sliceTo (before ++ "/" ++ rest) before.utf8ByteSize = some before := by
    rw [String.append_assoc]
    exact sliceTo_append _ _
  have hfrom : sliceFrom (before ++ "/" ++ rest) (before.utf8ByteSize + 1) = some rest := by
    have hlen : (before ++ "/").utf8ByteSize = before.utf8ByteSize + 1 := String.utf8ByteSize_append
    rw [← hlen]
    exact sliceFrom_append _ _
  rw [cutAtSlash, hfind]
  show (do let bucket ← sliceTo _ _; let rest ← sliceFrom _ _; return (bucket, some rest)) = _
  rw [hto, hfrom]
  rfl

/-- What the two parsers make of a text without its scheme, once it is cut. -/
theorem parseTarget_scheme {rest bucket : String} {inner : Option String}
    (h : cutAtSlash rest = some (bucket, inner)) (hne : bucket ≠ "") :
    parseTarget ("s3://" ++ rest) = some (.ok ⟨bucket, inner.getD ""⟩) := by
  simp [parseTarget, sliceFrom_scheme, h, hne]

theorem parse_scheme {rest bucket : String} {inner : Option String}
    (h : cutAtSlash rest = some (bucket, inner)) (hrest : rest ≠ "") (hne : bucket ≠ "") :
    S3Target.parse ("s3://" ++ rest) = some (.ok ⟨bucket, inner.filter (· ≠ ""), none, none⟩) := by
  simp [S3Target.parse, startsWith_scheme, sliceFrom_scheme, h, hrest, hne]

/-- Both parsers read `s` as this target. -/
def Reads (s : String) (target : StoragePath) : Prop :=
  readTarget s = some (.ok target) ∧
    ∃ parsed, S3Target.parse s = some (.ok parsed) ∧ parsed.bucket = target.bucket ∧
      parsed.pathPrefix.getD "" = target.pathPrefix

theorem reads_scheme {rest bucket : String} {inner : Option String}
    (h : cutAtSlash rest = some (bucket, inner)) (hrest : rest ≠ "") (hne : bucket ≠ "") :
    Reads ("s3://" ++ rest) ⟨bucket, inner.getD ""⟩ := by
  constructor
  · rw [readTarget, checkS3Target_scheme hrest]
    exact parseTarget_scheme h hne
  · refine ⟨_, parse_scheme h hrest hne, rfl, ?_⟩
    -- an empty prefix is read as none
    rcases inner with - | inner
    · rfl
    · by_cases hinner : inner = "" <;> simp [Option.filter, hinner]

theorem Written.reads {s bucket inner : String} (h : Written s bucket inner) :
    Reads s ⟨bucket, inner⟩ := by
  cases h with
  | bare hne hslash => exact reads_scheme (cutAtSlash_bare hslash) hne hne
  | slash rest hne hslash =>
    have hrest : bucket ++ "/" ++ inner ≠ "" := by
      intro h
      have hlist := congrArg String.toList h
      simp at hlist
    have htext : "s3://" ++ bucket ++ "/" ++ inner = "s3://" ++ (bucket ++ "/" ++ inner) := by
      simp only [String.append_assoc]
    rw [htext]
    exact reads_scheme (cutAtSlash_slash hslash inner) hrest hne

/-- A text without the scheme, without more than it, or without a bucket. -/
def Unread (s : String) : Prop :=
  (∃ message, readTarget s = some (.error message)) ∧
    ∃ error, S3Target.parse s = some (.error error)

theorem cutAtSlash_emptyBucket (inner : String) :
    cutAtSlash ("/" ++ inner) = some ("", some inner) := by
  have h := @cutAtSlash_slash "" (by simp) inner
  rwa [String.empty_append] at h

/-- `S3Target::parse` of an empty bucket. -/
theorem parse_emptyBucket {rest : String} (h : rest = "" ∨ ∃ inner, rest = "/" ++ inner) :
    S3Target.parse ("s3://" ++ rest) = some (.error (.s3rm
      (.invalidUri ("Bucket name cannot be empty: " ++ ("s3://" ++ rest))))) := by
  rcases h with rfl | ⟨inner, rfl⟩
  · have hstart := startsWith_scheme ""
    have hslice := sliceFrom_scheme ""
    rw [String.append_empty] at hstart hslice ⊢
    simp only [S3Target.parse, hstart, hslice, not_true_eq_false, if_false, Option.bind_eq_bind,
      Option.bind_some, if_true, Option.pure_def]
  · simp [S3Target.parse, startsWith_scheme, sliceFrom_scheme, cutAtSlash_emptyBucket]

theorem readTarget_emptyBucket {rest : String} (h : rest = "" ∨ ∃ inner, rest = "/" ++ inner) :
    readTarget ("s3://" ++ rest) = some (.error errorMessageInvalidTarget) := by
  rcases h with rfl | ⟨inner, rfl⟩
  · rw [readTarget, checkS3Target, if_neg]
    simp [show "s3://".utf8ByteSize = 5 from rfl]
  · have hne : "/" ++ inner ≠ "" := by
      intro h
      have hlist := congrArg String.toList h
      simp at hlist
    rw [readTarget, checkS3Target_scheme hne]
    simp [parseTarget, sliceFrom_scheme, cutAtSlash_emptyBucket]

theorem unread_or_written (s : String) : Unread s ∨ ∃ bucket inner, Written s bucket inner := by
  by_cases hscheme : startsWith s "s3://"
  · obtain ⟨rest, rfl⟩ := startsWith_iff.mp hscheme
    rcases written_or rest with h | h
    · exact .inr h
    · exact .inl ⟨⟨_, readTarget_emptyBucket h⟩, ⟨_, parse_emptyBucket h⟩⟩
  · left
    constructor
    · refine ⟨errorMessageInvalidTarget, ?_⟩
      rw [readTarget, checkS3Target, if_neg fun h => hscheme h.1]
    · refine ⟨.s3rm (.invalidUri ("Target URI must start with 's3://': " ++ s)), ?_⟩
      simp [S3Target.parse, hscheme]

/-! ### Showing -/

theorem Written.bucket_ne {s bucket inner : String} (h : Written s bucket inner) :
    bucket ≠ "" ∧ '/' ∉ bucket.toList := by
  cases h with
  | bare hne hslash => exact ⟨hne, hslash⟩
  | slash _ hne hslash => exact ⟨hne, hslash⟩

theorem Written.text {s bucket inner : String} (h : Written s bucket inner) :
    s = "s3://" ++ bucket ∧ inner = "" ∨ s = "s3://" ++ bucket ++ "/" ++ inner := by
  cases h with
  | bare => exact .inl ⟨rfl, rfl⟩
  | slash => exact .inr rfl

/-- The prompt always shows the slash. -/
theorem formatTarget_eq (target : StoragePath) :
    formatTarget target = "s3://" ++ target.bucket ++ "/" ++ target.pathPrefix := by
  rw [formatTarget]
  split
  next hempty =>
    rw [String.isEmpty_iff.mp hempty, String.append_empty]
  next => rfl

theorem display_written {target : S3Target} (hne : target.bucket ≠ "")
    (hslash : '/' ∉ target.bucket.toList) :
    Written target.display target.bucket (target.pathPrefix.getD "") := by
  rcases target with ⟨bucket, - | rest, endpoint, region⟩
  · exact .bare hne hslash
  · exact .slash rest hne hslash

theorem targets_agree (s : String) :
    ((∃ message, readTarget s = some (.error message)) ∧
      ∃ error, S3Target.parse s = some (.error error)) ∨
    ∃ target, Reads s target ∧ target.bucket ≠ "" ∧ '/' ∉ target.bucket.toList ∧
      (s = "s3://" ++ target.bucket ∧ target.pathPrefix = "" ∨
        s = "s3://" ++ target.bucket ++ "/" ++ target.pathPrefix) ∧
      Reads (formatTarget target) target ∧
      ∀ parsed, S3Target.parse s = some (.ok parsed) → Reads parsed.display target := by
  rcases unread_or_written s with h | ⟨bucket, inner, h⟩
  · exact .inl h
  · right
    obtain ⟨hne, hslash⟩ := h.bucket_ne
    refine ⟨⟨bucket, inner⟩, h.reads, hne, hslash, h.text, ?_, ?_⟩
    · rw [formatTarget_eq]
      exact (Written.slash inner hne hslash).reads
    · intro parsed hparsed
      obtain ⟨-, parsed', hparsed', rfl, rfl⟩ := h.reads
      rw [hparsed] at hparsed'
      cases hparsed'
      exact (display_written hne hslash).reads

end S3rm
