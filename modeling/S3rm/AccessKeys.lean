/-
S3rm/AccessKeys.lean

How the configuration shows its credentials (`mask_access_key` and `Debug` for
`AccessKeys` in src/types/mod.rs).  The mask is made in bytes.  `maskOf` is what
its comment says, in characters; the two are one on ASCII keys, and
`masks_iff` says on which others.
-/
import S3rm.Text.Slice

namespace S3rm

open Text

/-- `mask_access_key`; `none` where a slice panics. -/
def maskAccessKey (key : String) : Option String :=
  let prefixLen := 4
  let suffixLen := 4
  if key.utf8ByteSize < prefixLen + suffixLen + 1 then
    some (String.ofList (List.replicate key.utf8ByteSize '*'))
  else do
    let maskedLen := key.utf8ByteSize - prefixLen - suffixLen
    let start ← sliceTo key prefixLen
    let tail ← sliceFrom key (key.utf8ByteSize - suffixLen)
    return start ++ String.ofList (List.replicate maskedLen '*') ++ tail

structure AccessKeys where
  accessKey : String
  secretAccessKey : String
  sessionToken : Option String

/-- `Debug` for `AccessKeys`, `quoted` being the one for `str`. -/
def AccessKeys.debug (quoted : String → String) (keys : AccessKeys) : Option String := do
  let sessionToken := match keys.sessionToken with
    | some _ => "** redacted **"
    | none => "None"
  let maskedAccessKey ← maskAccessKey keys.accessKey
  return "AccessKeys \x7b access_key: " ++ quoted maskedAccessKey ++
    ", secret_access_key: " ++ quoted "** redacted **" ++
    ", session_token: " ++ quoted sessionToken ++ " \x7d"

/-! ### The mask in characters -/

/-- "Showing only the first 4 and last 4 characters.  Keys shorter than 9
characters are fully masked." -/
def maskOf (key : List Char) : List Char :=
  if key.length < 9 then List.replicate key.length '*'
  else key.take 4 ++ List.replicate (key.length - 8) '*' ++ key.drop (key.length - 4)

/-- A key the code cuts where its comment says.  Its first and its last four
bytes are characters, and the bytes between, which all come out as asterisks,
are characters of one byte.  The code shows fewer than four characters where
four bytes are fewer, so what the comment shows beyond them is asterisks. -/
structure CutsEvenly (before between after : List Char) : Prop where
  first : byteLen before = 4
  last : byteLen after = 4
  ascii : Ascii between
  long : 9 ≤ before.length + between.length + after.length
  afterFirst : ∀ c ∈ between.take (4 - before.length), c = '*'
  beforeLast : ∀ c ∈ between.drop (between.length - (4 - after.length)), c = '*'

section parts

variable {before between after : List Char}

theorem maskOf_parts (hbefore : before.length ≤ 4) (hafter : after.length ≤ 4)
    (hlong : 9 ≤ before.length + between.length + after.length) :
    maskOf (before ++ between ++ after) = before ++
      (between.take (4 - before.length) ++
        List.replicate (between.length - (4 - before.length) - (4 - after.length)) '*' ++
        between.drop (between.length - (4 - after.length))) ++ after := by
  have hlen : (before ++ between ++ after).length =
      before.length + between.length + after.length := by
    rw [List.length_append, List.length_append]
  have htake : (before ++ between ++ after).take 4 =
      before ++ between.take (4 - before.length) := by
    rw [List.append_assoc, List.take_append, List.take_of_length_le hbefore,
      List.take_append_of_le_length (by omega)]
  have hdrop : (before ++ between ++ after).drop ((before ++ between ++ after).length - 4) =
      between.drop (between.length - (4 - after.length)) ++ after := by
    rw [hlen, List.append_assoc, List.drop_append, List.drop_eq_nil_of_le (by omega),
      List.nil_append, List.drop_append_of_le_length (by omega)]
    congr 2
    omega
  have hmiddle : (before ++ between ++ after).length - 8 =
      between.length - (4 - before.length) - (4 - after.length) := by
    omega
  rw [maskOf, if_neg (by omega), htake, hdrop, hmiddle]
  simp only [List.append_assoc]

/-- A text of asterisks in three pieces, the middle one of asterisks anyway. -/
theorem replicate_eq_pieces {n : Nat} {front back : List Char}
    (hn : front.length + back.length ≤ n) :
    List.replicate n '*' =
        front ++ List.replicate (n - front.length - back.length) '*' ++ back ↔
      (∀ c ∈ front, c = '*') ∧ ∀ c ∈ back, c = '*' := by
  rw [eq_comm, List.eq_replicate_iff]
  constructor
  · rintro ⟨-, hall⟩
    constructor
    · intro c hc
      exact hall c (List.mem_append_left _ (List.mem_append_left _ hc))
    · intro c hc
      exact hall c (List.mem_append_right _ hc)
  · rintro ⟨hfront, hback⟩
    constructor
    · simp only [List.length_append, List.length_replicate]
      omega
    · intro c hc
      rcases List.mem_append.mp hc with hc | hc
      · rcases List.mem_append.mp hc with hc | hc
        · exact hfront c hc
        · exact List.eq_of_mem_replicate hc
      · exact hback c hc

/-- The two masks of a cut key have one length only if no character between
takes more than a byte; and then only a long key is not masked as a whole. -/
theorem long_of_masked_eq (hfirst : byteLen before = 4) (hlast : byteLen after = 4)
    (hbetween : 0 < byteLen between)
    (heq : before ++ List.replicate (byteLen between) '*' ++ after =
      maskOf (before ++ between ++ after)) :
    9 ≤ before.length + between.length + after.length := by
  by_contra hshort
  have hlen : (before ++ between ++ after).length < 9 := by
    rw [List.length_append, List.length_append]
    omega
  rw [maskOf, if_pos hlen, List.eq_replicate_iff] at heq
  obtain ⟨hlength, hall⟩ := heq
  have hstar : ∀ cs : List Char, (∀ c ∈ cs, c = '*') → byteLen cs = cs.length := by
    intro cs hcs
    apply byteLen_eq_length.mpr
    intro c hc
    rw [hcs c hc]
    rfl
  have hb := hstar before fun c hc => hall c (List.mem_append_left _ (List.mem_append_left _ hc))
  have ha := hstar after fun c hc => hall c (List.mem_append_right _ hc)
  simp only [List.length_append, List.length_replicate] at hlength
  omega

theorem length_maskOf (key : List Char) : (maskOf key).length = key.length := by
  rw [maskOf]
  split
  next => exact List.length_replicate
  next hlong =>
    simp only [List.length_append, List.length_take, List.length_replicate, List.length_drop]
    omega

/-- When the mask of the code is the mask of the comment. -/
theorem masked_eq_iff (hfirst : byteLen before = 4) (hlast : byteLen after = 4)
    (hbetween : 0 < byteLen between) :
    before ++ List.replicate (byteLen between) '*' ++ after = maskOf (before ++ between ++ after) ↔
      CutsEvenly before between after := by
  have hb := length_le_byteLen before
  have ha := length_le_byteLen after
  have hpieces : 9 ≤ before.length + between.length + after.length →
      (List.replicate between.length '*' = between.take (4 - before.length) ++
        List.replicate (between.length - (4 - before.length) - (4 - after.length)) '*' ++
        between.drop (between.length - (4 - after.length)) ↔
      (∀ c ∈ between.take (4 - before.length), c = '*') ∧
        ∀ c ∈ between.drop (between.length - (4 - after.length)), c = '*') := by
    intro hlong
    have hfront : (between.take (4 - before.length)).length = 4 - before.length := by
      rw [List.length_take]
      omega
    have hback : (between.drop (between.length - (4 - after.length))).length =
        4 - after.length := by
      rw [List.length_drop]
      omega
    have h := @replicate_eq_pieces between.length (between.take (4 - before.length))
      (between.drop (between.length - (4 - after.length))) (by omega)
    rwa [hfront, hback] at h
  constructor
  · intro heq
    have hlong := long_of_masked_eq hfirst hlast hbetween heq
    have hascii : byteLen between = between.length := by
      have hlength := congrArg List.length heq
      rw [length_maskOf] at hlength
      simp only [List.length_append, List.length_replicate] at hlength
      omega
    rw [maskOf_parts (by omega) (by omega) hlong, hascii, List.append_assoc, List.append_assoc,
      List.append_cancel_left_eq, List.append_cancel_right_eq, hpieces hlong] at heq
    exact ⟨hfirst, hlast, byteLen_eq_length.mp hascii, hlong, heq.1, heq.2⟩
  · intro h
    rw [maskOf_parts (by omega) (by omega) h.long, byteLen_eq_length.mpr h.ascii,
      (hpieces h.long).mpr ⟨h.afterFirst, h.beforeLast⟩]

end parts

/-! ### The mask of the code -/

theorem maskAccessKey_short {key : String} (h : key.utf8ByteSize < 9) :
    maskAccessKey key = some (String.ofList (List.replicate key.utf8ByteSize '*')) :=
  if_pos h

/-- A key the code cuts, and what it makes of it. -/
theorem maskAccessKey_eq_some {key out : String} (h : 9 ≤ key.utf8ByteSize) :
    maskAccessKey key = some out ↔ ∃ before between after,
      key.toList = before ++ between ++ after ∧ byteLen before = 4 ∧ byteLen after = 4 ∧
      out = String.ofList (before ++ List.replicate (byteLen between) '*' ++ after) := by
  have hmask : maskAccessKey key = (sliceTo key 4).bind fun start =>
      (sliceFrom key (key.utf8ByteSize - 4)).bind fun tail =>
        some (start ++ String.ofList (List.replicate (key.utf8ByteSize - 4 - 4) '*') ++ tail) :=
    if_neg (by omega)
  rw [hmask, ← byteLen_toList]
  rw [← byteLen_toList] at h
  constructor
  · intro heq
    obtain ⟨start, hstart, heq⟩ := Option.bind_eq_some_iff.mp heq
    obtain ⟨tail, htail, heq⟩ := Option.bind_eq_some_iff.mp heq
    obtain ⟨⟨before, rest⟩, hbefore, rfl⟩ := Option.map_eq_some_iff.mp hstart
    obtain ⟨⟨most, after⟩, hafter, rfl⟩ := Option.map_eq_some_iff.mp htail
    cases heq
    obtain ⟨hkey, hfirst⟩ := splitAtByte_eq_some.mp hbefore
    obtain ⟨hkey', hmost⟩ := splitAtByte_eq_some.mp hafter
    -- the first cut is before the second
    rw [hkey] at hkey'
    rcases List.append_eq_append_iff.mp hkey' with ⟨between, rfl, rfl⟩ | ⟨between, rfl, -⟩
    · have hlen : byteLen key.toList = 4 + byteLen between + byteLen after := by
        rw [hkey, byteLen_append, byteLen_append, hfirst]
        omega
      rw [byteLen_append] at hmost
      refine ⟨before, between, after, by rw [hkey, List.append_assoc], hfirst, by omega, ?_⟩
      rw [show byteLen key.toList - 4 - 4 = byteLen between by omega, String.ofList_append,
        String.ofList_append]
    · rw [byteLen_append] at hfirst
      omega
  · rintro ⟨before, between, after, hkey, hfirst, hlast, rfl⟩
    have hlen : byteLen key.toList = 4 + byteLen between + 4 := by
      rw [hkey, byteLen_append, byteLen_append, hfirst, hlast]
    have hto : sliceTo key 4 = some (String.ofList before) := by
      rw [sliceTo, hkey, List.append_assoc, ← hfirst, splitAtByte_append]
      rfl
    have hfrom : sliceFrom key (byteLen key.toList - 4) = some (String.ofList after) := by
      rw [sliceFrom, show byteLen key.toList - 4 = byteLen (before ++ between) by
        rw [byteLen_append]; omega, hkey, splitAtByte_append]
      rfl
    rw [hto, hfrom, show byteLen key.toList - 4 - 4 = byteLen between by omega,
      String.ofList_append, String.ofList_append]
    rfl

/-! ### What a mask is to be -/

/-- As long as the key, and showing the first and the last four characters of a
key of nine or more, and no others. -/
structure Masks (key out : List Char) : Prop where
  length : out.length = key.length
  short : key.length < 9 → ∀ c ∈ out, c = '*'
  first : 9 ≤ key.length → out.take 4 = key.take 4
  between : 9 ≤ key.length → ∀ c ∈ (out.drop 4).take (key.length - 8), c = '*'
  last : 9 ≤ key.length → out.drop (key.length - 4) = key.drop (key.length - 4)

theorem masks_iff {key out : List Char} : Masks key out ↔ out = maskOf key := by
  constructor
  · intro h
    rw [maskOf]
    split
    next hshort => exact List.eq_replicate_iff.mpr ⟨h.length, h.short hshort⟩
    next hlong =>
      have h9 : 9 ≤ key.length := by omega
      have hbetween : (out.drop 4).take (key.length - 8) = List.replicate (key.length - 8) '*' := by
        apply List.eq_replicate_iff.mpr
        constructor
        · rw [List.length_take, List.length_drop, h.length]
          omega
        · exact h.between h9
      have hdrop : (out.drop 4).drop (key.length - 8) = out.drop (key.length - 4) := by
        rw [List.drop_drop]
        congr 1
        omega
      rw [← h.first h9, ← h.last h9, ← hbetween, ← hdrop, List.append_assoc,
        List.take_append_drop, List.take_append_drop]
  · rintro rfl
    have hlen := length_maskOf key
    by_cases hshort : key.length < 9
    · have hmask : maskOf key = List.replicate key.length '*' := if_pos hshort
      refine ⟨hlen, ?_, by omega, by omega, by omega⟩
      intro _ c hc
      rw [hmask] at hc
      exact List.eq_of_mem_replicate hc
    · have hmask : maskOf key =
          key.take 4 ++ (List.replicate (key.length - 8) '*' ++ key.drop (key.length - 4)) := by
        rw [← List.append_assoc]
        exact if_neg hshort
      have htake : (key.take 4).length = 4 := by
        rw [List.length_take]
        omega
      have hdrop4 : (maskOf key).drop 4 =
          List.replicate (key.length - 8) '*' ++ key.drop (key.length - 4) := by
        rw [hmask, List.drop_left' htake]
      refine ⟨hlen, fun h => absurd h hshort, ?_, ?_, ?_⟩
      · intro _
        rw [hmask, List.take_left' htake]
      · intro _ c hc
        rw [hdrop4, List.take_left' List.length_replicate] at hc
        exact List.eq_of_mem_replicate hc
      · intro _
        rw [show key.length - 4 = 4 + (key.length - 8) by omega, ← List.drop_drop, hdrop4,
          List.drop_left' List.length_replicate]
        congr 1
        omega

/-- An ASCII key that is cut is cut evenly. -/
theorem cutsEvenly_of_ascii {key : List Char} (h : Ascii key) (hlong : 9 ≤ key.length) :
    ∃ before between after, key = before ++ between ++ after ∧ CutsEvenly before between after := by
  have hascii : ∀ cs : List Char, cs.Sublist key → byteLen cs = cs.length := by
    intro cs hcs
    exact byteLen_eq_length.mpr fun c hc => h c (hcs.subset hc)
  have hfirst : (key.take 4).length = 4 := by
    rw [List.length_take]
    omega
  have hlast : (key.drop (key.length - 4)).length = 4 := by
    rw [List.length_drop]
    omega
  have hbetween : ((key.drop 4).take (key.length - 8)).length = key.length - 8 := by
    rw [List.length_take, List.length_drop]
    omega
  refine ⟨key.take 4, (key.drop 4).take (key.length - 8), key.drop (key.length - 4), ?_, ?_⟩
  · have hdrop : key.drop (key.length - 4) = (key.drop 4).drop (key.length - 8) := by
      rw [List.drop_drop]
      congr 1
      omega
    rw [hdrop, List.append_assoc, List.take_append_drop, List.take_append_drop]
  · constructor
    · rw [hascii _ (List.take_sublist _ _), hfirst]
    · rw [hascii _ (List.drop_sublist _ _), hlast]
    · intro c hc
      exact h c (((List.take_sublist _ _).trans (List.drop_sublist _ _)).subset hc)
    · omega
    · rw [hfirst]
      intro c hc
      cases hc
    · rw [hlast, Nat.sub_self, Nat.sub_zero, List.drop_length]
      intro c hc
      cases hc

/-- `Debug` prints exactly when the mask does. -/
theorem debug_isSome (quoted : String → String) (keys : AccessKeys) :
    (keys.debug quoted).isSome = (maskAccessKey keys.accessKey).isSome := by
  unfold AccessKeys.debug
  cases maskAccessKey keys.accessKey <;> rfl

theorem debug_masks_iff (quoted : String → String) (keys : AccessKeys) :
    ((keys.debug quoted).isSome ∧ ∃ out, maskAccessKey keys.accessKey = some out ∧
      Masks keys.accessKey.toList out.toList) ↔
    Ascii keys.accessKey.toList ∨ ∃ before between after,
      keys.accessKey.toList = before ++ between ++ after ∧ CutsEvenly before between after := by
  obtain ⟨key, -, -⟩ := keys
  rw [debug_isSome]
  show ((maskAccessKey key).isSome ∧ _) ↔ Ascii key.toList ∨ _
  have hle := length_le_byteLen key.toList
  rw [byteLen_toList] at hle
  rcases Nat.lt_or_ge key.utf8ByteSize 9 with hshort | hlong
  · -- masked as a whole: of the right length when bytes are characters
    rw [maskAccessKey_short hshort]
    have hmask : maskOf key.toList = List.replicate key.toList.length '*' := if_pos (by omega)
    constructor
    · rintro ⟨-, out, heq, hmasks⟩
      left
      cases heq
      rw [masks_iff, String.toList_ofList, hmask] at hmasks
      have hlength := congrArg List.length hmasks
      rw [List.length_replicate, List.length_replicate, ← byteLen_toList] at hlength
      exact byteLen_eq_length.mp hlength
    · rintro (hascii | ⟨before, between, after, hkey, hcut⟩)
      · refine ⟨rfl, _, rfl, masks_iff.mpr ?_⟩
        rw [String.toList_ofList, hmask, ← byteLen_eq_length.mpr hascii, byteLen_toList]
      · have hnine := hcut.long
        rw [hkey, List.length_append, List.length_append] at hle
        omega
  · constructor
    · rintro ⟨-, out, heq, hmasks⟩
      obtain ⟨before, between, after, hkey, hfirst, hlast, rfl⟩ :=
        (maskAccessKey_eq_some hlong).mp heq
      rw [masks_iff, String.toList_ofList, hkey] at hmasks
      have hbetween : 0 < byteLen between := by
        rw [← byteLen_toList, hkey, byteLen_append, byteLen_append] at hlong
        omega
      exact .inr ⟨before, between, after, hkey, (masked_eq_iff hfirst hlast hbetween).mp hmasks⟩
    · intro h
      obtain ⟨before, between, after, hkey, hcut⟩ : ∃ before between after,
          key.toList = before ++ between ++ after ∧ CutsEvenly before between after := by
        rcases h with hascii | h
        · apply cutsEvenly_of_ascii hascii
          rw [← byteLen_eq_length.mpr hascii, byteLen_toList]
          exact hlong
        · exact h
      have hbetween : 0 < byteLen between := by
        have hpos := hcut.long
        have hb := length_le_byteLen before
        have ha := length_le_byteLen after
        have hm := length_le_byteLen between
        rw [hcut.first] at hb
        rw [hcut.last] at ha
        omega
      have hmask := (maskAccessKey_eq_some hlong).mpr
        ⟨before, between, after, hkey, hcut.first, hcut.last, rfl⟩
      refine ⟨by rw [hmask]; rfl, _, hmask, masks_iff.mpr ?_⟩
      rw [String.toList_ofList, hkey]
      exact (masked_eq_iff hcut.first hcut.last hbetween).mpr hcut

/-- Three characters of three bytes: the fourth byte is inside the second. -/
theorem debug_panics : (AccessKeys.debug id ⟨"日本語", "secret", none⟩).isSome = false ∧
    ¬∃ out, maskAccessKey "日本語" = some out ∧ Masks "日本語".toList out.toList := by
  have hnone : maskAccessKey "日本語" = none := by decide +kernel
  constructor
  · rw [debug_isSome]
    show (maskAccessKey "日本語").isSome = false
    rw [hnone]
    rfl
  · rintro ⟨out, hsome, -⟩
    rw [hnone] at hsome
    cases hsome

/-- A key of eight bytes comes out twice as long as it is. -/
example : maskAccessKey "éééé" = some "********" := by decide +kernel

end S3rm
