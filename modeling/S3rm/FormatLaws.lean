/-
S3rm/FormatLaws.lean

What the strings of `Format` stand for: they can be read back, so two tag
sets or two metadata maps share a string only when they are the same.

    readTags        cut at '&', then at the first '=', both halves decoded
    readMetadata    cut at ',', then at the first '=', the second half decoded

The keys of metadata are not encoded.  They are names of HTTP headers, which
hold neither separator (`HeaderKeys`).  Of the encoding itself it is assumed
that it leaves the unreserved characters and writes `%XX` for every other byte
(`PercentEncodes`).
-/
import Mathlib
import S3rm.Format
import S3rm.Text.Fields
import S3rm.Text.Percent

namespace S3rm

open Text

/-! ### The encoding -/

/-- The characters that `urlencoding::encode` leaves as they are. -/
def unreserved (c : Char) : Bool := c.isAlphanum || c == '-' || c == '_' || c == '.' || c == '~'

theorem plainSet_unreserved : PlainSet unreserved where
  ascii := by
    intro c hc
    simp only [unreserved, Bool.or_eq_true, beq_iff_eq] at hc
    rcases hc with (((hc | rfl) | rfl) | rfl) | rfl
    · simp only [Char.isAlphanum, Char.isAlpha, Char.isUpper, Char.isLower, Char.isDigit,
        Bool.or_eq_true, Bool.and_eq_true, decide_eq_true_eq] at hc
      have hval : c.toNat = c.val.toNat := rfl
      simp only [ge_iff_le, UInt32.le_iff_toNat_le] at hc
      rw [hval]
      have h90 : 'Z'.val.toNat = 90 := rfl
      have h122 : 'z'.val.toNat = 122 := rfl
      have h57 : '9'.val.toNat = 57 := rfl
      omega
    all_goals decide
  percent := by decide

/-- What is known of `urlencoding::encode`. -/
def PercentEncodes (encode : String → String) : Prop :=
  ∀ s, (encode s).toList = percentEncodeString unreserved s

theorem percentEncodes_urlEncode : PercentEncodes urlEncode := by
  intro s
  have hbyte : ∀ byte : UInt8,
      (if unreserved (Char.ofNat byte.toNat) then (Char.ofNat byte.toNat).toString
        else "%" ++ String.ofList [hexDigit (byte.toNat / 16), hexDigit (byte.toNat % 16)]).toList =
        encodeByte unreserved byte := by
    intro byte
    simp only [encodeByte]
    split <;> simp
  rw [urlEncode, String.toList_join, List.flatMap_map]
  show _ = s.toUTF8.toList.flatMap (encodeByte unreserved)
  congr 1
  funext byte
  exact hbyte byte

/-- `urlencoding::decode`. -/
def urlDecode (text : List Char) : Option String := percentDecodeString text

namespace PercentEncodes

variable {encode : String → String}

theorem decode (h : PercentEncodes encode) (s : String) :
    urlDecode (encode s).toList = some s := by
  rw [h s]
  exact percentDecodeString_encode plainSet_unreserved s

/-- No separator of the formatted strings is in an encoding. -/
theorem separator_not_mem (h : PercentEncodes encode) {c : Char}
    (hc : c = '=' ∨ c = '&' ∨ c = ',') (s : String) : c ∉ (encode s).toList := by
  rw [h s]
  rcases hc with rfl | rfl | rfl <;> apply not_mem_percentEncode <;> decide

end PercentEncodes

/-! ### Sorting by key -/

section sorting

variable {α : Type} (key : α → String)

/-- The order in which both strings list their entries. -/
abbrev sortByKey (xs : List α) : List α := xs.insertionSort fun a b => key a ≤ key b

variable {key}

theorem sortByKey_pairwise (xs : List α) :
    (sortByKey key xs).Pairwise fun a b => key a ≤ key b := by
  have : Std.Total fun a b => key a ≤ key b := ⟨fun a b => String.le_total (key a) (key b)⟩
  have : IsTrans α fun a b => key a ≤ key b := ⟨fun _ _ _ => String.le_trans⟩
  exact List.pairwise_insertionSort _ xs

theorem sortByKey_eq_iff {xs ys : List α} (hxs : (xs.map key).Nodup) :
    sortByKey key xs = sortByKey key ys ↔ xs.Perm ys := by
  constructor
  · intro heq
    have hx : (sortByKey key xs).Perm xs := List.perm_insertionSort _ xs
    have hy : (sortByKey key ys).Perm ys := List.perm_insertionSort _ ys
    rw [heq] at hx
    exact hx.symm.trans hy
  · intro hperm
    apply List.Perm.eq_of_pairwise _ (sortByKey_pairwise xs) (sortByKey_pairwise ys)
    · have hx : (sortByKey key xs).Perm xs := List.perm_insertionSort _ xs
      have hy : (sortByKey key ys).Perm ys := List.perm_insertionSort _ ys
      exact (hx.trans hperm).trans hy.symm
    · intro a b ha hb hab hba
      have hx := (List.mem_insertionSort _).mp ha
      have hy := hperm.symm.subset ((List.mem_insertionSort _).mp hb)
      exact List.inj_on_of_nodup_map hxs hx hy (String.le_antisymm hab hba)

theorem sortByKey_ne_nil {xs : List α} (h : xs ≠ []) : sortByKey key xs ≠ [] := by
  intro hnil
  have hperm : (sortByKey key xs).Perm xs := List.perm_insertionSort _ xs
  rw [hnil] at hperm
  exact h hperm.symm.eq_nil

/-- Entries of one key stay in the order given. -/
theorem sortByKey_stable (xs : List α) (k : String) :
    (sortByKey key xs).filter (key · == k) = xs.filter (key · == k) := by
  have : Std.Total fun a b => key a ≤ key b := ⟨fun a b => String.le_total (key a) (key b)⟩
  have : IsTrans α fun a b => key a ≤ key b := ⟨fun _ _ _ => String.le_trans⟩
  have hk : ∀ a ∈ xs.filter (key · == k), key a = k := by
    intro a ha
    simpa using (List.mem_filter.mp ha).2
  have hsorted : (xs.filter (key · == k)).Pairwise fun a b => key a ≤ key b := by
    apply List.pairwise_of_forall_mem_list
    intro a ha b hb
    have hab : key a = key b := (hk a ha).trans (hk b hb).symm
    exact hab ▸ String.le_refl (key a)
  -- already sorted, so still a sublist; and the sort loses no entry
  have hsub := (List.sublist_insertionSort hsorted List.filter_sublist).filter (key · == k)
  rw [List.filter_filter] at hsub
  simp only [Bool.and_self] at hsub
  exact (hsub.eq_of_length
    ((List.perm_insertionSort _ xs).filter (key · == k)).length_eq.symm).symm

end sorting

/-! ### Tags -/

section formats

variable {encode : String → String}

/-- The two halves of the field of a tag. -/
def writeTag (encode : String → String) (tag : Tag) : List Char × List Char :=
  ((encode tag.key).toList, (encode tag.value).toList)

def readTag (field : List Char × List Char) : Option Tag := do
  return ⟨← urlDecode field.1, ← urlDecode field.2⟩

/-- Cut at `&`, each piece at its first `=`, and both halves decoded. -/
def readTags (text : String) : Option (List Tag) :=
  (splitFields '&' '=' text.toList).mapM readTag

theorem formatTags_toList (tags : List Tag) :
    (formatTags encode tags).toList =
      joinFields '&' '=' ((sortByKey Tag.key tags).map (writeTag encode)) := by
  rw [formatTags, String.toList_intercalate, List.map_map, joinFields, List.map_map]
  congr 1
  apply List.map_congr_left
  intro tag _
  show (encode tag.key ++ "=" ++ encode tag.value).toList = _
  rw [String.toList_append, String.toList_append, List.append_assoc]
  rfl

theorem separable_writeTag (h : PercentEncodes encode) (tags : List Tag) :
    Separable '&' '=' (tags.map (writeTag encode)) := by
  intro field hfield
  obtain ⟨tag, -, rfl⟩ := List.mem_map.mp hfield
  exact ⟨h.separator_not_mem (.inr (.inl rfl)) _, h.separator_not_mem (.inl rfl) _,
    h.separator_not_mem (.inr (.inl rfl)) _⟩

theorem readTag_writeTag (h : PercentEncodes encode) (tag : Tag) :
    readTag (writeTag encode tag) = some tag := by
  simp only [readTag, writeTag, h.decode]
  rfl

theorem format_tags_canonical (h : PercentEncodes encode) :
    (∀ tags tags' : List Tag, (tags.map Tag.key).Nodup → (tags'.map Tag.key).Nodup →
      (formatTags encode tags = formatTags encode tags' ↔ tags.Perm tags')) ∧
    ∀ tags : List Tag, tags ≠ [] → ∃ sorted, readTags (formatTags encode tags) = some sorted ∧
      sorted.Perm tags ∧ (sorted.Pairwise fun a b => a.key ≤ b.key) ∧
      ∀ key, sorted.filter (·.key == key) = tags.filter (·.key == key) := by
  constructor
  · intro tags tags' hnodup _
    rw [← sortByKey_eq_iff hnodup, ← String.toList_inj, formatTags_toList, formatTags_toList]
    constructor
    · exact joinFields_map_inj (by decide) (readTag_writeTag h) (separable_writeTag h _)
        (separable_writeTag h _)
    · intro heq
      rw [heq]
  · intro tags hne
    have hsorted : sortByKey Tag.key tags ≠ [] := sortByKey_ne_nil hne
    refine ⟨sortByKey Tag.key tags, ?_, List.perm_insertionSort _ tags,
      sortByKey_pairwise tags, sortByKey_stable tags⟩
    rw [readTags, formatTags_toList]
    exact read_joinFields (by decide) (readTag_writeTag h) (separable_writeTag h _) hsorted

theorem format_tags_canonical_sample :
    (formatTags urlEncode [⟨"b", "1&a=2"⟩, ⟨"a", "é"⟩] =
        formatTags urlEncode [⟨"a", "é"⟩, ⟨"b", "1&a=2"⟩] ↔
      [(⟨"b", "1&a=2"⟩ : Tag), ⟨"a", "é"⟩].Perm [⟨"a", "é"⟩, ⟨"b", "1&a=2"⟩]) ∧
    ∃ sorted, readTags (formatTags urlEncode [⟨"b", "1&a=2"⟩, ⟨"a", "é"⟩]) = some sorted ∧
      sorted.Perm [⟨"b", "1&a=2"⟩, ⟨"a", "é"⟩] ∧ (sorted.Pairwise fun a b => a.key ≤ b.key) ∧
      ∀ key, sorted.filter (·.key == key) =
        [(⟨"b", "1&a=2"⟩ : Tag), ⟨"a", "é"⟩].filter (·.key == key) :=
  ⟨(format_tags_canonical percentEncodes_urlEncode).1 _ _ (by decide) (by decide),
    (format_tags_canonical percentEncodes_urlEncode).2 _ (by decide)⟩

/-! ### Metadata -/

/-- The keys are names of HTTP headers, as far as the separators go. -/
def HeaderKeys (metadata : Metadata) : Prop :=
  ∀ entry ∈ metadata.entries, '=' ∉ entry.1.toList ∧ ',' ∉ entry.1.toList

/-- What the map holds for a key. -/
def Metadata.get? (metadata : Metadata) (key : String) : Option String :=
  metadata.entries.lookup key

theorem Metadata.get?_eq_some {metadata : Metadata} {key value : String} :
    metadata.get? key = some value ↔ (key, value) ∈ metadata.entries := by
  rw [get?, List.lookup_eq_some_iff]
  constructor
  · rintro ⟨before, after, heq, -⟩
    rw [heq]
    exact List.mem_append_right _ List.mem_cons_self
  · intro hmem
    obtain ⟨before, after, heq⟩ := List.append_of_mem hmem
    refine ⟨before, after, heq, ?_⟩
    intro entry hentry
    have hnodup := metadata.nodup
    rw [heq, List.map_append, List.nodup_append] at hnodup
    rw [bne_iff_ne]
    exact (hnodup.2.2 entry.1 (List.mem_map_of_mem hentry) key List.mem_cons_self).symm

/-- Two lists of entries are one map when each is the other in another order. -/
theorem Metadata.get?_eq_iff {a b : Metadata} :
    (∀ key, a.get? key = b.get? key) ↔ a.entries.Perm b.entries := by
  rw [List.perm_ext_iff_of_nodup a.nodup.of_map b.nodup.of_map]
  constructor
  · rintro h ⟨key, value⟩
    rw [← get?_eq_some, ← get?_eq_some, h key]
  · intro h key
    apply Option.ext
    intro value
    rw [get?_eq_some, get?_eq_some, h]

def writeEntry (encode : String → String) (entry : String × String) : List Char × List Char :=
  (entry.1.toList, (encode entry.2).toList)

def readEntry (field : List Char × List Char) : Option (String × String) := do
  return (String.ofList field.1, ← urlDecode field.2)

/-- Cut at `,`, each piece at its first `=`, and the second half decoded. -/
def readMetadata (text : String) : Option (List (String × String)) :=
  (splitFields ',' '=' text.toList).mapM readEntry

theorem formatMetadata_toList (metadata : Metadata) : (formatMetadata encode metadata).toList =
    joinFields ',' '=' ((sortByKey Prod.fst metadata.entries).map (writeEntry encode)) := by
  rw [formatMetadata, String.toList_intercalate, List.map_map, joinFields, List.map_map]
  congr 1
  apply List.map_congr_left
  rintro ⟨key, value⟩ _
  show (key ++ "=" ++ encode value).toList = _
  rw [String.toList_append, String.toList_append, List.append_assoc]
  rfl

theorem readEntry_writeEntry (h : PercentEncodes encode) (entry : String × String) :
    readEntry (writeEntry encode entry) = some entry := by
  simp only [readEntry, writeEntry, h.decode, String.ofList_toList]
  rfl

/-- Sorting keeps the keys what they are. -/
theorem HeaderKeys.separable {metadata : Metadata} (h : HeaderKeys metadata)
    (hencode : PercentEncodes encode) :
    Separable ',' '=' ((sortByKey Prod.fst metadata.entries).map (writeEntry encode)) := by
  intro field hfield
  obtain ⟨entry, hentry, rfl⟩ := List.mem_map.mp hfield
  obtain ⟨hinner, hsep⟩ := h entry ((List.mem_insertionSort _).mp hentry)
  exact ⟨hsep, hinner, hencode.separator_not_mem (.inr (.inr rfl)) _⟩

theorem format_metadata_canonical (hencode : PercentEncodes encode) :
    (∀ a b : Metadata, HeaderKeys a → HeaderKeys b →
      (formatMetadata encode a = formatMetadata encode b ↔ ∀ key, a.get? key = b.get? key)) ∧
    ∀ metadata : Metadata, HeaderKeys metadata → metadata.entries ≠ [] →
      ∃ sorted, readMetadata (formatMetadata encode metadata) = some sorted ∧
        sorted.Perm metadata.entries ∧ sorted.Pairwise fun a b => a.1 ≤ b.1 := by
  constructor
  · intro a b ha hb
    rw [Metadata.get?_eq_iff, ← sortByKey_eq_iff a.nodup, ← String.toList_inj,
      formatMetadata_toList, formatMetadata_toList]
    constructor
    · exact joinFields_map_inj (by decide) (readEntry_writeEntry hencode) (ha.separable hencode)
        (hb.separable hencode)
    · intro heq
      rw [heq]
  · intro metadata h hne
    have hsorted : sortByKey Prod.fst metadata.entries ≠ [] := sortByKey_ne_nil hne
    refine ⟨sortByKey Prod.fst metadata.entries, ?_, List.perm_insertionSort _ _,
      sortByKey_pairwise _⟩
    rw [readMetadata, formatMetadata_toList]
    exact read_joinFields (by decide) (readEntry_writeEntry hencode) (h.separable hencode) hsorted

end formats

/-- A value with both separators in it, and the same map in another order. -/
def forgingMetadata : Metadata := ⟨[("b", "1,a=2"), ("a", "é")], by decide⟩

def reorderedMetadata : Metadata := ⟨[("a", "é"), ("b", "1,a=2")], by decide⟩

theorem format_metadata_canonical_forging :
    (formatMetadata urlEncode forgingMetadata = formatMetadata urlEncode reorderedMetadata ↔
      ∀ key, forgingMetadata.get? key = reorderedMetadata.get? key) ∧
    ∃ sorted, readMetadata (formatMetadata urlEncode forgingMetadata) = some sorted ∧
      sorted.Perm forgingMetadata.entries ∧ sorted.Pairwise fun a b => a.1 ≤ b.1 := by
  have hkeys : HeaderKeys forgingMetadata := by
    unfold HeaderKeys
    decide
  have hkeys' : HeaderKeys reorderedMetadata := by
    unfold HeaderKeys
    decide
  exact ⟨(format_metadata_canonical percentEncodes_urlEncode).1 _ _ hkeys hkeys',
    (format_metadata_canonical percentEncodes_urlEncode).2 _ hkeys (by decide)⟩

end S3rm
