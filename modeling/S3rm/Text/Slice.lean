/-
S3rm/Text/Slice.lean

Texts measured in the bytes of their UTF-8, as Rust's `str` measures them.
An offset off the boundaries of the characters has no text before or after
it; cutting there is what panics.
-/
import Mathlib.Algebra.BigOperators.Group.List.Basic
import Mathlib.Algebra.GroupWithZero.Nat
import Mathlib.Data.List.Basic

namespace S3rm.Text

/-- `str::len`. -/
def byteLen (cs : List Char) : Nat := (cs.map Char.utf8Size).sum

/-- `str::split_at_checked`: the text before a byte offset and from it on. -/
def splitAtByte : List Char → Nat → Option (List Char × List Char)
  | cs, 0 => some ([], cs)
  | [], _ + 1 => none
  | c :: cs, n + 1 =>
    if c.utf8Size ≤ n + 1 then
      (splitAtByte cs (n + 1 - c.utf8Size)).map fun (before, after) => (c :: before, after)
    else none

/-- `str::find` of a character: its byte offset. -/
def findByte (c : Char) : List Char → Option Nat
  | [] => none
  | x :: xs => if x = c then some 0 else (findByte c xs).map (x.utf8Size + ·)

/-! ### Lengths -/

@[simp] theorem byteLen_nil : byteLen [] = 0 := rfl

@[simp] theorem byteLen_cons (c : Char) (cs : List Char) :
    byteLen (c :: cs) = c.utf8Size + byteLen cs := by
  rw [byteLen, List.map_cons, List.sum_cons]
  rfl

@[simp] theorem byteLen_append (as bs : List Char) :
    byteLen (as ++ bs) = byteLen as + byteLen bs := by
  rw [byteLen, List.map_append, List.sum_append]
  rfl

theorem byteLen_toList (s : String) : byteLen s.toList = s.utf8ByteSize := by
  obtain ⟨cs, rfl⟩ : ∃ cs, s = String.ofList cs := ⟨s.toList, String.ofList_toList.symm⟩
  rw [String.toList_ofList]
  induction cs with
  | nil => rfl
  | cons c cs ih =>
    have hcons : String.ofList (c :: cs) = String.singleton c ++ String.ofList cs := by
      apply String.toList_inj.mp
      simp
    rw [hcons, byteLen_cons, String.utf8ByteSize_append, String.utf8ByteSize_singleton, ih]

theorem utf8Size_pos (c : Char) : 0 < c.utf8Size := by
  show 0 < if _ then 1 else if _ then 2 else if _ then 3 else 4
  split_ifs <;> decide

theorem length_le_byteLen (cs : List Char) : cs.length ≤ byteLen cs := by
  induction cs with
  | nil => exact Nat.le_refl 0
  | cons c cs ih =>
    have hpos := utf8Size_pos c
    rw [List.length_cons, byteLen_cons]
    omega

/-- The characters that take one byte. -/
def Ascii (cs : List Char) : Prop := ∀ c ∈ cs, c.utf8Size = 1

theorem byteLen_eq_length {cs : List Char} : byteLen cs = cs.length ↔ Ascii cs := by
  induction cs with
  | nil => simp [Ascii]
  | cons c cs ih =>
    have hpos := utf8Size_pos c
    have hle := length_le_byteLen cs
    rw [byteLen_cons, List.length_cons]
    constructor
    · intro h x hx
      rcases List.mem_cons.mp hx with rfl | hx
      · omega
      · exact ih.mp (by omega) x hx
    · intro h
      have hc := h c List.mem_cons_self
      have hcs := ih.mpr fun x hx => h x (List.mem_cons_of_mem _ hx)
      omega

/-! ### Cutting -/

theorem splitAtByte_append (as bs : List Char) :
    splitAtByte (as ++ bs) (byteLen as) = some (as, bs) := by
  induction as with
  | nil =>
    rw [List.nil_append, byteLen_nil, splitAtByte]
  | cons c as ih =>
    have hpos := utf8Size_pos c
    obtain ⟨n, hn⟩ : ∃ n, c.utf8Size + byteLen as = n + 1 := ⟨c.utf8Size + byteLen as - 1, by omega⟩
    rw [List.cons_append, byteLen_cons, hn, splitAtByte, if_pos (by omega),
      show n + 1 - c.utf8Size = byteLen as by omega, ih]
    rfl

/-- A cut gives the two parts of the text, the first of the length asked for. -/
theorem splitAtByte_eq_some {cs as bs : List Char} {n : Nat} :
    splitAtByte cs n = some (as, bs) ↔ cs = as ++ bs ∧ byteLen as = n := by
  constructor
  · intro h
    induction cs generalizing n as with
    | nil =>
      cases n with
      | zero =>
        cases h
        exact ⟨rfl, rfl⟩
      | succ n => cases h
    | cons c cs ih =>
      cases n with
      | zero =>
        rw [splitAtByte] at h
        cases h
        exact ⟨rfl, rfl⟩
      | succ n =>
        rw [splitAtByte] at h
        split at h
        next hle =>
          obtain ⟨⟨before, after⟩, hcut, heq⟩ := Option.map_eq_some_iff.mp h
          cases heq
          obtain ⟨rfl, hlen⟩ := ih hcut
          refine ⟨rfl, ?_⟩
          rw [byteLen_cons, hlen]
          omega
        next => cases h
  · rintro ⟨rfl, rfl⟩
    exact splitAtByte_append as bs

/-! ### Searching -/

theorem findByte_eq_none {c : Char} {cs : List Char} : findByte c cs = none ↔ c ∉ cs := by
  induction cs with
  | nil => simp [findByte]
  | cons x xs ih =>
    rw [findByte]
    split
    next heq => simp [heq]
    next hne =>
      rw [Option.map_eq_none_iff, ih, List.mem_cons, not_or]
      exact ⟨fun h => ⟨fun heq => hne heq.symm, h⟩, fun h => h.2⟩

theorem findByte_append {c : Char} {as : List Char} (h : c ∉ as) (bs : List Char) :
    findByte c (as ++ c :: bs) = some (byteLen as) := by
  induction as with
  | nil => rw [List.nil_append, findByte, if_pos rfl, byteLen_nil]
  | cons x as ih =>
    rw [List.mem_cons, not_or] at h
    rw [List.cons_append, findByte, if_neg (Ne.symm h.1), ih h.2, byteLen_cons]
    rfl

/-! ### Strings -/

/-- `&s[..n]`. -/
def sliceTo (s : String) (n : Nat) : Option String :=
  (splitAtByte s.toList n).map fun parts => String.ofList parts.1

/-- `&s[n..]`. -/
def sliceFrom (s : String) (n : Nat) : Option String :=
  (splitAtByte s.toList n).map fun parts => String.ofList parts.2

/-- `s.find(c)`. -/
def find (s : String) (c : Char) : Option Nat := findByte c s.toList

/-- `s.starts_with(start)`. -/
def startsWith (s start : String) : Bool := start.toList.isPrefixOf s.toList

/-- `s.ends_with(tail)`. -/
def endsWith (s tail : String) : Bool := tail.toList.isSuffixOf s.toList

theorem startsWith_iff {s start : String} : startsWith s start ↔ ∃ rest, s = start ++ rest := by
  rw [startsWith, List.isPrefixOf_iff_prefix]
  constructor
  · rintro ⟨rest, h⟩
    refine ⟨String.ofList rest, ?_⟩
    apply String.toList_inj.mp
    rw [String.toList_append, String.toList_ofList, h]
  · rintro ⟨rest, rfl⟩
    rw [String.toList_append]
    exact List.prefix_append _ _

theorem splitAtByte_toList_append (s t : String) :
    splitAtByte (s ++ t).toList s.utf8ByteSize = some (s.toList, t.toList) := by
  rw [String.toList_append, ← byteLen_toList]
  exact splitAtByte_append _ _

theorem sliceTo_append (s t : String) : sliceTo (s ++ t) s.utf8ByteSize = some s := by
  rw [sliceTo, splitAtByte_toList_append, Option.map_some, String.ofList_toList]

theorem sliceFrom_append (s t : String) : sliceFrom (s ++ t) s.utf8ByteSize = some t := by
  rw [sliceFrom, splitAtByte_toList_append, Option.map_some, String.ofList_toList]

theorem find_eq_none {s : String} {c : Char} : find s c = none ↔ c ∉ s.toList := findByte_eq_none

theorem find_append {s : String} {c : Char} (h : c ∉ s.toList) (t : String) :
    find (s ++ String.singleton c ++ t) c = some s.utf8ByteSize := by
  rw [find, String.append_assoc, String.toList_append, String.toList_append,
    String.toList_singleton, List.singleton_append, findByte_append h, byteLen_toList]

end S3rm.Text
