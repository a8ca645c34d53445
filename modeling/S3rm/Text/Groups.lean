/-
S3rm/Text/Groups.lean

Texts grouped by a delimiter.  Below a given start, a text belongs to the group
named by the start and what follows it, up to and including the first
delimiter; a text with no delimiter there belongs to no group.

    prefix_group_iff    the texts of a group are those that begin with its name
    sum_groups          each element is in no group or in one
-/
import Mathlib.Algebra.Order.Group.Multiset
import Mathlib.Algebra.BigOperators.Group.Finset.Basic

namespace S3rm.Text

/-! ### Names of groups -/

section names

variable {α : Type} [DecidableEq α] {delimiter start seg q s t u : List α}

/-- A text up to and including the first delimiter. -/
def upTo (delimiter : List α) : List α → Option (List α)
  | [] => if delimiter = [] then some [] else none
  | c :: cs =>
    if delimiter <+: c :: cs then some delimiter else (upTo delimiter cs).map (c :: ·)

/-- The group of a text below `start`. -/
def groupOf (delimiter start text : List α) : Option (List α) :=
  (upTo delimiter (text.drop start.length)).map (start ++ ·)

theorem prefix_of_upTo (h : upTo delimiter s = some seg) : seg <+: s := by
  induction s generalizing seg with
  | nil =>
    obtain ⟨-, heq⟩ := Option.ite_none_right_eq_some.mp h
    obtain rfl := Option.some.inj heq
    exact List.prefix_refl _
  | cons c cs ih =>
    rw [upTo] at h
    split at h
    · rename_i hstart
      obtain rfl := Option.some.inj h
      exact hstart
    · obtain ⟨seg, hseg, rfl⟩ := Option.map_eq_some_iff.mp h
      exact List.cons_prefix_cons.mpr ⟨rfl, ih hseg⟩

theorem length_le_of_upTo (h : upTo delimiter s = some seg) : delimiter.length ≤ seg.length := by
  induction s generalizing seg with
  | nil =>
    obtain ⟨rfl, heq⟩ := Option.ite_none_right_eq_some.mp h
    obtain rfl := Option.some.inj heq
    exact Nat.le_refl _
  | cons c cs ih =>
    rw [upTo] at h
    split at h
    · obtain rfl := Option.some.inj h
      exact Nat.le_refl _
    · obtain ⟨seg, hseg, rfl⟩ := Option.map_eq_some_iff.mp h
      exact Nat.le_succ_of_le (ih hseg)

/-- The first delimiter is found again in every text that begins so. -/
theorem upTo_of_prefix (h : upTo delimiter s = some seg) (hu : seg <+: u) :
    upTo delimiter u = some seg := by
  induction s generalizing seg u with
  | nil =>
    obtain ⟨rfl, heq⟩ := Option.ite_none_right_eq_some.mp h
    obtain rfl := Option.some.inj heq
    cases u <;> simp [upTo]
  | cons c cs ih =>
    rw [upTo] at h
    split at h
    · obtain rfl := Option.some.inj h
      cases u with
      | nil => simp [upTo, List.prefix_nil.mp hu]
      | cons c' u => rw [upTo, if_pos hu]
    · rename_i hnot
      obtain ⟨seg', hseg, rfl⟩ := Option.map_eq_some_iff.mp h
      rcases u with - | ⟨c', u⟩
      · cases List.prefix_nil.mp hu
      · obtain ⟨rfl, hu'⟩ := List.cons_prefix_cons.mp hu
        -- an earlier delimiter of `u` would have been one of `s`
        have hlate : ¬ delimiter <+: c :: u := by
          intro hearly
          have hlen := Nat.le_succ_of_le (length_le_of_upTo hseg)
          have hwithin := List.prefix_of_prefix_length_le hearly hu hlen
          exact hnot (hwithin.trans (List.cons_prefix_cons.mpr ⟨rfl, prefix_of_upTo hseg⟩))
        rw [upTo, if_neg hlate, ih hseg hu']
        rfl

theorem groupOf_append (start rest : List α) :
    groupOf delimiter start (start ++ rest) = (upTo delimiter rest).map (start ++ ·) := by
  rw [groupOf, List.drop_left]

/-- **The texts of a group** are those that begin with its name. -/
theorem prefix_group_iff (ht : start <+: t) (hq : groupOf delimiter start t = some q) :
    q <+: u ↔ start <+: u ∧ groupOf delimiter start u = some q := by
  obtain ⟨rest, rfl⟩ := ht
  rw [groupOf_append] at hq
  obtain ⟨seg, hseg, rfl⟩ := Option.map_eq_some_iff.mp hq
  constructor
  · intro h
    obtain ⟨tail, rfl⟩ := h
    rw [List.append_assoc]
    refine ⟨List.prefix_append _ _, ?_⟩
    rw [groupOf_append, upTo_of_prefix hseg (List.prefix_append seg tail)]
    rfl
  · rintro ⟨⟨rest', rfl⟩, hu⟩
    rw [groupOf_append] at hu
    obtain ⟨seg', hseg', heq⟩ := Option.map_eq_some_iff.mp hu
    obtain rfl := List.append_cancel_left heq
    exact (List.prefix_append_right_inj start).mpr (prefix_of_upTo hseg')

theorem ne_nil_of_groupOf (hd : delimiter ≠ []) (hq : groupOf delimiter start t = some q) : q ≠ [] := by
  obtain ⟨seg, hseg, rfl⟩ := Option.map_eq_some_iff.mp hq
  have hlen := length_le_of_upTo hseg
  have hpos := List.length_pos_iff.mpr hd
  intro hnil
  rw [(List.append_eq_nil_iff.mp hnil).2] at hlen
  exact absurd (Nat.lt_of_lt_of_le hpos hlen) (Nat.lt_irrefl 0)

end names

/-! ### Groups -/

variable {α β : Type} [DecidableEq α] [DecidableEq β]

/-- **Each element is in no group, or in one.** -/
theorem sum_groups (group : α → Option β) (s : Multiset α) {names : List β} (hnodup : names.Nodup)
    (hnames : ∀ q, q ∈ names ↔ ∃ a ∈ s, group a = some q) :
    s.filter (group · = none) + (names.map fun q => s.filter (group · = some q)).sum = s := by
  ext a
  rw [Multiset.count_add, Multiset.count_filter, ← List.sum_toFinset _ hnodup, Multiset.count_sum']
  rcases ha : group a with - | q
  · rw [if_pos rfl]
    simp [ha]
  · rw [if_neg nofun, Nat.zero_add]
    by_cases hmem : a ∈ s
    · have hq : q ∈ names.toFinset := List.mem_toFinset.mpr ((hnames q).mpr ⟨a, hmem, ha⟩)
      rw [Finset.sum_eq_single_of_mem q hq, Multiset.count_filter, if_pos ha]
      intro q' _ hne
      rw [Multiset.count_filter, if_neg]
      rw [ha]
      exact fun h => hne (Option.some.inj h).symm
    · rw [Multiset.count_eq_zero_of_notMem hmem]
      apply Finset.sum_eq_zero
      intro q' _
      rw [Multiset.count_filter, Multiset.count_eq_zero_of_notMem hmem, ite_self]

end S3rm.Text
