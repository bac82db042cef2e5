import Mathlib.Data.List.MinMax
import Mathlib.Data.List.Sort

/-!
# Lists in an order

Three facts about what stands where in a list. `EachAfter P seen l` says that every element of `l`
has the property `P` with respect to everything in front of it, where `seen` is in front of the
whole list. It is how an append-only log or a FIFO stream states that one entry never comes before
another: `append` extends it at the end, and `of_split` reads it off at a position.

A list whose keys increase strictly is determined by its elements: it is a part of every other such
list that contains them (`sublist_of_increasing`).

The newest entries of a list without duplicates are kept by sorting it and taking the first ones
away. `mem_oldest` says which ones are taken away without the sorting: those with enough later
ones, and `length_newest` that the others are as many as are to be kept.
-/

namespace TlsVpn.Lib

open List

variable {α : Type*} {P Q : List α → α → Prop}

/-! ## Elements behind a front -/

/-- Every element has the property with respect to the elements in front of it. -/
def EachAfter (P : List α → α → Prop) : List α → List α → Prop
  | _, [] => True
  | seen, x :: rest => P seen x ∧ EachAfter P (seen ++ [x]) rest

namespace EachAfter

variable {seen front back l l' : List α} {x : α}

theorem append : EachAfter P seen (l ++ l') ↔ EachAfter P seen l ∧ EachAfter P (seen ++ l) l' := by
  induction l generalizing seen with
  | nil => simp [EachAfter]
  | cons x rest ih => simp [EachAfter, ih, and_assoc]

theorem of_split (h : EachAfter P seen (front ++ x :: back)) : P (seen ++ front) x :=
  (append.mp h).2.1

/-- An implication between the properties carries over, element by element. -/
theorem mono (h : EachAfter P seen l) (himp : ∀ front, ∀ x ∈ l, P front x → Q front x) :
    EachAfter Q seen l := by
  induction l generalizing seen with
  | nil => trivial
  | cons x rest ih =>
    exact ⟨himp seen x mem_cons_self h.1,
      ih h.2 (fun front y hy => himp front y (mem_cons_of_mem x hy))⟩

/-- A property that does not need the front beyond a part of it. -/
theorem of_forall (h : ∀ front, seen <+: front → ∀ x ∈ l, P front x) : EachAfter P seen l := by
  induction l generalizing seen with
  | nil => trivial
  | cons x rest ih =>
    refine ⟨h seen prefix_rfl x mem_cons_self, ih fun front hfront y hy => ?_⟩
    exact h front ((prefix_append seen [x]).trans hfront) y (mem_cons_of_mem x hy)

end EachAfter

/-! ## Increasing keys -/

/-- Elements that stand in a list with increasing keys, and have increasing keys themselves, are a
part of it. -/
theorem sublist_of_increasing {β : Type*} [Preorder β] (key : α → β) {part whole : List α}
    (hpart : (part.map key).Pairwise (· < ·)) (hwhole : (whole.map key).Pairwise (· < ·))
    (hsub : part ⊆ whole) : part.Sublist whole := by
  have hpart' : part.Pairwise fun a b => key a < key b := pairwise_map.mp hpart
  have hwhole' : whole.Pairwise fun a b => key a < key b := pairwise_map.mp hwhole
  have hnodup : part.Nodup := by
    refine hpart'.imp fun {a b} hlt heq => ?_
    rw [heq] at hlt
    exact lt_irrefl _ hlt
  have hasymm : Std.Antisymm fun a b : α => key a < key b :=
    ⟨fun a b hab hba => absurd hab (lt_asymm hba)⟩
  exact sublist_of_subperm_of_pairwise (subperm_of_subset hnodup hsub) hpart' hwhole'

/-! ## The newest entries -/

variable [LinearOrder α] {l : List α} {a : α} {n : Nat}

/-- How many entries are later than a value. -/
def later (l : List α) (a : α) : Nat := (l.filter fun x => a < x).length

/-- All entries but the newest ones. -/
def oldest (n : Nat) (l : List α) : List α := (l.insertionSort (· ≤ ·)).take (l.length - n)

/-- Sorting a list without duplicates gives a strictly increasing one. -/
theorem pairwise_lt_insertionSort (hnodup : l.Nodup) :
    (l.insertionSort (· ≤ ·)).Pairwise (· < ·) := by
  have hle : (l.insertionSort (· ≤ ·)).Pairwise (· ≤ ·) := pairwise_insertionSort _ _
  have hne := (l.perm_insertionSort (· ≤ ·)).nodup_iff.mpr hnodup
  exact (hle.and hne).imp fun ⟨hle, hne⟩ => lt_of_le_of_ne hle hne

/-- An entry splits the sorted list into the earlier and the later ones. -/
theorem exists_sorted_split (hnodup : l.Nodup) (ha : a ∈ l) :
    ∃ before after, l.insertionSort (· ≤ ·) = before ++ a :: after ∧ a ∉ before ∧
      later l a = after.length := by
  have hperm := l.perm_insertionSort (· ≤ ·)
  have hsorted := pairwise_lt_insertionSort hnodup
  obtain ⟨before, after, hsplit⟩ := append_of_mem (hperm.mem_iff.mpr ha)
  rw [hsplit] at hsorted
  obtain ⟨-, hafter, hbefore⟩ := pairwise_append.mp hsorted
  obtain ⟨hlater, -⟩ := pairwise_cons.mp hafter
  have hearlier : ∀ x ∈ before, x < a := fun x hx => hbefore x hx a mem_cons_self
  refine ⟨before, after, hsplit, fun hmem => lt_irrefl a (hearlier a hmem), ?_⟩
  have hfilter : (before ++ a :: after).filter (fun x => a < x) = after := by
    rw [filter_append, filter_cons_of_neg (by simp),
      filter_eq_nil_iff.mpr fun x hx => by simpa using (hearlier x hx).le,
      filter_eq_self.mpr fun x hx => by simpa using hlater x hx, nil_append]
  unfold later
  rw [← hfilter, ← hsplit]
  exact ((hperm.filter _).length_eq).symm

theorem mem_oldest (hnodup : l.Nodup) : a ∈ oldest n l ↔ a ∈ l ∧ n ≤ later l a := by
  have hperm := l.perm_insertionSort (· ≤ ·)
  by_cases ha : a ∈ l
  · obtain ⟨before, after, hsplit, hnot, hlater⟩ := exists_sorted_split hnodup ha
    have hlength := hperm.length_eq
    rw [hsplit, length_append, length_cons] at hlength
    unfold oldest
    rw [hsplit, hlater, take_append, mem_append]
    constructor
    · rintro (hmem | hmem)
      · exact absurd (mem_of_mem_take hmem) hnot
      · refine ⟨ha, ?_⟩
        by_contra hshort
        rw [show l.length - n - before.length = 0 by omega] at hmem
        cases hmem
    · rintro ⟨-, hle⟩
      right
      obtain ⟨k, hk⟩ : ∃ k, l.length - n - before.length = k + 1 :=
        ⟨l.length - n - before.length - 1, by omega⟩
      rw [hk]
      exact mem_cons_self
  · refine ⟨fun hmem => ?_, fun h => absurd h.1 ha⟩
    exact absurd (hperm.mem_iff.mp (mem_of_mem_take hmem)) ha

/-- The number of entries that are kept. -/
theorem length_newest (hnodup : l.Nodup) (hn : n ≤ l.length) :
    (l.filter fun a => later l a < n).length = n := by
  have hperm := l.perm_insertionSort (· ≤ ·)
  have hsplit : (oldest n l ++ (l.insertionSort (· ≤ ·)).drop (l.length - n)).Perm l := by
    unfold oldest
    rw [take_append_drop]
    exact hperm
  have hdisjoint := hsplit.nodup_iff.mpr hnodup
  obtain ⟨-, -, hapart⟩ := nodup_append.mp hdisjoint
  have hkept : (l.filter fun a => later l a < n).Perm
      ((l.insertionSort (· ≤ ·)).drop (l.length - n)) := by
    refine (hsplit.symm.filter _).trans ?_
    rw [filter_append, filter_eq_nil_iff.mpr, nil_append, filter_eq_self.mpr]
    · intro a ha
      have hmem : a ∈ l := hsplit.mem_iff.mp (mem_append_right _ ha)
      have hnot : a ∉ oldest n l := fun hold => hapart a hold a ha rfl
      rw [mem_oldest hnodup] at hnot
      exact decide_eq_true (Nat.lt_of_not_le fun hle => hnot ⟨hmem, hle⟩)
    · intro a ha
      rw [mem_oldest hnodup] at ha
      simpa using ha.2
  rw [hkept.length_eq, length_drop, length_insertionSort]
  omega

/-- There is an entry that none is later than. -/
theorem exists_latest (ha : a ∈ l) : ∃ b ∈ l, a ≤ b ∧ later l b = 0 := by
  have hpos := length_pos_of_mem ha
  refine ⟨l.maximum_of_length_pos hpos, maximum_of_length_pos_mem hpos,
    le_maximum_of_length_pos_of_mem ha hpos, ?_⟩
  rw [later, length_eq_zero_iff, filter_eq_nil_iff]
  intro x hx
  simpa using le_maximum_of_length_pos_of_mem hx hpos

/-- Entries of another list that are all later than a value bound its rank. -/
theorem le_later {others : List α} (hnodup : others.Nodup) (hmem : ∀ x ∈ others, x ∈ l)
    (hlater : ∀ x ∈ others, a < x) : others.length ≤ later l a :=
  (subperm_of_subset hnodup fun x hx =>
    mem_filter.mpr ⟨hmem x hx, decide_eq_true (hlater x hx)⟩).length_le

/-- An entry is not later than itself. -/
theorem later_lt_length (ha : a ∈ l) : later l a < l.length :=
  length_filter_lt_length_iff_exists.mpr ⟨a, ha, by simp⟩

end TlsVpn.Lib
