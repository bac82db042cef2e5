import Mathlib.Algebra.BigOperators.Group.Finset.Basic
import Mathlib.Algebra.Order.Group.Multiset
import Mathlib.Data.Finset.Card
import Mathlib.Data.Finset.Image
import Mathlib.Logic.Function.Basic

/-!
# Tables of slots

A table of `size` slots, each of which may hold a value. `slotCount` is the number of slots that do;
the lemmas say how it changes when a slot is filled or emptied, and that moving the values to the
slots of another table, each to one of its own, keeps it. `slotContents` are the values, each as
often as it occurs, so that an account of where values go can be kept as an equation between
multisets.
-/

namespace TlsVpn.Lib

open Function

variable {α : Type*}

/-- The slots that hold a value. -/
def occupied (slots : Nat → Option α) (size : Nat) : Finset Nat :=
  (Finset.range size).filter fun i => (slots i).isSome = true

/-- The number of slots that hold a value. -/
def slotCount (slots : Nat → Option α) (size : Nat) : Nat := (occupied slots size).card

variable {slots slots' : Nat → Option α} {size size' : Nat}

variable {i : Nat}

theorem mem_occupied : i ∈ occupied slots size ↔ i < size ∧ (slots i).isSome = true := by
  rw [occupied, Finset.mem_filter, Finset.mem_range]

variable {value : α}

theorem slot_count_pos (hi : i < size) (hvalue : slots i = some value) :
    0 < slotCount slots size := by
  refine Finset.card_pos.mpr ⟨i, mem_occupied.mpr ⟨hi, ?_⟩⟩
  rw [hvalue]
  rfl

theorem exists_of_slot_count_pos (h : 0 < slotCount slots size) :
    ∃ i value, i < size ∧ slots i = some value := by
  obtain ⟨i, hi⟩ := Finset.card_pos.mp h
  obtain ⟨hlt, hsome⟩ := mem_occupied.mp hi
  obtain ⟨value, hvalue⟩ := Option.isSome_iff_exists.mp hsome
  exact ⟨i, value, hlt, hvalue⟩

theorem slot_count_of_empty (h : ∀ i, slots i = none) : slotCount slots size = 0 := by
  refine Finset.card_eq_zero.mpr (Finset.filter_eq_empty_iff.mpr fun i _ => ?_)
  rw [h i]
  exact Bool.false_ne_true

/-- Filling a free slot adds one. -/
theorem slot_count_fill (hi : i < size) (hfree : slots i = none) (value : α) :
    slotCount (update slots i (some value)) size = slotCount slots size + 1 := by
  have hnot : i ∉ occupied slots size := by
    intro hmem
    have hsome := (mem_occupied.mp hmem).2
    rw [hfree] at hsome
    cases hsome
  have hinsert : occupied (update slots i (some value)) size =
      insert i (occupied slots size) := by
    ext j
    rw [Finset.mem_insert, mem_occupied, mem_occupied, update_apply]
    by_cases hj : j = i
    · simp [hj, hi]
    · simp [hj]
  rw [slotCount, hinsert, Finset.card_insert_of_notMem hnot, slotCount]

/-- Emptying a filled slot removes one. -/
theorem slot_count_empty (hi : i < size) (hvalue : slots i = some value) :
    slotCount (update slots i none) size + 1 = slotCount slots size := by
  have hback : update (update slots i none) i (some value) = slots := by
    rw [update_idem, ← hvalue, update_eq_self]
  have hfill := slot_count_fill hi (update_self i none slots) value
  rw [hback] at hfill
  exact hfill.symm

/-- Values that move to slots of their own keep their number. -/
theorem slot_count_move (target : Nat → Nat)
    (hinj : ∀ i j, (slots i).isSome = true → (slots j).isSome = true → target i = target j → i = j)
    (hto : ∀ i, i < size → (slots i).isSome = true →
      target i < size' ∧ (slots' (target i)).isSome = true)
    (hfrom : ∀ j, (slots' j).isSome = true →
      ∃ i, i < size ∧ (slots i).isSome = true ∧ target i = j) :
    slotCount slots' size' = slotCount slots size := by
  have himage : occupied slots' size' = (occupied slots size).image target := by
    ext j
    rw [Finset.mem_image, mem_occupied]
    constructor
    · rintro ⟨-, hsome⟩
      obtain ⟨i, hi, hisome, rfl⟩ := hfrom j hsome
      exact ⟨i, mem_occupied.mpr ⟨hi, hisome⟩, rfl⟩
    · rintro ⟨i, hi, rfl⟩
      obtain ⟨hlt, hsome⟩ := mem_occupied.mp hi
      exact hto i hlt hsome
  rw [slotCount, himage, slotCount]
  refine Finset.card_image_of_injOn fun i hi j hj heq => ?_
  exact hinj i j (mem_occupied.mp hi).2 (mem_occupied.mp hj).2 heq

/-! ## Contents -/

/-- The value of a slot, if it has one. -/
def single : Option α → Multiset α
  | none => 0
  | some value => {value}

/-- The values of the first `size` slots. -/
def slotContents (slots : Nat → Option α) (size : Nat) : Multiset α :=
  ∑ i ∈ Finset.range size, single (slots i)

variable {i : Nat}

theorem slot_contents_succ (slots : Nat → Option α) (size : Nat) :
    slotContents slots (size + 1) = slotContents slots size + single (slots size) :=
  Finset.sum_range_succ _ _

theorem slot_contents_of_empty (h : ∀ i, slots i = none) : slotContents slots size = 0 :=
  Finset.sum_eq_zero fun i _ => by rw [h i]; rfl

theorem slot_contents_fill (hi : i < size) (hfree : slots i = none) (value : α) :
    slotContents (update slots i (some value)) size =
      slotContents slots size + {value} := by
  have hrest : ∀ j ∈ (Finset.range size).erase i,
      single (update slots i (some value) j) = single (slots j) := fun j hj => by
    rw [update_of_ne (Finset.ne_of_mem_erase hj)]
  have hmem := Finset.mem_range.mpr hi
  unfold slotContents
  rw [← Finset.sum_erase_add _ _ hmem, ← Finset.sum_erase_add _ _ hmem, Finset.sum_congr rfl hrest,
    update_self, hfree, single, single, add_zero]

theorem slot_contents_empty (hi : i < size) (hvalue : slots i = some value) :
    slotContents (update slots i none) size + {value} = slotContents slots size := by
  have hfill := slot_contents_fill hi (update_self i none slots) value
  rw [update_idem, ← hvalue, update_eq_self] at hfill
  exact hfill.symm

/-- The values of a table as a list. -/
theorem coe_filter_map_range (slots : Nat → Option α) (size : Nat) :
    (((List.range size).filterMap slots : List α) : Multiset α) = slotContents slots size := by
  induction size with
  | zero => rfl
  | succ size ih =>
    rw [List.range_succ, List.filterMap_append, ← Multiset.coe_add, ih, slot_contents_succ]
    cases hslot : slots size with
    | none => rw [List.filterMap_cons_none hslot]; rfl
    | some value => rw [List.filterMap_cons_some hslot]; rfl

end TlsVpn.Lib
