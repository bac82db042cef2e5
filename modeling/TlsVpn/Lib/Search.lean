import Mathlib.Logic.Function.Iterate

/-!
# Search loops

A loop that goes from one element to the next while it is inside a region, and ends at the first
element that it looks for. It may not end at all, so the model has fuel; `none` says that the fuel
is used up. What the loop returns is described by the positions it has passed.
-/

namespace TlsVpn.Lib

variable {α : Type} (inside found : α → Bool) (next : α → α)

/-- The element that is found, or none if the loop leaves the region. -/
def search : Nat → α → Option (Option α)
  | 0, _ => none
  | fuel + 1, a =>
    if inside a then
      if found a then some (some a) else search fuel (next a)
    else some none

variable {inside found next}

theorem search_succ (fuel : Nat) (a : α) :
    search inside found next (fuel + 1) a =
      if inside a then
        if found a then some (some a) else search inside found next fuel (next a)
      else some none := rfl

variable {fuel : Nat} {a : α}

/-- What is found is the first element of its kind. -/
theorem search_found {b : α} (h : search inside found next fuel a = some (some b)) :
    ∃ i, next^[i] a = b ∧ found b = true ∧ (∀ j ≤ i, inside (next^[j] a) = true) ∧
      ∀ j < i, found (next^[j] a) = false := by
  induction fuel generalizing a with
  | zero => cases h
  | succ fuel ih =>
    rw [search_succ] at h
    split at h
    · rename_i hinside
      split at h
      · rename_i hfound
        cases h
        refine ⟨0, rfl, hfound, fun j hbefore => ?_, fun j hbefore => ?_⟩
        · rw [Nat.le_zero.mp hbefore]
          exact hinside
        · exact absurd hbefore (Nat.not_lt_zero j)
      · rename_i hnotFound
        obtain ⟨i, hreached, hfound, hpassed, hmissed⟩ := ih h
        refine ⟨i + 1, hreached, hfound, fun j hbefore => ?_, fun j hbefore => ?_⟩
        · cases j with
          | zero => exact hinside
          | succ j => exact hpassed j (Nat.le_of_succ_le_succ hbefore)
        · cases j with
          | zero => simpa using hnotFound
          | succ j => exact hmissed j (Nat.lt_of_succ_lt_succ hbefore)
    · cases h

/-- If nothing is found, the loop has left the region. -/
theorem search_stopped (h : search inside found next fuel a = some none) :
    ∃ i, inside (next^[i] a) = false ∧
      ∀ j < i, found (next^[j] a) = false := by
  induction fuel generalizing a with
  | zero => cases h
  | succ fuel ih =>
    rw [search_succ] at h
    split at h
    · split at h
      · cases h
      · rename_i hnotFound
        obtain ⟨i, hleft, hmissed⟩ := ih h
        refine ⟨i + 1, hleft, fun j hbefore => ?_⟩
        cases j with
        | zero => simpa using hnotFound
        | succ j => exact hmissed j (Nat.lt_of_succ_lt_succ hbefore)
    · rename_i houtside
      exact ⟨0, by simpa using houtside, fun j hbefore => absurd hbefore (Nat.not_lt_zero j)⟩

/-- The loop ends at the latest where it leaves the region or finds something. -/
theorem search_returns {i : Nat} (h : inside (next^[i] a) = false ∨ found (next^[i] a) = true) :
    ∃ r, search inside found next (i + 1) a = some r := by
  induction i generalizing a with
  | zero =>
    rw [search_succ]
    rcases h with houtside | hfound
    · exact ⟨none, by simp_all⟩
    · by_cases hinside : inside a = true
      · exact ⟨some a, by simp_all⟩
      · exact ⟨none, by simp_all⟩
  | succ i ih =>
    rw [search_succ]
    split
    · split
      · exact ⟨_, rfl⟩
      · exact ih h
    · exact ⟨_, rfl⟩

/-- More fuel does not change the result. -/
theorem search_mono {fuel' : Nat} (hle : fuel ≤ fuel') {r : Option α}
    (h : search inside found next fuel a = some r) : search inside found next fuel' a = some r := by
  induction fuel generalizing fuel' a with
  | zero => cases h
  | succ fuel ih =>
    obtain ⟨more, rfl⟩ := Nat.exists_eq_add_of_le' hle
    rw [search_succ] at h
    rw [show more + (fuel + 1) = (more + fuel) + 1 from rfl, search_succ]
    split at h
    · rename_i hinside
      rw [if_pos hinside]
      split at h
      · rename_i hfound
        rw [if_pos hfound, h]
      · rename_i hnotFound
        rw [if_neg hnotFound]
        exact ih (Nat.le_add_left fuel more) h
    · rename_i houtside
      rw [if_neg houtside, h]

end TlsVpn.Lib
