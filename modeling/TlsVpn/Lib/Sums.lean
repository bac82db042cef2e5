import Mathlib.Algebra.BigOperators.Group.Finset.Piecewise
import Mathlib.Algebra.GroupWithZero.Nat
import Mathlib.Algebra.Order.BigOperators.Group.List
import Mathlib.Algebra.Order.Group.Nat
import Mathlib.Data.List.AList

/-!
# Sums over tables

What adds up over the entries of a table. `totalOf` is the sum of a column of a finite map, and
`totalOf_insert` its change when an entry is written: the new value comes in and the old one goes
out. `sumKey` is the sum over the records of one owner, and `sum_key_update` its change when the
value of one key grows. `share` splits a total into parts as evenly as integers allow, and
`sum_share` is the exactness of the split.
-/

namespace TlsVpn.Lib

open Function List

/-! ## The entries of a map -/

section

variable {κ V : Type*} [DecidableEq κ]

/-- What an entry contributes, nothing if there is none. -/
def contribution (m : AList fun _ : κ => V) (f : V → Nat) (k : κ) : Nat :=
  ((m.lookup k).map f).getD 0

/-- The sum of a column over the entries of a map. -/
def totalOf (m : AList fun _ : κ => V) (f : V → Nat) : Nat :=
  (m.keys.map (contribution m f)).sum

/-- The new value of an entry comes in, and the old one goes out. -/
theorem totalOf_insert (m : AList fun _ : κ => V) (f : V → Nat) (k : κ) (v : V) :
    totalOf (m.insert k v) f + contribution m f k = totalOf m f + f v := by
  have hrest : (m.keys.erase k).map (contribution (m.insert k v) f) =
      (m.keys.erase k).map (contribution m f) := by
    refine map_congr_left fun j hj => ?_
    have hne : j ≠ k := fun heq => (m.keys_nodup.not_mem_erase (heq ▸ hj))
    rw [contribution, AList.lookup_insert_ne hne, contribution]
  have hinsert : totalOf (m.insert k v) f =
      f v + ((m.keys.erase k).map (contribution m f)).sum := by
    rw [totalOf, AList.keys_insert, map_cons, sum_cons, hrest, contribution,
      AList.lookup_insert]
    rfl
  have hold : totalOf m f =
      contribution m f k + ((m.keys.erase k).map (contribution m f)).sum := by
    by_cases hk : k ∈ m
    · exact ((perm_cons_erase (AList.mem_keys.mp hk)).map _).sum_eq
    · have hnone : contribution m f k = 0 := by
        rw [contribution, AList.lookup_eq_none.mpr hk]
        rfl
      rw [hnone, erase_of_not_mem (fun h => hk (AList.mem_keys.mpr h)), Nat.zero_add, totalOf]
  omega

end

/-! ## The records of an owner -/

section

variable {α γ κ : Type} [DecidableEq γ] {owner : α → γ} {key : α → κ} {l : List α} {a : α}
  {f g : κ → Nat}

/-- The sum over the keys of the records of an owner. -/
def sumKey (owner : α → γ) (key : α → κ) (l : List α) (f : κ → Nat) (who : γ) : Nat :=
  ((l.filter fun x => owner x = who).map fun x => f (key x)).sum

theorem sum_key_cons (x : α) (rest : List α) (f : κ → Nat) (who : γ) :
    sumKey owner key (x :: rest) f who =
      (if owner x = who then f (key x) else 0) + sumKey owner key rest f who := by
  unfold sumKey
  by_cases hwho : owner x = who
  · rw [filter_cons_of_pos (by simpa using hwho), if_pos hwho, map_cons, sum_cons]
  · rw [filter_cons_of_neg (by simpa using hwho), if_neg hwho, Nat.zero_add]

theorem sum_key_append (first second : List α) (f : κ → Nat) (who : γ) :
    sumKey owner key (first ++ second) f who =
      sumKey owner key first f who + sumKey owner key second f who := by
  simp [sumKey]

theorem sum_key_congr (h : ∀ x ∈ l, f (key x) = g (key x)) (who : γ) :
    sumKey owner key l f who = sumKey owner key l g who :=
  congrArg List.sum (map_congr_left fun x hx => h x (mem_filter.mp hx).1)

theorem sum_key_mono (h : ∀ k, f k ≤ g k) (who : γ) :
    sumKey owner key l f who ≤ sumKey owner key l g who :=
  sum_le_sum fun x _ => h (key x)

/-- A value is at most the sum of its owner. -/
theorem le_sum_key (ha : a ∈ l) (f : κ → Nat) : f (key a) ≤ sumKey owner key l f (owner a) :=
  single_le_sum (by simp) _
    (mem_map_of_mem (f := fun x => f (key x)) (mem_filter.mpr ⟨ha, by simp⟩))

/-- If the value of one key grows, the sum of its owner grows by as much. -/
theorem sum_key_update [DecidableEq κ] (hkeys : (l.map key).Nodup) (ha : a ∈ l) (n : Nat)
    (who : γ) :
    sumKey owner key l (update f (key a) (f (key a) + n)) who =
      sumKey owner key l f who + if owner a = who then n else 0 := by
  induction l with
  | nil => cases ha
  | cons x rest ih =>
    obtain ⟨hx, hrest⟩ := nodup_cons.mp hkeys
    rw [sum_key_cons, sum_key_cons]
    rcases mem_cons.mp ha with rfl | hmem
    · have hothers : sumKey owner key rest (update f (key a) (f (key a) + n)) who =
          sumKey owner key rest f who := by
        refine sum_key_congr (fun y hy => update_of_ne ?_ _ _) who
        exact fun heq => hx (heq ▸ mem_map_of_mem hy)
      rw [hothers, update_self]
      split
      · omega
      · omega
    · have hne : key x ≠ key a := fun heq => hx (heq ▸ mem_map_of_mem hmem)
      rw [ih hrest hmem, update_of_ne hne]
      omega

end

/-! ## Even shares -/

/-- What the part with index `i` gets. -/
def share (total parts i : Nat) : Nat := total / parts + if i < total % parts then 1 else 0

theorem sum_share (total : Nat) {parts : Nat} (h : 0 < parts) :
    ∑ i ∈ Finset.range parts, share total parts i = total := by
  have hfirst : (Finset.range parts).filter (· < total % parts) = Finset.range (total % parts) := by
    ext i
    have hmod := Nat.mod_lt total h
    simp only [Finset.mem_filter, Finset.mem_range]
    omega
  have hones : ∑ i ∈ Finset.range parts, (if i < total % parts then 1 else 0) = total % parts := by
    rw [← Finset.card_filter, hfirst, Finset.card_range]
  calc ∑ i ∈ Finset.range parts, share total parts i
      = ∑ i ∈ Finset.range parts, total / parts
          + ∑ i ∈ Finset.range parts, (if i < total % parts then 1 else 0) := Finset.sum_add_distrib
    _ = parts * (total / parts) + total % parts := by
        rw [hones, Finset.sum_const_nat fun _ _ => rfl, Finset.card_range]
    _ = total := Nat.div_add_mod total parts

theorem share_antitone (total parts : Nat) : Antitone (share total parts) := by
  intro i j hle
  unfold share
  split
  · rename_i hj
    rw [if_pos (Nat.lt_of_le_of_lt hle hj)]
  · exact Nat.add_le_add_left (Nat.zero_le _) _

theorem share_le_succ (total parts i j : Nat) : share total parts i ≤ share total parts j + 1 := by
  unfold share
  split <;> split <;> omega

/-- Only a split into several parts has a part that gets one more. -/
theorem succ_quotient_le {total parts : Nat} (h : 0 < total % parts) :
    total / parts + 1 ≤ total := by
  have hsplit := Nat.div_add_mod total parts
  have hparts : total / parts ≤ parts * (total / parts) := by
    rcases Nat.eq_zero_or_pos parts with rfl | hpos
    · simp
    · exact Nat.le_mul_of_pos_left _ hpos
  omega

end TlsVpn.Lib
