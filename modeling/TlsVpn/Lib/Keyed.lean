import Mathlib.Data.List.Nodup
import Mathlib.Data.List.Perm.Basic
import Mathlib.Logic.Function.Basic

/-!
# Tables as lists

A table with keys is a list of records without two of one key. `find_key_eq_some` is the lookup, and
`updateKey` changes the record of a key.
-/

namespace TlsVpn.Lib

open List

variable {α κ : Type} [DecidableEq κ] {key : α → κ} {l : List α} {a b : α} {k : κ}

/-- The record of a key. -/
def findKey (key : α → κ) (l : List α) (k : κ) : Option α := l.find? fun x => key x = k

theorem mem_of_find_key (h : findKey key l k = some a) : a ∈ l ∧ key a = k :=
  ⟨mem_of_find?_eq_some h, by simpa using find?_some h⟩

theorem find_key_eq_none : findKey key l k = none ↔ ∀ x ∈ l, key x ≠ k := by
  simp [findKey, find?_eq_none]

theorem find_key_eq_some (hkeys : (l.map key).Nodup) :
    findKey key l k = some a ↔ a ∈ l ∧ key a = k := by
  refine ⟨mem_of_find_key, fun ⟨hmem, hkey⟩ => ?_⟩
  cases hfound : findKey key l k with
  | none => exact absurd hkey (find_key_eq_none.mp hfound a hmem)
  | some b =>
    obtain ⟨hb, hkeyb⟩ := mem_of_find_key hfound
    rw [inj_on_of_nodup_map hkeys hb hmem (hkeyb.trans hkey.symm)]

variable {f : α → α}

/-- The record of a key in a table whose records have changed. -/
theorem find_key_map (h : ∀ x, key (f x) = key x) :
    findKey key (l.map f) k = (findKey key l k).map f := by
  unfold findKey
  rw [find?_map]
  congr 2
  funext x
  exact congrArg (fun j => decide (j = k)) (h x)

/-- Taking the record of another key out of the table. -/
theorem find_key_eraseP {j : κ} (h : k ≠ j) :
    findKey key (l.eraseP fun x => key x = j) k = findKey key l k := by
  induction l with
  | nil => rfl
  | cons x rest ih =>
    by_cases hx : key x = j
    · rw [eraseP_cons_of_pos (by simpa using hx)]
      have hne : key x ≠ k := fun heq => h (heq.symm.trans hx)
      rw [findKey, findKey, find?_cons_of_neg (by simpa using hne)]
    · rw [eraseP_cons_of_neg (by simpa using hx)]
      unfold findKey at ih ⊢
      rw [find?_cons, find?_cons, ih]

omit [DecidableEq κ] in
theorem nodup_keys_filter (hkeys : (l.map key).Nodup) (p : α → Bool) :
    ((l.filter p).map key).Nodup :=
  hkeys.sublist (filter_sublist.map key)

/-- A record and the others. -/
theorem perm_cons_filter_key (hkeys : (l.map key).Nodup) (ha : a ∈ l) :
    l.Perm (a :: l.filter fun x => key x ≠ key a) := by
  induction l with
  | nil => cases ha
  | cons x rest ih =>
    obtain ⟨hx, hrest⟩ := nodup_cons.mp hkeys
    rcases mem_cons.mp ha with rfl | hmem
    · have hothers : rest.filter (fun x => key x ≠ key a) = rest :=
        filter_eq_self.mpr fun y hy => decide_eq_true fun heq =>
          hx (heq ▸ mem_map_of_mem hy)
      rw [filter_cons_of_neg (by simp), hothers]
    · have hne : key x ≠ key a := fun heq => hx (heq ▸ mem_map_of_mem hmem)
      rw [filter_cons_of_pos (by simpa using hne)]
      exact ((ih hrest hmem).cons x).trans (List.Perm.swap a x _)

/-- Changes the record of a key. -/
def updateKey (key : α → κ) (l : List α) (k : κ) (f : α → α) : List α :=
  l.map fun x => if key x = k then f x else x

theorem mem_updateKey :
    b ∈ updateKey key l k f ↔ (∃ a ∈ l, key a = k ∧ b = f a) ∨ b ∈ l ∧ key b ≠ k := by
  simp only [updateKey, mem_map]
  constructor
  · rintro ⟨a, ha, rfl⟩
    split
    · rename_i hkey
      exact .inl ⟨a, ha, hkey, rfl⟩
    · rename_i hkey
      exact .inr ⟨ha, hkey⟩
  · rintro (⟨a, ha, hkey, rfl⟩ | ⟨hb, hkey⟩)
    · exact ⟨a, ha, if_pos hkey⟩
    · exact ⟨b, hb, if_neg hkey⟩

/-- The record of a key after the change of one. -/
theorem find_key_updateKey {j : κ} (h : ∀ x, key (f x) = key x) :
    findKey key (updateKey key l j f) k =
      (findKey key l k).map fun x => if k = j then f x else x := by
  have hkey : ∀ x, key (if key x = j then f x else x) = key x := by
    intro x
    split
    · exact h x
    · rfl
  rw [updateKey, find_key_map hkey]
  cases hfound : findKey key l k with
  | none => rfl
  | some x =>
    show some (if key x = j then f x else x) = some (if k = j then f x else x)
    rw [(mem_of_find_key hfound).2]

/-- A column that the change of a record keeps is kept. -/
theorem map_updateKey {β : Type} {column : α → β}
    (h : ∀ a ∈ l, key a = k → column (f a) = column a) :
    (updateKey key l k f).map column = l.map column := by
  rw [updateKey, map_map]
  refine map_congr_left fun a ha => ?_
  show column (if key a = k then f a else a) = column a
  split
  · rename_i hkey
    exact h a ha hkey
  · rfl

end TlsVpn.Lib
