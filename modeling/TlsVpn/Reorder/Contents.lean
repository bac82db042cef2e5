import TlsVpn.Reorder.Window

/-!
# The frames inside the buffer

Every frame that enters the buffer is a pooled allocation that somebody must give back. `contents`
counts the frames that the ring and the list of ordered frames hold. An insertion adds its frame
exactly if the buffer accepts it, and otherwise the caller's frame is released
(`contents_inserted`); draining, growing and skipping keep the contents.
-/

namespace TlsVpn.Reorder

open Lib ReorderBuffer Function

variable {Frame : Type} {rb : ReorderBuffer Frame}

/-- The frames in the ring and those ready for delivery. -/
def ReorderBuffer.contents (rb : ReorderBuffer Frame) : Multiset Frame :=
  slotContents rb.ring rb.ringLen + rb.pending

/-- A ring of a proper size in which every frame stands in the slot of the number noted beside
it. -/
structure ReorderBuffer.Stored (rb : ReorderBuffer Frame) : Prop where
  size : SizeOk rb.ringLen
  slots : ∀ i frame, rb.ring i = some frame → i = rb.seqSlots i % rb.ringLen

theorem ReorderBuffer.Stored.ring_len_pos (h : rb.Stored) : 0 < rb.ringLen := by
  obtain ⟨n, hn⟩ := h.size.1
  rw [hn]
  exact Nat.two_pow_pos n

theorem slot_lt_ring_len (hpos : 0 < rb.ringLen) (seq : Nat) : rb.slot seq < rb.ringLen := by
  have hle : rb.slot seq ≤ rb.windowMask := Nat.and_le_right
  unfold ReorderBuffer.windowMask at hle
  omega

/-! ## Draining -/

theorem contents_take_expected {frame : Frame} (hpos : 0 < rb.ringLen)
    (hslot : rb.ring (rb.slot rb.expectedSeq) = some frame) :
    (rb.takeExpected frame).contents = rb.contents := by
  have hring := slot_contents_empty (slot_lt_ring_len hpos rb.expectedSeq) hslot
  show slotContents (update rb.ring (rb.slot rb.expectedSeq) none) rb.ringLen +
    (rb.pending ++ [frame] : List Frame) = slotContents rb.ring rb.ringLen + rb.pending
  rw [← hring, ← Multiset.coe_add, Multiset.coe_singleton]
  ac_rfl

theorem contents_drain_loop (fuel : Nat) (hpos : 0 < rb.ringLen) :
    (drainLoop fuel rb).contents = rb.contents := by
  induction fuel generalizing rb with
  | zero => rfl
  | succ fuel ih =>
    simp only [drainLoop]
    cases hslot : rb.ring (rb.slot rb.expectedSeq) with
    | none => rfl
    | some frame =>
      have htaken : 0 < (rb.takeExpected frame).ringLen := hpos
      exact (ih htaken).trans (contents_take_expected hpos hslot)

theorem contents_refresh (rb : ReorderBuffer Frame) (now : Nat) :
    (rb.refreshGapLocked now).1.contents = rb.contents := by
  obtain ⟨since, events, hrefresh⟩ := refresh_eq rb now
  rw [hrefresh]
  rfl

theorem contents_drain (hpos : 0 < rb.ringLen) (now : Nat) :
    (rb.drainLocked now).1.contents = rb.contents := by
  have hloop : (drainLoop rb.ringLen { rb with gapSince := none }).contents = rb.contents :=
    contents_drain_loop _ hpos
  exact (contents_refresh _ now).trans hloop

theorem contents_skip_gap (hpos : 0 < rb.ringLen) (now : Nat) :
    (rb.skipGap now).contents = rb.contents := by
  unfold skipGap
  split
  · split
    · rfl
    · rename_i skipped hskip
      have hpos' : 0 < (rb.skipTo skipped).ringLen := hpos
      exact contents_drain hpos' now
  · rfl

/-! ## Growing -/

theorem rehash_free {newLen j : Nat} (count : Nat)
    (hfree : ∀ i < count, ∀ frame, rb.ring i = some frame → rb.seqSlots i &&& (newLen - 1) ≠ j) :
    (rb.rehash newLen count).1 j = none := by
  induction count with
  | zero => rfl
  | succ last ih =>
    have hrest := ih fun i hi => hfree i (by omega)
    simp only [rehash]
    cases hlast : rb.ring last with
    | none => exact hrest
    | some frame =>
      have hne := hfree last (by omega) frame hlast
      simp only [update_of_ne hne.symm]
      exact hrest

/-- The copying loop puts every frame into a slot of its own. -/
theorem contents_rehash {newLen : Nat} (h : rb.Stored) (hpow : ∃ n, newLen = 2 ^ n)
    (hlarger : rb.ringLen ≤ newLen) (count : Nat) :
    slotContents (rb.rehash newLen count).1 newLen = slotContents rb.ring count := by
  have hdvd : rb.ringLen ∣ newLen := by
    obtain ⟨n, hn⟩ := h.size.1
    obtain ⟨m, rfl⟩ := hpow
    rw [hn] at hlarger ⊢
    exact Nat.pow_dvd_pow 2 ((Nat.pow_le_pow_iff_right (by omega)).mp hlarger)
  induction count with
  | zero => exact slot_contents_of_empty fun _ => rfl
  | succ last ih =>
    rw [slot_contents_succ, ← ih]
    simp only [rehash]
    cases hlast : rb.ring last with
    | none => exact (add_zero _).symm
    | some frame =>
      have hpos : 0 < newLen := lt_of_lt_of_le h.ring_len_pos hlarger
      have hlt : rb.seqSlots last &&& (newLen - 1) < newLen := by
        have hle : rb.seqSlots last &&& (newLen - 1) ≤ newLen - 1 := Nat.and_le_right
        omega
      -- a frame in the same new slot would have been in the same old one
      have hfree : (rb.rehash newLen last).1 (rb.seqSlots last &&& (newLen - 1)) = none := by
        refine rehash_free last fun i hi other hother heq => ?_
        rw [and_mask_eq_mod hpow, and_mask_eq_mod hpow] at heq
        have hsame : rb.seqSlots i % rb.ringLen = rb.seqSlots last % rb.ringLen := by
          rw [← Nat.mod_mod_of_dvd _ hdvd, heq, Nat.mod_mod_of_dvd _ hdvd]
        have hi' := h.slots i other hother
        have hlast' := h.slots last frame hlast
        omega
      exact slot_contents_fill hlt hfree frame

theorem contents_widen {diff : Nat} {wide : ReorderBuffer Frame} (h : rb.Stored)
    (hwiden : rb.widen diff = some wide) :
    wide.contents = rb.contents ∧ 0 < wide.ringLen := by
  unfold ReorderBuffer.widen at hwiden
  split at hwiden
  · split at hwiden
    · cases hwiden
    · obtain ⟨newLen, hgrown⟩ := grow_eq hwiden
      have hlarger := grow_larger h.size.1 h.size.2.2 hwiden
      have hpow := (grow_ring_len h.size.1 hwiden).1
      rw [hgrown] at hlarger hpow ⊢
      refine ⟨?_, lt_of_lt_of_le h.ring_len_pos hlarger⟩
      show slotContents (rb.rehash newLen rb.ringLen).1 newLen + (rb.pending : Multiset Frame) = _
      rw [contents_rehash h hpow hlarger]
      rfl
  · cases hwiden
    exact ⟨rfl, h.ring_len_pos⟩

/-! ## Inserting -/

theorem contents_place {now seq : Nat} {frame : Frame} (hpos : 0 < rb.ringLen)
    (hfree : rb.ring (rb.slot seq) = none) :
    (rb.place now seq frame).1.contents = rb.contents + {frame} := by
  have hstore : (rb.store seq frame).contents = rb.contents + {frame} := by
    show slotContents (update rb.ring (rb.slot seq) (some frame)) rb.ringLen +
      (rb.pending : Multiset Frame) = _
    rw [slot_contents_fill (slot_lt_ring_len hpos seq) hfree, ReorderBuffer.contents]
    ac_rfl
  have hpos' : 0 < (rb.store seq frame).ringLen := hpos
  unfold ReorderBuffer.place
  rw [hfree]
  dsimp only
  split
  · rw [contents_drain hpos', hstore]
  · rw [contents_refresh, hstore]

/-- The frames that an insertion gives back to the pool. -/
def ReorderBuffer.rejected (rb : ReorderBuffer Frame) (seq : Nat) (frame : Frame) : List Frame :=
  if rb.Accepts seq then [] else [frame]

/-- An insertion keeps the frame or gives it back. -/
theorem contents_inserted (h : rb.Stored) (now seq : Nat) (frame : Frame) :
    (rb.inserted now seq frame).contents + (rb.rejected seq frame : Multiset Frame) =
      rb.contents + {frame} := by
  have hadopt : (rb.adopt seq).contents = rb.contents ∧ (rb.adopt seq).Stored := by
    unfold ReorderBuffer.adopt
    split
    · exact ⟨rfl, h.size, h.slots⟩
    · exact ⟨rfl, h⟩
  obtain ⟨hcontents, hstored⟩ := hadopt
  unfold ReorderBuffer.rejected
  by_cases haccepts : rb.Accepts seq
  · obtain ⟨wide, hwiden, hfree, heq⟩ := inserted_of_accepts haccepts now frame
    obtain ⟨hwide, hpos⟩ := contents_widen hstored hwiden
    rw [if_pos haccepts, heq, contents_place hpos hfree, hwide, hcontents]
    exact add_zero _
  · rw [if_neg haccepts]
    rcases inserted_of_not_accepts haccepts now frame with heq | ⟨wide, hwiden, heq⟩
    · rw [heq, hcontents]
      rfl
    · rw [heq, (contents_widen hstored hwiden).1, hcontents]
      rfl

end TlsVpn.Reorder
