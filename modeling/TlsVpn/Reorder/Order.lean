import Mathlib.Data.Nat.ModEq
import TlsVpn.Reorder.Buffer

/-!
# Delivery order of the reorder buffer

Frames carry the sequence number they were inserted under, here through an arbitrary map `tag`.
`Sorted` is the window invariant: with `next` the expected sequence number counted without
wrapping, every occupied slot holds a frame whose number lies in the window from `next` on and
determines the slot, and the frames handed out so far have increasing numbers below `next`.

The invariant survives insertion, growth, draining and gap expiry as long as no insertion meets
the wrapped counter (`Numbered`); `delivered_increasing` is the resulting order of delivery. At
the top of the sequence space the buffer takes the wrapped counter for an uninitialised one and
delivers a frame twice (`last_sequence_delivered_twice`).
-/

namespace TlsVpn.Reorder

open Lib ReorderBuffer Function List

variable {Frame : Type}

/-- The window invariant of a buffer that has handed out `delivered`. The number `next` is the
expected sequence number, except that it is `0` before the first frame and `2 ^ 32` once the whole
sequence space has been passed. -/
structure Sorted (tag : Frame → Nat) (delivered : List Frame) (rb : ReorderBuffer Frame)
    (next : Nat) : Prop where
  ringLen_pow : ∃ n, rb.ringLen = 2 ^ n
  ringLen_le : rb.ringLen ≤ reorderMaxWindowSize
  next_le : next ≤ 2 ^ 32
  expected_eq : rb.expectedSeq = next % 2 ^ 32
  slots : ∀ i frame, rb.ring i = some frame →
    0 < next ∧ i = tag frame % rb.ringLen ∧ rb.seqSlots i = tag frame ∧
      next ≤ tag frame ∧ tag frame < next + rb.ringLen ∧ tag frame < 2 ^ 32
  ordered : ((delivered ++ rb.pending).map tag).Pairwise (· < ·)
  below : ∀ frame ∈ delivered ++ rb.pending, tag frame < next

variable {tag : Frame → Nat} {delivered : List Frame} {rb : ReorderBuffer Frame} {next : Nat}

/-! ## Window arithmetic -/

variable {size : Nat}

/-- A ring length divides the size of the sequence space. -/
theorem ring_len_dvd (hpow : ∃ n, size = 2 ^ n) (hle : size ≤ reorderMaxWindowSize) :
    size ∣ 2 ^ 32 := by
  obtain ⟨n, rfl⟩ := hpow
  have hn : n ≤ 32 := by
    by_contra hlt
    have hbig : 2 ^ 33 ≤ 2 ^ n := Nat.pow_le_pow_right (by decide) (by omega)
    simp only [reorderMaxWindowSize] at hle
    omega
  exact Nat.pow_dvd_pow 2 hn

/-- Two numbers of one window with the same slot are equal. -/
theorem eq_of_same_slot {a b start : Nat} (hmod : a % size = b % size)
    (ha : start ≤ a ∧ a < start + size) (hb : start ≤ b ∧ b < start + size) : a = b := by
  have h : a ≡ b [MOD size] := hmod
  rcases Nat.le_total a b with hab | hab
  · have hzero := Nat.eq_zero_of_dvd_of_lt ((Nat.modEq_iff_dvd' hab).mp h) (by omega)
    omega
  · have hzero := Nat.eq_zero_of_dvd_of_lt ((Nat.modEq_iff_dvd' hab).mp h.symm) (by omega)
    omega

/-- If the slots from `fuel` numbers ahead on are empty, `fuel` rounds drain the rest. -/
theorem drain_loop_empties (hpow : ∃ n, rb.ringLen = 2 ^ n)
    (hle : rb.ringLen ≤ reorderMaxWindowSize) (fuel : Nat) (hfuel : fuel ≤ rb.ringLen)
    (hahead : ∀ i, fuel ≤ i → i < rb.ringLen → rb.ring ((rb.expectedSeq + i) % rb.ringLen) = none) :
    (drainLoop fuel rb).ring ((drainLoop fuel rb).slot (drainLoop fuel rb).expectedSeq) = none := by
  have hpos : 0 < rb.ringLen := by
    obtain ⟨n, hn⟩ := hpow
    rw [hn]
    exact Nat.two_pow_pos n
  induction fuel generalizing rb with
  | zero =>
    show rb.ring (rb.expectedSeq &&& (rb.ringLen - 1)) = none
    rw [and_mask_eq_mod hpow]
    exact hahead 0 le_rfl hpos
  | succ fuel ih =>
    simp only [drainLoop]
    cases hslot : rb.ring (rb.slot rb.expectedSeq) with
    | none => exact hslot
    | some frame =>
      refine @ih (rb.takeExpected frame) hpow hle (Nat.le_of_succ_le hfuel) ?_ hpos
      intro i hi hlen
      have hmod : (add32 rb.expectedSeq 1 + i) % rb.ringLen
          = (rb.expectedSeq + (i + 1)) % rb.ringLen := by
        have hword : add32 rb.expectedSeq 1 % rb.ringLen = (rb.expectedSeq + 1) % rb.ringLen :=
          Nat.mod_mod_of_dvd _ (ring_len_dvd hpow hle)
        rw [Nat.add_mod, hword, ← Nat.add_mod, Nat.add_assoc, Nat.add_comm 1 i]
      show update rb.ring (rb.expectedSeq &&& (rb.ringLen - 1)) none
        ((add32 rb.expectedSeq 1 + i) % rb.ringLen) = none
      rw [hmod, and_mask_eq_mod hpow, update_apply]
      split
      · rfl
      · rename_i hne
        -- one lap ahead is the slot that was just emptied
        have hlap : i + 1 ≠ rb.ringLen := by
          intro heq
          exact hne (by rw [heq, Nat.add_mod_right])
        exact hahead (i + 1) (Nat.succ_le_succ hi) (by
          have hlt : i < rb.ringLen := hlen
          omega)

/-- The loop of `drainLocked` leaves because the expected slot is empty, not for want of rounds. -/
theorem drain_loop_stops (hpow : ∃ n, rb.ringLen = 2 ^ n)
    (hle : rb.ringLen ≤ reorderMaxWindowSize) :
    (drainLoop rb.ringLen rb).ring
      ((drainLoop rb.ringLen rb).slot (drainLoop rb.ringLen rb).expectedSeq) = none :=
  drain_loop_empties hpow hle rb.ringLen le_rfl (fun _ hi hlt => absurd hlt (Nat.not_lt.mpr hi))

namespace Sorted

theorem slot_eq (h : Sorted tag delivered rb next) (seq : Nat) :
    rb.slot seq = seq % rb.ringLen :=
  and_mask_eq_mod h.ringLen_pow seq

theorem slot_add (h : Sorted tag delivered rb next) (a b : Nat) :
    rb.slot (add32 a b) = (a + b) % rb.ringLen := by
  exact (h.slot_eq _).trans
    (Nat.mod_mod_of_dvd (a + b) (ring_len_dvd h.ringLen_pow h.ringLen_le))

/-- The frame in the expected slot is the expected one. -/
theorem tag_expected (h : Sorted tag delivered rb next) {frame : Frame}
    (hslot : rb.ring (rb.slot rb.expectedSeq) = some frame) :
    tag frame = next ∧ next < 2 ^ 32 := by
  obtain ⟨hpos, hi, -, hle, hlt, hword⟩ := h.slots _ _ hslot
  rw [h.slot_eq, h.expected_eq, Nat.mod_eq_of_lt (by omega : next < 2 ^ 32)] at hi
  exact ⟨eq_of_same_slot hi.symm ⟨hle, hlt⟩ ⟨le_rfl, by omega⟩, by omega⟩

/-! ## Draining -/

/-- Moving the expected frame to `pending` keeps the invariant, one number further. -/
theorem take_expected (h : Sorted tag delivered rb next) {frame : Frame}
    (hslot : rb.ring (rb.slot rb.expectedSeq) = some frame) :
    Sorted tag delivered (rb.takeExpected frame) (next + 1) := by
  obtain ⟨htag, hlt⟩ := h.tag_expected hslot
  refine ⟨h.ringLen_pow, h.ringLen_le, by omega, ?_, ?_, ?_, ?_⟩
  · simp only [takeExpected, add32, h.expected_eq]
    omega
  · intro i other hi
    simp only [takeExpected, update_apply] at hi ⊢
    split at hi
    · cases hi
    · rename_i hne
      obtain ⟨hpos, hidx, hseq, hle, hwin, hword⟩ := h.slots i other hi
      have hother : tag other ≠ next := by
        intro heq
        apply hne
        rw [hidx, h.slot_eq, h.expected_eq, Nat.mod_eq_of_lt hlt, heq]
      exact ⟨by omega, hidx, by simpa [hne] using hseq, by omega, by omega, hword⟩
  · rw [takeExpected, ← append_assoc, map_append, pairwise_append]
    refine ⟨h.ordered, by simp, ?_⟩
    intro a ha b hb
    simp only [map_cons, map_nil, mem_singleton] at hb
    obtain ⟨f, hf, rfl⟩ := mem_map.mp ha
    have hbelow := h.below f hf
    omega
  · intro f hf
    simp only [takeExpected, ← append_assoc, mem_append, mem_singleton] at hf
    rcases hf with hf | rfl
    · have hbelow := h.below f (mem_append.mpr hf)
      omega
    · omega

theorem drain_loop (fuel : Nat) (h : Sorted tag delivered rb next) :
    ∃ later, next ≤ later ∧ Sorted tag delivered (drainLoop fuel rb) later := by
  induction fuel generalizing rb next with
  | zero => exact ⟨next, le_rfl, h⟩
  | succ fuel ih =>
    simp only [drainLoop]
    cases hslot : rb.ring (rb.slot rb.expectedSeq) with
    | none => exact ⟨next, le_rfl, h⟩
    | some frame =>
      obtain ⟨later, hle, hlater⟩ := ih (h.take_expected hslot)
      exact ⟨later, by omega, hlater⟩

/-- The invariant does not depend on the gap timer and the statistics. -/
theorem of_same_window {rb' : ReorderBuffer Frame} (h : Sorted tag delivered rb next)
    (hexpected : rb'.expectedSeq = rb.expectedSeq) (hring : rb'.ring = rb.ring)
    (hslots : rb'.seqSlots = rb.seqSlots) (hlen : rb'.ringLen = rb.ringLen)
    (hpending : rb'.pending = rb.pending) : Sorted tag delivered rb' next := by
  refine ⟨hlen ▸ h.ringLen_pow, hlen ▸ h.ringLen_le, h.next_le, hexpected ▸ h.expected_eq,
    ?_, hpending ▸ h.ordered, hpending ▸ h.below⟩
  rw [hring, hslots, hlen]
  exact h.slots

theorem refresh_gap (now : Nat) (h : Sorted tag delivered rb next) :
    Sorted tag delivered (rb.refreshGapLocked now).1 next := by
  simp only [refreshGapLocked]
  split
  · split
    · exact h.of_same_window rfl rfl rfl rfl rfl
    · exact h
  · split
    · exact h.of_same_window rfl rfl rfl rfl rfl
    · exact h

theorem drain (now : Nat) (h : Sorted tag delivered rb next) :
    ∃ later, next ≤ later ∧ Sorted tag delivered (rb.drainLocked now).1 later := by
  have hgap : Sorted tag delivered { rb with gapSince := none } next :=
    h.of_same_window rfl rfl rfl rfl rfl
  obtain ⟨later, hle, hlater⟩ := hgap.drain_loop rb.ringLen
  exact ⟨later, hle, hlater.refresh_gap now⟩

end Sorted

/-! ## Growing the ring -/

/-- The doubling loop keeps a power of two and does not shrink the ring. -/
theorem grow_size_spec (requiredDistance fuel : Nat) (hpow : ∃ n, size = 2 ^ n) :
    (∃ n, growSize requiredDistance fuel size = 2 ^ n) ∧
      size ≤ growSize requiredDistance fuel size := by
  induction fuel generalizing size with
  | zero => exact ⟨hpow, le_rfl⟩
  | succ fuel ih =>
    simp only [growSize]
    split
    · obtain ⟨n, hn⟩ := hpow
      have hdouble : 2 * size = 2 ^ (n + 1) := by
        rw [hn, pow_succ, mul_comm]
      obtain ⟨hpow', hle⟩ := ih ⟨n + 1, hdouble⟩
      exact ⟨hpow', by omega⟩
    · exact ⟨hpow, le_rfl⟩

variable {frame : Frame}

/-- Every frame of a rehashed ring comes from an occupied slot of the old one, and sits in the
slot of the sequence number stored there. -/
theorem rehash_slot (rb : ReorderBuffer Frame) (newLen count : Nat) {j : Nat}
    (h : (rb.rehash newLen count).1 j = some frame) :
    ∃ i, rb.ring i = some frame ∧ j = rb.seqSlots i &&& (newLen - 1) ∧
      (rb.rehash newLen count).2 j = rb.seqSlots i := by
  induction count with
  | zero => simp [rehash] at h
  | succ i ih =>
    simp only [rehash] at h ⊢
    cases hslot : rb.ring i with
    | none =>
      rw [hslot] at h
      exact ih h
    | some other =>
      rw [hslot] at h
      simp only [update_apply] at h ⊢
      split at h
      · rename_i hj
        cases h
        exact ⟨i, hslot, hj, by simp [hj]⟩
      · rename_i hj
        obtain ⟨i', hring, hidx, hseq⟩ := ih h
        exact ⟨i', hring, hidx, by simpa [hj] using hseq⟩

/-- A successful growth keeps the invariant and leaves room for the required distance. -/
theorem Sorted.grow {requiredDistance : Nat} {grown : ReorderBuffer Frame}
    (h : Sorted tag delivered rb next) (hgrow : rb.growWindowLocked requiredDistance = some grown) :
    Sorted tag delivered grown next ∧ grown.expectedSeq = rb.expectedSeq ∧
      requiredDistance < grown.ringLen := by
  unfold growWindowLocked at hgrow
  split at hgrow
  · cases hgrow
  · simp only at hgrow
    split at hgrow
    · cases hgrow
    · rename_i hsmall hroom
      cases hgrow
      obtain ⟨⟨m, hm⟩, hge⟩ := grow_size_spec requiredDistance 16 h.ringLen_pow
      set newSize := min (growSize requiredDistance 16 rb.ringLen) reorderMaxWindowSize with hnew
      have hpow : ∃ n, newSize = 2 ^ n := by
        rcases Nat.le_total (growSize requiredDistance 16 rb.ringLen) reorderMaxWindowSize
          with hle | hle
        · exact ⟨m, by rw [hnew, Nat.min_eq_left hle, hm]⟩
        · exact ⟨16, by rw [hnew, Nat.min_eq_right hle]; rfl⟩
      have hlarger : rb.ringLen ≤ newSize := by omega
      refine ⟨⟨hpow, Nat.min_le_right _ _, h.next_le, h.expected_eq, ?_, h.ordered, h.below⟩,
        rfl, Nat.lt_of_not_le hroom⟩
      intro j frame hj
      obtain ⟨i, hring, hidx, hseq⟩ := rehash_slot rb newSize rb.ringLen hj
      obtain ⟨hpos, -, hstored, hle, hwin, hword⟩ := h.slots i frame hring
      refine ⟨hpos, ?_, hseq.trans hstored, hle, by simp only; omega, hword⟩
      rw [hidx, hstored, and_mask_eq_mod hpow]

/-! ## Insertion -/

/-- The distance check keeps the invariant, and a frame that passes it lies inside the ring. -/
theorem Sorted.widen {diff : Nat} {wide : ReorderBuffer Frame}
    (h : Sorted tag delivered rb next) (hwiden : rb.widen diff = some wide) :
    Sorted tag delivered wide next ∧ wide.expectedSeq = rb.expectedSeq ∧
      diff < wide.ringLen := by
  unfold ReorderBuffer.widen at hwiden
  split at hwiden
  · split at hwiden
    · cases hwiden
    · rename_i hmax
      obtain ⟨hsorted, hexpected, hroom⟩ := h.grow hwiden
      have hdiff : add32 diff 1 = diff + 1 := by
        simp only [reorderMaxWindowSize] at hmax
        simp only [add32]
        omega
      exact ⟨hsorted, hexpected, by omega⟩
  · cases hwiden
    exact ⟨h, rfl, by omega⟩

variable {seq : Nat}

/-- Storing a frame of the window keeps the invariant. -/
theorem Sorted.store (h : Sorted tag delivered rb next) (htag : tag frame = seq) (hpos : 0 < next)
    (hle : next ≤ seq) (hwin : seq < next + rb.ringLen) (hword : seq < 2 ^ 32) :
    Sorted tag delivered (rb.store seq frame) next := by
  refine ⟨h.ringLen_pow, h.ringLen_le, h.next_le, h.expected_eq, ?_, h.ordered, h.below⟩
  intro i other hi
  simp only [ReorderBuffer.store, update_apply] at hi ⊢
  split at hi
  · rename_i hidx
    cases hi
    subst hidx
    exact ⟨hpos, by rw [h.slot_eq, htag], by simp [htag], by omega, by omega, by omega⟩
  · rename_i hne
    simpa [hne] using h.slots i other hi

variable {now : Nat}

/-- Placing a frame of the window in its free slot keeps the invariant. -/
theorem Sorted.place (h : Sorted tag delivered rb next) (htag : tag frame = seq) (hpos : 0 < next)
    (hle : next ≤ seq) (hwin : seq < next + rb.ringLen) (hword : seq < 2 ^ 32) :
    ∃ later, Sorted tag delivered (rb.place now seq frame).1 later := by
  have hstored := h.store htag hpos hle hwin hword
  unfold ReorderBuffer.place
  split
  · exact ⟨next, h⟩
  · split
    · obtain ⟨later, -, hlater⟩ := hstored.drain now
      exact ⟨later, hlater⟩
    · exact ⟨next, hstored.refresh_gap now⟩

/-- The insertion does not meet the wrapped counter: the buffer does not look uninitialised after
it has handed out frames, and the frame is not one that lies behind the expected number and that
the wrapping difference places ahead of it, inside the window. -/
def Numbered (delivered : List Frame) (rb : ReorderBuffer Frame) (seq : Nat) : Prop :=
  (rb.expectedSeq = 0 → delivered ++ rb.pending = []) ∧
    ¬ (seq < rb.expectedSeq ∧ sub32 seq rb.expectedSeq < reorderMaxWindowSize)

instance [DecidableEq Frame] (delivered : List Frame) (rb : ReorderBuffer Frame) (seq : Nat) :
    Decidable (Numbered delivered rb seq) :=
  inferInstanceAs (Decidable (_ ∧ _))

/-- A buffer whose expected number is `0` holds no frame. -/
theorem Sorted.ring_empty (h : Sorted tag delivered rb next) (hzero : rb.expectedSeq = 0) :
    ∀ i, rb.ring i = none := by
  intro i
  cases hi : rb.ring i with
  | none => rfl
  | some frame =>
    obtain ⟨hpos, -, -, hle, -, hword⟩ := h.slots i frame hi
    rw [h.expected_eq] at hzero
    omega

/-- An empty buffer that has handed out nothing may start at any number. -/
theorem Sorted.start (h : Sorted tag delivered rb next) (hnum : Numbered delivered rb seq)
    (hzero : rb.expectedSeq = 0) (hword : seq < 2 ^ 32) :
    Sorted tag delivered { rb with expectedSeq := seq } seq := by
  have hempty := h.ring_empty hzero
  have hnone := hnum.1 hzero
  refine ⟨h.ringLen_pow, h.ringLen_le, by omega, ?_, ?_, h.ordered, ?_⟩
  · exact (Nat.mod_eq_of_lt hword).symm
  · intro i frame hi
    simp [hempty i] at hi
  · intro frame hf
    simp [hnone] at hf

/-- Adopting the first sequence number keeps the invariant. -/
theorem Sorted.adopt (h : Sorted tag delivered rb next) (hnum : Numbered delivered rb seq)
    (hseq : 0 < seq) (hword : seq < 2 ^ 32) :
    ∃ start, 0 < start ∧ start < 2 ^ 32 ∧ Sorted tag delivered (rb.adopt seq) start ∧
      ((rb.adopt seq).expectedSeq = seq ∨ (rb.adopt seq).expectedSeq = rb.expectedSeq) := by
  unfold ReorderBuffer.adopt
  split
  · rename_i hzero
    exact ⟨seq, hseq, hword, h.start hnum hzero hword, .inl rfl⟩
  · rename_i hne
    have hlt : 0 < next ∧ next < 2 ^ 32 := by
      have hle := h.next_le
      have hexp := h.expected_eq
      omega
    exact ⟨next, hlt.1, hlt.2, h, .inr rfl⟩

/-- What holds of the buffer itself and of every widened buffer with the frame placed holds of the
buffer after the insertion. -/
theorem insert_in_window_spec {P : ReorderBuffer Frame → Prop} (hkeep : P rb)
    (hplace : ∀ wide, rb.widen (sub32 seq rb.expectedSeq) = some wide →
      P (wide.place now seq frame).1) : P (rb.insertInWindow now seq frame).1 := by
  unfold insertInWindow
  split
  · exact hkeep
  · split
    · exact hkeep
    · rename_i wide hwiden
      exact hplace wide hwiden

/-- An insertion that does not meet the wrapped counter keeps the invariant. -/
theorem Sorted.insert (h : Sorted tag delivered rb next) (hnum : Numbered delivered rb seq)
    (htag : tag frame = seq) (hseq : 0 < seq) (hword : seq < 2 ^ 32) :
    ∃ later, Sorted tag delivered (rb.inserted now seq frame) later := by
  obtain ⟨start, hpos, hlt, hsorted, hexp⟩ := h.adopt hnum hseq hword
  have hstart : (rb.adopt seq).expectedSeq = start := by
    rw [hsorted.expected_eq, Nat.mod_eq_of_lt hlt]
  refine insert_in_window_spec (P := fun rb' => ∃ later, Sorted tag delivered rb' later)
    ⟨start, hsorted⟩ ?_
  intro wide hwiden
  rw [hstart] at hwiden
  obtain ⟨hwide, -, hroom⟩ := hsorted.widen hwiden
  have hmax := hwide.ringLen_le
  -- a frame behind the expected number would lie inside the window only by wrapping
  have hahead : start ≤ seq := by
    by_contra hbehind
    rcases hexp with hexp | hexp
    · omega
    · exact hnum.2 ⟨by omega, by rw [← hexp, hstart]; omega⟩
  rw [sub32_of_le hahead hword] at hroom
  exact hwide.place htag hpos hahead (by omega) hword

/-! ## Gap expiry -/

/-- The search of the skip loop finds the next buffered frame: it is that many numbers ahead, and
no frame lies in between. -/
theorem Sorted.skip_distance {skipped : Nat} (h : Sorted tag delivered rb next)
    (hempty : rb.ring (rb.slot rb.expectedSeq) = none)
    (hskip : rb.skipDistance = some skipped) (hlt : next < 2 ^ 32) :
    next + skipped < 2 ^ 32 ∧ ∀ i frame, rb.ring i = some frame → next + skipped ≤ tag frame := by
  have hexp : rb.expectedSeq = next := by
    rw [h.expected_eq, Nat.mod_eq_of_lt hlt]
  rw [hexp] at hempty
  obtain ⟨hsome, before, after, hsplit, hbefore⟩ := find?_eq_some_iff_append.mp hskip
  rw [hexp] at hsome hbefore
  have hmem : skipped ∈ List.range' 1 (rb.ringLen - 1) := by
    rw [hsplit]
    simp
  have hrange := mem_range'_1.mp hmem
  -- the numbers searched before `skipped` are exactly those between `1` and it
  have hearlier : ∀ j, 1 ≤ j → j < skipped → rb.ring (rb.slot (add32 next j)) = none := by
    intro j hj hjs
    have hj' : j ∈ before := by
      have hjmem : j ∈ List.range' 1 (rb.ringLen - 1) := mem_range'_1.mpr (by omega)
      have hsorted := pairwise_lt_range' (s := 1) (n := rb.ringLen - 1)
      rw [hsplit] at hjmem hsorted
      rcases mem_append.mp hjmem with hj' | hj'
      · exact hj'
      · have hcons := (pairwise_append.mp hsorted).2.1
        rcases mem_cons.mp hj' with rfl | hj'
        · omega
        · have := (pairwise_cons.mp hcons).1 j hj'
          omega
    simpa using hbefore j hj'
  obtain ⟨frame, hframe⟩ := Option.isSome_iff_exists.mp hsome
  obtain ⟨-, hidx, -, hle, hwin, hword⟩ := h.slots _ _ hframe
  rw [h.slot_add] at hidx
  have htag : tag frame = next + skipped :=
    eq_of_same_slot hidx.symm ⟨hle, hwin⟩ ⟨by omega, by omega⟩
  refine ⟨by omega, ?_⟩
  intro i other hi
  obtain ⟨-, hiidx, -, hile, hiwin, -⟩ := h.slots i other hi
  by_contra hbetween
  have hi' : rb.ring (rb.slot (add32 next (tag other - next))) = some other := by
    rw [h.slot_add, Nat.add_sub_cancel' hile, ← hiidx]
    exact hi
  rcases Nat.eq_zero_or_pos (tag other - next) with hz | hz
  · have hzero : rb.slot next = rb.slot (add32 next (tag other - next)) := by
      rw [hz, h.slot_add, h.slot_eq, Nat.add_zero]
    rw [hzero, hi'] at hempty
    cases hempty
  · rw [hearlier _ hz (by omega)] at hi'
    cases hi'

/-- Moving on to the next buffered frame keeps the invariant. -/
theorem Sorted.skip_to {skipped : Nat} (h : Sorted tag delivered rb next)
    (hempty : rb.ring (rb.slot rb.expectedSeq) = none) (hskip : rb.skipDistance = some skipped)
    (hlt : next < 2 ^ 32) :
    Sorted tag delivered (rb.skipTo skipped) (next + skipped) ∧ next + skipped < 2 ^ 32 := by
  obtain ⟨hword, hahead⟩ := h.skip_distance hempty hskip hlt
  refine ⟨⟨h.ringLen_pow, h.ringLen_le, by omega, ?_, ?_, h.ordered, ?_⟩, hword⟩
  · simp only [skipTo, add32, h.expected_eq]
    omega
  · intro i frame hi
    obtain ⟨hpos, hidx, hseq, -, hwin, hfw⟩ := h.slots i frame hi
    simp only [skipTo]
    exact ⟨by omega, hidx, hseq, hahead i frame hi, by omega, hfw⟩
  · intro frame hf
    have hbelow := h.below frame hf
    omega

/-- The skip step keeps the invariant. -/
theorem Sorted.skip (now : Nat) (h : Sorted tag delivered rb next) :
    ∃ later, Sorted tag delivered (rb.skipGap now) later := by
  unfold skipGap
  split
  · rename_i hdue
    obtain ⟨-, -, hnonzero, hslot⟩ := hdue
    have hempty : rb.ring (rb.slot rb.expectedSeq) = none := by simpa using hslot
    have hle := h.next_le
    have hexp := h.expected_eq
    cases hskip : rb.skipDistance with
    | none => exact ⟨next, h.of_same_window rfl rfl rfl rfl rfl⟩
    | some skipped =>
      obtain ⟨hmoved, -⟩ := h.skip_to hempty hskip (by omega)
      obtain ⟨later, -, hlater⟩ := hmoved.drain now
      exact ⟨later, hlater⟩
  · exact ⟨next, h⟩

/-! ## Whole runs -/

namespace Call

/-- The call inserts 32-bit sequence numbers, each with a frame that carries that number. -/
def Tagged (tag : Frame → Nat) : Call Frame → Prop
  | .insert _ seq frame | .insertActorBuffered _ seq frame => seq < 2 ^ 32 ∧ tag frame = seq
  | _ => True

instance (tag : Frame → Nat) : ∀ call, Decidable (Tagged tag call)
  | .insert _ _ _ | .insertActorBuffered _ _ _ => inferInstanceAs (Decidable (_ ∧ _))
  | .flushActor | .expireGapActor _ | .timeoutSkip _ | .reset | .close => isTrue trivial

end Call

namespace Receiver

/-- If the call inserts a frame into an open buffer, the insertion does not meet the wrapped
counter. -/
def NoWrap (r : Receiver Frame) : Call Frame → Prop
  | .insert _ seq _ | .insertActorBuffered _ seq _ =>
    seq = 0 ∨ r.buffer.shutting = true ∨ Numbered r.delivered r.buffer seq
  | _ => True

instance [DecidableEq Frame] (r : Receiver Frame) : ∀ call, Decidable (r.NoWrap call)
  | .insert _ _ _ | .insertActorBuffered _ _ _ => inferInstanceAs (Decidable (_ ∨ _))
  | .flushActor | .expireGapActor _ | .timeoutSkip _ | .reset | .close => isTrue trivial

/-- The window invariant of a receiver, for some unwrapped expected number. -/
def InOrder (tag : Frame → Nat) (r : Receiver Frame) : Prop :=
  ∃ next, Sorted tag r.delivered r.buffer next

theorem in_order_new : InOrder tag (new : Receiver Frame) := by
  refine ⟨0, ⟨11, rfl⟩, ?_, Nat.zero_le _, rfl, ?_, by simp [new, ReorderBuffer.new],
    by simp [new, ReorderBuffer.new]⟩
  · show reorderWindowSize ≤ reorderMaxWindowSize
    decide
  · intro i frame hi
    cases hi

variable {r : Receiver Frame}

theorem InOrder.deliver (h : InOrder tag r) : InOrder tag r.deliver := by
  obtain ⟨next, h⟩ := h
  refine ⟨next, h.ringLen_pow, h.ringLen_le, h.next_le, h.expected_eq, h.slots, ?_, ?_⟩
  · simpa [Receiver.deliver, takePendingLocked] using h.ordered
  · simpa [Receiver.deliver, takePendingLocked] using h.below

/-- Freeing every slot and dropping the pending frames keeps the invariant. -/
theorem InOrder.released (h : InOrder tag r) (hring : ∀ i, rb.ring i = none)
    (hlen : rb.ringLen = r.buffer.ringLen) (hpending : rb.pending = [])
    (hexpected : rb.expectedSeq = r.buffer.expectedSeq) : InOrder tag { r with buffer := rb } := by
  obtain ⟨next, h⟩ := h
  refine ⟨next, hlen ▸ h.ringLen_pow, hlen ▸ h.ringLen_le, h.next_le, hexpected ▸ h.expected_eq,
    ?_, ?_, ?_⟩
  · intro i frame hi
    simp [hring i] at hi
  · simp only [hpending, append_nil]
    exact (pairwise_append.mp (map_append ▸ h.ordered)).1
  · intro frame hf
    simp only [hpending, append_nil] at hf
    exact h.below frame (mem_append_left _ hf)

/-- Inserting a frame that carries its number into an open buffer keeps the invariant. -/
theorem InOrder.insert_locked {now seq : Nat} {frame : Frame} (h : InOrder tag r)
    (hnum : Numbered r.delivered r.buffer seq) (hseq : seq ≠ 0)
    (hword : seq < 2 ^ 32) (htag : tag frame = seq) :
    InOrder tag { r with buffer := r.buffer.inserted now seq frame } := by
  obtain ⟨next, h⟩ := h
  exact h.insert hnum htag (Nat.pos_of_ne_zero hseq) hword

theorem InOrder.skip_gap (now : Nat) (h : InOrder tag r) :
    InOrder tag { r with buffer := r.buffer.skipGap now } := by
  obtain ⟨next, h⟩ := h
  exact h.skip now

/-- Every call that does not meet the wrapped counter keeps the invariant. -/
theorem InOrder.step {call : Call Frame} {r' : Receiver Frame} (h : InOrder tag r)
    (hallowed : r.NoWrap call ∧ call.Tagged tag) (hstep : r.step call = some r') :
    InOrder tag r' := by
  obtain ⟨hwrap, htagged⟩ := hallowed
  refine step_rule h ?_ (fun _ hr => hr.deliver) h.skip_gap ?_ ?_ hstep
  · intro now seq frame hinsert hopen
    obtain ⟨hseq, hshut⟩ := not_or.mp hopen
    rcases hinsert with rfl | rfl
    all_goals
      have hnum := (hwrap.resolve_left hseq).resolve_left hshut
      exact h.insert_locked hnum hseq htagged.1 htagged.2
  · intro
    obtain ⟨next, h⟩ := h
    refine ⟨0, h.ringLen_pow, h.ringLen_le, by decide, rfl, ?_, by simp [reset], by simp [reset]⟩
    intro i frame hi
    cases hi
  · intro
    exact h.released (fun _ => rfl) rfl rfl rfl

/-- A batch inserted into an open buffer is a run of single insertions and one delivery. -/
theorem insert_batch_eq_run (r : Receiver Frame) (frames : List (Nat × Nat × Frame))
    (hframes : frames ≠ []) (hopen : r.buffer.shutting = false) :
    run step r (frames.map (fun f => .insertActorBuffered f.1 f.2.1 f.2.2) ++ [.flushActor]) =
      some (r.insertBatch frames) := by
  have hfold : ∀ (fs : List (Nat × Nat × Frame)) (start : Receiver Frame),
      run step start (fs.map (fun f => .insertActorBuffered f.1 f.2.1 f.2.2) ++ [.flushActor]) =
        some (fs.foldl (fun r f => r.insertActorBuffered f.1 f.2.1 f.2.2) start).deliver := by
    intro fs
    induction fs with
    | nil => intro start; rfl
    | cons f fs ih =>
      intro start
      exact ih (start.insertActorBuffered f.1 f.2.1 f.2.2)
  rw [hfold, insertBatch, if_neg (by simp [hframes, hopen])]

/-- A run that does not meet the wrapped counter keeps the invariant. -/
theorem in_order_of_run {calls : List (Call Frame)} (htagged : ∀ call ∈ calls, call.Tagged tag)
    (hwrap : Along step NoWrap new calls) (hrun : run step new calls = some r) : InOrder tag r := by
  have hpreserve : ∀ (r : Receiver Frame) call r', InOrder tag r →
      r.NoWrap call ∧ call.Tagged tag → r.step call = some r' → InOrder tag r' :=
    fun _ _ _ horder hallowed hstep => horder.step hallowed hstep
  exact run_invariant hpreserve in_order_new (hwrap.and_mem htagged) hrun

/-- As long as no insertion meets the wrapped counter, the frames handed to delivery since the
last reset have strictly increasing sequence numbers, whatever the order, the duplicates, the gap
expiries, the resets and the receive mode. -/
theorem delivered_increasing (tag : Frame → Nat) (calls : List (Call Frame)) (r : Receiver Frame)
    (htagged : ∀ call ∈ calls, call.Tagged tag) (hwrap : Along step NoWrap new calls)
    (hrun : run step new calls = some r) : (r.delivered.map tag).Pairwise (· < ·) := by
  have horder := in_order_of_run htagged hwrap hrun
  obtain ⟨next, hsorted⟩ := horder
  exact (pairwise_append.mp (map_append ▸ hsorted.ordered)).1

/-- A gap, a duplicate behind it, its expiry and the late frame. -/
def lateFrame : List (Call Nat) :=
  [.insert 0 1 1, .insert 0 3 3, .insert 1 3 3, .timeoutSkip 60000000, .insert 2 2 2, .insert 3 4 4]

/-- The late frame is not delivered. -/
theorem late_frame_in_order :
    ∃ r : Receiver Nat, run step new lateFrame = some r ∧ r.delivered = [1, 3, 4] ∧
      (r.delivered.map id).Pairwise (· < ·) :=
  ⟨_, rfl, by decide, delivered_increasing id lateFrame _ (by decide) (by decide) rfl⟩

/-- The last sequence number of the space, received twice. -/
def lastSequenceTwice : List (Call Nat) :=
  [.insert 0 4294967295 4294967295, .insert 1 4294967295 4294967295]

/-- Delivering the last sequence number wraps the expected number to `0`, so a duplicate of that
frame initialises the buffer anew and is delivered a second time. -/
theorem last_sequence_delivered_twice :
    (∀ call ∈ lastSequenceTwice, call.Tagged id) ∧
      ∃ r : Receiver Nat, run step new lastSequenceTwice = some r ∧
        r.delivered = [4294967295, 4294967295] ∧ ¬ (r.delivered.map id).Pairwise (· < ·) :=
  ⟨by decide, _, rfl, by decide, by decide⟩

end Receiver

end TlsVpn.Reorder
