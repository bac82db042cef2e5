import TlsVpn.Lib.Slots
import TlsVpn.Reorder.Order

/-!
# The books of the reorder buffer

`Accounted` adds the counters to the window invariant: `buffered` is the number of occupied slots,
the expected number is as far from the first one as frames were handed out or skipped, and the
frames accepted so far are those handed out and those in the ring, one for every number.
`Settled` is what holds besides when no call is under way: the slot of the expected number is empty,
and the gap timer runs exactly if a frame is buffered.

`Epoch.ring_accounted` is the result for every run between two resets.
-/

namespace TlsVpn.Reorder

open Lib ReorderBuffer Function List

variable {Frame : Type} {tag : Frame → Nat} {delivered accepted : List Frame}
  {rb : ReorderBuffer Frame} {first skipped next : Nat}

/-- The books of a buffer that has handed out `delivered` and taken in `accepted` since a reset at
which `skipped` frames had been counted as skipped. The first number is `0` until a frame
arrives. -/
structure Accounted (tag : Frame → Nat) (first skipped : Nat) (delivered accepted : List Frame)
    (rb : ReorderBuffer Frame) (next : Nat) : Prop extends Sorted tag delivered rb next where
  ringLen_ge : reorderWindowSize ≤ rb.ringLen
  buffered_eq : rb.buffered = slotCount rb.ring rb.ringLen
  skipped_le : skipped ≤ rb.skippedFrames
  advanced : next = first + (delivered ++ rb.pending).length + (rb.skippedFrames - skipped)
  started : next ≠ 0 → first ≠ 0
  ended : next = 2 ^ 32 → delivered ++ rb.pending ≠ []
  traced : ∀ frame, frame ∈ accepted ↔
    frame ∈ delivered ++ rb.pending ∨ ∃ i, rb.ring i = some frame
  distinct : (accepted.map tag).Nodup

/-- No call is under way: the buffer waits for the expected frame, and for the end of the gap if it
holds later ones. -/
structure Settled (rb : ReorderBuffer Frame) : Prop where
  waiting : rb.ring (rb.slot rb.expectedSeq) = none
  gap : rb.gapSince.isSome = true ↔ 0 < rb.buffered

namespace Accounted

theorem slot_lt (h : Accounted tag first skipped delivered accepted rb next) (seq : Nat) :
    rb.slot seq < rb.ringLen := by
  have hge := h.ringLen_ge
  rw [h.slot_eq]
  exact Nat.mod_lt _ (Nat.lt_of_lt_of_le (by decide) hge)

theorem index_lt (h : Accounted tag first skipped delivered accepted rb next) {i : Nat}
    {frame : Frame} (hi : rb.ring i = some frame) : i < rb.ringLen := by
  have hslot := h.slot_lt (tag frame)
  rw [h.slot_eq, ← (h.slots i frame hi).2.1] at hslot
  exact hslot

/-- A frame in the ring makes the expected number a real one. -/
theorem expected_pos (h : Accounted tag first skipped delivered accepted rb next)
    (hbuffered : 0 < rb.buffered) : rb.expectedSeq = next ∧ 0 < next ∧ next < 2 ^ 32 := by
  rw [h.buffered_eq] at hbuffered
  obtain ⟨i, frame, -, hi⟩ := exists_of_slot_count_pos hbuffered
  obtain ⟨hpos, -, -, hle, -, hword⟩ := h.slots i frame hi
  have hlt : next < 2 ^ 32 := by omega
  exact ⟨by rw [h.expected_eq, Nat.mod_eq_of_lt hlt], hpos, hlt⟩

/-- The books do not depend on the gap timer and the other statistics. -/
theorem of_same_books {rb' : ReorderBuffer Frame}
    (h : Accounted tag first skipped delivered accepted rb next)
    (hexpected : rb'.expectedSeq = rb.expectedSeq) (hring : rb'.ring = rb.ring)
    (hslots : rb'.seqSlots = rb.seqSlots) (hlen : rb'.ringLen = rb.ringLen)
    (hpending : rb'.pending = rb.pending) (hbuffered : rb'.buffered = rb.buffered)
    (hskipped : rb'.skippedFrames = rb.skippedFrames) :
    Accounted tag first skipped delivered accepted rb' next := by
  refine ⟨h.toSorted.of_same_window hexpected hring hslots hlen hpending, ?_, ?_, ?_, ?_, h.started,
    ?_, ?_, h.distinct⟩
  · rw [hlen]
    exact h.ringLen_ge
  · rw [hbuffered, hring, hlen]
    exact h.buffered_eq
  · rw [hskipped]
    exact h.skipped_le
  · rw [hskipped, hpending]
    exact h.advanced
  · rw [hpending]
    exact h.ended
  · rw [hring, hpending]
    exact h.traced

/-! ## Draining -/

/-- Handing out the expected frame moves it from the ring to `pending`. -/
theorem take_expected (h : Accounted tag first skipped delivered accepted rb next) {frame : Frame}
    (hslot : rb.ring (rb.slot rb.expectedSeq) = some frame) :
    Accounted tag first skipped delivered accepted (rb.takeExpected frame) (next + 1) := by
  have hempty := slot_count_empty (h.slot_lt rb.expectedSeq) hslot
  have hlength : (delivered ++ (rb.pending ++ [frame])).length =
      (delivered ++ rb.pending).length + 1 := by
    rw [← append_assoc, length_append, length_singleton]
  refine ⟨h.toSorted.take_expected hslot, h.ringLen_ge, ?_, h.skipped_le, ?_, ?_, ?_, ?_,
    h.distinct⟩
  · show rb.buffered - 1 = slotCount (update rb.ring _ none) rb.ringLen
    have hbuffered := h.buffered_eq
    omega
  · show next + 1 = first + (delivered ++ (rb.pending ++ [frame])).length +
      (rb.skippedFrames - skipped)
    rw [hlength]
    have hadvanced := h.advanced
    omega
  · intro _
    have hpos := (h.slots _ frame hslot).1
    exact h.started (by omega)
  · intro _ hnone
    rw [show delivered ++ (rb.takeExpected frame).pending = delivered ++ (rb.pending ++ [frame])
      from rfl] at hnone
    rw [hnone] at hlength
    cases hlength
  · intro other
    show other ∈ accepted ↔ other ∈ delivered ++ (rb.pending ++ [frame]) ∨
      ∃ i, update rb.ring (rb.slot rb.expectedSeq) none i = some other
    rw [h.traced, ← append_assoc, mem_append (s := delivered ++ rb.pending),
      mem_singleton, or_assoc]
    refine or_congr_right ⟨?_, ?_⟩
    · rintro ⟨i, hi⟩
      by_cases hidx : i = rb.slot rb.expectedSeq
      · rw [hidx, hslot] at hi
        exact .inl (Option.some.inj hi).symm
      · exact .inr ⟨i, by rw [update_of_ne hidx]; exact hi⟩
    · rintro (rfl | ⟨i, hi⟩)
      · exact ⟨_, hslot⟩
      · by_cases hidx : i = rb.slot rb.expectedSeq
        · rw [hidx, update_self] at hi
          cases hi
        · rw [update_of_ne hidx] at hi
          exact ⟨i, hi⟩

theorem drain_loop (fuel : Nat) (h : Accounted tag first skipped delivered accepted rb next) :
    ∃ later, next ≤ later ∧
      Accounted tag first skipped delivered accepted (drainLoop fuel rb) later := by
  induction fuel generalizing rb next with
  | zero => exact ⟨next, le_rfl, h⟩
  | succ fuel ih =>
    simp only [drainLoop]
    cases hslot : rb.ring (rb.slot rb.expectedSeq) with
    | none => exact ⟨next, le_rfl, h⟩
    | some frame =>
      obtain ⟨later, hle, hlater⟩ := ih (h.take_expected hslot)
      exact ⟨later, by omega, hlater⟩

/-- Refreshing the gap timer settles a buffer that waits for its expected frame. -/
theorem refresh_gap (now : Nat) (h : Accounted tag first skipped delivered accepted rb next)
    (hwaiting : rb.ring (rb.slot rb.expectedSeq) = none) :
    Accounted tag first skipped delivered accepted (rb.refreshGapLocked now).1 next ∧
      Settled (rb.refreshGapLocked now).1 := by
  have hgap : (0 < rb.buffered ∧ rb.expectedSeq ≠ 0 ∧
      (rb.ring (rb.slot rb.expectedSeq)).isNone = true) ↔ 0 < rb.buffered := by
    constructor
    · exact fun hgap => hgap.1
    · intro hbuffered
      obtain ⟨hexpected, hpos, -⟩ := h.expected_pos hbuffered
      rw [hwaiting]
      exact ⟨hbuffered, by omega, rfl⟩
  simp only [refreshGapLocked]
  split
  · rename_i hbuffered
    rw [hgap] at hbuffered
    split
    · exact ⟨h.of_same_books rfl rfl rfl rfl rfl rfl rfl, hwaiting, by simpa using hbuffered⟩
    · rename_i hsince
      exact ⟨h, hwaiting, by simpa [Option.isSome_iff_ne_none, hbuffered] using hsince⟩
  · rename_i hbuffered
    rw [hgap] at hbuffered
    split
    · exact ⟨h.of_same_books rfl rfl rfl rfl rfl rfl rfl, hwaiting, by simpa using hbuffered⟩
    · rename_i hsince
      exact ⟨h, hwaiting, by simpa [hsince] using hbuffered⟩

theorem drain (now : Nat) (h : Accounted tag first skipped delivered accepted rb next) :
    ∃ later, next ≤ later ∧
      Accounted tag first skipped delivered accepted (rb.drainLocked now).1 later ∧
      Settled (rb.drainLocked now).1 := by
  have htimer : Accounted tag first skipped delivered accepted { rb with gapSince := none } next :=
    h.of_same_books rfl rfl rfl rfl rfl rfl rfl
  obtain ⟨later, hle, hlater⟩ := htimer.drain_loop rb.ringLen
  have hstops := drain_loop_stops htimer.ringLen_pow htimer.ringLen_le
  exact ⟨later, hle, hlater.refresh_gap now hstops⟩

end Accounted

/-! ## Growing the ring -/

/-- In a larger ring two buffered frames have different slots. -/
theorem Sorted.rehash_injective {newLen : Nat} (h : Sorted tag delivered rb next)
    (hpow : ∃ n, newLen = 2 ^ n) (hlarger : rb.ringLen ≤ newLen) {i j : Nat} {frame other : Frame}
    (hi : rb.ring i = some frame) (hj : rb.ring j = some other)
    (heq : rb.seqSlots i &&& (newLen - 1) = rb.seqSlots j &&& (newLen - 1)) : i = j := by
  obtain ⟨-, hidx, hseq, hle, hlt, -⟩ := h.slots i frame hi
  obtain ⟨-, hjdx, hseq', hle', hlt', -⟩ := h.slots j other hj
  rw [and_mask_eq_mod hpow, and_mask_eq_mod hpow, hseq, hseq'] at heq
  have htag := eq_of_same_slot heq ⟨hle, by omega⟩ ⟨hle', by omega⟩
  rw [hidx, hjdx, htag]

/-- The copying loop leaves every frame in its slot of the new ring: no later one has the same. -/
theorem rehash_keeps {newLen : Nat}
    (hinj : ∀ {i j frame other}, rb.ring i = some frame → rb.ring j = some other →
      rb.seqSlots i &&& (newLen - 1) = rb.seqSlots j &&& (newLen - 1) → i = j)
    (count : Nat) {i : Nat} {frame : Frame} (hlt : i < count) (hi : rb.ring i = some frame) :
    (rb.rehash newLen count).1 (rb.seqSlots i &&& (newLen - 1)) = some frame := by
  induction count with
  | zero => exact absurd hlt (Nat.not_lt_zero i)
  | succ last ih =>
    simp only [rehash]
    cases hlast : rb.ring last with
    | none =>
      have hne : i ≠ last := by
        intro heq
        rw [heq, hlast] at hi
        cases hi
      exact ih (by omega)
    | some other =>
      simp only [update_apply]
      split
      · rename_i heq
        have hsame := hinj hi hlast heq
        rw [hsame, hlast] at hi
        exact hi
      · rename_i hne
        refine ih ?_
        have : i ≠ last := fun heq => hne (by rw [heq])
        omega

/-- A ring that has grown holds the same frames under the same numbers. -/
structure Regrown (rb grown : ReorderBuffer Frame) : Prop where
  holds : ∀ frame seq, (∃ i, rb.ring i = some frame ∧ rb.seqSlots i = seq) ↔
    ∃ j, grown.ring j = some frame ∧ grown.seqSlots j = seq
  count_eq : slotCount grown.ring grown.ringLen = slotCount rb.ring rb.ringLen
  waiting : rb.ring (rb.slot rb.expectedSeq) = none →
    grown.ring (grown.slot grown.expectedSeq) = none

variable {distance : Nat} {grown : ReorderBuffer Frame}

/-- Growing only replaces the ring. -/
theorem grow_eq (hgrow : rb.growWindowLocked distance = some grown) :
    ∃ newLen, grown = { rb with
      ring := (rb.rehash newLen rb.ringLen).1
      seqSlots := (rb.rehash newLen rb.ringLen).2
      ringLen := newLen } := by
  unfold growWindowLocked at hgrow
  split at hgrow
  · cases hgrow
  · simp only at hgrow
    obtain ⟨_, rfl⟩ := of_blocked hgrow
    exact ⟨_, rfl⟩

/-- The ring does not shrink when it grows. -/
theorem grow_larger (hpow : ∃ n, rb.ringLen = 2 ^ n) (hle : rb.ringLen ≤ reorderMaxWindowSize)
    (hgrow : rb.growWindowLocked distance = some grown) : rb.ringLen ≤ grown.ringLen := by
  have hgrows := (grow_size_spec distance 16 hpow).2
  unfold growWindowLocked at hgrow
  split at hgrow
  · cases hgrow
  · simp only at hgrow
    obtain ⟨_, rfl⟩ := of_blocked hgrow
    exact Nat.le_min.mpr ⟨hgrows, hle⟩

theorem grow_ring_len (hpow : ∃ n, rb.ringLen = 2 ^ n)
    (hgrow : rb.growWindowLocked distance = some grown) :
    (∃ n, grown.ringLen = 2 ^ n) ∧ grown.ringLen ≤ reorderMaxWindowSize := by
  obtain ⟨⟨m, hm⟩, -⟩ := grow_size_spec distance 16 hpow
  unfold growWindowLocked at hgrow
  split at hgrow
  · cases hgrow
  · simp only at hgrow
    obtain ⟨_, rfl⟩ := of_blocked hgrow
    refine ⟨?_, Nat.min_le_right _ _⟩
    rcases Nat.le_total (growSize distance 16 rb.ringLen) reorderMaxWindowSize with hle | hle
    · exact ⟨m, by rw [Nat.min_eq_left hle, hm]⟩
    · exact ⟨16, by rw [Nat.min_eq_right hle]; rfl⟩

namespace Accounted

/-- Every buffered frame has a slot of its own in the larger ring. -/
theorem regrown {distance : Nat} {grown : ReorderBuffer Frame}
    (h : Accounted tag first skipped delivered accepted rb next)
    (hgrow : rb.growWindowLocked distance = some grown) (hlarger : rb.ringLen ≤ grown.ringLen) :
    Regrown rb grown := by
  obtain ⟨hsorted, -, -⟩ := h.toSorted.grow hgrow
  obtain ⟨newLen, rfl⟩ := grow_eq hgrow
  have hinj : ∀ {i j frame other}, rb.ring i = some frame → rb.ring j = some other →
      rb.seqSlots i &&& (newLen - 1) = rb.seqSlots j &&& (newLen - 1) → i = j :=
    fun hi hj heq => h.toSorted.rehash_injective hsorted.ringLen_pow hlarger hi hj heq
  have hto : ∀ {i frame}, rb.ring i = some frame →
      (rb.rehash newLen rb.ringLen).1 (rb.seqSlots i &&& (newLen - 1)) = some frame :=
    fun hi => rehash_keeps hinj rb.ringLen (h.index_lt hi) hi
  refine ⟨?_, ?_, ?_⟩
  · intro frame seq
    constructor
    · rintro ⟨i, hi, rfl⟩
      obtain ⟨i', hi', hidx, hseq⟩ := rehash_slot rb newLen rb.ringLen (hto hi)
      rw [← hinj hi hi' hidx] at hseq
      exact ⟨_, hto hi, hseq⟩
    · rintro ⟨j, hj, rfl⟩
      obtain ⟨i, hi, -, hseq⟩ := rehash_slot rb newLen rb.ringLen hj
      exact ⟨i, hi, hseq.symm⟩
  · refine slot_count_move (fun i => rb.seqSlots i &&& (newLen - 1)) ?_ ?_ ?_
    · intro i j hi hj heq
      obtain ⟨frame, hi⟩ := Option.isSome_iff_exists.mp hi
      obtain ⟨other, hj⟩ := Option.isSome_iff_exists.mp hj
      exact hinj hi hj heq
    · intro i _ hi
      obtain ⟨frame, hi⟩ := Option.isSome_iff_exists.mp hi
      refine ⟨?_, Option.isSome_iff_exists.mpr ⟨frame, hto hi⟩⟩
      have hidx := (hsorted.slots _ frame (hto hi)).2.1
      rw [hidx]
      exact Nat.mod_lt _ (Nat.lt_of_lt_of_le (Nat.zero_lt_of_lt (h.index_lt hi)) hlarger)
    · intro j hj
      obtain ⟨frame, hj⟩ := Option.isSome_iff_exists.mp hj
      obtain ⟨i, hi, hidx, -⟩ := rehash_slot rb newLen rb.ringLen hj
      exact ⟨i, h.index_lt hi, Option.isSome_iff_exists.mpr ⟨frame, hi⟩, hidx.symm⟩
  · intro hwaiting
    cases hslot : (rb.rehash newLen rb.ringLen).1 (rb.expectedSeq &&& (newLen - 1)) with
    | none => exact hslot
    | some frame =>
      -- it would be the expected frame, which the old ring does not have
      obtain ⟨htag, hlt⟩ := hsorted.tag_expected hslot
      obtain ⟨i, hi, -, -⟩ := rehash_slot rb newLen rb.ringLen hslot
      have hidx := (h.slots i frame hi).2.1
      rw [h.slot_eq, h.expected_eq, Nat.mod_eq_of_lt hlt, ← htag, ← hidx, hi] at hwaiting
      cases hwaiting

theorem grow {distance : Nat} {grown : ReorderBuffer Frame}
    (h : Accounted tag first skipped delivered accepted rb next)
    (hgrow : rb.growWindowLocked distance = some grown) :
    Accounted tag first skipped delivered accepted grown next ∧ Regrown rb grown := by
  obtain ⟨hsorted, hexpected, -⟩ := h.toSorted.grow hgrow
  have hlarger : rb.ringLen ≤ grown.ringLen := grow_larger h.ringLen_pow h.ringLen_le hgrow
  have hregrown := h.regrown hgrow hlarger
  obtain ⟨newLen, rfl⟩ := grow_eq hgrow
  refine ⟨⟨hsorted, h.ringLen_ge.trans hlarger, ?_, h.skipped_le, h.advanced, h.started,
    h.ended, ?_, h.distinct⟩, hregrown⟩
  · rw [hregrown.count_eq]
    exact h.buffered_eq
  · intro frame
    rw [h.traced]
    refine or_congr_right ⟨?_, ?_⟩
    · rintro ⟨i, hi⟩
      obtain ⟨j, hj, -⟩ := (hregrown.holds frame _).mp ⟨i, hi, rfl⟩
      exact ⟨j, hj⟩
    · rintro ⟨j, hj⟩
      obtain ⟨i, hi, -⟩ := (hregrown.holds frame _).mpr ⟨j, hj, rfl⟩
      exact ⟨i, hi⟩

/-- The distance check keeps the books and a settled buffer. -/
theorem widen {diff : Nat} {wide : ReorderBuffer Frame}
    (h : Accounted tag first skipped delivered accepted rb next) (hsettled : Settled rb)
    (hwiden : rb.widen diff = some wide) :
    Accounted tag first skipped delivered accepted wide next ∧ Settled wide := by
  unfold ReorderBuffer.widen at hwiden
  split at hwiden
  · split at hwiden
    · cases hwiden
    · obtain ⟨hgrown, hregrown⟩ := h.grow hwiden
      obtain ⟨newLen, rfl⟩ := grow_eq hwiden
      exact ⟨hgrown, hregrown.waiting hsettled.waiting, hsettled.gap⟩
  · cases hwiden
    exact ⟨h, hsettled⟩

end Accounted

/-! ## Insertion -/

/-- The insertion of a number stores its frame: the number is not too old, it lies in the window or
the ring grows to hold it, and its slot is free. -/
def ReorderBuffer.Accepts (rb : ReorderBuffer Frame) (seq : Nat) : Prop :=
  ¬ negative32 (sub32 seq (rb.adopt seq).expectedSeq) ∧
    ((rb.adopt seq).widen (sub32 seq (rb.adopt seq).expectedSeq)).any
      (fun wide => (wide.ring (wide.slot seq)).isNone) = true

instance (rb : ReorderBuffer Frame) (seq : Nat) : Decidable (rb.Accepts seq) :=
  inferInstanceAs (Decidable (_ ∧ _))

/-- The frame is put into its slot by an accepted insertion. -/
theorem inserted_of_accepts {seq : Nat} (h : rb.Accepts seq) (now : Nat) (frame : Frame) :
    ∃ wide, (rb.adopt seq).widen (sub32 seq (rb.adopt seq).expectedSeq) = some wide ∧
      wide.ring (wide.slot seq) = none ∧
      rb.inserted now seq frame = (wide.place now seq frame).1 := by
  obtain ⟨hahead, hany⟩ := h
  obtain ⟨wide, hwiden, hfree⟩ := (Option.any_eq_true _ _).mp hany
  refine ⟨wide, hwiden, Option.isNone_iff_eq_none.mp hfree, ?_⟩
  rw [inserted, insertLocked, insertInWindow, if_neg hahead, hwiden]

/-- A rejected insertion at most widens the ring. -/
theorem inserted_of_not_accepts {seq : Nat} (h : ¬ rb.Accepts seq) (now : Nat) (frame : Frame) :
    rb.inserted now seq frame = rb.adopt seq ∨
      ∃ wide, (rb.adopt seq).widen (sub32 seq (rb.adopt seq).expectedSeq) = some wide ∧
        rb.inserted now seq frame = wide := by
  unfold inserted insertLocked insertInWindow
  split
  · exact .inl rfl
  · rename_i hahead
    split
    · exact .inl rfl
    · rename_i wide hwiden
      refine .inr ⟨wide, hwiden, ?_⟩
      cases hslot : wide.ring (wide.slot seq) with
      | none =>
        refine absurd ⟨hahead, ?_⟩ h
        rw [hwiden, Option.any_some, hslot]
        rfl
      | some other =>
        unfold ReorderBuffer.place
        rw [hslot]

namespace Accounted

variable {seq : Nat}

/-- A number of the window whose slot is free has not been accepted before. -/
theorem not_accepted (h : Accounted tag first skipped delivered accepted rb next) (hle : next ≤ seq)
    (hfree : rb.ring (rb.slot seq) = none) : seq ∉ accepted.map tag := by
  intro hmem
  obtain ⟨other, hother, htag⟩ := mem_map.mp hmem
  rcases (h.traced other).mp hother with hhanded | ⟨i, hi⟩
  · have hbelow := h.below other hhanded
    omega
  · have hidx := (h.slots i other hi).2.1
    rw [h.slot_eq, ← htag, ← hidx, hi] at hfree
    cases hfree

variable {frame : Frame}

/-- Storing a frame of the window in its free slot. -/
theorem store (h : Accounted tag first skipped delivered accepted rb next)
    (hfree : rb.ring (rb.slot seq) = none) (htag : tag frame = seq) (hpos : 0 < next)
    (hle : next ≤ seq) (hwin : seq < next + rb.ringLen) (hword : seq < 2 ^ 32) :
    Accounted tag first skipped delivered (accepted ++ [frame]) (rb.store seq frame) next := by
  refine ⟨h.toSorted.store htag hpos hle hwin hword, h.ringLen_ge, ?_, h.skipped_le,
    h.advanced, h.started, h.ended, ?_, ?_⟩
  · show rb.buffered + 1 = slotCount (update rb.ring (rb.slot seq) (some frame)) rb.ringLen
    rw [slot_count_fill (h.slot_lt seq) hfree, h.buffered_eq]
  · intro other
    show other ∈ accepted ++ [frame] ↔ other ∈ delivered ++ rb.pending ∨
      ∃ i, update rb.ring (rb.slot seq) (some frame) i = some other
    rw [mem_append, mem_singleton, h.traced, or_assoc]
    refine or_congr_right ⟨?_, ?_⟩
    · rintro (⟨i, hi⟩ | rfl)
      · have hne : i ≠ rb.slot seq := by
          intro heq
          rw [heq, hfree] at hi
          cases hi
        exact ⟨i, by rw [update_of_ne hne]; exact hi⟩
      · exact ⟨_, update_self _ _ _⟩
    · rintro ⟨i, hi⟩
      by_cases heq : i = rb.slot seq
      · rw [heq, update_self] at hi
        exact .inr (Option.some.inj hi).symm
      · rw [update_of_ne heq] at hi
        exact .inl ⟨i, hi⟩
  · rw [map_append, map_singleton, htag]
    refine nodup_append.mpr ⟨h.distinct, nodup_singleton _, ?_⟩
    intro a ha b hb heq
    rw [mem_singleton] at hb
    exact h.not_accepted hle hfree (hb ▸ heq ▸ ha)

/-- Placing a frame of the window in its free slot. -/
theorem place {now : Nat} (h : Accounted tag first skipped delivered accepted rb next)
    (hsettled : Settled rb) (hfree : rb.ring (rb.slot seq) = none) (htag : tag frame = seq)
    (hpos : 0 < next) (hlt : next < 2 ^ 32) (hle : next ≤ seq) (hwin : seq < next + rb.ringLen)
    (hword : seq < 2 ^ 32) :
    ∃ later, next ≤ later ∧
      Accounted tag first skipped delivered (accepted ++ [frame]) (rb.place now seq frame).1 later ∧
      Settled (rb.place now seq frame).1 := by
  have hstored := h.store hfree htag hpos hle hwin hword
  unfold ReorderBuffer.place
  rw [hfree]
  dsimp only
  split
  · exact hstored.drain now
  · rename_i hlater
    have hexpected : rb.expectedSeq = next := by rw [h.expected_eq, Nat.mod_eq_of_lt hlt]
    refine ⟨next, le_rfl, hstored.refresh_gap now ?_⟩
    -- the slot of the expected number is another one
    have hslot : rb.slot rb.expectedSeq ≠ rb.slot seq := by
      intro heq
      rw [h.slot_eq, h.slot_eq] at heq
      exact hlater (eq_of_same_slot heq ⟨by omega, by omega⟩ ⟨hle, hwin⟩).symm
    show update rb.ring (rb.slot seq) (some frame) (rb.slot rb.expectedSeq) = none
    rw [update_of_ne hslot]
    exact hsettled.waiting

/-- The number that becomes the first one when it arrives at an uninitialised buffer. -/
theorem adopt (h : Accounted tag first skipped delivered accepted rb next) (hsettled : Settled rb)
    (hnum : Numbered delivered rb seq) (hseq : 0 < seq) (hword : seq < 2 ^ 32) :
    ∃ start, next ≤ start ∧ 0 < start ∧ start < 2 ^ 32 ∧ (rb.adopt seq).expectedSeq = start ∧
      (start = seq ∨ start = rb.expectedSeq) ∧
      Accounted tag (if rb.expectedSeq = 0 then seq else first) skipped delivered accepted
        (rb.adopt seq) start ∧ Settled (rb.adopt seq) := by
  unfold ReorderBuffer.adopt
  by_cases hzero : rb.expectedSeq = 0
  · have hnone := hnum.1 hzero
    have hadvanced := h.advanced
    have hexp := h.expected_eq
    have hnext : next = 0 := by
      have hle := h.next_le
      have hend : next ≠ 2 ^ 32 := fun heq => h.ended heq hnone
      omega
    rw [if_pos hzero, if_pos hzero]
    refine ⟨seq, by omega, hseq, hword, rfl, .inl rfl, ⟨h.toSorted.start hnum hzero hword,
      h.ringLen_ge, h.buffered_eq, h.skipped_le, ?_, fun _ => Nat.ne_of_gt hseq, ?_, h.traced,
      h.distinct⟩, h.ring_empty hzero _, hsettled.gap⟩
    · show seq = seq + (delivered ++ rb.pending).length + (rb.skippedFrames - skipped)
      omega
    · intro heq
      omega
  · rw [if_neg hzero, if_neg hzero]
    have hlt : 0 < next ∧ next < 2 ^ 32 := by
      have hle := h.next_le
      have hexp := h.expected_eq
      omega
    have hexp : rb.expectedSeq = next := by rw [h.expected_eq, Nat.mod_eq_of_lt hlt.2]
    exact ⟨next, le_rfl, hlt.1, hlt.2, hexp, .inr hexp.symm, h, hsettled⟩

/-- An insertion that does not meet the wrapped counter keeps the books. -/
theorem insert {now : Nat} (h : Accounted tag first skipped delivered accepted rb next)
    (hsettled : Settled rb) (hnum : Numbered delivered rb seq) (htag : tag frame = seq)
    (hseq : 0 < seq) (hword : seq < 2 ^ 32) :
    ∃ later, next ≤ later ∧
      Accounted tag (if rb.expectedSeq = 0 then seq else first) skipped delivered
        (if rb.Accepts seq then accepted ++ [frame] else accepted)
        (rb.inserted now seq frame) later ∧
      Settled (rb.inserted now seq frame) := by
  obtain ⟨start, hnext, hpos, hlt, hexpected, hstart, hadopted, hwaiting⟩ :=
    h.adopt hsettled hnum hseq hword
  by_cases haccepts : rb.Accepts seq
  · obtain ⟨wide, hwiden, hfree, hinserted⟩ := inserted_of_accepts haccepts now frame
    obtain ⟨hwide, hwidened⟩ := hadopted.widen hwaiting hwiden
    obtain ⟨-, -, hroom⟩ := hadopted.toSorted.widen hwiden
    rw [if_pos haccepts, hinserted]
    rw [hexpected] at hroom
    have hmax := hwide.ringLen_le
    -- a frame behind the expected number would lie inside the window only by wrapping
    have hahead : start ≤ seq := by
      by_contra hbehind
      rcases hstart with heq | heq
      · omega
      · exact hnum.2 ⟨by omega, by rw [← heq]; omega⟩
    rw [sub32_of_le hahead hword] at hroom
    obtain ⟨later, hle, hlater⟩ :=
      hwide.place hwidened hfree htag hpos hlt hahead (by omega) hword
    exact ⟨later, by omega, hlater⟩
  · rw [if_neg haccepts]
    rcases inserted_of_not_accepts haccepts now frame with hsame | hwidened
    · rw [hsame]
      exact ⟨start, hnext, hadopted, hwaiting⟩
    · obtain ⟨wide, hwiden, hinserted⟩ := hwidened
      rw [hinserted]
      exact ⟨start, hnext, hadopted.widen hwaiting hwiden⟩

/-! ## Gap expiry -/

/-- The search finds a frame if one is buffered. -/
theorem skip_distance_exists (h : Accounted tag first skipped delivered accepted rb next)
    (hwaiting : rb.ring (rb.slot rb.expectedSeq) = none) (hbuffered : 0 < rb.buffered) :
    ∃ distance, rb.skipDistance = some distance := by
  obtain ⟨hexpected, -, hlt⟩ := h.expected_pos hbuffered
  rw [h.buffered_eq] at hbuffered
  obtain ⟨i, frame, -, hi⟩ := exists_of_slot_count_pos hbuffered
  obtain ⟨-, hidx, -, hle, hwin, -⟩ := h.slots i frame hi
  have hne : tag frame ≠ next := by
    intro heq
    rw [h.slot_eq, hexpected, ← heq, ← hidx, hi] at hwaiting
    cases hwaiting
  refine Option.isSome_iff_exists.mp (find?_isSome.mpr ⟨tag frame - next, ?_, ?_⟩)
  · exact mem_range'_1.mpr (by omega)
  · rw [hexpected, h.slot_add, Nat.add_sub_cancel' hle, ← hidx, hi]
    rfl

/-- The skip step keeps the books of a settled buffer. -/
theorem skip (now : Nat) (h : Accounted tag first skipped delivered accepted rb next)
    (hsettled : Settled rb) :
    ∃ later, next ≤ later ∧
      Accounted tag first skipped delivered accepted (rb.skipGap now) later ∧
      Settled (rb.skipGap now) := by
  unfold skipGap
  split
  · rename_i hdue
    obtain ⟨-, hbuffered, -, -⟩ := hdue
    obtain ⟨-, hpos, hlt⟩ := h.expected_pos (Nat.pos_of_ne_zero hbuffered)
    obtain ⟨distance, hskip⟩ :=
      h.skip_distance_exists hsettled.waiting (Nat.pos_of_ne_zero hbuffered)
    obtain ⟨hmoved, hword⟩ := h.toSorted.skip_to hsettled.waiting hskip hlt
    have hadvanced := h.advanced
    have hcounted := h.skipped_le
    have hjumped : Accounted tag first skipped delivered accepted (rb.skipTo distance)
        (next + distance) := by
      refine ⟨hmoved, h.ringLen_ge, h.buffered_eq, ?_, ?_, fun _ => h.started (by omega), ?_,
        h.traced, h.distinct⟩
      · show skipped ≤ rb.skippedFrames + distance
        omega
      · show next + distance = first + (delivered ++ rb.pending).length +
          (rb.skippedFrames + distance - skipped)
        omega
      · intro heq
        omega
    rw [hskip]
    obtain ⟨later, hle, hlater⟩ := hjumped.drain now
    exact ⟨later, by omega, hlater⟩
  · exact ⟨next, le_rfl, h, hsettled⟩

/-- Handing the pending frames over changes the books of nothing. -/
theorem deliver (h : Accounted tag first skipped delivered accepted rb next) :
    Accounted tag first skipped (delivered ++ rb.pending) accepted rb.takePendingLocked.2 next := by
  have hsame : delivered ++ rb.pending ++ [] = delivered ++ rb.pending := append_nil _
  refine ⟨⟨h.ringLen_pow, h.ringLen_le, h.next_le, h.expected_eq, h.slots, ?_, ?_⟩, h.ringLen_ge,
    h.buffered_eq, h.skipped_le, ?_, h.started, ?_, ?_, h.distinct⟩
  · exact hsame.symm ▸ h.ordered
  · exact hsame.symm ▸ h.below
  · exact hsame.symm ▸ h.advanced
  · exact hsame.symm ▸ h.ended
  · exact hsame.symm ▸ h.traced

end Accounted

/-! ## The size of the ring -/

/-- The sizes a ring can have. -/
def SizeOk (size : Nat) : Prop :=
  (∃ n, size = 2 ^ n) ∧ reorderWindowSize ≤ size ∧ size ≤ reorderMaxWindowSize

@[simp] theorem ring_len_refresh (rb : ReorderBuffer Frame) (now : Nat) :
    (rb.refreshGapLocked now).1.ringLen = rb.ringLen := by
  simp only [refreshGapLocked]
  repeat' split
  all_goals rfl

@[simp] theorem ring_len_drain_loop (fuel : Nat) (rb : ReorderBuffer Frame) :
    (drainLoop fuel rb).ringLen = rb.ringLen := by
  induction fuel generalizing rb with
  | zero => rfl
  | succ fuel ih =>
    simp only [drainLoop]
    split
    · rfl
    · exact ih _

@[simp] theorem ring_len_drain (rb : ReorderBuffer Frame) (now : Nat) :
    (rb.drainLocked now).1.ringLen = rb.ringLen := by
  simp [drainLocked]

@[simp] theorem ring_len_place (rb : ReorderBuffer Frame) (now seq : Nat) (frame : Frame) :
    (rb.place now seq frame).1.ringLen = rb.ringLen := by
  unfold ReorderBuffer.place
  repeat' split
  · rfl
  · exact ring_len_drain _ _
  · exact ring_len_refresh _ _

theorem SizeOk.widen {diff : Nat} {wide : ReorderBuffer Frame} (h : SizeOk rb.ringLen)
    (hwiden : rb.widen diff = some wide) : SizeOk wide.ringLen := by
  obtain ⟨hpow, hge, hle⟩ := h
  unfold ReorderBuffer.widen at hwiden
  split at hwiden
  · split at hwiden
    · cases hwiden
    · have hlarger := grow_larger hpow hle hwiden
      obtain ⟨hpow', hle'⟩ := grow_ring_len hpow hwiden
      exact ⟨hpow', hge.trans hlarger, hle'⟩
  · cases hwiden
    exact ⟨hpow, hge, hle⟩

theorem SizeOk.inserted (h : SizeOk rb.ringLen) (now seq : Nat) (frame : Frame) :
    SizeOk (rb.inserted now seq frame).ringLen := by
  have hadopt : SizeOk (rb.adopt seq).ringLen := by
    unfold ReorderBuffer.adopt
    split
    · exact h
    · exact h
  refine insert_in_window_spec (P := fun rb' => SizeOk rb'.ringLen) hadopt fun wide hwiden => ?_
  rw [ring_len_place]
  exact hadopt.widen hwiden

theorem SizeOk.skip (h : SizeOk rb.ringLen) (now : Nat) : SizeOk (rb.skipGap now).ringLen := by
  unfold skipGap
  repeat' split
  · exact h
  · rw [ring_len_drain]
    exact h
  · exact h

variable {r : Receiver Frame}

/-- Every call leaves the ring with a size it can have, also calls that meet the wrapped counter. -/
theorem SizeOk.step {r' : Receiver Frame} {call : Call Frame} (h : SizeOk r.buffer.ringLen)
    (hstep : r.step call = some r') : SizeOk r'.buffer.ringLen :=
  Receiver.step_rule (P := fun r' => SizeOk r'.buffer.ringLen) h
    (fun now seq frame _ _ => h.inserted now seq frame) (fun _ hr => hr) h.skip
    (fun _ => h) (fun _ => h) hstep

theorem Receiver.size_ok_of_run {calls : List (Call Frame)}
    (hrun : run Receiver.step .new calls = some r) : SizeOk r.buffer.ringLen := by
  have hnew : SizeOk (Receiver.new : Receiver Frame).buffer.ringLen :=
    ⟨⟨11, rfl⟩, le_rfl, by show reorderWindowSize ≤ reorderMaxWindowSize; decide⟩
  have hpreserve : ∀ (r : Receiver Frame) call r', SizeOk r.buffer.ringLen →
      r.step call = some r' → SizeOk r'.buffer.ringLen :=
    fun _ _ _ hsize hstep => hsize.step hstep
  exact run_preserves hpreserve hnew hrun

/-! ## Between two resets -/

/-- A receiver at the beginning of an epoch: new, or just reset after any calls. -/
def Receiver.Fresh (r : Receiver Frame) : Prop :=
  r = .new ∨ ∃ calls before, run Receiver.step .new calls = some before ∧
    before.step .reset = some r

theorem Receiver.Fresh.accounted (h : r.Fresh) :
    Accounted tag 0 r.buffer.skippedFrames r.delivered [] r.buffer 0 ∧ Settled r.buffer := by
  -- nothing is buffered or handed out, so only the size of the ring says anything
  have hempty : ∀ {r : Receiver Frame}, SizeOk r.buffer.ringLen → r.buffer.expectedSeq = 0 →
      (∀ i, r.buffer.ring i = none) → r.buffer.buffered = 0 → r.delivered ++ r.buffer.pending = [] →
      r.buffer.gapSince = none →
      Accounted tag 0 r.buffer.skippedFrames r.delivered [] r.buffer 0 ∧ Settled r.buffer := by
    intro r hsize hexpected hring hbuffered hnone hgap
    refine ⟨⟨⟨hsize.1, hsize.2.2, by decide, hexpected, ?_, ?_, ?_⟩, hsize.2.1, ?_, le_rfl, ?_,
      fun hne => absurd rfl hne, ?_, ?_, nodup_nil⟩, hring _, ?_⟩
    · intro i frame hi
      rw [hring i] at hi
      cases hi
    · rw [hnone]
      exact List.Pairwise.nil
    · rw [hnone]
      exact fun _ hmem => absurd hmem not_mem_nil
    · rw [hbuffered, slot_count_of_empty hring]
    · rw [hnone, Nat.sub_self]
      rfl
    · intro heq
      cases heq
    · intro frame
      rw [hnone]
      simp [hring]
    · rw [hgap, hbuffered]
      simp
  rcases h with rfl | ⟨calls, before, hrun, hreset⟩
  · exact hempty (Receiver.size_ok_of_run (run_nil _)) rfl (fun _ => rfl) rfl rfl rfl
  · have hsize := Receiver.size_ok_of_run hrun
    cases hreset
    exact hempty hsize rfl (fun _ => rfl) rfl rfl rfl

/-- A receiver since the beginning of an epoch, with the first number that arrived, the frames that
were counted as skipped before, and the frames that the buffer has accepted. -/
structure Epoch (Frame : Type) where
  receiver : Receiver Frame
  first : Nat
  skipped : Nat
  accepted : List Frame

namespace Epoch

/-- The beginning of an epoch. -/
def start (r : Receiver Frame) : Epoch Frame := ⟨r, 0, r.buffer.skippedFrames, []⟩

/-- The record of an insertion that leaves the receiver behind. -/
def note (e : Epoch Frame) (seq : Nat) (frame : Frame) (receiver : Receiver Frame) :
    Epoch Frame :=
  if seq = 0 ∨ e.receiver.buffer.shutting = true then { e with receiver }
  else
    { e with
      receiver
      first := if e.receiver.buffer.expectedSeq = 0 then seq else e.first
      accepted :=
        if e.receiver.buffer.Accepts seq then e.accepted ++ [frame] else e.accepted }

/-- One call. A reset or a close ends the epoch. -/
def step (e : Epoch Frame) : Call Frame → Option (Epoch Frame)
  | .insert now seq frame => some (e.note seq frame (e.receiver.insert now seq frame))
  | .insertActorBuffered now seq frame =>
    some (e.note seq frame (e.receiver.insertActorBuffered now seq frame))
  | .flushActor => some { e with receiver := e.receiver.deliver }
  | .expireGapActor now =>
    (e.receiver.step (.expireGapActor now)).map fun receiver => { e with receiver }
  | .timeoutSkip now =>
    (e.receiver.step (.timeoutSkip now)).map fun receiver => { e with receiver }
  | .reset | .close => none

variable {call : Call Frame}

/-- The receiver's part of a step is a call of the receiver. -/
theorem receiver_step {e e' : Epoch Frame} (h : e.step call = some e') :
    e.receiver.step call = some e'.receiver := by
  have hnote : ∀ seq frame receiver, (e.note seq frame receiver).receiver = receiver := by
    intro seq frame receiver
    unfold note
    split
    · rfl
    · rfl
  cases call with
  | insert | insertActorBuffered =>
    cases h
    rw [hnote]
    rfl
  | flushActor =>
    cases h
    rfl
  | expireGapActor now =>
    obtain ⟨receiver, hstep, rfl⟩ := Option.map_eq_some_iff.mp h
    exact hstep
  | timeoutSkip now =>
    cases h
    rfl
  | reset | close => cases h

/-- The books of an epoch are kept. -/
def Kept (tag : Frame → Nat) (e : Epoch Frame) : Prop :=
  ∃ next, Accounted tag e.first e.skipped e.receiver.delivered e.accepted e.receiver.buffer next ∧
    Settled e.receiver.buffer

variable {e e' : Epoch Frame}

theorem kept_start {r : Receiver Frame} (h : r.Fresh) : (start r).Kept tag :=
  ⟨0, h.accounted⟩

/-- The books of an epoch with the unwrapped expected number. -/
def KeptAt (tag : Frame → Nat) (e : Epoch Frame) (next : Nat) : Prop :=
  Accounted tag e.first e.skipped e.receiver.delivered e.accepted e.receiver.buffer next ∧
    Settled e.receiver.buffer

theorem KeptAt.deliver (h : e.KeptAt tag next) :
    { e with receiver := e.receiver.deliver }.KeptAt tag next :=
  ⟨h.1.deliver, h.2.waiting, h.2.gap⟩

theorem KeptAt.skip (now : Nat) (h : e.KeptAt tag next) :
    ∃ later, next ≤ later ∧ { e with receiver := e.receiver.skip now }.KeptAt tag later := by
  unfold Receiver.skip
  split
  · obtain ⟨later, hle, hbooks, hsettled⟩ := h.1.skip now h.2
    exact ⟨later, hle, hbooks.deliver, hsettled.waiting, hsettled.gap⟩
  · exact ⟨next, le_rfl, h⟩

/-- An insertion into an open buffer, before the frames it releases are handed over. -/
theorem KeptAt.insert_locked {seq : Nat} {frame : Frame} (h : e.KeptAt tag next) (now : Nat)
    (hopen : ¬ (seq = 0 ∨ e.receiver.buffer.shutting = true))
    (hnum : Numbered e.receiver.delivered e.receiver.buffer seq) (hword : seq < 2 ^ 32)
    (htag : tag frame = seq) :
    ∃ later, next ≤ later ∧ (e.note seq frame
      { e.receiver with buffer := e.receiver.buffer.inserted now seq frame }).KeptAt tag later := by
  rw [note, if_neg hopen]
  exact h.1.insert h.2 hnum htag (Nat.pos_of_ne_zero fun hzero => hopen (.inl hzero)) hword

/-- Every call that does not meet the wrapped counter keeps the books, and the expected number does
not go back. -/
theorem KeptAt.step (h : e.KeptAt tag next) (hallowed : e.receiver.NoWrap call ∧ call.Tagged tag)
    (hstep : e.step call = some e') : ∃ later, next ≤ later ∧ e'.KeptAt tag later := by
  obtain ⟨hwrap, htagged⟩ := hallowed
  cases call with
  | insert now seq frame =>
    cases hstep
    unfold Receiver.insert
    by_cases hopen : seq = 0 ∨ e.receiver.buffer.shutting = true
    · rw [if_pos hopen, note, if_pos hopen]
      exact ⟨next, le_rfl, h⟩
    · obtain ⟨hseq, hshut⟩ := not_or.mp hopen
      have hnum := (hwrap.resolve_left hseq).resolve_left hshut
      obtain ⟨later, hle, hkept⟩ := h.insert_locked now hopen hnum htagged.1 htagged.2
      have hdelivered := hkept.deliver
      rw [note, if_neg hopen] at hdelivered
      rw [if_neg hopen, note, if_neg hopen]
      exact ⟨later, hle, hdelivered⟩
  | insertActorBuffered now seq frame =>
    cases hstep
    unfold Receiver.insertActorBuffered ReorderBuffer.insertActorBuffered
    by_cases hopen : seq = 0 ∨ e.receiver.buffer.shutting = true
    · rw [if_pos hopen, note, if_pos hopen]
      exact ⟨next, le_rfl, h⟩
    · obtain ⟨hseq, hshut⟩ := not_or.mp hopen
      have hnum := (hwrap.resolve_left hseq).resolve_left hshut
      rw [if_neg hopen]
      exact h.insert_locked now hopen hnum htagged.1 htagged.2
  | flushActor =>
    cases hstep
    exact ⟨next, le_rfl, h.deliver⟩
  | expireGapActor now =>
    obtain ⟨receiver, hreceiver, rfl⟩ := Option.map_eq_some_iff.mp hstep
    simp only [Receiver.step] at hreceiver
    split at hreceiver
    · cases hreceiver
      exact ⟨next, le_rfl, h⟩
    · cases hreceiver
      exact h.skip now
  | timeoutSkip now =>
    cases hstep
    exact h.skip now
  | reset | close => cases hstep

theorem Kept.step (h : e.Kept tag) (hallowed : e.receiver.NoWrap call ∧ call.Tagged tag)
    (hstep : e.step call = some e') : e'.Kept tag := by
  obtain ⟨next, hkept⟩ := h
  obtain ⟨later, -, hlater⟩ := KeptAt.step hkept hallowed hstep
  exact ⟨later, hlater⟩

end Epoch

/-- The ring is what its size, its slots and its counters say, and it loses no frame when it
grows. -/
structure Represented (rb : ReorderBuffer Frame) : Prop where
  size : SizeOk rb.ringLen
  slots : ∀ i, (rb.ring i).isSome = true → rb.seqSlots i &&& rb.windowMask = i ∧
    rb.expectedSeq ≤ rb.seqSlots i ∧ rb.seqSlots i - rb.expectedSeq < rb.ringLen
  buffered_eq : rb.buffered = slotCount rb.ring rb.ringLen
  gap : rb.gapSince.isSome = true ↔ 0 < rb.buffered
  grows : ∀ distance grown, rb.growWindowLocked distance = some grown →
    ∀ frame seq, (∃ i, rb.ring i = some frame ∧ rb.seqSlots i = seq) →
      ∃ j, grown.ring j = some frame ∧ grown.seqSlots j = seq

namespace Accounted

theorem represented (h : Accounted tag first skipped delivered accepted rb next)
    (hsettled : Settled rb) : Represented rb := by
  refine ⟨⟨h.ringLen_pow, h.ringLen_ge, h.ringLen_le⟩, ?_, h.buffered_eq, hsettled.gap, ?_⟩
  · intro i hi
    obtain ⟨frame, hi⟩ := Option.isSome_iff_exists.mp hi
    obtain ⟨-, hidx, hseq, hle, hwin, -⟩ := h.slots i frame hi
    have hexpected := (h.expected_pos (h.buffered_eq ▸ slot_count_pos (h.index_lt hi) hi)).1
    rw [hseq, hexpected]
    exact ⟨(h.slot_eq (tag frame)).trans hidx.symm, hle, by omega⟩
  · intro distance grown hgrow frame seq hheld
    exact ((h.grow hgrow).2.holds frame seq).mp hheld

/-- The expected number is as far from the first one as frames were handed out or skipped. -/
theorem distance_eq (h : Accounted tag first skipped delivered accepted rb next) :
    sub32 rb.expectedSeq first =
      (delivered ++ rb.pending).length + (rb.skippedFrames - skipped) := by
  have hadvanced := h.advanced
  have hstarted := h.started
  have hle := h.next_le
  rw [h.expected_eq, sub32]
  omega

/-- A frame handed out is the first one accepted under its number. -/
theorem find_accepted (h : Accounted tag first skipped delivered accepted rb next) {frame : Frame}
    (hhanded : frame ∈ delivered ++ rb.pending) :
    accepted.find? (fun other => tag other = tag frame) = some frame := by
  have hmem := (h.traced frame).mpr (.inl hhanded)
  have hsome : (accepted.find? fun other => tag other = tag frame).isSome = true :=
    find?_isSome.mpr ⟨frame, hmem, decide_eq_true rfl⟩
  obtain ⟨found, hfound⟩ := Option.isSome_iff_exists.mp hsome
  have htag := find?_some hfound
  rw [decide_eq_true_eq] at htag
  rw [hfound, inj_on_of_nodup_map h.distinct (mem_of_find?_eq_some hfound) hmem htag]

end Accounted

namespace Epoch

/-- The books of an epoch: the representation of the ring, the payloads handed out, and the way the
expected number has come. -/
structure Balanced (tag : Frame → Nat) (e : Epoch Frame) : Prop where
  represented : Represented e.receiver.buffer
  payload : ∀ frame ∈ e.receiver.delivered ++ e.receiver.buffer.pending,
    e.accepted.find? (fun other => tag other = tag frame) = some frame
  advanced : sub32 e.receiver.buffer.expectedSeq e.first =
    (e.receiver.delivered ++ e.receiver.buffer.pending).length +
      (e.receiver.buffer.skippedFrames - e.skipped)

/-- After every call between two resets, in both receive modes and for any order, duplicates and
distances: the ring and its counters agree, and the frames handed out and skipped account for the
expected number. -/
theorem ring_accounted (tag : Frame → Nat) (r : Receiver Frame) (hfresh : r.Fresh)
    (calls : List (Call Frame)) (e : Epoch Frame) (htagged : ∀ call ∈ calls, call.Tagged tag)
    (hwrap : Along step (fun e call => e.receiver.NoWrap call) (start r) calls)
    (hrun : run step (start r) calls = some e) : e.Balanced tag := by
  have hpreserve : ∀ (e : Epoch Frame) call e', e.Kept tag →
      e.receiver.NoWrap call ∧ call.Tagged tag → e.step call = some e' → e'.Kept tag :=
    fun _ _ _ hkept hallowed hstep => hkept.step hallowed hstep
  have hkept := run_invariant hpreserve (kept_start hfresh) (hwrap.and_mem htagged) hrun
  obtain ⟨next, hbooks, hsettled⟩ := hkept
  exact ⟨hbooks.represented hsettled, fun frame hf => hbooks.find_accepted hf, hbooks.distance_eq⟩

/-- A gap of one frame that expires, and a later gap that stays. -/
def expiredGap : List (Call (Nat × String)) :=
  [.insert 0 5 (5, "a"), .insert 0 7 (7, "b"), .insert 1 7 (7, "c"), .timeoutSkip 60000000,
    .insert 60000001 10 (10, "d")]

/-- The skipped number is counted. -/
theorem expired_gap_accounted :
    ∃ e, run step (start (Receiver.new : Receiver (Nat × String))) expiredGap = some e ∧
      e.receiver.delivered = [(5, "a"), (7, "b")] ∧ e.receiver.buffer.skippedFrames = 1 ∧
      e.receiver.buffer.expectedSeq = 8 ∧ e.first = 5 ∧ e.Balanced Prod.fst :=
  ⟨_, rfl, by decide, by decide, by decide, by decide,
    ring_accounted Prod.fst .new (.inl rfl) expiredGap _ (by decide) (by decide) rfl⟩

end Epoch

end TlsVpn.Reorder
