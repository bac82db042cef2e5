import TlsVpn.Reorder.Window

/-!
# The expected number stays behind the sender

As long as every number inserted is at most `top`, the number the buffer waits for is at most
`top + 1`: it moves over a frame it holds, or onto one when a gap expires. With room for a whole
window between `top` and the end of the 32-bit space, no insertion can then meet the wrapped counter
(`Capped.no_wrap`), so the results on order and accounting need no further condition. A sender that
has used `top` numbers of an epoch is what keeps the insertions below it.
-/

namespace TlsVpn.Reorder

open Lib ReorderBuffer Function

variable {Frame : Type} {tag : Frame → Nat} {delivered : List Frame} {rb : ReorderBuffer Frame}
  {next top : Nat}

/-- The buffered frames have numbers up to `top`. -/
def ReorderBuffer.UpTo (tag : Frame → Nat) (top : Nat) (rb : ReorderBuffer Frame) : Prop :=
  ∀ i frame, rb.ring i = some frame → tag frame ≤ top

theorem Sorted.drain_loop_up_to (fuel : Nat) (h : Sorted tag delivered rb next)
    (hup : rb.UpTo tag top) (hle : next ≤ top + 1) :
    ∃ later ≤ top + 1, Sorted tag delivered (drainLoop fuel rb) later ∧
      (drainLoop fuel rb).UpTo tag top := by
  induction fuel generalizing rb next with
  | zero => exact ⟨next, hle, h, hup⟩
  | succ fuel ih =>
    simp only [drainLoop]
    cases hslot : rb.ring (rb.slot rb.expectedSeq) with
    | none => exact ⟨next, hle, h, hup⟩
    | some frame =>
      have htag := (h.tag_expected hslot).1
      have hframe := hup _ frame hslot
      refine ih (h.take_expected hslot) ?_ (by omega)
      intro i other hi
      simp only [takeExpected, update_apply] at hi
      split at hi
      · cases hi
      · exact hup i other hi

theorem Sorted.drain_up_to (now : Nat) (h : Sorted tag delivered rb next)
    (hup : rb.UpTo tag top) (hle : next ≤ top + 1) :
    ∃ later ≤ top + 1, Sorted tag delivered (rb.drainLocked now).1 later ∧
      (rb.drainLocked now).1.UpTo tag top := by
  have hgap : Sorted tag delivered { rb with gapSince := none } next :=
    h.of_same_window rfl rfl rfl rfl rfl
  obtain ⟨later, hlater, hsorted, hlater_up⟩ := hgap.drain_loop_up_to rb.ringLen hup hle
  obtain ⟨since, events, heq⟩ :=
    refresh_eq (drainLoop rb.ringLen { rb with gapSince := none }) now
  refine ⟨later, hlater, hsorted.refresh_gap now, ?_⟩
  show ((drainLoop rb.ringLen { rb with gapSince := none }).refreshGapLocked now).1.UpTo tag top
  rw [heq]
  exact hlater_up

theorem up_to_widen {diff : Nat} {wide : ReorderBuffer Frame} (hup : rb.UpTo tag top)
    (hwiden : rb.widen diff = some wide) : wide.UpTo tag top := by
  rcases widen_eq hwiden with rfl | ⟨newLen, rfl⟩
  · exact hup
  · intro j frame hj
    obtain ⟨i, hi, -, -⟩ := rehash_slot rb newLen rb.ringLen hj
    exact hup i frame hi

theorem Sorted.place_up_to {now seq : Nat} {frame : Frame} (h : Sorted tag delivered rb next)
    (hup : rb.UpTo tag top) (hnext : next ≤ top + 1) (htop : seq ≤ top)
    (htag : tag frame = seq) (hpos : 0 < next) (hle : next ≤ seq)
    (hwin : seq < next + rb.ringLen) (hword : seq < 2 ^ 32) :
    ∃ later ≤ top + 1, Sorted tag delivered (rb.place now seq frame).1 later ∧
      (rb.place now seq frame).1.UpTo tag top := by
  have hstored := h.store htag hpos hle hwin hword
  have hup_stored : (rb.store seq frame).UpTo tag top := by
    intro i other hi
    simp only [ReorderBuffer.store, update_apply] at hi
    split at hi
    · cases hi
      omega
    · exact hup i other hi
  unfold ReorderBuffer.place
  split
  · exact ⟨next, hnext, h, hup⟩
  · split
    · exact hstored.drain_up_to now hup_stored hnext
    · obtain ⟨since, events, heq⟩ := refresh_eq (rb.store seq frame) now
      refine ⟨next, hnext, hstored.refresh_gap now, ?_⟩
      rw [heq]
      exact hup_stored

theorem Sorted.skip_up_to (now : Nat) (h : Sorted tag delivered rb next)
    (hup : rb.UpTo tag top) (hle : next ≤ top + 1) :
    ∃ later ≤ top + 1, Sorted tag delivered (rb.skipGap now) later ∧
      (rb.skipGap now).UpTo tag top := by
  unfold skipGap
  split
  · rename_i hdue
    obtain ⟨-, -, hnonzero, hslot⟩ := hdue
    have hempty : rb.ring (rb.slot rb.expectedSeq) = none := by simpa using hslot
    have hlt : next < 2 ^ 32 := by
      have hbound := h.next_le
      have hexp := h.expected_eq
      omega
    cases hskip : rb.skipDistance with
    | none => exact ⟨next, hle, h.of_same_window rfl rfl rfl rfl rfl, hup⟩
    | some skipped =>
      obtain ⟨hmoved, -⟩ := h.skip_to hempty hskip hlt
      -- the search ends at a buffered frame
      have hfound : (rb.ring (rb.slot (add32 rb.expectedSeq skipped))).isSome = true :=
        List.find?_some (p := fun i => (rb.ring (rb.slot (add32 rb.expectedSeq i))).isSome)
          hskip
      obtain ⟨frame, hframe⟩ := Option.isSome_iff_exists.mp hfound
      have hahead := (h.skip_distance hempty hskip hlt).2 _ frame hframe
      have htop := hup _ frame hframe
      exact hmoved.drain_up_to now hup (by omega)
  · exact ⟨next, hle, h, hup⟩

namespace Receiver

/-- The numbers that the receiver waits for and holds are at most `top + 1` and `top`. -/
def Capped (tag : Frame → Nat) (top : Nat) (r : Receiver Frame) : Prop :=
  ∃ next ≤ top + 1, Sorted tag r.delivered r.buffer next ∧ r.buffer.UpTo tag top

variable {r r' : Receiver Frame} {call : Call Frame}

theorem capped_new (tag : Frame → Nat) (top : Nat) : Capped tag top (new : Receiver Frame) := by
  have hfresh : (new : Receiver Frame).Fresh := .inl rfl
  have haccounted : Accounted tag 0 _ _ _ _ 0 := hfresh.accounted.1
  exact ⟨0, Nat.zero_le _, haccounted.toSorted, fun i frame hi => by cases hi⟩

/-- With a window of room behind `top`, an insertion up to `top` does not meet the wrapped
counter. -/
theorem Capped.numbered (h : r.Capped tag top) (hroom : top + reorderMaxWindowSize < 2 ^ 32)
    {seq : Nat} (hseq : seq ≤ top) : Numbered r.delivered r.buffer seq := by
  obtain ⟨next, hle, hsorted, -⟩ := h
  have hexp := hsorted.expected_eq
  have hlt : next < 2 ^ 32 := by
    unfold reorderMaxWindowSize at hroom
    omega
  rw [Nat.mod_eq_of_lt hlt] at hexp
  refine ⟨fun hzero => ?_, fun hbehind => ?_⟩
  · -- nothing can have been handed out below the number `0`
    refine List.eq_nil_iff_forall_not_mem.mpr fun frame hframe => ?_
    have hbelow := hsorted.below frame hframe
    omega
  · obtain ⟨hlow, hnear⟩ := hbehind
    unfold sub32 at hnear
    omega

theorem Capped.no_wrap (h : r.Capped tag top) (hroom : top + reorderMaxWindowSize < 2 ^ 32)
    (hcall : ∀ seq ∈ call.seq?, seq ≤ top) : r.NoWrap call := by
  cases call with
  | insert now seq frame | insertActorBuffered now seq frame =>
    exact .inr (.inr (h.numbered hroom (hcall seq rfl)))
  | flushActor | expireGapActor now | timeoutSkip now | reset | close => trivial

theorem Capped.deliver (h : r.Capped tag top) : r.deliver.Capped tag top := by
  obtain ⟨next, hle, h, hup⟩ := h
  refine ⟨next, hle, { h with ordered := ?_, below := ?_ }, hup⟩
  · simpa [Receiver.deliver, takePendingLocked] using h.ordered
  · simpa [Receiver.deliver, takePendingLocked] using h.below

theorem Capped.insert_locked (h : r.Capped tag top) (hroom : top + reorderMaxWindowSize < 2 ^ 32)
    {now seq : Nat} {frame : Frame} (htag : tag frame = seq) (hpos : seq ≠ 0) (hseq : seq ≤ top) :
    { r with buffer := r.buffer.inserted now seq frame }.Capped tag top := by
  have hnum := h.numbered hroom hseq
  have hword : seq < 2 ^ 32 := by omega
  obtain ⟨next, hle, h, hup⟩ := h
  obtain ⟨start, hstart_pos, hlt, hsorted, hexp⟩ :=
    h.adopt hnum (Nat.pos_of_ne_zero hpos) hword
  have hstart : (r.buffer.adopt seq).expectedSeq = start := by
    rw [hsorted.expected_eq, Nat.mod_eq_of_lt hlt]
  have hup_adopt : (r.buffer.adopt seq).UpTo tag top := by
    unfold ReorderBuffer.adopt
    split
    · exact hup
    · exact hup
  have hstart_le : start ≤ top + 1 := by
    have hnext := h.expected_eq
    rcases hexp with hexp | hexp
    · omega
    · have hmod := Nat.mod_le next (2 ^ 32)
      omega
  refine insert_in_window_spec
    (P := fun rb' => Capped tag top { r with buffer := rb' })
    ⟨start, hstart_le, hsorted, hup_adopt⟩ ?_
  intro wide hwiden
  rw [hstart] at hwiden
  obtain ⟨hwide, -, hroom'⟩ := hsorted.widen hwiden
  have hmax := hwide.ringLen_le
  have hahead : start ≤ seq := by
    by_contra hbehind
    rcases hexp with hexp | hexp
    · omega
    · exact hnum.2 ⟨by omega, by rw [← hexp, hstart]; omega⟩
  rw [sub32_of_le hahead hword] at hroom'
  exact hwide.place_up_to (up_to_widen hup_adopt hwiden) hstart_le hseq htag hstart_pos hahead
    (by omega) hword

theorem Capped.skip_gap (now : Nat) (h : r.Capped tag top) :
    { r with buffer := r.buffer.skipGap now }.Capped tag top := by
  obtain ⟨next, hle, h, hup⟩ := h
  exact h.skip_up_to now hup hle

/-- A call adds no number above `top`. -/
theorem Capped.step (h : r.Capped tag top) (hroom : top + reorderMaxWindowSize < 2 ^ 32)
    (hordinary : call.Ordinary) (htagged : call.Tagged tag) (hcall : ∀ seq ∈ call.seq?, seq ≤ top)
    (hstep : r.step call = some r') : r'.Capped tag top := by
  refine step_rule h ?_ (fun _ hr => hr.deliver) h.skip_gap ?_ ?_ hstep
  · intro now seq frame hinsert hopen
    rcases hinsert with rfl | rfl
    all_goals exact h.insert_locked hroom htagged.2 (not_or.mp hopen).1 (hcall seq rfl)
  · rintro rfl
    cases hordinary
  · rintro rfl
    cases hordinary

end Receiver

namespace Epoch

variable {e e' : Epoch Frame} {call : Call Frame}

theorem ordinary_of_step (hstep : e.step call = some e') : call.Ordinary := by
  cases call with
  | reset | close => cases hstep
  | _ => trivial

/-- The books of an epoch whose sender has used the numbers up to `top`. -/
structure Within (tag : Frame → Nat) (top : Nat) (e : Epoch Frame) : Prop where
  kept : e.Kept tag
  capped : e.receiver.Capped tag top

theorem within_new (tag : Frame → Nat) (top : Nat) :
    (start (Receiver.new : Receiver Frame)).Within tag top :=
  ⟨kept_start (.inl rfl), Receiver.capped_new tag top⟩

theorem Within.step (h : e.Within tag top) (hroom : top + reorderMaxWindowSize < 2 ^ 32)
    (htagged : call.Tagged tag) (hcall : ∀ seq ∈ call.seq?, seq ≤ top)
    (hstep : e.step call = some e') : e'.Within tag top :=
  ⟨h.kept.step ⟨h.capped.no_wrap hroom hcall, htagged⟩ hstep,
    h.capped.step hroom (ordinary_of_step hstep) htagged hcall (receiver_step hstep)⟩

/-- A frame that the epoch has accepted was inserted by a call. -/
theorem mem_accepted_step (hstep : e.step call = some e') {frame : Frame}
    (hframe : frame ∈ e'.accepted) :
    frame ∈ e.accepted ∨ ∃ now seq, call = .insert now seq frame ∨
      call = .insertActorBuffered now seq frame := by
  rcases step_cases hstep with ⟨now, seq, other, hinsert, receiver, rfl⟩ | ⟨-, receiver, rfl⟩
  · unfold note at hframe
    split at hframe
    · exact .inl hframe
    · dsimp only at hframe
      split at hframe
      · rcases List.mem_append.mp hframe with hold | hnew
        · exact .inl hold
        · obtain rfl := List.mem_singleton.mp hnew
          exact .inr ⟨now, seq, hinsert⟩
      · exact .inl hframe
  · exact .inl hframe

end Epoch

end TlsVpn.Reorder
