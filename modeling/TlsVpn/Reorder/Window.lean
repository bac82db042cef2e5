import TlsVpn.Reorder.Accounting

/-!
# The window of the reorder buffer

A frame that lies ahead of the expected number is accepted if it is within the window, for which
the ring grows if it must. `window_accepts` gives the exact width: `2 ^ 16` numbers once the ring
has its full size, and one less before, because the growing loop asks for more room than the frame
needs (`last_of_window_rejected`).

A frame outside the window is dropped without a trace, so the gap timer does not start for it.
`jump_delivered` shows that a sequence of frames gets through the gap before it if one of them
arrives within the window, and `jump_wedges` is a jump that is too large.
-/

namespace TlsVpn.Reorder

open Lib ReorderBuffer Function List

variable {Frame : Type} {tag : Frame → Nat} {delivered accepted : List Frame}
  {rb : ReorderBuffer Frame} {first skipped next : Nat}

/-! ## How far the ring grows -/

/-- The doubling loop ends with more room than required or with the largest ring. -/
theorem grow_size_reaches (distance fuel : Nat) {size : Nat}
    (hfuel : reorderMaxWindowSize ≤ size * 2 ^ fuel) :
    distance < growSize distance fuel size ∨
      reorderMaxWindowSize ≤ growSize distance fuel size := by
  induction fuel generalizing size with
  | zero =>
    right
    simpa [growSize] using hfuel
  | succ fuel ih =>
    simp only [growSize]
    split
    · refine ih ?_
      rw [Nat.mul_comm 2 size, Nat.mul_assoc, ← Nat.pow_succ']
      exact hfuel
    · omega

/-- A ring that is not full-size grows for every distance below the largest size. -/
theorem grow_is_some_iff (hsize : SizeOk rb.ringLen) (hsmall : rb.ringLen < reorderMaxWindowSize)
    (distance : Nat) :
    (rb.growWindowLocked distance).isSome = true ↔ distance < reorderMaxWindowSize := by
  have hfuel : reorderMaxWindowSize ≤ rb.ringLen * 2 ^ 16 := by
    have hge := hsize.2.1
    simp only [reorderMaxWindowSize, reorderWindowSize] at hge ⊢
    omega
  have hreach := grow_size_reaches distance 16 hfuel
  unfold growWindowLocked
  rw [if_neg (Nat.not_le.mpr hsmall)]
  simp only
  split
  · simp only [Option.isSome_none, Bool.false_eq_true, false_iff]
    omega
  · simp only [Option.isSome_some, true_iff]
    omega

/-- The numbers ahead that the buffer makes room for. -/
def ReorderBuffer.Within (rb : ReorderBuffer Frame) (diff : Nat) : Prop :=
  diff < reorderMaxWindowSize - 1 ∨
    diff < reorderMaxWindowSize ∧ rb.ringLen = reorderMaxWindowSize

instance (rb : ReorderBuffer Frame) (diff : Nat) : Decidable (rb.Within diff) :=
  inferInstanceAs (Decidable (_ ∨ _))

theorem widen_is_some_iff (hsize : SizeOk rb.ringLen) (diff : Nat) :
    (rb.widen diff).isSome = true ↔ rb.Within diff := by
  have hle := hsize.2.2
  unfold ReorderBuffer.widen ReorderBuffer.Within
  split
  · rename_i hbeyond
    split
    · simp only [Option.isSome_none, Bool.false_eq_true, false_iff]
      omega
    · rename_i hmax
      -- the loop is asked for one number more than the frame needs
      have hword : add32 diff 1 = diff + 1 := by
        simp only [reorderMaxWindowSize] at hmax
        simp only [add32]
        omega
      rw [grow_is_some_iff hsize (by omega), hword]
      omega
  · simp only [Option.isSome_some, true_iff]
    omega

/-! ## Acceptance -/

/-- The number is in the ring. -/
def ReorderBuffer.Buffered (rb : ReorderBuffer Frame) (seq : Nat) : Prop :=
  ∃ i, (rb.ring i).isSome = true ∧ rb.seqSlots i = seq

/-- The insertion that led from `rb` to `after` has stored the frame or released it. -/
def ReorderBuffer.Took (rb after : ReorderBuffer Frame) (seq : Nat) (frame : Frame) : Prop :=
  after.Buffered seq ∨ rb.pending ++ [frame] <+: after.pending

/-- The slot that a number gets, in the ring as it is or as it grows for it, is not taken. -/
def ReorderBuffer.Free (rb : ReorderBuffer Frame) (seq : Nat) : Prop :=
  ∀ wide, rb.widen (sub32 seq rb.expectedSeq) = some wide → wide.ring (wide.slot seq) = none

/-- Growing touches nothing but the ring. -/
theorem widen_eq {diff : Nat} {wide : ReorderBuffer Frame} (hwiden : rb.widen diff = some wide) :
    wide = rb ∨ ∃ newLen, wide =
      { rb with
        ring := (rb.rehash newLen rb.ringLen).1
        seqSlots := (rb.rehash newLen rb.ringLen).2
        ringLen := newLen } := by
  unfold ReorderBuffer.widen at hwiden
  split at hwiden
  · split at hwiden
    · cases hwiden
    · exact .inr (grow_eq hwiden)
  · cases hwiden
    exact .inl rfl

variable {seq : Nat}

/-- Growing brings no number into the ring. -/
theorem buffered_of_widen {diff : Nat} {wide : ReorderBuffer Frame}
    (hwiden : rb.widen diff = some wide) (h : wide.Buffered seq) : rb.Buffered seq := by
  rcases widen_eq hwiden with rfl | ⟨newLen, rfl⟩
  · exact h
  · obtain ⟨j, hj, hseq⟩ := h
    obtain ⟨frame, hj⟩ := Option.isSome_iff_exists.mp hj
    obtain ⟨i, hi, -, hstored⟩ := rehash_slot rb newLen rb.ringLen hj
    exact ⟨i, Option.isSome_iff_exists.mpr ⟨frame, hi⟩, hstored.symm.trans hseq⟩

/-- `refreshGapLocked` touches nothing but the gap timer and its statistics. -/
theorem refresh_eq (rb : ReorderBuffer Frame) (now : Nat) :
    ∃ since events, (rb.refreshGapLocked now).1 =
      { rb with gapSince := since, gapEvents := events } := by
  simp only [refreshGapLocked]
  repeat' split
  all_goals exact ⟨_, _, rfl⟩

/-- The loop of `drainLocked` only appends to the released frames. -/
theorem pending_drain_loop (fuel : Nat) (rb : ReorderBuffer Frame) :
    rb.pending <+: (drainLoop fuel rb).pending := by
  induction fuel generalizing rb with
  | zero => exact prefix_rfl
  | succ fuel ih =>
    simp only [drainLoop]
    split
    · exact prefix_rfl
    · rename_i frame _
      exact (prefix_append rb.pending [frame]).trans (ih (rb.takeExpected frame))

variable {frame : Frame}

/-- A round of the loop of `drainLocked`. -/
theorem drain_loop_of_some {fuel : Nat} (hpos : 0 < fuel)
    (hslot : rb.ring (rb.slot rb.expectedSeq) = some frame) :
    drainLoop fuel rb = drainLoop (fuel - 1) (rb.takeExpected frame) := by
  obtain ⟨fuel, rfl⟩ : ∃ rounds, fuel = rounds + 1 := ⟨fuel - 1, by omega⟩
  rw [drainLoop, hslot]
  rfl

/-- The frame that stands in the expected slot is the first one that a drain releases. -/
theorem drain_takes_expected (rb : ReorderBuffer Frame) (now : Nat) (hpos : 0 < rb.ringLen)
    (hslot : rb.ring (rb.slot rb.expectedSeq) = some frame) :
    rb.pending ++ [frame] <+: (rb.drainLocked now).1.pending := by
  have hround : drainLoop rb.ringLen { rb with gapSince := none } =
      drainLoop (rb.ringLen - 1) (takeExpected { rb with gapSince := none } frame) :=
    drain_loop_of_some hpos hslot
  obtain ⟨since, events, hrefresh⟩ :=
    refresh_eq (drainLoop rb.ringLen { rb with gapSince := none }) now
  unfold drainLocked
  simp only [hrefresh]
  rw [hround]
  exact pending_drain_loop _ (takeExpected { rb with gapSince := none } frame)

/-- A frame placed in its free slot stays there, or is released if it is the expected one. -/
theorem place_took (now : Nat) (frame : Frame) (hpos : 0 < rb.ringLen)
    (hfree : rb.ring (rb.slot seq) = none) : rb.Took (rb.place now seq frame).1 seq frame := by
  unfold ReorderBuffer.place
  rw [hfree]
  dsimp only
  split
  · rename_i hexpected
    refine .inr (drain_takes_expected (rb.store seq frame) now hpos ?_)
    show update rb.ring (rb.slot seq) (some frame) (rb.slot rb.expectedSeq) = some frame
    rw [← hexpected, update_self]
  · obtain ⟨since, events, hrefresh⟩ := refresh_eq (rb.store seq frame) now
    rw [hrefresh]
    exact .inl ⟨rb.slot seq, by simp [ReorderBuffer.store], by simp [ReorderBuffer.store]⟩

/-- With a real expected number nothing is adopted. -/
theorem adopt_of_started (hstart : rb.expectedSeq ≠ 0) (seq : Nat) : rb.adopt seq = rb :=
  if_neg hstart

/-- An insertion ahead of the expected number is accepted exactly within the window, if its slot is
free. -/
theorem accepts_iff (hsize : SizeOk rb.ringLen) (hstart : rb.expectedSeq ≠ 0)
    (hahead : ¬ negative32 (sub32 seq rb.expectedSeq)) :
    rb.Accepts seq ↔ rb.Within (sub32 seq rb.expectedSeq) ∧ rb.Free seq := by
  unfold ReorderBuffer.Accepts ReorderBuffer.Free
  rw [adopt_of_started hstart, ← widen_is_some_iff hsize]
  cases hwiden : rb.widen (sub32 seq rb.expectedSeq) with
  | none => simp
  | some wide => simp [hahead]

/-- Whether a number that is not buffered is taken is whether its insertion is accepted. -/
theorem took_iff_accepts (hsize : SizeOk rb.ringLen) (hstart : rb.expectedSeq ≠ 0)
    (hnew : ¬ rb.Buffered seq) (now : Nat) (frame : Frame) :
    rb.Took (rb.inserted now seq frame) seq frame ↔ rb.Accepts seq := by
  -- a rejected insertion buffers no number and releases no frame
  have hrejected : ∀ after : ReorderBuffer Frame, ¬ after.Buffered seq →
      after.pending = rb.pending → ¬ rb.Took after seq frame := by
    intro after hnew' hpending htook
    refine htook.elim hnew' fun happended => ?_
    have hlength := happended.length_le
    rw [hpending] at hlength
    simp only [length_append, length_cons, length_nil] at hlength
    omega
  constructor
  · intro htook
    by_contra hnot
    rcases inserted_of_not_accepts hnot now frame with hsame | ⟨wide, hwiden, hsame⟩
    · rw [hsame, adopt_of_started hstart] at htook
      exact hrejected rb hnew rfl htook
    · rw [adopt_of_started hstart] at hwiden
      rw [hsame] at htook
      refine hrejected wide (fun hbuffered => hnew (buffered_of_widen hwiden hbuffered)) ?_ htook
      rcases widen_eq hwiden with rfl | ⟨newLen, rfl⟩
      · rfl
      · rfl
  · intro haccepts
    obtain ⟨wide, hwiden, hfree, hinserted⟩ := inserted_of_accepts haccepts now frame
    rw [adopt_of_started hstart] at hwiden
    rw [hinserted]
    have hpos : 0 < wide.ringLen := Nat.lt_of_lt_of_le (by decide) (hsize.widen hwiden).2.1
    have hpending : wide.pending = rb.pending := by
      rcases widen_eq hwiden with rfl | ⟨newLen, rfl⟩
      · rfl
      · rfl
    have htook := place_took now frame hpos hfree
    unfold ReorderBuffer.Took at htook ⊢
    rwa [hpending] at htook

/-- As long as no insertion has met the wrapped counter, the slot of a number that is not buffered
is free. -/
theorem Sorted.free (h : Sorted tag delivered rb next) (hstart : rb.expectedSeq ≠ 0)
    (hword : seq < 2 ^ 32) (hnew : ¬ rb.Buffered seq) : rb.Free seq := by
  intro wide hwiden
  obtain ⟨hwide, -, hroom⟩ := h.widen hwiden
  have hnext : rb.expectedSeq = next ∧ next < 2 ^ 32 := by
    have hend := h.next_le
    have hexp := h.expected_eq
    omega
  cases hslot : wide.ring (wide.slot seq) with
  | none => rfl
  | some frame =>
    exfalso
    obtain ⟨-, hidx, hstored, hle, hwin, hframe⟩ := hwide.slots _ frame hslot
    -- the number as it lies ahead of the expected one, past the end of the space if it has to
    have hunwrapped : tag frame = next + sub32 seq rb.expectedSeq := by
      refine eq_of_same_slot ?_ ⟨hle, hwin⟩ ⟨by omega, by omega⟩
      have hmod : (next + sub32 seq rb.expectedSeq) % 2 ^ 32 = seq := by
        rw [hnext.1, sub32]
        omega
      have hdvd := ring_len_dvd hwide.ringLen_pow hwide.ringLen_le
      rw [← hidx, hwide.slot_eq,
        ← Nat.mod_mod_of_dvd (next + sub32 seq rb.expectedSeq) hdvd, hmod]
    have htag : tag frame = seq := by
      rw [hnext.1, sub32] at hunwrapped
      omega
    refine hnew (buffered_of_widen hwiden ⟨_, ?_, hstored.trans htag⟩)
    rw [hslot]
    rfl

namespace Receiver

/-- In every state that is reached, whatever the size of the ring: a frame of the window that is not
buffered yet is taken in, except for the last number of the window while the ring is not full-size,
and except for a number whose slot holds another one. The latter takes an insertion that has met the
wrapped counter. -/
theorem window_accepts (calls : List (Call Frame)) (r : Receiver Frame)
    (hrun : run step new calls = some r) (now seq : Nat) (frame : Frame)
    (hstart : r.buffer.expectedSeq ≠ 0) (hword : seq < 2 ^ 32)
    (hmax : sub32 seq r.buffer.expectedSeq < reorderMaxWindowSize)
    (hnew : ¬ r.buffer.Buffered seq) :
    (r.buffer.Took (r.buffer.inserted now seq frame) seq frame ↔
      (sub32 seq r.buffer.expectedSeq ≠ reorderMaxWindowSize - 1 ∨
        r.buffer.ringLen = reorderMaxWindowSize) ∧ r.buffer.Free seq) ∧
    (∀ tag : Frame → Nat, (∀ call ∈ calls, call.Tagged tag) → Along step NoWrap new calls →
      r.buffer.Free seq) := by
  have hsize : SizeOk r.buffer.ringLen := size_ok_of_run hrun
  have hwithin : r.buffer.Within (sub32 seq r.buffer.expectedSeq) ↔
      sub32 seq r.buffer.expectedSeq ≠ reorderMaxWindowSize - 1 ∨
        r.buffer.ringLen = reorderMaxWindowSize := by
    unfold ReorderBuffer.Within
    omega
  constructor
  · have hahead : ¬ negative32 (sub32 seq r.buffer.expectedSeq) := by
      simp only [reorderMaxWindowSize] at hmax
      simp only [negative32]
      omega
    rw [took_iff_accepts hsize hstart hnew, accepts_iff hsize hstart hahead, hwithin]
  · intro tag htagged hwrap
    obtain ⟨next, h⟩ := in_order_of_run htagged hwrap hrun
    exact h.free hstart hword hnew

/-- A stream of which one frame has arrived leaves the ring empty. -/
theorem one_frame_not_buffered (seq : Nat) :
    ¬ (new.insert 0 1 1 : Receiver Nat).buffer.Buffered seq := by
  rintro ⟨i, hi, -⟩
  change (update (update (fun _ => none) 1 (some 1)) 1 none i).isSome = true at hi
  simp at hi

/-- The third frame of a stream is taken before the second. -/
theorem third_frame_taken :
    ∃ r : Receiver Nat, run step new [.insert 0 1 1] = some r ∧ r.buffer.expectedSeq = 2 ∧
      r.buffer.Took (r.buffer.inserted 1 3 3) 3 3 := by
  have haccepts := window_accepts [.insert 0 1 1] _ rfl 1 3 3 (by decide) (by decide) (by decide)
    (one_frame_not_buffered 3)
  exact ⟨_, rfl, by decide, haccepts.1.mpr ⟨by decide, haccepts.2 id (by decide) (by decide)⟩⟩

/-- The last number of the window is rejected by a ring of the initial size. -/
theorem last_of_window_rejected :
    ∃ r : Receiver Nat, run step new [.insert 0 1 1] = some r ∧ r.buffer.expectedSeq = 2 ∧
      sub32 65537 r.buffer.expectedSeq < reorderMaxWindowSize ∧ ¬ r.buffer.Buffered 65537 ∧
      ¬ r.buffer.Took (r.buffer.inserted 1 65537 65537) 65537 65537 := by
  have hnew := one_frame_not_buffered 65537
  have hrun : run step new [.insert 0 1 1] = some (new.insert 0 1 1 : Receiver Nat) := rfl
  refine ⟨_, hrun, by decide, by decide, hnew, ?_⟩
  rw [took_iff_accepts (size_ok_of_run hrun) (by decide) hnew]
  decide

end Receiver

/-! ## The progress of gap expiry -/

@[simp] theorem shutting_refresh (rb : ReorderBuffer Frame) (now : Nat) :
    (rb.refreshGapLocked now).1.shutting = rb.shutting := by
  obtain ⟨since, events, hrefresh⟩ := refresh_eq rb now
  rw [hrefresh]

@[simp] theorem shutting_drain_loop (fuel : Nat) (rb : ReorderBuffer Frame) :
    (drainLoop fuel rb).shutting = rb.shutting := by
  induction fuel generalizing rb with
  | zero => rfl
  | succ fuel ih =>
    simp only [drainLoop]
    split
    · rfl
    · exact ih _

@[simp] theorem shutting_drain (rb : ReorderBuffer Frame) (now : Nat) :
    (rb.drainLocked now).1.shutting = rb.shutting := by
  simp [drainLocked]

@[simp] theorem shutting_inserted (rb : ReorderBuffer Frame) (now seq : Nat) (frame : Frame) :
    (rb.inserted now seq frame).shutting = rb.shutting := by
  have hadopt : (rb.adopt seq).shutting = rb.shutting := by
    unfold ReorderBuffer.adopt
    split
    · rfl
    · rfl
  refine insert_in_window_spec (P := fun rb' => rb'.shutting = rb.shutting) hadopt ?_
  intro wide hwiden
  have hwide : wide.shutting = rb.shutting := by
    rcases widen_eq hwiden with rfl | ⟨newLen, rfl⟩
    · exact hadopt
    · exact hadopt
  unfold ReorderBuffer.place
  split
  · exact hwide
  · split
    · rw [shutting_drain]
      exact hwide
    · rw [shutting_refresh]
      exact hwide

@[simp] theorem shutting_skip (rb : ReorderBuffer Frame) (now : Nat) :
    (rb.skipGap now).shutting = rb.shutting := by
  unfold skipGap
  repeat' split
  · rfl
  · exact shutting_drain _ now
  · rfl

@[simp] theorem buffered_refresh (rb : ReorderBuffer Frame) (now : Nat) :
    (rb.refreshGapLocked now).1.buffered = rb.buffered := by
  obtain ⟨since, events, hrefresh⟩ := refresh_eq rb now
  rw [hrefresh]

theorem buffered_drain_loop_le (fuel : Nat) (rb : ReorderBuffer Frame) :
    (drainLoop fuel rb).buffered ≤ rb.buffered := by
  induction fuel generalizing rb with
  | zero => exact le_rfl
  | succ fuel ih =>
    simp only [drainLoop]
    split
    · exact le_rfl
    · exact (ih _).trans (Nat.sub_le _ 1)

/-- A drain from an occupied slot takes at least one frame out of the ring. -/
theorem buffered_drain_lt (rb : ReorderBuffer Frame) (now : Nat) (hpos : 0 < rb.ringLen)
    (hslot : rb.ring (rb.slot rb.expectedSeq) = some frame) :
    (rb.drainLocked now).1.buffered ≤ rb.buffered - 1 := by
  have hround : drainLoop rb.ringLen { rb with gapSince := none } =
      drainLoop (rb.ringLen - 1) (takeExpected { rb with gapSince := none } frame) :=
    drain_loop_of_some hpos hslot
  simp only [drainLocked, buffered_refresh]
  rw [hround]
  exact buffered_drain_loop_le _ (takeExpected { rb with gapSince := none } frame)

/-- The gap timer that is due takes at least one frame out of the ring. -/
theorem Accounted.skip_progress (h : Accounted tag first skipped delivered accepted rb next)
    (hsettled : Settled rb) {now : Nat}
    (hdue : ∀ since ∈ rb.gapSince, since + reorderSkipDelay ≤ now) :
    (rb.skipGap now).buffered ≤ rb.buffered - 1 := by
  unfold skipGap
  cases hsince : rb.gapSince with
  | none =>
    -- a timer that is not armed says that the ring is empty
    have hgap := hsettled.gap
    simp only [hsince, Option.isSome_none, Bool.false_eq_true, false_iff] at hgap
    rw [if_neg (by simp [GapDue, hsince])]
    omega
  | some since =>
    have hbuffered : 0 < rb.buffered := by
      rw [← hsettled.gap, hsince]
      rfl
    obtain ⟨hexpected, hpos, -⟩ := h.expected_pos hbuffered
    have hguard : rb.GapDue now := by
      refine ⟨⟨since, hsince, hdue since hsince⟩, by omega, by omega, ?_⟩
      simp [hsettled.waiting]
    obtain ⟨distance, hskip⟩ := h.skip_distance_exists hsettled.waiting hbuffered
    have hfound := find?_some (p := fun i =>
      (rb.ring (rb.slot (add32 rb.expectedSeq i))).isSome) hskip
    obtain ⟨frame, hslot⟩ := Option.isSome_iff_exists.mp hfound
    rw [if_pos hguard, hskip]
    refine buffered_drain_lt (rb.skipTo distance) now ?_ hslot
    exact Nat.lt_of_lt_of_le (by decide) h.ringLen_ge

/-! ## A jump of the sequence numbers -/

namespace Call

/-- The number that the call inserts. -/
def seq? : Call Frame → Option Nat
  | .insert _ seq _ | .insertActorBuffered _ seq _ => some seq
  | .flushActor | .expireGapActor _ | .timeoutSkip _ | .reset | .close => none

/-- The call belongs to the use of an open buffer between two resets. -/
def Ordinary : Call Frame → Prop
  | .reset | .close => False
  | .insert _ _ _ | .insertActorBuffered _ _ _ | .flushActor | .expireGapActor _
  | .timeoutSkip _ => True

instance : ∀ call : Call Frame, Decidable call.Ordinary
  | .reset | .close => isFalse id
  | .insert _ _ _ | .insertActorBuffered _ _ _ | .flushActor | .expireGapActor _
  | .timeoutSkip _ => isTrue trivial

end Call

namespace Receiver

/-- The call inserts a frame within the window. -/
def InWindow (r : Receiver Frame) (call : Call Frame) : Prop :=
  ∃ seq ∈ call.seq?, r.buffer.expectedSeq ≤ seq ∧ r.buffer.Within (seq - r.buffer.expectedSeq)

/-- The call is an expiry of the gap timer, which is due if it is armed. -/
def Due (r : Receiver Frame) : Call Frame → Prop
  | .expireGapActor now | .timeoutSkip now =>
    ∀ since ∈ r.buffer.gapSince, since + reorderSkipDelay ≤ now
  | .insert _ _ _ | .insertActorBuffered _ _ _ | .flushActor | .reset | .close => False

instance (r : Receiver Frame) : ∀ call, Decidable (r.Due call)
  | .expireGapActor now | .timeoutSkip now =>
    inferInstanceAs (Decidable (∀ since ∈ r.buffer.gapSince, since + reorderSkipDelay ≤ now))
  | .insert _ _ _ | .insertActorBuffered _ _ _ | .flushActor | .reset | .close => isFalse id

end Receiver

theorem Receiver.shutting_step {r r' : Receiver Frame} {call : Call Frame} (hcall : call.Ordinary)
    (hstep : r.step call = some r') : r'.buffer.shutting = r.buffer.shutting := by
  refine r.step_rule (P := fun r' => r'.buffer.shutting = r.buffer.shutting) rfl
    (fun now seq frame _ _ => shutting_inserted r.buffer now seq frame) (fun _ hr => hr)
    (shutting_skip r.buffer) ?_ ?_ hstep
  · rintro rfl
    cases hcall
  · rintro rfl
    cases hcall

namespace Epoch

variable {e e' : Epoch Frame}

variable {call : Call Frame}

/-- An ordinary call of the receiver is a step of the epoch. -/
theorem step_of_ordinary {r' : Receiver Frame} (hcall : call.Ordinary)
    (hstep : e.receiver.step call = some r') : ∃ e', e.step call = some e' ∧ e'.receiver = r' := by
  have hsome : ∃ e', e.step call = some e' := by
    cases call with
    | insert | insertActorBuffered | flushActor => exact ⟨_, rfl⟩
    | expireGapActor now => exact ⟨_, Option.map_eq_some_iff.mpr ⟨_, hstep, rfl⟩⟩
    | timeoutSkip now => exact ⟨_, rfl⟩
    | reset | close => cases hcall
  obtain ⟨e', he'⟩ := hsome
  have hreceiver := receiver_step he'
  rw [hstep] at hreceiver
  exact ⟨e', he', (Option.some.inj hreceiver).symm⟩

/-- A step notes the frame that it inserts, and otherwise changes nothing but the receiver. -/
theorem step_cases (hstep : e.step call = some e') :
    (∃ now seq frame,
      (call = .insert now seq frame ∨ call = .insertActorBuffered now seq frame) ∧
        ∃ receiver, e' = e.note seq frame receiver) ∨
      call.seq? = none ∧ ∃ receiver, e' = { e with receiver } := by
  cases call with
  | insert now seq frame =>
    cases hstep
    exact .inl ⟨now, seq, frame, .inl rfl, _, rfl⟩
  | insertActorBuffered now seq frame =>
    cases hstep
    exact .inl ⟨now, seq, frame, .inr rfl, _, rfl⟩
  | flushActor | timeoutSkip now =>
    cases hstep
    exact .inr ⟨rfl, _, rfl⟩
  | expireGapActor now =>
    obtain ⟨receiver, -, rfl⟩ := Option.map_eq_some_iff.mp hstep
    exact .inr ⟨rfl, _, rfl⟩
  | reset | close => cases hstep

/-- What a call records: an insertion takes in its frame exactly if it is accepted, and no other
call does. -/
theorem accepted_step (hstep : e.step call = some e') (hopen : e.receiver.buffer.shutting = false)
    (hseq : ∀ seq ∈ call.seq?, seq ≠ 0) :
    e'.accepted = e.accepted ∧ (∀ seq ∈ call.seq?, ¬ e.receiver.buffer.Accepts seq) ∨
      ∃ seq frame, call.seq? = some seq ∧ (∀ tag : Frame → Nat, call.Tagged tag → tag frame = seq) ∧
        e.receiver.buffer.Accepts seq ∧ e'.accepted = e.accepted ++ [frame] := by
  rcases step_cases hstep with ⟨now, seq, frame, hinsert, receiver, rfl⟩ | ⟨hnone, receiver, rfl⟩
  · have hcall : call.seq? = some seq := by
      rcases hinsert with rfl | rfl
      all_goals rfl
    have htag : ∀ tag : Frame → Nat, call.Tagged tag → tag frame = seq := by
      rcases hinsert with rfl | rfl
      all_goals exact fun _ htag => htag.2
    have hguard : ¬ (seq = 0 ∨ e.receiver.buffer.shutting = true) := by
      simp [hseq seq hcall, hopen]
    rw [note, if_neg hguard]
    by_cases haccepts : e.receiver.buffer.Accepts seq
    · exact .inr ⟨seq, frame, hcall, htag, haccepts, if_pos haccepts⟩
    · refine .inl ⟨if_neg haccepts, fun other hother => ?_⟩
      rw [hcall] at hother
      cases hother
      exact haccepts
  · refine .inl ⟨rfl, fun other hother => ?_⟩
    rw [hnone] at hother
    cases hother

/-- An open buffer that has seen its first frame. -/
structure Running (tag : Frame → Nat) (e : Epoch Frame) : Prop where
  kept : e.Kept tag
  opened : e.receiver.buffer.shutting = false
  started : e.first ≠ 0

/-- A call in a running epoch: an ordinary one that inserts real numbers and does not meet the
wrapped counter. -/
structure Fair (tag : Frame → Nat) (r : Receiver Frame) (call : Call Frame) : Prop where
  ordinary : call.Ordinary
  tagged : call.Tagged tag
  noWrap : r.NoWrap call
  numbered : ∀ seq ∈ call.seq?, seq ≠ 0

/-- A fair call leaves the buffer open. -/
theorem Running.step (h : e.Running tag) (hfair : Fair tag e.receiver call)
    (hstep : e.step call = some e') : e'.Running tag := by
  refine ⟨h.kept.step ⟨hfair.noWrap, hfair.tagged⟩ hstep, ?_, ?_⟩
  · rw [Receiver.shutting_step hfair.ordinary (receiver_step hstep)]
    exact h.opened
  · have hstarted := h.started
    rcases step_cases hstep with ⟨now, seq, frame, hinsert, receiver, rfl⟩ | ⟨-, receiver, rfl⟩
    · unfold note
      split
      · exact hstarted
      · dsimp only
        split
        · refine hfair.numbered seq ?_
          rcases hinsert with rfl | rfl
          all_goals rfl
        · exact hstarted
    · exact hstarted

/-- The expected number that an insertion meets is a real one, and the frame does not lie behind it
inside the window. -/
theorem Running.numbered {seq : Nat} (h : e.Running tag) (hfair : Fair tag e.receiver call)
    (hcall : call.seq? = some seq) :
    e.receiver.buffer.expectedSeq ≠ 0 ∧ seq < 2 ^ 32 ∧
      Numbered e.receiver.delivered e.receiver.buffer seq := by
  have hne := hfair.numbered seq hcall
  have hwrap := hfair.noWrap
  have htagged := hfair.tagged
  have hnum : seq < 2 ^ 32 ∧ Numbered e.receiver.delivered e.receiver.buffer seq := by
    have hopen := h.opened
    cases call with
    | insert now seq' frame =>
      cases hcall
      exact ⟨htagged.1, (hwrap.resolve_left hne).resolve_left (by simp [hopen])⟩
    | insertActorBuffered now seq' frame =>
      cases hcall
      exact ⟨htagged.1, (hwrap.resolve_left hne).resolve_left (by simp [hopen])⟩
    | flushActor | expireGapActor | timeoutSkip | reset | close => cases hcall
  refine ⟨fun hzero => ?_, hnum⟩
  obtain ⟨next, hbooks, -⟩ := h.kept
  -- the counter stands at zero only before the first frame or behind the last one
  have hadvanced := hbooks.advanced
  have hstarted := h.started
  have hexpected := hbooks.expected_eq
  have hle := hbooks.next_le
  exact hbooks.ended (by omega) (hnum.2.1 hzero)

/-- What an insertion within the window takes in, now or before, carries its number. -/
theorem Running.takes {seq : Nat} (h : e.Running tag) (hfair : Fair tag e.receiver call)
    (hcall : call.seq? = some seq) (hle : e.receiver.buffer.expectedSeq ≤ seq)
    (hwithin : e.receiver.buffer.Within (seq - e.receiver.buffer.expectedSeq))
    (hstep : e.step call = some e') : ∃ frame ∈ e'.accepted, tag frame = seq := by
  obtain ⟨hstart, hword, -⟩ := h.numbered hfair hcall
  obtain ⟨next, hbooks, -⟩ := h.kept
  rcases accepted_step hstep h.opened hfair.numbered with ⟨hsame, hrejected⟩ | haccepted
  · -- within the window only a number that is in the ring already is rejected
    have hbuffered : e.receiver.buffer.Buffered seq := by
      by_contra hnew
      have hsize : SizeOk e.receiver.buffer.ringLen :=
        ⟨hbooks.ringLen_pow, hbooks.ringLen_ge, hbooks.ringLen_le⟩
      have hdiff := sub32_of_le hle hword
      have hahead : ¬ negative32 (sub32 seq e.receiver.buffer.expectedSeq) := by
        rw [hdiff]
        unfold ReorderBuffer.Within at hwithin
        simp only [reorderMaxWindowSize] at hwithin
        simp only [negative32]
        omega
      refine hrejected seq hcall ((accepts_iff hsize hstart hahead).mpr ⟨?_, ?_⟩)
      · rw [hdiff]
        exact hwithin
      · exact hbooks.toSorted.free hstart hword hnew
    obtain ⟨i, hi, hseq⟩ := hbuffered
    obtain ⟨frame, hi⟩ := Option.isSome_iff_exists.mp hi
    refine ⟨frame, ?_, (hbooks.slots i frame hi).2.2.1.symm.trans hseq⟩
    rw [hsame]
    exact (hbooks.traced frame).mpr (.inr ⟨i, hi⟩)
  · obtain ⟨seq', frame, hcall', htag, -, hsame⟩ := haccepted
    rw [hcall] at hcall'
    cases hcall'
    refine ⟨frame, ?_, htag tag hfair.tagged⟩
    rw [hsame]
    exact mem_append_right _ (mem_singleton.mpr rfl)

/-- Outside the window nothing is taken in. -/
theorem Running.rejects (h : e.Running tag) (hfair : Fair tag e.receiver call)
    (houtside : ¬ e.receiver.InWindow call) (hstep : e.step call = some e') :
    e'.accepted = e.accepted := by
  rcases accepted_step hstep h.opened hfair.numbered with ⟨hsame, -⟩ | haccepted
  · exact hsame
  · exfalso
    obtain ⟨seq, -, hcall, -, haccepts, -⟩ := haccepted
    obtain ⟨hstart, hword, hnum⟩ := h.numbered hfair hcall
    obtain ⟨next, hbooks, -⟩ := h.kept
    have hsize : SizeOk e.receiver.buffer.ringLen :=
      ⟨hbooks.ringLen_pow, hbooks.ringLen_ge, hbooks.ringLen_le⟩
    have hahead := haccepts.1
    rw [adopt_of_started hstart] at hahead
    have hwithin := ((accepts_iff hsize hstart hahead).mp haccepts).1
    have hmax : sub32 seq e.receiver.buffer.expectedSeq < reorderMaxWindowSize := by
      unfold ReorderBuffer.Within at hwithin
      omega
    have hle : e.receiver.buffer.expectedSeq ≤ seq :=
      Nat.not_lt.mp fun hbehind => hnum.2 ⟨hbehind, hmax⟩
    rw [sub32_of_le hle hword] at hwithin
    exact houtside ⟨seq, hcall, hle, hwithin⟩

variable {calls : List (Call Frame)}

/-- Every open state that is reached without meeting the wrapped counter, and that expects a real
number, belongs to a running epoch. -/
theorem exists_running {r : Receiver Frame} (htagged : ∀ call ∈ calls, call.Tagged tag)
    (hwrap : Along Receiver.step Receiver.NoWrap .new calls)
    (hrun : run Receiver.step .new calls = some r) (hopen : r.buffer.shutting = false)
    (hstart : r.buffer.expectedSeq ≠ 0) : ∃ e : Epoch Frame, e.receiver = r ∧ e.Running tag := by
  have hpreserve : ∀ (r : Receiver Frame) call r',
      ((∃ calls, run Receiver.step .new calls = some r) ∧
        (r.buffer.shutting = true ∨ ∃ e : Epoch Frame, e.receiver = r ∧ e.Kept tag)) →
      r.NoWrap call ∧ call.Tagged tag → r.step call = some r' →
      ((∃ calls, run Receiver.step .new calls = some r') ∧
        (r'.buffer.shutting = true ∨ ∃ e : Epoch Frame, e.receiver = r' ∧ e.Kept tag)) := by
    rintro r call r' ⟨⟨calls, hcalls⟩, hkept⟩ hallowed hstep
    refine ⟨⟨calls ++ [call], ?_⟩, ?_⟩
    · refine run_append_eq_some.mpr ⟨r, hcalls, ?_⟩
      exact run_cons_eq_some.mpr ⟨r', hstep, rfl⟩
    · by_cases hcall : call.Ordinary
      · rcases hkept with hshut | ⟨e, rfl, hkept⟩
        · left
          rw [Receiver.shutting_step hcall hstep]
          exact hshut
        · obtain ⟨e', he', hreceiver⟩ := step_of_ordinary hcall hstep
          exact .inr ⟨e', hreceiver, hkept.step hallowed he'⟩
      · cases call with
        | reset => exact .inr ⟨start r', rfl, kept_start (.inr ⟨calls, r, hcalls, hstep⟩)⟩
        | close =>
          cases hstep
          exact .inl rfl
        | insert | insertActorBuffered | flushActor | expireGapActor | timeoutSkip =>
          exact absurd trivial hcall
  have hinv := run_invariant hpreserve
    ⟨⟨[], rfl⟩, .inr ⟨start .new, rfl, kept_start (.inl rfl)⟩⟩ (hwrap.and_mem htagged) hrun
  rcases hinv.2 with hshut | ⟨e, rfl, hkept⟩
  · rw [hopen] at hshut
    cases hshut
  · refine ⟨e, rfl, hkept, hopen, ?_⟩
    obtain ⟨next, hbooks, -⟩ := hkept
    refine hbooks.started fun hzero => hstart ?_
    rw [hbooks.expected_eq, hzero]
    rfl

/-- Expiries that are due empty the ring and take nothing in. -/
theorem Running.expire {expiries : List (Call Frame)} {final : Receiver Frame} (h : e.Running tag)
    (hdue : Along Receiver.step Receiver.Due e.receiver expiries)
    (hrun : run Receiver.step e.receiver expiries = some final) :
    ∃ e' : Epoch Frame, e'.receiver = final ∧ e'.Running tag ∧ e'.accepted = e.accepted ∧
      final.buffer.buffered ≤ e.receiver.buffer.buffered - expiries.length := by
  induction expiries generalizing e with
  | nil =>
    cases hrun
    exact ⟨e, rfl, h, rfl, le_rfl⟩
  | cons call rest ih =>
    obtain ⟨next, hstep, hrest⟩ := run_cons_eq_some.mp hrun
    obtain ⟨hcall, halong⟩ := hdue.cons hstep
    have hexpiry : call.seq? = none ∧ Fair tag e.receiver call ∧
        next.buffer.buffered ≤ e.receiver.buffer.buffered - 1 := by
      obtain ⟨first, hbooks, hsettled⟩ := h.kept
      have hopen := h.opened
      cases call with
      | expireGapActor now =>
        rw [Receiver.step, if_neg (by simp [hopen])] at hstep
        cases hstep
        exact ⟨rfl, ⟨trivial, trivial, trivial, by simp [Call.seq?]⟩,
          e.receiver.buffered_skip now ▸ hbooks.skip_progress hsettled hcall⟩
      | timeoutSkip now =>
        cases hstep
        exact ⟨rfl, ⟨trivial, trivial, trivial, by simp [Call.seq?]⟩,
          e.receiver.buffered_skip now ▸ hbooks.skip_progress hsettled hcall⟩
      | insert | insertActorBuffered | flushActor | reset | close => cases hcall
    obtain ⟨hnone, hfair, hless⟩ := hexpiry
    obtain ⟨e', he', rfl⟩ := step_of_ordinary hfair.ordinary hstep
    have hsame : e'.accepted = e.accepted := by
      refine h.rejects hfair ?_ he'
      rintro ⟨seq, hseq, -⟩
      rw [hnone] at hseq
      cases hseq
    obtain ⟨last, hlast, hrunning, haccepted, hcount⟩ := ih (h.step hfair he') halong hrest
    refine ⟨last, hlast, hrunning, haccepted.trans hsame, hcount.trans ?_⟩
    rw [length_cons]
    omega

/-- With an empty ring, the frames handed out after a flush are those taken in. -/
theorem Running.handed_out (h : e.Running tag) (hempty : e.receiver.buffer.buffered = 0)
    (frame : Frame) : frame ∈ e.receiver.deliver.delivered ↔ frame ∈ e.accepted := by
  obtain ⟨next, hbooks, -⟩ := h.kept
  rw [hbooks.traced frame]
  refine ⟨.inl, fun htraced => htraced.resolve_right ?_⟩
  rintro ⟨i, hi⟩
  have hcount := slot_count_pos (hbooks.index_lt hi) hi
  rw [← hbooks.buffered_eq, hempty] at hcount
  exact Nat.lt_irrefl 0 hcount

/-- A run of fair calls stays in the epoch and keeps what was taken in. -/
theorem Running.run {after : Receiver Frame} (h : e.Running tag)
    (hfair : Along Receiver.step (Fair tag) e.receiver calls)
    (hrun : Lib.run Receiver.step e.receiver calls = some after) :
    ∃ e' : Epoch Frame, e'.receiver = after ∧ e'.Running tag ∧ e.accepted ⊆ e'.accepted := by
  have hlift : ∀ (e₁ : Epoch Frame) call r', (e₁.Running tag ∧ e.accepted ⊆ e₁.accepted) →
      Fair tag e₁.receiver call → e₁.receiver.step call = some r' →
      ∃ e₂, e₁.step call = some e₂ ∧ e₂.receiver = r' ∧
        (e₂.Running tag ∧ e.accepted ⊆ e₂.accepted) := by
    rintro e₁ call r' ⟨hrunning, hsubset⟩ hfair hstep
    obtain ⟨e₂, hstep₂, hreceiver⟩ := step_of_ordinary hfair.ordinary hstep
    refine ⟨e₂, hstep₂, hreceiver, hrunning.step hfair hstep₂,
      List.Subset.trans hsubset ?_⟩
    rcases accepted_step hstep₂ hrunning.opened hfair.numbered with ⟨hsame, -⟩ | haccepted
    · rw [hsame]
      exact List.Subset.refl _
    · obtain ⟨-, frame, -, -, -, hsame⟩ := haccepted
      rw [hsame]
      exact subset_append_left _ _
  obtain ⟨e', -, hafter⟩ := run_lift hlift ⟨h, List.Subset.refl _⟩ hfair hrun
  exact ⟨e', hafter⟩

/-- A run of fair calls outside the window takes nothing in. -/
theorem Running.run_outside {after : Receiver Frame} (h : e.Running tag)
    (hfair : Along Receiver.step (Fair tag) e.receiver calls)
    (houtside : Along Receiver.step (fun r call => ¬ r.InWindow call) e.receiver calls)
    (hrun : Lib.run Receiver.step e.receiver calls = some after) :
    ∃ e' : Epoch Frame, e'.receiver = after ∧ e'.Running tag ∧ e'.accepted = e.accepted := by
  have hlift : ∀ (e₁ : Epoch Frame) call r', (e₁.Running tag ∧ e₁.accepted = e.accepted) →
      Fair tag e₁.receiver call ∧ ¬ e₁.receiver.InWindow call → e₁.receiver.step call = some r' →
      ∃ e₂, e₁.step call = some e₂ ∧ e₂.receiver = r' ∧
        (e₂.Running tag ∧ e₂.accepted = e.accepted) := by
    rintro e₁ call r' ⟨hrunning, hsame⟩ ⟨hfair, hout⟩ hstep
    obtain ⟨e₂, hstep₂, hreceiver⟩ := step_of_ordinary hfair.ordinary hstep
    exact ⟨e₂, hstep₂, hreceiver, hrunning.step hfair hstep₂,
      (hrunning.rejects hfair hout hstep₂).trans hsame⟩
  obtain ⟨e', -, hafter⟩ := run_lift hlift ⟨h, rfl⟩ (hfair.and houtside) hrun
  exact ⟨e', hafter⟩

/-- If a number from the expected one on is outside the window, only numbers before it have been
taken in. -/
theorem Running.accepted_lt {s : Nat} (h : e.Running tag)
    (hstart : e.receiver.buffer.expectedSeq ≠ 0) (hle : e.receiver.buffer.expectedSeq ≤ s)
    (houtside : ¬ e.receiver.buffer.Within (s - e.receiver.buffer.expectedSeq)) :
    ∀ frame ∈ e.accepted, tag frame < s := by
  intro frame hframe
  obtain ⟨next, hbooks, -⟩ := h.kept
  have hnext : e.receiver.buffer.expectedSeq = next := by
    have hexpected := hbooks.expected_eq
    have hend := hbooks.next_le
    omega
  rcases (hbooks.traced frame).mp hframe with hhanded | ⟨i, hi⟩
  · exact Nat.lt_of_lt_of_le (hbooks.below frame hhanded) (hnext ▸ hle)
  · -- a frame of the ring from `s` on would place `s` inside the ring
    obtain ⟨-, -, -, -, hwin, -⟩ := hbooks.slots i frame hi
    have hsize := hbooks.ringLen_le
    unfold ReorderBuffer.Within at houtside
    omega

end Epoch

namespace Receiver

/-- From an open state that expects a real number, let frames with the numbers `s`, …, `s + n` be
inserted in this order, with flushes and expiries between them, and let the gap timer then expire
for as long as it is armed. The timer ends unarmed, and one of the numbers is delivered exactly if
one of the frames, when it was inserted, lay within the window. -/
theorem jump_delivered (tag : Frame → Nat) (history calls expiries : List (Call Frame))
    (r after final : Receiver Frame) (s n : Nat)
    (htagged : ∀ call ∈ history ++ calls, call.Tagged tag)
    (hwrap : Along step NoWrap new (history ++ calls)) (hrun : run step new history = some r)
    (hopen : r.buffer.shutting = false) (hstart : r.buffer.expectedSeq ≠ 0)
    (hle : r.buffer.expectedSeq ≤ s) (hcalls : run step r calls = some after)
    (hordinary : ∀ call ∈ calls, call.Ordinary) (hfirst : calls.head?.bind Call.seq? = some s)
    (hseqs : calls.filterMap Call.seq? = List.range' s (n + 1))
    (hdue : Along step Due after expiries) (hmany : after.buffer.buffered ≤ expiries.length)
    (hfinal : run step after expiries = some final) :
    final.buffer.gapSince = none ∧
      ((∃ frame ∈ final.deliver.delivered, s ≤ tag frame ∧ tag frame ≤ s + n) ↔
        ∃ before call rest middle, calls = before ++ call :: rest ∧
          run step r before = some middle ∧ middle.InWindow call) := by
  obtain ⟨hwrap, hwrap'⟩ := hwrap.append hrun
  have htagged' : ∀ call ∈ calls, call.Tagged tag :=
    fun call hcall => htagged call (mem_append_right _ hcall)
  obtain ⟨e, rfl, hrunning⟩ := Epoch.exists_running
    (fun call hcall => htagged call (mem_append_left _ hcall)) hwrap hrun hopen hstart
  have hnumber : ∀ call ∈ calls, ∀ seq ∈ call.seq?, s ≤ seq ∧ seq ≤ s + n := by
    intro call hcall seq hseq
    have hmem : seq ∈ calls.filterMap Call.seq? := mem_filterMap.mpr ⟨call, hcall, hseq⟩
    rw [hseqs, mem_range'_1] at hmem
    omega
  have hfair : Along step (Epoch.Fair tag) e.receiver calls := by
    refine ((hwrap'.and_mem htagged').and_mem fun call hcall =>
      And.intro (hordinary call hcall) (hnumber call hcall)).mono ?_
    rintro r call ⟨⟨hwrap, htag⟩, hord, hnum⟩
    refine ⟨hord, htag, hwrap, fun seq hseq => ?_⟩
    have hge := (hnum seq hseq).1
    omega
  -- the expiries empty the ring, and then everything that was taken in has been handed out
  have hend : ∀ e' : Epoch Frame, e'.receiver = after → e'.Running tag →
      final.buffer.gapSince = none ∧
        ∀ frame, frame ∈ final.deliver.delivered ↔ frame ∈ e'.accepted := by
    rintro e' rfl hrunning'
    obtain ⟨last, rfl, hlast, haccepted, hcount⟩ := hrunning'.expire hdue hfinal
    have hempty : last.receiver.buffer.buffered = 0 := by omega
    obtain ⟨-, -, hsettled⟩ := hlast.kept
    refine ⟨?_, fun frame => haccepted ▸ hlast.handed_out hempty frame⟩
    have hgap := hsettled.gap
    simpa [hempty] using hgap
  constructor
  · obtain ⟨e', hreceiver, hrunning', -⟩ := hrunning.run hfair hcalls
    exact (hend e' hreceiver hrunning').1
  · constructor
    · rintro ⟨frame, hframe, hge, -⟩
      by_contra hnone
      have houtside : Along step (fun r call => ¬ r.InWindow call) e.receiver calls :=
        along_of_split fun before call rest middle hsplit hbefore hwithin =>
          hnone ⟨before, call, rest, middle, hsplit, hbefore, hwithin⟩
      obtain ⟨e', hreceiver, hrunning', hsame⟩ := hrunning.run_outside hfair houtside hcalls
      have hfar : ¬ e.receiver.buffer.Within (s - e.receiver.buffer.expectedSeq) := by
        intro hwithin
        obtain ⟨call, hhead, hseq⟩ := Option.bind_eq_some_iff.mp hfirst
        obtain ⟨rest, hsplit⟩ := head?_eq_some_iff.mp hhead
        exact hnone ⟨[], call, rest, e.receiver, hsplit, rfl, s, hseq, hle, hwithin⟩
      have hmem := ((hend e' hreceiver hrunning').2 frame).mp hframe
      rw [hsame] at hmem
      have hlt := hrunning.accepted_lt hstart hle hfar frame hmem
      omega
    · rintro ⟨before, call, rest, middle, rfl, hbefore, seq, hseq, hahead, hwithin⟩
      obtain ⟨middle', hmiddle, hrest⟩ := run_append_eq_some.mp hcalls
      rw [hbefore] at hmiddle
      cases hmiddle
      obtain ⟨hfairBefore, hfairRest⟩ := hfair.append hbefore
      obtain ⟨e₁, rfl, hrunning₁, -⟩ := hrunning.run hfairBefore hbefore
      obtain ⟨next, hstep, hrest⟩ := run_cons_eq_some.mp hrest
      obtain ⟨hfairCall, hfairRest⟩ := hfairRest.cons hstep
      obtain ⟨e₂, hstep₂, rfl⟩ := Epoch.step_of_ordinary hfairCall.ordinary hstep
      obtain ⟨frame, hframe, htag⟩ := hrunning₁.takes hfairCall hseq hahead hwithin hstep₂
      obtain ⟨e₃, hreceiver, hrunning₃, hsubset⟩ :=
        (hrunning₁.step hfairCall hstep₂).run hfairRest hrest
      refine ⟨frame, ((hend e₃ hreceiver hrunning₃).2 frame).mpr (hsubset hframe), ?_⟩
      rw [htag]
      exact hnumber call (by simp) seq hseq

/-- Two frames after a lost one are delivered when the gap has expired. -/
theorem short_jump_delivered :
    ∃ r after final : Receiver Nat, run step new [.insert 0 1 1] = some r ∧
      run step r [.insert 1 4 4, .insert 2 5 5] = some after ∧
      run step after [.timeoutSkip 60000000, .timeoutSkip 60000001] = some final ∧
      final.buffer.gapSince = none ∧ ∃ frame ∈ final.deliver.delivered, 4 ≤ frame ∧ frame ≤ 5 := by
  have hdelivered := jump_delivered id [.insert 0 1 1] [.insert 1 4 4, .insert 2 5 5]
    [.timeoutSkip 60000000, .timeoutSkip 60000001] _ _ _ 4 1 (by decide) (by decide) rfl rfl
    (by decide) (by decide) rfl (by decide) rfl rfl (by decide) (by decide) rfl
  refine ⟨_, _, _, rfl, rfl, rfl, hdelivered.1, hdelivered.2.mpr ?_⟩
  exact ⟨[], .insert 1 4 4, [.insert 2 5 5], _, rfl, rfl, 4, rfl, by decide, by decide⟩

/-- Frames that follow a jump of the size of the largest ring are dropped, and the gap timer does
not even start. -/
theorem jump_wedges :
    ∃ r after : Receiver Nat, run step new [.insert 0 1 1] = some r ∧
      r.buffer.shutting = false ∧ r.buffer.expectedSeq = 2 ∧
      run step r [.insert 1 65538 65538, .insert 2 65539 65539] = some after ∧
      after.buffer.gapSince = none ∧ after.deliver.delivered = [1] :=
  ⟨_, _, rfl, rfl, by decide, rfl, by decide, by decide⟩

end Receiver

end TlsVpn.Reorder
