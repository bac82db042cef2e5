import TlsVpn.Reorder.Delivery

/-!
# Who gives a frame back

Every frame that a reader puts into the buffer is a pooled allocation. It must be passed to the
output function or released, once and not twice, on every path: inserted in order, late, too far
ahead, a duplicate, waiting when the buffer is reset or closed, in a batch that meets a full
channel, in the channel when the end is announced. At every moment each frame given to the buffer is
in exactly one place, and nothing is left anywhere once `Close` has returned and the worker has
gone.

For the second part the order of the two locks matters. A batch that has left the buffer is under
one of them until it is in the channel, so `Close`, which takes both before it announces the end,
announces it after the last batch; the worker that then finds the channel empty leaves nothing
behind.
-/

namespace TlsVpn.Reorder

open Lib ReorderBuffer Function

variable {Frame : Type} {rb : ReorderBuffer Frame}

/-! ## The buffer -/

namespace ReorderBuffer.Stored

theorem new : (ReorderBuffer.new : ReorderBuffer Frame).Stored := by
  have hmax : reorderWindowSize ≤ reorderMaxWindowSize := by decide
  exact ⟨⟨⟨11, rfl⟩, le_rfl, hmax⟩, nofun⟩

theorem of_ring {rb' : ReorderBuffer Frame} (h : rb.Stored) (hlen : rb'.ringLen = rb.ringLen)
    (hring : ∀ i frame, rb'.ring i = some frame →
      rb.ring i = some frame ∧ rb'.seqSlots i = rb.seqSlots i) : rb'.Stored := by
  refine ⟨hlen ▸ h.size, fun i frame hi => ?_⟩
  obtain ⟨hold, hseq⟩ := hring i frame hi
  rw [hseq, hlen]
  exact h.slots i frame hold

theorem take_expected (h : rb.Stored) (frame : Frame) : (rb.takeExpected frame).Stored := by
  refine h.of_ring rfl fun i other hi => ?_
  by_cases hslot : i = rb.slot rb.expectedSeq
  · simp [takeExpected, hslot] at hi
  · simp only [takeExpected, update_of_ne hslot] at hi ⊢
    exact ⟨hi, trivial⟩

theorem drain_loop (fuel : Nat) (h : rb.Stored) : (drainLoop fuel rb).Stored := by
  induction fuel generalizing rb with
  | zero => exact h
  | succ fuel ih =>
    simp only [drainLoop]
    split
    · exact h
    · exact ih (h.take_expected _)

theorem refresh (h : rb.Stored) (now : Nat) : (rb.refreshGapLocked now).1.Stored := by
  obtain ⟨since, events, hrefresh⟩ := refresh_eq rb now
  rw [hrefresh]
  exact h.of_ring rfl fun _ _ hi => ⟨hi, rfl⟩

theorem drain (h : rb.Stored) (now : Nat) : (rb.drainLocked now).1.Stored :=
  have hgap : { rb with gapSince := none }.Stored := h.of_ring rfl fun _ _ hi => ⟨hi, rfl⟩
  (hgap.drain_loop rb.ringLen).refresh now

theorem skip_gap (h : rb.Stored) (now : Nat) : (rb.skipGap now).Stored := by
  unfold skipGap
  split
  · split
    · exact h.of_ring rfl fun _ _ hi => ⟨hi, rfl⟩
    · rename_i skipped hskip
      have hmoved : (rb.skipTo skipped).Stored := h.of_ring rfl fun _ _ hi => ⟨hi, rfl⟩
      exact hmoved.drain now
  · exact h

theorem widen (h : rb.Stored) {diff : Nat} {wide : ReorderBuffer Frame}
    (hwiden : rb.widen diff = some wide) : wide.Stored := by
  refine ⟨h.size.widen hwiden, fun j frame hj => ?_⟩
  have hpow := (h.size.widen hwiden).1
  rcases widen_eq hwiden with rfl | ⟨newLen, rfl⟩
  · exact h.slots j frame hj
  · obtain ⟨i, -, hslot, hseq⟩ := rehash_slot rb newLen rb.ringLen hj
    dsimp only at hpow ⊢
    rw [hseq, ← and_mask_eq_mod hpow]
    exact hslot

theorem place (h : rb.Stored) (now seq : Nat) (frame : Frame) :
    (rb.place now seq frame).1.Stored := by
  have hstore : (rb.store seq frame).Stored := by
    refine ⟨h.size, fun i other hi => ?_⟩
    by_cases hslot : i = rb.slot seq
    · simp only [ReorderBuffer.store, hslot, update_self]
      exact and_mask_eq_mod h.size.1 seq
    · simp only [ReorderBuffer.store, update_of_ne hslot] at hi ⊢
      exact h.slots i other hi
  unfold ReorderBuffer.place
  split
  · exact h
  · split
    · exact hstore.drain now
    · exact hstore.refresh now

theorem inserted (h : rb.Stored) (now seq : Nat) (frame : Frame) :
    (rb.inserted now seq frame).Stored := by
  have hadopt : (rb.adopt seq).Stored := by
    unfold ReorderBuffer.adopt
    split
    · exact h.of_ring rfl fun _ _ hi => ⟨hi, rfl⟩
    · exact h
  exact insert_in_window_spec (P := Stored) hadopt fun wide hwiden =>
    (hadopt.widen hwiden).place now seq frame

end ReorderBuffer.Stored

namespace Delivery

variable {d d' : Delivery Frame}

/-! ## The balance -/

/-- All frames in the hands of the goroutine under `mu`, those that `Close` will release
included. -/
def muFrames : MuStage Frame → List Frame
  | .waiting frames | .closing frames => frames
  | .free | .locked => []

/-- All frames in the hands of the goroutine under `deliverMu`. -/
def deliverFrames : DeliverStage Frame → List Frame
  | .sending frames | .signalling frames | .signalled frames => frames
  | .free | .sent => []

/-- The frames that are neither written nor released. -/
def held (d : Delivery Frame) : Multiset Frame :=
  d.writing + d.outChan.flatten + deliverFrames d.deliverMu + muFrames d.mu +
    d.receiver.buffer.contents

/-- Every frame given to the buffer is in one place. -/
def Balanced (d : Delivery Frame) : Prop :=
  (d.given : Multiset Frame) = d.output + d.released + d.held

theorem coe_ring_frames (rb : ReorderBuffer Frame) :
    (ringFrames rb : Multiset Frame) = slotContents rb.ring rb.ringLen :=
  coe_filter_map_range rb.ring rb.ringLen

theorem coe_cons (frame : Frame) (rest : List Frame) :
    ((frame :: rest : List Frame) : Multiset Frame) =
      ([frame] : List Frame) + (rest : List Frame) :=
  (Multiset.coe_add [frame] rest).symm

/-- An emptied buffer. -/
theorem contents_of_released {rb' : ReorderBuffer Frame} (hring : ∀ i, rb'.ring i = none)
    (hpending : rb'.pending = []) : rb'.contents = 0 := by
  rw [ReorderBuffer.contents, slot_contents_of_empty hring, hpending]
  rfl

variable {action : Action Frame}

/-- A step moves frames from one place to another. -/
theorem Balanced.step (h : d.Balanced) (hstored : d.receiver.buffer.Stored)
    (hmoves : Moves d action d') : d'.Balanced := by
  unfold Balanced held at h ⊢
  cases hmoves with
  | insertNone hmu hnone =>
    dsimp only
    rw [← Multiset.coe_add, ← Multiset.coe_add, h]
    ac_rfl
  | @insert now seq frame hmu hsome =>
    have hinsert := contents_inserted hstored now seq frame
    dsimp only
    rw [← Multiset.coe_add, ← Multiset.coe_add, h, Multiset.coe_singleton]
    calc (d.output : Multiset Frame) + d.released + (d.writing + d.outChan.flatten +
          deliverFrames d.deliverMu + muFrames d.mu + d.receiver.buffer.contents) + {frame}
        = d.output + d.released + (d.writing + d.outChan.flatten +
          deliverFrames d.deliverMu + muFrames d.mu) +
            (d.receiver.buffer.contents + {frame}) := by ac_rfl
      _ = _ := by rw [← hinsert]; ac_rfl
  | skip hmu =>
    dsimp only
    rw [contents_skip_gap hstored.ring_len_pos, h]
  | reset hmu =>
    dsimp only
    rw [contents_of_released (fun _ => rfl) rfl, h, ← Multiset.coe_add, ← Multiset.coe_add,
      coe_ring_frames, ReorderBuffer.contents]
    ac_rfl
  | lock hmu | leaveNone hmu hpending =>
    rw [hmu] at h
    exact h
  | leave hmu hpending =>
    rw [hmu] at h
    rw [h]
    simp only [muFrames, Receiver.deliver, takePendingLocked, ReorderBuffer.contents,
      Multiset.coe_nil]
    ac_rfl
  | shut hmu hopen =>
    have hclosed : d.receiver.buffer.close.contents = 0 :=
      contents_of_released (fun _ => rfl) rfl
    rw [hmu] at h
    rw [h, hclosed, ← Multiset.coe_add, coe_ring_frames]
    simp only [muFrames, ReorderBuffer.contents, Multiset.coe_nil]
    ac_rfl
  | acquire hfree hmu | acquireClose hfree hmu =>
    rw [hmu, hfree] at h
    rw [h]
    simp only [muFrames, deliverFrames, Multiset.coe_nil]
    ac_rfl
  | send hturn =>
    rw [hturn] at h
    rw [h, List.flatten_append, List.flatten_singleton, ← Multiset.coe_add]
    simp only [deliverFrames, Multiset.coe_nil]
    ac_rfl
  | drop dropped hturn =>
    rw [hturn] at h
    rw [h, ← Multiset.coe_add]
    simp only [deliverFrames, Multiset.coe_nil]
    ac_rfl
  | signal hturn | unlock hturn =>
    rw [hturn] at h
    exact h
  | unlockClose hturn =>
    rw [hturn] at h
    rw [h, ← Multiset.coe_add]
    simp only [deliverFrames, Multiset.coe_nil]
    ac_rfl
  | take hstays hwriting hchan =>
    dsimp only
    rw [h, hwriting, hchan, List.flatten_cons, ← Multiset.coe_add, Multiset.coe_nil]
    ac_rfl
  | write hwriting | ignore hwriting =>
    dsimp only
    rw [h, hwriting, coe_cons, ← Multiset.coe_add]
    ac_rfl
  | drainOut | exit => exact h

/-! ## The end -/

/-- Nothing is left in the buffer. -/
def Emptied (rb : ReorderBuffer Frame) : Prop :=
  (∀ i, rb.ring i = none) ∧ rb.pending = [] ∧ rb.buffered = 0

/-- A shut buffer is empty and gives out no more batches; when the end is announced the last one is
in the channel; and the worker leaves an empty channel behind. -/
structure Ending (d : Delivery Frame) : Prop where
  stored : d.receiver.buffer.Stored
  shut : d.receiver.buffer.shutting = true → Emptied d.receiver.buffer
  waiting : d.receiver.buffer.shutting = true → ∀ batch, d.mu ≠ .waiting batch
  closing : ∀ drain, d.mu = .closing drain → d.receiver.buffer.shutting = true
  signalling : ∀ drain, d.deliverMu = .signalling drain → d.receiver.buffer.shutting = true
  closed : d.closed = true → d.receiver.buffer.shutting = true
  sending : d.closed = true → ∀ batch, d.deliverMu ≠ .sending batch
  draining : d.draining = true → d.closed = true
  exited : d.exited = true → d.draining = true ∧ d.writing = [] ∧ d.outChan = []

theorem ending_new (wants : Frame → Bool) : (new wants).Ending where
  stored := Stored.new
  shut := nofun
  waiting := nofun
  closing := nofun
  signalling := nofun
  closed := nofun
  sending := nofun
  draining := nofun
  exited := nofun

theorem skip_gap_of_none (hempty : rb.buffered = 0) (now : Nat) : rb.skipGap now = rb := by
  unfold skipGap
  exact if_neg fun hdue => hdue.2.1 hempty

/-- The buffer changes and is as open or shut as before. -/
theorem Ending.set_receiver (h : d.Ending) {r : Receiver Frame} (hstored : r.buffer.Stored)
    (hsame : r.buffer.shutting = d.receiver.buffer.shutting)
    (hshut : r.buffer.shutting = true → Emptied r.buffer) :
    ({ d with receiver := r } : Delivery Frame).Ending where
  stored := hstored
  shut := hshut
  waiting := fun hshutting => h.waiting (hsame.symm.trans hshutting)
  closing := fun drain hmu => hsame.trans (h.closing drain hmu)
  signalling := fun drain hturn => hsame.trans (h.signalling drain hturn)
  closed := fun hclosed => hsame.trans (h.closed hclosed)
  sending := h.sending
  draining := h.draining
  exited := h.exited

/-- After the end is announced no batch comes. -/
theorem Ending.step (h : d.Ending) (hmoves : Moves d action d') : d'.Ending := by
  cases hmoves with
  | lock | leaveNone => exact { h with waiting := fun _ => nofun, closing := nofun }
  | insertNone => exact { h with }
  | @insert now seq frame hmu hsome =>
    have hsame := shutting_inserted d.receiver.buffer now seq frame
    have hset := h.set_receiver
      (r := { d.receiver with buffer := d.receiver.buffer.inserted now seq frame })
      (h.stored.inserted now seq frame) hsame
      fun hshut => absurd (.inr (hsame.symm.trans hshut)) hsome
    exact { hset with }
  | @skip now hmu =>
    have hsame := shutting_skip d.receiver.buffer now
    refine h.set_receiver (h.stored.skip_gap now) hsame fun hshut => ?_
    have hempty := h.shut (hsame.symm.trans hshut)
    dsimp only
    rw [skip_gap_of_none hempty.2.2]
    exact hempty
  | reset hmu =>
    have hset := h.set_receiver (r := ⟨d.receiver.buffer.reset, []⟩)
      (h.stored.of_ring rfl nofun) rfl fun _ => ⟨fun _ => rfl, rfl, rfl⟩
    exact { hset with }
  | leave hmu hpending =>
    have hopen : d.receiver.buffer.shutting ≠ true := fun hshut => hpending (h.shut hshut).2.1
    have hset := h.set_receiver (r := d.receiver.deliver)
      (h.stored.of_ring rfl fun _ _ hi => ⟨hi, rfl⟩) rfl fun hshut => absurd hshut hopen
    exact { hset with waiting := fun hshut => absurd hshut hopen, closing := nofun }
  | shut hmu hopen =>
    exact { h with
      stored := h.stored.of_ring rfl nofun
      shut := fun _ => ⟨fun _ => rfl, rfl, rfl⟩
      waiting := fun _ => nofun
      closing := fun _ _ => rfl
      signalling := fun _ _ => rfl
      closed := fun _ => rfl }
  | acquire hfree hmu =>
    -- the end is not announced while a batch waits
    exact { h with
      waiting := fun _ => nofun
      closing := nofun
      signalling := nofun
      sending := fun hclosed => absurd hmu (h.waiting (h.closed hclosed) _) }
  | acquireClose hfree hmu =>
    exact { h with
      waiting := fun _ => nofun
      closing := nofun
      signalling := fun _ _ => h.closing _ hmu
      sending := fun _ => nofun }
  | send hturn =>
    refine { h with signalling := nofun, sending := fun _ => nofun, exited := fun hexited => ?_ }
    -- a batch on its way keeps the end from being announced, and the worker from leaving
    exact absurd hturn (h.sending (h.draining (h.exited hexited).1) _)
  | drop | unlock | unlockClose => exact { h with signalling := nofun, sending := fun _ => nofun }
  | signal hturn =>
    exact { h with
      signalling := nofun
      closed := fun _ => h.signalling _ hturn
      sending := fun _ => nofun
      draining := fun _ => rfl }
  | take hstays hwriting hchan =>
    refine { h with exited := fun hexited => ?_ }
    exact absurd (hstays.symm.trans hexited) Bool.false_ne_true
  | write hwriting | ignore hwriting =>
    refine { h with exited := fun hexited => ?_ }
    exact absurd (hwriting.symm.trans (h.exited hexited).2.1) (List.cons_ne_nil _ _)
  | drainOut hclosed hwriting =>
    exact { h with
      draining := fun _ => hclosed
      exited := fun hexited => ⟨rfl, (h.exited hexited).2⟩ }
  | exit hdraining hwriting hchan =>
    exact { h with exited := fun _ => ⟨hdraining, hwriting, hchan⟩ }

/-! ## Whole runs -/

/-- What every step keeps. -/
structure Owned (d : Delivery Frame) : Prop where
  ending : d.Ending
  balanced : d.Balanced

theorem owned_new (wants : Frame → Bool) : (new wants).Owned := by
  refine ⟨ending_new wants, ?_⟩
  have hempty : (new wants).receiver.buffer.contents = 0 := contents_of_released (fun _ => rfl) rfl
  unfold Balanced held
  rw [hempty]
  rfl

theorem Owned.step (h : d.Owned) (hstep : d.step action = some d') : d'.Owned :=
  have hmoves := moves_of_step hstep
  ⟨h.ending.step hmoves, h.balanced.step h.ending.stored hmoves⟩

theorem Ending.held_eq (h : d.Ending) (hexited : d.exited = true) (hmu : d.mu = .free)
    (hdeliver : d.deliverMu = .free) : d.held = 0 := by
  obtain ⟨hdraining, hwriting, hchan⟩ := h.exited hexited
  obtain ⟨hring, hpending, -⟩ := h.shut (h.closed (h.draining hdraining))
  unfold held
  rw [hwriting, hchan, hmu, hdeliver, contents_of_released hring hpending]
  rfl

/-- Every frame given to the buffer is in exactly one place: passed to the output function, released
or held. After the worker has gone and every call has returned, `Close` included, nothing is held
any more. -/
theorem frames_conserved (wants : Frame → Bool) (actions : List (Action Frame))
    (d : Delivery Frame) (hrun : run step (new wants) actions = some d) :
    (d.given : Multiset Frame) = d.output + d.released + d.held ∧
      (d.exited = true → d.mu = .free → d.deliverMu = .free →
        d.given.Perm (d.output ++ d.released)) := by
  have howned : d.Owned :=
    run_preserves (fun _ _ _ h hstep => h.step hstep) (owned_new wants) hrun
  refine ⟨howned.balanced, fun hexited hmu hdeliver => Multiset.coe_eq_coe.mp ?_⟩
  have hbalanced := howned.balanced
  unfold Balanced at hbalanced
  rw [hbalanced, howned.ending.held_eq hexited hmu hdeliver, add_zero, Multiset.coe_add]

/-- The buffer is closed while a batch is on its way, with a frame in the ring and another to
come. -/
def closedInFlight : List (Action Nat) :=
  [.lock, .insert 0 1 1, .insert 0 1 1, .insert 0 3 3, .leave, .acquire, .lock, .shut, .send false,
    .unlock, .acquire, .lock, .insert 0 4 4, .signal, .drainOut, .leave, .unlock, .take, .write,
    .exit]

/-- Every frame is written or released. -/
theorem closed_in_flight_conserved :
    ∃ d, run step (new fun _ => true) closedInFlight = some d ∧
      d.output = [1] ∧ d.released = [1, 3, 4] ∧ d.exited = true ∧
      (d.given : Multiset Nat) = d.output + d.released + d.held ∧
      (d.exited = true → d.mu = .free → d.deliverMu = .free →
        d.given.Perm (d.output ++ d.released)) := by
  have hfinal : ∃ d, run step (new fun _ => true) closedInFlight = some d ∧
      d.output = [1] ∧ d.released = [1, 3, 4] ∧ d.exited = true :=
    exists_run_of_decide (by decide +kernel)
  obtain ⟨d, hrun, houtput, hreleased, hexited⟩ := hfinal
  exact ⟨d, hrun, houtput, hreleased, hexited, frames_conserved _ closedInFlight d hrun⟩

end Delivery

end TlsVpn.Reorder
