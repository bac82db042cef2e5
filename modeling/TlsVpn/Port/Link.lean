import TlsVpn.Fec.Live
import TlsVpn.Port.Fencing

/-!
# The dynamic bypass of one epoch

A sending port and a decoder, connected by the streams of the backends. The decoder reads each
stream in order; streams are interleaved arbitrarily, and one that is not read any more has stalled
or died. `bypassed` and `dropped` are history variables: the numbers of the data frames that the
decoder let pass on arrival because of its fence, and the starts of the groups that it dropped on a
FEC_MODE control.

`bypass_sender_authoritative` says that the sender never emits parity for a group of either kind,
under two conditions. The receiver must not resume with an active window after it has skipped a
generation, for then the window covers an interval in which the sender was encoding
(`skipped_generations_bypass`); and parity must not be queued on a backend that has not been told of
the last suspend, for then it can overtake it (`overtaken_suspend_drops`).
-/

namespace TlsVpn.Port

open Lib Crypto Fec Function List

/-- A port and the decoder of its peer. -/
structure Link where
  port : AsyncPort
  decoder : FecDecoder
  /-- The number of frames read from each stream. -/
  consumed : Nat → Nat
  bypassed : List Nat
  dropped : List Nat

namespace Link

/-- Both ends at the start of an epoch with group size `k`. -/
def new (k : Nat) (tx rx : Option InnerCipher) : Link :=
  { port := AsyncPort.new.resetEpoch k tx
    decoder := .new k rx
    consumed := fun _ => 0
    bypassed := []
    dropped := [] }

/-- The next frame that the writer of a connection has sent. -/
def nextFrame (l : Link) (b : Nat) : Option VPNFrame :=
  (l.port.backend b).taken.flatten[l.consumed b]?

/-- The groups that the decoder drops when it processes a control payload. -/
def droppedBy (d : FecDecoder) (payload : Bytes) : List Nat :=
  match parseFECModeControl payload with
  | some ctrl => d.groups.keys.filter (fun start => ¬ start ∈ (d.fenceControl ctrl).groups)
  | none => []

/-- Read the next frame of a stream. A protocol error ends the stream. -/
def receive (l : Link) (b : Nat) (before after : Option Nat) : Option Link :=
  match l.nextFrame b with
  | none => none
  | some vf =>
    let read := { l with consumed := update l.consumed b (l.consumed b + 1) }
    if vf.seq ≠ 0 then
      some { read with
        decoder := (l.decoder.onData before vf.seq vf.data).1
        bypassed := if l.decoder.fence.bypassData vf.seq then vf.seq :: l.bypassed
          else l.bypassed }
    else
      match l.decoder.onControl before after vf.data with
      | .error _ => none
      | .ok (decoder, _) =>
        some { read with decoder, dropped := droppedBy l.decoder vf.data ++ l.dropped }

/-- A step of the port, or a frame is read. -/
inductive Action where
  | send (action : AsyncPort.Action)
  | receive (b : Nat) (before after : Option Nat)

/-- One step of the epoch, which a reset would end. -/
def step (l : Link) : Action → Option Link
  | .send (.reset _ _) => none
  | .send action => (l.port.step action).map (fun port => { l with port })
  | .receive b before after => l.receive b before after

/-- Records are queued behind the last suspend, and a resume of an active window does not skip a
generation. -/
def InOrder (l : Link) : Action → Prop
  | .send (.dispatch choice) => l.port.Timely choice
  | .receive b _ _ => ∀ vf ∈ l.nextFrame b, vf.seq = 0 →
      ∀ ctrl ∈ parseFECModeControl vf.data, l.decoder.fence.Consecutive ctrl
  | .send _ => True

instance decidableInOrder (l : Link) : ∀ action, Decidable (l.InOrder action)
  | .send (.dispatch choice) => inferInstanceAs (Decidable (l.port.Timely choice))
  | .receive b _ _ => inferInstanceAs (Decidable (∀ vf ∈ l.nextFrame b, vf.seq = 0 →
      ∀ ctrl ∈ parseFECModeControl vf.data, l.decoder.fence.Consecutive ctrl))
  | .send (.write _) | .send (.register _ _) | .send (.unregister _) | .send (.drain _)
  | .send (.complete _) | .send .takeFrame | .send .gotSlot | .send .fill | .send (.reset _ _) =>
    isTrue trivial

/-! ## The invariant -/

/-- The frames read from a stream so far. -/
def readFrames (l : Link) (b : Nat) : List VPNFrame := (l.port.stream b).flatten.take (l.consumed b)

/-- A group of frames already sent that no control newer than the fence suspends. -/
def Outlives (fence : FecRXFenceState) (e : FecEncoder) (history : List FecModeControl)
    (start : Nat) : Prop :=
  GroupBoundary e.k start ∧ start ≤ e.lastSeq ∧
    ∀ c ∈ history, c.op = .resume → c.boundary ≤ start → c.generation ≤ fence.generation + 1

/-- Both ends in the middle of an epoch: the receiver's fence is the work of controls of the
sender's history, and its live groups were not suspended by a control still to come. -/
structure Agrees (l : Link) (e : FecEncoder) (history : List FecModeControl) : Prop where
  fencing : l.port.Fencing e history
  k_eq : l.decoder.k = e.k
  consumed_le : ∀ b, l.consumed b ≤ (l.port.stream b).flatten.length
  keyed : l.decoder.Keyed
  reflects : l.decoder.fence.Reflects history
  heard : ∀ b, ∀ vf ∈ l.readFrames b, ∀ c, vf.seq = 0 → parseFECModeControl vf.data = some c →
    c.generation ≤ l.decoder.fence.generation
  live : ∀ start, l.decoder.Live start → Outlives l.decoder.fence e history start
  bypassed : ∀ seq ∈ l.bypassed, 0 < seq ∧ seq ≤ e.lastSeq ∧
    fecGroupStart seq e.k ∉ e.starts (l.port.parities.map recordStart)
  dropped : ∀ start ∈ l.dropped, start ≤ e.lastSeq ∧
    start ∉ e.starts (l.port.parities.map recordStart)

namespace Agrees

variable {l l' : Link} {e : FecEncoder} {history : List FecModeControl}

theorem start {k : Nat} (hk : 2 ≤ k) (tx rx : Option InnerCipher) :
    (new k tx rx).Agrees (FecEncoder.new k tx) [] where
  fencing := .start hk tx
  k_eq := rfl
  consumed_le := fun _ => Nat.zero_le _
  keyed := nofun
  reflects := FecRXFenceState.reflects_new []
  heard := nofun
  live := nofun
  bypassed := nofun
  dropped := nofun

/-- A step of the sender. -/
theorem send {port : AsyncPort} {e' : FecEncoder} {more : List FecModeControl}
    (h : l.Agrees e history) (hfencing : port.Fencing e' (history ++ more))
    (hadv : AsyncPort.Advances l.port port e e' more) :
    { l with port }.Agrees e' (history ++ more) := by
  have hread : ∀ b, { l with port }.readFrames b = l.readFrames b := by
    intro b
    obtain ⟨added, hstream⟩ := hadv.stream b
    show (port.stream b).flatten.take (l.consumed b) = _
    rw [hstream, flatten_append, take_append_of_le_length (h.consumed_le b)]
    rfl
  have hlast := hadv.lastSeq_le
  have hk := hadv.k_eq
  have hclosed : ∀ {start}, start ≤ e.lastSeq →
      start ∉ e.starts (l.port.parities.map recordStart) →
      start ∉ e'.starts (port.parities.map recordStart) := by
    intro start hle hnot hmem
    rcases hadv.starts start hmem with hold | hnew
    · exact hnot hold
    · omega
  refine ⟨hfencing, h.k_eq.trans hk.symm, fun b => ?_, h.keyed, h.reflects.append more,
    fun b => ?_, fun start hlive => ?_, fun seq hseq => ?_, fun start hstart => ?_⟩
  · obtain ⟨added, hstream⟩ := hadv.stream b
    have hle := h.consumed_le b
    show l.consumed b ≤ (port.stream b).flatten.length
    rw [hstream, flatten_append, length_append]
    omega
  · rw [hread]
    exact h.heard b
  · obtain ⟨hboundary, hle, hresumed⟩ := h.live start hlive
    refine ⟨by rw [hk]; exact hboundary, hle.trans hlast, fun c hc hop hbefore => ?_⟩
    rcases mem_append.mp hc with hold | hnew
    · exact hresumed c hold hop hbefore
    · have := hadv.resume_gt c hnew hop
      omega
  · obtain ⟨hpos, hle, hnot⟩ := h.bypassed seq hseq
    obtain ⟨-, hstart, -⟩ :=
      group_start_spec h.fencing.announced.k_low h.fencing.announced.k_high hpos
    rw [hk]
    exact ⟨hpos, hle.trans hlast, hclosed (hstart.trans hle) hnot⟩
  · obtain ⟨hle, hnot⟩ := h.dropped start hstart
    exact ⟨hle.trans hlast, hclosed hle hnot⟩

variable {b : Nat}

/-- What the receiver has read and what it knows. -/
theorem generation_of_announces (h : l.Agrees e history) {generation : Nat}
    (hannounces : Announces history (l.readFrames b) generation) :
    generation ≤ l.decoder.fence.generation := by
  rcases hannounces with hzero | ⟨c, hc, hle, hmem⟩
  · omega
  · exact hle.trans (h.heard b _ hmem c rfl (h.fencing.announcing.parse_control hc))

variable {vf : VPNFrame}

/-- A frame read next comes behind everything read before. -/
theorem behind_next (h : l.Agrees e history) (hnext : l.nextFrame b = some vf) :
    Behind history e.lastSeq l.port.parities (l.readFrames b) vf ∧
      (l.port.stream b).flatten.take (l.consumed b + 1) = l.readFrames b ++ [vf] ∧
      l.consumed b + 1 ≤ (l.port.stream b).flatten.length := by
  obtain ⟨hlt, hget⟩ := List.getElem?_eq_some_iff.mp hnext
  have hlt' : l.consumed b < (l.port.stream b).flatten.length := by
    rw [AsyncPort.stream, flatten_append, length_append]
    omega
  have hget' : (l.port.stream b).flatten[l.consumed b] = vf := by
    simp only [AsyncPort.stream, flatten_append]
    rw [getElem_append_left hlt]
    exact hget
  have hsplit : (l.port.stream b).flatten =
      l.readFrames b ++ vf :: (l.port.stream b).flatten.drop (l.consumed b + 1) := by
    rw [readFrames, ← hget', cons_getElem_drop_succ, take_append_drop]
  refine ⟨?_, ?_, hlt'⟩
  · have hstreams := h.fencing.streams b
    rw [hsplit] at hstreams
    exact hstreams.of_split
  · rw [take_succ_eq_append_getElem hlt', hget']
    rfl

/-- The receiver processed a frame. -/
theorem received {d : FecDecoder} {bypassed dropped : List Nat} (h : l.Agrees e history)
    (hnext : l.nextFrame b = some vf) (hk : d.k = l.decoder.k) (hkeyed : d.Keyed)
    (hreflects : d.fence.Reflects history) (hgen : l.decoder.fence.generation ≤ d.fence.generation)
    (hheard : ∀ c, vf.seq = 0 → parseFECModeControl vf.data = some c →
      c.generation ≤ d.fence.generation) (hlive : ∀ start, d.Live start →
      l.decoder.Live start ∨ Outlives l.decoder.fence e history start)
    (hbypassed : ∀ seq ∈ bypassed, 0 < seq ∧ seq ≤ e.lastSeq ∧
      fecGroupStart seq e.k ∉ e.starts (l.port.parities.map recordStart))
    (hdropped : ∀ start ∈ dropped, start ≤ e.lastSeq ∧
      start ∉ e.starts (l.port.parities.map recordStart)) :
    Agrees ⟨l.port, d, update l.consumed b (l.consumed b + 1), bypassed, dropped⟩ e
      history := by
  obtain ⟨-, htake, hle⟩ := h.behind_next hnext
  refine ⟨h.fencing, hk.trans h.k_eq, fun x => ?_, hkeyed, hreflects, fun x => ?_,
    fun start hs => ?_,
    hbypassed, hdropped⟩
  · show update l.consumed b (l.consumed b + 1) x ≤ _
    rw [update_apply]
    by_cases heq : x = b
    · rw [if_pos heq, heq]
      exact hle
    · rw [if_neg heq]
      exact h.consumed_le x
  · intro frame hframe c hseq hparse
    change frame ∈ (l.port.stream x).flatten.take
      (update l.consumed b (l.consumed b + 1) x) at hframe
    rw [update_apply] at hframe
    by_cases heq : x = b
    · rw [if_pos heq, heq, htake] at hframe
      rcases mem_append.mp hframe with hold | hnew
      · exact (h.heard b frame hold c hseq hparse).trans hgen
      · rw [mem_singleton.mp hnew] at hseq hparse
        exact hheard c hseq hparse
    · rw [if_neg heq] at hframe
      exact (h.heard x frame hframe c hseq hparse).trans hgen
  · obtain ⟨hboundary, hlast, hresumed⟩ : Outlives l.decoder.fence e history start :=
      (hlive start hs).elim (h.live start) id
    refine ⟨hboundary, hlast, fun c hc hop hbefore => ?_⟩
    have := hresumed c hc hop hbefore
    show c.generation ≤ d.fence.generation + 1
    omega

theorem group_start_of (h : l.Agrees e history) {seq : Nat} (hseq : seq ≠ 0) :
    l.decoder.groupStartOf seq = fecGroupStart seq e.k := by
  rw [FecDecoder.groupStartOf, fecGroupStart, if_neg hseq, h.k_eq,
    clamp_fec_group_of_range h.fencing.announced.k_low h.fencing.announced.k_high]

/-- A bypassed data frame belongs to no group with a record. -/
theorem bypass_closed (h : l.Agrees e history) (hseq : vf.seq ≠ 0)
    (hbehind : ∀ c ∈ history, c.op = .resume → c.boundary ≤ vf.seq →
      Announces history (l.readFrames b) c.generation) (hcovers : l.decoder.fence.Covers vf.seq) :
    fecGroupStart vf.seq e.k ∉ e.starts (l.port.parities.map recordStart) := by
  intro hmem
  have hann := h.fencing.announced
  obtain ⟨-, hle, -⟩ := group_start_spec hann.k_low hann.k_high (Nat.pos_of_ne_zero hseq)
  obtain ⟨c, hc, hop, hbefore, hnewer⟩ := h.reflects.covered_resumed hann.valid hcovers hle
    (hann.spared _ hmem)
  have hknown := h.generation_of_announces (hbehind c hc hop (hbefore.trans hle))
  omega

/-- A bypassed frame belongs to no group with a record. -/
theorem receive_data (h : l.Agrees e history) (before : Option Nat)
    (hnext : l.nextFrame b = some vf) (hseq : vf.seq ≠ 0) (hle : vf.seq ≤ e.lastSeq)
    (hbehind : ∀ c ∈ history, c.op = .resume → c.boundary ≤ vf.seq →
      Announces history (l.readFrames b) c.generation) :
    Agrees ⟨l.port, (l.decoder.onData before vf.seq vf.data).1,
      update l.consumed b (l.consumed b + 1),
      if l.decoder.fence.bypassData vf.seq then vf.seq :: l.bypassed else l.bypassed,
      l.dropped⟩ e history := by
  have hann := h.fencing.announced
  have hadds := FecDecoder.adds_on_data h.keyed before vf.seq vf.data
  rw [h.group_start_of hseq] at hadds
  refine h.received hnext hadds.k_eq (hadds.keyed h.keyed) ?_ ?_ ?_ ?_ ?_ h.dropped
  · rw [hadds.fence_eq]
    exact h.reflects
  · rw [hadds.fence_eq]
  · intro c hzero
    exact absurd hzero hseq
  · intro start hlive
    refine (hadds.live start hlive).imp_right fun hmem => ?_
    rw [mem_singleton.mp hmem]
    obtain ⟨hboundary, hstart, -⟩ :=
      group_start_spec hann.k_low hann.k_high (Nat.pos_of_ne_zero hseq)
    refine ⟨hboundary, hstart.trans hle, fun c hc hop hbefore => ?_⟩
    exact (h.generation_of_announces (hbehind c hc hop (hbefore.trans hstart))).trans
      (Nat.le_succ _)
  · intro seq hmem
    split at hmem
    · rename_i hbypass
      rcases mem_cons.mp hmem with heq | hold
      · rw [heq]
        exact ⟨Nat.pos_of_ne_zero hseq, hle,
          h.bypass_closed hseq hbehind (of_decide_eq_true hbypass)⟩
      · exact h.bypassed seq hold
    · exact h.bypassed seq hmem

/-- A group dropped by a control has no record. -/
theorem drop_closed (h : l.Agrees e history) {c : FecModeControl} (hc : c ∈ history)
    (hconsecutive : l.decoder.fence.Consecutive c) {start : Nat} (hlive : l.decoder.Live start)
    (hdropped : ¬ (l.decoder.fenceControl c).Live start) :
    start ≤ e.lastSeq ∧ start ∉ e.starts (l.port.parities.map recordStart) := by
  have hann := h.fencing.announced
  obtain ⟨hboundary, hle, hresumed⟩ := h.live start hlive
  obtain ⟨happlied, hcovers⟩ := FecDecoder.fence_control_drops hlive hdropped hboundary.1
  obtain ⟨-, -, hnewer⟩ := FecRXFenceState.apply_generation l.decoder.fence
    (hann.valid.generation_pos hc) (hann.valid.boundary_pos c hc)
  have hown := group_start_boundary hann.k_low hann.k_high hboundary
  refine ⟨hle, fun hmem => ?_⟩
  obtain ⟨c', hc', hop, hbefore, hgen⟩ :=
    (h.reflects.apply hann.valid hc hconsecutive).covered_resumed hann.valid hcovers hown.le
      (by rw [hown]; exact hann.spared start hmem)
  have hknown := hresumed c' hc' hop (by rwa [hown] at hbefore)
  have hfenced := hnewer happlied
  omega

/-- A dropped group has no record. -/
theorem receive_control (h : l.Agrees e history) {c : FecModeControl} (before : Option Nat)
    (hc : c ∈ history) (hnext : l.nextFrame b = some ⟨0, appendFECModeControl [] c⟩)
    (hconsecutive : l.decoder.fence.Consecutive c) :
    Agrees ⟨l.port, l.decoder.handleModeControl before c,
      update l.consumed b (l.consumed b + 1), l.bypassed,
      droppedBy l.decoder (appendFECModeControl [] c) ++ l.dropped⟩ e history := by
  have hvalid := h.fencing.announced.valid
  have hparse := h.fencing.announcing.parse_control hc
  have hfences := FecDecoder.fences_handle l.decoder before c
  obtain ⟨hmono, hgen, -⟩ := FecRXFenceState.apply_generation l.decoder.fence
    (hvalid.generation_pos hc) (hvalid.boundary_pos c hc)
  refine h.received hnext hfences.k_eq (hfences.keyed h.keyed) ?_ ?_ ?_
    (fun start hlive => .inl (hfences.live start hlive)) h.bypassed ?_
  · rw [hfences.fence_eq]
    exact h.reflects.apply hvalid hc hconsecutive
  · rw [hfences.fence_eq]
    exact hmono
  · intro c' _ hparse'
    rw [show parseFECModeControl (appendFECModeControl [] c) = some c' from hparse'] at hparse
    cases hparse
    rw [hfences.fence_eq]
    exact hgen
  · intro start hmem
    rcases mem_append.mp hmem with hnew | hold
    · rw [droppedBy, hparse] at hnew
      obtain ⟨hkey, hgone⟩ := mem_filter.mp hnew
      have hlive : l.decoder.Live start := AList.lookup_isSome.mpr hkey
      refine h.drop_closed hc hconsecutive hlive fun hstill => ?_
      exact of_decide_eq_true hgone (AList.lookup_isSome.mp hstill)
    · exact h.dropped start hold

theorem receive_parity (h : l.Agrees e history) {par : Bytes} (before after : Option Nat)
    (hnext : l.nextFrame b = some ⟨0, par⟩) (hpar : par ∈ l.port.parities)
    (hnotmode : parseFECModeControl par = none)
    (hbehind : ∀ c ∈ history, c.op = .resume → c.boundary ≤ recordStart par →
      Announces history (l.readFrames b) (c.generation - 1)) :
    Agrees ⟨l.port, (l.decoder.onParity before after par).1,
      update l.consumed b (l.consumed b + 1), l.bypassed, l.dropped⟩ e history := by
  have hadds := FecDecoder.adds_on_parity h.keyed before after par
  refine h.received hnext hadds.k_eq (hadds.keyed h.keyed) ?_ ?_ ?_ ?_ h.bypassed h.dropped
  · rw [hadds.fence_eq]
    exact h.reflects
  · rw [hadds.fence_eq]
  · intro c _ hparse
    rw [show parseFECModeControl par = some c from hparse] at hnotmode
    cases hnotmode
  · intro start hlive
    refine (hadds.live start hlive).imp_right fun hmem => ?_
    rw [h.k_eq] at hmem
    split at hmem
    · rename_i hboundary
      rw [mem_singleton.mp hmem]
      refine ⟨hboundary, h.fencing.record_start_le hpar, fun c hc hop hbefore => ?_⟩
      have := h.generation_of_announces (hbehind c hc hop hbefore)
      omega
    · cases hmem

/-- A frame read in order. -/
theorem receive (h : l.Agrees e history) {before after : Option Nat}
    (hinorder : l.InOrder (.receive b before after)) (hstep : l.receive b before after = some l') :
    l'.Agrees e history := by
  unfold Link.receive at hstep
  cases hnext : l.nextFrame b with
  | none =>
    rw [hnext] at hstep
    cases hstep
  | some vf =>
    rw [hnext] at hstep
    dsimp only at hstep
    cases (h.behind_next hnext).1 with
    | data vf hseq hle hbehind =>
      rw [if_pos hseq] at hstep
      cases hstep
      exact h.receive_data before hnext hseq hle hbehind
    | control c hc =>
      have hparse := h.fencing.announcing.parse_control hc
      rw [if_neg (not_not.mpr rfl), l.decoder.on_control_mode hparse] at hstep
      cases hstep
      exact h.receive_control before hc hnext (hinorder _ hnext rfl c hparse)
    | parity par hpar hbehind =>
      have hkind := h.fencing.kinds par hpar
      obtain ⟨rest, rfl⟩ : ∃ rest, par = controlKindFECParity :: rest :=
        head?_eq_some_iff.mp hkind
      have hnotmode := parse_mode_of_parity rest
      rw [if_neg (not_not.mpr rfl), l.decoder.on_control_parity] at hstep
      cases hstep
      rw [droppedBy, hnotmode, nil_append]
      exact h.receive_parity before after hnext hpar hnotmode hbehind

/-- A step in order. -/
theorem step {action : Action} (h : l.Agrees e history) (hinorder : l.InOrder action)
    (hstep : l.step action = some l') :
    ∃ e' more, l'.Agrees e' (history ++ more) ∧ e'.k = e.k := by
  cases action with
  | receive b before after =>
    refine ⟨e, [], ?_, rfl⟩
    rw [append_nil]
    exact h.receive hinorder hstep
  | send action =>
    have hsend : (∀ k ic, action ≠ .reset k ic) ∧
        ∃ port, l.port.step action = some port ∧ { l with port } = l' := by
      cases action with
      | reset k ic => cases hstep
      | _ => exact ⟨nofun, Option.map_eq_some_iff.mp hstep⟩
    obtain ⟨hepoch, port, hport, rfl⟩ := hsend
    have htimely : ∀ choice, action = .dispatch choice → l.port.Timely choice := by
      rintro choice rfl
      exact hinorder
    obtain ⟨e', more, hfencing, hadv⟩ := h.fencing.step hport hepoch htimely
    exact ⟨e', more, h.send hfencing hadv, hadv.k_eq⟩

end Agrees

/-- The two ends agree on some history, with the group size they started with. -/
def InAgreement (k : Nat) (l : Link) : Prop :=
  ∃ e history, l.Agrees e history ∧ e.k = clampFecGroup k

/-- Every step in order keeps the two ends in agreement. -/
theorem InAgreement.step {k : Nat} {l l' : Link} {action : Action} (h : InAgreement k l)
    (hinorder : l.InOrder action) (hstep : l.step action = some l') : InAgreement k l' := by
  obtain ⟨e, history, hagrees, hsize⟩ := h
  obtain ⟨e', more, hagrees', hsize'⟩ := hagrees.step hinorder hstep
  exact ⟨e', _, hagrees', hsize'.trans hsize⟩

/-- In every run in order, the sender emits no parity for the group of a data frame that the
receiver bypassed, or for a group that the receiver dropped on a control. -/
theorem bypass_sender_authoritative (k : Nat) (hk : 2 ≤ k) (tx rx : Option InnerCipher)
    (actions : List Action) (l : Link) (hinorder : Along step InOrder (new k tx rx) actions)
    (hrun : run step (new k tx rx) actions = some l) :
    ∀ seq, seq ∈ l.bypassed ∨ fecGroupStart seq k ∈ l.dropped →
      ∀ par ∈ l.port.parities, recordStart par ≠ fecGroupStart seq k := by
  have hinv : InAgreement k l :=
    run_invariant (fun _ _ _ h hallowed hstep => h.step hallowed hstep)
      ⟨_, _, Agrees.start hk tx rx, rfl⟩ hinorder hrun
  obtain ⟨e, history, hagrees, hsize⟩ := hinv
  have hgroup : ∀ seq, fecGroupStart seq e.k = fecGroupStart seq k := by
    intro seq
    obtain ⟨hlow, hhigh⟩ := clamp_fec_group_range k
    rw [hsize, fecGroupStart, fecGroupStart, clamp_fec_group_of_range hlow hhigh]
  intro seq hgone par hpar heq
  have hmem : fecGroupStart seq k ∈ e.starts (l.port.parities.map recordStart) := by
    rw [← heq]
    exact mem_append_left _ (mem_map_of_mem hpar)
  rcases hgone with hbypassed | hdropped
  · obtain ⟨-, -, hnot⟩ := hagrees.bypassed seq hbypassed
    rw [hgroup] at hnot
    exact hnot hmem
  · exact (hagrees.dropped _ hdropped).2 hmem

/-- A frame is written, numbered and dispatched. -/
def sendFrame (data : Bytes) (best : Nat) (parity : List (List Nat × Nat)) : List Action :=
  [.send (.write data), .send .takeFrame, .send .gotSlot, .send (.dispatch ⟨best, [], parity⟩)]

/-- One of two connections leaves and another one joins. The receiver reads the suspend and the
frame behind it, and then the resume and the frames and the record of the next group. -/
def leaveAndJoin : List Action :=
  ([.send (.register 0 32), .send (.register 1 32)] : List Action) ++ sendFrame [1] 0 [] ++
    ([.send (.unregister 1)] : List Action) ++ sendFrame [2] 0 [] ++
    ([.send (.register 2 32)] : List Action) ++ sendFrame [3] 2 [] ++ sendFrame [4] 2 [([], 0)] ++
    ([.send (.drain 0), .send (.drain 0), .send (.drain 0), .send (.drain 2), .send (.drain 2),
      .receive 0 none none, .receive 0 none none, .receive 0 none none,
      .receive 2 none none, .receive 2 none none, .receive 2 none none,
      .receive 0 none none] : List Action)

/-- Only the group with a record is decoded. -/
theorem leave_and_join_authoritative :
    ∃ l, run step (new 2 none none) leaveAndJoin = some l ∧
      (l.bypassed = [2] ∧ l.dropped = [1] ∧ l.port.parities.map recordStart = [3]) ∧
      ∀ seq, seq ∈ l.bypassed ∨ fecGroupStart seq 2 ∈ l.dropped →
        ∀ par ∈ l.port.parities, recordStart par ≠ fecGroupStart seq 2 := by
  obtain ⟨l, hrun, hend⟩ : ∃ l, run step (new 2 none none) leaveAndJoin = some l ∧
      l.bypassed = [2] ∧ l.dropped = [1] ∧ l.port.parities.map recordStart = [3] :=
    exists_run_of_decide (by decide +kernel)
  exact ⟨l, hrun, hend, bypass_sender_authoritative 2 (by decide) none none leaveAndJoin l
    (by decide +kernel) hrun⟩

/-- The same sender goes on: connection `0` leaves too and connection `3` joins. The receiver reads
the first suspend, and the resume on connection `3` before anything on connection `2`. -/
def skippedGenerations : List Action :=
  ([.send (.register 0 32), .send (.register 1 32)] : List Action) ++ sendFrame [1] 0 [] ++
    ([.send (.unregister 1)] : List Action) ++ sendFrame [2] 0 [] ++
    ([.send (.register 2 32)] : List Action) ++ sendFrame [3] 2 [] ++ sendFrame [4] 2 [([], 0)] ++
    ([.send (.unregister 0)] : List Action) ++ sendFrame [5] 2 [] ++
    ([.send (.register 3 32)] : List Action) ++ sendFrame [6] 3 [] ++
    ([.send (.drain 0), .send (.drain 0), .send (.drain 3), .send (.drain 2),
      .receive 0 none none, .receive 0 none none,
      .receive 3 none none, .receive 2 none none, .receive 2 none none] : List Action)

/-- The window then reaches from the first suspend to the second resume, and frame `3`, whose group
has a record, is bypassed. -/
theorem skipped_generations_bypass :
    ∃ l, run step (new 2 none none) skippedGenerations = some l ∧ 3 ∈ l.bypassed ∧
      ∃ par ∈ l.port.parities, recordStart par = fecGroupStart 3 2 :=
  exists_run_of_decide (by decide +kernel)

/-- Connection `0` stalls before the suspend; the record of the group resumed later goes to the new
connection `2` and is read first. -/
def overtakenSuspend : List Action :=
  ([.send (.register 0 32), .send (.register 1 32)] : List Action) ++ sendFrame [1] 0 [] ++
    ([.send (.unregister 1)] : List Action) ++ sendFrame [2] 0 [] ++
    ([.send (.register 2 32)] : List Action) ++ sendFrame [3] 0 [] ++ sendFrame [4] 0 [([], 2)] ++
    ([.send (.drain 2), .send (.drain 0), .send (.drain 0),
      .receive 2 none none, .receive 0 none none, .receive 0 none none] : List Action)

/-- The suspend then drops the group of frame `3`, which has a record. -/
theorem overtaken_suspend_drops :
    ∃ l, run step (new 2 none none) overtakenSuspend = some l ∧ fecGroupStart 3 2 ∈ l.dropped ∧
      ∃ par ∈ l.port.parities, recordStart par = fecGroupStart 3 2 :=
  exists_run_of_decide (by decide +kernel)

end Link

end TlsVpn.Port
