import TlsVpn.Fec.Exact
import TlsVpn.Reorder.Bound

/-!
# The receiving end of an epoch

What a session does with the frames its connections have opened. The decoder sees every frame first;
what it recovers and the frame itself then go to the reorder buffer. With a single connection the
reader does this itself and hands over a recovered frame at once, before its own (`onControl`,
`onData` and `insertRecovered`). With several connections the readers collect batches, and one
worker takes them in turn: `process` is its loop over a batch, which keeps a frame and what it
recovered in the order of their numbers and flushes at the end of each run of data frames.

`Sound` is what both rely on and keep: an exact decoder and a buffer that holds frames of the sender
under their numbers.
-/

namespace TlsVpn.Tunnel

open Lib Crypto Fec Reorder

/-- The decoder, `none` without negotiated FEC, and the reorder buffer with the history of its
epoch. -/
structure Inbound where
  decoder : Option FecDecoder
  epoch : Epoch VPNFrame

namespace Inbound

/-- The receiving end at the start of an epoch with group size `k`. -/
def new (k : Nat) (ic : Option InnerCipher) : Inbound :=
  { decoder := if fecMinGroup ≤ k then some (.new k ic) else none
    epoch := .start .new }

/-- The answer of the progress probe. -/
def expectedSeq (r : Inbound) : Nat := r.epoch.receiver.buffer.expectedSeq

/-- A call of the reorder buffer. Those of an epoch always return. -/
def call (r : Inbound) (c : Call VPNFrame) : Inbound :=
  { r with epoch := (r.epoch.step c).getD r.epoch }

/-- A data frame passes the decoder. -/
def onData (r : Inbound) (progress : Option Nat) (vf : VPNFrame) :
    Inbound × Option (Nat × Bytes) :=
  match r.decoder with
  | none => (r, none)
  | some d =>
    let (decoder, out) := d.onData progress vf.seq vf.data
    ({ r with decoder := some decoder }, out)

/-- A control passes the decoder. Without a decoder, and where the control is malformed, the
connection is given up. -/
def onControl (r : Inbound) (before after : Option Nat) (payload : Bytes) :
    Option (Inbound × Option (Nat × Bytes)) :=
  match r.decoder with
  | none => none
  | some d =>
    match d.onControl before after payload with
    | .error _ => none
    | .ok (decoder, out) => some ({ r with decoder := some decoder }, out)

/-- The callback of a decoder without a worker. -/
def insertRecovered (r : Inbound) (now : Nat) : Option (Nat × Bytes) → Inbound
  | none => r
  | some (seq, data) => r.call (.insert now seq ⟨seq, data⟩)

/-- The worker inserts a frame and what it recovered in the order of their numbers. A recovered
frame with the number of the frame itself is released. -/
def insertOriginalAndRecovery (r : Inbound) (now : Nat → Nat) (vf : VPNFrame) :
    Option (Nat × Bytes) → Inbound
  | none => r.call (.insertActorBuffered (now vf.seq) vf.seq vf)
  | some (seq, data) =>
    if seq < vf.seq then
      (r.call (.insertActorBuffered (now seq) seq ⟨seq, data⟩)).call
        (.insertActorBuffered (now vf.seq) vf.seq vf)
    else if vf.seq < seq then
      (r.call (.insertActorBuffered (now vf.seq) vf.seq vf)).call
        (.insertActorBuffered (now seq) seq ⟨seq, data⟩)
    else r.call (.insertActorBuffered (now vf.seq) vf.seq vf)

/-- The worker's loop over a batch, with the clock as it is read at the insertion of each number. A
control that is not accepted drops the rest of the batch. -/
def process (now : Nat → Nat) : Inbound → List VPNFrame → Inbound
  | r, [] => r
  | r, vf :: rest =>
    if vf.seq = 0 then
      match r.onControl (some r.expectedSeq) (some r.expectedSeq) vf.data with
      | none => r
      | some (heard, none) => process now heard rest
      | some (heard, some (seq, data)) =>
        process now ((heard.call (.insertActorBuffered (now seq) seq ⟨seq, data⟩)).call
          .flushActor) rest
    else
      let (counted, out) := r.onData (some r.expectedSeq) vf
      let inserted := counted.insertOriginalAndRecovery now vf out
      -- a run of data frames is flushed as a whole
      if rest.head?.any (fun next => next.seq ≠ 0) then process now inserted rest
      else process now (inserted.call .flushActor) rest

/-! ## Soundness -/

/-- What a receiver hears from the sender of the stream: frames under their numbers, records of
complete groups, and other controls. -/
def Heard (s : Stream) (vf : VPNFrame) : Prop :=
  (vf.seq ≠ 0 → s.Carries (vf.seq, vf.data)) ∧
    (vf.seq = 0 → vf.data.head? = some controlKindFECParity →
      ∃ group, s.Complete group ∧ vf.data = s.record group)

/-- The decoder follows the stream, and the buffer has accepted frames of the stream under their
numbers. -/
structure Sound (s : Stream) (rx : Option InnerCipher) (r : Inbound) : Prop where
  decoder : ∀ d ∈ r.decoder, d.Follows s rx
  within : r.epoch.Within VPNFrame.seq s.count
  accepted : ∀ vf ∈ r.epoch.accepted, s.Carries (vf.seq, vf.data)

/-- The calls that insert frames of the stream under their numbers. -/
def Inserts (s : Stream) : Call VPNFrame → Prop
  | .insert _ seq vf | .insertActorBuffered _ seq vf =>
    seq = vf.seq ∧ s.Carries (vf.seq, vf.data)
  | .flushActor | .expireGapActor _ | .timeoutSkip _ | .reset | .close => True

variable {s : Stream} {rx : Option InnerCipher} {r : Inbound}

theorem inserts_tagged {c : Call VPNFrame} (h : Inserts s c) :
    c.Tagged VPNFrame.seq ∧ ∀ seq ∈ c.seq?, seq ≤ s.count := by
  have hlt := s.count_lt
  have hcase : ∀ {seq : Nat} {vf : VPNFrame}, seq = vf.seq ∧ s.Carries (vf.seq, vf.data) →
      (seq < 2 ^ 32 ∧ vf.seq = seq) ∧ ∀ other ∈ some seq, other ≤ s.count := by
    rintro seq vf ⟨rfl, -, hle, -⟩
    exact ⟨⟨lt_of_le_of_lt hle hlt, rfl⟩, fun other hother => by cases hother; exact hle⟩
  cases c with
  | insert now seq vf | insertActorBuffered now seq vf => exact hcase h
  | flushActor | expireGapActor now | timeoutSkip now | reset | close => exact ⟨trivial, nofun⟩

theorem Sound.call {c : Call VPNFrame} (h : r.Sound s rx)
    (hroom : s.count + reorderMaxWindowSize < 2 ^ 32) (hc : Inserts s c) :
    (r.call c).Sound s rx := by
  obtain ⟨htagged, hcount⟩ := inserts_tagged hc
  unfold Inbound.call
  cases hstep : r.epoch.step c with
  | none => exact h
  | some e =>
    refine ⟨h.decoder, h.within.step hroom htagged hcount hstep, ?_⟩
    intro vf hvf
    rcases Epoch.mem_accepted_step hstep hvf with hold | ⟨now, seq, rfl | rfl⟩
    · exact h.accepted vf hold
    · exact hc.2
    · exact hc.2

theorem Sound.on_data (h : r.Sound s rx) (hpair : CipherPair s.ic rx) (progress : Option Nat)
    {vf : VPNFrame} (hvf : Heard s vf) :
    (r.onData progress vf).1.Sound s rx ∧
      ∀ out, (r.onData progress vf).2 = some out → s.Carries out := by
  have hauth : s.Authentic (.data progress vf.seq vf.data) :=
    fun hseq => ⟨(hvf.1 hseq).2.1, (hvf.1 hseq).2.2⟩
  unfold Inbound.onData
  cases hd : r.decoder with
  | none => exact ⟨h, fun out hout => by cases hout⟩
  | some d =>
    have hfollows := h.decoder d hd
    refine ⟨⟨?_, h.within, h.accepted⟩, fun out hout => hfollows.exact hpair hauth hout⟩
    rintro d' ⟨⟩
    exact hfollows.receive hpair hauth

theorem Sound.on_control (h : r.Sound s rx) (hpair : CipherPair s.ic rx) (before after : Option Nat)
    {vf : VPNFrame} (hvf : Heard s vf) (hseq : vf.seq = 0) {r' : Inbound}
    {out : Option (Nat × Bytes)} (hstep : r.onControl before after vf.data = some (r', out)) :
    r'.Sound s rx ∧ ∀ rec, out = some rec → s.Carries rec := by
  have hauth : s.Authentic (.control before after vf.data) := hvf.2 hseq
  unfold Inbound.onControl at hstep
  cases hd : r.decoder with
  | none =>
    rw [hd] at hstep
    cases hstep
  | some d =>
    have hfollows := h.decoder d hd
    simp only [hd] at hstep
    cases hcontrol : d.onControl before after vf.data with
    | error e =>
      rw [hcontrol] at hstep
      cases hstep
    | ok result =>
      simp only [hcontrol, Option.some.injEq, Prod.mk.injEq] at hstep
      obtain ⟨rfl, rfl⟩ := hstep
      have hreceive : d.receive (.control before after vf.data) = result := by
        simp only [FecDecoder.receive, hcontrol]
      refine ⟨⟨?_, h.within, h.accepted⟩, fun rec hrec => ?_⟩
      · rintro d' ⟨⟩
        rw [← hreceive]
        exact hfollows.receive hpair hauth
      · rw [← hreceive] at hrec
        exact hfollows.exact hpair hauth hrec

section
variable (hroom : s.count + reorderMaxWindowSize < 2 ^ 32)
include hroom

theorem Sound.insert_recovered (h : r.Sound s rx) (now : Nat) {out : Option (Nat × Bytes)}
    (hout : ∀ rec, out = some rec → s.Carries rec) : (r.insertRecovered now out).Sound s rx := by
  cases out with
  | none => exact h
  | some rec => exact h.call hroom ⟨rfl, hout rec rfl⟩

theorem Sound.insert_buffered (h : r.Sound s rx) (now : Nat) {vf : VPNFrame}
    (hvf : s.Carries (vf.seq, vf.data)) :
    (r.call (.insertActorBuffered now vf.seq vf)).Sound s rx :=
  h.call hroom (c := .insertActorBuffered now vf.seq vf) ⟨rfl, hvf⟩

theorem Sound.flush (h : r.Sound s rx) : (r.call .flushActor).Sound s rx :=
  h.call hroom (c := .flushActor) trivial

theorem Sound.insert_original_and_recovery (h : r.Sound s rx) (now : Nat → Nat) {vf : VPNFrame}
    (hvf : s.Carries (vf.seq, vf.data)) {out : Option (Nat × Bytes)}
    (hout : ∀ rec, out = some rec → s.Carries rec) :
    (r.insertOriginalAndRecovery now vf out).Sound s rx := by
  cases out with
  | none => exact h.insert_buffered hroom _ hvf
  | some rec =>
    have hrec : s.Carries ((⟨rec.1, rec.2⟩ : VPNFrame).seq, (⟨rec.1, rec.2⟩ : VPNFrame).data) :=
      hout rec rfl
    unfold insertOriginalAndRecovery
    dsimp only
    split
    · exact (h.insert_buffered hroom _ hrec).insert_buffered hroom _ hvf
    · split
      · exact (h.insert_buffered hroom _ hvf).insert_buffered hroom _ hrec
      · exact h.insert_buffered hroom _ hvf

/-- The worker's loop keeps the receiving end sound. -/
theorem Sound.process (h : r.Sound s rx) (hpair : CipherPair s.ic rx) (now : Nat → Nat)
    {frames : List VPNFrame} (hframes : ∀ vf ∈ frames, Heard s vf) :
    (process now r frames).Sound s rx := by
  induction frames generalizing r with
  | nil => exact h
  | cons vf rest ih =>
    have hvf := hframes vf List.mem_cons_self
    have hrest : ∀ other ∈ rest, Heard s other := fun other hother =>
      hframes other (List.mem_cons_of_mem _ hother)
    unfold Inbound.process
    split
    · rename_i hseq
      split
      · exact h
      · rename_i heard hstep
        exact ih (h.on_control hpair _ _ hvf hseq hstep).1 hrest
      · rename_i heard seq data hstep
        obtain ⟨hheard, hout⟩ := h.on_control hpair _ _ hvf hseq hstep
        have hrec : s.Carries ((⟨seq, data⟩ : VPNFrame).seq, (⟨seq, data⟩ : VPNFrame).data) :=
          hout _ rfl
        exact ih ((hheard.insert_buffered hroom _ hrec).flush hroom) hrest
    · rename_i hseq
      obtain ⟨hcounted, hout⟩ := h.on_data hpair (some r.expectedSeq) hvf
      have hinserted := hcounted.insert_original_and_recovery hroom now (hvf.1 hseq) hout
      dsimp only
      split
      · exact ih hinserted hrest
      · exact ih (hinserted.flush hroom) hrest

end

theorem sound_new (s : Stream) (rx : Option InnerCipher) (k : Nat) (hk : clampFecGroup k = s.k) :
    (new k rx).Sound s rx := by
  refine ⟨?_, Epoch.within_new _ _, fun vf hvf => by cases hvf⟩
  intro d hd
  unfold new at hd
  dsimp only at hd
  obtain ⟨_, rfl⟩ := of_guarded hd
  refine ⟨hk, rfl, fun start g hg => by cases hg⟩

end Inbound

end TlsVpn.Tunnel
