import TlsVpn.Fec.Encoder

/-!
# Records on the wire

A frame is sent as a record: a header with the length of the payload, the length of the padding and
the sequence number, then the payload, sealed if the frame has a number and the connection a cipher,
and the padding. A batch of frames is laid out without padding; then the header of its last record
is changed to have the padding that fills up a segment. Single frames are padded to a bucket.

`Write.exists_records` says that every write is a sequence of records with the numbers and the
payloads of its frames.
-/

namespace TlsVpn.Wire

open Lib Crypto Fec List

/-- Two lengths and a number. -/
def headerSize : Nat := 10

/-- The largest region of a frame. -/
def maxWireDataLen : Nat := 65535 * 2

/-- A record: what a reader takes from it, and its padding. -/
structure Record where
  seq : Nat
  payload : Bytes
  pad : Bytes
  deriving DecidableEq, Repr

namespace Record

/-- The two lengths and the number. -/
def header (dataLen padLen seq : Nat) : Bytes :=
  putUint 4 dataLen ++ putUint 2 padLen ++ putUint 4 seq

/-- A record on the wire. -/
def bytes (r : Record) : Bytes := header r.payload.length r.pad.length r.seq ++ r.payload ++ r.pad

/-- The numbers of the header are in the range of their fields. -/
structure Fits (r : Record) : Prop where
  seq_lt : r.seq < 2 ^ 32
  payload_le : r.payload.length ≤ maxWireDataLen
  pad_lt : r.pad.length < 2 ^ 16

@[simp] theorem length_header (dataLen padLen seq : Nat) :
    (header dataLen padLen seq).length = headerSize := by
  simp [header, headerSize]

theorem length_bytes (r : Record) :
    r.bytes.length = headerSize + r.payload.length + r.pad.length := by
  simp [bytes, Nat.add_assoc]

end Record

/-! ## Frames -/

/-- The length of a payload with the tag it gets. -/
def encTag (ic : Option InnerCipher) (vf : VPNFrame) : Nat :=
  if ic.isSome = true ∧ vf.seq ≠ 0 ∧ 0 < vf.data.length then tagLen ic else 0

/-- The payload of a frame on the wire. -/
def wirePayload (ic : Option InnerCipher) (vf : VPNFrame) : Bytes :=
  if 0 < vf.data.length then
    if ic.isSome = true ∧ vf.seq ≠ 0 then
      sealInPlace ic vf.data vf.seq (vf.data.length + encTag ic vf)
    else vf.data
  else []

/-- What a receiver makes of a payload: an empty one is a heartbeat, and one with a number is
opened. -/
def openPayload (ic : Option InnerCipher) (payload : Bytes) (seq : Nat) : Option Bytes :=
  if payload = [] then some []
  else if seq ≠ 0 ∧ ic.isSome = true then openTo ic payload seq payload.length
  else some payload

/-- A cipher that adds its tag to a plaintext. -/
def SealsTag (ic : Option InnerCipher) : Prop :=
  ∀ data seq wireLen, data ≠ [] → (sealInPlace ic data seq wireLen).length = data.length + tagLen ic

theorem length_wire_payload {ic : Option InnerCipher} (hseals : SealsTag ic) (vf : VPNFrame) :
    (wirePayload ic vf).length = vf.data.length + encTag ic vf := by
  unfold wirePayload encTag
  by_cases hdata : 0 < vf.data.length
  · rw [if_pos hdata]
    by_cases hsealed : ic.isSome = true ∧ vf.seq ≠ 0
    · rw [if_pos hsealed, if_pos ⟨hsealed.1, hsealed.2, hdata⟩]
      exact hseals _ _ _ (length_pos_iff.mp hdata)
    · rw [if_neg hsealed, if_neg fun hall => hsealed ⟨hall.1, hall.2.1⟩]
      rfl
  · rw [if_neg hdata, if_neg fun hall => hdata hall.2.2]
    simp only [length_nil]
    omega

/-- A receiver with the other end of the cipher gets the data of a frame. -/
theorem open_wire_payload {tx rx : Option InnerCipher} (hpair : CipherPair tx rx)
    (hends : rx.isSome = tx.isSome) (vf : VPNFrame) :
    openPayload rx (wirePayload tx vf) vf.seq = some vf.data := by
  have hlen := length_wire_payload hpair.length_seal vf
  by_cases hdata : vf.data = []
  · have hempty : wirePayload tx vf = [] := by
      unfold wirePayload
      rw [hdata]
      rfl
    rw [hempty, hdata]
    rfl
  · have hpos : 0 < vf.data.length := length_pos_iff.mpr hdata
    have hne : wirePayload tx vf ≠ [] := by
      intro hempty
      rw [hempty, length_nil] at hlen
      omega
    unfold openPayload
    rw [if_neg hne, hends]
    by_cases hsealed : tx.isSome = true ∧ vf.seq ≠ 0
    · rw [if_pos ⟨hsealed.2, hsealed.1⟩, hlen]
      unfold wirePayload
      rw [if_pos hpos, if_pos hsealed]
      exact hpair.open_seal _ _ _ hdata
    · rw [if_neg fun hall => hsealed ⟨hall.2, hall.1⟩]
      unfold wirePayload
      rw [if_pos hpos, if_neg hsealed]

/-- The record of a frame with some padding. -/
def recordOf (ic : Option InnerCipher) (vf : VPNFrame) (pad : Bytes) : Record :=
  ⟨vf.seq, wirePayload ic vf, pad⟩

/-! ## Batches -/

/-- Appends a record without padding, and tells where it starts. -/
def appendUnpaddedFrame (buf : Bytes) (vf : VPNFrame) (ic : Option InnerCipher) : Bytes × Nat :=
  let wireLen := vf.data.length + encTag ic vf
  (buf ++ Record.header wireLen 0 vf.seq ++ wirePayload ic vf, buf.length)

/-- Appends a batch, and tells where its last record starts. -/
def appendOwnedVPNFrameBatchStream (buf : Bytes) (frames : List VPNFrame)
    (ic : Option InnerCipher) : Bytes × Option Nat :=
  frames.foldl (fun (result : Bytes × Option Nat) vf =>
    let (buf, start) := appendUnpaddedFrame result.1 vf ic
    (buf, some start)) (buf, none)

def maxTLSPlaintextRecord : Int := 16 * 1024
def streamPadRatioPercent : Nat := 10
def streamPadAbsoluteLimit : Nat := 512
def fallbackTCPMSS : Int := 1440
def tlsRecordOverheadReserve : Int := 32

/-- A machine integer of 64 bits. -/
def wrap64 (n : Int) : Int := n.bmod (2 ^ 64)

/-- The length that fills whole segments. -/
def streamAlignedTLSPlaintextTarget (n mss : Int) : Int :=
  if n ≤ 0 then n
  else
    let mss := if mss < 256 then fallbackTCPMSS else mss
    let segs := (wrap64 (n + tlsRecordOverheadReserve + mss - 1)).tdiv mss
    let target := wrap64 (segs * mss - tlsRecordOverheadReserve)
    if target < n ∨ target > maxTLSPlaintextRecord then n else target

/-- What padding may cost. -/
def streamPaddingBudget (batchLen : Nat) : Nat :=
  min (batchLen * streamPadRatioPercent / 100) streamPadAbsoluteLimit

/-- Cover bytes from a place of the random pool. -/
def cover (pool : Nat → UInt8) (padLen : Nat) : Bytes := (List.range padLen).map pool

/-- Changes the padding length of the record that starts at a place. -/
def setPadLen (buf : Bytes) (start padLen : Nat) : Bytes :=
  buf.take (start + 4) ++ putUint 2 padLen ++ buf.drop (start + 6)

/-- Pads the last record of a batch up to the end of a segment, if that is cheap. -/
def padStreamBatchTail (padMode : Bool) (buf : Bytes) (lastFrameStart : Option Nat)
    (recordLimit : Int)
    (pool : Nat → UInt8) : Bytes :=
  match lastFrameStart with
  | none => buf
  | some start =>
    if padMode = false ∨ buf = [] then buf
    else
      let mss := wrap64 (recordLimit + tlsRecordOverheadReserve)
      let padLen := streamAlignedTLSPlaintextTarget buf.length mss - buf.length
      if padLen ≤ 0 ∨ buf.length < start + 10 ∨ padLen > 65535 then buf
      else if padLen > streamPaddingBudget buf.length then buf
      else
        let oldPad := uint ((buf.drop (start + 4)).take 2)
        if oldPad + padLen > 65535 then buf
        else setPadLen buf start (oldPad + padLen.toNat) ++ cover pool padLen.toNat

/-! ## Single frames -/

/-- The sizes of single records. -/
def padBuckets : List Int := [128, 256, 384, 512, 768, 1024, 1280, 1600, 2048, 4096]

/-- The padding to the first bucket that is large enough, where the limit is the last bucket. -/
def padToBucket (recordLen limit : Int) (random : Nat) : List Int → Nat
  | [] => if limit > 0 then 0 else 1 + random % 100
  | b :: rest =>
    let target := if limit > 0 ∧ b > limit then limit else b
    if recordLen < target then (target - recordLen).toNat
    else if limit > 0 ∧ b ≥ limit then 0
    else padToBucket recordLen limit random rest

/-- A record beyond the limit is not padded. -/
def padBucket (wireLen : Nat) (limit : Int) (random : Nat) : Nat :=
  let recordLen : Int := 10 + wireLen
  if limit > 0 ∧ recordLen ≥ limit then 0 else padToBucket recordLen limit random padBuckets

/-- Only in padding mode. -/
def currentPadLength (padMode : Bool) (wireLen : Nat) (recordLimit : Option Int) (random : Nat) :
    Nat :=
  if padMode = false then 0 else padBucket wireLen (recordLimit.getD 0) random

/-- A single frame with its padding. -/
def appendPaddedFrame (padMode : Bool) (buf : Bytes) (vf : VPNFrame) (ic : Option InnerCipher)
    (recordLimit : Option Int) (random : Nat) (pool : Nat → UInt8) : Bytes :=
  let wireLen := vf.data.length + encTag ic vf
  let padLen := currentPadLength padMode wireLen recordLimit random
  buf ++ Record.header wireLen padLen vf.seq ++ wirePayload ic vf ++ cover pool padLen

/-! ## Writes are sequences of records -/

/-- One write to the connection: a batch with a padded tail, or a single padded frame. -/
inductive Write where
  | batch (frames : List VPNFrame) (padMode : Bool) (recordLimit : Int) (pool : Nat → UInt8)
  | single (vf : VPNFrame) (padMode : Bool) (recordLimit : Option Int) (random : Nat)
      (pool : Nat → UInt8)

namespace Write

/-- The frames of a write. -/
def frames : Write → List VPNFrame
  | .batch frames _ _ _ => frames
  | .single vf _ _ _ _ => [vf]

/-- The bytes of a write. -/
def bytes (ic : Option InnerCipher) : Write → Bytes
  | .batch frames padMode recordLimit pool =>
    let (buf, lastFrameStart) := appendOwnedVPNFrameBatchStream [] frames ic
    padStreamBatchTail padMode buf lastFrameStart recordLimit pool
  | .single vf padMode recordLimit random pool =>
    appendPaddedFrame padMode [] vf ic recordLimit random pool

end Write

section

variable {ic : Option InnerCipher}

theorem append_unpadded_frame (hseals : SealsTag ic) (buf : Bytes) (vf : VPNFrame) :
    appendUnpaddedFrame buf vf ic = (buf ++ (recordOf ic vf []).bytes, buf.length) := by
  simp [appendUnpaddedFrame, recordOf, Record.bytes, length_wire_payload hseals]

/-- A batch that is not empty: its last record starts after the others. -/
theorem append_batch (hseals : SealsTag ic) (buf : Bytes) (front : List VPNFrame) (vf : VPNFrame) :
    appendOwnedVPNFrameBatchStream buf (front ++ [vf]) ic =
      (buf ++ front.flatMap (fun vf => (recordOf ic vf []).bytes) ++ (recordOf ic vf []).bytes,
        some (buf ++ front.flatMap fun vf => (recordOf ic vf []).bytes).length) := by
  have hfront : (front.foldl (fun (result : Bytes × Option Nat) vf =>
      let (buf, start) := appendUnpaddedFrame result.1 vf ic
      (buf, some start)) (buf, none)).1 =
        buf ++ front.flatMap fun vf => (recordOf ic vf []).bytes := by
    generalize (none : Option Nat) = last
    induction front generalizing buf last with
    | nil => simp
    | cons head rest ih =>
      rw [foldl_cons, append_unpadded_frame hseals, ih, flatMap_cons, append_assoc]
  unfold appendOwnedVPNFrameBatchStream
  rw [foldl_append, foldl_cons, foldl_nil, append_unpadded_frame hseals, hfront]

theorem length_cover (pool : Nat → UInt8) (padLen : Nat) : (cover pool padLen).length = padLen := by
  simp [cover]

theorem bytes_of_pad_nil {r : Record} (hpad : r.pad = []) :
    r.bytes = putUint 4 r.payload.length ++ (putUint 2 0 ++ (putUint 4 r.seq ++ r.payload)) := by
  simp [Record.bytes, Record.header, hpad]

/-- The padding length in the header of a record is changed in place. -/
theorem set_pad_len (buf : Bytes) (r : Record) (hpad : r.pad = []) (pad : Bytes) :
    setPadLen (buf ++ r.bytes) buf.length pad.length ++ pad = buf ++ { r with pad }.bytes := by
  have htake : (buf ++ r.bytes).take (buf.length + 4) = buf ++ putUint 4 r.payload.length := by
    rw [take_length_add_append, bytes_of_pad_nil hpad, take_left' (length_putUint 4 _)]
  have hdrop : (buf ++ r.bytes).drop (buf.length + 6) = putUint 4 r.seq ++ r.payload := by
    rw [drop_length_add_append, bytes_of_pad_nil hpad, ← append_assoc]
    exact drop_left' (by simp)
  rw [setPadLen, htake, hdrop]
  simp [Record.bytes, Record.header]

/-- The tail of a batch gets padding, or the batch stays as it is. -/
theorem pad_tail (padMode : Bool) (buf : Bytes) (r : Record) (hpad : r.pad = []) (recordLimit : Int)
    (pool : Nat → UInt8) :
    ∃ pad : Bytes, pad.length ≤ streamPadAbsoluteLimit ∧
      padStreamBatchTail padMode (buf ++ r.bytes) (some buf.length) recordLimit pool =
        buf ++ { r with pad }.bytes := by
  have hself : { r with pad := [] } = r := by
    rw [← hpad]
  have hkept : ∃ pad : Bytes, pad.length ≤ streamPadAbsoluteLimit ∧
      buf ++ r.bytes = buf ++ { r with pad }.bytes :=
    ⟨[], Nat.zero_le _, by rw [hself]⟩
  have hold : uint (((buf ++ r.bytes).drop (buf.length + 4)).take 2) = 0 := by
    rw [drop_length_add_append, bytes_of_pad_nil hpad, drop_left' (length_putUint 4 _),
      take_left' (length_putUint 2 _)]
    rfl
  unfold padStreamBatchTail
  dsimp only
  split
  · exact hkept
  · split
    · exact hkept
    · split
      · exact hkept
      · rename_i hbudget
        split
        · exact hkept
        · rw [hold, Nat.zero_add]
          generalize hpadLen : streamAlignedTLSPlaintextTarget _ _ - _ = padLen at hbudget
          refine ⟨cover pool padLen.toNat, ?_, ?_⟩
          · rw [length_cover]
            have hle := Nat.min_le_right ((buf ++ r.bytes).length * streamPadRatioPercent / 100)
              streamPadAbsoluteLimit
            unfold streamPaddingBudget at hbudget
            omega
          · have hset := set_pad_len buf r hpad (cover pool padLen.toNat)
            rwa [length_cover] at hset

theorem pad_to_bucket_lt {recordLen limit : Int} {random : Nat} {buckets : List Int}
    (hlen : 0 ≤ recordLen) (hbuckets : ∀ b ∈ buckets, b ≤ 4096) :
    padToBucket recordLen limit random buckets < 2 ^ 16 := by
  induction buckets with
  | nil =>
    rw [padToBucket]
    split
    · decide
    · omega
  | cons b rest ih =>
    have htarget : (if limit > 0 ∧ b > limit then limit else b) ≤ 4096 := by
      have hb := hbuckets b mem_cons_self
      split
      · omega
      · exact hb
    rw [padToBucket]
    generalize (if limit > 0 ∧ b > limit then limit else b) = target at htarget
    split
    · omega
    · split
      · decide
      · exact ih fun c hc => hbuckets c (mem_cons_of_mem _ hc)

theorem current_pad_length_lt (padMode : Bool) (wireLen : Nat) (recordLimit : Option Int)
    (random : Nat) : currentPadLength padMode wireLen recordLimit random < 2 ^ 16 := by
  unfold currentPadLength padBucket
  split
  · decide
  · dsimp only
    split
    · decide
    · exact pad_to_bucket_lt (by omega) (by decide)

theorem append_padded_frame (hseals : SealsTag ic) (padMode : Bool) (vf : VPNFrame)
    (recordLimit : Option Int) (random : Nat) (pool : Nat → UInt8) :
    appendPaddedFrame padMode [] vf ic recordLimit random pool =
      (recordOf ic vf (cover pool (currentPadLength padMode (vf.data.length + encTag ic vf)
        recordLimit random))).bytes := by
  simp [appendPaddedFrame, recordOf, Record.bytes, length_wire_payload hseals, length_cover]

/-- A frame whose record fits. -/
def FrameFits (ic : Option InnerCipher) (vf : VPNFrame) : Prop :=
  vf.seq < 2 ^ 32 ∧ (wirePayload ic vf).length ≤ maxWireDataLen

instance (ic : Option InnerCipher) (vf : VPNFrame) : Decidable (FrameFits ic vf) :=
  inferInstanceAs (Decidable (_ ∧ _))

/-- Records carry frames: the same numbers and payloads in the same order. -/
def Carry (ic : Option InnerCipher) (records : List Record) (frames : List VPNFrame) : Prop :=
  records.map (fun r => (r.payload, r.seq)) = frames.map fun vf => (wirePayload ic vf, vf.seq)

/-- Only the last record of a batch is padded. -/
theorem Write.exists_records (hseals : SealsTag ic) (w : Write)
    (hfits : ∀ vf ∈ w.frames, FrameFits ic vf) :
    ∃ records : List Record, w.bytes ic = records.flatMap Record.bytes ∧ Carry ic records w.frames ∧
      ∀ r ∈ records, r.Fits := by
  cases w with
  | batch frames padMode recordLimit pool =>
    rcases eq_nil_or_concat frames with rfl | ⟨front, vf, rfl⟩
    · exact ⟨[], rfl, rfl, by nofun⟩
    · rw [concat_eq_append] at hfits ⊢
      obtain ⟨pad, hpad, htail⟩ := pad_tail padMode
        (front.flatMap fun vf => (recordOf ic vf []).bytes) (recordOf ic vf []) rfl recordLimit
          pool
      refine ⟨front.map (fun vf => recordOf ic vf []) ++ [recordOf ic vf pad], ?_, ?_, ?_⟩
      · show padStreamBatchTail padMode
          (appendOwnedVPNFrameBatchStream [] (front ++ [vf]) ic).1
          (appendOwnedVPNFrameBatchStream [] (front ++ [vf]) ic).2 recordLimit pool = _
        rw [append_batch hseals, nil_append, htail, flatMap_append, flatMap_map,
          flatMap_singleton]
        rfl
      · simp [Carry, Write.frames, recordOf]
      · intro r hr
        rcases mem_append.mp hr with hfront | hlast
        · obtain ⟨vf', hvf', rfl⟩ := mem_map.mp hfront
          have hfit := hfits vf' (mem_append_left _ hvf')
          exact ⟨hfit.1, hfit.2, Nat.two_pow_pos 16⟩
        · rw [mem_singleton.mp hlast]
          have hfit := hfits vf (mem_append_right _ mem_cons_self)
          exact ⟨hfit.1, hfit.2, hpad.trans_lt (by decide)⟩
  | single vf padMode recordLimit random pool =>
    refine ⟨[recordOf ic vf (cover pool (currentPadLength padMode
      (vf.data.length + encTag ic vf) recordLimit random))], ?_, rfl, ?_⟩
    · rw [flatMap_singleton]
      exact append_padded_frame hseals padMode vf recordLimit random pool
    · intro r hr
      rw [mem_singleton.mp hr]
      have hfit := hfits vf mem_cons_self
      refine ⟨hfit.1, hfit.2, ?_⟩
      show (cover pool _).length < 2 ^ 16
      rw [length_cover]
      exact current_pad_length_lt padMode _ recordLimit random

/-- A sequence of writes is the sequence of their records. -/
theorem exists_records (hseals : SealsTag ic) (writes : List Write)
    (hfits : ∀ vf ∈ writes.flatMap Write.frames, FrameFits ic vf) :
    ∃ records : List Record, writes.flatMap (Write.bytes ic) = records.flatMap Record.bytes ∧
      Carry ic records (writes.flatMap Write.frames) ∧ ∀ r ∈ records, r.Fits := by
  induction writes with
  | nil => exact ⟨[], rfl, rfl, by nofun⟩
  | cons w rest ih =>
    rw [flatMap_cons] at hfits ⊢
    obtain ⟨first, hfirst, hcarry, hfit⟩ :=
      w.exists_records hseals fun vf hvf => hfits vf (mem_append_left _ hvf)
    obtain ⟨others, hothers, hcarries, hfitting⟩ :=
      ih fun vf hvf => hfits vf (mem_append_right _ hvf)
    refine ⟨first ++ others, ?_, ?_, ?_⟩
    · rw [hfirst, hothers, flatMap_append]
    · unfold Carry at hcarry hcarries ⊢
      rw [map_append, hcarry, hcarries, flatMap_cons, map_append]
    · intro r hr
      exact (mem_append.mp hr).elim (hfit r) (hfitting r)

end

end TlsVpn.Wire
