import TlsVpn.Wire.Record

/-!
# The scanner

A reader takes the records out of the byte stream, however the stream is cut into the pieces that
the socket returns. It reads into a buffer from which it consumes records at an offset, moves the
rest to the front only when the offset is large, and grows the buffer by what a header announces.

What is still to come is the part of the buffer after the offset and what the socket holds. A call
takes one record from it (`read_loop_record`), and `framing_round_trip` puts the calls together.
-/

namespace TlsVpn.Wire

open Lib Crypto Fec List

/-! ## The reader -/

/-- A socket with the bytes to come. Each call returns at least one byte, and the end when there are
none; the sizes of the calls, and whether the end comes with the last bytes, are arbitrary. -/
structure Reader where
  rest : Bytes
  calls : Nat
  size : Nat → Nat
  early : Nat → Bool

namespace Reader

/-- A read into a buffer of some length: the bytes and whether it reports the end. -/
def read (r : Reader) (len : Nat) : (Bytes × Bool) × Reader :=
  if r.rest = [] then (([], true), { r with calls := r.calls + 1 })
  else
    let n := min (max 1 (r.size r.calls)) (min len r.rest.length)
    ((r.rest.take n, r.early r.calls && (r.rest.drop n).isEmpty),
      { r with rest := r.rest.drop n, calls := r.calls + 1 })

theorem read_eq {r : Reader} {len : Nat} (hne : r.rest ≠ []) (hlen : 0 < len) :
    ∃ n eof, 0 < n ∧ n ≤ r.rest.length ∧ n ≤ len ∧ r.read len =
      ((r.rest.take n, eof), { r with rest := r.rest.drop n, calls := r.calls + 1 }) := by
  have hpos := length_pos_iff.mpr hne
  have hread : ∀ n, n = min (max 1 (r.size r.calls)) (min len r.rest.length) →
      r.read len = ((r.rest.take n, r.early r.calls && (r.rest.drop n).isEmpty),
        { r with rest := r.rest.drop n, calls := r.calls + 1 }) := by
    rintro n rfl
    unfold read
    rw [if_neg hne]
  exact ⟨_, _, by omega, by omega, by omega, hread _ rfl⟩

theorem read_end {r : Reader} {len : Nat} (h : r.rest = []) :
    r.read len = (([], true), { r with calls := r.calls + 1 }) := by
  unfold read
  rw [if_pos h]

end Reader

/-! ## The scanner -/

/-- The state of `FrameScanner`. -/
structure FrameScanner where
  r : Reader
  buf : Bytes
  cap : Nat
  offset : Nat
  maxDataLen : Nat
  lastWireSize : Nat

/-- What a call returns: a frame, or one of the two errors. -/
inductive Outcome where
  | frame (data : Bytes) (seq : Nat)
  | invalid (rawDataLen : Nat)
  | eof
  deriving DecidableEq, Repr

namespace FrameScanner

/-- The limit of a frame before authentication. -/
def maxHandshakeDataLen : Nat := 16 * 1024

/-- Nothing has been read. -/
def new (r : Reader) : FrameScanner :=
  { r, buf := [], cap := maxHandshakeDataLen, offset := 0, maxDataLen := maxWireDataLen,
    lastWireSize := 0 }

/-- The bytes that have been read but not consumed. -/
def unread (fs : FrameScanner) : Bytes := fs.buf.drop fs.offset

def rawDataLen (fs : FrameScanner) : Nat := uint (fs.unread.take 4)
def padLen (fs : FrameScanner) : Nat := uint ((fs.unread.drop 4).take 2)
def seq (fs : FrameScanner) : Nat := uint ((fs.unread.drop 6).take 4)

/-- The next call does not read. -/
def BufferedFrameReady (fs : FrameScanner) : Bool :=
  let available := fs.buf.length - fs.offset
  if available < headerSize then false
  else if fs.rawDataLen > fs.maxDataLen then false
  else decide (available ≥ headerSize + fs.rawDataLen + fs.padLen)

/-- The first part of an iteration: a record that is there is consumed. -/
def attempt (fs : FrameScanner) : Option (Outcome × FrameScanner) :=
  let available := fs.buf.length - fs.offset
  if available ≥ headerSize then
    if fs.rawDataLen > fs.maxDataLen then
      some (.invalid fs.rawDataLen, { fs with buf := [], offset := 0 })
    else
      let totalLen := fs.rawDataLen + fs.padLen
      if available ≥ headerSize + totalLen then
        let next := { fs with
          lastWireSize := headerSize + totalLen
          offset := fs.offset + (headerSize + totalLen) }
        if fs.rawDataLen = 0 then some (.frame [] fs.seq, next)
        else some (.frame ((fs.unread.drop headerSize).take fs.rawDataLen) fs.seq, next)
      else none
  else none

/-- The rest of the buffer moves to its front if everything or much before it is consumed. -/
def compact (fs : FrameScanner) : FrameScanner :=
  if fs.offset > 0 ∧ (fs.offset = fs.buf.length ∨ fs.offset > 16384) then
    { fs with buf := fs.unread, offset := 0 }
  else fs

/-- The room that the next read needs, none if the header announces too much. -/
def requiredCap (fs : FrameScanner) : Option Nat :=
  let required := fs.buf.length + 2048
  if fs.buf.length - fs.offset ≥ headerSize then
    if fs.rawDataLen > fs.maxDataLen then none
    else some (max required (fs.offset + headerSize + fs.rawDataLen + fs.padLen))
  else some required

/-- The buffer at least doubles. -/
def grow (fs : FrameScanner) (required : Nat) : FrameScanner :=
  if fs.cap < required then { fs with cap := max (fs.cap * 2) required } else fs

/-- The loop of `ReadFrame`. It reads at least one byte in each iteration, so that the number of
bytes to come bounds the iterations. -/
def readLoop : Nat → FrameScanner → Option (Outcome × FrameScanner)
  | 0, _ => none
  | fuel + 1, fs =>
    match fs.attempt with
    | some result => some result
    | none =>
      let fs := fs.compact
      match fs.requiredCap with
      | none => some (.invalid fs.rawDataLen, { fs with buf := [], offset := 0 })
      | some required =>
        let fs := fs.grow required
        let ((bytes, eof), r) := fs.r.read (fs.cap - fs.buf.length)
        let fs := { fs with r, buf := fs.buf ++ bytes }
        if eof = true ∧ bytes = [] then some (.eof, fs) else readLoop fuel fs

/-- The next frame, or why there is none. -/
def ReadFrame (fs : FrameScanner) : Option (Outcome × FrameScanner) :=
  readLoop (fs.r.rest.length + 2) { fs with lastWireSize := 0 }

/-! ## One record -/

variable {fs fs' : FrameScanner} {record : Record} {rest : Bytes}

/-- What the calls will still see. -/
def toCome (fs : FrameScanner) : Bytes := fs.unread ++ fs.r.rest

/-- The buffer fits its capacity, and the offset the buffer. -/
structure Sound (fs : FrameScanner) : Prop where
  offset_le : fs.offset ≤ fs.buf.length
  buf_le : fs.buf.length ≤ fs.cap
  limit : fs.maxDataLen = maxWireDataLen

theorem Sound.start (h : fs.Sound) : Sound { fs with lastWireSize := 0 } :=
  ⟨h.offset_le, h.buf_le, h.limit⟩

theorem length_unread (fs : FrameScanner) : fs.unread.length = fs.buf.length - fs.offset := by
  simp [unread]

theorem take_unread {n : Nat} (h : n ≤ fs.unread.length) : fs.unread.take n = fs.toCome.take n :=
  (take_append_of_le_length h).symm

/-- The header in the buffer is the one of the record to come. -/
theorem header_eq (hcome : fs.toCome = record.bytes ++ rest) (hfits : record.Fits)
    (havailable : headerSize ≤ fs.unread.length) :
    fs.rawDataLen = record.payload.length ∧ fs.padLen = record.pad.length ∧
      fs.seq = record.seq := by
  have hheader : fs.unread.take headerSize =
      putUint 4 record.payload.length ++ (putUint 2 record.pad.length ++ putUint 4 record.seq) := by
    rw [take_unread havailable, hcome, Record.bytes, append_assoc, append_assoc,
      take_left' (Record.length_header _ _ _), Record.header, append_assoc]
  have hslice : ∀ i n, i + n ≤ headerSize →
      (fs.unread.drop i).take n = ((fs.unread.take headerSize).drop i).take n := by
    intro i n hin
    rw [drop_take, take_take, Nat.min_eq_left (by omega)]
  refine ⟨?_, ?_, ?_⟩
  · show uint ((fs.unread.drop 0).take 4) = _
    rw [hslice 0 4 (by decide), hheader, drop_zero, take_left' (length_putUint 4 _)]
    exact uint_put_uint_of_lt (hfits.payload_le.trans_lt (by decide))
  · show uint ((fs.unread.drop 4).take 2) = _
    rw [hslice 4 2 (by decide), hheader, drop_left' (length_putUint 4 _),
      take_left' (length_putUint 2 _)]
    exact uint_put_uint_of_lt (hfits.pad_lt.trans_eq (by decide))
  · show uint ((fs.unread.drop 6).take 4) = _
    rw [hslice 6 4 (by decide), hheader, ← append_assoc,
      drop_left' (by simp), take_of_length_le (by simp)]
    exact uint_put_uint_of_lt (hfits.seq_lt.trans_eq (by decide))

/-- A complete record is consumed. -/
theorem attempt_complete (hsound : fs.Sound) (hcome : fs.toCome = record.bytes ++ rest)
    (hfits : record.Fits) (hcomplete : record.bytes.length ≤ fs.unread.length) :
    ∃ fs', fs.attempt = some (.frame record.payload record.seq, fs') ∧ fs'.Sound ∧
      fs'.toCome = rest ∧ fs'.r = fs.r ∧ fs'.lastWireSize = record.bytes.length := by
  have hlen := record.length_bytes
  have hunread := length_unread fs
  obtain ⟨hdata, hpad, hseq⟩ := header_eq hcome hfits (by omega)
  have hbytes : fs.unread.take record.bytes.length = record.bytes := by
    rw [take_unread hcomplete, hcome, take_left]
  have hpayload : (fs.unread.drop headerSize).take record.payload.length = record.payload := by
    have hslice : (fs.unread.drop headerSize).take record.payload.length =
        ((fs.unread.take record.bytes.length).drop headerSize).take record.payload.length := by
      rw [drop_take, take_take, Nat.min_eq_left (by omega)]
    rw [hslice, hbytes, Record.bytes, append_assoc,
      drop_left' (Record.length_header _ _ _), take_left]
  have hrest : fs.unread.drop record.bytes.length ++ fs.r.rest = rest := by
    have hdrop : fs.toCome.drop record.bytes.length = rest := by
      rw [hcome, drop_left]
    rwa [toCome, drop_append_of_le_length hcomplete] at hdrop
  have htotal : headerSize + (fs.rawDataLen + fs.padLen) = record.bytes.length := by
    rw [hdata, hpad, hlen, Nat.add_assoc]
  have hlimit : ¬ fs.rawDataLen > fs.maxDataLen := by
    rw [hdata, hsound.limit]
    exact Nat.not_lt.mpr hfits.payload_le
  refine ⟨{ fs with
    lastWireSize := headerSize + (fs.rawDataLen + fs.padLen)
    offset := fs.offset + (headerSize + (fs.rawDataLen + fs.padLen)) }, ?_, ?_, ?_, rfl, htotal⟩
  · unfold attempt
    dsimp only
    rw [if_pos (show fs.buf.length - fs.offset ≥ headerSize by omega), if_neg hlimit,
      if_pos (show fs.buf.length - fs.offset ≥ headerSize + (fs.rawDataLen + fs.padLen) by omega)]
    split
    · rename_i hzero
      have hempty : record.payload = [] := eq_nil_of_length_eq_zero (hdata.symm.trans hzero)
      rw [hempty, hseq]
    · rw [hdata, hpayload, hseq]
  · have hle := hsound.offset_le
    exact ⟨show fs.offset + (headerSize + (fs.rawDataLen + fs.padLen)) ≤ fs.buf.length by omega,
      hsound.buf_le, hsound.limit⟩
  · show fs.buf.drop (fs.offset + (headerSize + (fs.rawDataLen + fs.padLen))) ++ fs.r.rest = rest
    rw [htotal, ← drop_drop]
    exact hrest

/-- A record that is not complete is left. -/
theorem attempt_incomplete (hsound : fs.Sound) (hcome : fs.toCome = record.bytes ++ rest)
    (hfits : record.Fits) (hshort : fs.unread.length < record.bytes.length) :
    fs.attempt = none := by
  have hlen := record.length_bytes
  have hunread := length_unread fs
  unfold attempt
  dsimp only
  split
  · obtain ⟨hdata, hpad, -⟩ := header_eq hcome hfits (by omega)
    have hlimit : ¬ fs.rawDataLen > fs.maxDataLen := by
      rw [hdata, hsound.limit]
      exact Nat.not_lt.mpr hfits.payload_le
    rw [if_neg hlimit, if_neg (by omega)]
  · rfl

/-! ## The buffer -/

theorem compact_spec (hsound : fs.Sound) :
    fs.compact.Sound ∧ fs.compact.toCome = fs.toCome ∧ fs.compact.r = fs.r ∧
      fs.compact.unread = fs.unread := by
  unfold compact
  split
  · have hunread : ({ fs with buf := fs.unread, offset := 0 } : FrameScanner).unread = fs.unread :=
      drop_zero
    refine ⟨⟨Nat.zero_le _, ?_, hsound.limit⟩, ?_, rfl, hunread⟩
    · show fs.unread.length ≤ fs.cap
      rw [length_unread]
      exact (Nat.sub_le _ _).trans hsound.buf_le
    · rw [toCome, hunread, toCome]
  · exact ⟨hsound, rfl, rfl, rfl⟩

variable {required : Nat}

theorem grow_spec (hsound : fs.Sound) (hroom : fs.buf.length < required) :
    (fs.grow required).Sound ∧ (fs.grow required).toCome = fs.toCome ∧ (fs.grow required).r = fs.r ∧
      (fs.grow required).unread = fs.unread ∧
        0 < (fs.grow required).cap - (fs.grow required).buf.length := by
  unfold grow
  split
  · refine ⟨⟨hsound.offset_le, ?_, hsound.limit⟩, rfl, rfl, rfl, ?_⟩
    · show fs.buf.length ≤ max (fs.cap * 2) required
      omega
    · show 0 < max (fs.cap * 2) required - fs.buf.length
      omega
  · exact ⟨hsound, rfl, rfl, rfl, by omega⟩

/-- There is room for the next read, unless the header of the record is invalid. -/
theorem required_cap_lt (h : fs.requiredCap = some required) : fs.buf.length < required := by
  unfold requiredCap at h
  dsimp only at h
  split at h
  · split at h
    · cases h
    · cases h
      omega
  · cases h
    omega

/-! ## The loop -/

/-- An iteration without a complete record reads some of the bytes to come, or finds the end. -/
theorem read_loop_step (hsound : fs.Sound) (hattempt : fs.attempt = none)
    (hrequired : fs.compact.requiredCap = some required) (fuel : Nat) :
    (fs.r.rest = [] ∧ ∃ fs', readLoop (fuel + 1) fs = some (.eof, fs') ∧
      fs'.r.calls = fs.r.calls + 1) ∨
    ∃ fs', readLoop (fuel + 1) fs = readLoop fuel fs' ∧ fs'.Sound ∧ fs'.toCome = fs.toCome ∧
      fs'.r.rest.length < fs.r.rest.length ∧ fs'.r.calls = fs.r.calls + 1 := by
  obtain ⟨hcompact, hcome, hr, -⟩ := compact_spec hsound
  obtain ⟨hgrown, hgcome, hgr, -, hroom⟩ := grow_spec hcompact (required_cap_lt hrequired)
  have hloop : readLoop (fuel + 1) fs =
      let grown := fs.compact.grow required
      let ((bytes, eof), r) := grown.r.read (grown.cap - grown.buf.length)
      let next := { grown with r, buf := grown.buf ++ bytes }
      if eof = true ∧ bytes = [] then some (.eof, next) else readLoop fuel next := by
    rw [readLoop, hattempt]
    dsimp only
    rw [hrequired]
  have hreader : (fs.compact.grow required).r = fs.r := hgr.trans hr
  by_cases hend : fs.r.rest = []
  · left
    refine ⟨hend, ?_⟩
    rw [hloop]
    dsimp only
    rw [Reader.read_end (hreader ▸ hend), if_pos ⟨rfl, rfl⟩]
    exact ⟨_, rfl, by rw [hreader]⟩
  · right
    obtain ⟨n, eof, hpos, hle, hfit, hread⟩ := Reader.read_eq (hreader ▸ hend) hroom
    have hne : ¬ (eof = true ∧ (fs.compact.grow required).r.rest.take n = []) := by
      rintro ⟨-, hnil⟩
      have hlen := congrArg List.length hnil
      rw [length_take, length_nil] at hlen
      omega
    rw [hloop]
    dsimp only
    rw [hread]
    dsimp only
    rw [if_neg hne]
    refine ⟨_, rfl, ⟨?_, ?_, hgrown.limit⟩, ?_, ?_, ?_⟩
    · show (fs.compact.grow required).offset ≤ (_ ++ _ : Bytes).length
      rw [length_append]
      exact hgrown.offset_le.trans (Nat.le_add_right _ _)
    · show (_ ++ _ : Bytes).length ≤ (fs.compact.grow required).cap
      rw [length_append, length_take]
      omega
    · show (_ ++ _ : Bytes).drop (fs.compact.grow required).offset ++ _ = fs.toCome
      rw [drop_append_of_le_length hgrown.offset_le, append_assoc, take_append_drop]
      exact hgcome.trans hcome
    · show ((fs.compact.grow required).r.rest.drop n).length < _
      rw [length_drop, hreader]
      rw [hreader] at hle
      omega
    · show (fs.compact.grow required).r.calls + 1 = _
      rw [hreader]

/-- The header of a record that fits does not stop the reading. -/
theorem required_cap_of_record (hsound : fs.Sound) (hcome : fs.toCome = record.bytes ++ rest)
    (hfits : record.Fits) : ∃ required, fs.requiredCap = some required := by
  unfold requiredCap
  dsimp only
  split
  · rename_i havailable
    obtain ⟨hdata, -⟩ := header_eq hcome hfits (by rw [length_unread]; exact havailable)
    have hlimit : ¬ fs.rawDataLen > fs.maxDataLen := by
      rw [hdata, hsound.limit]
      exact Nat.not_lt.mpr hfits.payload_le
    rw [if_neg hlimit]
    exact ⟨_, rfl⟩
  · exact ⟨_, rfl⟩

variable {fuel : Nat}

/-- The loop takes the record to come. -/
theorem read_loop_record (hsound : fs.Sound) (hcome : fs.toCome = record.bytes ++ rest)
    (hfits : record.Fits) (hfuel : fs.r.rest.length < fuel) :
    ∃ fs', readLoop fuel fs = some (.frame record.payload record.seq, fs') ∧ fs'.Sound ∧
      fs'.toCome = rest ∧ fs'.lastWireSize = record.bytes.length := by
  induction fuel generalizing fs with
  | zero => omega
  | succ fuel ih =>
    by_cases hcomplete : record.bytes.length ≤ fs.unread.length
    · obtain ⟨fs', hattempt, hsound', hrest, -, hsize⟩ :=
        attempt_complete hsound hcome hfits hcomplete
      refine ⟨fs', ?_, hsound', hrest, hsize⟩
      rw [readLoop, hattempt]
    · have hattempt := attempt_incomplete hsound hcome hfits (Nat.lt_of_not_le hcomplete)
      obtain ⟨hcompact, hccome, -⟩ := compact_spec hsound
      obtain ⟨required, hrequired⟩ :=
        required_cap_of_record hcompact (hccome.trans hcome) hfits
      rcases read_loop_step hsound hattempt hrequired fuel with
        ⟨hend, -⟩ | ⟨fs', hloop, hsound', hsame, hless, -⟩
      · -- the record would be in the buffer
        exfalso
        have hlen := congrArg List.length hcome
        rw [toCome, hend, append_nil, length_append] at hlen
        omega
      · rw [hloop]
        exact ih hsound' (hsame.trans hcome) (by omega)

/-- At the end of the stream the loop reports the end. -/
theorem read_loop_end (hsound : fs.Sound) (hcome : fs.toCome = []) (hfuel : 0 < fuel) :
    ∃ fs', readLoop fuel fs = some (.eof, fs') := by
  obtain ⟨hunread, hrest⟩ := append_eq_nil_iff.mp hcome
  have hempty : ¬ fs.buf.length - fs.offset ≥ headerSize := by
    rw [← length_unread, hunread]
    decide
  have hattempt : fs.attempt = none := by
    unfold attempt
    dsimp only
    rw [if_neg hempty]
  obtain ⟨-, -, -, hcunread⟩ := compact_spec hsound
  have hrequired : fs.compact.requiredCap = some (fs.compact.buf.length + 2048) := by
    unfold requiredCap
    dsimp only
    rw [if_neg]
    rw [← length_unread, hcunread, hunread]
    decide
  obtain ⟨fuel, rfl⟩ := Nat.exists_eq_succ_of_ne_zero (Nat.pos_iff_ne_zero.mp hfuel)
  rcases read_loop_step hsound hattempt hrequired fuel with
    ⟨-, fs', hloop, -⟩ | ⟨fs', -, -, -, hless, -⟩
  · exact ⟨fs', hloop⟩
  · rw [hrest] at hless
    cases hless

/-! ## Whether a record is buffered -/

/-- The buffer is ready if the first attempt finds a record. -/
theorem ready_attempt (fs : FrameScanner) :
    if fs.BufferedFrameReady = true then
      ∃ data seq fs', fs.attempt = some (.frame data seq, fs') ∧ fs'.r = fs.r
    else fs.attempt = none ∨
      ∃ fs', fs.attempt = some (.invalid fs.rawDataLen, fs') ∧ fs'.r = fs.r := by
  unfold BufferedFrameReady attempt
  dsimp only
  by_cases havailable : fs.buf.length - fs.offset < headerSize
  · rw [if_pos havailable, if_neg (Nat.not_le.mpr havailable)]
    exact .inl rfl
  · rw [if_neg havailable, if_pos (Nat.not_lt.mp havailable)]
    by_cases hlimit : fs.rawDataLen > fs.maxDataLen
    · rw [if_pos hlimit, if_pos hlimit]
      exact .inr ⟨_, rfl, rfl⟩
    · rw [if_neg hlimit, if_neg hlimit, Nat.add_assoc]
      by_cases hcomplete : fs.buf.length - fs.offset ≥ headerSize + (fs.rawDataLen + fs.padLen)
      · rw [if_pos (decide_eq_true hcomplete), if_pos hcomplete]
        split
        · exact ⟨_, _, _, rfl, rfl⟩
        · exact ⟨_, _, _, rfl, rfl⟩
      · rw [if_neg (by simpa using hcomplete), if_neg hcomplete]
        exact .inl rfl

/-- A loop that does not find a record at once reads, or fails without reading. -/
theorem read_loop_calls {outcome : Outcome} (hsound : fs.Sound)
    (hloop : readLoop fuel fs = some (outcome, fs')) : fs.r.calls ≤ fs'.r.calls := by
  induction fuel generalizing fs with
  | zero => cases hloop
  | succ fuel ih =>
    cases hattempt : fs.attempt with
    | some result =>
      rw [readLoop, hattempt] at hloop
      cases hloop
      have hready := ready_attempt fs
      split at hready
      · obtain ⟨_, _, _, hfound, hr⟩ := hready
        cases hattempt.symm.trans hfound
        rw [hr]
      · rcases hready with hnone | ⟨_, hinvalid, hr⟩
        · cases hattempt.symm.trans hnone
        · cases hattempt.symm.trans hinvalid
          rw [hr]
    | none =>
      cases hrequired : fs.compact.requiredCap with
      | none =>
        rw [readLoop, hattempt] at hloop
        dsimp only at hloop
        rw [hrequired] at hloop
        cases hloop
        rw [(compact_spec hsound).2.2.1]
      | some required =>
        rcases read_loop_step hsound hattempt hrequired fuel with
          ⟨-, fs₁, hend, hcalls⟩ | ⟨fs₁, hnext, hsound₁, -, -, hcalls⟩
        · cases hloop.symm.trans hend
          omega
        · have hle := ih hsound₁ (hnext.symm.trans hloop)
          omega

/-- The buffer is ready exactly when the call succeeds without a read. -/
theorem ready_iff {outcome : Outcome} (hsound : fs.Sound)
    (hread : fs.ReadFrame = some (outcome, fs')) :
    fs.BufferedFrameReady = true ↔
      (∃ data seq, outcome = .frame data seq) ∧ fs'.r.calls = fs.r.calls := by
  have hready := ready_attempt { fs with lastWireSize := 0 }
  have hsame : BufferedFrameReady { fs with lastWireSize := 0 } = fs.BufferedFrameReady := rfl
  rw [hsame] at hready
  unfold ReadFrame at hread
  by_cases hbuffered : fs.BufferedFrameReady = true
  · rw [if_pos hbuffered] at hready
    obtain ⟨data, seq, fs₁, hattempt, hr⟩ := hready
    rw [readLoop, hattempt] at hread
    cases hread
    exact ⟨fun _ => ⟨⟨data, seq, rfl⟩, by rw [hr]⟩, fun _ => hbuffered⟩
  · rw [if_neg hbuffered] at hready
    refine ⟨fun hyes => absurd hyes hbuffered, ?_⟩
    rintro ⟨⟨data, seq, rfl⟩, hcalls⟩
    exfalso
    rcases hready with hnone | ⟨fs₁, hinvalid, -⟩
    · cases hrequired : (compact { fs with lastWireSize := 0 }).requiredCap with
      | none =>
        rw [readLoop, hnone] at hread
        dsimp only at hread
        rw [hrequired] at hread
        cases hread
      | some required =>
        rcases read_loop_step hsound.start hnone hrequired (fs.r.rest.length + 1) with
          ⟨-, fs₁, hend, -⟩ | ⟨fs₁, hnext, hsound₁, -, -, hone⟩
        · cases hread.symm.trans hend
        · have hle := read_loop_calls hsound₁ (hnext.symm.trans hread)
          have hstart : fs₁.r.calls = fs.r.calls + 1 := hone
          omega
    · rw [readLoop, hinvalid] at hread
      cases hread

/-! ## Calls -/

/-- A call with what its caller can see: whether the buffer was ready, the outcome, the reads that
it made and the size of the record. -/
structure Call where
  ready : Bool
  outcome : Outcome
  reads : Nat
  wireSize : Nat
  deriving DecidableEq, Repr

/-- A call of `ReadFrame`. -/
def call (fs : FrameScanner) : Option (Call × FrameScanner) :=
  fs.ReadFrame.map fun (outcome, fs') =>
    (⟨fs.BufferedFrameReady, outcome, fs'.r.calls - fs.r.calls, fs'.lastWireSize⟩, fs')

/-- A number of calls. -/
def calls : Nat → FrameScanner → Option (List Call × FrameScanner)
  | 0, fs => some ([], fs)
  | n + 1, fs =>
    fs.call.bind fun (c, fs) => (calls n fs).map fun (cs, fs) => (c :: cs, fs)

/-- The readiness of the buffer told whether the call would succeed without a read. -/
def Call.ReadyExact (c : Call) : Prop :=
  c.ready = true ↔ (∃ data seq, c.outcome = .frame data seq) ∧ c.reads = 0

theorem call_ready_exact {c : Call} (hsound : fs.Sound) (hcall : fs.call = some (c, fs')) :
    c.ReadyExact := by
  obtain ⟨⟨outcome, fs₁⟩, hread, hpair⟩ := Option.map_eq_some_iff.mp hcall
  cases hpair
  have hcalls := read_loop_calls hsound.start hread
  have hle : fs.r.calls ≤ fs'.r.calls := hcalls
  have hexact := ready_iff hsound hread
  have hreads : fs'.r.calls - fs.r.calls = 0 ↔ fs'.r.calls = fs.r.calls := by omega
  unfold Call.ReadyExact
  rw [hexact, hreads]

/-- The calls take the records to come one by one, and then find the end. -/
theorem calls_records {records : List Record} (hsound : fs.Sound)
    (hcome : fs.toCome = records.flatMap Record.bytes) (hfits : ∀ r ∈ records, r.Fits) :
    ∃ front last fs', calls (records.length + 1) fs = some (front ++ [last], fs') ∧
      front.map Call.outcome = records.map (fun r => .frame r.payload r.seq) ∧
      last.outcome = .eof ∧
      (front.map Call.wireSize).sum = (records.flatMap Record.bytes).length ∧
      ∀ c ∈ front ++ [last], c.ReadyExact := by
  induction records generalizing fs with
  | nil =>
    obtain ⟨fs', hread⟩ := read_loop_end hsound.start hcome (Nat.succ_pos _)
    have hcall : fs.call = some (⟨fs.BufferedFrameReady, .eof, fs'.r.calls - fs.r.calls,
        fs'.lastWireSize⟩, fs') :=
      Option.map_eq_some_iff.mpr ⟨_, hread, rfl⟩
    refine ⟨[], ⟨fs.BufferedFrameReady, .eof, fs'.r.calls - fs.r.calls, fs'.lastWireSize⟩, fs',
      ?_,
      rfl, rfl, rfl, ?_⟩
    · show fs.call.bind _ = _
      rw [hcall]
      rfl
    · intro c hc
      rw [nil_append, mem_singleton] at hc
      rw [hc]
      exact call_ready_exact hsound hcall
  | cons r rest ih =>
    rw [flatMap_cons] at hcome
    obtain ⟨fs₁, hread, hsound₁, hrest, hsize⟩ := read_loop_record hsound.start hcome
      (hfits r mem_cons_self) (Nat.lt_succ_of_lt (Nat.lt_succ_self _))
    have hcall : fs.call = some (⟨fs.BufferedFrameReady, .frame r.payload r.seq,
        fs₁.r.calls - fs.r.calls, fs₁.lastWireSize⟩, fs₁) :=
      Option.map_eq_some_iff.mpr ⟨_, hread, rfl⟩
    obtain ⟨front, last, fs', hcalls, houtcomes, hend, hsum, hready⟩ :=
      ih hsound₁ hrest fun r' hr' => hfits r' (mem_cons_of_mem _ hr')
    refine ⟨⟨fs.BufferedFrameReady, .frame r.payload r.seq, fs₁.r.calls - fs.r.calls,
      fs₁.lastWireSize⟩ :: front, last, fs', ?_, ?_, hend, ?_, ?_⟩
    · show fs.call.bind _ = _
      rw [hcall]
      show (calls (rest.length + 1) fs₁).map _ = _
      rw [hcalls]
      rfl
    · rw [map_cons, houtcomes, map_cons]
    · rw [map_cons, sum_cons, hsum, flatMap_cons, length_append, hsize]
    · intro c hc
      rcases mem_cons.mp hc with rfl | hmem
      · exact call_ready_exact hsound hcall
      · exact hready c hmem

end FrameScanner

/-! ## The round trip -/

open FrameScanner in
/-- What the calls of a reader return for frames that were written as a stream. -/
structure RoundTrip (tx : Option InnerCipher) (frames : List VPNFrame) (stream : Bytes)
    (front : List Call) (last : Call) : Prop where
  outcomes : front.map Call.outcome = frames.map fun vf => .frame (wirePayload tx vf) vf.seq
  ending : last.outcome = .eof
  sizes : (front.map Call.wireSize).sum = stream.length
  ready : ∀ c ∈ front ++ [last], c.ReadyExact
  opened : ∀ rx, CipherPair tx rx → rx.isSome = tx.isSome → ∀ vf ∈ frames, vf.seq ≠ 0 →
    openPayload rx (wirePayload tx vf) vf.seq = some vf.data

/-- Whatever the writes and however the stream is cut, the calls return the frames that were
written, and then the end. -/
theorem framing_round_trip (tx : Option InnerCipher) (hseals : SealsTag tx) (writes : List Write)
    (hfits : ∀ vf ∈ writes.flatMap Write.frames, FrameFits tx vf) (size : Nat → Nat)
    (early : Nat → Bool) :
    ∃ front last fs, FrameScanner.calls ((writes.flatMap Write.frames).length + 1)
        (.new ⟨writes.flatMap (Write.bytes tx), 0, size, early⟩) = some (front ++ [last], fs) ∧
      RoundTrip tx (writes.flatMap Write.frames) (writes.flatMap (Write.bytes tx)) front last := by
  obtain ⟨records, hstream, hcarry, hrecords⟩ := exists_records hseals writes hfits
  have hlen : records.length = (writes.flatMap Write.frames).length := by
    have hmap := congrArg List.length hcarry
    rwa [length_map, length_map] at hmap
  have hsound : (FrameScanner.new ⟨records.flatMap Record.bytes, 0, size, early⟩).Sound :=
    ⟨Nat.zero_le _, Nat.zero_le _, rfl⟩
  rw [hstream, ← hlen]
  obtain ⟨front, last, fs, hcalls, houtcomes, hending, hsizes, hready⟩ :=
    FrameScanner.calls_records hsound rfl hrecords
  refine ⟨front, last, fs, hcalls, ?_, hending, hsizes, hready, ?_⟩
  · have hframes := congrArg (List.map fun (x : Bytes × Nat) => Outcome.frame x.1 x.2) hcarry
    rw [map_map, map_map] at hframes
    exact houtcomes.trans hframes
  · intro rx hpair hends vf _ _
    exact open_wire_payload hpair hends vf

/-- A batch of two frames that is padded to a segment, and a heartbeat. -/
def twoWrites : List Write :=
  [.batch [⟨1, List.replicate 900 7⟩, ⟨2, List.replicate 400 8⟩] true 1408 (fun _ => 0),
    .single ⟨0, []⟩ true (some 1408) 0 fun _ => 0]

/-- The encrypted stream of the writes, returned three bytes at a time. The receiver opens what the
calls return. -/
theorem two_writes_round_trip :
    ∃ front last fs, FrameScanner.calls ((twoWrites.flatMap Write.frames).length + 1)
        (.new ⟨twoWrites.flatMap (Write.bytes (some zeroTag)), 0, fun _ => 3, fun _ => false⟩) =
          some (front ++ [last], fs) ∧
      (twoWrites.flatMap (Write.bytes (some zeroTag))).length = 1408 + 128 ∧
      RoundTrip (some zeroTag) (twoWrites.flatMap Write.frames)
        (twoWrites.flatMap (Write.bytes (some zeroTag))) front last ∧
      (twoWrites.flatMap Write.frames).all (fun vf => vf.seq = 0 ∨
        openPayload (some zeroTag) (wirePayload (some zeroTag) vf) vf.seq = some vf.data) := by
  obtain ⟨front, last, fs, hcalls, htrip⟩ := framing_round_trip (some zeroTag)
    CipherPair.zeroTag.length_seal twoWrites (by decide +kernel) (fun _ => 3) fun _ => false
  refine ⟨front, last, fs, hcalls, by decide +kernel, htrip, all_eq_true.mpr fun vf hvf => ?_⟩
  have hopened := htrip.opened (some zeroTag) CipherPair.zeroTag rfl vf hvf
  exact decide_eq_true (Classical.or_iff_not_imp_left.mpr hopened)

end TlsVpn.Wire
