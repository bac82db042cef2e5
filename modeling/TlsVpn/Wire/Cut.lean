import TlsVpn.Wire.Scanner

/-!
# A connection that is cut

A connection can end after any byte: the peer dies, a deadline passes, a socket is closed by a
reconnect. The reader then returns the frames whose records have arrived as a whole, in the order in
which they were written, and the end; a record that was cut, in its header or behind it, is never
taken for a frame or for an invalid length.
-/

namespace TlsVpn.Wire

open Lib Crypto List

/-- The records that are complete within the first `cut` bytes of a stream. -/
def arrived : Nat → List Record → List Record
  | _, [] => []
  | cut, r :: rest =>
    if r.bytes.length ≤ cut then r :: arrived (cut - r.bytes.length) rest else []

/-- Behind the complete records stands nothing, or the front of the next record. -/
theorem take_records (cut : Nat) (records : List Record) :
    ∃ tail, (records.flatMap Record.bytes).take cut =
        (arrived cut records).flatMap Record.bytes ++ tail ∧
      (tail = [] ∨ ∃ r ∈ records, ∃ missing, tail ++ missing = r.bytes ∧ missing ≠ []) := by
  induction records generalizing cut with
  | nil => exact ⟨[], take_nil, .inl rfl⟩
  | cons r rest ih =>
    rw [flatMap_cons, take_append]
    by_cases hwhole : r.bytes.length ≤ cut
    · obtain ⟨tail, htake, htail⟩ := ih (cut - r.bytes.length)
      refine ⟨tail, ?_, htail.imp_right fun ⟨other, hother, hcut⟩ =>
        ⟨other, mem_cons_of_mem _ hother, hcut⟩⟩
      rw [arrived, if_pos hwhole, take_of_length_le hwhole, htake, flatMap_cons,
        append_assoc]
    · have hlt : cut < r.bytes.length := Nat.lt_of_not_le hwhole
      refine ⟨r.bytes.take cut, ?_, .inr ⟨r, mem_cons_self, r.bytes.drop cut, ?_, ?_⟩⟩
      · rw [arrived, if_neg hwhole, Nat.sub_eq_zero_of_le hlt.le, take_zero, append_nil]
        rfl
      · exact take_append_drop cut _
      · exact ne_nil_of_length_pos (by rw [length_drop]; omega)

theorem mem_of_arrived {cut : Nat} {records : List Record} {r : Record}
    (h : r ∈ arrived cut records) : r ∈ records := by
  induction records generalizing cut with
  | nil => exact h
  | cons first rest ih =>
    rw [arrived] at h
    split at h
    · rcases mem_cons.mp h with rfl | hrest
      · exact mem_cons_self
      · exact mem_cons_of_mem _ (ih hrest)
    · cases h

namespace FrameScanner

variable {fs : FrameScanner} {record : Record} {missing : Bytes}

/-- The scanner of a connection that is not cut: the rest of the record is still to come. -/
def uncut (fs : FrameScanner) (missing : Bytes) : FrameScanner :=
  { fs with r := { fs.r with rest := fs.r.rest ++ missing } }

/-- An iteration decides by the bytes that are buffered, and not by those to come. -/
theorem attempt_of_uncut (h : (fs.uncut missing).attempt = none) : fs.attempt = none := by
  unfold attempt at h ⊢
  dsimp only at h ⊢
  split at h
  · rename_i havailable
    rw [if_pos (show fs.buf.length - fs.offset ≥ headerSize from havailable)]
    split at h
    · cases h
    · rename_i hlimit
      rw [if_neg (show ¬ fs.rawDataLen > fs.maxDataLen from hlimit)]
      split at h
      · split at h
        · cases h
        · cases h
      · rename_i hshort
        exact if_neg hshort
  · rename_i havailable
    exact if_neg havailable

/-- The loop reads to the end of a record that was cut, and reports the end. -/
theorem read_loop_cut {fuel : Nat} (hsound : fs.Sound)
    (hcome : fs.toCome ++ missing = record.bytes) (hmissing : missing ≠ []) (hfits : record.Fits)
    (hfuel : fs.r.rest.length < fuel) : ∃ fs', readLoop fuel fs = some (.eof, fs') := by
  induction fuel generalizing fs with
  | zero => omega
  | succ fuel ih =>
    have hshort : fs.unread.length < record.bytes.length := by
      have hpos := length_pos_iff.mpr hmissing
      rw [← hcome, toCome, length_append, length_append]
      omega
    have hwhole : (fs.uncut missing).toCome = record.bytes ++ [] := by
      rw [append_nil, ← hcome, toCome, toCome, append_assoc]
      rfl
    have huncut : (fs.uncut missing).Sound := ⟨hsound.offset_le, hsound.buf_le, hsound.limit⟩
    have hattempt : fs.attempt = none :=
      attempt_of_uncut (attempt_incomplete huncut hwhole hfits hshort)
    obtain ⟨hcompact, hccome, -⟩ := compact_spec hsound
    obtain ⟨required, hrequired⟩ : ∃ required, fs.compact.requiredCap = some required := by
      refine @required_cap_of_record (fs.compact.uncut missing) record []
        ⟨hcompact.offset_le, hcompact.buf_le, hcompact.limit⟩ ?_ hfits
      rw [append_nil, ← hcome, ← hccome, toCome, toCome, append_assoc]
      rfl
    rcases read_loop_step hsound hattempt hrequired fuel with
      ⟨-, fs', hend, -⟩ | ⟨fs', hloop, hsound', hsame, hless, -⟩
    · exact ⟨fs', hend⟩
    · rw [hloop]
      exact ih hsound' (by rw [hsame, hcome]) (by omega)

/-- The calls take the records one by one if they find the end behind them. -/
theorem calls_until {records : List Record} {tail : Bytes} (hsound : fs.Sound)
    (hcome : fs.toCome = records.flatMap Record.bytes ++ tail) (hfits : ∀ r ∈ records, r.Fits)
    (hend : ∀ fs : FrameScanner, fs.Sound → fs.toCome = tail →
      ∃ fs', fs.ReadFrame = some (.eof, fs')) :
    ∃ front last fs', calls (records.length + 1) fs = some (front ++ [last], fs') ∧
      front.map Call.outcome = records.map (fun r => .frame r.payload r.seq) ∧
      last.outcome = .eof := by
  induction records generalizing fs with
  | nil =>
    obtain ⟨fs', hread⟩ := hend fs hsound hcome
    refine ⟨[], ⟨fs.BufferedFrameReady, .eof, fs'.r.calls - fs.r.calls, fs'.lastWireSize⟩, fs',
      ?_, rfl, rfl⟩
    show (fs.ReadFrame.map _).bind _ = _
    rw [hread]
    rfl
  | cons r rest ih =>
    rw [flatMap_cons, append_assoc] at hcome
    obtain ⟨fs₁, hread, hsound₁, hrest, -⟩ := read_loop_record hsound.start hcome
      (hfits r mem_cons_self) (Nat.lt_succ_of_lt (Nat.lt_succ_self _))
    obtain ⟨front, last, fs', hcalls, houtcomes, hlast⟩ :=
      ih hsound₁ hrest fun other hother => hfits other (mem_cons_of_mem _ hother)
    refine ⟨⟨fs.BufferedFrameReady, .frame r.payload r.seq, fs₁.r.calls - fs.r.calls,
      fs₁.lastWireSize⟩ :: front, last, fs', ?_, ?_, hlast⟩
    · have hcall : fs.ReadFrame = some (.frame r.payload r.seq, fs₁) := hread
      show (fs.ReadFrame.map _).bind _ = _
      rw [hcall]
      show (calls (rest.length + 1) fs₁).map _ = _
      rw [hcalls]
      rfl
    · rw [map_cons, houtcomes, map_cons]

end FrameScanner

open FrameScanner in
/-- Whatever was written, wherever the connection is cut and however its bytes are read, the calls
return the frames whose records are complete, in their order, and then the end. -/
theorem cut_stream_read (tx : Option InnerCipher) (hseals : SealsTag tx) (writes : List Write)
    (hfits : ∀ vf ∈ writes.flatMap Write.frames, FrameFits tx vf) (cut : Nat) (size : Nat → Nat)
    (early : Nat → Bool) :
    ∃ records, writes.flatMap (Write.bytes tx) = records.flatMap Record.bytes ∧
      Carry tx records (writes.flatMap Write.frames) ∧
      ∃ front last fs, calls ((arrived cut records).length + 1)
          (.new ⟨(writes.flatMap (Write.bytes tx)).take cut, 0, size, early⟩) =
            some (front ++ [last], fs) ∧
        front.map Call.outcome = (arrived cut records).map (fun r => .frame r.payload r.seq) ∧
        last.outcome = .eof := by
  obtain ⟨records, hstream, hcarry, hrecords⟩ := exists_records hseals writes hfits
  obtain ⟨tail, htake, htail⟩ := take_records cut records
  have hend : ∀ fs : FrameScanner, fs.Sound → fs.toCome = tail →
      ∃ fs', fs.ReadFrame = some (.eof, fs') := by
    intro fs hsound hcome
    rcases htail with rfl | ⟨r, hr, missing, hwhole, hmissing⟩
    · exact read_loop_end hsound.start hcome (Nat.succ_pos _)
    · have hcut : toCome { fs with lastWireSize := 0 } ++ missing = r.bytes := by
        rw [← hwhole, ← hcome]
        rfl
      exact read_loop_cut hsound.start hcut hmissing (hrecords r hr)
        (Nat.lt_succ_of_lt (Nat.lt_succ_self _))
  refine ⟨records, hstream, hcarry, ?_⟩
  rw [hstream, htake]
  exact calls_until ⟨Nat.zero_le _, Nat.zero_le _, rfl⟩ rfl
    (fun r hr => hrecords r (mem_of_arrived hr)) hend

/-- The encrypted batch of two frames is cut behind its first one. -/
theorem cut_batch_read :
    ∃ records, twoWrites.flatMap (Write.bytes (some zeroTag)) = records.flatMap Record.bytes ∧
      Carry (some zeroTag) records (twoWrites.flatMap Write.frames) ∧
      ∃ front last fs, FrameScanner.calls ((arrived 1000 records).length + 1)
          (.new ⟨(twoWrites.flatMap (Write.bytes (some zeroTag))).take 1000, 0, fun _ => 3,
            fun _ => false⟩) = some (front ++ [last], fs) ∧
        front.map FrameScanner.Call.outcome =
          (arrived 1000 records).map (fun r => .frame r.payload r.seq) ∧
        last.outcome = .eof :=
  cut_stream_read (some zeroTag) CipherPair.zeroTag.length_seal twoWrites (by decide +kernel) 1000
    (fun _ => 3) fun _ => false

end TlsVpn.Wire
