import TlsVpn.Lib.Run
import TlsVpn.Wire.Scanner

/-!
# What an unauthenticated peer can make the scanner hold

Before the handshake the scanner accepts only small payloads, so that a header cannot make it
reserve much. `Visits` are the states of a call from iteration to iteration, and
`handshake_cap_bounded` says for which streams the capacity stays within twice the limit however the
stream is cut: the limit is checked against the payload only, and the padding that the header
announces counts for the capacity as well (`padding_exceeds_cap`).
-/

namespace TlsVpn.Wire

open Lib List

namespace FrameScanner

/-- `SetMaxDataLen`. -/
def setMaxDataLen (fs : FrameScanner) (n : Nat) : FrameScanner := { fs with maxDataLen := n }

/-- One iteration of the loop: it returns, or goes on with another scanner. -/
def readStep (fs : FrameScanner) : FrameScanner ⊕ Outcome × FrameScanner :=
  match fs.attempt with
  | some result => .inr result
  | none =>
    let fs := fs.compact
    match fs.requiredCap with
    | none => .inr (.invalid fs.rawDataLen, { fs with buf := [], offset := 0 })
    | some required =>
      let fs := fs.grow required
      let ((bytes, eof), r) := fs.r.read (fs.cap - fs.buf.length)
      let fs := { fs with r, buf := fs.buf ++ bytes }
      if eof = true ∧ bytes = [] then .inr (.eof, fs) else .inl fs

/-- The loop takes one iteration after another. -/
theorem read_loop_succ (fuel : Nat) (fs : FrameScanner) :
    readLoop (fuel + 1) fs =
      match fs.readStep with
      | .inl next => readLoop fuel next
      | .inr result => some result := by
  rw [readLoop, readStep]
  cases fs.attempt with
  | some result => rfl
  | none =>
    dsimp only
    cases fs.compact.requiredCap with
    | none => rfl
    | some required =>
      dsimp only
      split
      · rfl
      · rfl

/-- The states at the start of an iteration. -/
inductive Iterates (fs : FrameScanner) : FrameScanner → Prop where
  | start : Iterates fs fs
  | next {current next : FrameScanner} (hbefore : Iterates fs current)
      (hstep : current.readStep = .inl next) : Iterates fs next

/-- The states of a call: at the start of each iteration, and when it returns. -/
def Visits (fs fs' : FrameScanner) : Prop :=
  Iterates fs fs' ∨ ∃ current outcome, Iterates fs current ∧
    current.readStep = .inr (outcome, fs')

/-- The scanner that a call leaves is one of its states. -/
theorem visits_read_loop {fuel : Nat} {start fs fs' : FrameScanner} {outcome : Outcome}
    (hbefore : Iterates start fs) (h : readLoop fuel fs = some (outcome, fs')) :
    Visits start fs' := by
  induction fuel generalizing fs with
  | zero => cases h
  | succ fuel ih =>
    rw [read_loop_succ] at h
    cases hstep : fs.readStep with
    | inl next =>
      rw [hstep] at h
      exact ih (.next hbefore hstep) h
    | inr result =>
      rw [hstep] at h
      cases h
      exact .inr ⟨fs, outcome, hbefore, hstep⟩

theorem visits_read_frame {fs fs' : FrameScanner} {outcome : Outcome}
    (h : fs.ReadFrame = some (outcome, fs')) : Visits { fs with lastWireSize := 0 } fs' :=
  visits_read_loop .start h

/-! ## The first frame -/

/-- The scanner of a connection that is not authenticated. -/
def handshake (stream : Bytes) (size : Nat → Nat) (early : Nat → Bool) : FrameScanner :=
  (new ⟨stream, 0, size, early⟩).setMaxDataLen maxHandshakeDataLen

/-- The payload that the first header of a stream announces. -/
def announcedData (stream : Bytes) : Nat := uint (stream.take 4)

/-- The length of the record that the first header of a stream announces. -/
def announced (stream : Bytes) : Nat :=
  headerSize + announcedData stream + uint ((stream.drop 4).take 2)

/-- The stream has no complete header or one that is rejected, or the record it announces leaves
room for a further read of 2048 bytes until it is complete. -/
def Modest (stream : Bytes) : Prop :=
  stream.length < headerSize ∨ maxHandshakeDataLen < announcedData stream ∨
    announced stream ≤ 2 * maxHandshakeDataLen ∧
      min (announced stream - 1) stream.length + 2048 ≤ 2 * maxHandshakeDataLen

instance (stream : Bytes) : Decidable (Modest stream) := inferInstanceAs (Decidable (_ ∨ _))

/-- A scanner at the start of an iteration of the first call. -/
structure First (stream : Bytes) (fs : FrameScanner) : Prop where
  offset_eq : fs.offset = 0
  limit : fs.maxDataLen = maxHandshakeDataLen
  stream_eq : fs.buf ++ fs.r.rest = stream
  buf_le : fs.buf.length ≤ fs.cap

variable {stream : Bytes} {fs fs' : FrameScanner} {required : Nat}

theorem first_handshake (stream : Bytes) (size : Nat → Nat) (early : Nat → Bool) :
    First stream (handshake stream size early) :=
  ⟨rfl, rfl, rfl, Nat.zero_le _⟩

namespace First

theorem compact_eq (h : First stream fs) : fs.compact = fs := by
  unfold compact
  rw [if_neg]
  rintro ⟨hpos, -⟩
  rw [h.offset_eq] at hpos
  cases hpos

/-- The header in the buffer is the first one of the stream. -/
theorem header_eq (h : First stream fs) (hheader : headerSize ≤ fs.buf.length) :
    fs.rawDataLen = announcedData stream ∧
      headerSize + fs.rawDataLen + fs.padLen = announced stream := by
  have hunread : fs.unread = fs.buf := by
    unfold unread
    rw [h.offset_eq, drop_zero]
  have hslice : ∀ i n, i + n ≤ headerSize →
      (fs.buf.drop i).take n = (stream.drop i).take n := by
    intro i n hin
    rw [← h.stream_eq, drop_append_of_le_length (by omega),
      take_append_of_le_length (by rw [length_drop]; omega)]
  have hdata : fs.rawDataLen = announcedData stream := by
    unfold rawDataLen announcedData
    rw [hunread]
    exact congrArg uint (hslice 0 4 (by decide))
  refine ⟨hdata, ?_⟩
  unfold announced padLen
  rw [hdata, hunread, hslice 4 2 (by decide)]

/-- The room for the next read, when the first record is not complete. -/
theorem required_eq (h : First stream fs) (hattempt : fs.attempt = none)
    (hrequired : fs.requiredCap = some required) :
    fs.buf.length < headerSize ∧ required = fs.buf.length + 2048 ∨
      headerSize ≤ fs.buf.length ∧ announcedData stream ≤ maxHandshakeDataLen ∧
        fs.buf.length < announced stream ∧
        required = max (fs.buf.length + 2048) (announced stream) := by
  unfold attempt at hattempt
  unfold requiredCap at hrequired
  dsimp only at hattempt hrequired
  rw [h.offset_eq, Nat.sub_zero, h.limit] at hattempt hrequired
  by_cases hheader : headerSize ≤ fs.buf.length
  · obtain ⟨hdata, htotal⟩ := h.header_eq hheader
    rw [if_pos hheader] at hattempt hrequired
    split at hrequired
    · cases hrequired
    · rename_i hlimit
      rw [if_neg hlimit] at hattempt
      cases hrequired
      refine .inr ⟨hheader, by omega, ?_, by rw [Nat.zero_add, htotal]⟩
      split at hattempt
      · split at hattempt
        · cases hattempt
        · cases hattempt
      · rename_i hshort
        omega
  · rw [if_neg hheader] at hrequired
    cases hrequired
    exact .inl ⟨Nat.lt_of_not_le hheader, rfl⟩

/-- A call that returns a frame or rejects one leaves the capacity as it is. -/
theorem attempt_cap {result : Outcome × FrameScanner} (hattempt : fs.attempt = some result) :
    result.2.cap = fs.cap := by
  unfold attempt at hattempt
  dsimp only at hattempt
  split at hattempt
  · split at hattempt
    · cases hattempt
      rfl
    · split at hattempt
      · split at hattempt
        · cases hattempt
          rfl
        · cases hattempt
          rfl
      · cases hattempt
  · cases hattempt

theorem grow (h : First stream fs) (required : Nat) : First stream (fs.grow required) := by
  unfold FrameScanner.grow
  split
  · have hle := h.buf_le
    refine ⟨h.offset_eq, h.limit, h.stream_eq, ?_⟩
    show fs.buf.length ≤ max (fs.cap * 2) required
    omega
  · exact h

/-- An iteration that reads: it finds the end, or goes on with some more bytes. -/
theorem read_cases (h : First stream fs) (hattempt : fs.attempt = none)
    (hrequired : fs.requiredCap = some required) :
    (fs.r.rest = [] ∧ ∃ fs', fs.readStep = .inr (.eof, fs') ∧
      fs'.cap = (fs.grow required).cap) ∨
    ∃ n fs', 0 < n ∧ n ≤ fs.r.rest.length ∧ fs.readStep = .inl fs' ∧ First stream fs' ∧
      fs'.cap = (fs.grow required).cap ∧ fs'.buf.length = fs.buf.length + n ∧
      fs'.r.size = fs.r.size ∧ ((∀ i, fs.r.size i = 1) → n = 1) := by
  have hroom := required_cap_lt hrequired
  have hgrown := h.grow required
  have hsame : (fs.grow required).buf = fs.buf ∧ (fs.grow required).r = fs.r := by
    unfold FrameScanner.grow
    split
    · exact ⟨rfl, rfl⟩
    · exact ⟨rfl, rfl⟩
  have hfree : 0 < (fs.grow required).cap - fs.buf.length := by
    unfold FrameScanner.grow
    split
    · show 0 < max (fs.cap * 2) required - fs.buf.length
      omega
    · omega
  have hstep : fs.readStep =
      let grown := fs.grow required
      let ((bytes, eof), r) := grown.r.read (grown.cap - grown.buf.length)
      let next := { grown with r, buf := grown.buf ++ bytes }
      if eof = true ∧ bytes = [] then .inr (.eof, next) else .inl next := by
    rw [readStep, hattempt]
    dsimp only
    rw [h.compact_eq, hrequired]
  rw [hstep]
  dsimp only
  rw [hsame.1, hsame.2]
  by_cases hend : fs.r.rest = []
  · refine .inl ⟨hend, ?_⟩
    rw [Reader.read_end hend, if_pos ⟨rfl, rfl⟩]
    exact ⟨_, rfl, rfl⟩
  · right
    have hpos := length_pos_iff.mpr hend
    obtain ⟨n, hn⟩ : ∃ n, n = min (max 1 (fs.r.size fs.r.calls))
      (min ((fs.grow required).cap - fs.buf.length) fs.r.rest.length) := ⟨_, rfl⟩
    have hread : fs.r.read ((fs.grow required).cap - fs.buf.length) =
        ((fs.r.rest.take n, fs.r.early fs.r.calls && (fs.r.rest.drop n).isEmpty),
          { fs.r with rest := fs.r.rest.drop n, calls := fs.r.calls + 1 }) := by
      unfold Reader.read
      rw [if_neg hend, hn]
    have hlength : (fs.r.rest.take n).length = n := by
      rw [length_take]
      omega
    have hne : ¬ ((fs.r.early fs.r.calls && (fs.r.rest.drop n).isEmpty) = true ∧
        fs.r.rest.take n = []) := by
      rintro ⟨-, hnil⟩
      rw [hnil, length_nil] at hlength
      omega
    rw [hread]
    dsimp only
    rw [if_neg hne]
    refine ⟨n, _, by omega, by omega, rfl, ⟨hgrown.offset_eq, hgrown.limit, ?_, ?_⟩, rfl, ?_, rfl,
      fun hone => ?_⟩
    · show (fs.buf ++ fs.r.rest.take n) ++ fs.r.rest.drop n = stream
      rw [append_assoc, take_append_drop]
      exact h.stream_eq
    · show (fs.buf ++ fs.r.rest.take n).length ≤ (fs.grow required).cap
      rw [length_append, hlength]
      omega
    · show (fs.buf ++ fs.r.rest.take n).length = _
      rw [length_append, hlength]
    · rw [hone] at hn
      omega

/-- What any iteration of the first call does to the capacity. -/
theorem step_cases (h : First stream fs) :
    (∃ outcome fs', fs.readStep = .inr (outcome, fs') ∧ fs'.cap = fs.cap) ∨
      ∃ required, fs.attempt = none ∧ fs.requiredCap = some required := by
  cases hattempt : fs.attempt with
  | some result =>
    refine .inl ⟨result.1, result.2, ?_, attempt_cap hattempt⟩
    rw [readStep, hattempt]
  | none =>
    cases hrequired : fs.requiredCap with
    | none =>
      refine .inl ⟨.invalid fs.rawDataLen, { fs with buf := [], offset := 0 }, ?_, rfl⟩
      rw [readStep, hattempt]
      dsimp only
      rw [h.compact_eq, hrequired]
    | some required => exact .inr ⟨required, rfl, rfl⟩

/-- The first record is awaited while it is not complete. -/
theorem awaits (h : First stream fs)
    (hshort : fs.buf.length < headerSize ∨
      announcedData stream ≤ maxHandshakeDataLen ∧ fs.buf.length < announced stream) :
    fs.attempt = none ∧ ∃ required, fs.requiredCap = some required := by
  unfold attempt requiredCap
  dsimp only
  rw [h.offset_eq, Nat.sub_zero, h.limit]
  by_cases hheader : headerSize ≤ fs.buf.length
  · obtain ⟨hdata, htotal⟩ := h.header_eq hheader
    obtain ⟨hlimit, hincomplete⟩ := hshort.resolve_left (Nat.not_lt.mpr hheader)
    rw [if_pos hheader, if_pos hheader, hdata, if_neg (Nat.not_lt.mpr hlimit),
      if_neg (Nat.not_lt.mpr hlimit), if_neg (by omega)]
    exact ⟨rfl, _, rfl⟩
  · rw [if_neg hheader, if_neg hheader]
    exact ⟨rfl, _, rfl⟩

/-- A stream that is modest needs no room beyond twice the limit. -/
theorem required_le (h : First stream fs) (hmodest : Modest stream) (hattempt : fs.attempt = none)
    (hrequired : fs.requiredCap = some required) : required ≤ 2 * maxHandshakeDataLen := by
  have hlength := congrArg List.length h.stream_eq
  rw [length_append] at hlength
  have hmax : maxHandshakeDataLen = 16384 := rfl
  have hsize : headerSize = 10 := rfl
  rcases h.required_eq hattempt hrequired with ⟨hshort, rfl⟩ | ⟨hheader, hlimit, hincomplete, rfl⟩
  · omega
  · unfold Modest at hmodest
    omega

end First

/-- The capacity has not grown, or it has doubled. -/
def SmallCap (fs : FrameScanner) : Prop :=
  fs.cap = maxHandshakeDataLen ∨ fs.cap = 2 * maxHandshakeDataLen

theorem SmallCap.grow (h : fs.SmallCap) (hrequired : required ≤ 2 * maxHandshakeDataLen) :
    (fs.grow required).SmallCap := by
  unfold FrameScanner.grow
  split
  · rename_i hless
    rcases h with hcap | hcap
    · refine .inr ?_
      show max (fs.cap * 2) required = 2 * maxHandshakeDataLen
      omega
    · omega
  · exact h

variable {size : Nat → Nat} {early : Nat → Bool}

/-- For a modest stream every iteration keeps the capacity small. -/
theorem First.iterates (hmodest : Modest stream) (h : Iterates (handshake stream size early) fs) :
    First stream fs ∧ fs.SmallCap := by
  induction h with
  | start => exact ⟨first_handshake stream size early, .inl rfl⟩
  | next _ hstep ih =>
    obtain ⟨hfirst, hcap⟩ := ih
    rcases hfirst.step_cases with ⟨_, _, hreturn, -⟩ | ⟨required, hattempt, hrequired⟩
    · rw [hreturn] at hstep
      cases hstep
    · have hgrown := hcap.grow (hfirst.required_le hmodest hattempt hrequired)
      rcases hfirst.read_cases hattempt hrequired with
        ⟨-, _, hreturn, -⟩ | ⟨_, _, -, -, hgoes, hfirst', hcap', -⟩
      · rw [hreturn] at hstep
        cases hstep
      · rw [hgoes] at hstep
        cases hstep
        refine ⟨hfirst', ?_⟩
        unfold SmallCap at hgrown ⊢
        rwa [hcap']

theorem cap_le_of_modest (hmodest : Modest stream) (h : Visits (handshake stream size early) fs) :
    fs.cap ≤ 2 * maxHandshakeDataLen := by
  have hsmall : ∀ {cap : Nat}, cap = maxHandshakeDataLen ∨ cap = 2 * maxHandshakeDataLen →
      cap ≤ 2 * maxHandshakeDataLen := by
    intro cap hcap
    omega
  rcases h with hiterates | ⟨current, outcome, hbefore, hstep⟩
  · exact hsmall (First.iterates hmodest hiterates).2
  · obtain ⟨hfirst, hcap⟩ := First.iterates hmodest hbefore
    rcases hfirst.step_cases with ⟨_, _, hreturn, hsame⟩ | ⟨required, hattempt, hrequired⟩
    · rw [hreturn] at hstep
      cases hstep
      rw [hsame]
      exact hsmall hcap
    · have hgrown := hcap.grow (hfirst.required_le hmodest hattempt hrequired)
      rcases hfirst.read_cases hattempt hrequired with
        ⟨-, _, hreturn, hsame⟩ | ⟨_, _, -, -, hgoes, -⟩
      · rw [hreturn] at hstep
        cases hstep
        rw [hsame]
        exact hsmall hgrown
      · rw [hgoes] at hstep
        cases hstep

/-- A stream that comes byte by byte is in the buffer up to any place before the end of its first
record. -/
theorem exists_iterates_take {n : Nat} (hlength : n ≤ stream.length)
    (hshort : n ≤ headerSize ∨
      announcedData stream ≤ maxHandshakeDataLen ∧ n ≤ announced stream) :
    ∃ fs, Iterates (handshake stream (fun _ => 1) fun _ => false) fs ∧ First stream fs ∧
      fs.buf.length = n ∧ ∀ i, fs.r.size i = 1 := by
  induction n with
  | zero => exact ⟨_, .start, first_handshake stream _ _, rfl, fun _ => rfl⟩
  | succ n ih =>
    obtain ⟨fs, hiterates, hfirst, hbuf, hsize⟩ := ih (by omega) (by omega)
    obtain ⟨hattempt, required, hrequired⟩ := hfirst.awaits (by omega)
    rcases hfirst.read_cases hattempt hrequired with
      ⟨hend, -⟩ | ⟨m, fs', -, -, hgoes, hfirst', -, hbuf', hsize', hone⟩
    · have heq := congrArg List.length hfirst.stream_eq
      rw [hend, append_nil] at heq
      omega
    · refine ⟨fs', .next hiterates hgoes, hfirst', ?_, fun i => by rw [hsize']; exact hsize i⟩
      rw [hbuf', hone hsize, hbuf]

/-- If the room for a read is beyond twice the limit, so is the capacity after it. -/
theorem exists_visits_cap (hiterates : Iterates (handshake stream size early) fs)
    (hfirst : First stream fs) (hattempt : fs.attempt = none)
    (hrequired : fs.requiredCap = some required) (hlarge : 2 * maxHandshakeDataLen < required) :
    ∃ fs', Visits (handshake stream size early) fs' ∧ 2 * maxHandshakeDataLen < fs'.cap := by
  have hgrown : required ≤ (fs.grow required).cap := by
    unfold FrameScanner.grow
    split
    · exact Nat.le_max_right _ _
    · omega
  rcases hfirst.read_cases hattempt hrequired with
    ⟨-, fs', hreturn, hcap⟩ | ⟨_, fs', -, -, hgoes, -, hcap, -⟩
  · exact ⟨fs', .inr ⟨fs, .eof, hiterates, hreturn⟩, by omega⟩
  · exact ⟨fs', .inl (.next hiterates hgoes), by omega⟩

theorem exists_cap_of_not_modest (h : ¬ Modest stream) :
    ∃ fs, Visits (handshake stream (fun _ => 1) fun _ => false) fs ∧
      2 * maxHandshakeDataLen < fs.cap := by
  have hmax : maxHandshakeDataLen = 16384 := rfl
  have hsize : headerSize = 10 := rfl
  unfold Modest at h
  obtain ⟨hlength, hdata, hlarge⟩ : headerSize ≤ stream.length ∧
      announcedData stream ≤ maxHandshakeDataLen ∧
      ¬ (announced stream ≤ 2 * maxHandshakeDataLen ∧
        min (announced stream - 1) stream.length + 2048 ≤ 2 * maxHandshakeDataLen) := by
    omega
  -- the header is enough if the record is too long; else the peer stops just before its end
  obtain ⟨n, hn, hheader, hshort, hroom⟩ : ∃ n ≤ stream.length, headerSize ≤ n ∧
      n < announced stream ∧ 2 * maxHandshakeDataLen < max (n + 2048) (announced stream) := by
    by_cases hlong : 2 * maxHandshakeDataLen < announced stream
    · exact ⟨headerSize, hlength, le_rfl, by omega, by omega⟩
    · exact ⟨min (announced stream - 1) stream.length, by omega, by omega, by omega, by omega⟩
  obtain ⟨fs, hiterates, hfirst, hbuf, -⟩ :=
    exists_iterates_take hn (.inr ⟨hdata, hshort.le⟩)
  obtain ⟨hattempt, required, hrequired⟩ := hfirst.awaits (by omega)
  refine exists_visits_cap hiterates hfirst hattempt hrequired ?_
  rcases hfirst.required_eq hattempt hrequired with ⟨hless, -⟩ | ⟨-, -, -, rfl⟩
  · omega
  · rwa [hbuf]

/-- The capacity stays within twice the limit until the first call returns, however the stream is
cut, if and only if the stream is modest. -/
theorem handshake_cap_bounded (stream : Bytes) :
    (∀ size early fs, Visits (handshake stream size early) fs →
      fs.cap ≤ 2 * maxHandshakeDataLen) ↔ Modest stream := by
  constructor
  · intro hbounded
    by_contra hlarge
    obtain ⟨fs, hvisits, hcap⟩ := exists_cap_of_not_modest hlarge
    exact absurd (hbounded _ _ fs hvisits) (Nat.not_le.mpr hcap)
  · exact fun hmodest _ _ _ hvisits => cap_le_of_modest hmodest hvisits

/-- Ten bytes that announce no payload and 65535 bytes of padding. -/
theorem padding_exceeds_cap :
    ∃ fs, Visits (handshake [0, 0, 0, 0, 255, 255, 0, 0, 0, 1] (fun _ => 10) fun _ => false) fs ∧
      fs.cap = 65545 ∧ 2 * maxHandshakeDataLen < fs.cap := by
  obtain ⟨⟨outcome, fs⟩, hread, hcap⟩ := exists_some_of_decide
    (P := fun result : Outcome × FrameScanner => result.2.cap = 65545)
    (show (handshake [0, 0, 0, 0, 255, 255, 0, 0, 0, 1] (fun _ => 10)
      fun _ => false).ReadFrame.any _ = true by decide +kernel)
  refine ⟨fs, visits_read_frame hread, hcap, ?_⟩
  rw [show fs.cap = 65545 from hcap]
  decide

end FrameScanner

end TlsVpn.Wire
