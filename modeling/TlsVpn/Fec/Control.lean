import TlsVpn.Lib.Bytes

/-!
# FEC groups and the FEC_MODE control

Translation of `fec_control.go` and of the group arithmetic of `fec.go`. Data frames are numbered
from `1`, and a group consists of the `k` frames from a start congruent to `1` modulo `k` on; both
ends compute the group of a frame from its number alone (`group_start_spec`,
`group_start_unique`).

The FEC_MODE control announces that the sender stops or resumes encoding at a group boundary. It
travels as a sixteen-byte payload (`parse_append_mode_control`), and the receiver keeps the newest
one as a window of sequence numbers that bypass the decoder (`FecRXFenceState`).
-/

namespace TlsVpn.Fec

open Lib List

/-- The smallest group. -/
def fecMinGroup : Nat := 2

/-- The largest group. -/
def fecMaxGroup : Nat := 64

/-- The group size constrained to the range of the protocol. -/
def clampFecGroup (k : Nat) : Nat :=
  if k < fecMinGroup then fecMinGroup else if k > fecMaxGroup then fecMaxGroup else k

theorem clamp_fec_group_range (k : Nat) : 2 ≤ clampFecGroup k ∧ clampFecGroup k ≤ 64 := by
  unfold clampFecGroup fecMinGroup fecMaxGroup
  split <;> [skip; split] <;> omega

theorem clamp_fec_group_of_range {k : Nat} (hlow : 2 ≤ k) (hhigh : k ≤ 64) :
    clampFecGroup k = k := by
  unfold clampFecGroup fecMinGroup fecMaxGroup
  rw [if_neg (by omega), if_neg (by omega)]

/-- The start of the arithmetic group that contains a sequence number, `0` for the control
number. -/
def fecGroupStart (seq k : Nat) : Nat :=
  if seq = 0 then 0 else seq - (seq - 1) % clampFecGroup k

/-- The first group boundary at or after a sequence number, `0` if none remains in the sequence
space. -/
def fecNextGroupStart (seq k : Nat) : Nat :=
  if seq = 0 then 0
  else
    let offset := (seq - 1) % clampFecGroup k
    if offset = 0 then seq
    else
      let next := seq + (clampFecGroup k - offset)
      if next > maxUint32 then 0 else next

/-- A number at which a group of size `k` starts. -/
def GroupBoundary (k start : Nat) : Prop := 0 < start ∧ (start - 1) % k = 0

instance (k start : Nat) : Decidable (GroupBoundary k start) :=
  inferInstanceAs (Decidable (_ ∧ _))

section Arithmetic

variable {k seq start : Nat}

/-- The group of a data frame starts at a boundary and contains the frame. -/
theorem group_start_spec (hlow : 2 ≤ k) (hhigh : k ≤ 64) (hseq : 0 < seq) :
    GroupBoundary k (fecGroupStart seq k) ∧ fecGroupStart seq k ≤ seq ∧
      seq < fecGroupStart seq k + k := by
  have hstart : fecGroupStart seq k = seq - (seq - 1) % k := by
    rw [fecGroupStart, if_neg (by omega), clamp_fec_group_of_range hlow hhigh]
  have hmod : (seq - 1) % k < k := Nat.mod_lt _ (by omega)
  have hle : (seq - 1) % k ≤ seq - 1 := Nat.mod_le _ _
  refine ⟨⟨by omega, ?_⟩, by omega, by omega⟩
  have hquot : seq - 1 - (seq - 1) % k = k * ((seq - 1) / k) := by
    have := Nat.mod_add_div (seq - 1) k
    omega
  rw [hstart, show seq - (seq - 1) % k - 1 = seq - 1 - (seq - 1) % k by omega, hquot,
    Nat.mul_mod_right]

/-- Two boundaries less than a group apart are equal. -/
theorem boundary_unique {start' : Nat} (h : GroupBoundary k start) (h' : GroupBoundary k start')
    (hlt : start < start' + k) (hlt' : start' < start + k) : start = start' := by
  obtain ⟨hpos, hmod⟩ := h
  obtain ⟨hpos', hmod'⟩ := h'
  obtain ⟨a, ha⟩ := Nat.dvd_of_mod_eq_zero hmod
  obtain ⟨b, hb⟩ := Nat.dvd_of_mod_eq_zero hmod'
  have hab : a = b := by
    rcases Nat.lt_trichotomy a b with hl | he | hg
    · have := Nat.mul_le_mul_left k (Nat.succ_le_of_lt hl)
      rw [Nat.mul_succ] at this
      omega
    · exact he
    · have := Nat.mul_le_mul_left k (Nat.succ_le_of_lt hg)
      rw [Nat.mul_succ] at this
      omega
  subst hab
  omega

/-- The group of a frame is the only one that contains it. -/
theorem group_start_unique (hlow : 2 ≤ k) (hhigh : k ≤ 64) (h : GroupBoundary k start)
    (hle : start ≤ seq) (hlt : seq < start + k) : fecGroupStart seq k = start := by
  obtain ⟨hbound, hle', hlt'⟩ := group_start_spec hlow hhigh (show 0 < seq by have := h.1; omega)
  exact boundary_unique hbound h (by omega) (by omega)

/-- A boundary is the start of its own group. -/
theorem group_start_boundary (hlow : 2 ≤ k) (hhigh : k ≤ 64) (h : GroupBoundary k start) :
    fecGroupStart start k = start :=
  group_start_unique hlow hhigh h le_rfl (by omega)

theorem group_start_mono (hlow : 2 ≤ k) (hhigh : k ≤ 64) (h : GroupBoundary k start)
    (hle : start ≤ seq) : start ≤ fecGroupStart seq k := by
  obtain ⟨hbound, hle', hlt'⟩ := group_start_spec hlow hhigh (show 0 < seq by have := h.1; omega)
  by_contra hlt
  have := boundary_unique h hbound (by omega) (by omega)
  omega

/-- The group after that of a frame starts at a boundary. -/
theorem following_boundary (hlow : 2 ≤ k) (hseq : 0 < seq) :
    GroupBoundary k (seq + (k - (seq - 1) % k)) := by
  have hmod : (seq - 1) % k < k := Nat.mod_lt _ (by omega)
  have hquot := Nat.mod_add_div (seq - 1) k
  have hsum : seq + (k - (seq - 1) % k) - 1 = k * ((seq - 1) / k + 1) := by
    rw [Nat.mul_add, Nat.mul_one]
    omega
  exact ⟨by omega, by rw [hsum, Nat.mul_mod_right]⟩

/-- The next group boundary is a boundary less than a group ahead. -/
theorem next_group_start_spec (hlow : 2 ≤ k) (hhigh : k ≤ 64) (hseq : 0 < seq)
    (hmax : seq ≤ maxUint32) (hnext : fecNextGroupStart seq k ≠ 0) :
    GroupBoundary k (fecNextGroupStart seq k) ∧ seq ≤ fecNextGroupStart seq k ∧
      fecNextGroupStart seq k < seq + k ∧ fecNextGroupStart seq k ≤ maxUint32 := by
  unfold fecNextGroupStart at hnext ⊢
  simp only [clamp_fec_group_of_range hlow hhigh, if_neg (show seq ≠ 0 by omega)] at hnext ⊢
  have hmod : (seq - 1) % k < k := Nat.mod_lt _ (by omega)
  split at hnext
  · rename_i hoffset
    rw [if_pos hoffset]
    exact ⟨⟨hseq, hoffset⟩, le_rfl, by omega, hmax⟩
  · rename_i hoffset
    split at hnext
    · exact absurd rfl hnext
    · rename_i hfits
      rw [if_neg hoffset, if_neg hfits]
      exact ⟨following_boundary hlow hseq, by omega, by omega, by omega⟩

/-- No boundary lies between a number and the next group boundary. -/
theorem next_group_start_min (hlow : 2 ≤ k) (hhigh : k ≤ 64) (hseq : 0 < seq)
    (h : GroupBoundary k start) (hle : seq ≤ start) (hmax : start ≤ maxUint32) :
    fecNextGroupStart seq k ≠ 0 ∧ fecNextGroupStart seq k ≤ start := by
  unfold fecNextGroupStart
  simp only [clamp_fec_group_of_range hlow hhigh, if_neg (show seq ≠ 0 by omega)]
  split
  · exact ⟨by omega, hle⟩
  · rename_i hoffset
    have hbound := following_boundary hlow hseq
    have hmod : (seq - 1) % k < k := Nat.mod_lt _ (by omega)
    have hafter : seq + (k - (seq - 1) % k) ≤ start := by
      by_contra hlt
      have := boundary_unique h hbound (by omega) (by omega)
      omega
    rw [if_neg (by omega)]
    exact ⟨by omega, hafter⟩

end Arithmetic

/-! ## The control payload -/

/-- A parity record. -/
def controlKindFECParity : UInt8 := 1

/-- A mode control. -/
def controlKindFECMode : UInt8 := 2

/-- The length of a mode control. -/
def fecControlWireLen : Nat := 16

/-- What a control asks for. -/
inductive FecControlOp where
  | suspend
  | resume
  deriving DecidableEq, Repr

/-- The operation byte of the payload. -/
def FecControlOp.code : FecControlOp → UInt8
  | .suspend => 1
  | .resume => 2

/-- From the boundary on the mode is another one. -/
structure FecModeControl where
  generation : Nat
  op : FecControlOp
  boundary : Nat
  deriving DecidableEq, Repr

/-- The payload of a control; the two bytes after the operation are the flags and stay zero. -/
def appendFECModeControl (dst : Bytes) (c : FecModeControl) : Bytes :=
  dst ++ [controlKindFECMode, c.op.code, 0, 0] ++ putUint 8 c.generation ++ putUint 4 c.boundary

/-- Anything but an exact control is refused. -/
def parseFECModeControl (payload : Bytes) : Option FecModeControl :=
  if payload.length ≠ fecControlWireLen ∨ payload.head? ≠ some controlKindFECMode then none
  else if uint ((payload.drop 2).take 2) ≠ 0 then none
  else
    let op := byteAt payload 1
    let generation := uint ((payload.drop 4).take 8)
    let boundary := uint ((payload.drop 12).take 4)
    if op = FecControlOp.suspend.code then
      if generation = 0 ∨ boundary = 0 then none else some ⟨generation, .suspend, boundary⟩
    else if op = FecControlOp.resume.code then
      if generation = 0 ∨ boundary = 0 then none else some ⟨generation, .resume, boundary⟩
    else none

/-- A control with a generation and a boundary of the right width survives the wire. -/
theorem parse_append_mode_control {c : FecModeControl} (hgen : 0 < c.generation)
    (hgen' : c.generation < 2 ^ 64) (hbound : 0 < c.boundary) (hbound' : c.boundary < 2 ^ 32) :
    parseFECModeControl (appendFECModeControl [] c) = some c := by
  have hpayload : appendFECModeControl [] c = [controlKindFECMode, c.op.code, 0, 0] ++
      (putUint 8 c.generation ++ putUint 4 c.boundary) := append_assoc _ _ _
  generalize hfront : [controlKindFECMode, c.op.code, 0, 0] = front at hpayload
  have hlen : front.length = 4 := by rw [← hfront]; rfl
  have hg : uint (((appendFECModeControl [] c).drop 4).take 8) = c.generation := by
    rw [hpayload, drop_left' hlen, take_left' (length_putUint 8 _)]
    exact uint_put_uint_of_lt hgen'
  have hb : uint (((appendFECModeControl [] c).drop 12).take 4) = c.boundary := by
    rw [hpayload, ← append_assoc, drop_left' (by simp [hlen]),
      take_of_length_le (by simp)]
    exact uint_put_uint_of_lt hbound'
  have hwire : (appendFECModeControl [] c).length = fecControlWireLen := by
    simp [hpayload, hlen, fecControlWireLen]
  have hhead : (appendFECModeControl [] c).head? = some controlKindFECMode := rfl
  have hflags : uint (((appendFECModeControl [] c).drop 2).take 2) = 0 := rfl
  have hop : byteAt (appendFECModeControl [] c) 1 = c.op.code := rfl
  have hzero : ¬ (c.generation = 0 ∨ c.boundary = 0) := by omega
  simp only [parseFECModeControl, hwire, hhead, hflags, hg, hb, hop, hzero, ne_eq, not_true,
    or_self, if_false]
  obtain ⟨generation, op, boundary⟩ := c
  cases op with
  | suspend | resume => rfl

/-! ## The receiver's fence -/

/-- The receiver's state of the dynamic bypass: the newest generation applied and the window. The
window `(0, 0)` is inactive, `(from, 0)` bypasses everything from `from` on. -/
structure FecRXFenceState where
  generation : Nat
  fromSeq : Nat
  untilSeq : Nat
  deriving DecidableEq, Repr

namespace FecRXFenceState

/-- No control has been applied. -/
def new : FecRXFenceState := ⟨0, 0, 0⟩

/-- The fence after a control and whether the control was applied. -/
def apply (s : FecRXFenceState) (c : FecModeControl) : FecRXFenceState × Bool :=
  if c.generation = 0 ∨ c.boundary = 0 then (s, false)
  else if c.generation ≤ s.generation then (s, false)
  else
    match c.op with
    | .suspend => (⟨c.generation, c.boundary, 0⟩, true)
    | .resume =>
      -- a resume without a suspend seen before keeps the decoder active
      if s.fromSeq = 0 ∨ c.boundary ≤ s.fromSeq then (⟨c.generation, 0, 0⟩, true)
      else (⟨c.generation, s.fromSeq, c.boundary⟩, true)

/-- The sequence number lies in the window. -/
def Covers (s : FecRXFenceState) (seq : Nat) : Prop :=
  seq ≠ 0 ∧ s.fromSeq ≠ 0 ∧ s.fromSeq ≤ seq ∧ (s.untilSeq = 0 ∨ seq < s.untilSeq)

instance (s : FecRXFenceState) (seq : Nat) : Decidable (s.Covers seq) :=
  inferInstanceAs (Decidable (_ ∧ _ ∧ _ ∧ _))

/-- A frame in the window is not decoded. -/
def bypassData (s : FecRXFenceState) (seq : Nat) : Bool := decide (s.Covers seq)

end FecRXFenceState

end TlsVpn.Fec
