import TlsVpn.Fec.Implementations

/-!
# The grammar of controls

The control payloads of the protocol, stated on the bytes: a FEC_PARITY record with a descriptor
that matches the group size and its own length, or a FEC_MODE control of sixteen bytes with an
aligned boundary. The decoder reports a part of what lies outside the grammar only. It does not
compare the boundary of a FEC_MODE control with the group size, and it ignores a malformed record
without an error.

`control_errors_iff` shows that the errors are exact for the payloads without these two faults and
for no others, and that an error leaves the decoder as it was. `misaligned_boundary_accepted` runs
both exceptions.
-/

namespace TlsVpn.Fec

open Lib Crypto

/-- The layout of a FEC_MODE control: sixteen bytes, no flags, a known operation, and neither the
generation nor the boundary is zero. -/
def ModeLayout (payload : Bytes) : Prop :=
  payload.length = 16 ∧ uint ((payload.drop 2).take 2) = 0 ∧
    (byteAt payload 1 = FecControlOp.suspend.code ∨ byteAt payload 1 = FecControlOp.resume.code) ∧
    uint ((payload.drop 4).take 8) ≠ 0 ∧ uint ((payload.drop 12).take 4) ≠ 0

instance (payload : Bytes) : Decidable (ModeLayout payload) :=
  inferInstanceAs (Decidable (_ ∧ _ ∧ _ ∧ _ ∧ _))

/-- The boundary of a FEC_MODE control starts a group. -/
def ModeAligned (k : Nat) (payload : Bytes) : Prop :=
  (uint ((payload.drop 12).take 4) - 1) % k = 0

instance (k : Nat) (payload : Bytes) : Decidable (ModeAligned k payload) :=
  inferInstanceAs (Decidable (_ = _))

/-- The descriptor of a FEC_PARITY record: complete, for `k` members from an aligned start, and no
member longer than the body that follows it, whose tag has `tag` bytes. -/
def ParityDescriptor (k tag : Nat) (payload : Bytes) : Prop :=
  6 + 4 * k + tag ≤ payload.length ∧ (byteAt payload 5).toNat = k ∧
    uint ((payload.drop 1).take 4) ≠ 0 ∧ (uint ((payload.drop 1).take 4) - 1) % k = 0 ∧
    ∀ i < k, uint ((payload.drop (6 + 4 * i)).take 4) + tag ≤ payload.length - (6 + 4 * k)

instance (k tag : Nat) (payload : Bytes) : Decidable (ParityDescriptor k tag payload) :=
  inferInstanceAs (Decidable (_ ∧ _ ∧ _ ∧ _ ∧ ∀ i < k, _))

/-- A control payload of the protocol. -/
def ControlGrammar (k tag : Nat) (payload : Bytes) : Prop :=
  payload.head? = some controlKindFECParity ∧ ParityDescriptor k tag payload ∨
    payload.head? = some controlKindFECMode ∧ ModeLayout payload ∧ ModeAligned k payload

instance (k tag : Nat) (payload : Bytes) : Decidable (ControlGrammar k tag payload) :=
  inferInstanceAs (Decidable (_ ∧ _ ∨ _ ∧ _ ∧ _))

/-- The payload has none of the faults that the decoder does not report: it is no FEC_PARITY record
with a malformed descriptor, and no FEC_MODE control whose only fault is its boundary. -/
def FaultsReported (k tag : Nat) (payload : Bytes) : Prop :=
  (payload.head? = some controlKindFECParity → ParityDescriptor k tag payload) ∧
    (payload.head? = some controlKindFECMode → ModeLayout payload → ModeAligned k payload)

instance (k tag : Nat) (payload : Bytes) : Decidable (FaultsReported k tag payload) :=
  inferInstanceAs (Decidable ((_ → _) ∧ (_ → _ → _)))

/-! ## What the decoder reports -/

/-- The parser of FEC_MODE accepts exactly the layout. -/
theorem parse_mode_control_iff (payload : Bytes) :
    (parseFECModeControl payload).isSome = true ↔
      payload.head? = some controlKindFECMode ∧ ModeLayout payload := by
  unfold parseFECModeControl ModeLayout fecControlWireLen
  by_cases hframe : payload.length ≠ 16 ∨ payload.head? ≠ some controlKindFECMode
  · rw [if_pos hframe]
    refine ⟨nofun, fun hgood => ?_⟩
    rcases hframe with hlen | hhead
    · exact absurd hgood.2.1 hlen
    · exact absurd hgood.1 hhead
  · rw [if_neg hframe]
    rw [not_or, not_not, not_not] at hframe
    by_cases hflags : uint ((payload.drop 2).take 2) = 0
    · rw [if_neg (not_not.mpr hflags)]
      dsimp only
      by_cases hzero : uint ((payload.drop 4).take 8) = 0 ∨ uint ((payload.drop 12).take 4) = 0
      · rw [if_pos hzero, if_pos hzero, ite_self, ite_self]
        refine ⟨nofun, fun hgood => ?_⟩
        rcases hzero with hgen | hbound
        · exact absurd hgen hgood.2.2.2.2.1
        · exact absurd hbound hgood.2.2.2.2.2
      · rw [if_neg hzero, if_neg hzero]
        rw [not_or] at hzero
        by_cases hsuspend : byteAt payload 1 = FecControlOp.suspend.code
        · rw [if_pos hsuspend]
          exact ⟨fun _ => ⟨hframe.2, hframe.1, hflags, .inl hsuspend, hzero⟩, fun _ => rfl⟩
        · rw [if_neg hsuspend]
          by_cases hresume : byteAt payload 1 = FecControlOp.resume.code
          · rw [if_pos hresume]
            exact ⟨fun _ => ⟨hframe.2, hframe.1, hflags, .inr hresume, hzero⟩, fun _ => rfl⟩
          · rw [if_neg hresume]
            exact ⟨nofun, fun hgood => absurd hgood.2.2.2.1 (not_or.mpr ⟨hsuspend, hresume⟩)⟩
    · rw [if_pos hflags]
      exact ⟨nofun, fun hgood => absurd hgood.2.2.1 hflags⟩

/-- What the dispatcher reports: an unknown kind, or a FEC_MODE control without the layout. -/
def Reported (payload : Bytes) : Prop :=
  payload.head? ≠ some controlKindFECParity ∧
    ¬ (payload.head? = some controlKindFECMode ∧ ModeLayout payload)

namespace Probed

/-- The shape of the two dispatchers: an error exactly for what is reported, with the state
unchanged. -/
structure Dispatches (p : Probed) (payload : Bytes) (r : Probed × ControlResult) : Prop where
  error_iff : (∃ e, r.2 = .error e) ↔ Reported payload
  unchanged : (∃ e, r.2 = .error e) → r.1 = p

variable {p : Probed} {rest : Bytes}

theorem dispatches_of_parity {r : Probed × Option (Nat × Bytes)} :
    Dispatches p (controlKindFECParity :: rest) (r.1, .ok r.2) :=
  ⟨⟨nofun, fun h => absurd rfl h.1⟩, nofun⟩

theorem dispatches_of_unknown {kind : UInt8} {e : ControlError}
    (hparity : kind ≠ controlKindFECParity) (hmode : kind ≠ controlKindFECMode) :
    Dispatches p (kind :: rest) (p, .error e) := by
  refine ⟨⟨fun _ => ⟨?_, ?_⟩, fun _ => ⟨e, rfl⟩⟩, fun _ => rfl⟩
  · exact fun heq => hparity (Option.some.inj heq)
  · exact fun hand => hmode (Option.some.inj hand.1)

theorem dispatches_of_mode {handle : FecModeControl → Probed} :
    Dispatches p (controlKindFECMode :: rest)
      (match parseFECModeControl (controlKindFECMode :: rest) with
        | none => (p, .error .malformedMode)
        | some ctrl => (handle ctrl, .ok none)) := by
  have hiff := parse_mode_control_iff (controlKindFECMode :: rest)
  have hkind : (controlKindFECMode :: rest).head? ≠ some controlKindFECParity :=
    fun heq => absurd (Option.some.inj heq) (by decide)
  cases hparse : parseFECModeControl (controlKindFECMode :: rest) with
  | none =>
    rw [hparse] at hiff
    refine ⟨⟨fun _ => ⟨hkind, fun hgood => ?_⟩, fun _ => ⟨_, rfl⟩⟩, fun _ => rfl⟩
    exact absurd (hiff.mpr hgood) Bool.false_ne_true
  | some ctrl =>
    rw [hparse] at hiff
    exact ⟨⟨nofun, fun h => absurd (hiff.mp rfl) h.2⟩, nofun⟩

theorem dispatches_on_control (p : Probed) {payload : Bytes} (hne : payload ≠ []) :
    Dispatches p payload (p.onControlWithScratch payload) := by
  cases payload with
  | nil => exact absurd rfl hne
  | cons kind rest =>
    unfold onControlWithScratch parseControlKind
    by_cases hparity : kind = controlKindFECParity
    · subst hparity
      exact dispatches_of_parity
    · by_cases hmode : kind = controlKindFECMode
      · subst hmode
        exact dispatches_of_mode
      · dsimp only
        rw [if_neg (not_or.mpr ⟨hparity, hmode⟩)]
        exact dispatches_of_unknown hparity hmode

theorem dispatches_on_control_actor (p : Probed) {payload : Bytes} (hne : payload ≠ []) :
    Dispatches p payload (p.onControlActorWithScratch payload) := by
  cases payload with
  | nil => exact absurd rfl hne
  | cons kind rest =>
    unfold onControlActorWithScratch parseControlKind
    by_cases hparity : kind = controlKindFECParity
    · subst hparity
      exact dispatches_of_parity
    · by_cases hmode : kind = controlKindFECMode
      · subst hmode
        exact dispatches_of_mode
      · dsimp only
        rw [if_neg (not_or.mpr ⟨hparity, hmode⟩)]
        exact dispatches_of_unknown hparity hmode

end Probed

/-- What is reported is what violates the grammar, for exactly the payloads without the two
unreported faults. -/
theorem faults_reported_iff {k tag : Nat} {payload : Bytes} :
    FaultsReported k tag payload ↔ (Reported payload ↔ ¬ ControlGrammar k tag payload) := by
  constructor
  · intro hfaults
    constructor
    · rintro ⟨hparity, hmode⟩ hgrammar
      rcases hgrammar with ⟨hkind, _⟩ | ⟨hkind, hlayout, _⟩
      · exact hparity hkind
      · exact hmode ⟨hkind, hlayout⟩
    · intro hviolates
      refine ⟨fun hkind => ?_, fun hmode => ?_⟩
      · exact hviolates (.inl ⟨hkind, hfaults.1 hkind⟩)
      · exact hviolates (.inr ⟨hmode.1, hmode.2, hfaults.2 hmode.1 hmode.2⟩)
  · -- an unreported fault violates the grammar, as the two kinds are different bytes
    intro hexact
    refine ⟨fun hkind => ?_, fun hkind hlayout => ?_⟩
    · by_contra hfault
      refine (hexact.mpr ?_).1 hkind
      rintro (⟨-, hdescriptor⟩ | ⟨hmode, -⟩)
      · exact hfault hdescriptor
      · exact absurd (hkind.symm.trans hmode) (by decide)
    · by_contra hfault
      refine (hexact.mpr ?_).2 ⟨hkind, hlayout⟩
      rintro (⟨hparity, -⟩ | ⟨-, -, haligned⟩)
      · exact absurd (hkind.symm.trans hparity) (by decide)
      · exact hfault haligned

/-! ## The contract of a control -/

/-- Both dispatchers report an error exactly for the payloads outside the grammar if, and only if,
the payload is no FEC_PARITY record with a malformed descriptor and no FEC_MODE control that is only
misaligned. An error leaves the decoder as it was, for every payload. -/
theorem control_errors_iff (p : Probed) (payload : Bytes) (hne : payload ≠ []) :
    (FaultsReported p.decoder.k (tagLen p.decoder.ic) payload ↔
      ((∃ e, (p.onControlWithScratch payload).2 = .error e) ↔
        ¬ ControlGrammar p.decoder.k (tagLen p.decoder.ic) payload)) ∧
    (FaultsReported p.decoder.k (tagLen p.decoder.ic) payload ↔
      ((∃ e, (p.onControlActorWithScratch payload).2 = .error e) ↔
        ¬ ControlGrammar p.decoder.k (tagLen p.decoder.ic) payload)) ∧
    ((∃ e, (p.onControlWithScratch payload).2 = .error e) →
      (p.onControlWithScratch payload).1 = p) ∧
    ((∃ e, (p.onControlActorWithScratch payload).2 = .error e) →
      (p.onControlActorWithScratch payload).1 = p) := by
  have hlocked := Probed.dispatches_on_control p hne
  have hactor := Probed.dispatches_on_control_actor p hne
  refine ⟨?_, ?_, hlocked.unchanged, hactor.unchanged⟩
  · rw [hlocked.error_iff]
    exact faults_reported_iff
  · rw [hactor.error_iff]
    exact faults_reported_iff

/-- A fresh decoder for groups of `k` frames in the clear, without a progress probe. -/
def clearProbed (k : Nat) : Probed :=
  { decoder := .new k none
    probe := { installed := false, answers := fun _ => 0, used := 0 } }

/-- A FEC_MODE control with a non-zero flag is reported and leaves the decoder as it was. -/
theorem flagged_mode_reported :
    ¬ ControlGrammar 4 0 [2, 1, 0, 1, 0, 0, 0, 0, 0, 0, 0, 1, 0, 0, 0, 1] ∧
      ∃ e, ((clearProbed 4).onControlWithScratch
        [2, 1, 0, 1, 0, 0, 0, 0, 0, 0, 0, 1, 0, 0, 0, 1]).2 = .error e := by
  have hgrammar : ¬ ControlGrammar 4 0 [2, 1, 0, 1, 0, 0, 0, 0, 0, 0, 0, 1, 0, 0, 0, 1] := by
    decide +kernel
  have hcontract := control_errors_iff (clearProbed 4)
    [2, 1, 0, 1, 0, 0, 0, 0, 0, 0, 0, 1, 0, 0, 0, 1] (List.cons_ne_nil _ _)
  have hfaults : FaultsReported 4 0 [2, 1, 0, 1, 0, 0, 0, 0, 0, 0, 0, 1, 0, 0, 0, 1] := by
    decide +kernel
  exact ⟨hgrammar, (hcontract.1.mp hfaults).mpr hgrammar⟩

/-- For groups of four, both dispatchers accept a suspend control at the boundary 2, which is
outside the grammar, and a FEC_PARITY record of one byte. -/
theorem misaligned_boundary_accepted :
    (¬ ControlGrammar 4 0 [2, 1, 0, 0, 0, 0, 0, 0, 0, 0, 0, 1, 0, 0, 0, 2] ∧
      (¬ ∃ e, ((clearProbed 4).onControlWithScratch
        [2, 1, 0, 0, 0, 0, 0, 0, 0, 0, 0, 1, 0, 0, 0, 2]).2 = .error e) ∧
      ¬ ∃ e, ((clearProbed 4).onControlActorWithScratch
        [2, 1, 0, 0, 0, 0, 0, 0, 0, 0, 0, 1, 0, 0, 0, 2]).2 = .error e) ∧
    ¬ ControlGrammar 4 0 [1] ∧
      (¬ ∃ e, ((clearProbed 4).onControlWithScratch [1]).2 = .error e) ∧
      ¬ ∃ e, ((clearProbed 4).onControlActorWithScratch [1]).2 = .error e := by
  refine ⟨⟨by decide +kernel, nofun, nofun⟩, by decide +kernel, nofun, nofun⟩

end TlsVpn.Fec
