import TlsVpn.Fec.Group
import TlsVpn.Fec.Table

/-!
# Whatever is recovered is what was sent

A decoder forgets groups all the time: a suspension drops them, a passed boundary retires them, and
a full table evicts the oldest. A group that comes back starts again with an empty accumulator. None
of this makes it recover anything but a payload of the sender: `Follows` is the invariant that every
live group has accumulated exactly the members it has marked, and holds no parity but the record of
a complete group. `Follows.receive` keeps it for every arrival that an honest peer can cause, and
`Follows.exact` reads the exactness of what is recovered off it.
-/

namespace TlsVpn.Fec

open Lib Crypto List

namespace Stream

/-- What the peer of the stream's sender can hear: frames of the stream under their numbers and,
with the kind of a parity record, records of complete groups. Any other control is arbitrary. -/
def Authentic (s : Stream) : Incoming → Prop
  | .data _ seq frame => seq ≠ 0 → seq ≤ s.count ∧ frame = s.payload seq
  | .control _ _ payload => payload.head? = some controlKindFECParity →
      ∃ group, s.Complete group ∧ payload = s.record group

/-- Groups are opened at the starts of the stream's groups and written with exact contents. -/
def Fits (s : Stream) : TableOp → Prop
  | .create start => ∃ group, start = s.member group 0
  | .put g => ∃ group, Collects s group g
  | .finish _ _ | .countRecovered | .setFence _ | .setCleanup _ | .setRetired _ | .drop _ => True

/-- The pair is a frame of the stream. -/
def Carries (s : Stream) (out : Nat × Bytes) : Prop :=
  0 < out.1 ∧ out.1 ≤ s.count ∧ out.2 = s.payload out.1

variable {s : Stream} {rx : Option InnerCipher} {group : Nat}

/-- The other end of the cipher opens the body of a record. -/
theorem open_record (hpair : CipherPair s.ic rx) (hcomplete : s.Complete group) :
    openTo rx (((s.record group).drop (6 + 4 * s.k)).take ((s.body group).length + tagLen rx))
      (s.member group 0) (((s.body group).length + tagLen rx) % 4294967296)
        = some (s.body group) := by
  have hne := body_ne_nil hcomplete
  rw [hpair.tagLen_eq, record_sealed, take_of_length_le (hpair.length_seal _ _ _ hne).le]
  exact hpair.open_seal _ _ _ hne

end Stream

namespace FecDecoder

/-- Every live group stands at the start of a group of the stream and has collected exactly what it
has marked. -/
structure Follows (s : Stream) (rx : Option InnerCipher) (d : FecDecoder) : Prop where
  k_eq : d.k = s.k
  ic_eq : d.ic = rx
  collects : ∀ start g, d.lookupGroup start = some g →
    ∃ group, start = s.member group 0 ∧ Collects s group g

variable {s : Stream} {rx : Option InnerCipher} {d d' : FecDecoder} {g : FecGroupState}
  {group i : Nat}

theorem cipher_apply_op (d : FecDecoder) (op : TableOp) : (d.applyOp op).ic = d.ic := by
  cases op with
  | create start =>
    obtain ⟨order, head, hnew, -⟩ := d.new_group_spec start
    simp only [applyOp, hnew]
  | drop p =>
    obtain ⟨order, head, hdrop, -⟩ := d.drop_groups_spec p
    simp only [applyOp, hdrop]
  | put | finish | countRecovered | setFence | setCleanup | setRetired => rfl

namespace Follows

theorem apply_op {op : TableOp} (h : d.Follows s rx) (hop : s.Fits op) :
    (d.applyOp op).Follows s rx := by
  refine ⟨(d.size_apply_op op).1.trans h.k_eq, (d.cipher_apply_op op).trans h.ic_eq, ?_⟩
  intro start g hg
  rcases lookup_apply_op hg with hold | ⟨rfl, rfl⟩ | ⟨rfl, rfl⟩
  · exact h.collects start g hold
  · obtain ⟨group, rfl⟩ := hop
    exact ⟨group, rfl, .new s group⟩
  · obtain ⟨group, hcollects⟩ := hop
    exact ⟨group, hcollects.start_eq, hcollects⟩

theorem run_ops {list : List TableOp} (h : d.Follows s rx) (hops : ∀ op ∈ list, s.Fits op)
    (hrun : run opStep d list = some d') : d'.Follows s rx := by
  refine run_invariant ?_ h (along_of_mem fun op hop _ => hops op hop) hrun
  intro d op d' hfollows hfits hstep
  cases hstep
  exact hfollows.apply_op hfits

/-- Opening a group of the stream hands out one that has collected what it has marked. -/
theorem open_group (h : d.Follows s rx) (group : Nat) :
    Collects s group (d.openGroup (s.member group 0)).2 := by
  unfold openGroup
  cases hlookup : d.lookupGroup (s.member group 0) with
  | none => exact .new s group
  | some g =>
    obtain ⟨other, hstart, hcollects⟩ := h.collects _ g hlookup
    have hsame := (Stream.member_inj s.k_pos s.k_pos hstart).1
    rw [hsame]
    exact hcollects

theorem group_start_of (h : d.Follows s rx) (hi : i < s.k) :
    d.groupStartOf (s.member group i) = s.member group 0 := by
  have hmod : (s.member group i - 1) % s.k = i := by
    rw [Stream.member, show s.k * group + 1 + i - 1 = s.k * group + i by omega,
      Nat.mul_add_mod_self_left, Nat.mod_eq_of_lt hi]
  unfold groupStartOf
  rw [h.k_eq, hmod]
  unfold Stream.member
  omega

end Follows

/-! ## The operations of an arrival fit the stream -/

theorem fits_recover_ops (s : Stream) (g : FecGroupState) : ∀ op ∈ recoverOps g, s.Fits op := by
  intro op hop
  unfold recoverOps at hop
  cases hparity : g.parity with
  | none =>
    rw [hparity] at hop
    cases hop
  | some parity =>
    simp only [hparity] at hop
    split at hop
    · cases hop
    split at hop
    · rw [mem_singleton.mp hop]
      trivial
    · split at hop
      · rw [mem_singleton.mp hop]
        trivial
      · rcases mem_pair.mp hop with rfl | rfl
        · trivial
        · trivial
    · cases hop

theorem fits_open_ops (s : Stream) (d : FecDecoder) (group : Nat) :
    ∀ op ∈ d.openOps (s.member group 0), s.Fits op := by
  intro op hop
  unfold openOps at hop
  split at hop
  · cases hop
  rw [mem_singleton.mp hop]
  exact ⟨group, rfl⟩

theorem fits_retire_ops (s : Stream) (d : FecDecoder) (progress : Option Nat) :
    ∀ op ∈ d.retireOps progress, s.Fits op := by
  intro op hop
  unfold retireOps at hop
  split at hop
  · cases hop
  split at hop
  · cases hop
  split at hop
  · cases hop
  rcases mem_pair.mp hop with rfl | rfl
  · trivial
  · trivial

theorem fits_member_ops (hcollects : Collects s group g) (hi : i < s.k) (fullMask : Nat) :
    ∀ op ∈ memberOps fullMask g i (s.payload (s.member group i)), s.Fits op := by
  intro op hop
  unfold memberOps at hop
  split at hop
  · cases hop
  rename_i hnew
  split at hop
  · rw [mem_singleton.mp hop]
    trivial
  · rcases mem_cons.mp hop with rfl | hrecover
    · exact ⟨group, hcollects.count hi hnew⟩
    · exact fits_recover_ops s _ op hrecover

theorem fits_data_ops (h : d.Follows s rx) (hi : i < s.k) (progress : Option Nat) :
    ∀ op ∈ d.dataOps progress (s.member group i) (s.payload (s.member group i)), s.Fits op := by
  have hoffset : s.member group i - s.member group 0 = i := by
    unfold Stream.member
    omega
  intro op hop
  unfold dataOps at hop
  rw [h.group_start_of hi, hoffset] at hop
  split at hop
  · cases hop
  split at hop
  · cases hop
  split at hop
  · split at hop
    · exact fits_retire_ops s d progress op hop
    · cases hop
  · split at hop
    · cases hop
    split at hop
    · cases hop
    rcases mem_append.mp hop with hopen | hcount
    · exact fits_open_ops s d group op hopen
    · exact fits_member_ops (h.open_group group) hi d.fullMask op hcount

theorem fits_accept_ops (h : d.Follows s rx) (hpair : CipherPair s.ic rx)
    (hcomplete : s.Complete group) (after : Option Nat) :
    ∀ op ∈ d.acceptOps after (s.member group 0) (s.lens group) (s.record group), s.Fits op := by
  have hcollects := h.open_group group
  intro op hop
  unfold acceptOps at hop
  simp only [s.foldl_max_lens, h.ic_eq, h.k_eq, Stream.open_record hpair hcomplete] at hop
  rcases mem_append.mp hop with hfront | hretire
  · rcases mem_append.mp hfront with hopen | hheld
    · exact fits_open_ops s d group op hopen
    · rcases mem_cons.mp hheld with rfl | hrecover
      · exact ⟨group, hcollects.held hcomplete⟩
      · exact fits_recover_ops s _ op hrecover
  · exact fits_retire_ops s _ after op hretire

theorem Follows.maybe_retire (h : d.Follows s rx) (progress : Option Nat) :
    (d.maybeRetireOldGroups progress).Follows s rx :=
  h.run_ops (fits_retire_ops s d progress) (run_retire_ops d progress)

theorem fits_parity_ops (h : d.Follows s rx) (hpair : CipherPair s.ic rx)
    (hcomplete : s.Complete group) (before after : Option Nat) :
    ∀ op ∈ d.parityOps before after (s.record group), s.Fits op := by
  have hretired := h.maybe_retire before
  intro op hop
  unfold parityOps at hop
  simp only [Stream.record_start hcomplete, hretired.k_eq, Stream.record_lens hcomplete] at hop
  split at hop
  · cases hop
  split at hop
  · cases hop
  rcases mem_append.mp hop with hretire | hrest
  · exact fits_retire_ops s d before op hretire
  · split at hrest
    · cases hrest
    split at hrest
    · cases hrest
    split at hrest
    · cases hrest
    split at hrest
    · cases hrest
    split at hrest
    · cases hrest
    · exact fits_accept_ops hretired hpair hcomplete after op hrest

theorem fits_mode_ops (s : Stream) (d : FecDecoder) (progress : Option Nat)
    (ctrl : FecModeControl) : ∀ op ∈ d.modeOps progress ctrl, s.Fits op := by
  intro op hop
  unfold modeOps at hop
  dsimp only at hop
  split at hop
  · rw [mem_singleton.mp hop]
    trivial
  · rcases mem_append.mp hop with hfence | hretire
    · simp only [mem_cons, not_mem_nil, or_false] at hfence
      rcases hfence with rfl | rfl | rfl
      · trivial
      · trivial
      · trivial
    · exact fits_retire_ops s _ progress op hretire

/-- The kind of a control is its first byte. -/
theorem head_of_control_kind {payload : Bytes} {kind : UInt8}
    (h : parseControlKind payload = .ok kind) : payload.head? = some kind := by
  unfold parseControlKind at h
  split at h
  · cases h
  split at h
  · cases h
    rfl
  · cases h

/-- A number of the stream as a member of its group. -/
theorem exists_member (s : Stream) {seq : Nat} (hseq : seq ≠ 0) :
    ∃ group i, i < s.k ∧ seq = s.member group i :=
  ⟨(seq - 1) / s.k, (seq - 1) % s.k, Nat.mod_lt _ s.k_pos,
    (s.member_div_mod (Nat.pos_of_ne_zero hseq)).symm⟩

variable {item : Incoming}

theorem fits_ops (h : d.Follows s rx) (hpair : CipherPair s.ic rx) (hitem : s.Authentic item) :
    ∀ op ∈ d.ops item, s.Fits op := by
  cases item with
  | data progress seq frame =>
    by_cases hseq : seq = 0
    · -- an unnumbered frame is not counted
      intro op hop
      simp only [ops, dataOps, hseq, or_true, if_true] at hop
      cases hop
    · obtain ⟨group, i, hi, rfl⟩ := exists_member s hseq
      rw [(hitem hseq).2]
      exact fits_data_ops h hi progress
  | control before after payload =>
    intro op hop
    unfold ops at hop
    dsimp only at hop
    split at hop
    · cases hop
    rename_i kind hkind
    split at hop
    · rename_i hparity
      subst hparity
      obtain ⟨group, hcomplete, rfl⟩ := hitem (head_of_control_kind hkind)
      exact fits_parity_ops h hpair hcomplete before after op hop
    · split at hop
      · exact fits_mode_ops s d before _ op hop
      · cases hop

/-- Every arrival from the stream's sender keeps the table exact. -/
theorem Follows.receive (h : d.Follows s rx) (hpair : CipherPair s.ic rx)
    (hitem : s.Authentic item) : (d.receive item).1.Follows s rx :=
  h.run_ops (fits_ops h hpair hitem) (receive_eq_run d item)

/-! ## What is recovered -/

variable {out : Nat × Bytes}

/-- The one missing member is the difference of the others. -/
theorem try_recover_exact (hcollects : Collects s group g) (h : (d.tryRecover g).2 = some out) :
    s.Carries out := by
  unfold tryRecover at h
  cases hparity : g.parity with
  | none =>
    rw [hparity] at h
    cases h
  | some parity =>
    have hheld : g.parity ≠ none := by
      rw [hparity]
      exact Option.some_ne_none _
    obtain ⟨hcomplete, hk, hlens, hbody⟩ := hcollects.parity_spec hheld
    simp only [hparity] at h
    split at h
    · cases h
    split at h
    · cases h
    · rename_i i hmissing
      split at h
      · cases h
      cases h
      have hi := ((hcollects.mem_missing hheld).mp (hmissing ▸ mem_singleton_self i)).1
      have hle := hcomplete.member_le hi
      have hlt := s.count_lt
      have hseq : add32 g.start i = s.member group i := by
        rw [hcollects.start_eq, add32]
        unfold Stream.member at hle ⊢
        omega
      have hparity_eq : parity = s.body group := Option.some.inj (hparity.symm.trans hbody)
      refine ⟨?_, ?_, ?_⟩
      · rw [hseq]
        exact s.member_pos group i
      · rw [hseq]
        exact hle
      · rw [hseq, hparity_eq]
        exact hcollects.reconstruct_eq hheld hmissing
    · cases h

theorem on_data_exact (h : d.Follows s rx) (hi : i < s.k) (progress : Option Nat)
    (hout : (d.onData progress (s.member group i) (s.payload (s.member group i))).2 = some out) :
    s.Carries out := by
  have hoffset : s.member group i - s.member group 0 = i := by
    unfold Stream.member
    omega
  have hcollects := h.open_group group
  unfold onData at hout
  simp only [h.group_start_of hi, hoffset] at hout
  split at hout
  · cases hout
  split at hout
  · cases hout
  split at hout
  · cases hout
  split at hout
  · cases hout
  split at hout
  · cases hout
  unfold onMember at hout
  split at hout
  · cases hout
  rename_i hnew
  split at hout
  · cases hout
  · exact try_recover_exact (hcollects.count hi hnew) hout

theorem on_parity_exact (h : d.Follows s rx) (hpair : CipherPair s.ic rx)
    (hcomplete : s.Complete group) (before after : Option Nat)
    (hout : (d.onParity before after (s.record group)).2 = some out) : s.Carries out := by
  have hretired := h.maybe_retire before
  have hcollects := hretired.open_group group
  unfold onParity at hout
  simp only [Stream.record_start hcomplete, hretired.k_eq, Stream.record_lens hcomplete] at hout
  split at hout
  · cases hout
  split at hout
  · cases hout
  split at hout
  · cases hout
  split at hout
  · cases hout
  split at hout
  · cases hout
  split at hout
  · cases hout
  split at hout
  · cases hout
  simp only [acceptParity, s.foldl_max_lens, hretired.ic_eq, hretired.k_eq,
    Stream.open_record hpair hcomplete] at hout
  exact try_recover_exact (hcollects.held hcomplete) hout

/-- Whatever an arrival from the stream's sender lets the decoder recover is a frame of the
stream, under its number. -/
theorem Follows.exact (h : d.Follows s rx) (hpair : CipherPair s.ic rx) (hitem : s.Authentic item)
    (hout : (d.receive item).2 = some out) : s.Carries out := by
  cases item with
  | data progress seq frame =>
    by_cases hseq : seq = 0
    · simp only [FecDecoder.receive, onData, hseq, or_true, if_true] at hout
      cases hout
    · obtain ⟨group, i, hi, rfl⟩ := exists_member s hseq
      rw [(hitem hseq).2] at hout
      exact on_data_exact h hi progress hout
  | control before after payload =>
    cases hkind : parseControlKind payload with
    | error e =>
      simp only [FecDecoder.receive, onControl, hkind] at hout
      cases hout
    | ok kind =>
      by_cases hparity : kind = controlKindFECParity
      · subst hparity
        obtain ⟨group, hcomplete, rfl⟩ := hitem (head_of_control_kind hkind)
        simp only [FecDecoder.receive, onControl, hkind] at hout
        exact on_parity_exact h hpair hcomplete before after hout
      · cases hmode : parseFECModeControl payload with
        | none =>
          simp only [FecDecoder.receive, onControl, hkind, hmode, Except.bind, bind] at hout
          rw [if_neg hparity] at hout
          cases hout
        | some ctrl =>
          simp only [FecDecoder.receive, on_control_mode d hmode] at hout
          cases hout

end FecDecoder

end TlsVpn.Fec
