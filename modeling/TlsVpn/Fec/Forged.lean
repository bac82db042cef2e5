import TlsVpn.Fec.Bookkeeping
import TlsVpn.Lib.Unwinding

/-!
# Rejected parity

A record that `OnParity` rejects may leave traces: when its body does not open, a group has been
created for it and has taken its size. `FecDecoder.Alike` relates two decoders that differ by such
traces only; equal arrivals keep them alike and recover the same members, as long as no group is
evicted (`Alike.receive`), and a rejected record leaves a decoder alike (`alike_rejected`).

There is one more effect. A record with the right size and an aligned start probes the progress of
the reorder buffer before it is checked any further, and may so retire the groups below a suspend
boundary earlier than they would be otherwise. `forged_parity_inert` excludes that case and
`forged_parity_retires` is an instance of it.
-/

namespace TlsVpn.Fec

open Lib Crypto Function

/-! ## Rejected records -/

/-- The count is not the group size. -/
def WrongCount (k : Nat) (payload : Bytes) : Prop := (byteAt payload 5).toNat ≠ k

/-- No group starts there. -/
def MisalignedStart (k : Nat) (payload : Bytes) : Prop :=
  recordStart payload = 0 ∨ (recordStart payload - 1) % k ≠ 0

/-- The record is too short for its descriptor, or announces a member longer than its body. -/
def InconsistentLengths (k : Nat) (ic : Option InnerCipher) (payload : Bytes) : Prop :=
  payload.length < 6 + 4 * k + tagLen ic ∨
    ∃ l ∈ FecDecoder.descriptorLens payload k, l + tagLen ic > payload.length - (6 + 4 * k)

/-- The cipher refuses the body. -/
def UnauthenticatedBody (k : Nat) (ic : Option InnerCipher) (payload : Bytes) : Prop :=
  let wireLen := (FecDecoder.descriptorLens payload k).foldl max 0 + tagLen ic
  openTo ic ((payload.drop (6 + 4 * k)).take wireLen) (recordStart payload)
    (wireLen % 4294967296) = none

/-- A parity record that a decoder for groups of `k` frames rejects. -/
def RejectedParity (k : Nat) (ic : Option InnerCipher) (payload : Bytes) : Prop :=
  payload.head? = some controlKindFECParity ∧
    (WrongCount k payload ∨ MisalignedStart k payload ∨ InconsistentLengths k ic payload ∨
      UnauthenticatedBody k ic payload)

instance (k : Nat) (payload : Bytes) : Decidable (WrongCount k payload) :=
  inferInstanceAs (Decidable (_ ≠ _))

instance (k : Nat) (payload : Bytes) : Decidable (MisalignedStart k payload) :=
  inferInstanceAs (Decidable (_ ∨ _))

instance (k : Nat) (ic : Option InnerCipher) (payload : Bytes) :
    Decidable (InconsistentLengths k ic payload) :=
  inferInstanceAs (Decidable (_ ∨ _))

instance (k : Nat) (ic : Option InnerCipher) (payload : Bytes) :
    Decidable (UnauthenticatedBody k ic payload) :=
  inferInstanceAs (Decidable (_ = _))

instance (k : Nat) (ic : Option InnerCipher) (payload : Bytes) :
    Decidable (RejectedParity k ic payload) :=
  inferInstanceAs (Decidable (_ ∧ _))

/-! ## Groups up to the traces of a rejected record -/

namespace FecGroupState

variable {g g' : FecGroupState}

/-- What later calls can still read of a group: its size and lengths only with its parity. -/
def outline (g : FecGroupState) : FecGroupState :=
  if g.parity = none then { g with k := 0, lens := [] } else g

theorem outline_of_parity {body : Bytes} (h : g.parity = some body) : g.outline = g := by
  rw [outline, h, if_neg (Option.some_ne_none body)]

theorem outline_of_none (h : g.parity = none) : g.outline = { g with k := 0, lens := [] } :=
  if_pos h

/-- The outline keeps the start, the members received and the parity. -/
theorem outline_fields (g : FecGroupState) :
    g.outline.start = g.start ∧ g.outline.gotMask = g.gotMask ∧ g.outline.acc = g.acc ∧
      g.outline.parity = g.parity := by
  cases hparity : g.parity with
  | none => simp [outline_of_none hparity, hparity]
  | some body => simp [outline_of_parity hparity, hparity]

/-- Groups of one outline agree on these fields. -/
theorem fields_of_outline (h : g.outline = g'.outline) :
    g.start = g'.start ∧ g.gotMask = g'.gotMask ∧ g.acc = g'.acc ∧ g.parity = g'.parity := by
  obtain ⟨hstart, hmask, hacc, hparity⟩ := g.outline_fields
  obtain ⟨hstart', hmask', hacc', hparity'⟩ := g'.outline_fields
  rw [← hstart, ← hmask, ← hacc, ← hparity, h]
  exact ⟨hstart', hmask', hacc', hparity'⟩

/-- With the parity, groups of one outline are the same. -/
theorem eq_of_outline (h : g.outline = g'.outline) {body : Bytes} (hparity : g.parity = some body) :
    g = g' := by
  have hparity' : g'.parity = some body := (fields_of_outline h).2.2.2 ▸ hparity
  rw [outline_of_parity hparity, outline_of_parity hparity'] at h
  exact h

/-- Groups of one outline become the same when they take the size and lengths of a record. -/
theorem resize_of_outline (h : g.outline = g'.outline) (k : Nat) (lens : List Nat) :
    { g with k, lens } = { g' with k, lens } := by
  obtain ⟨hstart, hmask, hacc, hparity⟩ := fields_of_outline h
  rw [hstart, hmask, hacc, hparity]

/-- A member counts the same in groups of one outline. -/
theorem outline_counted (h : g.outline = g'.outline) (mask : Nat) (acc : Bytes) :
    { g with gotMask := mask, acc }.outline = { g' with gotMask := mask, acc }.outline := by
  cases hparity : g.parity with
  | none =>
    obtain ⟨hstart, -, -, hsame⟩ := fields_of_outline h
    have hparity' : g'.parity = none := hsame ▸ hparity
    simp [outline, hparity', hstart]
  | some body =>
    cases eq_of_outline h hparity
    rw [hparity]

end FecGroupState

namespace FecDecoder

variable {d d' d'' : FecDecoder} {g g' : FecGroupState}

/-- The state of a group, that of a new one where there is none. -/
def stateOf (d : FecDecoder) (start : Nat) : FecGroupState :=
  (d.lookupGroup start).getD (.new start)

theorem state_of_set_group (d : FecDecoder) (g : FecGroupState) (start : Nat) :
    (d.setGroup g).stateOf start = if start = g.start then g else d.stateOf start := by
  by_cases heq : start = g.start
  · rw [if_pos heq, heq, stateOf, lookupGroup, setGroup, AList.lookup_insert]
    rfl
  · rw [if_neg heq, stateOf, lookupGroup, setGroup, AList.lookup_insert_ne heq]
    rfl

theorem state_of_finish_group (d : FecDecoder) (g : FecGroupState) (start : Nat) :
    (d.finishGroup g).stateOf start = if start = g.start then .new start else d.stateOf start := by
  by_cases heq : start = g.start
  · rw [if_pos heq, heq, stateOf, lookupGroup, finishGroup, AList.lookup_erase]
    rfl
  · rw [if_neg heq, stateOf, lookupGroup, finishGroup, AList.lookup_erase_ne heq]
    rfl

theorem state_of_drop_groups (d : FecDecoder) (p : Nat → Bool) (start : Nat) :
    (d.dropGroups p).stateOf start = if p start then .new start else d.stateOf start := by
  rw [stateOf, lookup_drop_groups]
  split
  · rfl
  · rfl

/-- Two decoders that differ at most by the traces of rejected records. -/
structure Alike (d d' : FecDecoder) : Prop where
  settings : SameSettings d d'
  doneRing_eq : d'.doneRing = d.doneRing
  outline_eq : ∀ start, (d'.stateOf start).outline = (d.stateOf start).outline

namespace Alike

theorem refl (d : FecDecoder) : Alike d d := ⟨.refl d, rfl, fun _ => rfl⟩

theorem symm (h : Alike d d') : Alike d' d := by
  obtain ⟨hk, hmask, hsingle, hfence, hcleanup, hretired, hic⟩ := h.settings
  exact ⟨⟨hk.symm, hmask.symm, hsingle.symm, hfence.symm, hcleanup.symm, hretired.symm, hic.symm⟩,
    h.doneRing_eq.symm, fun start => (h.outline_eq start).symm⟩

theorem trans (h : Alike d d') (h' : Alike d' d'') : Alike d d'' :=
  ⟨h.settings.trans h'.settings, h'.doneRing_eq.trans h.doneRing_eq,
    fun start => (h'.outline_eq start).trans (h.outline_eq start)⟩

theorem is_done_iff (h : Alike d d') (start : Nat) : d'.IsDone start ↔ d.IsDone start := by
  rw [IsDone, IsDone, h.doneRing_eq]

theorem group_start_of_eq (h : Alike d d') (seq : Nat) :
    d'.groupStartOf seq = d.groupStartOf seq := by
  rw [groupStartOf, groupStartOf, h.settings.k_eq]

/-! ## Operations on the tables -/

theorem set_group (h : Alike d d') (hg : g'.outline = g.outline) :
    Alike (d.setGroup g) (d'.setGroup g') := by
  obtain ⟨hk, hmask, hsingle, hfence, hcleanup, hretired, hic⟩ := h.settings
  refine ⟨⟨hk, hmask, hsingle, hfence, hcleanup, hretired, hic⟩, h.doneRing_eq, fun start => ?_⟩
  rw [state_of_set_group, state_of_set_group, (FecGroupState.fields_of_outline hg).1]
  split
  · exact hg
  · exact h.outline_eq start

theorem finish_group (h : Alike d d') (hstart : g'.start = g.start) :
    Alike (d.finishGroup g) (d'.finishGroup g') := by
  obtain ⟨hk, hmask, hsingle, hfence, hcleanup, hretired, hic⟩ := h.settings
  refine ⟨⟨hk, hmask, hsingle, hfence, hcleanup, hretired, hic⟩, ?_, fun start => ?_⟩
  · show update d'.doneRing _ _ = update d.doneRing _ _
    rw [h.doneRing_eq, hstart]
  · rw [state_of_finish_group, state_of_finish_group, hstart]
    split
    · rfl
    · exact h.outline_eq start

theorem drop_groups (h : Alike d d') (p : Nat → Bool) :
    Alike (d.dropGroups p) (d'.dropGroups p) := by
  obtain ⟨order, head, hdrop, -⟩ := d.drop_groups_spec p
  obtain ⟨order', head', hdrop', -⟩ := d'.drop_groups_spec p
  obtain ⟨hk, hmask, hsingle, hfence, hcleanup, hretired, hic⟩ := h.settings
  refine ⟨?_, ?_, fun start => ?_⟩
  · rw [hdrop, hdrop']
    exact ⟨hk, hmask, hsingle, hfence, hcleanup, hretired, hic⟩
  · rw [hdrop, hdrop']
    exact h.doneRing_eq
  · rw [state_of_drop_groups, state_of_drop_groups]
    split
    · rfl
    · exact h.outline_eq start

end Alike

/-- Opening a group below the pending limit leaves the decoder alike. -/
theorem alike_open_group (hroom : d.groups.keys.length < fecMaxPendingGroups) (start : Nat) :
    Alike d (d.openGroup start).1 ∧ (d.openGroup start).2 = d.stateOf start := by
  unfold openGroup stateOf
  cases hlookup : d.lookupGroup start with
  | some g => exact ⟨.refl d, rfl⟩
  | none =>
    obtain ⟨order, head, hnew⟩ := new_group_eq hroom start
    refine ⟨?_, rfl⟩
    dsimp only
    rw [hnew]
    refine ⟨⟨rfl, rfl, rfl, rfl, rfl, rfl, rfl⟩, rfl, fun other => ?_⟩
    rw [stateOf, lookupGroup]
    by_cases heq : other = start
    · rw [heq, AList.lookup_insert, stateOf, hlookup]
      rfl
    · rw [AList.lookup_insert_ne heq]
      rfl

theorem length_keys_retire (d : FecDecoder) (progress : Option Nat) :
    (d.maybeRetireOldGroups progress).groups.keys.length ≤ d.groups.keys.length := by
  unfold maybeRetireOldGroups
  split
  · exact le_rfl
  · cases progress with
    | none => exact le_rfl
    | some expected =>
      dsimp only
      split
      · exact le_rfl
      · rw [drop_groups_retired]
        obtain ⟨order, head, hdrop, -⟩ := d.drop_groups_spec fun start => start < d.cleanupBefore
        rw [hdrop]
        exact length_keys_foldl_erase _ _

theorem bind_parity (d : FecDecoder) (start : Nat) :
    (d.lookupGroup start).bind (·.parity) = (d.stateOf start).parity := by
  rw [stateOf]
  cases d.lookupGroup start with
  | none | some => rfl

theorem Alike.parity_eq (h : Alike d d') (start : Nat) :
    (d'.lookupGroup start).bind (·.parity) = (d.lookupGroup start).bind (·.parity) := by
  rw [bind_parity, bind_parity]
  exact (FecGroupState.fields_of_outline (h.outline_eq start)).2.2.2

/-! ## Calls on alike decoders -/

/-- Two results of a call: the decoders are alike and the same member was recovered. -/
structure Agree (r r' : FecDecoder × Option (Nat × Bytes)) : Prop where
  alike : Alike r.1 r'.1
  out_eq : r'.2 = r.2

namespace Agree

theorem silent (h : Alike d d') : Agree (d, none) (d', none) := ⟨h, rfl⟩

/-- Results agree if the calls branch the same way and agree in each branch. -/
theorem ite {c c' : Prop} [Decidable c] [Decidable c']
    {a a' b b' : FecDecoder × Option (Nat × Bytes)} (hiff : c' ↔ c) (hpos : c → Agree a a')
    (hneg : ¬ c → Agree b b') : Agree (if c then a else b) (if c' then a' else b') := by
  by_cases h : c
  · rw [if_pos h, if_pos (hiff.mpr h)]
    exact hpos h
  · rw [if_neg h, if_neg (mt hiff.mp h)]
    exact hneg h

end Agree

namespace Alike

theorem maybe_retire (h : Alike d d') (progress : Option Nat) :
    Alike (d.maybeRetireOldGroups progress) (d'.maybeRetireOldGroups progress) := by
  unfold maybeRetireOldGroups
  rw [h.settings.cleanupBefore_eq, h.settings.retiredBefore_eq]
  split
  · exact h
  · cases progress with
    | none => exact h
    | some expected =>
      dsimp only
      split
      · exact h
      · refine drop_groups ?_ _
        obtain ⟨hk, hmask, hsingle, hfence, -, -, hic⟩ := h.settings
        exact ⟨⟨hk, hmask, hsingle, hfence, rfl, rfl, hic⟩, h.doneRing_eq, h.outline_eq⟩

theorem try_recover (h : Alike d d') (hg : g'.outline = g.outline) :
    Agree (d.tryRecover g) (d'.tryRecover g') := by
  unfold tryRecover
  cases hparity : g'.parity with
  | none =>
    rw [← (FecGroupState.fields_of_outline hg).2.2.2, hparity]
    exact .silent h
  | some parity =>
    cases FecGroupState.eq_of_outline hg hparity
    rw [hparity]
    dsimp only
    refine .ite Iff.rfl (fun _ => .silent h) fun _ => ?_
    match g.missing with
    | [] => exact .silent (h.finish_group rfl)
    | [i] =>
      refine .ite Iff.rfl (fun _ => .silent (h.finish_group rfl)) fun _ => ?_
      obtain ⟨⟨hk, hmask, hsingle, hfence, hcleanup, hretired, hic⟩, hdone, houtline⟩ :=
        h.finish_group (rfl : (g.mark i).start = (g.mark i).start)
      exact ⟨⟨⟨hk, hmask, hsingle, hfence, hcleanup, hretired, hic⟩, hdone, houtline⟩, rfl⟩
    | _ :: _ :: _ => exact .silent h

theorem on_member (h : Alike d d') (hg : g'.outline = g.outline) (i : Nat) (frame : Bytes) :
    Agree (d.onMember g i frame) (d'.onMember g' i frame) := by
  obtain ⟨hstart, hmask, hacc, -⟩ := FecGroupState.fields_of_outline hg
  unfold onMember
  refine .ite ?_ (fun _ => .silent h) fun _ => .ite ?_ (fun _ => ?_) fun _ => ?_
  · rw [FecGroupState.Got, FecGroupState.Got, hmask]
  · rw [FecGroupState.mark, FecGroupState.mark, hmask, h.settings.fullMask_eq]
  · exact .silent (h.finish_group hstart)
  · have hcounted := FecGroupState.outline_counted hg (g.gotMask ||| (1 <<< i))
      (xorExtend g.acc frame)
    dsimp only [FecGroupState.mark]
    rw [hmask, hacc]
    exact (h.set_group hcounted).try_recover hcounted

/-- Below the pending limit the group of a frame is opened alike. -/
theorem open_group (h : Alike d d') (hroom : d.groups.keys.length < fecMaxPendingGroups)
    (hroom' : d'.groups.keys.length < fecMaxPendingGroups) (start : Nat) :
    Alike (d.openGroup start).1 (d'.openGroup start).1 ∧
      (d'.openGroup start).2.outline = (d.openGroup start).2.outline := by
  obtain ⟨halike, hstate⟩ := alike_open_group hroom start
  obtain ⟨halike', hstate'⟩ := alike_open_group hroom' start
  refine ⟨(halike.symm.trans h).trans halike', ?_⟩
  rw [hstate, hstate']
  exact h.outline_eq start

theorem on_data (h : Alike d d') (hroom : d.groups.keys.length < fecMaxPendingGroups)
    (hroom' : d'.groups.keys.length < fecMaxPendingGroups) (progress : Option Nat) (seq : Nat)
    (frame : Bytes) : Agree (d.onData progress seq frame) (d'.onData progress seq frame) := by
  unfold onData
  refine .ite Iff.rfl (fun _ => .silent h) fun _ => ?_
  refine .ite (by rw [h.settings.staticSingle_eq]) (fun _ => .silent h) fun _ => ?_
  refine .ite (by rw [h.settings.fence_eq]) (fun _ => ?_) fun _ => ?_
  · split
    · exact .silent (h.maybe_retire progress)
    · exact .silent h
  refine .ite (by rw [h.settings.retiredBefore_eq]) (fun _ => .silent h) fun _ => ?_
  rw [h.group_start_of_eq seq]
  refine .ite (h.is_done_iff _) (fun _ => .silent h) fun _ => ?_
  obtain ⟨hopen, houtline⟩ := h.open_group hroom hroom' (d.groupStartOf seq)
  exact hopen.on_member houtline _ frame

theorem accept_parity (h : Alike d d') (hroom : d.groups.keys.length < fecMaxPendingGroups)
    (hroom' : d'.groups.keys.length < fecMaxPendingGroups) (after : Option Nat) (start : Nat)
    (lens : List Nat) (payload : Bytes) :
    Agree (d.acceptParity after start lens payload) (d'.acceptParity after start lens payload) := by
  obtain ⟨hopen, houtline⟩ := h.open_group hroom hroom' start
  have hsized := FecGroupState.resize_of_outline houtline d.k
  unfold acceptParity
  dsimp only
  rw [h.settings.ic_eq, h.settings.k_eq]
  generalize openTo d.ic _ start _ = body
  cases body with
  | none => exact .silent (hopen.set_group (congrArg FecGroupState.outline (hsized [])))
  | some body =>
    have hheld := congrArg (fun g : FecGroupState => { g with parity := some body }.outline)
      (hsized lens)
    obtain ⟨hnext, hout⟩ := (hopen.set_group hheld).try_recover hheld
    exact ⟨hnext.maybe_retire after, hout⟩

theorem on_parity (h : Alike d d') (hroom : d.groups.keys.length < fecMaxPendingGroups)
    (hroom' : d'.groups.keys.length < fecMaxPendingGroups) (before after : Option Nat)
    (payload : Bytes) :
    Agree (d.onParity before after payload) (d'.onParity before after payload) := by
  have hretired := h.maybe_retire before
  have hfits := (d.length_keys_retire before).trans_lt hroom
  have hfits' := (d'.length_keys_retire before).trans_lt hroom'
  unfold onParity
  refine .ite (by rw [h.settings.staticSingle_eq]) (fun _ => .silent h) fun _ => ?_
  dsimp only
  refine .ite (by rw [h.settings.k_eq]) (fun _ => .silent h) fun _ => ?_
  generalize d.maybeRetireOldGroups before = e at hretired hfits ⊢
  generalize d'.maybeRetireOldGroups before = e' at hretired hfits' ⊢
  rw [hretired.settings.k_eq, hretired.settings.ic_eq, hretired.settings.retiredBefore_eq]
  refine .ite Iff.rfl (fun _ => .silent hretired) fun _ => ?_
  refine .ite Iff.rfl (fun _ => .silent hretired) fun _ => ?_
  refine .ite Iff.rfl (fun _ => .silent hretired) fun _ => ?_
  refine .ite (hretired.is_done_iff _) (fun _ => .silent hretired) fun _ => ?_
  refine .ite ?_ (fun _ => .silent hretired) fun _ => ?_
  · rw [hretired.parity_eq]
  · exact hretired.accept_parity hfits hfits' after _ _ payload

theorem handle_mode (h : Alike d d') (progress : Option Nat) (ctrl : FecModeControl) :
    Alike (d.handleModeControl progress ctrl) (d'.handleModeControl progress ctrl) := by
  obtain ⟨hk, hmask, hsingle, hfence, hcleanup, hretired, hic⟩ := h.settings
  have hcontrol : Alike (d.fenceControl ctrl) (d'.fenceControl ctrl) := by
    unfold fenceControl
    dsimp only
    rw [hfence, hcleanup]
    split
    · exact ⟨⟨hk, hmask, hsingle, rfl, rfl, hretired, hic⟩, h.doneRing_eq, h.outline_eq⟩
    · unfold dropGroupsInRange
      split
      · exact ⟨⟨hk, hmask, hsingle, rfl, rfl, hretired, hic⟩, h.doneRing_eq, h.outline_eq⟩
      · refine drop_groups ?_ _
        exact ⟨⟨hk, hmask, hsingle, rfl, rfl, hretired, hic⟩, h.doneRing_eq, h.outline_eq⟩
  unfold handleModeControl
  dsimp only
  rw [hfence]
  split
  · exact hcontrol
  · exact hcontrol.maybe_retire progress

/-- Equal arrivals keep decoders alike and recover the same member. -/
theorem receive (h : Alike d d') (hroom : d.groups.keys.length < fecMaxPendingGroups)
    (hroom' : d'.groups.keys.length < fecMaxPendingGroups) (item : Incoming) :
    Agree (d.receive item) (d'.receive item) := by
  cases item with
  | data progress seq frame => exact h.on_data hroom hroom' progress seq frame
  | control before after payload =>
    unfold FecDecoder.receive onControl
    dsimp only
    cases parseControlKind payload with
    | error e => exact .silent h
    | ok kind =>
      simp only [bind, Except.bind]
      by_cases hkind : kind = controlKindFECParity
      · rw [if_pos hkind, if_pos hkind]
        exact h.on_parity hroom hroom' before after payload
      · rw [if_neg hkind, if_neg hkind]
        cases parseFECModeControl payload with
        | none => exact .silent h
        | some ctrl => exact .silent (h.handle_mode before ctrl)

end Alike

/-! ## Rejected records leave a decoder alike -/

/-- The progress has crossed a suspend boundary below which groups are still kept. -/
def RetirementDue (d : FecDecoder) (progress : Option Nat) : Prop :=
  d.cleanupBefore ≠ 0 ∧ d.retiredBefore < d.cleanupBefore ∧
    ∃ expected ∈ progress, expected ≠ 0 ∧ d.cleanupBefore ≤ expected

theorem maybe_retire_of_not_due {progress : Option Nat} (h : ¬ d.RetirementDue progress) :
    d.maybeRetireOldGroups progress = d := by
  unfold maybeRetireOldGroups
  split
  · rfl
  · rename_i hopen
    cases progress with
    | none => rfl
    | some expected =>
      refine if_pos ?_
      by_contra hcrossed
      refine h ⟨by tauto, by omega, expected, rfl, by tauto, by omega⟩

/-- A record whose body does not open leaves the groups as they were, up to an empty one. -/
theorem alike_unauthenticated (hwell : d.WellFormed)
    (hroom : d.groups.keys.length < fecMaxPendingGroups) {start : Nat}
    (hparity : (d.stateOf start).parity = none) (k : Nat) :
    Alike d ((d.openGroup start).1.setGroup { (d.openGroup start).2 with k, lens := [] }) := by
  obtain ⟨hopen, hstate⟩ := alike_open_group hroom start
  have hstart := (hwell.open_group start).2.1
  refine hopen.trans ⟨⟨rfl, rfl, rfl, rfl, rfl, rfl, rfl⟩, rfl, fun other => ?_⟩
  rw [state_of_set_group]
  split
  · rename_i heq
    rw [heq, hopen.outline_eq, hstart, hstate, FecGroupState.outline_of_none hparity]
    exact FecGroupState.outline_of_none hparity
  · rfl

/-- A rejected record that finds no retirement due leaves the decoder alike and recovers nothing. -/
theorem alike_rejected (hwell : d.WellFormed) (hroom : d.groups.keys.length < fecMaxPendingGroups)
    {before after : Option Nat} {payload : Bytes} (hrejected : RejectedParity d.k d.ic payload)
    (hquiet : WrongCount d.k payload ∨ MisalignedStart d.k payload ∨ ¬ d.RetirementDue before) :
    Agree (d, none) (d.onParity before after payload) := by
  have hsame := Agree.silent (Alike.refl d)
  unfold onParity
  split
  · exact hsame
  dsimp only
  split
  · exact hsame
  rename_i hheader
  obtain ⟨hpos, hcount, haligned⟩ := not_or.mp hheader |>.imp_right not_or.mp
  have hstart : ¬ MisalignedStart d.k payload := not_or.mpr ⟨hpos, haligned⟩
  rw [maybe_retire_of_not_due ((hquiet.resolve_left hcount).resolve_left hstart)]
  split
  · exact hsame
  split
  · exact hsame
  rename_i hlong
  split
  · exact hsame
  rename_i hlens
  split
  · exact hsame
  split
  · exact hsame
  rename_i hparity
  -- only the body is left to reject the record
  have hbody : UnauthenticatedBody d.k d.ic payload :=
    ((hrejected.2.resolve_left hcount).resolve_left hstart).resolve_left
      (not_or.mpr ⟨hlong, hlens⟩)
  unfold UnauthenticatedBody recordStart at hbody
  rw [acceptParity]
  dsimp only at hbody ⊢
  rw [hbody]
  rw [bind_parity, Option.not_isSome_iff_eq_none] at hparity
  exact .silent (alike_unauthenticated hwell hroom hparity d.k)

instance (d : FecDecoder) (progress : Option Nat) : Decidable (d.RetirementDue progress) :=
  inferInstanceAs (Decidable (_ ∧ _ ∧ _))

/-! ## Two runs -/

/-- The arrival is a parity record that the decoder rejects. -/
def Rejects (d : FecDecoder) : Incoming → Prop
  | .data _ _ _ => False
  | .control _ _ payload => RejectedParity d.k d.ic payload

/-- The arrival is not a parity record for a group of the decoder, or finds no retirement due. -/
def Undisturbed (d : FecDecoder) : Incoming → Prop
  | .data _ _ _ => True
  | .control before _ payload =>
    WrongCount d.k payload ∨ MisalignedStart d.k payload ∨ ¬ d.RetirementDue before

/-- Both decoders are below the pending limit, and only rejected records are given to one of them
alone. -/
def ForgedOnly (decoders : FecDecoder × FecDecoder) (input : Paired Incoming) : Prop :=
  decoders.1.groups.keys.length < fecMaxPendingGroups ∧
    decoders.2.groups.keys.length < fecMaxPendingGroups ∧
    match input with
    | .both _ => True
    | .left item => decoders.1.Rejects item
    | .right item => decoders.2.Rejects item

/-- What is given to one decoder alone does not make it retire groups. -/
def NoneRetires (decoders : FecDecoder × FecDecoder) : Paired Incoming → Prop
  | .both _ => True
  | .left item => decoders.1.Undisturbed item
  | .right item => decoders.2.Undisturbed item

instance (d : FecDecoder) : ∀ item, Decidable (d.Rejects item)
  | .data _ _ _ => isFalse id
  | .control _ _ payload => inferInstanceAs (Decidable (RejectedParity d.k d.ic payload))

instance (d : FecDecoder) : ∀ item, Decidable (d.Undisturbed item)
  | .data _ _ _ => isTrue trivial
  | .control _ _ _ => inferInstanceAs (Decidable (_ ∨ _ ∨ _))

instance (decoders : FecDecoder × FecDecoder) : ∀ input, Decidable (ForgedOnly decoders input)
  | .both _ => inferInstanceAs (Decidable (_ ∧ _ ∧ True))
  | .left item => inferInstanceAs (Decidable (_ ∧ _ ∧ decoders.1.Rejects item))
  | .right item => inferInstanceAs (Decidable (_ ∧ _ ∧ decoders.2.Rejects item))

instance (decoders : FecDecoder × FecDecoder) : ∀ input, Decidable (NoneRetires decoders input)
  | .both _ => isTrue trivial
  | .left item => inferInstanceAs (Decidable (decoders.1.Undisturbed item))
  | .right item => inferInstanceAs (Decidable (decoders.2.Undisturbed item))

theorem WellFormed.receive (h : d.WellFormed) (item : Incoming) :
    (d.receive item).1.WellFormed :=
  h.run_ops (along_ops h item) (receive_eq_run d item)

/-- A rejected arrival that finds no retirement due leaves the decoder alike. -/
theorem alike_receive (hwell : d.WellFormed) (hroom : d.groups.keys.length < fecMaxPendingGroups)
    {item : Incoming} (hrejects : d.Rejects item) (hquiet : d.Undisturbed item) :
    Agree (d, none) (d.receive item) := by
  cases item with
  | data progress seq frame => cases hrejects
  | control before after payload =>
    obtain ⟨rest, rfl⟩ : ∃ rest, payload = controlKindFECParity :: rest :=
      List.head?_eq_some_iff.mp hrejects.1
    exact alike_rejected hwell hroom hrejects hquiet

/-- Well-formed decoders that are alike emit the same when rejected records are inserted. -/
theorem unwinding_receive :
    Unwinding receive (fun d d' => d.WellFormed ∧ d'.WellFormed ∧ Alike d d')
      (fun decoders input => ForgedOnly decoders input ∧ NoneRetires decoders input) where
  both := by
    intro d d' item ⟨hwell, hwell', halike⟩ ⟨⟨hroom, hroom', _⟩, _⟩
    obtain ⟨hnext, hout⟩ := halike.receive hroom hroom' item
    exact ⟨⟨hwell.receive item, hwell'.receive item, hnext⟩, hout.symm⟩
  left := by
    intro d d' item ⟨hwell, hwell', halike⟩ ⟨⟨hroom, _, hrejects⟩, hquiet⟩
    obtain ⟨hnext, hout⟩ := alike_receive hwell hroom hrejects hquiet
    exact ⟨⟨hwell.receive item, hwell', hnext.symm.trans halike⟩, hout⟩
  right := by
    intro d d' item ⟨hwell, hwell', halike⟩ ⟨⟨_, hroom', hrejects⟩, hquiet⟩
    obtain ⟨hnext, hout⟩ := alike_receive hwell' hroom' hrejects hquiet
    exact ⟨⟨hwell, hwell'.receive item, halike.trans hnext⟩, hout⟩

/-- Two runs that differ by rejected parity records only, with fewer than `fecMaxPendingGroups`
groups pending in each, recover the same members in the same order, provided that no such record
makes a decoder retire groups. -/
theorem forged_parity_inert (k : Nat) (ic : Option InnerCipher) (single : Bool)
    (inputs : List (Paired Incoming))
    (hforged : Along (Paired.advance receive) ForgedOnly
      ({ new k ic with staticSingle := single }, { new k ic with staticSingle := single }) inputs)
    (hquiet : Along (Paired.advance receive) NoneRetires
      ({ new k ic with staticSingle := single }, { new k ic with staticSingle := single }) inputs) :
    emitted receive { new k ic with staticSingle := single } (Paired.lefts inputs) =
      emitted receive { new k ic with staticSingle := single } (Paired.rights inputs) := by
  have hwell := (well_formed_new k ic).with_single single
  exact unwinding_receive.emitted_eq ⟨hwell, hwell, .refl _⟩ (hforged.and hquiet)

/-- A record for the pair that starts at `start`, of two members of `length` bytes. -/
def pairRecord (start length : UInt8) (body : Bytes) : Bytes :=
  [controlKindFECParity, 0, 0, 0, start, 2, 0, 0, 0, length, 0, 0, 0, length] ++ body

/-- A forged record comes before the first member of its pair, another one after it, and then the
genuine one. -/
def forgedTwice : List (Paired Incoming) :=
  [.right (.control none none (pairRecord 1 1 (8 :: List.replicate aeadTagSize 1))),
    .both (.data none 1 [7]),
    .left (.control none none (pairRecord 2 1 [])),
    .both (.control none none (pairRecord 1 1 (9 :: List.replicate aeadTagSize 0)))]

/-- The second member is recovered from the genuine record in both runs. -/
theorem forged_twice_inert :
    emitted receive { new 2 (some zeroTag) with staticSingle := false } (Paired.lefts forgedTwice) =
        emitted receive { new 2 (some zeroTag) with staticSingle := false }
          (Paired.rights forgedTwice) ∧
      emitted receive { new 2 (some zeroTag) with staticSingle := false }
        (Paired.rights forgedTwice) = [(2, [14])] := by
  refine ⟨forged_parity_inert 2 (some zeroTag) false forgedTwice ?_ ?_, ?_⟩
  · decide +kernel
  · decide +kernel
  · decide +kernel

/-- A pair with its record, a suspension behind it, a record with lengths beyond its body that comes
when the reorder buffer has passed the boundary, and a late member of the pair. -/
def forgedLate : List (Paired Incoming) :=
  [.both (.control (some 1) (some 1) (pairRecord 1 1 [9])),
    .both (.control (some 1) (some 1) (appendFECModeControl [] ⟨1, .suspend, 3⟩)),
    .right (.control (some 3) (some 3) (pairRecord 3 200 [9])),
    .both (.data (some 3) 1 [7])]

/-- The rejected record retires the pair, which the other run still recovers. -/
theorem forged_parity_retires :
    Along (Paired.advance receive) ForgedOnly (new 2 none, new 2 none) forgedLate ∧
      emitted receive (new 2 none) (Paired.lefts forgedLate) = [(2, [14])] ∧
      emitted receive (new 2 none) (Paired.rights forgedLate) = [] := by
  refine ⟨?_, ?_, ?_⟩
  · decide +kernel
  · decide +kernel
  · decide +kernel

end FecDecoder

end TlsVpn.Fec
