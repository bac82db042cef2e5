import TlsVpn.Fec.Table
import TlsVpn.Reorder.Accounting

/-!
# Retiring old groups

A decoder that has seen a suspension forgets the groups before the boundary once ordered delivery
has passed it. It learns of that from a probe that reads the expected number of the reorder buffer
it feeds. `Pipeline` is the decoder together with that buffer, and `retirement_safe` shows that
nothing is given up that could still be delivered: the members of a retired group are behind the
expected number, the boundary never moves back, and no group is opened behind it again.
-/

namespace TlsVpn.Fec

open Lib Crypto Reorder List

/-- What the probe answers during the call. -/
def Incoming.readings : Incoming → List Nat
  | .data progress _ _ => progress.toList
  | .control before after _ => before.toList ++ after.toList

/-- A FEC_MODE control names a boundary of groups of size `k`. -/
def Incoming.AtBoundary (k : Nat) : Incoming → Prop
  | .data _ _ _ => True
  | .control _ _ payload =>
    ∀ ctrl ∈ parseFECModeControl payload, GroupBoundary k ctrl.boundary

namespace FecDecoder

variable {d : FecDecoder} {readings : List Nat}

/-- The boundaries that controls have left are boundaries of groups, and so are the starts of the
live groups, none of which lies behind the retirement boundary. -/
structure Aligned (d : FecDecoder) : Prop where
  cleanup : d.cleanupBefore = 0 ∨ GroupBoundary d.k d.cleanupBefore
  retired : d.retiredBefore = 0 ∨ GroupBoundary d.k d.retiredBefore
  fenced : d.fence.fromSeq = 0 ∨ GroupBoundary d.k d.fence.fromSeq
  live : ∀ start, d.Live start → GroupBoundary d.k start ∧ d.retiredBefore ≤ start

/-- A group is opened in front of the retirement boundary, and that boundary moves forward to the
newest suspension, which the probe has seen passed, when no group is left behind it. -/
def Careful (readings : List Nat) (d : FecDecoder) : TableOp → Prop
  | .create start => d.retiredBefore ≤ start
  | .setFence fence => fence.fromSeq = 0 ∨ GroupBoundary d.k fence.fromSeq
  | .setCleanup boundary => GroupBoundary d.k boundary
  | .setRetired boundary =>
    boundary = d.cleanupBefore ∧ d.retiredBefore < boundary ∧
      (∃ reading ∈ readings, boundary ≤ reading) ∧ ∀ start, d.Live start → boundary ≤ start
  | .put _ | .finish _ _ | .countRecovered | .drop _ => True

theorem aligned_new (k : Nat) (ic : Option InnerCipher) : (new k ic).Aligned := by
  refine ⟨.inl rfl, .inl rfl, .inl rfl, fun start hlive => ?_⟩
  cases hlive

/-! ## What an operation does to the boundaries -/

/-- Each boundary is moved by its own operation only. -/
theorem boundaries_apply_op (d : FecDecoder) (op : TableOp) :
    (d.applyOp op).fence = (match op with | .setFence fence => fence | _ => d.fence) ∧
      (d.applyOp op).cleanupBefore =
        (match op with | .setCleanup boundary => boundary | _ => d.cleanupBefore) ∧
      (d.applyOp op).retiredBefore =
        (match op with | .setRetired boundary => boundary | _ => d.retiredBefore) := by
  cases op with
  | create start =>
    obtain ⟨order, head, hnew, -⟩ := d.new_group_spec start
    simp only [applyOp, hnew, and_self]
  | drop p =>
    obtain ⟨order, head, hdrop, -⟩ := d.drop_groups_spec p
    simp only [applyOp, hdrop, and_self]
  | put | finish | countRecovered | setFence | setCleanup | setRetired => exact ⟨rfl, rfl, rfl⟩

variable {op : TableOp} {start : Nat}

/-- Only creating a group makes it live. -/
theorem live_of_apply_op (hsuits : d.Suits op) (h : (d.applyOp op).Live start) :
    d.Live start ∨ op = .create start := by
  obtain ⟨g, hg⟩ := Option.isSome_iff_exists.mp h
  rcases lookup_apply_op hg with hold | ⟨hop, -⟩ | ⟨rfl, rfl⟩
  · exact .inl (Option.isSome_iff_exists.mpr ⟨g, hold⟩)
  · exact .inr hop
  · exact .inl hsuits.1

theorem Aligned.apply_op (h : d.Aligned) (hsuits : d.Suits op) (hcareful : d.Careful readings op) :
    (d.applyOp op).Aligned := by
  obtain ⟨hfence, hcleanup, hretired⟩ := d.boundaries_apply_op op
  have hk := (d.size_apply_op op).1
  -- an operation that leaves the three boundaries where they are
  have hkeep : (d.applyOp op).fence = d.fence → (d.applyOp op).cleanupBefore = d.cleanupBefore →
      (d.applyOp op).retiredBefore = d.retiredBefore → (d.applyOp op).Aligned := by
    intro hfence hcleanup hretired
    refine ⟨?_, ?_, ?_, fun start hstart => ?_⟩
    · rw [hk, hcleanup]
      exact h.cleanup
    · rw [hk, hretired]
      exact h.retired
    · rw [hk, hfence]
      exact h.fenced
    · rw [hk, hretired]
      rcases live_of_apply_op hsuits hstart with hold | rfl
      · exact h.live start hold
      · exact ⟨hsuits.2, hcareful⟩
  cases op with
  | setRetired boundary =>
    obtain ⟨hboundary, hlater, -, hahead⟩ := hcareful
    have hgroup : GroupBoundary d.k boundary := by
      rw [hboundary]
      exact h.cleanup.resolve_left (by omega)
    exact ⟨h.cleanup, .inr hgroup, h.fenced,
      fun start hstart => ⟨(h.live start hstart).1, hahead start hstart⟩⟩
  | setFence fence => exact ⟨h.cleanup, h.retired, hcareful, h.live⟩
  | setCleanup boundary => exact ⟨.inr hcareful, h.retired, h.fenced, h.live⟩
  | create | drop | put | finish | countRecovered => exact hkeep hfence hcleanup hretired

/-- A run of careful operations keeps the boundaries, and what it opens lies in front. -/
theorem Aligned.run_ops {list : List TableOp} {d' : FecDecoder} (h : d.Aligned)
    (hsuits : Along opStep Suits d list) (hcareful : Along opStep (Careful readings) d list)
    (hrun : run opStep d list = some d') :
    d'.Aligned ∧ d.retiredBefore ≤ d'.retiredBefore ∧
      (d.retiredBefore < d'.retiredBefore → ∃ reading ∈ readings, d'.retiredBefore ≤ reading) ∧
      ∀ start, .create start ∈ list → d.retiredBefore ≤ start := by
  induction list generalizing d with
  | nil =>
    cases hrun
    exact ⟨h, le_rfl, fun hlt => absurd hlt (Nat.lt_irrefl _),
      fun start hmem => absurd hmem not_mem_nil⟩
  | cons op rest ih =>
    obtain ⟨next, hstep, hrest⟩ := run_cons_eq_some.mp hrun
    obtain ⟨hop, hsuits⟩ := hsuits.cons hstep
    obtain ⟨hnow, hcareful⟩ := hcareful.cons hstep
    cases hstep
    obtain ⟨haligned, hle, hreading, hopened⟩ := ih (h.apply_op hop hnow) hsuits hcareful hrest
    have hretired := (d.boundaries_apply_op op).2.2
    have hforward : d.retiredBefore ≤ (d.applyOp op).retiredBefore ∧
        (d.retiredBefore < (d.applyOp op).retiredBefore →
          ∃ reading ∈ readings, (d.applyOp op).retiredBefore ≤ reading) := by
      -- only a retirement moves the boundary
      have hmoves : (∃ boundary, op = .setRetired boundary) ∨
          (d.applyOp op).retiredBefore = d.retiredBefore := by
        cases op with
        | setRetired boundary => exact .inl ⟨boundary, rfl⟩
        | _ => exact .inr hretired
      rcases hmoves with ⟨boundary, rfl⟩ | hstill
      · exact ⟨Nat.le_of_lt hnow.2.1, fun _ => hnow.2.2.1⟩
      · exact ⟨hstill.ge, fun hlt => absurd hstill (Nat.ne_of_gt hlt)⟩
    refine ⟨haligned, hforward.1.trans hle, fun hlt => ?_, fun start hmem => ?_⟩
    · by_cases hmoved : (d.applyOp op).retiredBefore < d'.retiredBefore
      · exact hreading hmoved
      · have hsame : d'.retiredBefore = (d.applyOp op).retiredBefore := by omega
        rw [hsame]
        exact hforward.2 (by omega)
    · rcases mem_cons.mp hmem with rfl | hmem
      · exact hnow
      · exact hforward.1.trans (hopened start hmem)

/-! ## The operations of a call are careful -/

theorem careful_of_local (h : op.Local) (d : FecDecoder) : d.Careful readings op := by
  cases op with
  | put | finish | countRecovered => trivial
  | create | setFence | setCleanup | setRetired | drop => cases h

/-- Dropped groups are gone. -/
theorem not_live_dropped {p : Nat → Bool} (h : (d.dropGroups p).Live start) : p start = false := by
  rw [Live, lookup_drop_groups] at h
  split at h
  · cases h
  · rename_i hp
    exact Bool.eq_false_iff.mpr hp

variable {progress : Option Nat}

theorem careful_retire_ops (d : FecDecoder) (hreadings : ∀ reading ∈ progress, reading ∈ readings) :
    Along opStep (Careful readings) d (d.retireOps progress) := by
  unfold retireOps
  split
  · trivial
  · rename_i hdue
    cases progress with
    | none => trivial
    | some expected =>
      dsimp only
      split
      · trivial
      · rename_i hpassed
        obtain ⟨-, hcleanup, hretired⟩ :=
          d.boundaries_apply_op (.drop (fun start => start < d.cleanupBefore))
        refine ⟨trivial, ⟨hcleanup.symm, ?_, ?_, ?_⟩, trivial⟩
        · rw [hretired]
          show d.retiredBefore < d.cleanupBefore
          omega
        · exact ⟨expected, hreadings expected rfl, by omega⟩
        · intro start hlive
          have hkept := not_live_dropped hlive
          simpa using hkept

/-- A boundary at or before a frame is at or before the start of its group. -/
theorem boundary_le_group_start {boundary seq : Nat} (hboundary : GroupBoundary d.k boundary)
    (hle : boundary ≤ seq) (hk : 2 ≤ d.k) : boundary ≤ d.groupStartOf seq := by
  obtain ⟨hpos, hmod⟩ := hboundary
  obtain ⟨a, ha⟩ := Nat.dvd_of_mod_eq_zero hmod
  have hquot := Nat.mod_add_div (seq - 1) d.k
  have hdiv : a ≤ (seq - 1) / d.k := by
    rw [Nat.le_div_iff_mul_le (by omega), Nat.mul_comm, ← ha]
    omega
  have hmul := Nat.mul_le_mul_left d.k hdiv
  unfold groupStartOf
  omega

theorem careful_open_ops (h : d.retiredBefore ≤ start) :
    Along opStep (Careful readings) d (d.openOps start) := by
  unfold openOps
  cases d.lookupGroup start with
  | none => exact ⟨h, trivial⟩
  | some g => trivial

theorem careful_data_ops (h : d.Aligned) (hwell : d.WellFormed)
    (hreadings : ∀ reading ∈ progress, reading ∈ readings) (seq : Nat) (frame : Bytes) :
    Along opStep (Careful readings) d (d.dataOps progress seq frame) := by
  unfold dataOps
  split
  · trivial
  · split
    · trivial
    · split
      · split
        · exact careful_retire_ops d hreadings
        · trivial
      · split
        · trivial
        · rename_i hretired
          split
          · trivial
          · have hahead : d.retiredBefore ≤ d.groupStartOf seq := by
              rcases h.retired with hzero | hboundary
              · omega
              · exact boundary_le_group_start hboundary (by omega) hwell.size
            refine (careful_open_ops hahead).join (run_open_ops d _) ?_
            exact along_of_mem fun op hop => careful_of_local (local_member_ops _ _ _ _ op hop)

theorem careful_accept_ops (hahead : d.retiredBefore ≤ start) {after : Option Nat}
    (hreadings : ∀ reading ∈ after, reading ∈ readings) (lens : List Nat) (payload : Bytes) :
    Along opStep (Careful readings) d (d.acceptOps after start lens payload) := by
  unfold acceptOps
  dsimp only
  generalize openTo d.ic _ start _ = body
  cases body with
  | none => exact (careful_open_ops hahead).join (run_open_ops d start) ⟨trivial, trivial⟩
  | some body =>
    dsimp only
    rw [append_assoc]
    refine (careful_open_ops hahead).join (run_open_ops d start) ⟨trivial, ?_⟩
    refine Along.join (along_of_mem fun op hop =>
      careful_of_local (local_recover_ops _ op hop)) (run_recover_ops _ _) ?_
    exact careful_retire_ops _ hreadings

theorem careful_parity_ops (d : FecDecoder) {before after : Option Nat}
    (hbefore : ∀ reading ∈ before, reading ∈ readings)
    (hafter : ∀ reading ∈ after, reading ∈ readings) (payload : Bytes) :
    Along opStep (Careful readings) d (d.parityOps before after payload) := by
  unfold parityOps
  dsimp only
  split
  · trivial
  · split
    · trivial
    · refine (careful_retire_ops d hbefore).join (run_retire_ops d before) ?_
      split
      · trivial
      · rename_i hretired
        split
        · trivial
        · split
          · trivial
          · split
            · trivial
            · split
              · trivial
              · exact careful_accept_ops (by omega) hafter _ _

theorem careful_mode_ops (h : d.Aligned) (hreadings : ∀ reading ∈ progress, reading ∈ readings)
    {ctrl : FecModeControl} (hctrl : GroupBoundary d.k ctrl.boundary) :
    Along opStep (Careful readings) d (d.modeOps progress ctrl) := by
  have hfence : (d.fence.apply ctrl).1.fromSeq = 0 ∨
      GroupBoundary d.k (d.fence.apply ctrl).1.fromSeq := by
    unfold FecRXFenceState.apply
    repeat' split
    · exact h.fenced
    · exact h.fenced
    · exact .inr hctrl
    · exact .inl rfl
    · exact h.fenced
  unfold modeOps
  dsimp only
  split
  · exact ⟨hfence, trivial⟩
  · rename_i hactive
    refine Along.join ⟨hfence, ?_, trivial, trivial⟩ (run_fence_ops hactive) ?_
    · show GroupBoundary d.k (max d.cleanupBefore (d.fence.apply ctrl).1.fromSeq)
      have hnew := hfence.resolve_left (not_or.mp hactive).2
      rcases h.cleanup with hzero | hold
      · rw [hzero, Nat.zero_max]
        exact hnew
      · rcases Nat.le_total d.cleanupBefore (d.fence.apply ctrl).1.fromSeq with hle | hle
        · rw [Nat.max_eq_right hle]
          exact hnew
        · rw [Nat.max_eq_left hle]
          exact hold
    · exact careful_retire_ops _ hreadings

theorem careful_ops (h : d.Aligned) (hwell : d.WellFormed) {item : Incoming}
    (hitem : item.AtBoundary d.k) : Along opStep (Careful item.readings) d (d.ops item) := by
  cases item with
  | data progress seq frame =>
    exact careful_data_ops h hwell (fun reading hmem => Option.mem_toList.mpr hmem) seq frame
  | control before after payload =>
    have hbefore : ∀ reading ∈ before, reading ∈ before.toList ++ after.toList :=
      fun reading hmem => mem_append_left _ (Option.mem_toList.mpr hmem)
    have hafter : ∀ reading ∈ after, reading ∈ before.toList ++ after.toList :=
      fun reading hmem => mem_append_right _ (Option.mem_toList.mpr hmem)
    unfold ops
    dsimp only
    cases parseControlKind payload with
    | error e => trivial
    | ok kind =>
      dsimp only
      split
      · exact careful_parity_ops d hbefore hafter payload
      · cases hmode : parseFECModeControl payload with
        | none => trivial
        | some ctrl => exact careful_mode_ops h hbefore (hitem ctrl hmode)

theorem size_receive (d : FecDecoder) (item : Incoming) : (d.receive item).1.k = d.k := by
  have hpreserve : ∀ (other : FecDecoder) op next, other.k = d.k → opStep other op = some next →
      next.k = d.k := by
    intro other op next hsize hstep
    cases hstep
    exact (other.size_apply_op op).1.trans hsize
  exact run_preserves hpreserve rfl (receive_eq_run d item)

/-- What an arrival does to the retirement boundary. -/
theorem Aligned.receive (h : d.Aligned) (hwell : d.WellFormed) {item : Incoming}
    (hitem : item.AtBoundary d.k) :
    (d.receive item).1.Aligned ∧ d.retiredBefore ≤ (d.receive item).1.retiredBefore ∧
      (d.retiredBefore < (d.receive item).1.retiredBefore →
        ∃ reading ∈ item.readings, (d.receive item).1.retiredBefore ≤ reading) ∧
      ∀ start, .create start ∈ d.ops item → d.retiredBefore ≤ start :=
  h.run_ops (along_ops hwell item) (careful_ops h hwell hitem) (receive_eq_run d item)

end FecDecoder

/-! ## The decoder and the reorder buffer it feeds -/

/-- A decoder with the reorder buffer of its session, since the beginning of an epoch. -/
structure Pipeline (Frame : Type) where
  decoder : FecDecoder
  epoch : Epoch Frame

/-- A call on the reorder buffer, a data frame, or a control, which the buffer may receive calls
during: a recovery inserts into it. -/
inductive PipelineAction (Frame : Type) where
  | buffer (call : Call Frame)
  | data (seq : Nat) (frame : Bytes)
  | control (payload : Bytes) (between : List (Call Frame))

namespace Pipeline

variable {Frame : Type} {tag : Frame → Nat}

/-- `ExpectedSeqSnapshot`, which the probe reads. -/
def expected (p : Pipeline Frame) : Nat := p.epoch.receiver.buffer.expectedSeq

/-- The arrival that the decoder sees, if the buffer expects `before` and then `after`. -/
def incoming? (before after : Nat) : PipelineAction Frame → Option Incoming
  | .buffer _ => none
  | .data seq frame => some (.data (some before) seq frame)
  | .control payload _ => some (.control (some before) (some after) payload)

/-- The buffer after the action. -/
def epochAfter (p : Pipeline Frame) : PipelineAction Frame → Option (Epoch Frame)
  | .buffer call => p.epoch.step call
  | .data _ _ => some p.epoch
  | .control _ between => run Epoch.step p.epoch between

/-- One action, with what the decoder makes of it. -/
def step (p : Pipeline Frame) (action : PipelineAction Frame) : Option (Pipeline Frame) :=
  (p.epochAfter action).map fun epoch =>
    match incoming? p.expected epoch.receiver.buffer.expectedSeq action with
    | none => { p with epoch }
    | some item => ⟨(p.decoder.receive item).1, epoch⟩

/-- The updates of the decoder's table that the step to `p'` takes. -/
def updates (p p' : Pipeline Frame) (action : PipelineAction Frame) : List TableOp :=
  match incoming? p.expected p'.expected action with
  | none => []
  | some item => p.decoder.ops item

/-- The calls of the buffer insert frames under their own numbers and do not meet the wrapped
counter, and FEC_MODE controls name boundaries of the decoder's groups. -/
def Allowed (tag : Frame → Nat) (p : Pipeline Frame) : PipelineAction Frame → Prop
  | .buffer call => p.epoch.receiver.NoWrap call ∧ call.Tagged tag
  | .data _ _ => True
  | .control payload between =>
    Along Epoch.step (fun e call => e.receiver.NoWrap call ∧ call.Tagged tag) p.epoch between ∧
      ∀ ctrl ∈ parseFECModeControl payload, GroupBoundary p.decoder.k ctrl.boundary

instance [DecidableEq Frame] (tag : Frame → Nat) (p : Pipeline Frame) :
    ∀ action, Decidable (p.Allowed tag action)
  | .buffer _ => inferInstanceAs (Decidable (_ ∧ _))
  | .data _ _ => isTrue trivial
  | .control _ _ => inferInstanceAs (Decidable (_ ∧ _))

/-- A decoder for groups of `k` frames and a buffer at the beginning of an epoch. -/
def start (k : Nat) (ic : Option InnerCipher) (single : Bool) (r : Receiver Frame) :
    Pipeline Frame :=
  ⟨{ FecDecoder.new k ic with staticSingle := single }, .start r⟩

/-- The invariant of the pipeline, with the unwrapped expected number of the buffer. -/
structure Sound (tag : Frame → Nat) (k : Nat) (p : Pipeline Frame) (next : Nat) : Prop where
  size : p.decoder.k = k
  well : p.decoder.WellFormed
  aligned : p.decoder.Aligned
  kept : p.epoch.KeptAt tag next

variable {p p' : Pipeline Frame} {k next : Nat} {action : PipelineAction Frame}

theorem sound_start (k : Nat) (ic : Option InnerCipher) (single : Bool) {r : Receiver Frame}
    (h : r.Fresh) : (start k ic single r).Sound tag (clampFecGroup k) 0 := by
  obtain ⟨hcleanup, hretired, hfenced, hlive⟩ := FecDecoder.aligned_new k ic
  exact ⟨rfl, (FecDecoder.well_formed_new k ic).with_single single,
    ⟨hcleanup, hretired, hfenced, hlive⟩, h.accounted⟩

/-- A nonzero expected number is not beyond the unwrapped one. -/
theorem Sound.expected_le (h : p.Sound tag k next) : p.expected ≤ next := by
  rw [expected, h.kept.1.expected_eq]
  exact Nat.mod_le _ _

/-- Calls that do not meet the wrapped counter move the buffer forward. -/
theorem kept_at_run {e e' : Epoch Frame} {calls : List (Call Frame)} (h : e.KeptAt tag next)
    (hallowed : Along Epoch.step (fun e call => e.receiver.NoWrap call ∧ call.Tagged tag) e calls)
    (hrun : run Epoch.step e calls = some e') : ∃ later, next ≤ later ∧ e'.KeptAt tag later := by
  have hpreserve : ∀ (e : Epoch Frame) call e', (∃ later, next ≤ later ∧ e.KeptAt tag later) →
      e.receiver.NoWrap call ∧ call.Tagged tag → e.step call = some e' →
      ∃ later, next ≤ later ∧ e'.KeptAt tag later := by
    rintro e call e' ⟨now, hnow, hkept⟩ hcall hstep
    obtain ⟨later, hlater, hkept⟩ := hkept.step hcall hstep
    exact ⟨later, hnow.trans hlater, hkept⟩
  exact run_invariant hpreserve ⟨next, le_rfl, h⟩ hallowed hrun

theorem Sound.epoch_after {e : Epoch Frame} (h : p.Sound tag k next)
    (hallowed : p.Allowed tag action) (hepoch : p.epochAfter action = some e) :
    ∃ later, next ≤ later ∧ e.KeptAt tag later := by
  cases action with
  | buffer call => exact h.kept.step hallowed hepoch
  | data seq frame =>
    cases hepoch
    exact ⟨next, le_rfl, h.kept⟩
  | control payload between => exact kept_at_run h.kept hallowed.1 hepoch

/-- The decoder reads expected numbers from before and after the action only. -/
theorem readings_mem {before after : Nat} {item : Incoming}
    (h : incoming? before after action = some item) :
    ∀ reading ∈ item.readings, reading = before ∨ reading = after := by
  cases action with
  | buffer call => cases h
  | data seq frame =>
    cases h
    intro reading hmem
    exact .inl (mem_singleton.mp hmem)
  | control payload between =>
    cases h
    intro reading hmem
    simpa [Incoming.readings] using hmem

theorem at_boundary_of_allowed {before after : Nat} {item : Incoming}
    (h : incoming? before after action = some item) (hallowed : p.Allowed tag action) :
    item.AtBoundary p.decoder.k := by
  cases action with
  | buffer call => cases h
  | data seq frame =>
    cases h
    trivial
  | control payload between =>
    cases h
    exact hallowed.2

/-- One step keeps the invariant and moves the buffer and the retirement boundary forward; the
boundary moves only to where the buffer has been, and what is opened lies in front of it. -/
theorem Sound.step (h : p.Sound tag k next) (hallowed : p.Allowed tag action)
    (hstep : p.step action = some p') :
    ∃ later, next ≤ later ∧ p'.Sound tag k later ∧
      p.decoder.retiredBefore ≤ p'.decoder.retiredBefore ∧
      (p.decoder.retiredBefore < p'.decoder.retiredBefore →
        p'.decoder.retiredBefore ≤ p.expected ∨ p'.decoder.retiredBefore ≤ p'.expected) ∧
      ∀ start, .create start ∈ p.updates p' action → p.decoder.retiredBefore ≤ start := by
  obtain ⟨e, hepoch, rfl⟩ := Option.map_eq_some_iff.mp hstep
  obtain ⟨later, hle, hkept⟩ := h.epoch_after hallowed hepoch
  refine ⟨later, hle, ?_⟩
  cases hitem : incoming? p.expected e.receiver.buffer.expectedSeq action with
  | none =>
    refine ⟨⟨h.size, h.well, h.aligned, hkept⟩, le_rfl, fun hlt => absurd hlt (Nat.lt_irrefl _),
      fun start hmem => ?_⟩
    simp only [updates, expected] at hmem hitem
    rw [hitem] at hmem
    exact absurd hmem not_mem_nil
  | some item =>
    obtain ⟨haligned, hforward, hreading, hopened⟩ :=
      h.aligned.receive h.well (at_boundary_of_allowed hitem hallowed)
    have hops := FecDecoder.receive_eq_run p.decoder item
    have hwell := h.well.run_ops (FecDecoder.along_ops h.well item) hops
    have hsound : Sound tag k ⟨(p.decoder.receive item).1, e⟩ later :=
      ⟨(FecDecoder.size_receive p.decoder item).trans h.size, hwell, haligned, hkept⟩
    refine ⟨hsound, hforward, fun hlt => ?_, fun start hmem => ?_⟩
    · obtain ⟨reading, hmem, hreached⟩ := hreading hlt
      rcases readings_mem hitem reading hmem with rfl | rfl
      · exact .inl hreached
      · exact .inr hreached
    · simp only [updates, expected] at hmem hitem
      rw [hitem] at hmem
      exact hopened start hmem

/-- A run of steps keeps the invariant and moves the retirement boundary forward. -/
theorem Sound.run_steps {actions : List (PipelineAction Frame)} (h : p.Sound tag k next)
    (hallowed : Along Pipeline.step (Allowed tag) p actions)
    (hrun : run Pipeline.step p actions = some p') :
    (∃ later, p'.Sound tag k later) ∧ p.decoder.retiredBefore ≤ p'.decoder.retiredBefore := by
  have hpreserve : ∀ (q : Pipeline Frame) action q',
      (∃ later, q.Sound tag k later) ∧ p.decoder.retiredBefore ≤ q.decoder.retiredBefore →
      q.Allowed tag action → q.step action = some q' →
      (∃ later, q'.Sound tag k later) ∧ p.decoder.retiredBefore ≤ q'.decoder.retiredBefore := by
    rintro q action q' ⟨⟨now, hsound⟩, hle⟩ hnow hstep
    obtain ⟨later, -, hlater, hforward, -⟩ := hsound.step hnow hstep
    exact ⟨⟨later, hlater⟩, hle.trans hforward⟩
  exact run_invariant hpreserve ⟨⟨next, h⟩, le_rfl⟩ hallowed hrun

/-- The buffer discards a number that it has passed, unless the wrapping difference places it
ahead, inside the largest window. -/
theorem inserted_of_passed {rb : ReorderBuffer Frame} {seq : Nat} (hpassed : seq < rb.expectedSeq)
    (hword : rb.expectedSeq < 2 ^ 32)
    (hclear : rb.expectedSeq - seq + reorderMaxWindowSize ≤ 2 ^ 32) (hlen : rb.ringLen ≤
      reorderMaxWindowSize) (now : Nat) (frame : Frame) : rb.inserted now seq frame = rb := by
  have hdiff : sub32 seq rb.expectedSeq = 2 ^ 32 - (rb.expectedSeq - seq) := by
    unfold sub32
    omega
  have hadopt : rb.adopt seq = rb := if_neg (by omega)
  have hwiden : rb.widen (sub32 seq rb.expectedSeq) = none := by
    unfold ReorderBuffer.widen
    rw [if_pos (by omega), if_pos (by omega)]
  rw [ReorderBuffer.inserted, ReorderBuffer.insertLocked, hadopt, ReorderBuffer.insertInWindow,
    hwiden]
  split
  · rfl
  · rfl

/-- The members of a group before a boundary are before the boundary. -/
theorem member_lt_boundary {start boundary i : Nat} (hstart : GroupBoundary k start)
    (hboundary : GroupBoundary k boundary) (hlt : start < boundary) (hi : i < k) :
    start + i < boundary := by
  obtain ⟨hpos, hmod⟩ := hstart
  obtain ⟨hpos', hmod'⟩ := hboundary
  obtain ⟨a, ha⟩ := Nat.dvd_of_mod_eq_zero hmod
  obtain ⟨b, hb⟩ := Nat.dvd_of_mod_eq_zero hmod'
  have hab : a < b := by
    by_contra hba
    have hmul := Nat.mul_le_mul_left k (Nat.not_lt.mp hba)
    omega
  have hmul := Nat.mul_le_mul_left k hab
  rw [Nat.mul_succ] at hmul
  omega

/-- Retirement gives up nothing that matters. Let a decoder and its buffer be taken from the
beginning of an epoch to `p`, from there to `q`, and on by one step to `q'`, in which the counter
has not wrapped. The retirement boundary has not gone back. If the step retires up to a boundary,
the probe has read an expected number that has reached it, every member of every group before it is
behind the expected number, and the buffer discards it.
The live groups lie in front of the boundary, and so does every group that the step opens, also
of the boundary that `p` had. -/
theorem retirement_safe (k : Nat) (ic : Option InnerCipher) (single : Bool) {r : Receiver Frame}
    (hfresh : r.Fresh) {earlier later : List (PipelineAction Frame)}
    {action : PipelineAction Frame} {p q q' : Pipeline Frame}
    (hallowed : Along step (Allowed tag) (start k ic single r) (earlier ++ (later ++ [action])))
    (hearlier : run step (start k ic single r) earlier = some p)
    (hlater : run step p later = some q) (hstep : q.step action = some q')
    (hcounter : q'.expected = 0 →
      q'.epoch.receiver.delivered ++ q'.epoch.receiver.buffer.pending = []) :
    p.decoder.retiredBefore ≤ q.decoder.retiredBefore ∧
      q.decoder.retiredBefore ≤ q'.decoder.retiredBefore ∧
      (q.decoder.retiredBefore < q'.decoder.retiredBefore →
        (q'.decoder.retiredBefore ≤ q.expected ∨ q'.decoder.retiredBefore ≤ q'.expected) ∧
        ∀ start, GroupBoundary q.decoder.k start → start < q'.decoder.retiredBefore →
          ∀ i < q.decoder.k, start + i < q'.expected ∧
            (q'.expected - (start + i) + reorderMaxWindowSize ≤ 2 ^ 32 → ∀ now frame,
              q'.epoch.receiver.buffer.inserted now (start + i) frame =
                q'.epoch.receiver.buffer)) ∧
      (∀ start, q.decoder.Live start →
        GroupBoundary q.decoder.k start ∧ q.decoder.retiredBefore ≤ start) ∧
      ∀ start, .create start ∈ q.updates q' action → p.decoder.retiredBefore ≤ start := by
  obtain ⟨hfirst, hrest⟩ := hallowed.append hearlier
  obtain ⟨hsecond, hlast⟩ := hrest.append hlater
  obtain ⟨⟨_, hp⟩, -⟩ := (sound_start k ic single hfresh).run_steps hfirst hearlier
  obtain ⟨⟨_, hq⟩, hforward⟩ := hp.run_steps hsecond hlater
  obtain ⟨next, hnext, hq', hmoved, hpassed, hopened⟩ := hq.step hlast.1 hstep
  refine ⟨hforward, hmoved, fun hlt => ⟨hpassed hlt, fun start hstart hbefore i hi => ?_⟩,
    hq.aligned.live, fun start hmem => hforward.trans (hopened start hmem)⟩
  have hbooks := hq'.kept.1
  have hboundary : GroupBoundary q.decoder.k q'.decoder.retiredBefore := by
    rw [hq.size, ← hq'.size]
    exact hq'.aligned.retired.resolve_left (by omega)
  have hmember := member_lt_boundary hstart hboundary hbefore hi
  have hreached : q'.decoder.retiredBefore ≤ next := by
    have hbefore := hq.expected_le
    have hafter := hq'.expected_le
    rcases hpassed hlt with hread | hread
    · omega
    · omega
  have hword : next < 2 ^ 32 := by
    refine Nat.lt_of_le_of_ne hbooks.next_le fun hend => hbooks.ended hend (hcounter ?_)
    rw [expected, hbooks.expected_eq, hend, Nat.mod_self]
  have hexpected : q'.expected = next := by
    rw [expected, hbooks.expected_eq, Nat.mod_eq_of_lt hword]
  have hbehind : start + i < q'.expected := by omega
  exact ⟨hbehind, fun hclear now frame => inserted_of_passed hbehind (by
    rw [← expected, hexpected]
    exact hword) hclear hbooks.ringLen_le now frame⟩

/-- One frame of a pair arrives at the decoder and both at the buffer. -/
def pairArrives : List (PipelineAction Nat) :=
  [.buffer (.insert 0 1 1), .data 1 [7], .buffer (.insert 0 2 2)]

/-- The suspension from the next pair on. -/
def pairSuspended : PipelineAction Nat :=
  .control (appendFECModeControl [] ⟨1, .suspend, 3⟩) []

/-- The suspension retires the pair, and the buffer discards its second frame. -/
theorem passed_pair_retired :
    ∃ q q', run step (start 2 none false .new) pairArrives = some q ∧
      q.step pairSuspended = some q' ∧ q.decoder.Live 1 ∧ q'.decoder.retiredBefore = 3 ∧
      ∀ now frame, q'.epoch.receiver.buffer.inserted now 2 frame = q'.epoch.receiver.buffer := by
  obtain ⟨q, hrun, hnext⟩ : ∃ q, run step (start 2 none false .new) pairArrives = some q ∧
      (q.step pairSuspended).any (fun q' => decide ((q.decoder.lookupGroup 1).isSome = true ∧
        q.decoder.k = 2 ∧ q.decoder.retiredBefore = 0 ∧ q'.decoder.retiredBefore = 3 ∧
        q'.expected = 3)) = true :=
    exists_run_of_decide (by decide +kernel)
  obtain ⟨q', hstep, hlive, hsize, hbefore, hretired, hexpected⟩ := exists_some_of_decide hnext
  have hallowed : Along step (Allowed id) (start 2 none false .new)
      (pairArrives ++ ([] ++ [pairSuspended])) := by
    decide +kernel
  have hsafe := retirement_safe 2 none false (.inl rfl) hallowed hrun (run_nil q) hstep
    (fun hzero => absurd hzero (by omega))
  obtain ⟨-, -, hgone, -⟩ := hsafe
  rw [hbefore, hretired, hsize, hexpected] at hgone
  have hsecond := (hgone (by decide)).2 1 (by decide) (by decide) 1 (by decide)
  exact ⟨q, q', hrun, hstep, hlive, hretired, hsecond.2 (by decide)⟩

end Pipeline

end TlsVpn.Fec
