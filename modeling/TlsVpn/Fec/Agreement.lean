import TlsVpn.Fec.Implementations

/-!
# The implementations of the decoder agree

The worker's recovery does not count into the counters of the process, so the machines are compared
without those: `forget` drops them, and every call commutes with it. All data calls and all parity
calls are instances of one call with a recovery function as parameter, `dataWith` and `parityWith`.

`implementations_agree` compares whole runs. The last section shows that a single call is the one of
the plain decoder, with the answers of the probe as arguments.
-/

namespace TlsVpn.Fec

open Lib Crypto List

/-! ## Without the counters of the process -/

namespace FecDecoder

/-- The decoder without its share in the counters of the process. -/
def forget (d : FecDecoder) : FecDecoder := { d with lifetime := none }

theorem forget_prune_group_order (d : FecDecoder) :
    d.pruneGroupOrder.forget = d.forget.pruneGroupOrder := by
  unfold pruneGroupOrder forget
  dsimp only
  repeat' split
  all_goals rfl

theorem forget_evict_from (d : FecDecoder) (order : List Nat) :
    (d.evictFrom order).forget = d.forget.evictFrom order := by
  induction order generalizing d with
  | nil => rfl
  | cons start rest ih =>
    unfold evictFrom
    by_cases hlive : start ∈ d.groups
    · rw [if_pos hlive, if_pos (show start ∈ d.forget.groups from hlive)]
      rfl
    · rw [if_neg hlive, if_neg (show start ∉ d.forget.groups from hlive), ih]
      rfl

theorem forget_new_group (d : FecDecoder) (start : Nat) :
    (d.newGroup start).forget = d.forget.newGroup start := by
  have hprune := d.forget_prune_group_order
  have hevict : d.pruneGroupOrder.evictOldest.forget = d.forget.pruneGroupOrder.evictOldest := by
    unfold evictOldest
    rw [forget_prune_group_order, forget_evict_from, hprune, ← hprune]
    rfl
  have hgroups : d.forget.pruneGroupOrder.groups = d.pruneGroupOrder.groups := by
    rw [← hprune]
    rfl
  have hadd : ∀ room : FecDecoder,
      { room with
        groups := room.groups.insert start (.new start)
        groupOrder := room.groupOrder ++ [start] }.forget =
      { room.forget with
        groups := room.forget.groups.insert start (.new start)
        groupOrder := room.forget.groupOrder ++ [start] } := fun _ => rfl
  unfold newGroup
  dsimp only
  rw [hgroups]
  split
  · rw [← hevict]
    exact hadd _
  · rw [← hprune]
    exact hadd _

theorem forget_open_group (d : FecDecoder) (start : Nat) :
    ((d.openGroup start).1.forget, (d.openGroup start).2) = d.forget.openGroup start := by
  have hlookup : d.forget.lookupGroup start = d.lookupGroup start := rfl
  unfold openGroup
  rw [hlookup]
  cases d.lookupGroup start with
  | none =>
    dsimp only
    rw [forget_new_group]
  | some g => rfl

theorem forget_drop_groups (d : FecDecoder) (p : Nat → Bool) :
    (d.dropGroups p).forget = d.forget.dropGroups p := by
  unfold dropGroups
  dsimp only
  show (if d.groups.keys.filter p = [] then d else _).forget =
    if d.groups.keys.filter p = [] then _ else _
  split
  · rfl
  · rw [forget_prune_group_order]
    rfl

theorem forget_drop_groups_in_range (d : FecDecoder) (fromSeq untilSeq : Nat) :
    (d.dropGroupsInRange fromSeq untilSeq).forget =
      d.forget.dropGroupsInRange fromSeq untilSeq := by
  unfold dropGroupsInRange
  split
  · rfl
  · exact forget_drop_groups d _

theorem forget_try_recover (d : FecDecoder) (g : FecGroupState) :
    ((d.tryRecover g).1.forget, (d.tryRecover g).2) = d.forget.tryRecover g := by
  unfold tryRecover
  repeat' split
  all_goals rfl

/-- The worker's recovery is the other one without the counters. -/
theorem forget_try_recover_actor (d : FecDecoder) (g : FecGroupState) :
    ((Probed.tryRecoverActor d g).1.forget, (Probed.tryRecoverActor d g).2) =
      d.forget.tryRecover g := by
  unfold Probed.tryRecoverActor tryRecover
  cases g.parity with
  | none => rfl
  | some parity =>
    dsimp only
    by_cases hk : g.k = 0
    · rw [if_pos hk, if_pos hk]
    · rw [if_neg hk, if_neg hk]
      match g.missing with
      | [] => rfl
      | [i] =>
        dsimp only
        split
        · rfl
        · rfl
      | _ :: _ :: _ => rfl

end FecDecoder

namespace Probed

/-- The state that the implementations have in common. -/
def forget (p : Probed) : Probed := p.setDecoder p.decoder.forget

/-- The common part of a call's result. -/
def forgetFst {β : Type} (r : Probed × β) : Probed × β := (r.1.forget, r.2)

theorem cleanup_eq_maybe_retire (p : Probed) :
    p.cleanupByReorderProgress = p.maybeRetireOldGroupsLocked := by
  unfold cleanupByReorderProgress
  dsimp only
  split
  · rename_i hidle
    unfold maybeRetireOldGroupsLocked
    rw [if_pos hidle]
  · rfl

theorem forget_maybe_retire (p : Probed) :
    p.maybeRetireOldGroupsLocked.forget = p.forget.maybeRetireOldGroupsLocked := by
  unfold maybeRetireOldGroupsLocked
  dsimp only
  show (if p.decoder.cleanupBefore = 0 ∨ p.decoder.retiredBefore ≥ p.decoder.cleanupBefore ∨
      p.probe.installed = false then p else _).forget =
    if p.decoder.cleanupBefore = 0 ∨ p.decoder.retiredBefore ≥ p.decoder.cleanupBefore ∨
      p.probe.installed = false then p.forget else _
  split
  · rfl
  · show (if p.probe.answers p.probe.used = 0 ∨
        p.probe.answers p.probe.used < p.decoder.cleanupBefore then _ else _ : Probed).forget =
      if p.probe.answers p.probe.used = 0 ∨
        p.probe.answers p.probe.used < p.decoder.cleanupBefore then _ else _
    split
    · rfl
    · exact congrArg (fun d => Probed.mk d { p.probe with used := p.probe.used + 1 })
        (FecDecoder.forget_drop_groups
          { p.decoder with retiredBefore := p.decoder.cleanupBefore } _)

section Member

variable {recover recover' : FecDecoder → FecGroupState → FecDecoder × Option (Nat × Bytes)}

theorem forget_count_into
    (hrecover : ∀ d g, ((recover d g).1.forget, (recover d g).2) = recover' d.forget g)
    (d : FecDecoder) (g : FecGroupState) (i : Nat) (frame : Bytes) :
    ((countInto d g i frame recover).1.forget, (countInto d g i frame recover).2) =
      countInto d.forget g i frame recover' := by
  have hmask : d.forget.fullMask = d.fullMask := rfl
  unfold countInto
  rw [hmask]
  split
  · rfl
  · split
    · rfl
    · exact hrecover _ _

theorem forget_count_member
    (hrecover : ∀ d g, ((recover d g).1.forget, (recover d g).2) = recover' d.forget g)
    (d : FecDecoder) (seq : Nat) (frame : Bytes) :
    ((countMember d seq frame recover).1.forget, (countMember d seq frame recover).2) =
      countMember d.forget seq frame recover' := by
  have hopen := d.forget_open_group (d.groupStartOf seq)
  have hstart : d.forget.groupStartOf seq = d.groupStartOf seq := rfl
  unfold countMember
  rw [hstart, ← hopen]
  exact forget_count_into hrecover _ _ _ _

end Member

theorem forget_store_parity (d : FecDecoder) (start : Nat) (payload : Bytes) :
    ((storeParity d start payload).1.forget, (storeParity d start payload).2) =
      storeParity d.forget start payload := by
  have hopen := d.forget_open_group start
  unfold storeParity
  rw [← hopen]
  dsimp only [FecDecoder.forget]
  split
  · rfl
  · rfl

/-! ## One machine -/

/-- The data call that the three implementations have in common, for a recovery function. -/
def dataWith (recover : FecDecoder → FecGroupState → FecDecoder × Option (Nat × Bytes)) (p : Probed)
    (seq : Nat) (frame : Bytes) : Probed × Option (Nat × Bytes) :=
  if frame = [] ∨ seq = 0 ∨ p.decoder.staticSingle = true then (p, none)
  else if p.decoder.fence.bypassData seq then
    (if seq &&& 255 = 0 then p.maybeRetireOldGroupsLocked else p, none)
  else if p.Retired seq then (p, none)
  else if p.decoder.IsDone (p.decoder.groupStartOf seq) then (p, none)
  else
    let (decoder, out) := countMember p.decoder seq frame recover
    (p.setDecoder decoder, out)

/-- The parity call that the two implementations have in common. -/
def parityWith (recover : FecDecoder → FecGroupState → FecDecoder × Option (Nat × Bytes))
    (p : Probed) (payload : Bytes) : Probed × Option (Nat × Bytes) :=
  let start := uint ((payload.drop 1).take 4)
  if p.decoder.staticSingle = true ∨ ¬ ParityHeader p.decoder payload then (p, none)
  else
    let p := p.maybeRetireOldGroupsLocked
    if p.Retired start then (p, none)
    else if ¬ DescriptorFits p.decoder payload then (p, none)
    else if p.decoder.staticSingle = true ∨ p.Retired start ∨ p.decoder.IsDone start then (p, none)
    else if HasParity p.decoder start then (p, none)
    else
      match storeParity p.decoder start payload with
      | (stored, none) => (p.setDecoder stored, none)
      | (stored, some held) =>
        let (recovered, out) := recover stored held
        ((p.setDecoder recovered).maybeRetireOldGroupsLocked, out)

/-- The checks made a second time change nothing. -/
theorem on_data_eq (p : Probed) (seq : Nat) (frame : Bytes) :
    p.onData seq frame = dataWith FecDecoder.tryRecover p seq frame := by
  unfold onData dataWith
  rw [cleanup_eq_maybe_retire]
  by_cases hempty : frame = [] ∨ seq = 0
  · rw [if_pos hempty, if_pos (by tauto)]
  · rw [if_neg hempty]
    by_cases hstatic : p.decoder.staticSingle = true
    · rw [if_pos hstatic, if_pos (.inr (.inr hstatic))]
    · rw [if_neg hstatic, if_neg (show ¬ (frame = [] ∨ seq = 0 ∨ _) by tauto)]
      by_cases hbypass : p.decoder.fence.bypassData seq = true
      · rw [if_pos hbypass, if_pos hbypass]
      · rw [if_neg hbypass, if_neg hbypass]
        by_cases hretired : p.Retired seq
        · rw [if_pos hretired, if_pos hretired]
        · rw [if_neg hretired, if_neg hretired]
          by_cases hdone : p.decoder.IsDone (p.decoder.groupStartOf seq)
          · rw [if_pos hdone, if_pos (.inr (.inr (.inr hdone)))]
          · rw [if_neg hdone, if_neg (by tauto)]

theorem on_data_actor_eq (p : Probed) (seq : Nat) (frame : Bytes) :
    p.onDataActor seq frame = dataWith tryRecoverActor p seq frame := rfl

theorem batch_member_eq (p : Probed) (vf : VPNFrame) :
    p.batchMember vf = dataWith FecDecoder.tryRecover p vf.seq vf.data := by
  unfold batchMember dataWith
  by_cases hempty : vf.data = [] ∨ vf.seq = 0
  · rw [if_pos hempty, if_pos (by tauto)]
  · rw [if_neg hempty]
    by_cases hstatic : p.decoder.staticSingle = true
    · rw [if_pos hstatic, if_pos (.inr (.inr hstatic))]
    · rw [if_neg hstatic, if_neg (show ¬ (vf.data = [] ∨ vf.seq = 0 ∨ _) by tauto)]

theorem on_parity_eq (p : Probed) (payload : Bytes) :
    p.onParityWithScratch payload = parityWith FecDecoder.tryRecover p payload := by
  unfold onParityWithScratch
  rw [cleanup_eq_maybe_retire]
  rfl

theorem on_parity_actor_eq (p : Probed) (payload : Bytes) :
    p.onParityActorWithScratch payload = parityWith tryRecoverActor p payload := rfl

section Recover

variable {recover recover' : FecDecoder → FecGroupState → FecDecoder × Option (Nat × Bytes)}

theorem forget_data_with
    (hrecover : ∀ d g, ((recover d g).1.forget, (recover d g).2) = recover' d.forget g)
    (p : Probed) (seq : Nat) (frame : Bytes) :
    forgetFst (dataWith recover p seq frame) = dataWith recover' p.forget seq frame := by
  have hcount := forget_count_member hrecover p.decoder seq frame
  have hretire := p.forget_maybe_retire
  unfold dataWith
  show forgetFst _ = if frame = [] ∨ seq = 0 ∨ p.decoder.staticSingle = true then _
    else if p.decoder.fence.bypassData seq then _ else if p.Retired seq then _
    else if p.decoder.IsDone (p.decoder.groupStartOf seq) then _ else _
  split
  · rfl
  · split
    · split
      · exact Prod.ext hretire rfl
      · rfl
    · split
      · rfl
      · split
        · rfl
        · show _ = (p.forget.setDecoder (countMember p.decoder.forget seq frame recover').1,
            (countMember p.decoder.forget seq frame recover').2)
          rw [← hcount]
          rfl

theorem forget_parity_with
    (hrecover : ∀ d g, ((recover d g).1.forget, (recover d g).2) = recover' d.forget g)
    (p : Probed) (payload : Bytes) :
    forgetFst (parityWith recover p payload) = parityWith recover' p.forget payload := by
  unfold parityWith
  dsimp only
  rw [← forget_maybe_retire]
  generalize hprobed : p.maybeRetireOldGroupsLocked = q
  generalize uint ((payload.drop 1).take 4) = start
  have hstore := forget_store_parity q.decoder start payload
  show forgetFst _ = if p.decoder.staticSingle = true ∨ ¬ ParityHeader p.decoder payload then _
    else if q.Retired start then _ else if ¬ DescriptorFits q.decoder payload then _
    else if q.decoder.staticSingle = true ∨ q.Retired start ∨ q.decoder.IsDone start then _
    else if HasParity q.decoder start then _
    else match storeParity q.decoder.forget start payload with
      | (stored, none) => (q.forget.setDecoder stored, none)
      | (stored, some held) =>
        ((q.forget.setDecoder (recover' stored held).1).maybeRetireOldGroupsLocked,
          (recover' stored held).2)
  rw [← hstore]
  split
  · rfl
  · split
    · rfl
    · split
      · rfl
      · split
        · rfl
        · split
          · rfl
          · cases hheld : storeParity q.decoder start payload with
            | mk stored held =>
              cases held with
              | none => rfl
              | some held =>
                dsimp only
                rw [← hrecover]
                exact Prod.ext (forget_maybe_retire _) rfl

end Recover

theorem forget_handle_mode_control (p : Probed) (ctrl : FecModeControl) :
    (p.handleModeControl ctrl).forget = p.forget.handleModeControl ctrl := by
  unfold handleModeControl
  show (if (p.decoder.fence.apply ctrl).2 = false then p else _ : Probed).forget =
    if (p.decoder.fence.apply ctrl).2 = false then p.forget else _
  split
  · rfl
  · show (if (p.decoder.fence.apply ctrl).1.fromSeq = 0 then _ else _ : Probed).forget =
      if (p.decoder.fence.apply ctrl).1.fromSeq = 0 then _ else _
    split
    · rfl
    · rw [forget_maybe_retire]
      refine congrArg maybeRetireOldGroupsLocked ?_
      exact congrArg (fun d => Probed.mk d p.probe) (FecDecoder.forget_drop_groups_in_range _ _ _)

theorem forget_on_control (p : Probed) (payload : Bytes) :
    forgetFst (p.onControlWithScratch payload) = p.forget.onControlWithScratch payload := by
  have hparity := forget_parity_with FecDecoder.forget_try_recover p payload
  unfold onControlWithScratch
  rw [on_parity_eq, on_parity_eq, ← hparity]
  cases parseControlKind payload with
  | error e => rfl
  | ok kind =>
    dsimp only
    split
    · rfl
    · split
      · cases parseFECModeControl payload with
        | none => rfl
        | some ctrl => exact Prod.ext (forget_handle_mode_control p ctrl) rfl
      · rfl

theorem forget_on_control_actor (p : Probed) (payload : Bytes) :
    forgetFst (p.onControlActorWithScratch payload) = p.forget.onControlWithScratch payload := by
  have hparity := forget_parity_with FecDecoder.forget_try_recover_actor p payload
  unfold onControlActorWithScratch onControlWithScratch
  rw [on_parity_eq, on_parity_actor_eq, ← hparity]
  cases parseControlKind payload with
  | error e => rfl
  | ok kind =>
    dsimp only
    split
    · rfl
    · split
      · cases parseFECModeControl payload with
        | none => rfl
        | some ctrl => exact Prod.ext (forget_handle_mode_control p ctrl) rfl
      · rfl

/-! ## Runs agree -/

theorem forget_feed (p : Probed) (input : Input) :
    forgetFst (p.feed input) = p.forget.feed input := by
  cases input with
  | data vf =>
    have hdata := forget_data_with FecDecoder.forget_try_recover p vf.seq vf.data
    unfold feed
    dsimp only
    rw [on_data_eq, on_data_eq, ← hdata]
    rfl
  | control payload =>
    unfold feed
    dsimp only
    rw [← forget_on_control]
    rfl

theorem forget_feed_actor (p : Probed) (input : Input) :
    forgetFst (p.feedActor input) = p.forget.feed input := by
  cases input with
  | data vf =>
    have hdata := forget_data_with FecDecoder.forget_try_recover_actor p vf.seq vf.data
    unfold feed feedActor
    dsimp only
    rw [on_data_eq, on_data_actor_eq, ← hdata]
    rfl
  | control payload =>
    unfold feed feedActor
    dsimp only
    rw [← forget_on_control_actor]
    rfl

theorem feed_all_cons {α : Type} (step : Probed → α → Probed × List Delivery) (p : Probed)
    (input : α) (rest : List α) :
    feedAll step p (input :: rest) =
      ((feedAll step (step p input).1 rest).1,
        (step p input).2 ++ (feedAll step (step p input).1 rest).2) := rfl

/-- Calls that agree one by one agree over a whole list. -/
theorem forget_feed_all {α : Type} {step step' : Probed → α → Probed × List Delivery}
    (hstep : ∀ p input, forgetFst (step p input) = step' p.forget input) (p : Probed)
    (inputs : List α) : forgetFst (feedAll step p inputs) = feedAll step' p.forget inputs := by
  induction inputs generalizing p with
  | nil => rfl
  | cons input rest ih =>
    rw [feed_all_cons, feed_all_cons, ← hstep]
    show forgetFst _ = ((feedAll step' (step p input).1.forget rest).1,
      (step p input).2 ++ (feedAll step' (step p input).1.forget rest).2)
    rw [← ih]
    rfl

theorem feed_all_append {α : Type} {step : Probed → α → Probed × List Delivery} (p : Probed)
    (first second : List α) :
    feedAll step p (first ++ second) =
      ((feedAll step (feedAll step p first).1 second).1,
        (feedAll step p first).2 ++ (feedAll step (feedAll step p first).1 second).2) := by
  induction first generalizing p with
  | nil => rfl
  | cons input rest ih =>
    rw [cons_append, feed_all_cons, feed_all_cons, ih, append_assoc]

/-- The loop of the batch call is the calls one by one, behind what it has recovered before. -/
theorem batch_loop_eq (p : Probed) (recovered : List (Nat × Bytes)) (frames : List VPNFrame) :
    (p.batchLoop recovered frames).1 = (feedAll feed p (frames.map .data)).1 ∧
      deliveries (p.batchLoop recovered frames).2 =
        deliveries recovered ++ (feedAll feed p (frames.map .data)).2 := by
  induction frames generalizing p recovered with
  | nil => exact ⟨rfl, (append_nil _).symm⟩
  | cons vf rest ih =>
    have hmember : p.batchMember vf = p.onData vf.seq vf.data := by
      rw [batch_member_eq, on_data_eq]
    obtain ⟨hstate, hout⟩ :=
      ih (p.batchMember vf).1 (recovered ++ (p.batchMember vf).2.toList)
    rw [hmember] at hstate hout
    unfold batchLoop
    dsimp only
    rw [hmember]
    refine ⟨hstate, hout.trans ?_⟩
    show _ = deliveries recovered ++ (deliveries (p.onData vf.seq vf.data).2.toList ++ _)
    unfold deliveries
    rw [map_append, append_assoc]
    rfl

/-- A decoder of a static single path takes in no data. -/
theorem feed_all_static (p : Probed) (hstatic : p.decoder.staticSingle = true)
    (frames : List VPNFrame) : feedAll feed p (frames.map .data) = (p, []) := by
  induction frames with
  | nil => rfl
  | cons vf rest ih =>
    have hnone : p.feed (.data vf) = (p, []) := by
      unfold feed
      dsimp only
      rw [on_data_eq, dataWith, if_pos (.inr (.inr hstatic))]
      rfl
    rw [map_cons, feed_all_cons, hnone, ih]
    rfl

theorem feed_segment_eq (p : Probed) (segment : Segment) :
    p.feedSegment segment = feedAll feed p segment.inputs := by
  cases segment with
  | frames run =>
    unfold feedSegment onDataBatch
    dsimp only
    split
    · rename_i hskip
      rcases hskip with hnil | hstatic
      · rw [hnil]
        rfl
      · exact (feed_all_static p hstatic run).symm
    · obtain ⟨hstate, hout⟩ := p.batch_loop_eq [] run
      exact Prod.ext hstate hout
  | control payload => exact Prod.ext rfl (append_nil _).symm

theorem feed_all_segments (p : Probed) (segments : List Segment) :
    feedAll feedSegment p segments = feedAll feed p (segments.flatMap Segment.inputs) := by
  induction segments generalizing p with
  | nil => rfl
  | cons segment rest ih =>
    rw [flatMap_cons, feed_all_append, ← feed_segment_eq, feed_all_cons, ih]

/-- On every decoder, for every sequence of inputs and of probe answers, and for every grouping of
the data frames into batches, the three implementations deliver the same members and errors in the
same order and end in the same state. -/
theorem implementations_agree (p : Probed) (segments : List Segment) :
    feedAll feedSegment p segments = feedAll feed p (segments.flatMap Segment.inputs) ∧
      (feedAll feedActor p (segments.flatMap Segment.inputs)).2 =
        (feedAll feed p (segments.flatMap Segment.inputs)).2 ∧
      (feedAll feedActor p (segments.flatMap Segment.inputs)).1.forget =
        (feedAll feed p (segments.flatMap Segment.inputs)).1.forget := by
  have hactor := forget_feed_all forget_feed_actor p (segments.flatMap Segment.inputs)
  have hlocked := forget_feed_all forget_feed p (segments.flatMap Segment.inputs)
  have hsame := hactor.trans hlocked.symm
  exact ⟨feed_all_segments p segments, (Prod.ext_iff.mp hsame).2, (Prod.ext_iff.mp hsame).1⟩

/-! ## The decoder of one call -/

/-- Retirement is the decoder's, with the next answer of the probe. -/
theorem maybe_retire_decoder (p : Probed) :
    p.maybeRetireOldGroupsLocked.decoder = p.decoder.maybeRetireOldGroups p.probe.current := by
  unfold maybeRetireOldGroupsLocked FecDecoder.maybeRetireOldGroups Probe.current
  dsimp only
  cases hinstalled : p.probe.installed with
  | false =>
    rw [if_pos (.inr (.inr rfl))]
    split
    · rfl
    · rfl
  | true =>
    by_cases hidle : p.decoder.cleanupBefore = 0 ∨
        p.decoder.retiredBefore ≥ p.decoder.cleanupBefore
    · rw [if_pos hidle, if_pos (by tauto)]
    · rw [if_neg hidle, if_neg (by simpa using hidle), if_pos rfl]
      dsimp only
      split
      · rfl
      · rfl

theorem on_data_decoder (p : Probed) (seq : Nat) (frame : Bytes) :
    ((p.onData seq frame).1.decoder, (p.onData seq frame).2) =
      p.decoder.onData p.probe.current seq frame := by
  rw [on_data_eq]
  unfold dataWith FecDecoder.onData
  by_cases hempty : frame = [] ∨ seq = 0
  · rw [if_pos hempty, if_pos (by tauto)]
  · rw [if_neg hempty]
    by_cases hstatic : p.decoder.staticSingle = true
    · rw [if_pos hstatic, if_pos (.inr (.inr hstatic))]
    · rw [if_neg hstatic, if_neg (show ¬ (frame = [] ∨ seq = 0 ∨ _) by tauto)]
      by_cases hbypass : p.decoder.fence.bypassData seq = true
      · rw [if_pos hbypass, if_pos hbypass, ← maybe_retire_decoder]
        split
        · rfl
        · rfl
      · rw [if_neg hbypass, if_neg hbypass]
        by_cases hretired : p.Retired seq
        · rw [if_pos hretired, if_pos (show _ ∧ _ from hretired)]
        · rw [if_neg hretired, if_neg (show ¬ (_ ∧ _) from hretired)]
          dsimp only
          split
          · rfl
          · rfl

theorem handle_mode_control_decoder (p : Probed) (ctrl : FecModeControl) :
    (p.handleModeControl ctrl).decoder = p.decoder.handleModeControl p.probe.current ctrl := by
  unfold handleModeControl FecDecoder.handleModeControl FecDecoder.fenceControl
  have hsame : (p.decoder.fence.apply ctrl).2 = false →
      (p.decoder.fence.apply ctrl).1 = p.decoder.fence := by
    unfold FecRXFenceState.apply
    repeat' split
    all_goals simp
  cases hfence : p.decoder.fence.apply ctrl with
  | mk fence applied =>
    rw [hfence] at hsame
    dsimp only at hsame ⊢
    cases applied with
    | false =>
      rw [if_pos rfl, if_pos (.inl rfl), if_pos (.inl rfl), hsame rfl]
    | true =>
      by_cases hzero : fence.fromSeq = 0
      · rw [if_neg (Ne.symm Bool.false_ne_true), if_pos hzero, if_pos (.inr hzero),
          if_pos (.inr hzero)]
        rfl
      · have hactive : ¬ (true = false ∨ fence.fromSeq = 0) := by
          rintro (hfalse | hfrom)
          · cases hfalse
          · exact hzero hfrom
        rw [if_neg (Ne.symm Bool.false_ne_true), if_neg hzero, if_neg hactive, if_neg hactive,
          maybe_retire_decoder]
        rfl

theorem maybe_retire_static_single (p : Probed) :
    p.maybeRetireOldGroupsLocked.decoder.staticSingle = p.decoder.staticSingle := by
  have hdrop : ∀ (d : FecDecoder) (gone : Nat → Bool),
      (d.dropGroups gone).staticSingle = d.staticSingle := by
    intro d gone
    unfold FecDecoder.dropGroups
    dsimp only
    split
    · rfl
    · obtain ⟨order, head, hprune⟩ := FecDecoder.prune_group_order_eq
        { d with
          groups := (d.groups.keys.filter gone).foldl (fun m start => m.erase start) d.groups }
      rw [hprune]
  unfold maybeRetireOldGroupsLocked
  dsimp only
  split
  · rfl
  · split
    · rfl
    · exact hdrop _ _

/-- Storing a record and attempting recovery is the decoder's acceptance of it. -/
theorem store_parity_accepts (q : Probed) (start : Nat) (payload : Bytes) :
    (match storeParity q.decoder start payload with
      | (stored, none) => (stored, none)
      | (stored, some held) =>
        (((q.setDecoder (stored.tryRecover held).1).maybeRetireOldGroupsLocked).decoder,
          (stored.tryRecover held).2)) =
      q.decoder.acceptParity q.probe.current start
        (FecDecoder.descriptorLens payload q.decoder.k) payload := by
  unfold storeParity FecDecoder.acceptParity
  dsimp only
  generalize openTo q.decoder.ic _ start _ = opened
  cases opened with
  | none => rfl
  | some parity =>
    dsimp only
    rw [maybe_retire_decoder]
    rfl

/-- The parity call is the decoder's, with the answers of the probe before and after recovery. -/
theorem on_parity_decoder (p : Probed) (payload : Bytes) :
    ((p.onParityWithScratch payload).1.decoder, (p.onParityWithScratch payload).2) =
      p.decoder.onParity p.probe.current p.maybeRetireOldGroupsLocked.probe.current payload := by
  rw [on_parity_eq]
  unfold parityWith FecDecoder.onParity
  dsimp only
  rw [← maybe_retire_decoder]
  have hstatic := p.maybe_retire_static_single
  generalize p.maybeRetireOldGroupsLocked = q at hstatic ⊢
  have haccept := store_parity_accepts q (uint ((payload.drop 1).take 4)) payload
  by_cases hkind : p.decoder.staticSingle = true ∨ payload.length < 7 ∨
      byteAt payload 0 ≠ controlKindFECParity
  · rw [if_pos hkind, if_pos (by unfold ParityHeader; tauto)]
  · rw [if_neg hkind]
    by_cases hheader : uint ((payload.drop 1).take 4) = 0 ∨
        (byteAt payload 5).toNat ≠ p.decoder.k ∨
        (uint ((payload.drop 1).take 4) - 1) % p.decoder.k ≠ 0
    · rw [if_pos hheader, if_pos (by unfold ParityHeader; tauto)]
    · rw [if_neg hheader, if_neg (by unfold ParityHeader; tauto)]
      by_cases hretired : q.Retired (uint ((payload.drop 1).take 4))
      · rw [if_pos hretired, if_pos (show _ ∧ _ from hretired)]
      · rw [if_neg hretired, if_neg (show ¬ (_ ∧ _) from hretired)]
        by_cases hshort : payload.length < 6 + 4 * q.decoder.k + tagLen q.decoder.ic
        · rw [if_pos hshort, if_pos (fun hfits => hfits.1 hshort)]
        · rw [if_neg hshort]
          by_cases hlong : ∃ l ∈ FecDecoder.descriptorLens payload q.decoder.k,
              l + tagLen q.decoder.ic > payload.length - (6 + 4 * q.decoder.k)
          · have hunfit : ¬ DescriptorFits q.decoder payload := by
              obtain ⟨l, hl, hgt⟩ := hlong
              exact fun hfits => hfits.2 l hl hgt
            rw [if_pos hlong, if_pos hunfit]
          · have hfits : DescriptorFits q.decoder payload :=
              ⟨hshort, fun l hl hgt => hlong ⟨l, hl, hgt⟩⟩
            rw [if_neg hlong, if_neg (not_not.mpr hfits)]
            by_cases hdone : q.decoder.IsDone (uint ((payload.drop 1).take 4))
            · rw [if_pos hdone, if_pos (.inr (.inr hdone))]
            · rw [if_neg hdone, if_neg (by rw [hstatic]; tauto)]
              by_cases hparity : HasParity q.decoder (uint ((payload.drop 1).take 4))
              · rw [if_pos hparity, if_pos (show _ = true from hparity)]
              · rw [if_neg hparity, if_neg (show ¬ _ = true from hparity), ← haccept]
                split
                · rfl
                · rfl

end Probed

end TlsVpn.Fec
