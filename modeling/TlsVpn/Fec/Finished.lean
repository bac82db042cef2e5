import TlsVpn.Fec.Table

/-!
# Groups stay finished

The decoder remembers the groups it has finished in a ring of 256 slots that is indexed by the low
bits of the start. A group stays finished until another one with the same low bits is finished
(`finished_groups_silent`), and that may be the very next one (`finished_group_reopened`).
-/

namespace TlsVpn.Fec

open Lib Crypto Function List

/-- The starts of the groups that a list of operations finishes. -/
def finishes : List TableOp → List Nat
  | [] => []
  | .finish _ g :: rest => g.start :: finishes rest
  | .create _ :: rest | .put _ :: rest | .countRecovered :: rest | .setFence _ :: rest
  | .setCleanup _ :: rest | .setRetired _ :: rest | .drop _ :: rest => finishes rest

theorem finishes_append (first second : List TableOp) :
    finishes (first ++ second) = finishes first ++ finishes second := by
  induction first with
  | nil => rfl
  | cons op rest ih => cases op <;> simp [finishes, ih]

/-- What arrives is a data frame or a control payload other than FEC_MODE. -/
def Incoming.IsTraffic : Incoming → Prop
  | .data _ _ _ => True
  | .control _ _ payload => parseFECModeControl payload = none

instance : DecidablePred Incoming.IsTraffic
  | .data _ _ _ => isTrue trivial
  | .control _ _ _ => inferInstanceAs (Decidable (_ = none))

namespace FecDecoder

variable {d : FecDecoder}

/-! ## The ring of finished groups -/

/-- Only finishing a group marks the ring. -/
theorem done_ring_apply_op (d : FecDecoder) (op : TableOp) :
    (d.applyOp op).doneRing = (finishes [op]).foldl
      (fun ring start => update ring (start &&& fecDoneMask) start) d.doneRing := by
  cases op with
  | create start =>
    obtain ⟨order, head, hnew, -⟩ := d.new_group_spec start
    simp only [applyOp, hnew]
    rfl
  | drop p =>
    obtain ⟨order, head, hdrop, -⟩ := d.drop_groups_spec p
    simp only [applyOp, hdrop]
    rfl
  | put | finish | countRecovered | setFence | setCleanup | setRetired => rfl

/-- A group that was or is finished is remembered at the end if no other one with its slot is
finished. -/
theorem is_done_run {list : List TableOp} {d' : FecDecoder} {start : Nat}
    (hdone : d.IsDone start ∨ start ∈ finishes list) (hrun : run opStep d list = some d')
    (hslots : ∀ other ∈ finishes list, other &&& fecDoneMask = start &&& fecDoneMask →
      other = start) : d'.IsDone start := by
  induction list generalizing d with
  | nil =>
    cases hrun
    exact hdone.resolve_right not_mem_nil
  | cons op rest ih =>
    obtain ⟨next, hstep, hrest⟩ := run_cons_eq_some.mp hrun
    cases hstep
    have hsplit : finishes (op :: rest) = finishes [op] ++ finishes rest :=
      finishes_append [op] rest
    rw [hsplit] at hdone hslots
    refine ih ?_ hrest fun other hother => hslots other (mem_append_right _ hother)
    unfold IsDone at hdone ⊢
    rw [done_ring_apply_op]
    cases op with
    | finish reason g =>
      show update d.doneRing (g.start &&& fecDoneMask) g.start
        (start &&& fecDoneMask) = start ∨ _
      by_cases hslot : start &&& fecDoneMask = g.start &&& fecDoneMask
      · rw [hslot, update_self]
        exact .inl (hslots g.start (by simp [finishes]) hslot.symm)
      · rw [update_of_ne hslot]
        refine hdone.imp_right fun hmem => (mem_append.mp hmem).resolve_left ?_
        intro hnow
        rw [mem_singleton.mp hnow] at hslot
        exact hslot rfl
    | create | put | countRecovered | setFence | setCleanup | setRetired | drop => exact hdone

theorem finishes_recover_ops (g : FecGroupState) : (finishes (recoverOps g)).length ≤ 1 := by
  unfold recoverOps
  cases g.parity with
  | none => exact Nat.zero_le _
  | some parity =>
    dsimp only
    split
    · exact Nat.zero_le _
    · match g.missing with
      | [] => exact le_rfl
      | [i] =>
        dsimp only
        split
        · exact le_rfl
        · exact le_rfl
      | _ :: _ :: _ => exact Nat.zero_le _

@[simp] theorem finishes_open_ops (d : FecDecoder) (start : Nat) :
    finishes (d.openOps start) = [] := by
  unfold openOps
  cases d.lookupGroup start with
  | none | some => rfl

@[simp] theorem finishes_retire_ops (d : FecDecoder) (progress : Option Nat) :
    finishes (d.retireOps progress) = [] := by
  unfold retireOps
  split
  · rfl
  · cases progress with
    | none => rfl
    | some expected =>
      dsimp only
      split
      · rfl
      · rfl

theorem finishes_member_ops (fullMask : Nat) (g : FecGroupState) (i : Nat) (frame : Bytes) :
    (finishes (memberOps fullMask g i frame)).length ≤ 1 := by
  unfold memberOps
  split
  · exact Nat.zero_le _
  · split
    · exact le_rfl
    · exact finishes_recover_ops _

theorem finishes_accept_ops (d : FecDecoder) (after : Option Nat) (start : Nat) (lens : List Nat)
    (payload : Bytes) : (finishes (d.acceptOps after start lens payload)).length ≤ 1 := by
  unfold acceptOps
  dsimp only
  generalize openTo d.ic _ start _ = body
  cases body with
  | none =>
    simp only [finishes_append, finishes_open_ops]
    exact Nat.zero_le _
  | some body =>
    simp only [finishes_append, finishes_open_ops, finishes_retire_ops, nil_append,
      append_nil]
    exact finishes_recover_ops _

/-- A call finishes at most one group. -/
theorem finishes_ops (d : FecDecoder) (item : Incoming) : (finishes (d.ops item)).length ≤ 1 := by
  cases item with
  | data progress seq frame =>
    simp only [ops, dataOps]
    repeat' split
    all_goals simp only [finishes, finishes_append, finishes_open_ops, finishes_retire_ops,
      nil_append, length_nil, Nat.zero_le]
    exact finishes_member_ops _ _ _ _
  | control before after payload =>
    simp only [ops]
    cases parseControlKind payload with
    | error e => exact Nat.zero_le _
    | ok kind =>
      dsimp only
      split
      · simp only [parityOps]
        repeat' split
        all_goals simp only [finishes, finishes_append, finishes_retire_ops, nil_append,
          length_nil, Nat.zero_le]
        exact finishes_accept_ops _ _ _ _ _
      · cases parseFECModeControl payload with
        | none => exact Nat.zero_le _
        | some ctrl =>
          simp only [modeOps]
          split
          · exact Nat.zero_le _
          · simp only [finishes, finishes_append, finishes_retire_ops, nil_append,
              length_nil, Nat.zero_le]

end FecDecoder

/-! ## Traffic without controls -/

/-- The operation concerns groups only. -/
def TableOp.Inner : TableOp → Prop
  | .create _ | .put _ | .finish _ _ | .countRecovered => True
  | .setFence _ | .setCleanup _ | .setRetired _ | .drop _ => False

namespace FecDecoder

variable {d : FecDecoder}

theorem Plain.apply_op {op : TableOp} (h : d.Plain) (hop : op.Inner) : (d.applyOp op).Plain := by
  cases op with
  | create start =>
    obtain ⟨order, head, hnew, -⟩ := d.new_group_spec start
    simp only [applyOp, hnew]
    exact ⟨h.staticSingle_eq, h.fence_eq, h.cleanupBefore_eq, h.retiredBefore_eq⟩
  | put | finish | countRecovered =>
    exact ⟨h.staticSingle_eq, h.fence_eq, h.cleanupBefore_eq, h.retiredBefore_eq⟩
  | setFence | setCleanup | setRetired | drop => cases hop

/-- Group operations leave a plain decoder plain. -/
theorem Plain.run_ops {list : List TableOp} {d' : FecDecoder} (h : d.Plain)
    (hinner : ∀ op ∈ list, op.Inner) (hrun : run opStep d list = some d') : d'.Plain := by
  induction list generalizing d with
  | nil =>
    cases hrun
    exact h
  | cons op rest ih =>
    obtain ⟨next, hstep, hrest⟩ := run_cons_eq_some.mp hrun
    cases hstep
    exact ih (h.apply_op (hinner op mem_cons_self))
      (fun other hother => hinner other (mem_cons_of_mem _ hother)) hrest

theorem inner_of_local {op : TableOp} (h : op.Local) : op.Inner := by
  cases op with
  | put | finish | countRecovered => trivial
  | create | setFence | setCleanup | setRetired | drop => cases h

theorem inner_open_ops (d : FecDecoder) (start : Nat) : ∀ op ∈ d.openOps start, op.Inner := by
  unfold openOps
  cases d.lookupGroup start with
  | none => simp [TableOp.Inner]
  | some g => simp

/-- Without a control no group is retired. -/
theorem Plain.retire_ops (h : d.Plain) (progress : Option Nat) : d.retireOps progress = [] :=
  if_pos (.inl h.cleanupBefore_eq)

theorem Plain.inner_accept_ops (h : d.Plain) (after : Option Nat) (start : Nat) (lens : List Nat)
    (payload : Bytes) : ∀ op ∈ d.acceptOps after start lens payload, op.Inner := by
  unfold acceptOps
  dsimp only
  generalize openTo d.ic _ start _ = body
  cases body with
  | none =>
    refine forall_mem_append.mpr ⟨inner_open_ops d start, ?_⟩
    exact forall_mem_cons.mpr ⟨trivial, forall_mem_nil _⟩
  | some body =>
    have hinner : ∀ op ∈ d.openOps start ++ (.put { (d.openGroup start).2 with
        k := d.k, lens, parity := some body } :: recoverOps { (d.openGroup start).2 with
        k := d.k, lens, parity := some body }), op.Inner :=
      forall_mem_append.mpr ⟨inner_open_ops d start, forall_mem_cons.mpr
        ⟨trivial, fun op hop => inner_of_local (local_recover_ops _ op hop)⟩⟩
    have hplain := h.run_ops hinner
      ((run_ops_append (run_open_ops d start)).trans (run_recover_ops _ _))
    refine forall_mem_append.mpr ⟨hinner, ?_⟩
    rw [show ((d.openGroup start).1.setGroup _ |>.tryRecover _).1.retireOps after = [] from
      hplain.retire_ops after]
    exact forall_mem_nil _

/-- Traffic keeps a decoder without controls as it is, apart from its groups. -/
theorem Plain.receive (h : d.Plain) {item : Incoming} (hitem : item.IsTraffic) :
    (d.receive item).1.Plain := by
  refine h.run_ops ?_ (receive_eq_run d item)
  cases item with
  | data progress seq frame =>
    simp only [ops, dataOps, h.retire_ops progress]
    repeat' split
    · exact forall_mem_nil _
    · exact forall_mem_nil _
    · exact forall_mem_nil _
    · exact forall_mem_nil _
    · exact forall_mem_nil _
    · exact forall_mem_nil _
    · exact forall_mem_append.mpr ⟨inner_open_ops d _,
        fun op hop => inner_of_local (local_member_ops _ _ _ _ op hop)⟩
  | control before after payload =>
    have hmode : parseFECModeControl payload = none := hitem
    simp only [ops, hmode]
    cases parseControlKind payload with
    | error e => exact forall_mem_nil _
    | ok kind =>
      dsimp only
      split
      · simp only [parityOps, h.retire_ops before, h.maybe_retire before, nil_append]
        repeat' split
        · exact forall_mem_nil _
        · exact forall_mem_nil _
        · exact forall_mem_nil _
        · exact forall_mem_nil _
        · exact forall_mem_nil _
        · exact forall_mem_nil _
        · exact forall_mem_nil _
        · exact h.inner_accept_ops after _ _ _
      · exact forall_mem_nil _

theorem Plain.receive_all (h : d.Plain) {items : List Incoming}
    (hitems : ∀ item ∈ items, item.IsTraffic) : (d.receiveAll items).Plain := by
  induction items generalizing d with
  | nil => exact h
  | cons item rest ih =>
    obtain ⟨hitem, hrest⟩ := forall_mem_cons.mp hitems
    exact ih (h.receive hitem) hrest

/-! ## Late arrivals -/

/-- What arrives is a data frame of the group or a parity record for it. -/
def OfGroup (d : FecDecoder) (start : Nat) : Incoming → Prop
  | .data _ seq _ => seq ≠ 0 ∧ d.groupStartOf seq = start
  | .control _ _ payload =>
    payload.head? = some controlKindFECParity ∧ recordStart payload = start

/-- What arrives for a group that is remembered as finished is ignored. -/
theorem Plain.receive_done (h : d.Plain) {start : Nat} (hdone : d.IsDone start) {item : Incoming}
    (hitem : d.OfGroup start item) : d.receive item = (d, none) := by
  cases item with
  | data progress seq frame =>
    obtain ⟨hseq, hstart⟩ := hitem
    by_cases hframe : frame = []
    · exact if_pos (.inl hframe)
    · show d.onData progress seq frame = (d, none)
      rw [h.on_data progress hframe hseq, hstart, if_pos hdone]
  | control before after payload =>
    obtain ⟨hkind, hstart⟩ := hitem
    obtain ⟨rest, rfl⟩ := head?_eq_some_iff.mp hkind
    show d.onParity before after (controlKindFECParity :: rest) = (d, none)
    unfold onParity
    dsimp only
    rw [h.maybe_retire before]
    repeat' split
    · rfl
    · rfl
    · rfl
    · rfl
    · rfl
    · rfl
    · rfl
    · rename_i hnot _
      rw [← hstart] at hdone
      exact absurd hdone hnot

/-- After an arrival has finished a group, and as long as no other group with the same slot is
finished, data frames and parity records of that group change nothing and yield nothing. -/
theorem finished_groups_silent (k : Nat) (ic : Option InnerCipher)
    (before since : List Incoming) (item late : Incoming) (start : Nat)
    (hbefore : ∀ other ∈ before, other.IsTraffic) (hitem : item.IsTraffic)
    (hsince : ∀ other ∈ since, other.IsTraffic)
    (hfinish : start ∈ finishes (((new k ic).receiveAll before).ops item))
    (hslots : ∀ other ∈ finishes ((((new k ic).receiveAll before).receive item).1.trace since),
      other &&& fecDoneMask = start &&& fecDoneMask → other = start)
    (hlate : ((((new k ic).receiveAll before).receive item).1.receiveAll since).OfGroup start
      late) :
    ((((new k ic).receiveAll before).receive item).1.receiveAll since).receive late =
      ((((new k ic).receiveAll before).receive item).1.receiveAll since, none) := by
  have hplain := ((plain_new k ic).receive_all hbefore).receive hitem
  have honly : ∀ other ∈ finishes (((new k ic).receiveAll before).ops item), other = start := by
    have hlength := finishes_ops ((new k ic).receiveAll before) item
    intro other hother
    match hlist : finishes (((new k ic).receiveAll before).ops item) with
    | [] => simp [hlist] at hfinish
    | [only] =>
      rw [hlist, mem_singleton] at hfinish hother
      rw [hfinish, hother]
    | _ :: _ :: _ => simp [hlist] at hlength
  have hdone := is_done_run (.inr hfinish) (receive_eq_run _ item)
    (fun other hother _ => honly other hother)
  have hstill := is_done_run (.inl hdone) (receive_all_eq_run _ since) hslots
  exact (hplain.receive_all hsince).receive_done hstill hlate

/-- A second copy of the first frame of a complete group, after a frame of the next group. -/
theorem repeated_frame_silent :
    ((((new 2 none).receiveAll [.data none 1 [0]]).receive (.data none 2 [0])).1.receiveAll
        [.data none 3 [0]]).receive (.data none 1 [0]) =
      ((((new 2 none).receiveAll [.data none 1 [0]]).receive (.data none 2 [0])).1.receiveAll
        [.data none 3 [0]], none) :=
  finished_groups_silent 2 none [.data none 1 [0]] [.data none 3 [0]] (.data none 2 [0])
    (.data none 1 [0]) 1 (by decide) (by decide) (by decide) (by decide) (by decide)
    ⟨by decide, by decide⟩

/-- The group at 1 is complete and one other group, that at 257, has been completed since. A second
copy of the first frame opens the group at 1 again. -/
theorem finished_group_reopened :
    ∃ d, d = (new 2 none).receiveAll
        [.data none 1 [0], .data none 2 [0], .data none 257 [0], .data none 258 [0]] ∧
      finishes ((new 2 none).trace
        [.data none 1 [0], .data none 2 [0], .data none 257 [0], .data none 258 [0]]) = [1, 257] ∧
      d.OfGroup 1 (.data none 1 [0]) ∧ ¬ d.Live 1 ∧ (d.receive (.data none 1 [0])).1.Live 1 :=
  ⟨_, rfl, by decide, ⟨by decide, by decide⟩, by unfold Live; decide, by unfold Live; decide⟩

end FecDecoder

end TlsVpn.Fec
