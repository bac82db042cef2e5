import TlsVpn.Fec.Table

/-!
# The size of the decoder's tables

The map of groups is bounded and the order of creation never loses a live group, whatever arrives
(`Tabled`). The order itself is not bounded: it is pruned from its head only, so one group that
stays incomplete keeps every later entry in it, and the pending limit does not help if the later
groups complete (`stuck_head_grows`). `tables_bounded` gives the bound that holds as long as no
group outlives too many others.
-/

namespace TlsVpn.Fec

open Lib Crypto Function List

namespace FecDecoder

variable {d : FecDecoder}

/-- The map is within its limit, and every live group is in the order of creation. -/
structure Tabled (d : FecDecoder) : Prop where
  limit : d.groups.keys.length ≤ fecMaxPendingGroups
  ordered : ∀ start ∈ d.groups, start ∈ d.groupOrder.drop d.groupHead

theorem tabled_new (k : Nat) (ic : Option InnerCipher) : (new k ic).Tabled :=
  ⟨Nat.zero_le _, fun _ hmem => absurd hmem (AList.notMem_empty _)⟩

/-- Erasing never adds a key. -/
theorem length_keys_foldl_erase (groups : AList (fun _ : Nat => FecGroupState))
    (dropped : List Nat) :
    (dropped.foldl (fun m start => m.erase start) groups).keys.length ≤ groups.keys.length := by
  induction dropped generalizing groups with
  | nil => exact le_rfl
  | cons start rest ih =>
    refine (ih _).trans ?_
    rw [AList.keys_erase]
    exact length_erase_le

variable {start : Nat}

theorem mem_of_mem_foldl_erase {groups : AList (fun _ : Nat => FecGroupState)} {dropped : List Nat}
    (h : start ∈ dropped.foldl (fun m start => m.erase start) groups) : start ∈ groups := by
  obtain ⟨g, hg⟩ := Option.isSome_iff_exists.mp (AList.lookup_isSome.mpr h)
  exact AList.lookup_isSome.mp (Option.isSome_iff_exists.mpr ⟨g, lookup_of_foldl_erase hg⟩)

theorem mem_of_mem_spared (h : start ∈ d.spared) : start ∈ d.groups := by
  unfold spared at h
  cases hvictim : d.victim with
  | none =>
    rw [hvictim] at h
    exact h
  | some victim =>
    rw [hvictim] at h
    exact (AList.mem_erase.mp h).2

/-- When the map is full there is a victim, so there is room without it. -/
theorem Tabled.room (h : d.Tabled) : d.spared.keys.length < fecMaxPendingGroups := by
  unfold spared victim
  split
  · rename_i hfull
    have hlimit := h.limit
    cases hvictim : (d.groupOrder.drop d.groupHead).find? (fun start => start ∈ d.groups) with
    | none =>
      -- a full map has a group, and the order has it too
      exfalso
      have hpos : 0 < d.groups.keys.length := Nat.lt_of_lt_of_le (by decide) hfull
      obtain ⟨start, hstart⟩ := exists_mem_of_length_pos hpos
      have hlive : start ∈ d.groups := AList.mem_keys.mpr hstart
      have hnone := find?_eq_none.mp hvictim start (h.ordered start hlive)
      simp [hlive] at hnone
    | some victim =>
      have hlive : victim ∈ d.groups := by simpa using find?_some hvictim
      show (d.groups.erase victim).keys.length < fecMaxPendingGroups
      rw [AList.keys_erase, length_erase_of_mem (AList.mem_keys.mp hlive)]
      have hpos : 0 < fecMaxPendingGroups := by decide
      omega
  · rename_i hroom
    exact Nat.not_le.mp hroom

theorem Tabled.create (h : d.Tabled) (hnew : ¬ d.Live start) : (d.newGroup start).Tabled := by
  obtain ⟨order, head, hspec, hhead, -, hkept⟩ := d.new_group_spec start
  have hfresh : start ∉ d.spared := fun hmem =>
    hnew (AList.lookup_isSome.mpr (mem_of_mem_spared hmem))
  rw [hspec]
  refine ⟨?_, fun other hother => ?_⟩
  · show (d.spared.insert start (.new start)).keys.length ≤ fecMaxPendingGroups
    rw [AList.keys_insert, length_cons,
      erase_of_not_mem (fun hmem => hfresh (AList.mem_keys.mpr hmem))]
    exact h.room
  · show other ∈ (order ++ [start]).drop head
    rw [drop_append_of_le_length hhead, mem_append]
    rcases (AList.mem_insert _).mp hother with rfl | hspared
    · exact .inr (mem_singleton.mpr rfl)
    · have hlive := mem_of_mem_spared hspared
      exact .inl (hkept other (mem_drop_while (h.ordered other hlive) hlive) hspared)

/-- Every operation keeps the limit and the order. -/
theorem Tabled.apply_op {op : TableOp} (h : d.Tabled) (hsuits : d.Suits op) :
    (d.applyOp op).Tabled := by
  cases op with
  | create start => exact h.create hsuits.1
  | put g =>
    have hlive : g.start ∈ d.groups := AList.lookup_isSome.mp hsuits.1
    refine ⟨?_, fun other hother => ?_⟩
    · show (d.groups.insert g.start g).keys.length ≤ fecMaxPendingGroups
      have hpos := length_pos_of_mem (AList.mem_keys.mp hlive)
      have hlimit := h.limit
      rw [AList.keys_insert, length_cons, length_erase_of_mem (AList.mem_keys.mp hlive)]
      omega
    · rcases (AList.mem_insert _).mp hother with rfl | hold
      · exact h.ordered _ hlive
      · exact h.ordered other hold
  | finish reason g =>
    refine ⟨?_, fun other hother => h.ordered other (AList.mem_erase.mp hother).2⟩
    show (d.groups.erase g.start).keys.length ≤ fecMaxPendingGroups
    rw [AList.keys_erase]
    exact length_erase_le.trans h.limit
  | drop p =>
    obtain ⟨order, head, hdrop, -, hkept⟩ := d.drop_groups_spec p
    show (d.dropGroups p).Tabled
    rw [hdrop]
    refine ⟨(length_keys_foldl_erase _ _).trans h.limit, fun other hother => ?_⟩
    exact hkept other (h.ordered other (mem_of_mem_foldl_erase hother)) hother
  | countRecovered | setFence | setCleanup | setRetired => exact ⟨h.limit, h.ordered⟩

/-! ## The length of the order -/

/-- If the operation creates a group, at most `width` groups were created since the oldest one that
is still live. -/
def KeepsUp (width : Nat) (d : FecDecoder) : TableOp → Prop
  | .create _ => d.backlog.length ≤ width
  | .put _ | .finish _ _ | .countRecovered | .setFence _ | .setCleanup _ | .setRetired _
  | .drop _ => True

instance (width : Nat) (d : FecDecoder) : ∀ op, Decidable (d.KeepsUp width op)
  | .create _ => inferInstanceAs (Decidable (_ ≤ _))
  | .put _ | .finish _ _ | .countRecovered | .setFence _ | .setCleanup _ | .setRetired _
  | .drop _ => isTrue trivial

/-- Only creating a group lengthens the order, and it prunes the order first. -/
theorem length_order_apply_op {width : Nat} {op : TableOp} (h : d.KeepsUp width op)
    (hlength : d.groupOrder.length ≤ 2 * width + 1) :
    (d.applyOp op).groupOrder.length ≤ 2 * width + 1 := by
  cases op with
  | create start =>
    have hbacklog : d.backlog.length ≤ width := h
    obtain ⟨order, head, hspec, -, hshort, -⟩ := d.new_group_spec start
    show (d.newGroup start).groupOrder.length ≤ 2 * width + 1
    rw [hspec]
    show (order ++ [start]).length ≤ 2 * width + 1
    rw [length_append, length_singleton]
    omega
  | drop p =>
    obtain ⟨order, head, hdrop, hshort, -⟩ := d.drop_groups_spec p
    show (d.dropGroups p).groupOrder.length ≤ 2 * width + 1
    rw [hdrop]
    exact hshort.trans hlength
  | put | finish | countRecovered | setFence | setCleanup | setRetired => exact hlength

/-- Whatever arrives at a new decoder, at most `fecMaxPendingGroups` groups are live and all of them
are in the order of creation from its head on. The order is bounded by a constant as long as no
group is created while more than a constant number of them were created since the oldest live
one. -/
theorem tables_bounded (k : Nat) (ic : Option InnerCipher) (single : Bool)
    (items : List Incoming) :
    (receiveAll { new k ic with staticSingle := single } items).groups.keys.length ≤
        fecMaxPendingGroups ∧
      (∀ start, (receiveAll { new k ic with staticSingle := single } items).Live start →
        start ∈ (receiveAll { new k ic with staticSingle := single } items).groupOrder.drop
          (receiveAll { new k ic with staticSingle := single } items).groupHead) ∧
      ∀ width, Along opStep (KeepsUp width) { new k ic with staticSingle := single }
          (trace { new k ic with staticSingle := single } items) →
        (receiveAll { new k ic with staticSingle := single } items).groupOrder.length ≤
          2 * width + 1 := by
  have hwell : WellFormed { new k ic with staticSingle := single } :=
    (well_formed_new k ic).with_single single
  have htabled : Tabled { new k ic with staticSingle := single } :=
    ⟨(tabled_new k ic).limit, (tabled_new k ic).ordered⟩
  obtain ⟨-, hfinal⟩ := receive_all_invariant items
    (fun d op _ h hsuits => Tabled.apply_op h hsuits) hwell htabled
  refine ⟨hfinal.limit, fun start hlive => hfinal.ordered start (AList.lookup_isSome.mp hlive),
    fun width hkeeps => ?_⟩
  have hpreserve : ∀ (d : FecDecoder) op d', d.groupOrder.length ≤ 2 * width + 1 →
      d.KeepsUp width op → opStep d op = some d' → d'.groupOrder.length ≤ 2 * width + 1 := by
    intro d op d' hlength hop hstep
    cases hstep
    exact length_order_apply_op hop hlength
  exact run_invariant hpreserve (Nat.zero_le _) hkeeps (receive_all_eq_run _ items)

/-- A frame that carries one zero byte. -/
def zeroFrame (seq : Nat) : Incoming := .data none seq [0]

/-- Two groups, of which the first completes before the second begins. -/
theorem completed_groups_bounded :
    (receiveAll { new 2 none with staticSingle := false }
      [zeroFrame 1, zeroFrame 2, zeroFrame 3]).groupOrder.length ≤ 2 * 1 + 1 :=
  (tables_bounded 2 none false [zeroFrame 1, zeroFrame 2, zeroFrame 3]).2.2 1 (by decide)

/-! ## A group that stays incomplete -/

/-- The first group, of whose members only the first has arrived. -/
def firstGroup : AList (fun _ : Nat => FecGroupState) := AList.singleton 1 (firstMember 1 [0])

/-- A decoder for groups of two in which the first group is incomplete, and that has created the
groups of a list since, all of which are finished. -/
def stuck (order : List Nat) (ring : Nat → Nat) : FecDecoder :=
  { new 2 none with
    groups := firstGroup
    groupOrder := 1 :: order
    doneRing := ring }

theorem stuck_start : (new 2 none).receiveAll [zeroFrame 1] = stuck [] (fun _ => 0) := rfl

/-- The two members of another group finish it and lengthen the order. -/
theorem stuck_pair {order : List Nat} {ring : Nat → Nat} (hstart : start = 3 ∨ start = 259)
    (hdone : ring 3 ≠ start) :
    (stuck order ring).receiveAll [zeroFrame start, zeroFrame (start + 1)] =
      stuck (order ++ [start]) (update ring 3 start) := by
  have hslot : start &&& fecDoneMask = 3 := by
    rcases hstart with rfl | rfl
    · decide
    · decide
  have hnot : ¬ (stuck order ring).IsDone start := by
    unfold IsDone
    rw [hslot]
    exact hdone
  have hboundary : GroupBoundary 2 start := by
    rcases hstart with rfl | rfl
    · decide
    · decide
  have hnew : firstGroup.lookup start = none := by
    rcases hstart with rfl | rfl
    · rfl
    · rfl
  let opened : FecDecoder :=
    { stuck (order ++ [start]) ring with
      groups := firstGroup.insert start (firstMember start [0]) }
  have hfirst : (stuck order ring).onData none start [0] = (opened, none) :=
    Plain.on_first_member ⟨rfl, rfl, rfl, rfl⟩ none rfl rfl (AList.lookup_isSome.mp rfl)
      (show 1 < fecMaxPendingGroups by decide) hnew hnot hboundary (show 3 ≠ 1 by decide)
      (by decide)
  have hlast : opened.onData none (start + 1) [0] =
      (opened.finishGroup ((firstMember start [0]).mark (start + 1 - start)), none) := by
    refine Plain.on_last_member ⟨rfl, rfl, rfl, rfl⟩ none (AList.lookup_insert _) ?_ hnot ?_ ?_
      (by omega) (by decide)
    · show start + 1 - (start + 1 - 1) % 2 = start
      have hmod := hboundary.2
      omega
    · rw [Nat.add_sub_cancel_left]
      show ¬ (0 ||| 1 <<< 0) &&& (1 <<< 1) ≠ 0
      decide
    · rw [Nat.add_sub_cancel_left]
      show (0 ||| 1 <<< 0) ||| 1 <<< 1 = 3
      decide
  have hgroups : (firstGroup.insert start (firstMember start [0])).erase start = firstGroup := by
    rcases hstart with rfl | rfl
    · rfl
    · rfl
  have hfinish : opened.finishGroup ((firstMember start [0]).mark (start + 1 - start)) =
      stuck (order ++ [start]) (update ring (start &&& fecDoneMask) start) := by
    show { stuck (order ++ [start]) (update ring (start &&& fecDoneMask) start) with
      groups := (firstGroup.insert start (firstMember start [0])).erase start } = _
    rw [hgroups]
    rfl
  simp only [receiveAll, receive, zeroFrame, hfirst, hlast, hfinish, hslot]

/-- The members of two groups whose marks share a slot, over and over. -/
def alternating : Nat → List Incoming
  | 0 => []
  | n + 1 =>
    [zeroFrame 3, zeroFrame 4] ++ ([zeroFrame 259, zeroFrame 260] ++ alternating n)

theorem stuck_alternating (n : Nat) {order : List Nat} {ring : Nat → Nat} (hdone : ring 3 ≠ 3) :
    ((stuck order ring).receiveAll (alternating n)).groupOrder.length =
      (stuck order ring).groupOrder.length + 2 * n := by
  induction n generalizing order ring with
  | zero => rfl
  | succ n ih =>
    -- each mark hides the other, so that both groups are created again
    have hring : update (update ring 3 3) 3 259 3 ≠ 3 := by
      rw [update_self]
      decide
    rw [alternating, receive_all_append, receive_all_append, stuck_pair (.inl rfl) hdone,
      stuck_pair (.inr rfl) (by rw [update_self]; decide), ih hring]
    simp only [stuck, length_cons, length_append, length_nil]
    omega

/-- One group that stays incomplete lets the order grow without bound, though never more than two
groups are live. -/
theorem stuck_head_grows :
    ∃ items : Nat → List Incoming,
      ∀ bound, bound < ((new 2 none).receiveAll (items bound)).groupOrder.length := by
  refine ⟨fun bound => [zeroFrame 1] ++ alternating bound, fun bound => ?_⟩
  dsimp only
  rw [receive_all_append, stuck_start, stuck_alternating bound (by decide)]
  show bound < 1 + 2 * bound
  omega

end FecDecoder

end TlsVpn.Fec
