import TlsVpn.Fec.Table

/-!
# What the lost counter counts

A group is abandoned with its parity record in hand if it is evicted at the pending limit or if its
descriptor is inconsistent. The members that are missing then are lost for good. `lost_eq_abandoned`
shows that the counter of the decoder adds up exactly these members if no evicted group holds a
parity record: an eviction releases its group without counting (`eviction_not_counted`).
-/

namespace TlsVpn.Fec

open Lib Crypto List

/-- The members still missing while the parity record is held. -/
def FecGroupState.heldMissing (g : FecGroupState) : Nat :=
  if g.k > 0 ∧ g.parity ≠ none then g.missing.length else 0

namespace FecDecoder

variable {d : FecDecoder}

/-- The members lost with the group that the operation evicts. -/
def evictedMissing (d : FecDecoder) : TableOp → Nat
  | .create _ => (d.victim.bind d.lookupGroup).elim 0 FecGroupState.heldMissing
  | .put _ | .finish _ _ | .countRecovered | .setFence _ | .setCleanup _ | .setRetired _
  | .drop _ => 0

/-- The members lost with the group that the operation abandons, by eviction or because of an
inconsistent descriptor. A group that is complete, recovered, suspended or retired loses none. -/
def abandonedMissing (d : FecDecoder) : TableOp → Nat
  | .create start => d.evictedMissing (.create start)
  | .finish .inconsistent g => g.heldMissing
  | .finish .complete _ | .finish .recovered _ | .put _ | .countRecovered | .setFence _
  | .setCleanup _ | .setRetired _ | .drop _ => 0

/-- The sum of a count over a list of operations. -/
def total (count : FecDecoder → TableOp → Nat) (d : FecDecoder) : List TableOp → Nat
  | [] => 0
  | op :: rest => count d op + total count (d.applyOp op) rest

theorem total_append {count : FecDecoder → TableOp → Nat} {d' : FecDecoder}
    {first second : List TableOp} (hrun : run opStep d first = some d') :
    total count d (first ++ second) = total count d first + total count d' second := by
  induction first generalizing d with
  | nil =>
    cases hrun
    exact (Nat.zero_add _).symm
  | cons op rest ih =>
    obtain ⟨next, hstep, hrest⟩ := run_cons_eq_some.mp hrun
    cases hstep
    rw [cons_append, total, total, ih hrest, Nat.add_assoc]

/-- A count adds up to zero if each operation counts for nothing. -/
theorem total_eq_zero_iff {count : FecDecoder → TableOp → Nat} {list : List TableOp} :
    total count d list = 0 ↔ Along opStep (fun d op => count d op = 0) d list := by
  induction list generalizing d with
  | nil => exact ⟨fun _ => trivial, fun _ => rfl⟩
  | cons op rest ih =>
    rw [total, Nat.add_eq_zero_iff, ih]
    rfl

/-- Finishing a group counts its missing members if it holds its parity record. -/
theorem lost_finish_group (d : FecDecoder) (g : FecGroupState) :
    (d.finishGroup g).lost = d.lost + g.heldMissing := rfl

/-- What an operation adds to the counter, and what it should add. -/
theorem lost_apply_op {op : TableOp} (hsuits : d.Suits op) :
    (d.applyOp op).lost + d.evictedMissing op = d.lost + d.abandonedMissing op := by
  cases op with
  | create start =>
    obtain ⟨order, head, hnew, -⟩ := d.new_group_spec start
    simp only [applyOp, hnew, abandonedMissing]
  | finish reason g =>
    have hlost := lost_finish_group d g
    cases reason with
    | inconsistent => exact hlost
    | complete | recovered =>
      have hnone : g.heldMissing = 0 := by
        simp [FecGroupState.heldMissing, hsuits.2 (by decide)]
      exact hlost.trans (by rw [hnone]; rfl)
  | drop p =>
    obtain ⟨order, head, hdrop, -⟩ := d.drop_groups_spec p
    simp only [applyOp, hdrop]
    rfl
  | put | countRecovered | setFence | setCleanup | setRetired => rfl

/-- The counter and the evicted members add up to the abandoned ones. -/
theorem lost_run {list : List TableOp} {d' : FecDecoder} (hsuits : Along opStep Suits d list)
    (hrun : run opStep d list = some d') :
    d'.lost + total evictedMissing d list = d.lost + total abandonedMissing d list := by
  induction list generalizing d with
  | nil =>
    cases hrun
    rfl
  | cons op rest ih =>
    obtain ⟨next, hstep, hrest⟩ := run_cons_eq_some.mp hrun
    obtain ⟨hop, halong⟩ := hsuits.cons hstep
    cases hstep
    have hnow := lost_apply_op hop
    have hlater := ih halong hrest
    rw [total, total]
    omega

/-- Whatever arrives at a new decoder, the counter is the number of members abandoned with their
parity record in hand exactly if no group was evicted that held its record and missed a member. -/
theorem lost_eq_abandoned (k : Nat) (ic : Option InnerCipher) (single : Bool)
    (items : List Incoming) :
    (receiveAll { new k ic with staticSingle := single } items).lost =
        total abandonedMissing { new k ic with staticSingle := single }
          (trace { new k ic with staticSingle := single } items) ↔
      Along opStep (fun d op => d.evictedMissing op = 0)
        { new k ic with staticSingle := single }
        (trace { new k ic with staticSingle := single } items) := by
  have hwell : WellFormed { new k ic with staticSingle := single } :=
    (well_formed_new k ic).with_single single
  have hsum := lost_run (along_trace hwell items) (receive_all_eq_run _ items)
  have hzero : ({ new k ic with staticSingle := single } : FecDecoder).lost = 0 := rfl
  rw [← total_eq_zero_iff]
  omega

/-- A record of a group of two, of which neither member has arrived, and a frame of another
group. -/
def unlucky : List Incoming :=
  [.control none none [1, 0, 0, 0, 1, 2, 0, 0, 0, 1, 0, 0, 0, 1, 3], .data none 3 [0]]

/-- Nothing is lost that was not missing in a group given up. -/
theorem unlucky_counted :
    (receiveAll { new 2 none with staticSingle := false } unlucky).lost =
      total abandonedMissing { new 2 none with staticSingle := false }
        (trace { new 2 none with staticSingle := false } unlucky) :=
  (lost_eq_abandoned 2 none false unlucky).mpr (by decide)

/-! ## A group evicted with its parity record -/

/-- A decoder for groups of two that holds the record of the first group and no member of it, and
one frame each of `n` more groups. -/
structure Filling (n : Nat) (d : FecDecoder) : Prop where
  plain : d.Plain
  k_eq : d.k = 2
  fullMask_eq : d.fullMask = 3
  groupHead_eq : d.groupHead = 0
  groupOrder_eq : ∃ rest, d.groupOrder = 1 :: rest
  held : ∃ g, d.lookupGroup 1 = some g ∧ g.heldMissing = 2
  count : d.groups.keys.length = n + 1
  below : ∀ start ∈ d.groups, start < 2 * n + 3
  doneRing_eq : d.doneRing = fun _ => 0
  lost_eq : d.lost = 0

/-- The first frame of the next group. -/
def nextFrame (n : Nat) : Incoming := .data none (2 * n + 3) [0]

variable {n : Nat}

theorem Filling.not_done (h : d.Filling n) : ¬ d.IsDone (2 * n + 3) := by
  unfold IsDone
  rw [h.doneRing_eq]
  exact (Nat.succ_ne_zero _).symm

theorem Filling.live (h : d.Filling n) : 1 ∈ d.groups := by
  obtain ⟨g, hg, -⟩ := h.held
  exact AList.lookup_isSome.mp (Option.isSome_iff_exists.mpr ⟨g, hg⟩)

theorem Filling.not_live (h : d.Filling n) : d.lookupGroup (2 * n + 3) = none := by
  cases hlookup : d.lookupGroup (2 * n + 3) with
  | none => rfl
  | some g =>
    have hlive : 2 * n + 3 ∈ d.groups :=
      AList.lookup_isSome.mp (Option.isSome_iff_exists.mpr ⟨g, hlookup⟩)
    exact absurd (h.below _ hlive) (Nat.lt_irrefl _)

/-- Below the limit the next frame opens its group. -/
theorem Filling.next (h : d.Filling n) (hroom : n + 1 < fecMaxPendingGroups) :
    (d.receive (nextFrame n)).1.Filling (n + 1) := by
  obtain ⟨rest, hrest⟩ := h.groupOrder_eq
  have hboundary : GroupBoundary d.k (2 * n + 3) := by
    rw [h.k_eq]
    exact ⟨Nat.succ_pos _, by omega⟩
  have hopen := h.plain.on_first_member none h.groupHead_eq hrest h.live (h.count ▸ hroom)
    h.not_live h.not_done hboundary (by rw [h.fullMask_eq]; decide) (by decide : ([0] : Bytes) ≠ [])
  have hfresh : 2 * n + 3 ∉ d.groups.keys := by
    intro hmem
    exact absurd (h.below _ (AList.mem_keys.mpr hmem)) (Nat.lt_irrefl _)
  show (d.onData none (2 * n + 3) [0]).1.Filling (n + 1)
  rw [hopen]
  obtain ⟨hsingle, hfence, hcleanup, hretired⟩ := h.plain
  refine ⟨⟨hsingle, hfence, hcleanup, hretired⟩, h.k_eq, h.fullMask_eq, h.groupHead_eq, ?_, ?_, ?_,
    ?_, h.doneRing_eq, h.lost_eq⟩
  · exact ⟨rest ++ [2 * n + 3], by rw [hrest]; rfl⟩
  · obtain ⟨g, hg, hmissing⟩ := h.held
    exact ⟨g, (AList.lookup_insert_ne (by omega)).trans hg, hmissing⟩
  · show (d.groups.insert (2 * n + 3) _).keys.length = n + 1 + 1
    rw [AList.keys_insert, length_cons, erase_of_not_mem hfresh, h.count]
  · intro start hstart
    rcases (AList.mem_insert _).mp hstart with rfl | hold
    · omega
    · have hlt := h.below start hold
      omega

theorem Filling.ops_next (h : d.Filling n) :
    d.ops (nextFrame n) = [.create (2 * n + 3), .put (firstMember (2 * n + 3) [0])] := by
  have hstart : d.groupStartOf (2 * n + 3) = 2 * n + 3 := by
    rw [groupStartOf, h.k_eq]
    omega
  have hbypass : d.fence.bypassData (2 * n + 3) = false := by
    rw [h.plain.fence_eq]
    simp [FecRXFenceState.bypassData, FecRXFenceState.Covers, FecRXFenceState.new]
  have hmask : ((FecGroupState.new (2 * n + 3)).mark 0).gotMask ≠ 3 := by
    show 0 ||| 1 <<< 0 ≠ 3
    decide
  show d.dataOps none (2 * n + 3) [0] = _
  simp [dataOps, h.plain.staticSingle_eq, hbypass, h.plain.retiredBefore_eq, hstart, h.not_done,
    openOps, openGroup, h.not_live, memberOps, h.fullMask_eq, hmask, recoverOps]
  exact ⟨rfl, rfl⟩

/-- At the limit the next frame evicts the first group, and its members are not counted. -/
theorem Filling.evicts (h : d.Filling n) (hfull : fecMaxPendingGroups ≤ n + 1) :
    (d.receive (nextFrame n)).1.lost = 0 ∧ 2 ≤ total evictedMissing d (d.ops (nextFrame n)) := by
  constructor
  · have hrun := receive_eq_run d (nextFrame n)
    rw [h.ops_next] at hrun
    obtain ⟨order, head, hnew, -⟩ := d.new_group_spec (2 * n + 3)
    rw [← Option.some.inj hrun]
    show (d.newGroup (2 * n + 3)).lost = 0
    rw [hnew]
    exact h.lost_eq
  · obtain ⟨rest, hrest⟩ := h.groupOrder_eq
    obtain ⟨g, hg, hmissing⟩ := h.held
    have hvictim : d.victim = some 1 := by
      rw [victim, if_pos (by rw [h.count]; exact hfull), h.groupHead_eq, hrest, drop_zero,
        find?_cons_of_pos (by simpa using h.live)]
    rw [h.ops_next, total]
    refine Nat.le_trans ?_ (Nat.le_add_right _ _)
    show 2 ≤ (d.victim.bind d.lookupGroup).elim 0 FecGroupState.heldMissing
    rw [hvictim, Option.bind_some, hg]
    exact hmissing.ge

/-- The first group's record and one frame each of `n` more groups. -/
def fillingItems : Nat → List Incoming
  | 0 => [.control none none [1, 0, 0, 0, 1, 2, 0, 0, 0, 1, 0, 0, 0, 1, 3]]
  | n + 1 => fillingItems n ++ [nextFrame n]

theorem filling_items (hroom : n < fecMaxPendingGroups) :
    ((new 2 none).receiveAll (fillingItems n)).Filling n := by
  induction n with
  | zero =>
    refine ⟨⟨rfl, rfl, rfl, rfl⟩, rfl, rfl, rfl, ⟨[], rfl⟩, ⟨_, rfl, rfl⟩, rfl, ?_, rfl, rfl⟩
    intro start hstart
    have hkey : start ∈ [1] := AList.mem_keys.mp hstart
    rw [mem_singleton.mp hkey]
    decide
  | succ n ih =>
    rw [fillingItems, receive_all_append]
    exact (ih (Nat.lt_of_succ_lt hroom)).next hroom

theorem evicted_at_limit (n : Nat) (hroom : n < fecMaxPendingGroups)
    (hfull : fecMaxPendingGroups ≤ n + 1) :
    ((new 2 none).receiveAll (fillingItems n ++ [nextFrame n])).lost = 0 ∧
      2 ≤ total abandonedMissing (new 2 none)
        ((new 2 none).trace (fillingItems n ++ [nextFrame n])) := by
  obtain ⟨hlost, hevicted⟩ := (filling_items hroom).evicts hfull
  have hsum := lost_run (along_trace (well_formed_new 2 none) (fillingItems n ++ [nextFrame n]))
    (receive_all_eq_run _ _)
  have hlast : ((new 2 none).receiveAll (fillingItems n ++ [nextFrame n])).lost = 0 := by
    rw [receive_all_append]
    exact hlost
  have hmore : 2 ≤ total evictedMissing (new 2 none)
      ((new 2 none).trace (fillingItems n ++ [nextFrame n])) := by
    rw [trace_append, total_append (receive_all_eq_run _ _), trace, trace, append_nil]
    exact hevicted.trans (Nat.le_add_left _ _)
  have hzero : (new 2 none).lost = 0 := rfl
  exact ⟨hlast, by omega⟩

/-- The first group holds its record and misses both members when the frames of 512 more groups
arrive. The last of them evicts it, and the counter stays at zero. -/
theorem eviction_not_counted :
    ∃ items, ((new 2 none).receiveAll items).lost = 0 ∧
      2 ≤ total abandonedMissing (new 2 none) ((new 2 none).trace items) :=
  ⟨fillingItems 511 ++ [nextFrame 511], evicted_at_limit 511 (by decide) (by decide)⟩

end FecDecoder

end TlsVpn.Fec
