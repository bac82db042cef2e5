import TlsVpn.Fec.Decoder
import TlsVpn.Fec.History

/-!
# The live groups of the decoder

What a call does to the fence and to the set of live groups, whatever the state of the decoder:
data and parity leave the fence alone and open at most their own group (`adds_on_data`,
`adds_on_parity`), and a control moves the fence and drops only groups in the new window
(`fence_control_drops`). Evictions and retirements only remove groups.
-/

namespace TlsVpn.Fec

open Lib Crypto

namespace FecDecoder

/-- The group is live. -/
def Live (d : FecDecoder) (start : Nat) : Prop := (d.lookupGroup start).isSome = true

/-- Every live group is filed under its own start. -/
def Keyed (d : FecDecoder) : Prop := ∀ start g, d.lookupGroup start = some g → g.start = start

/-- The call leaves the size and the fence alone and opens at most the given groups. -/
structure Adds (d d' : FecDecoder) (starts : List Nat) : Prop where
  k_eq : d'.k = d.k
  fence_eq : d'.fence = d.fence
  live : ∀ start, d'.Live start → d.Live start ∨ start ∈ starts
  keyed : d.Keyed → d'.Keyed

variable {d d' d'' : FecDecoder} {starts starts' : List Nat}

namespace Adds

theorem refl (d : FecDecoder) (starts : List Nat) : Adds d d starts :=
  ⟨rfl, rfl, fun _ h => .inl h, id⟩

theorem trans (h : Adds d d' starts) (h' : Adds d' d'' starts) : Adds d d'' starts := by
  refine ⟨h'.k_eq.trans h.k_eq, h'.fence_eq.trans h.fence_eq, ?_, fun hk => h'.keyed (h.keyed hk)⟩
  intro start hlive
  rcases h'.live start hlive with hbefore | hnew
  · exact h.live start hbefore
  · exact .inr hnew

/-- The groups are a part of those before. -/
theorem of_lookup (hsame : d'.k = d.k ∧ d'.fence = d.fence)
    (hlookup : ∀ start g, d'.lookupGroup start = some g → d.lookupGroup start = some g)
    (starts : List Nat) : Adds d d' starts := by
  refine ⟨hsame.1, hsame.2, fun start hlive => .inl ?_, fun hkeyed start g hg => ?_⟩
  · obtain ⟨g, hg⟩ := Option.isSome_iff_exists.mp hlive
    exact Option.isSome_iff_exists.mpr ⟨g, hlookup start g hg⟩
  · exact hkeyed start g (hlookup start g hg)

end Adds

/-! ## Removing groups -/

variable {start : Nat}

theorem lookup_erase_some {groups : AList (fun _ : Nat => FecGroupState)} {erased : Nat}
    {g : FecGroupState} (h : (groups.erase erased).lookup start = some g) :
    start ≠ erased ∧ groups.lookup start = some g := by
  by_cases heq : start = erased
  · rw [heq, AList.lookup_erase] at h
    cases h
  · rw [AList.lookup_erase_ne heq] at h
    exact ⟨heq, h⟩

/-- Erasing the keys of a list hides those and no others. -/
theorem lookup_foldl_erase (groups : AList (fun _ : Nat => FecGroupState)) (dropped : List Nat)
    (start : Nat) :
    (dropped.foldl (fun m x => m.erase x) groups).lookup start =
      if start ∈ dropped then none else groups.lookup start := by
  induction dropped generalizing groups with
  | nil => simp
  | cons x rest ih =>
    rw [List.foldl_cons, ih]
    by_cases heq : start = x
    · rw [heq, AList.lookup_erase]
      simp
    · rw [AList.lookup_erase_ne heq]
      simp [heq]

theorem lookup_of_foldl_erase {groups : AList (fun _ : Nat => FecGroupState)} {dropped : List Nat}
    {g : FecGroupState} (h : (dropped.foldl (fun m x => m.erase x) groups).lookup start = some g) :
    groups.lookup start = some g := by
  rw [lookup_foldl_erase] at h
  split at h
  · cases h
  · exact h

/-- Dropping groups hides those that satisfy the condition. -/
theorem lookup_drop_groups (d : FecDecoder) (p : Nat → Bool) (start : Nat) :
    (d.dropGroups p).lookupGroup start = if p start then none else d.lookupGroup start := by
  have hgroups : (d.dropGroups p).groups =
      (d.groups.keys.filter p).foldl (fun m x => m.erase x) d.groups := by
    unfold dropGroups
    dsimp only
    split
    · rename_i hnone
      rw [hnone]
      rfl
    · obtain ⟨order, head, hprune⟩ := prune_group_order_eq
        { d with groups := (d.groups.keys.filter p).foldl (fun m x => m.erase x) d.groups }
      rw [hprune]
  rw [lookupGroup, hgroups, lookup_foldl_erase, lookupGroup]
  by_cases hlive : start ∈ d.groups
  · simp [AList.mem_keys.mp hlive]
  · rw [AList.lookup_eq_none.mpr hlive]
    simp

theorem adds_prune (d : FecDecoder) (starts : List Nat) : Adds d d.pruneGroupOrder starts := by
  obtain ⟨order, head, hprune⟩ := d.prune_group_order_eq
  rw [hprune]
  refine Adds.of_lookup ?_ ?_ starts
  · exact ⟨rfl, rfl⟩
  · exact fun _ _ h => h

theorem adds_evict_from (d : FecDecoder) (order starts : List Nat) :
    Adds d (d.evictFrom order) starts := by
  induction order generalizing d with
  | nil => exact .refl d starts
  | cons start rest ih =>
    unfold evictFrom
    split
    · refine Adds.of_lookup ?_ ?_ starts
      · exact ⟨rfl, rfl⟩
      · exact fun _ _ h => (lookup_erase_some h).2
    · have hskip : Adds d { d with groupHead := d.groupHead + 1 } starts :=
        ⟨rfl, rfl, fun _ h => .inl h, id⟩
      exact hskip.trans (ih _)

theorem adds_evict_oldest (d : FecDecoder) (starts : List Nat) : Adds d d.evictOldest starts :=
  (adds_evict_from d _ starts).trans (adds_prune _ starts)

theorem adds_drop_groups (d : FecDecoder) (p : Nat → Bool) (starts : List Nat) :
    Adds d (d.dropGroups p) starts := by
  unfold dropGroups
  dsimp only
  split
  · exact .refl d starts
  · refine Adds.trans ?_ (adds_prune _ starts)
    refine Adds.of_lookup ?_ ?_ starts
    · exact ⟨rfl, rfl⟩
    · exact fun _ _ h => lookup_of_foldl_erase h

theorem adds_maybe_retire (d : FecDecoder) (progress : Option Nat) (starts : List Nat) :
    Adds d (d.maybeRetireOldGroups progress) starts := by
  unfold maybeRetireOldGroups
  split
  · exact .refl d starts
  · cases progress with
    | none => exact .refl d starts
    | some expected =>
      dsimp only
      split
      · exact .refl d starts
      · refine Adds.trans ?_ (adds_drop_groups _ _ starts)
        exact ⟨rfl, rfl, fun _ h => .inl h, id⟩

theorem adds_finish_group (d : FecDecoder) (g : FecGroupState) (starts : List Nat) :
    Adds d (d.finishGroup g) starts := by
  refine Adds.of_lookup ?_ ?_ starts
  · exact ⟨rfl, rfl⟩
  · exact fun _ _ h => (lookup_erase_some h).2

/-! ## Data and parity -/

theorem adds_set_group (d : FecDecoder) (g : FecGroupState) :
    Adds d (d.setGroup g) [g.start] := by
  have hlookup : ∀ start, (d.setGroup g).lookupGroup start =
      if start = g.start then some g else d.lookupGroup start := by
    intro start
    by_cases heq : start = g.start
    · rw [if_pos heq, heq]
      exact AList.lookup_insert _
    · rw [if_neg heq]
      exact AList.lookup_insert_ne heq
  refine ⟨rfl, rfl, fun start hlive => ?_, fun hkeyed start g' hg' => ?_⟩
  · rw [Live, hlookup] at hlive
    by_cases heq : start = g.start
    · exact .inr (List.mem_singleton.mpr heq)
    · rw [if_neg heq] at hlive
      exact .inl hlive
  · rw [hlookup] at hg'
    by_cases heq : start = g.start
    · rw [if_pos heq] at hg'
      cases hg'
      exact heq.symm
    · rw [if_neg heq] at hg'
      exact hkeyed start g' hg'

theorem adds_new_group (d : FecDecoder) (start : Nat) : Adds d (d.newGroup start) [start] := by
  have hroom : Adds d (if d.pruneGroupOrder.groups.keys.length ≥ fecMaxPendingGroups
      then d.pruneGroupOrder.evictOldest else d.pruneGroupOrder) [start] := by
    split
    · exact (adds_prune d _).trans (adds_evict_oldest _ _)
    · exact adds_prune d _
  have hinsert := hroom.trans (adds_set_group _ (.new start))
  exact ⟨hinsert.k_eq, hinsert.fence_eq, hinsert.live, hinsert.keyed⟩

/-- Opening a group yields a state with the group's start. -/
theorem adds_open_group (hkeyed : d.Keyed) (start : Nat) :
    Adds d (d.openGroup start).1 [start] ∧ (d.openGroup start).2.start = start := by
  unfold openGroup
  cases hlookup : d.lookupGroup start with
  | none => exact ⟨adds_new_group d start, rfl⟩
  | some g => exact ⟨.refl d _, hkeyed start g hlookup⟩

theorem adds_try_recover (d : FecDecoder) (g : FecGroupState) (starts : List Nat) :
    Adds d (d.tryRecover g).1 starts := by
  unfold tryRecover
  repeat' split
  · exact .refl d starts
  · exact .refl d starts
  · exact adds_finish_group d g starts
  · exact adds_finish_group d g starts
  · rename_i i _ _
    have hfinish := adds_finish_group d (g.mark i) starts
    exact ⟨hfinish.k_eq, hfinish.fence_eq, hfinish.live, hfinish.keyed⟩
  · exact .refl d starts

theorem adds_on_member (d : FecDecoder) (g : FecGroupState) (i : Nat) (frame : Bytes) :
    Adds d (d.onMember g i frame).1 [g.start] := by
  unfold onMember
  dsimp only
  split
  · exact .refl d _
  · split
    · exact adds_finish_group d _ _
    · exact (adds_set_group d { g.mark i with acc := xorExtend g.acc frame }).trans
        (adds_try_recover _ _ _)

/-- A data frame opens at most its own group. -/
theorem adds_on_data (hkeyed : d.Keyed) (progress : Option Nat) (seq : Nat) (frame : Bytes) :
    Adds d (d.onData progress seq frame).1 [d.groupStartOf seq] := by
  unfold onData
  dsimp only
  repeat' split
  · exact .refl d _
  · exact .refl d _
  · exact adds_maybe_retire d progress _
  · exact .refl d _
  · exact .refl d _
  · exact .refl d _
  · obtain ⟨hopen, hstart⟩ := adds_open_group hkeyed (d.groupStartOf seq)
    have hmember := adds_on_member (d.openGroup (d.groupStartOf seq)).1
      (d.openGroup (d.groupStartOf seq)).2 (seq - d.groupStartOf seq) frame
    rw [hstart] at hmember
    exact hopen.trans hmember

theorem adds_accept_parity (hkeyed : d.Keyed) (after : Option Nat) (start : Nat) (lens : List Nat)
    (payload : Bytes) : Adds d (d.acceptParity after start lens payload).1 [start] := by
  obtain ⟨hopen, hstart⟩ := adds_open_group hkeyed start
  unfold acceptParity
  dsimp only
  split
  · have hset := adds_set_group (d.openGroup start).1
      { (d.openGroup start).2 with k := d.k, lens := [] }
    rw [show ({ (d.openGroup start).2 with k := d.k, lens := [] } : FecGroupState).start = start
      from hstart] at hset
    exact hopen.trans hset
  · rename_i body _
    have hset := adds_set_group (d.openGroup start).1
      { (d.openGroup start).2 with k := d.k, lens, parity := some body }
    rw [show ({ (d.openGroup start).2 with k := d.k, lens, parity := some body } :
      FecGroupState).start = start from hstart] at hset
    exact ((hopen.trans hset).trans (adds_try_recover _ _ _)).trans (adds_maybe_retire _ after _)

/-- A parity record opens at most the group it names, and only if that is a group. -/
theorem adds_on_parity (hkeyed : d.Keyed) (before after : Option Nat) (payload : Bytes) :
    Adds d (d.onParity before after payload).1
      (if GroupBoundary d.k (recordStart payload) then [recordStart payload] else []) := by
  unfold onParity
  dsimp only
  split
  · exact .refl d _
  · split
    · exact .refl d _
    · rename_i hshape
      obtain ⟨hpos, -, hmod⟩ := not_or.mp hshape |>.imp_right not_or.mp
      have hboundary : GroupBoundary d.k (recordStart payload) :=
        ⟨Nat.pos_of_ne_zero hpos, not_not.mp hmod⟩
      rw [if_pos hboundary]
      have hretire := adds_maybe_retire d before [recordStart payload]
      split
      · exact hretire
      · split
        · exact hretire
        · split
          · exact hretire
          · split
            · exact hretire
            · split
              · exact hretire
              · exact hretire.trans (adds_accept_parity (hretire.keyed hkeyed) after _ _ _)

/-! ## Controls -/

/-- The call moves the fence by a control and opens no group. -/
structure Fences (d d' : FecDecoder) (ctrl : FecModeControl) : Prop where
  k_eq : d'.k = d.k
  fence_eq : d'.fence = (d.fence.apply ctrl).1
  live : ∀ start, d'.Live start → d.Live start
  keyed : d.Keyed → d'.Keyed

theorem fences_move (d : FecDecoder) (ctrl : FecModeControl) :
    Fences d { d with fence := (d.fence.apply ctrl).1 } ctrl :=
  ⟨rfl, rfl, fun _ h => h, id⟩

theorem Fences.then {ctrl : FecModeControl} (h : Fences d d' ctrl) (h' : Adds d' d'' []) :
    Fences d d'' ctrl := by
  refine ⟨h'.k_eq.trans h.k_eq, h'.fence_eq.trans h.fence_eq, fun start hlive => ?_,
    fun hkeyed => h'.keyed (h.keyed hkeyed)⟩
  exact h.live start ((h'.live start hlive).resolve_right List.not_mem_nil)

theorem fences_fence_control (d : FecDecoder) (ctrl : FecModeControl) :
    Fences d (d.fenceControl ctrl) ctrl := by
  unfold fenceControl
  dsimp only
  split
  · exact fences_move d ctrl
  · refine Fences.then (fences_move d ctrl) ?_
    unfold dropGroupsInRange
    split
    · exact ⟨rfl, rfl, fun _ h => .inl h, id⟩
    · refine Adds.trans ?_ (adds_drop_groups _ _ _)
      exact ⟨rfl, rfl, fun _ h => .inl h, id⟩

theorem fences_handle (d : FecDecoder) (progress : Option Nat) (ctrl : FecModeControl) :
    Fences d (d.handleModeControl progress ctrl) ctrl := by
  unfold handleModeControl
  dsimp only
  split
  · exact fences_fence_control d ctrl
  · exact (fences_fence_control d ctrl).then (adds_maybe_retire _ progress _)

/-- A group not in the range stays. -/
theorem live_drop_groups {p : Nat → Bool} (hlive : d.Live start) (hnot : p start = false) :
    (d.dropGroups p).Live start := by
  rw [Live, lookup_drop_groups, hnot]
  exact hlive

/-- A group dropped by a control lies in the window that the control left. -/
theorem fence_control_drops {ctrl : FecModeControl} (hlive : d.Live start)
    (hdropped : ¬ (d.fenceControl ctrl).Live start) (hpos : 0 < start) :
    (d.fence.apply ctrl).2 = true ∧ (d.fence.apply ctrl).1.Covers start := by
  unfold fenceControl at hdropped
  dsimp only at hdropped
  split at hdropped
  · exact absurd hlive hdropped
  · rename_i happlied
    obtain ⟨htrue, hfrom⟩ := not_or.mp happlied
    rw [dropGroupsInRange, if_neg hfrom] at hdropped
    refine ⟨Bool.not_eq_false _ ▸ htrue, ?_⟩
    by_contra hcovers
    refine hdropped (live_drop_groups hlive ?_)
    rw [decide_eq_false_iff_not, not_not]
    by_contra hrange
    refine hcovers ⟨by omega, hfrom, ?_⟩
    omega

end FecDecoder

end TlsVpn.Fec
