import Mathlib.Data.List.AList
import TlsVpn.Crypto.InnerCipher
import TlsVpn.Fec.Control

/-!
# The parity decoder

Translation of `fecDecoder`. Received data frames and parity records are collected per group; a
group that holds its parity and all members but one yields the missing member. Groups live in a map
of at most `fecMaxPendingGroups` entries, a ring remembers the groups finished last, and the fence
set by FEC_MODE controls lets data bypass the decoder.

Buffer pools and the free list of group states are left out: a group state taken from them is
cleared before use. The probe of the reorder buffer's progress is an argument of the calls that may
consult it, `none` where no probe is installed, and a recovered frame is returned instead of handed
to a callback.
-/

namespace TlsVpn.Fec

open Lib Crypto Function

/-- The limit of the table. -/
def fecMaxPendingGroups : Nat := 512

/-- The ring has 256 slots. -/
def fecDoneMask : Nat := 255

/-- A group that is not finished. -/
structure FecGroupState where
  start : Nat
  /-- The group size, `0` until a parity record arrives. -/
  k : Nat
  lens : List Nat
  gotMask : Nat
  acc : Bytes
  parity : Option Bytes
  deriving DecidableEq, Repr

namespace FecGroupState

/-- Nothing has been received. -/
def new (start : Nat) : FecGroupState :=
  { start, k := 0, lens := [], gotMask := 0, acc := [], parity := none }

/-- The offset of the member has been received. -/
def Got (g : FecGroupState) (i : Nat) : Prop := g.gotMask &&& (1 <<< i) ≠ 0

instance (g : FecGroupState) (i : Nat) : Decidable (g.Got i) := inferInstanceAs (Decidable (_ ≠ _))

/-- The offsets still missing, counted against the size announced by the parity record. -/
def missing (g : FecGroupState) : List Nat := (List.range g.k).filter (fun i => ¬ g.Got i)

/-- A member has been received. -/
def mark (g : FecGroupState) (i : Nat) : FecGroupState :=
  { g with gotMask := g.gotMask ||| (1 <<< i) }

theorem got_iff_testBit (g : FecGroupState) (i : Nat) : g.Got i ↔ g.gotMask.testBit i = true := by
  rw [Got, Nat.one_shiftLeft, Nat.and_two_pow]
  cases g.gotMask.testBit i <;> simp

@[simp] theorem not_got_new (start i : Nat) : ¬ (new start).Got i := by
  simp [got_iff_testBit, new]

@[simp] theorem got_mark (g : FecGroupState) (i j : Nat) : (g.mark i).Got j ↔ g.Got j ∨ i = j := by
  simp [got_iff_testBit, mark, Nat.one_shiftLeft, Nat.testBit_or, Nat.testBit_two_pow]

/-- The mask is full when every member has been received. -/
theorem mask_full_iff {g : FecGroupState} {k : Nat} (hgot : ∀ i, g.Got i → i < k) :
    g.gotMask = 2 ^ k - 1 ↔ ∀ i < k, g.Got i := by
  constructor
  · intro hmask i hi
    rw [got_iff_testBit, hmask, Nat.testBit_two_pow_sub_one]
    exact decide_eq_true hi
  · intro hall
    refine Nat.eq_of_testBit_eq fun i => ?_
    rw [Nat.testBit_two_pow_sub_one, Bool.eq_iff_iff, ← got_iff_testBit, decide_eq_true_iff]
    exact ⟨hgot i, hall i⟩

end FecGroupState

/-- The counters shared by all decoders of a process. -/
structure FecLifetimeCounters where
  recovered : Nat
  lost : Nat
  deriving DecidableEq, Repr

/-- The state of `fecDecoder`. -/
structure FecDecoder where
  k : Nat
  fullMask : Nat
  staticSingle : Bool
  fence : FecRXFenceState
  cleanupBefore : Nat
  retiredBefore : Nat
  ic : Option InnerCipher
  groups : AList (fun _ : Nat => FecGroupState)
  groupOrder : List Nat
  groupHead : Nat
  doneRing : Nat → Nat
  lifetime : Option FecLifetimeCounters
  recovered : Nat
  lost : Nat

namespace FecDecoder

/-- A decoder without groups. -/
def new (k : Nat) (ic : Option InnerCipher) : FecDecoder :=
  { k := clampFecGroup k
    fullMask := 2 ^ clampFecGroup k - 1
    staticSingle := false
    fence := .new
    cleanupBefore := 0
    retiredBefore := 0
    ic
    groups := ∅
    groupOrder := []
    groupHead := 0
    doneRing := fun _ => 0
    lifetime := none
    recovered := 0
    lost := 0 }

/-- The start of the group of a data frame. -/
def groupStartOf (d : FecDecoder) (seq : Nat) : Nat := seq - (seq - 1) % d.k

/-! ## Bookkeeping of groups -/

/-- The state of a group. -/
def lookupGroup (d : FecDecoder) (start : Nat) : Option FecGroupState := d.groups.lookup start

/-- The ring still has the start of the group. -/
def IsDone (d : FecDecoder) (start : Nat) : Prop := d.doneRing (start &&& fecDoneMask) = start

instance (d : FecDecoder) (start : Nat) : Decidable (d.IsDone start) :=
  inferInstanceAs (Decidable (_ = _))

/-- The start replaces another one in its slot. -/
def markDone (d : FecDecoder) (start : Nat) : FecDecoder :=
  { d with doneRing := update d.doneRing (start &&& fecDoneMask) start }

/-- Skip the finished groups at the head of the creation order and compact it now and then. -/
def pruneGroupOrder (d : FecDecoder) : FecDecoder :=
  let finished := (d.groupOrder.drop d.groupHead).takeWhile (fun start => start ∉ d.groups)
  let head := d.groupHead + finished.length
  if head = 0 then d
  else if head = d.groupOrder.length then { d with groupOrder := [], groupHead := 0 }
  else if head ≥ 1024 ∨ head * 2 ≥ d.groupOrder.length then
    { d with groupOrder := d.groupOrder.drop head, groupHead := 0 }
  else { d with groupHead := head }

/-- Evict the first group of the order that is still live. -/
def evictFrom (d : FecDecoder) : List Nat → FecDecoder
  | [] => d
  | start :: rest =>
    if start ∈ d.groups then
      { d with groups := d.groups.erase start, groupHead := d.groupHead + 1 }
    else { d with groupHead := d.groupHead + 1 }.evictFrom rest

/-- Makes room for a group. -/
def evictOldest (d : FecDecoder) : FecDecoder :=
  (d.evictFrom (d.groupOrder.drop d.groupHead)).pruneGroupOrder

/-- At the limit the oldest group goes. -/
def newGroup (d : FecDecoder) (start : Nat) : FecDecoder :=
  let pruned := d.pruneGroupOrder
  let room := if pruned.groups.keys.length ≥ fecMaxPendingGroups then pruned.evictOldest else pruned
  { room with
    groups := room.groups.insert start (.new start)
    groupOrder := room.groupOrder ++ [start] }

/-- The live state of a group, created if there is none. -/
def openGroup (d : FecDecoder) (start : Nat) : FecDecoder × FecGroupState :=
  match d.lookupGroup start with
  | some g => (d, g)
  | none => (d.newGroup start, .new start)

/-- Writes the state of a group. -/
def setGroup (d : FecDecoder) (g : FecGroupState) : FecDecoder :=
  { d with groups := d.groups.insert g.start g }

/-- Release a group and remember its start. Members still missing while the parity is held count as
lost. -/
def finishGroup (d : FecDecoder) (g : FecGroupState) : FecDecoder :=
  let n := if g.k > 0 ∧ g.parity ≠ none then g.missing.length else 0
  { d.markDone g.start with
    groups := d.groups.erase g.start
    lost := d.lost + n
    lifetime := d.lifetime.map (fun c => { c with lost := c.lost + n }) }

/-- Remove the groups whose start satisfies a condition. -/
def dropGroups (d : FecDecoder) (p : Nat → Bool) : FecDecoder :=
  let dropped := d.groups.keys.filter p
  let kept := { d with groups := dropped.foldl (fun m start => m.erase start) d.groups }
  if dropped = [] then d else kept.pruneGroupOrder

/-- The groups that start in the window are removed. -/
def dropGroupsInRange (d : FecDecoder) (fromSeq untilSeq : Nat) : FecDecoder :=
  if fromSeq = 0 then d
  else d.dropGroups (fun start => ¬ (start < fromSeq ∨ (untilSeq ≠ 0 ∧ start ≥ untilSeq)))

/-- Retire the groups below the newest suspend boundary once ordered delivery has crossed it. -/
def maybeRetireOldGroups (d : FecDecoder) (progress : Option Nat) : FecDecoder :=
  if d.cleanupBefore = 0 ∨ d.retiredBefore ≥ d.cleanupBefore then d
  else
    match progress with
    | none => d
    | some expected =>
      if expected = 0 ∨ expected < d.cleanupBefore then d
      else
        { d with retiredBefore := d.cleanupBefore }.dropGroups
          (fun start => start < d.cleanupBefore)

/-! ## Recovery -/

/-- The missing member, as the exclusive or of the parity body and the members received. -/
def reconstruct (parity acc : Bytes) (n : Nat) : Bytes :=
  xorInto (parity.take n) ((zeroExtend acc n).take n)

section Reconstruct

variable {parity acc : Bytes} {n : Nat}

theorem reconstruct_front (h : n ≤ parity.length) :
    ((zeroExtend acc n).take n).length ≤ (parity.take n).length := by
  simp only [List.length_take, length_zeroExtend]
  omega

theorem length_reconstruct (h : n ≤ parity.length) : (reconstruct parity acc n).length = n := by
  rw [reconstruct, length_xorInto (reconstruct_front h), List.length_take, Nat.min_eq_left h]

theorem byteAt_reconstruct (h : n ≤ parity.length) {i : Nat} (hi : i < n) :
    byteAt (reconstruct parity acc n) i = byteAt parity i ^^^ byteAt acc i := by
  rw [reconstruct, byteAt_xorInto (reconstruct_front h), byteAt_take hi, byteAt_take hi,
    byteAt_zeroExtend]

end Reconstruct

/-- If the group holds its parity and misses exactly one member, reconstruct it and finish the
group. -/
def tryRecover (d : FecDecoder) (g : FecGroupState) : FecDecoder × Option (Nat × Bytes) :=
  match g.parity with
  | none => (d, none)
  | some parity =>
    if g.k = 0 then (d, none)
    else
      match g.missing with
      | [] => (d.finishGroup g, none)
      | [i] =>
        -- a descriptor longer than the body it describes abandons the group
        if g.lens.length ≤ i ∨ parity.length < g.lens.getD i 0 then (d.finishGroup g, none)
        else
          let finished := d.finishGroup (g.mark i)
          ({ finished with
              recovered := finished.recovered + 1
              lifetime := finished.lifetime.map (fun c =>
                { c with recovered := c.recovered + 1 }) },
            some (add32 g.start i, reconstruct parity g.acc (g.lens.getD i 0)))
      | _ :: _ :: _ => (d, none)

/-- Count one member into a live group. -/
def onMember (d : FecDecoder) (g : FecGroupState) (i : Nat) (frame : Bytes) :
    FecDecoder × Option (Nat × Bytes) :=
  if g.Got i then (d, none)
  else if (g.mark i).gotMask = d.fullMask then (d.finishGroup (g.mark i), none)
  else
    let counted := { g.mark i with acc := xorExtend g.acc frame }
    (d.setGroup counted).tryRecover counted

/-- Record one decrypted data frame. The checks made again under the mutex coincide with the first
ones when calls do not overlap. -/
def onData (d : FecDecoder) (progress : Option Nat) (seq : Nat) (frame : Bytes) :
    FecDecoder × Option (Nat × Bytes) :=
  if frame = [] ∨ seq = 0 then (d, none)
  else if d.staticSingle then (d, none)
  else if d.fence.bypassData seq then
    (if seq &&& 255 = 0 then d.maybeRetireOldGroups progress else d, none)
  else if d.retiredBefore ≠ 0 ∧ seq < d.retiredBefore then (d, none)
  else
    let start := d.groupStartOf seq
    if d.IsDone start then (d, none)
    else
      let (opened, g) := d.openGroup start
      opened.onMember g (seq - start) frame

/-- The member lengths of a parity record of `k` members. -/
def descriptorLens (payload : Bytes) (k : Nat) : List Nat :=
  (List.range k).map (fun i => uint ((payload.drop (6 + 4 * i)).take 4))

/-- Take a well-formed record into its group: the body is opened and kept, and recovery is
attempted. A record whose body does not open leaves the group without it. -/
def acceptParity (d : FecDecoder) (after : Option Nat) (start : Nat) (lens : List Nat)
    (payload : Bytes) : FecDecoder × Option (Nat × Bytes) :=
  let maxLen := lens.foldl max 0
  let sealed := (payload.drop (6 + 4 * d.k)).take (maxLen + tagLen d.ic)
  let (opened, g) := d.openGroup start
  match openTo d.ic sealed start ((maxLen + tagLen d.ic) % 4294967296) with
  | none => (opened.setGroup { g with k := d.k, lens := [] }, none)
  | some body =>
    let held := { g with k := d.k, lens, parity := some body }
    let (recovered, out) := (opened.setGroup held).tryRecover held
    (recovered.maybeRetireOldGroups after, out)

/-- Process a parity record. The probe may answer differently before and after the recovery. -/
def onParity (d : FecDecoder) (before after : Option Nat) (payload : Bytes) :
    FecDecoder × Option (Nat × Bytes) :=
  if d.staticSingle ∨ payload.length < 7 ∨ byteAt payload 0 ≠ controlKindFECParity then (d, none)
  else
    let start := uint ((payload.drop 1).take 4)
    if start = 0 ∨ (byteAt payload 5).toNat ≠ d.k ∨ (start - 1) % d.k ≠ 0 then (d, none)
    else
      let d := d.maybeRetireOldGroups before
      if d.retiredBefore ≠ 0 ∧ start < d.retiredBefore then (d, none)
      else if payload.length < 6 + 4 * d.k + tagLen d.ic then (d, none)
      else
        let lens := descriptorLens payload d.k
        if ∃ l ∈ lens, l + tagLen d.ic > payload.length - (6 + 4 * d.k) then (d, none)
        else if d.IsDone start then (d, none)
        else if ((d.lookupGroup start).bind (·.parity)).isSome then (d, none)
        else d.acceptParity after start lens payload

/-! ## Controls -/

/-- Move the fence by a FEC_MODE control and drop the groups that the sender abandoned. -/
def fenceControl (d : FecDecoder) (ctrl : FecModeControl) : FecDecoder :=
  let (fence, applied) := d.fence.apply ctrl
  let fenced := { d with fence }
  if applied = false ∨ fence.fromSeq = 0 then fenced
  else
    { fenced with cleanupBefore := max fenced.cleanupBefore fence.fromSeq }.dropGroupsInRange
      fence.fromSeq fence.untilSeq

/-- Apply a FEC_MODE control. An accepted one that leaves a window may also retire old groups. -/
def handleModeControl (d : FecDecoder) (progress : Option Nat) (ctrl : FecModeControl) :
    FecDecoder :=
  let (fence, applied) := d.fence.apply ctrl
  if applied = false ∨ fence.fromSeq = 0 then d.fenceControl ctrl
  else (d.fenceControl ctrl).maybeRetireOldGroups progress

/-- Settings and counters stay. -/
def reset (d : FecDecoder) : FecDecoder :=
  { d with
    groups := ∅
    groupOrder := []
    groupHead := 0
    doneRing := fun _ => 0
    cleanupBefore := 0
    retiredBefore := 0
    fence := .new }

/-! ## The effect of a call on the groups -/

/-- The decoder's settings, which data and parity do not change while no control was applied. -/
structure SameSettings (d d' : FecDecoder) : Prop where
  k_eq : d'.k = d.k
  fullMask_eq : d'.fullMask = d.fullMask
  staticSingle_eq : d'.staticSingle = d.staticSingle
  fence_eq : d'.fence = d.fence
  cleanupBefore_eq : d'.cleanupBefore = d.cleanupBefore
  retiredBefore_eq : d'.retiredBefore = d.retiredBefore
  ic_eq : d'.ic = d.ic

theorem SameSettings.refl (d : FecDecoder) : SameSettings d d := ⟨rfl, rfl, rfl, rfl, rfl, rfl, rfl⟩

variable {d : FecDecoder}

theorem SameSettings.trans {d' d'' : FecDecoder} (h : SameSettings d d')
    (h' : SameSettings d' d'') : SameSettings d d'' :=
  ⟨h'.k_eq.trans h.k_eq, h'.fullMask_eq.trans h.fullMask_eq,
    h'.staticSingle_eq.trans h.staticSingle_eq, h'.fence_eq.trans h.fence_eq,
    h'.cleanupBefore_eq.trans h.cleanupBefore_eq, h'.retiredBefore_eq.trans h.retiredBefore_eq,
    h'.ic_eq.trans h.ic_eq⟩

/-- A call touched the group at `start` only: the group is left as `entry`, and it is the only one
that may have been finished. -/
structure Effect (d d' : FecDecoder) (start : Nat) (entry : Option FecGroupState)
    (finished : Bool) : Prop where
  settings : SameSettings d d'
  lookup_eq : d'.lookupGroup start = entry
  lookup_ne : ∀ other, other ≠ start → d'.lookupGroup other = d.lookupGroup other
  done : ∀ other, d'.IsDone other → d.IsDone other ∨ (finished = true ∧ other = start)

namespace Effect

variable {d d' d'' : FecDecoder} {start : Nat} {entry entry' : Option FecGroupState}
  {finished : Bool}

theorem refl (d : FecDecoder) (start : Nat) : Effect d d start (d.lookupGroup start) false :=
  ⟨.refl d, rfl, fun _ _ => rfl, fun _ h => .inl h⟩

theorem trans (h : Effect d d' start entry false) (h' : Effect d' d'' start entry' finished) :
    Effect d d'' start entry' finished := by
  refine ⟨h.settings.trans h'.settings, h'.lookup_eq, ?_, ?_⟩
  · intro other hne
    rw [h'.lookup_ne other hne, h.lookup_ne other hne]
  · intro other hdone
    rcases h'.done other hdone with hbefore | hnow
    · rcases h.done other hbefore with hold | ⟨hfalse, -⟩
      · exact .inl hold
      · cases hfalse
    · exact .inr hnow

end Effect

/-- Pruning only changes the creation order. -/
theorem prune_group_order_eq (d : FecDecoder) :
    ∃ order head, d.pruneGroupOrder = { d with groupOrder := order, groupHead := head } := by
  unfold pruneGroupOrder
  dsimp only
  repeat' split
  · exact ⟨d.groupOrder, d.groupHead, rfl⟩
  · exact ⟨_, _, rfl⟩
  · exact ⟨_, _, rfl⟩
  · exact ⟨_, _, rfl⟩

/-- Below the pending limit a new group is added without evicting another one. -/
theorem new_group_eq (hroom : d.groups.keys.length < fecMaxPendingGroups) (start : Nat) :
    ∃ order head, d.newGroup start =
      { d with groups := d.groups.insert start (.new start), groupOrder := order ++ [start],
               groupHead := head } := by
  obtain ⟨order, head, hprune⟩ := d.prune_group_order_eq
  refine ⟨order, head, ?_⟩
  rw [newGroup, hprune]
  dsimp only
  rw [if_neg (Nat.not_le.mpr hroom)]

theorem effect_new_group (hroom : d.groups.keys.length < fecMaxPendingGroups) (start : Nat) :
    Effect d (d.newGroup start) start (some (.new start)) false := by
  obtain ⟨order, head, hnew⟩ := new_group_eq hroom start
  rw [hnew]
  refine ⟨⟨rfl, rfl, rfl, rfl, rfl, rfl, rfl⟩, AList.lookup_insert _, ?_, fun _ h => .inl h⟩
  intro other hne
  exact AList.lookup_insert_ne hne

/-- Opening a group below the pending limit leaves its state in the map. -/
theorem effect_open_group {start : Nat}
    (hroom : d.lookupGroup start = none → d.groups.keys.length < fecMaxPendingGroups) :
    Effect d (d.openGroup start).1 start (some (d.openGroup start).2) false ∧
      (d.openGroup start).2 = (d.lookupGroup start).getD (.new start) := by
  unfold openGroup
  cases hlookup : d.lookupGroup start with
  | none => exact ⟨effect_new_group (hroom hlookup) start, rfl⟩
  | some g =>
    have heffect := Effect.refl d start
    rw [hlookup] at heffect
    exact ⟨heffect, rfl⟩

theorem effect_set_group (d : FecDecoder) (g : FecGroupState) :
    Effect d (d.setGroup g) g.start (some g) false := by
  refine ⟨⟨rfl, rfl, rfl, rfl, rfl, rfl, rfl⟩, AList.lookup_insert _, ?_, fun _ h => .inl h⟩
  intro other hne
  exact AList.lookup_insert_ne hne

theorem effect_finish_group (d : FecDecoder) (g : FecGroupState) :
    Effect d (d.finishGroup g) g.start none true := by
  refine ⟨⟨rfl, rfl, rfl, rfl, rfl, rfl, rfl⟩, AList.lookup_erase _ _, ?_, ?_⟩
  · intro other hne
    exact AList.lookup_erase_ne hne
  · intro other hdone
    -- the new mark can only hide an older one
    by_cases hother : other = g.start
    · exact .inr ⟨rfl, hother⟩
    · refine .inl ?_
      change update d.doneRing (g.start &&& fecDoneMask) g.start
        (other &&& fecDoneMask) = other at hdone
      rw [update_apply] at hdone
      split at hdone
      · exact absurd hdone.symm hother
      · exact hdone

/-- The group does not yield a member yet. -/
def Waiting (g : FecGroupState) : Prop := g.parity = none ∨ 2 ≤ g.missing.length

/-- A waiting group is left as it is. -/
theorem try_recover_waiting {g : FecGroupState} (h : Waiting g) : d.tryRecover g = (d, none) := by
  rw [tryRecover]
  cases hparity : g.parity with
  | none => rfl
  | some parity =>
    have hmissing : 2 ≤ g.missing.length :=
      h.resolve_left (by rw [hparity]; exact Option.some_ne_none parity)
    dsimp only
    split
    · rfl
    · match hlist : g.missing with
      | [] | [_] => rw [hlist] at hmissing; simp at hmissing
      | _ :: _ :: _ => rfl

/-- A group that holds its parity and misses one member yields it and is finished. -/
theorem try_recover_single {g : FecGroupState} {parity : Bytes} {i : Nat}
    (hparity : g.parity = some parity) (hmissing : g.missing = [i]) (hlens : i < g.lens.length)
    (hlen : g.lens.getD i 0 ≤ parity.length) :
    Effect d (d.tryRecover g).1 g.start none true ∧
      (d.tryRecover g).2
        = some (add32 g.start i, reconstruct parity g.acc (g.lens.getD i 0)) := by
  have hk : g.k ≠ 0 := by
    intro hzero
    rw [FecGroupState.missing, hzero] at hmissing
    cases hmissing
  have hok : ¬ (g.lens.length ≤ i ∨ parity.length < g.lens.getD i 0) := by omega
  have hfinish := effect_finish_group d (g.mark i)
  simp only [tryRecover, hparity, hmissing, if_neg hk, if_neg hok]
  refine ⟨⟨?_, hfinish.lookup_eq, hfinish.lookup_ne, hfinish.done⟩, trivial⟩
  exact ⟨rfl, rfl, rfl, rfl, rfl, rfl, rfl⟩

end FecDecoder

/-- The protocol errors of a control payload. -/
inductive ControlError where
  | emptyPayload
  | unsupportedKind (kind : UInt8)
  | malformedMode
  deriving DecidableEq, Repr

/-- The text of an error. -/
def ControlError.message : ControlError → String
  | .emptyPayload => "empty payload is keepalive, not a typed control frame"
  | .unsupportedKind kind =>
    "unsupported control kind 0x" ++
      String.ofList [Nat.digitChar (kind.toNat / 16), Nat.digitChar (kind.toNat % 16)]
  | .malformedMode => "malformed FEC_MODE control"

/-- Two kinds are known. -/
def parseControlKind (payload : Bytes) : Except ControlError UInt8 :=
  match payload with
  | [] => .error .emptyPayload
  | kind :: _ =>
    if kind = controlKindFECParity ∨ kind = controlKindFECMode then .ok kind
    else .error (.unsupportedKind kind)

/-- Process a control payload. -/
def FecDecoder.onControl (d : FecDecoder) (before after : Option Nat) (payload : Bytes) :
    Except ControlError (FecDecoder × Option (Nat × Bytes)) := do
  let kind ← parseControlKind payload
  if kind = controlKindFECParity then
    return d.onParity before after payload
  else
    match parseFECModeControl payload with
    | some ctrl => return (d.handleModeControl before ctrl, none)
    | none => throw .malformedMode

/-- A payload that parses as a FEC_MODE control is handled as one. -/
theorem FecDecoder.on_control_mode (d : FecDecoder) {before after : Option Nat} {payload : Bytes}
    {ctrl : FecModeControl} (h : parseFECModeControl payload = some ctrl) :
    d.onControl before after payload = .ok (d.handleModeControl before ctrl, none) := by
  cases payload with
  | nil => cases h
  | cons kind rest =>
    have hkind : kind = controlKindFECMode := by
      by_contra hne
      have hnone : parseFECModeControl (kind :: rest) = none :=
        if_pos (.inr (fun heq => hne (Option.some.inj heq)))
      rw [hnone] at h
      cases h
    subst hkind
    show (match parseFECModeControl (controlKindFECMode :: rest) with
      | some ctrl => Except.ok (d.handleModeControl before ctrl, none)
      | none => Except.error ControlError.malformedMode) = _
    rw [h]

theorem FecDecoder.on_control_parity (d : FecDecoder) (before after : Option Nat) (rest : Bytes) :
    d.onControl before after (controlKindFECParity :: rest) =
      .ok (d.onParity before after (controlKindFECParity :: rest)) := rfl

/-- A parity record is not a FEC_MODE control. -/
theorem parse_mode_of_parity (rest : Bytes) :
    parseFECModeControl (controlKindFECParity :: rest) = none := by
  refine if_pos (.inr fun heq => ?_)
  exact absurd (Option.some.inj heq) (by decide)

end TlsVpn.Fec
