import Mathlib.Data.List.DropRight
import Mathlib.Data.List.Nodup
import TlsVpn.Lib.Bytes

/-!
# The multipath scheduler

Translation of `pickAdaptiveBackend` and of `pickBackend`, which it falls back on. What a call reads
of a backend is a `View`; the flag and the debt that it writes are in the state of the scheduler.
Numbers are reduced where the source computes in 64 bits. The estimate for the web interface, which
no decision reads, is left out, as is the path count that is handed to the encoder.
-/

namespace TlsVpn.Port

open Lib List

/-! ## What a call reads -/

/-- What the scheduler reads of a backend. It is constant during a call. -/
structure View where
  ref : Nat
  queueLen : Nat
  queueCap : Nat
  /-- The measured round-trip time in microseconds, if there is a cache for it. -/
  rttCache : Option UInt32
  rateBytesPerSec : Nat
  queuedBytes : Nat
  carryPending : Bool
  deriving DecidableEq

/-- What the scheduler keeps for a backend. -/
structure PathState where
  active : Bool
  virtualFinishNS : Int
  deriving DecidableEq

/-- The fields of the port that a choice reads and writes. -/
structure Scheduler where
  paths : Nat → PathState
  preferred : Option Nat
  activePaths : Nat

/-- More than two slots of the queue are free. -/
def View.healthy (v : View) : Bool := v.queueCap ≠ 0 && ¬ (v.queueLen : Int) ≥ v.queueCap - 2

/-- The round-trip time of a path without a measurement. -/
def adaptiveUnknownRTTUS : Nat := 50000

/-- The round-trip time, and whether it is not known. -/
def adaptiveBackendRTT (v : View) : Nat × Bool :=
  match v.rttCache with
  | none => (adaptiveUnknownRTTUS, true)
  | some rtt =>
    if rtt.toNat = 0 ∨ rtt.toNat = adaptiveUnknownRTTUS then (adaptiveUnknownRTTUS, true)
    else (rtt.toNat, false)

/-- The path has no round-trip time or no rate yet. -/
def View.fairStart (v : View) : Bool := (adaptiveBackendRTT v).2 || v.rateBytesPerSec = 0

/-- The least round-trip time of the warmed paths. -/
def minMeasuredRTT (views : List View) : Nat :=
  views.foldl (fun least v =>
    if v.healthy && !v.fairStart && (adaptiveBackendRTT v).1 < least then (adaptiveBackendRTT v).1
    else least) maxUint32

/-- The unknown round-trip time if no path is warmed. -/
def minRTT (views : List View) : Nat :=
  if minMeasuredRTT views = maxUint32 then adaptiveUnknownRTTUS else minMeasuredRTT views

/-- The least width of the envelope. -/
def backendRTTHysteresisMin : Nat := 5000

/-- The end of the envelope around a least round-trip time. -/
def envelope (least : Nat) : Nat := least + max backendRTTHysteresisMin (least / 4)

/-- The greatest round-trip time in the envelope. -/
def maxRTT (views : List View) : Nat := envelope (minRTT views)

/-- A path that is warming up counts as the best one. -/
def scheduledRTT (views : List View) (v : View) : Nat :=
  if v.fairStart then minRTT views else (adaptiveBackendRTT v).1

/-- A healthy path in the envelope, or one that is warming up. -/
def eligible (views : List View) (v : View) : Bool :=
  v.healthy && (v.fairStart || (adaptiveBackendRTT v).1 ≤ maxRTT views)

/-! ## Candidates -/

/-- The rate that stands for an unknown one. -/
def adaptiveFallbackRateBytesPerSec : Nat := 25000000

/-- The time that the bytes take, in 64-bit arithmetic. -/
def serviceTimeUS (bytes rate : Nat) : Nat :=
  if bytes = 0 then 0
  else bytes * 1000000 % uint64Size /
    (if rate = 0 then adaptiveFallbackRateBytesPerSec else rate)

/-- The same as a signed duration. -/
def serviceTimeNS (bytes rate : Nat) : Int :=
  if bytes = 0 then 0
  else wrap64 ↑(bytes * 1000000000 % uint64Size /
    (if rate = 0 then adaptiveFallbackRateBytesPerSec else rate))

/-- A path with what a call computes for it. -/
structure BackendCandidate where
  backend : View
  baseUS : Nat
  rttUS : Nat
  schedRate : Nat
  wasActive : Bool
  virtualNS : Int

/-- Half the round-trip time and the time for the batch. -/
def candidate (s : Scheduler) (views : List View) (incomingBytes : Nat) (v : View) :
    BackendCandidate where
  backend := v
  baseUS := (scheduledRTT views v / 2 +
    serviceTimeUS incomingBytes adaptiveFallbackRateBytesPerSec) % uint64Size
  rttUS := scheduledRTT views v
  schedRate := adaptiveFallbackRateBytesPerSec
  wasActive := (s.paths v.ref).active
  virtualNS := (s.paths v.ref).virtualFinishNS

/-- In the order of the list. -/
def candidates (s : Scheduler) (views : List View) (incomingBytes : Nat) :
    List BackendCandidate :=
  (views.filter (eligible views)).map (candidate s views incomingBytes)

/-- The order of the candidates, by the quality of the unloaded path. -/
def BackendCandidate.before (x y : BackendCandidate) : Bool :=
  x.baseUS < y.baseUS || (x.baseUS = y.baseUS && x.rttUS < y.rttUS)

/-- One round of the insertion sort: the candidate goes in front of the last ones that it comes
before. -/
def insertCandidate (sorted : List BackendCandidate) (x : BackendCandidate) :
    List BackendCandidate :=
  sorted.rdropWhile x.before ++ x :: sorted.rtakeWhile x.before

/-- The insertion sort of the source. -/
def sortCandidates (cands : List BackendCandidate) : List BackendCandidate :=
  cands.foldl insertCandidate []

/-- The number of active paths for a load. -/
def adaptiveActivePathTarget (pressure demandRate eligible : Nat) : Nat :=
  let want :=
    if pressure ≥ 262144 ∨ demandRate ≥ 180000000 then 4
    else if pressure ≥ 98304 ∨ demandRate ≥ 100000000 then 3
    else if pressure ≥ 24576 ∨ demandRate ≥ 40000000 then 2
    else 1
  if eligible = 0 then 0 else min want eligible

/-! ## Choosing -/

namespace Scheduler

/-- Writes the state of every backend of a list. -/
def store (s : Scheduler) (refs : List Nat) (f : Nat → PathState) : Scheduler :=
  { s with paths := fun ref => if ref ∈ refs then f ref else s.paths ref }

/-- The state of a backend that is not in the active set. -/
def idle : PathState := ⟨false, 0⟩

/-- The state in which the paths that are not eligible have been taken out of the active set. -/
def cleared (s : Scheduler) (views : List View) : Scheduler :=
  s.store ((views.filter fun v => !eligible views v).map View.ref) fun _ => idle

/-- One backend alone is active, and nobody has a debt. -/
def single (s : Scheduler) (views : List View) (chosen : Nat) : Scheduler :=
  { s.store (views.map View.ref) (fun ref => ⟨ref = chosen, 0⟩) with
    activePaths := 1
    preferred := some chosen }

/-- How much worse the preferred path may be. -/
def adaptiveStickySlackUS (rtt : Nat) : Nat := min (max (rtt / 16) 500) 5000

/-- The preferred path is kept if it is not much worse than the best one. -/
def sticky (preferred : Option Nat) (best : BackendCandidate) (cands : List BackendCandidate) :
    Nat :=
  match preferred with
  | none => best.backend.ref
  | some current =>
    match cands.find? (fun c => c.backend.ref = current) with
    | none => best.backend.ref
    | some c =>
      if c.baseUS ≤ (best.baseUS + adaptiveStickySlackUS c.rttUS) % uint64Size then
        current
      else best.backend.ref

/-- The least debt of the candidates that were active before, or zero. -/
def epoch (front : List BackendCandidate) : Int :=
  ((front.filter BackendCandidate.wasActive).foldl (fun least c =>
    match least with
    | none => some c.virtualNS
    | some v => if c.virtualNS < v then some c.virtualNS else some v) none).getD 0

/-- The active set is marked. Paths that were not in it start at the epoch. -/
def activate (s : Scheduler) (front back : List BackendCandidate) : Scheduler :=
  (s.store (back.map (·.backend.ref)) fun _ => idle).store (front.map (·.backend.ref)) fun ref =>
    ⟨true, if (s.paths ref).active then (s.paths ref).virtualFinishNS else epoch front⟩

/-- The least debt of the active set. -/
def leastDebt (s : Scheduler) (first : BackendCandidate) (others : List BackendCandidate) : Int :=
  others.foldl (fun least c =>
    if (s.paths c.backend.ref).virtualFinishNS < least then
      (s.paths c.backend.ref).virtualFinishNS
    else least) (s.paths first.backend.ref).virtualFinishNS

/-- The least debt of the active set is taken off from all of them. -/
def rebase (s : Scheduler) (first : BackendCandidate) (others : List BackendCandidate) :
    Scheduler :=
  let minVirtual := s.leastDebt first others
  if minVirtual = 0 then s
  else
    s.store ((first :: others).map (·.backend.ref)) fun ref =>
      { s.paths ref with virtualFinishNS := wrap64 ((s.paths ref).virtualFinishNS - minVirtual) }

/-- The bonus of a path with a carry. -/
def adaptiveCarryBonusUS : Int := 150

/-- The debt and the queue of a path, less the bonus. -/
def logicalDispatchScoreNS (s : Scheduler) (c : BackendCandidate) : Int :=
  let score := wrap64 ((s.paths c.backend.ref).virtualFinishNS +
    serviceTimeNS c.backend.queuedBytes c.schedRate)
  if c.backend.carryPending then wrap64 (score - adaptiveCarryBonusUS * 1000) else score

/-- The candidate with the least score, by the round-trip time if scores are equal. -/
def choose (s : Scheduler) (first : BackendCandidate) (others : List BackendCandidate) :
    BackendCandidate :=
  others.foldl (fun chosen c =>
    if s.logicalDispatchScoreNS c < s.logicalDispatchScoreNS chosen ∨
        s.logicalDispatchScoreNS c = s.logicalDispatchScoreNS chosen ∧ c.rttUS < chosen.rttUS then c
    else chosen) first

/-- A batch is charged to its path. -/
def addVirtualServiceAtRate (s : Scheduler) (ref incomingBytes rate : Nat) : Scheduler :=
  if incomingBytes = 0 then s
  else
    s.store [ref] fun ref =>
      { s.paths ref with
        virtualFinishNS :=
          wrap64 ((s.paths ref).virtualFinishNS + serviceTimeNS incomingBytes rate) }

/-- The active set with its debts before the batch is charged. -/
def prepared (s : Scheduler) (first : BackendCandidate) (others back : List BackendCandidate) :
    Scheduler :=
  (s.activate (first :: others) back).rebase first others

/-- The choice between the paths of the active set. -/
def dispatch (s : Scheduler) (first : BackendCandidate) (others back : List BackendCandidate)
    (incomingBytes : Nat) : Option Nat × Scheduler :=
  let ready := s.prepared first others back
  let chosen := ready.choose first others
  let charged := ready.addVirtualServiceAtRate chosen.backend.ref incomingBytes chosen.schedRate
  (some chosen.backend.ref,
    { charged with
      activePaths := others.length + 1
      preferred := some chosen.backend.ref })

/-- The round-trip time with a penalty for a queue that fills up, if the backend is healthy. -/
def backendScore (v : View) : Option Nat :=
  if v.healthy then
    -- the source reads the cache of every healthy backend, so each of them has one
    some (min ((v.rttCache.map UInt32.toNat).getD 0 +
      if v.queueLen > 10 then (v.queueLen - 10) * 1000 else 0) maxUint32)
  else none

/-- The first backend with the least score below the greatest one there is. -/
def leastScore (views : List View) : Option (View × Nat) :=
  views.foldl (fun best v =>
    match backendScore v with
    | none => best
    | some score => if score < (best.map Prod.snd).getD maxUint32 then some (v, score) else best)
    none

/-- The least score, with a hysteresis for the preferred backend. -/
def pickBackend (s : Scheduler) (first : View) (views : List View) : Option Nat × Scheduler :=
  let picked := match leastScore views with
    | none => first.ref
    | some (best, minScore) =>
      match s.preferred with
      | none => best.ref
      | some current =>
        match views.find? (fun v => v.ref = current) with
        | none => best.ref
        | some v =>
          match backendScore v with
          | none => best.ref
          | some score =>
            let hysteresis :=
              max backendRTTHysteresisMin ((v.rttCache.map UInt32.toNat).getD 0 / 8)
            if score ≤ minScore + hysteresis then current else best.ref
  (some picked, { s with preferred := some picked })

/-- The backend for a batch, if there is one. -/
def pickAdaptiveBackend (s : Scheduler) (views : List View)
    (pressure demandRate incomingBytes : Nat) : Option Nat × Scheduler :=
  match views with
  | [] => (none, { s with activePaths := 0 })
  | head :: _ =>
    if views.all (fun v => !v.healthy) then (some head.ref, s.single views head.ref)
    else
      let s' := s.cleared views
      match sortCandidates (candidates s views incomingBytes) with
      | [] => s'.pickBackend head views
      | first :: others =>
        let active := adaptiveActivePathTarget pressure demandRate (others.length + 1)
        if active = 1 then
          let chosen := sticky s.preferred first (first :: others)
          (some chosen, s'.single views chosen)
        else
          s'.dispatch first (others.take (active - 1)) (others.drop (active - 1))
            incomingBytes

end Scheduler

/-! ## Candidates in order -/

theorem insertCandidate_perm (sorted : List BackendCandidate) (x : BackendCandidate) :
    (insertCandidate sorted x).Perm (x :: sorted) := by
  refine perm_middle.trans (List.Perm.cons x ?_)
  rw [rdropWhile_append_rtakeWhile]

/-- The sort only reorders. -/
theorem sortCandidates_perm (cands : List BackendCandidate) :
    (sortCandidates cands).Perm cands := by
  have hrun : ∀ (cands sorted : List BackendCandidate),
      (cands.foldl insertCandidate sorted).Perm (cands ++ sorted) := by
    intro cands
    induction cands with
    | nil => exact fun _ => .refl _
    | cons x cands ih =>
      intro sorted
      refine (ih (insertCandidate sorted x)).trans ?_
      exact ((insertCandidate_perm sorted x).append_left cands).trans perm_middle
  simpa [sortCandidates] using hrun cands []

theorem map_ref_candidates (s : Scheduler) (views : List View) (incomingBytes : Nat) :
    (candidates s views incomingBytes).map (·.backend.ref) =
      (views.filter (eligible views)).map View.ref := by
  rw [candidates, map_map]
  rfl

/-! ## The active set -/

namespace Scheduler

variable {s : Scheduler} {first : BackendCandidate} {others back : List BackendCandidate}
  {ref incomingBytes : Nat}

theorem paths_store (s : Scheduler) (refs : List Nat) (f : Nat → PathState) (ref : Nat) :
    (s.store refs f).paths ref = if ref ∈ refs then f ref else s.paths ref := rfl

theorem active_rebase : ((s.rebase first others).paths ref).active = (s.paths ref).active := by
  unfold rebase
  dsimp only
  split
  · rfl
  · rw [paths_store]
    split <;> rfl

theorem paths_rebase (h : ref ∉ (first :: others).map (·.backend.ref)) :
    (s.rebase first others).paths ref = s.paths ref := by
  unfold rebase
  dsimp only
  split
  · rfl
  · rw [paths_store, if_neg h]

theorem active_addVirtualService {rate other : Nat} :
    ((s.addVirtualServiceAtRate other incomingBytes rate).paths ref).active =
      (s.paths ref).active := by
  unfold addVirtualServiceAtRate
  split
  · rfl
  · rw [paths_store]
    split <;> rfl

theorem paths_addVirtualService {rate other : Nat} (h : ref ≠ other) :
    (s.addVirtualServiceAtRate other incomingBytes rate).paths ref = s.paths ref := by
  unfold addVirtualServiceAtRate
  split
  · rfl
  · rw [paths_store, if_neg (by simpa using h)]

theorem choose_append (s : Scheduler) (first : BackendCandidate)
    (others : List BackendCandidate) (c : BackendCandidate) :
    s.choose first (others ++ [c]) =
      if s.logicalDispatchScoreNS c < s.logicalDispatchScoreNS (s.choose first others) ∨
          s.logicalDispatchScoreNS c = s.logicalDispatchScoreNS (s.choose first others) ∧
            c.rttUS < (s.choose first others).rttUS then c
      else s.choose first others := by
  rw [choose, foldl_append]
  rfl

theorem choose_mem (s : Scheduler) (first : BackendCandidate) (others : List BackendCandidate) :
    s.choose first others ∈ first :: others := by
  induction others using List.reverseRecOn with
  | nil => exact mem_cons_self
  | append_singleton others c ih =>
    rw [choose_append]
    split
    · simp
    · exact mem_cons.mpr ((mem_cons.mp ih).imp_right (mem_append_left _))

/-- The paths of the active set are marked. -/
theorem active_prepared (h : ref ∈ (first :: others).map (·.backend.ref)) :
    ((s.prepared first others back).paths ref).active = true := by
  rw [prepared, active_rebase, activate, paths_store, if_pos h]

/-- The other paths are as before, or idle. -/
theorem paths_prepared (h : ref ∉ (first :: others).map (·.backend.ref)) :
    (s.prepared first others back).paths ref =
      if ref ∈ back.map (·.backend.ref) then idle else s.paths ref := by
  rw [prepared, paths_rebase h, activate, paths_store, if_neg h, paths_store]

/-- What a dispatch does to the flags and, outside of the active set, to the debts. -/
theorem dispatch_spec (s : Scheduler) (first : BackendCandidate)
    (others back : List BackendCandidate) (incomingBytes : Nat) :
    ∃ chosen ∈ first :: others,
      (s.dispatch first others back incomingBytes).1 = some chosen.backend.ref ∧
      (s.dispatch first others back incomingBytes).2.preferred = some chosen.backend.ref ∧
      (s.dispatch first others back incomingBytes).2.activePaths = others.length + 1 ∧
      (∀ ref ∈ (first :: others).map (·.backend.ref),
        ((s.dispatch first others back incomingBytes).2.paths ref).active = true) ∧
      ∀ ref ∉ (first :: others).map (·.backend.ref),
        (s.dispatch first others back incomingBytes).2.paths ref =
          if ref ∈ back.map (·.backend.ref) then idle else s.paths ref := by
  have hmem := choose_mem (s.prepared first others back) first others
  refine ⟨_, hmem, rfl, rfl, rfl, fun ref hinside => ?_, fun ref houtside => ?_⟩
  · exact active_addVirtualService.trans (active_prepared hinside)
  · refine (paths_addVirtualService fun hsame => houtside ?_).trans (paths_prepared houtside)
    exact hsame ▸ mem_map_of_mem hmem

end Scheduler

end TlsVpn.Port
