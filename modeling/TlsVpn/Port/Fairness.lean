import Mathlib.Data.Finset.Card
import TlsVpn.Lib.Run
import TlsVpn.Port.Choice

/-!
# Fairness of the dispatch

While the active set stays the same and its paths drain their queues between the calls, the debt of
a path is forty times the bytes it has been assigned, less an amount that is the same for all paths
of the set: the rate at which batches are charged is fixed. `dispatch_fair` bounds the difference of
the assigned bytes by the largest batch. It needs that the product of a batch size with `10 ^ 9`
fits 64 bits; a larger batch is charged too little (`huge_batches_unfair`).
-/

namespace TlsVpn.Port

open Lib List

/-- What one call is made with. -/
structure Call where
  backends : Listing
  pressure : Nat
  demandRate : Nat
  incomingBytes : Nat

/-- The scheduler with two history variables, which no call reads. -/
structure Metered where
  scheduler : Scheduler
  /-- The bytes that each path has been assigned. -/
  assigned : Nat → Nat
  largest : Nat

namespace Metered

/-- Nothing has been assigned. -/
def start (scheduler : Scheduler) : Metered := ⟨scheduler, fun _ => 0, 0⟩

/-- The result of the call in this state. -/
def result (m : Metered) (call : Call) : Option Nat × Scheduler :=
  m.scheduler.pickAdaptiveBackend call.backends.views call.pressure call.demandRate
    call.incomingBytes

/-- The call and its bytes. -/
def after (m : Metered) (call : Call) : Metered where
  scheduler := (m.result call).2
  assigned ref := m.assigned ref + if (m.result call).1 = some ref then call.incomingBytes else 0
  largest := max m.largest call.incomingBytes

/-- Every call can be made. -/
def step (m : Metered) (call : Call) : Option Metered := some (m.after call)

/-- The virtual finish time of a path. -/
def debt (m : Metered) (ref : Nat) : Int := (m.scheduler.paths ref).virtualFinishNS

/-- The debt that a path had when the call had not charged its batch yet. -/
def debtBefore (m : Metered) (call : Call) (ref : Nat) : Int :=
  (m.after call).debt ref - if (m.result call).1 = some ref then
    serviceTimeNS call.incomingBytes adaptiveFallbackRateBytesPerSec else 0

/-- The call leaves this active set, and finds its paths drained and without a carry. -/
structure Steady (active : Finset Nat) (m : Metered) (call : Call) : Prop where
  listed : ∀ ref ∈ active, ref ∈ call.backends.views.map View.ref
  marked : ∀ v ∈ call.backends.views,
    ((m.result call).2.paths v.ref).active = true ↔ v.ref ∈ active
  drained : ∀ v ∈ call.backends.views, v.ref ∈ active →
    v.queuedBytes = 0 ∧ v.carryPending = false

instance (active : Finset Nat) (m : Metered) (call : Call) : Decidable (Steady active m call) :=
  decidable_of_iff
    ((∀ ref ∈ active, ref ∈ call.backends.views.map View.ref) ∧
      (∀ v ∈ call.backends.views,
        ((m.result call).2.paths v.ref).active = true ↔ v.ref ∈ active) ∧
      ∀ v ∈ call.backends.views, v.ref ∈ active → v.queuedBytes = 0 ∧ v.carryPending = false)
    ⟨fun ⟨listed, marked, drained⟩ => ⟨listed, marked, drained⟩,
      fun steady => ⟨steady.listed, steady.marked, steady.drained⟩⟩

/-- What a call establishes. -/
structure Fair (active : Finset Nat) (m : Metered) (call : Call) : Prop where
  bytes : ∀ a ∈ active, ∀ b ∈ active,
    (m.after call).assigned a ≤ (m.after call).assigned b + (m.after call).largest
  debts : ∀ v ∈ call.backends.views, 0 ≤ (m.after call).debt v.ref
  least : (∀ a ∈ active, 0 ≤ m.debtBefore call a) ∧ ∃ a ∈ active, m.debtBefore call a = 0

end Metered

/-! ## Minima -/

namespace Scheduler

variable {s : Scheduler} {first : BackendCandidate} {others : List BackendCandidate}

theorem leastDebt_append (s : Scheduler) (first : BackendCandidate)
    (others : List BackendCandidate) (c : BackendCandidate) :
    s.leastDebt first (others ++ [c]) =
      if (s.paths c.backend.ref).virtualFinishNS < s.leastDebt first others then
        (s.paths c.backend.ref).virtualFinishNS
      else s.leastDebt first others := by
  rw [leastDebt, foldl_append]
  rfl

theorem leastDebt_spec (s : Scheduler) (first : BackendCandidate)
    (others : List BackendCandidate) :
    (∀ c ∈ first :: others, s.leastDebt first others ≤ (s.paths c.backend.ref).virtualFinishNS) ∧
      ∃ c ∈ first :: others,
        s.leastDebt first others = (s.paths c.backend.ref).virtualFinishNS := by
  induction others using List.reverseRecOn with
  | nil => simp [leastDebt]
  | append_singleton others c ih =>
    obtain ⟨hleast, found, hmem, hattained⟩ := ih
    rw [leastDebt_append, ← cons_append]
    split
    · rename_i hsmaller
      refine ⟨fun other hlisted => ?_, c, by simp, rfl⟩
      rcases mem_append.mp hlisted with hold | hnew
      · exact Int.le_of_lt (Int.lt_of_lt_of_le hsmaller (hleast other hold))
      · rw [mem_singleton.mp hnew]
    · rename_i hnotSmaller
      refine ⟨fun other hlisted => ?_, found, mem_append_left _ hmem, hattained⟩
      rcases mem_append.mp hlisted with hold | hnew
      · exact hleast other hold
      · rw [mem_singleton.mp hnew]
        exact Int.not_lt.mp hnotSmaller

/-- The chosen path has the least score. -/
theorem choose_le (s : Scheduler) (first : BackendCandidate) (others : List BackendCandidate) :
    ∀ c ∈ first :: others,
      s.logicalDispatchScoreNS (s.choose first others) ≤ s.logicalDispatchScoreNS c := by
  induction others using List.reverseRecOn with
  | nil => simp [choose]
  | append_singleton others c ih =>
    intro other hlisted
    rw [← cons_append] at hlisted
    rw [choose_append]
    split
    · rename_i hbetter
      rcases mem_append.mp hlisted with hold | hnew
      · have hbefore := ih other hold
        omega
      · rw [mem_singleton.mp hnew]
    · rename_i hnotBetter
      rcases mem_append.mp hlisted with hold | hnew
      · exact ih other hold
      · rw [mem_singleton.mp hnew]
        omega

end Scheduler

/-- The least batch of which the charge, in nanoseconds, wraps around. -/
abbrev overflowBytes : Nat := 18446744074

/-- A batch is charged forty nanoseconds for every byte. -/
theorem serviceTimeNS_eq {bytes : Nat} (h : bytes < overflowBytes) :
    serviceTimeNS bytes adaptiveFallbackRateBytesPerSec = 40 * bytes := by
  unfold overflowBytes at h
  have hquotient : bytes * 1000000000 % uint64Size /
      (if 25000000 = 0 then 25000000 else 25000000) = 40 * bytes := by
    rw [if_neg (by decide), uint64Size]
    omega
  unfold serviceTimeNS adaptiveFallbackRateBytesPerSec
  split
  · omega
  · rw [hquotient, wrap64_of_bounds (by omega) (by omega)]
    omega

/-! ## One call -/

namespace Metered

variable {m : Metered} {call : Call} {active : Finset Nat}

/-- The call chooses between the paths of the active set. -/
structure Dispatches (active : Finset Nat) (m : Metered) (call : Call) (first : BackendCandidate)
    (others back : List BackendCandidate) : Prop where
  result_eq : m.result call = (m.scheduler.cleared call.backends.views).dispatch first others back
    call.incomingBytes
  active_iff : ∀ ref, ref ∈ active ↔ ref ∈ (first :: others).map (·.backend.ref)
  candidates : ∀ c ∈ first :: others, ∃ v ∈ call.backends.views,
    eligible call.backends.views v = true ∧
      c = candidate m.scheduler call.backends.views call.incomingBytes v
  idle : ∀ v ∈ call.backends.views, v.ref ∉ active →
    (m.result call).2.paths v.ref = Scheduler.idle

/-- A result that marks at most one path does not leave an active set of two. -/
theorem Steady.not_single (hsteady : Steady active m call) (htwo : 2 ≤ active.card) (chosen : Nat)
    (honly : ∀ v ∈ call.backends.views,
      ((m.result call).2.paths v.ref).active = true → v.ref = chosen) : False := by
  have hsub : active ⊆ {chosen} := by
    intro ref hactive
    obtain ⟨v, hfound, rfl⟩ := mem_map.mp (hsteady.listed ref hactive)
    exact Finset.mem_singleton.mpr (honly v hfound ((hsteady.marked v hfound).mpr hactive))
  have hone := Finset.card_le_card hsub
  rw [Finset.card_singleton] at hone
  omega

/-- With two active paths the call chooses between them. -/
theorem Steady.dispatches (hsteady : Steady active m call) (htwo : 2 ≤ active.card) :
    ∃ first others back, Dispatches active m call first others back := by
  have hresult := pickAdaptiveBackend_eq m.scheduler call.backends call.pressure call.demandRate
    call.incomingBytes
  rw [← Metered.result] at hresult
  -- a single path that is marked, in two of the branches
  have hsingle : ∀ (s : Scheduler) (chosen : Nat),
      m.result call = (some chosen, s.single call.backends.views chosen) → False := by
    intro s chosen hsame
    refine hsteady.not_single htwo chosen fun v hfound hmarked => ?_
    rw [hsame] at hmarked
    simpa [Scheduler.single, Scheduler.paths_store, mem_map_of_mem hfound] using hmarked
  split at hresult
  · exact (hsingle _ _ hresult).elim
  · split at hresult
    · rename_i hsorted
      refine (hsteady.not_single htwo 0 fun v hfound hmarked => ?_).elim
      have hidle : (m.result call).2.paths v.ref = Scheduler.idle := by
        rw [hresult]
        show (m.scheduler.cleared call.backends.views).paths v.ref = _
        rw [paths_cleared hfound, sorted_eq_nil_iff.mp hsorted v hfound]
        rfl
      rw [hidle] at hmarked
      cases hmarked
    · rename_i first others hsorted
      dsimp only at hresult
      split at hresult
      · exact (hsingle _ _ hresult).elim
      · generalize adaptiveActivePathTarget call.pressure call.demandRate (others.length + 1) - 1 =
          n at hresult
        have hsub := (take_sublist n others).cons_cons first
        have hmarked : ∀ v ∈ call.backends.views,
            v.ref ∈ active ↔ v.ref ∈ (first :: others.take n).map (·.backend.ref) := by
          intro v hfound
          rw [← hsteady.marked v hfound, hresult]
          exact dispatch_active_iff hsorted n hfound
        refine ⟨first, _, _, hresult, fun ref => ?_, fun c hmem => ?_, fun v hfound hout => ?_⟩
        · constructor
          · intro hactive
            obtain ⟨v, hfound, rfl⟩ := mem_map.mp (hsteady.listed ref hactive)
            exact (hmarked v hfound).mp hactive
          · intro hfront
            obtain ⟨v, hfound, rfl⟩ := mem_map.mp
              ((nodup_sorted hsorted).2 ((hsub.map (·.backend.ref)).subset hfront))
            exact (hmarked v hfound).mpr hfront
        · have hlisted : c ∈ sortCandidates
              (Port.candidates m.scheduler call.backends.views call.incomingBytes) := by
            rw [hsorted]
            exact hsub.subset hmem
          obtain ⟨v, hfilter, hsame⟩ := mem_map.mp
            ((sortCandidates_perm _).mem_iff.mp hlisted)
          obtain ⟨hfound, heligible⟩ := mem_filter.mp hfilter
          exact ⟨v, hfound, heligible, hsame.symm⟩
        · rw [hresult]
          exact dispatch_idle hsorted n hfound (mt (hmarked v hfound).mpr hout)

/-- The debt with which a path enters the call. A path that is not active has none. -/
def entry (m : Metered) (ref : Nat) : Int :=
  if (m.scheduler.paths ref).active then m.debt ref else 0

/-- Before a call the paths of the set are all active or all not, and what they owe beyond each
other is what they have been assigned. -/
structure Ready (active : Finset Nat) (m : Metered) : Prop where
  together : (∀ a ∈ active, (m.scheduler.paths a).active = true) ∨
    ∀ a ∈ active, (m.scheduler.paths a).active = false
  common : ∃ c : Int, ∀ a ∈ active, m.entry a = 40 * m.assigned a - c
  bounds : ∀ a ∈ active, 0 ≤ m.entry a ∧ m.entry a ≤ 40 * m.largest
  largest : m.largest < overflowBytes

section OneCall

variable {first : BackendCandidate} {others back : List BackendCandidate}

/-- A candidate in front is a path of the set, and the state is still the one before the call. -/
theorem Dispatches.paths_cleared (hd : Dispatches active m call first others back)
    {c : BackendCandidate} (hmem : c ∈ first :: others) :
    c.backend.ref ∈ active ∧ c.backend ∈ call.backends.views ∧
      (m.scheduler.cleared call.backends.views).paths c.backend.ref =
        m.scheduler.paths c.backend.ref ∧
      c.wasActive = (m.scheduler.paths c.backend.ref).active ∧
      c.schedRate = adaptiveFallbackRateBytesPerSec := by
  obtain ⟨v, hfound, heligible, rfl⟩ := hd.candidates c hmem
  refine ⟨(hd.active_iff _).mpr (mem_map_of_mem hmem), hfound, ?_, rfl, rfl⟩
  exact (Port.paths_cleared hfound).trans (if_pos heligible)

/-- Every path of the set is a candidate in front. -/
theorem Dispatches.exists_candidate (hd : Dispatches active m call first others back) {a : Nat}
    (hmem : a ∈ active) : ∃ c ∈ first :: others, c.backend.ref = a :=
  mem_map.mp ((hd.active_iff a).mp hmem)

/-- Activation gives every path the debt it enters with. -/
theorem Dispatches.activated (hd : Dispatches active m call first others back)
    (hready : Ready active m) {a : Nat} (hmem : a ∈ active) :
    (((m.scheduler.cleared call.backends.views).activate (first :: others) back).paths
      a).virtualFinishNS = m.entry a := by
  obtain ⟨c, hfront, rfl⟩ := hd.exists_candidate hmem
  obtain ⟨-, -, hsame, -, -⟩ := hd.paths_cleared hfront
  rw [Scheduler.activate, Scheduler.paths_store, if_pos (mem_map_of_mem hfront), hsame, entry]
  rcases hready.together with hall | hnone
  · simp [hall _ hmem, debt]
  · -- nobody was active, so the epoch is zero
    have hepoch : Scheduler.epoch (first :: others) = 0 := by
      have hempty : (first :: others).filter BackendCandidate.wasActive = [] := by
        rw [filter_eq_nil_iff]
        intro other hlisted
        obtain ⟨hactive, -, -, hwas, -⟩ := hd.paths_cleared hlisted
        rw [hwas, hnone _ hactive]
        exact Bool.false_ne_true
      rw [Scheduler.epoch, hempty]
      rfl
    simp [hnone _ hmem, hepoch]

/-- Rebasing takes the least debt off. -/
theorem Dispatches.prepared (hd : Dispatches active m call first others back)
    (hready : Ready active m) :
    ∃ least, 0 ≤ least ∧ (∀ a ∈ active, least ≤ m.entry a) ∧ (∃ a ∈ active, least = m.entry a) ∧
      ∀ a ∈ active, (((m.scheduler.cleared call.backends.views).prepared first others back).paths
        a).virtualFinishNS = m.entry a - least := by
  set activated := (m.scheduler.cleared call.backends.views).activate (first :: others) back
    with hactivated
  have hdebts : ∀ a ∈ active, (activated.paths a).virtualFinishNS = m.entry a :=
    fun a => hd.activated hready
  obtain ⟨hbelow, attaining, hfront, hattained⟩ := activated.leastDebt_spec first others
  have hactive := (hd.paths_cleared hfront).1
  have hlimit := hready.largest
  unfold overflowBytes at hlimit
  have hleast : ∀ a ∈ active, activated.leastDebt first others ≤ m.entry a := by
    intro a hmem
    obtain ⟨c, hlisted, rfl⟩ := hd.exists_candidate hmem
    rw [← hdebts _ hmem]
    exact hbelow c hlisted
  have hpositive : 0 ≤ activated.leastDebt first others := by
    rw [hattained, hdebts _ hactive]
    exact (hready.bounds _ hactive).1
  refine ⟨_, hpositive, hleast, ⟨_, hactive, hattained.trans (hdebts _ hactive)⟩, ?_⟩
  intro a hmem
  have hbounds := hready.bounds a hmem
  have hatLeast := hleast a hmem
  rw [Scheduler.prepared, ← hactivated, Scheduler.rebase]
  dsimp only
  split
  · rename_i hzero
    rw [hdebts a hmem, hzero]
    omega
  · rw [Scheduler.paths_store, if_pos ((hd.active_iff a).mp hmem), hdebts a hmem]
    exact wrap64_of_bounds (by omega) (by omega)

/-- The debts after a call: the batch goes to a path that has entered with the least debt. -/
theorem Dispatches.spec (hd : Dispatches active m call first others back) (hready : Ready active m)
    (hsteady : Steady active m call) (hsize : call.incomingBytes < overflowBytes) :
    ∃ least chosen, 0 ≤ least ∧ (∀ a ∈ active, least ≤ m.entry a) ∧ chosen ∈ active ∧
      m.entry chosen = least ∧ (m.result call).1 = some chosen ∧
      ∀ a ∈ active, (m.after call).debt a =
        m.entry a - least + if chosen = a then 40 * (call.incomingBytes : Int) else 0 := by
  obtain ⟨least, hpositive, hbelow, ⟨attaining, hset, hattained⟩, hdebts⟩ := hd.prepared hready
  set s := (m.scheduler.cleared call.backends.views).prepared first others back with hs
  have hlimit := hready.largest
  unfold overflowBytes at hlimit hsize
  have hscore : ∀ c ∈ first :: others,
      s.logicalDispatchScoreNS c = m.entry c.backend.ref - least := by
    intro c hmem
    obtain ⟨hactive, hfound, -, -, -⟩ := hd.paths_cleared hmem
    obtain ⟨hdrained, hcarry⟩ := hsteady.drained _ hfound hactive
    have hbounds := hready.bounds _ hactive
    have hatLeast := hbelow _ hactive
    simp only [Scheduler.logicalDispatchScoreNS, hdrained, hcarry, serviceTimeNS, if_true,
      hdebts _ hactive, Bool.false_eq_true, if_false, Int.add_zero]
    exact wrap64_of_bounds (by omega) (by omega)
  have hchosenMem := s.choose_mem first others
  obtain ⟨hactive, -, -, -, hrate⟩ := hd.paths_cleared hchosenMem
  have hchosenLeast : m.entry (s.choose first others).backend.ref = least := by
    obtain ⟨c, hlisted, hsame⟩ := hd.exists_candidate hset
    have hsmallest := s.choose_le first others c hlisted
    rw [hscore _ hchosenMem, hscore c hlisted, hsame, ← hattained] at hsmallest
    have hatLeast := hbelow _ hactive
    omega
  refine ⟨least, _, hpositive, hbelow, hactive, hchosenLeast, by rw [hd.result_eq]; rfl, ?_⟩
  intro a hmem
  have hbounds := hready.bounds a hmem
  have hatLeast := hbelow a hmem
  have hafter : (m.after call).debt a = ((s.addVirtualServiceAtRate
      (s.choose first others).backend.ref call.incomingBytes
        (s.choose first others).schedRate).paths a).virtualFinishNS := by
    rw [debt, Metered.after, hd.result_eq]
    rfl
  rw [hafter, hrate]
  by_cases hsame : (s.choose first others).backend.ref = a
  · rw [if_pos hsame, Scheduler.addVirtualServiceAtRate]
    split
    · rw [hdebts a hmem]
      omega
    · rw [Scheduler.paths_store, if_pos (by simp [hsame])]
      dsimp only
      rw [hdebts a hmem, serviceTimeNS_eq hsize, ← hsame, hchosenLeast]
      exact wrap64_of_bounds (by omega) (by omega)
  · rw [if_neg hsame, Scheduler.paths_addVirtualService (Ne.symm hsame), hdebts a hmem]
    omega

end OneCall

/-- One call keeps the balance, and is fair. -/
theorem Ready.next (hready : Ready active m) (hsteady : Steady active m call)
    (htwo : 2 ≤ active.card) (hsize : call.incomingBytes < overflowBytes) :
    Ready active (m.after call) ∧ Fair active m call := by
  obtain ⟨first, others, back, hd⟩ := hsteady.dispatches htwo
  obtain ⟨least, chosen, hpositive, hbelow, hactive, hchosenLeast, hresult, hdebts⟩ :=
    hd.spec hready hsteady hsize
  obtain ⟨c, hcommon⟩ := hready.common
  have hlimit := hready.largest
  unfold overflowBytes at hlimit hsize
  have hmarked : ∀ a ∈ active, ((m.after call).scheduler.paths a).active = true := by
    intro a hmem
    obtain ⟨v, hfound, rfl⟩ := mem_map.mp (hsteady.listed a hmem)
    exact (hsteady.marked v hfound).mpr hmem
  have hentries : ∀ a ∈ active, (m.after call).entry a = (m.after call).debt a :=
    fun a hmem => if_pos (hmarked a hmem)
  have hassigned : ∀ a, ((m.after call).assigned a : Int) =
      m.assigned a + if chosen = a then (call.incomingBytes : Int) else 0 := by
    intro a
    simp only [Metered.after, hresult, Option.some.injEq]
    split <;> simp
  have hlargest : (m.after call).largest = max m.largest call.incomingBytes := rfl
  have hbounds : ∀ a ∈ active, 0 ≤ (m.after call).debt a ∧
      (m.after call).debt a ≤ 40 * (m.after call).largest := by
    intro a hmem
    have hentry := hready.bounds a hmem
    have hatLeast := hbelow a hmem
    rw [hdebts a hmem, hlargest]
    split
    · rename_i hsame
      rw [← hsame, hchosenLeast]
      omega
    · omega
  have hbalance : ∀ a ∈ active,
      (m.after call).debt a = 40 * (m.after call).assigned a - (c + least) := by
    intro a hmem
    rw [hdebts a hmem, hcommon a hmem, hassigned a]
    split <;> omega
  have hbefore : ∀ a ∈ active, m.debtBefore call a = m.entry a - least := by
    intro a hmem
    rw [debtBefore, hdebts a hmem, hresult, serviceTimeNS_eq hsize]
    simp only [Option.some.injEq]
    omega
  refine ⟨⟨.inl hmarked, ⟨c + least, fun a hmem => (hentries a hmem).trans (hbalance a hmem)⟩,
    fun a hmem => hentries a hmem ▸ hbounds a hmem, hlargest ▸ max_lt hlimit hsize⟩, ?_, ?_, ?_,
    ?_⟩
  · intro a hmemA b hmemB
    have hdebtA := hbounds a hmemA
    have hdebtB := hbounds b hmemB
    rw [hbalance a hmemA] at hdebtA
    rw [hbalance b hmemB] at hdebtB
    omega
  · intro v hfound
    by_cases hmem : v.ref ∈ active
    · exact (hbounds v.ref hmem).1
    · show 0 ≤ ((m.result call).2.paths v.ref).virtualFinishNS
      rw [hd.idle v hfound hmem]
      exact Int.le_refl 0
  · intro a hmem
    rw [hbefore a hmem]
    have hatLeast := hbelow a hmem
    omega
  · refine ⟨chosen, hactive, ?_⟩
    rw [hbefore chosen hactive, hchosenLeast]
    omega

/-- Between the paths of an active set that was activated by the first call and stays the same, the
assigned bytes never differ by more than the largest batch; no debt is negative, and the least debt
of the set is zero when a batch is charged. -/
theorem dispatch_fair {active : Finset Nat} (two : 2 ≤ active.card) {s : Scheduler}
    (activated : ∀ a ∈ active, (s.paths a).active = false) {calls : List Call} {m : Metered}
    {call : Call} (hrun : run step (start s) calls = some m)
    (steady : Along step (Steady active) (start s) (calls ++ [call]))
    (sizes : ∀ c ∈ calls ++ [call], c.incomingBytes < overflowBytes) : Fair active m call := by
  have hfirst : Ready active (start s) :=
    ⟨.inr activated, ⟨0, fun a hmem => by simp [entry, start, activated a hmem]⟩,
      fun a hmem => by simp [entry, start, activated a hmem], by simp [start]⟩
  obtain ⟨hbefore, hlast⟩ := (steady.and_mem sizes).append hrun
  have hready : Ready active m := by
    refine run_invariant (fun m call next hready hallowed hstep => ?_) hfirst hbefore hrun
    cases hstep
    exact (hready.next hallowed.1 two hallowed.2).1
  exact (hready.next hlast.1.1 two hlast.1.2).2

/-- A drained path that has been measured. -/
def samplePath (ref : Nat) : View where
  ref := ref
  queueLen := 0
  queueCap := 256
  rttCache := some 20000
  rateBytesPerSec := 1000000
  queuedBytes := 0
  carryPending := false

/-- A call for two such paths under pressure. -/
def sampleCall (incomingBytes : Nat) : Call where
  backends := ⟨samplePath 0, [samplePath 1], by decide⟩
  pressure := 30000
  demandRate := 0
  incomingBytes := incomingBytes

/-- No path is active. -/
def sampleScheduler : Scheduler := ⟨fun _ => ⟨false, 0⟩, none, 0⟩

/-- Three batches. -/
def smallBatches : List Call := [sampleCall 1200, sampleCall 500, sampleCall 600]

/-- The second path gets small batches until it has caught up with the first. -/
theorem small_batches_fair : ∃ m, run step (start sampleScheduler) smallBatches = some m ∧
    m.assigned 0 = 1200 ∧ m.assigned 1 = 1100 ∧ Fair {0, 1} m (sampleCall 300) := by
  have hsteady : Along step (Steady {0, 1}) (start sampleScheduler)
      (smallBatches ++ [sampleCall 300]) := by decide +kernel
  have hsizes : ∀ c ∈ smallBatches ++ [sampleCall 300], c.incomingBytes < overflowBytes := by
    decide +kernel
  refine ⟨_, rfl, by decide +kernel, by decide +kernel, ?_⟩
  exact dispatch_fair (by decide) (fun _ _ => rfl) rfl hsteady hsizes

/-- The charge of a batch of `2 ^ 64 / 10 ^ 9` bytes wraps around, so the first path gets a second
one after the other has had a single byte. -/
theorem huge_batches_unfair : ∃ m,
    run step (start sampleScheduler) [sampleCall overflowBytes, sampleCall 1] = some m ∧
      Along step (Steady {0, 1}) (start sampleScheduler)
        [sampleCall overflowBytes, sampleCall 1, sampleCall overflowBytes] ∧
      ¬ Fair {0, 1} m (sampleCall overflowBytes) := by
  refine ⟨_, rfl, by decide +kernel, fun hfair => ?_⟩
  exact absurd (hfair.bytes 0 (by decide) 1 (by decide)) (by decide +kernel)

end Metered

end TlsVpn.Port
