import TlsVpn.Session.System

/-!
# The state file of the client

Every connection that adopts a response also persists it. It first compares the response with the
session in memory, under the lock of the session, and writes the file later, under the lock of the
file; other connections adopt and persist in between. Before every handshake a connection takes over
newer state of the same session from the file, which it also does in two parts.

`persisted_when_settled` shows that the file holds the session in memory once all persists are done,
in every run in which nothing is adopted between a comparison and its write and no response is older
than the file. `late_write_goes_back` shows that both conditions are needed.
-/

namespace TlsVpn.Session

open Lib List

/-- The session of a client process: in memory, in the file, and as the process last loaded or saved
it. Without a session the memory holds zeros. -/
structure ClientStore where
  memory : Stored
  disk : Option Stored
  state : Option Stored
  deriving DecidableEq, Repr

namespace ClientStore

/-- A process that starts with what the file holds, which is nothing if the file has no session. -/
def new (file : Option Stored) : ClientStore :=
  let disk := file.filter (·.sessionID ≠ 0)
  { memory := disk.getD ⟨0, 0, 0⟩, disk, state := disk }

/-- The comparison of `persistSessionState`: the response is still the session in memory. -/
def IsCurrent (s : ClientStore) (r : Stored) : Prop := s.memory.sessionID = 0 ∨ r = s.memory

instance (s : ClientStore) (r : Stored) : Decidable (s.IsCurrent r) :=
  inferInstanceAs (Decidable (_ ∨ _))

/-- The file keeps what it holds: a later epoch of the session, or another token of the same epoch.
-/
def DiskAhead (s : ClientStore) (r : Stored) : Prop :=
  ∃ d ∈ s.disk, d.sessionID = r.sessionID ∧
    (d.sessionEpoch > r.sessionEpoch ∨
      d.sessionEpoch = r.sessionEpoch ∧ d.sessionToken ≠ 0 ∧ d.sessionToken ≠ r.sessionToken)

instance (s : ClientStore) (r : Stored) : Decidable (s.DiskAhead r) :=
  inferInstanceAs (Decidable (∃ d ∈ s.disk, _))

/-- The process has loaded or saved a later epoch of the session. -/
def StateAhead (s : ClientStore) (r : Stored) : Prop :=
  ∃ st ∈ s.state, st.sessionID = r.sessionID ∧ r.sessionEpoch < st.sessionEpoch

instance (s : ClientStore) (r : Stored) : Decidable (s.StateAhead r) :=
  inferInstanceAs (Decidable (∃ st ∈ s.state, _))

/-- The write of `persistSessionState`. -/
def save (s : ClientStore) (r : Stored) : ClientStore :=
  if s.DiskAhead r then { s with state := s.disk }
  else if s.StateAhead r then s
  else { s with disk := some r, state := some r }

/-- The second half of `refreshSessionStateFromDisk`, for what the first half has read. -/
def refresh (s : ClientStore) (disk : Stored) : ClientStore :=
  if disk.sessionID ≠ s.memory.sessionID then s
  else if disk.sessionEpoch < s.memory.sessionEpoch then s
  else if disk.sessionEpoch = s.memory.sessionEpoch ∧ disk.sessionToken = s.memory.sessionToken
  then s
  else { s with memory := disk, state := some disk }

end ClientStore

/-! ## The connections of one process -/

/-- A client process: its store, the responses that are to be compared, those that are to be
written, and what a refresh has read while it holds the lock of the file. -/
structure Persisting where
  store : ClientStore
  unchecked : List Stored
  checked : List Stored
  reading : Option Stored
  deriving DecidableEq, Repr

namespace Persisting

/-- A process that has read the file. -/
def new (disk : Option Stored) : Persisting :=
  { store := .new disk, unchecked := [], checked := [], reading := none }

/-- A connection adopts a response, which it will persist. -/
def adopt (s : Persisting) (r : Stored) : Persisting :=
  { s with store := { s.store with memory := r }, unchecked := s.unchecked ++ [r] }

/-- The steps of the connections and of a refresh. -/
inductive Action where
  | adopt (r : Stored)
  | compare (r : Stored)
  | write (r : Stored)
  | readDisk
  | absorb
  deriving DecidableEq, Repr

/-- The steps that do not need a response. -/
def work (s : Persisting) : Action → Option Persisting
  | .adopt _ => none
  | .compare r =>
    if r ∈ s.unchecked then
      if s.store.IsCurrent r then
        some { s with unchecked := s.unchecked.erase r, checked := s.checked ++ [r] }
      else some { s with unchecked := s.unchecked.erase r }
    else none
  | .write r =>
    if r ∈ s.checked ∧ s.reading = none then
      some { s with store := s.store.save r, checked := s.checked.erase r }
    else none
  | .readDisk =>
    if s.reading = none then
      some { s with reading := s.store.disk.filter fun d => d.sessionID ≠ 0 ∧ d.sessionToken ≠ 0 }
    else none
  | .absorb => s.reading.map fun d => { s with store := s.store.refresh d, reading := none }

/-- A response has a session. -/
def step (s : Persisting) : Action → Option Persisting
  | .adopt r => if r.sessionID ≠ 0 then some (s.adopt r) else none
  | action => s.work action

/-- The file is not ahead of the response: it holds another session, an earlier epoch, or the same.
-/
def NotOlder (s : ClientStore) (r : Stored) : Prop :=
  ∀ d ∈ s.disk, d.sessionID = r.sessionID → d.sessionEpoch < r.sessionEpoch ∨ d = r

instance (s : ClientStore) (r : Stored) : Decidable (NotOlder s r) :=
  inferInstanceAs (Decidable (∀ d ∈ s.disk, _))

/-- A response is adopted only if it is not older than the file, and written only if it is still the
session in memory. -/
def Ordered (s : Persisting) : Action → Prop
  | .adopt r => NotOlder s.store r
  | .write r => s.store.memory = r
  | _ => True

instance (s : Persisting) : DecidablePred s.Ordered
  | .adopt r => inferInstanceAs (Decidable (NotOlder s.store r))
  | .write r => inferInstanceAs (Decidable (s.store.memory = r))
  | .compare _ | .readDisk | .absorb => isTrue trivial

/-! ## The invariant -/

/-- The file is not ahead of the memory, and the memory is in the file or on its way. -/
structure Persists (s : Persisting) : Prop where
  state_eq : s.store.state = s.store.disk
  not_older : NotOlder s.store s.store.memory
  reading_eq : ∀ d, s.reading = some d → s.store.disk = some d
  pending : s.store.memory ∈ s.unchecked ∨ s.store.memory ∈ s.checked ∨
    s.store.disk = some s.store.memory ∨ s.store.memory.sessionID = 0

/-- A response that is not older than the file is saved. -/
theorem save_of_not_older {s : ClientStore} {r : Stored} (hstate : s.state = s.disk)
    (h : NotOlder s r) : s.save r = { s with disk := some r, state := some r } := by
  have hdisk : ¬ s.DiskAhead r := by
    rintro ⟨d, hd, hsame, hahead⟩
    rcases h d hd hsame with hlt | rfl
    · omega
    · rcases hahead with hgt | ⟨_, _, hne⟩
      · exact Nat.lt_irrefl _ hgt
      · exact hne rfl
  have hcached : ¬ s.StateAhead r := by
    rintro ⟨d, hd, hsame, hlt⟩
    rw [hstate] at hd
    rcases h d hd hsame with hbefore | rfl
    · omega
    · exact Nat.lt_irrefl _ hlt
  unfold ClientStore.save
  rw [if_neg hdisk, if_neg hcached]

/-- A refresh from a file that is not ahead changes nothing. -/
theorem refresh_of_not_older {s : ClientStore} {d : Stored} (hdisk : s.disk = some d)
    (h : NotOlder s s.memory) : s.refresh d = s := by
  unfold ClientStore.refresh
  by_cases hsame : d.sessionID = s.memory.sessionID
  · rw [if_neg (not_not.mpr hsame)]
    rcases h d hdisk hsame with hlt | heq
    · rw [if_pos hlt]
    · rw [heq, if_neg (Nat.lt_irrefl _), if_pos ⟨rfl, rfl⟩]
  · rw [if_pos hsame]

theorem persists_new (file : Option Stored) : (new file).Persists := by
  refine ⟨rfl, ?_, nofun, ?_⟩
  · intro d hd _
    refine .inr ?_
    have hfile : file.filter (·.sessionID ≠ 0) = some d := hd
    show d = (file.filter (·.sessionID ≠ 0)).getD ⟨0, 0, 0⟩
    rw [hfile, Option.getD_some]
  · show _ ∨ _ ∨ file.filter (·.sessionID ≠ 0) = some _ ∨ _
    cases hdisk : file.filter (·.sessionID ≠ 0) with
    | none =>
      refine .inr (.inr (.inr ?_))
      show ((file.filter (·.sessionID ≠ 0)).getD ⟨0, 0, 0⟩).sessionID = 0
      rw [hdisk]
      rfl
    | some d =>
      refine .inr (.inr (.inl ?_))
      show some d = some ((file.filter (·.sessionID ≠ 0)).getD ⟨0, 0, 0⟩)
      rw [hdisk]
      rfl

/-- A response in order is on its way to the file. -/
theorem Persists.step {s s' : Persisting} {action : Action} (h : s.Persists)
    (hordered : s.Ordered action) (hstep : s.step action = some s') : s'.Persists := by
  cases action with
  | adopt r =>
    obtain ⟨_, rfl⟩ := of_guarded hstep
    refine ⟨h.state_eq, hordered, h.reading_eq, .inl ?_⟩
    exact mem_append_right _ (mem_singleton_self r)
  | compare r =>
    simp only [Persisting.step, work] at hstep
    split at hstep
    · -- only a response that is not the memory leaves the list without being checked
      have hother : r ≠ s.store.memory → s.store.memory ∈ s.unchecked →
          s.store.memory ∈ s.unchecked.erase r := fun hne hmem =>
        (mem_erase_of_ne (Ne.symm hne)).mpr hmem
      split at hstep
      · cases hstep
        refine ⟨h.state_eq, h.not_older, h.reading_eq, ?_⟩
        by_cases heq : r = s.store.memory
        · exact .inr (.inl (mem_append_right _ (by rw [heq]; simp)))
        · rcases h.pending with hun | hch | hrest
          · exact .inl (hother heq hun)
          · exact .inr (.inl (mem_append_left _ hch))
          · exact .inr (.inr hrest)
      · rename_i hcurrent
        cases hstep
        refine ⟨h.state_eq, h.not_older, h.reading_eq, ?_⟩
        exact h.pending.imp_left (hother fun heq => hcurrent (.inr heq))
    · cases hstep
  | write r =>
    obtain ⟨hguard, rfl⟩ := of_guarded hstep
    cases hordered
    rw [save_of_not_older h.state_eq h.not_older]
    refine ⟨rfl, ?_, ?_, .inr (.inr (.inl rfl))⟩
    · intro d hd _
      exact .inr (Option.some.inj (Option.mem_def.mp hd)).symm
    · intro d hd
      rw [hguard.2] at hd
      cases hd
  | readDisk =>
    obtain ⟨_, rfl⟩ := of_guarded hstep
    refine ⟨h.state_eq, h.not_older, fun d hd => ?_, h.pending⟩
    exact (Option.filter_eq_some_iff.mp hd).1
  | absorb =>
    simp only [Persisting.step, work] at hstep
    obtain ⟨d, hreading, rfl⟩ := Option.map_eq_some_iff.mp hstep
    rw [refresh_of_not_older (h.reading_eq d hreading) h.not_older]
    exact ⟨h.state_eq, h.not_older, nofun, h.pending⟩

/-- Once every persist is done, the file holds the session in memory, if no response was adopted
between a comparison and its write and none was older than the file. -/
theorem persisted_when_settled (file : Option Stored) {actions : List Action} {s : Persisting}
    (hrun : run step (new file) actions = some s)
    (hordered : Along step Ordered (new file) actions)
    (hsettled : s.unchecked = [] ∧ s.checked = []) (hsession : s.store.memory.sessionID ≠ 0) :
    s.store.disk = some s.store.memory := by
  have hpersists : s.Persists :=
    run_invariant (fun _ _ _ hinv hallowed hstep => Persists.step hinv hallowed hstep)
      (persists_new file) hordered hrun
  rcases hpersists.pending with hun | hch | hdisk | hzero
  · rw [hsettled.1] at hun
    cases hun
  · rw [hsettled.2] at hch
    cases hch
  · exact hdisk
  · exact absurd hzero hsession

/-- Adopt a response and persist it. -/
def adoptAndPersist (r : Stored) : List Action := [.adopt r, .compare r, .write r]

/-- A session, its next epoch, and a new session after a restart of the server. -/
theorem restart_persisted :
    ∃ s, run step (new none)
        (adoptAndPersist ⟨1, 1, 5⟩ ++ adoptAndPersist ⟨1, 2, 6⟩ ++ adoptAndPersist ⟨2, 1, 6⟩) =
          some s ∧
      s.store.memory = ⟨2, 1, 6⟩ ∧ s.store.disk = some ⟨2, 1, 6⟩ := by
  obtain ⟨s, hrun, hmemory, hsettled⟩ :
      ∃ s, run step (new none)
          (adoptAndPersist ⟨1, 1, 5⟩ ++ adoptAndPersist ⟨1, 2, 6⟩ ++ adoptAndPersist ⟨2, 1, 6⟩) =
            some s ∧
        s.store.memory = ⟨2, 1, 6⟩ ∧ s.unchecked = [] ∧ s.checked = [] :=
    exists_run_of_decide (by decide +kernel)
  have hdisk := persisted_when_settled none hrun (by decide +kernel) hsettled
    (by rw [hmemory]; decide)
  exact ⟨s, hrun, hmemory, by rw [hdisk, hmemory]⟩

/-- A connection has compared the response of session 1 when another one adopts and persists session
2. Its write then puts session 1 back, although nothing is left to persist. A response of epoch 1
that is adopted after epoch 2 was persisted is never written. -/
theorem late_write_goes_back :
    (∃ s, run step (new none)
        ([.adopt ⟨1, 1, 5⟩, .compare ⟨1, 1, 5⟩] ++ adoptAndPersist ⟨2, 1, 6⟩ ++
          [.write ⟨1, 1, 5⟩]) = some s ∧
      s.unchecked = [] ∧ s.checked = [] ∧ s.store.memory = ⟨2, 1, 6⟩ ∧
      s.store.disk = some ⟨1, 1, 5⟩) ∧
    ∃ s, run step (new none) (adoptAndPersist ⟨1, 2, 6⟩ ++ adoptAndPersist ⟨1, 1, 5⟩) = some s ∧
      s.unchecked = [] ∧ s.checked = [] ∧ s.store.memory = ⟨1, 1, 5⟩ ∧
      s.store.disk = some ⟨1, 2, 6⟩ :=
  ⟨exists_run_of_decide (by decide +kernel), exists_run_of_decide (by decide +kernel)⟩

end Persisting

end TlsVpn.Session
