import TlsVpn.Lib.Bytes
import TlsVpn.Lib.Run

/-!
# The link state that netifd sees

Translation of `notifyNetifdUp`, `notifyNetifdDown` and of the part of `Client.dialAndServe` that
counts the live connections. The counter is changed outside of the lock of the link state, so a
connection is cut at each change of the counter and at each critical section; `notifyNetifdDown`
reads the counter before it runs the helper and clears the state after it.

`Netifd.link_follows_connectivity` holds if no connection that could not publish its addresses is
the last one of a published interface. Such a connection leaves without a link-down
(`failed_update_leaves_up`).
-/

namespace TlsVpn.Client

open Lib List

/-- What a handshake has assigned. -/
structure Addresses where
  v4 : String
  v6 : String
  gw4 : String
  gw6 : String
  deriving DecidableEq, Repr

/-- What has been published. -/
structure NetifdLinkState where
  up : Bool
  addresses : Addresses
  deriving DecidableEq, Repr

/-- The state after a link-down. -/
def NetifdLinkState.none : NetifdLinkState := ⟨false, "", "", "", ""⟩

/-- The link is up with these addresses. -/
def sameNetifdLinkState (a : NetifdLinkState) (addresses : Addresses) : Bool :=
  a.up && decide (a.addresses = addresses)

/-- Where a connection stands in `dialAndServe`. -/
inductive Stage where
  /-- It is counted and has not published its addresses. -/
  | counted (addresses : Addresses)
  /-- It could not publish them and is still counted. -/
  | failed
  | serving
  /-- It was the last one and has not taken the lock to publish the link-down. -/
  | closing
  /-- It holds the lock and has found the interface up and no connection. -/
  | lowering
  | gone
  deriving DecidableEq, Repr

/-- The connection is counted. -/
def Stage.live : Stage → Bool
  | .counted _ | .failed | .serving => true
  | _ => false

/-- The connection is about to publish the link-down. -/
def Stage.lowers : Stage → Bool
  | .closing | .lowering => true
  | _ => false

/-- The connection is between two of its steps. -/
def Stage.underway : Stage → Bool
  | .serving | .gone => false
  | _ => true

/-- The client, its connections and the published state. -/
structure Netifd where
  interfaceManager : String
  netifdInterface : String
  liveConns : Int
  locked : Bool
  netifdState : NetifdLinkState
  conns : List Stage

/-- The steps of a connection. `exit` is the end of `Run`. -/
inductive NetifdAction where
  | link (addresses : Addresses)
  | up (c : Nat) (helper : Bool)
  | giveUp (c : Nat)
  | close (c : Nat)
  | exit
  | check (c : Nat)
  | lower (c : Nat) (helper : Bool)
  deriving DecidableEq

namespace Netifd

/-- Before the first connection. -/
def new (interfaceManager netifdInterface : String) : Netifd :=
  { interfaceManager
    netifdInterface
    liveConns := 0
    locked := false
    netifdState := .none
    conns := [] }

/-- The interface belongs to netifd. -/
def usesNetifd (s : Netifd) : Bool := s.interfaceManager = "netifd"

/-- Moves a connection on. -/
def setStage (s : Netifd) (c : Nat) (stage : Stage) : Netifd :=
  { s with conns := s.conns.set c stage }

/-- Whether the call succeeds, with the state it leaves. The helper is not run if the state is the
same already. -/
def notifyNetifdUp (s : Netifd) (addresses : Addresses) (helper : Bool) :
    Bool × NetifdLinkState :=
  if ¬ s.usesNetifd then (true, s.netifdState)
  else if s.netifdInterface.toList.all isSpace then (false, s.netifdState)
  else if sameNetifdLinkState s.netifdState addresses then (true, s.netifdState)
  else if ¬ helper then (false, s.netifdState)
  else (true, ⟨true, addresses⟩)

/-- Publishing waits for the lock, which a link-down holds. -/
def step (s : Netifd) : NetifdAction → Option Netifd
  | .link addresses =>
    some { s with liveConns := s.liveConns + 1, conns := s.conns ++ [.counted addresses] }
  | .up c helper =>
    match s.conns[c]?, s.locked with
    | some (.counted addresses), false =>
      let (ok, netifdState) := s.notifyNetifdUp addresses helper
      some ({ s with netifdState }.setStage c (if ok then .serving else .failed))
    | _, _ => none
  | .giveUp c =>
    match s.conns[c]? with
    | some .failed => some ({ s with liveConns := s.liveConns - 1 }.setStage c .gone)
    | _ => none
  | .close c =>
    match s.conns[c]? with
    | some .serving =>
      let s := { s with liveConns := s.liveConns - 1 }
      some (s.setStage c (if s.liveConns = 0 ∧ s.usesNetifd then .closing else .gone))
    | _ => none
  -- the exit of `Run` calls `notifyNetifdDown` as well
  | .exit => some { s with conns := s.conns ++ [if s.usesNetifd then .closing else .gone] }
  | .check c =>
    match s.conns[c]?, s.locked with
    | some .closing, false =>
      if ¬ s.netifdState.up ∨ s.liveConns ≠ 0 then some (s.setStage c .gone)
      else some ({ s with locked := true }.setStage c .lowering)
    | _, _ => none
  | .lower c helper =>
    match s.conns[c]? with
    | some .lowering =>
      let netifdState := if helper then .none else s.netifdState
      some ({ s with locked := false, netifdState }.setStage c .gone)
    | _ => none

/-! ## The published state -/

variable {s s' : Netifd} {c : Nat} {old stage : Stage}

/-- The helper succeeds if the action publishes a link-down. -/
def DownSucceeds : NetifdAction → Prop
  | .lower _ helper => helper = true
  | _ => True

/-- The connection that gives up is not the last one of an interface that is up. -/
def LeavesNoneUp (s : Netifd) : NetifdAction → Prop
  | .giveUp _ => s.liveConns = 1 → s.netifdState.up = false
  | _ => True

instance : ∀ action, Decidable (DownSucceeds action)
  | .lower _ _ => inferInstanceAs (Decidable (_ = _))
  | .link _ | .up _ _ | .giveUp _ | .close _ | .exit | .check _ => isTrue trivial

instance (s : Netifd) : ∀ action, Decidable (LeavesNoneUp s action)
  | .giveUp _ => inferInstanceAs (Decidable (_ → _))
  | .link _ | .up _ _ | .close _ | .exit | .check _ | .lower _ _ => isTrue trivial

/-- The counter counts, and an interface that is up without connections is about to go down. -/
structure Sound (s : Netifd) : Prop where
  counted : s.liveConns = s.conns.countP Stage.live
  unused : s.usesNetifd = false → s.netifdState.up = false
  published : s.netifdState.up = true →
    0 < s.liveConns ∨ ∃ stage ∈ s.conns, stage.lowers = true

theorem sound_new (interfaceManager netifdInterface : String) :
    (new interfaceManager netifdInterface).Sound :=
  ⟨rfl, fun _ => rfl, fun hup => nomatch hup⟩

/-- The number of live connections after one of them has changed. -/
theorem count_set (hc : s.conns[c]? = some old) :
    ((s.conns.set c stage).countP Stage.live : Int) =
      s.conns.countP Stage.live - (if old.live then 1 else 0) + if stage.live then 1 else 0 := by
  obtain ⟨hlt, hget⟩ := List.getElem?_eq_some_iff.mp hc
  rw [List.countP_set hlt, hget]
  have hpos : old.live = true → 0 < s.conns.countP Stage.live := fun hlive =>
    countP_pos_iff.mpr ⟨old, mem_of_getElem? hc, hlive⟩
  cases hlive : old.live with
  | false =>
    cases stage.live with
    | false | true => simp
  | true =>
    have := hpos hlive
    simp only [if_true]
    split
    · omega
    · omega

theorem mem_set_self (hc : s.conns[c]? = some old) : stage ∈ s.conns.set c stage := by
  obtain ⟨hlt, -⟩ := List.getElem?_eq_some_iff.mp hc
  exact List.mem_iff_getElem?.mpr ⟨c, List.getElem?_set_self hlt⟩

/-- The call publishes addresses only if it succeeds. -/
theorem notify_up_cases (s : Netifd) (addresses : Addresses) (helper : Bool) :
    (s.notifyNetifdUp addresses helper).2 = s.netifdState ∨
      s.usesNetifd = true ∧ s.notifyNetifdUp addresses helper = (true, ⟨true, addresses⟩) := by
  unfold notifyNetifdUp
  split
  · exact .inl rfl
  · rename_i huses
    split
    · exact .inl rfl
    · split
      · exact .inl rfl
      · split
        · exact .inl rfl
        · exact .inr ⟨by simpa using huses, rfl⟩

/-- A live connection is counted. -/
theorem Sound.live_pos (h : s.Sound) (hc : s.conns[c]? = some old) (hlive : old.live = true) :
    0 < s.liveConns := by
  rw [h.counted]
  exact Int.natCast_pos.mpr (countP_pos_iff.mpr ⟨old, mem_of_getElem? hc, hlive⟩)

/-- A connection goes on without being counted or uncounted. -/
theorem Sound.moves (h : s.Sound) (hc : s.conns[c]? = some old) (stage : Stage)
    (hlive : stage.live = old.live) (locked : Bool) (netifdState : NetifdLinkState)
    (hunused : s.usesNetifd = false → netifdState.up = false)
    (hpublished : netifdState.up = true →
      0 < s.liveConns ∨ ∃ x ∈ s.conns.set c stage, x.lowers = true) :
    ({ s with locked, netifdState }.setStage c stage).Sound := by
  refine ⟨?_, hunused, hpublished⟩
  show s.liveConns = ((s.conns.set c stage).countP Stage.live : Int)
  rw [count_set hc, hlive, h.counted]
  omega

/-- A live connection leaves. If it is the last one of an interface that is up, it is about to
publish the link-down. -/
theorem Sound.leaves (h : s.Sound) (hc : s.conns[c]? = some old) (hold : old.live = true)
    (hstage : stage.live = false)
    (hlast : s.liveConns - 1 = 0 → s.netifdState.up = true → stage.lowers = true) :
    ({ s with liveConns := s.liveConns - 1 }.setStage c stage).Sound := by
  refine ⟨?_, h.unused, fun hup => ?_⟩
  · show s.liveConns - 1 = ((s.conns.set c stage).countP Stage.live : Int)
    rw [count_set hc, hold, hstage, h.counted]
    simp
  · show 0 < s.liveConns - 1 ∨ ∃ x ∈ s.conns.set c stage, x.lowers = true
    by_cases hzero : s.liveConns - 1 = 0
    · exact .inr ⟨stage, mem_set_self hc, hlast hzero hup⟩
    · have hpos := h.live_pos hc hold
      exact .inl (by omega)

/-- An action keeps the counter right and the interface up only with a reason. -/
theorem Sound.step (h : s.Sound) {action : NetifdAction} (hdown : DownSucceeds action)
    (hleaves : LeavesNoneUp s action) (hstep : s.step action = some s') : s'.Sound := by
  cases action with
  | link addresses =>
    cases hstep
    refine ⟨?_, h.unused, fun _ => .inl ?_⟩
    · show s.liveConns + 1 = ((s.conns ++ [Stage.counted addresses]).countP Stage.live : Int)
      rw [h.counted, countP_append]
      rfl
    · show 0 < s.liveConns + 1
      rw [h.counted]
      omega
  | up c helper =>
    simp only [Netifd.step] at hstep
    split at hstep
    · rename_i addresses hc _
      cases hstep
      refine h.moves hc _ ?_ s.locked _ (fun hunused => ?_) fun _ => .inl (h.live_pos hc rfl)
      · split
        · rfl
        · rfl
      · rcases s.notify_up_cases addresses helper with hsame | ⟨huses, -⟩
        · rw [hsame]
          exact h.unused hunused
        · exact absurd (huses.symm.trans hunused) (by simp)
    · cases hstep
  | giveUp c =>
    simp only [Netifd.step] at hstep
    split at hstep
    · rename_i hc
      cases hstep
      refine h.leaves hc rfl rfl fun hzero hup => ?_
      rw [hleaves (show s.liveConns = 1 by omega)] at hup
      cases hup
    · cases hstep
  | close c =>
    simp only [Netifd.step] at hstep
    split at hstep
    · rename_i hc
      cases hstep
      refine h.leaves hc rfl ?_ fun hzero hup => ?_
      · split
        · rfl
        · rfl
      · have huses : s.usesNetifd = true := by
          by_contra hunused
          rw [h.unused (by simpa using hunused)] at hup
          cases hup
        exact congrArg Stage.lowers (if_pos ⟨hzero, huses⟩)
    · cases hstep
  | exit =>
    cases hstep
    refine ⟨?_, h.unused, fun hup => ?_⟩
    · show s.liveConns = ((s.conns ++ [if _ then _ else _]).countP Stage.live : Int)
      rw [h.counted, countP_append]
      split
      · rfl
      · rfl
    · rcases h.published hup with hpos | ⟨other, hother, hlowers⟩
      · exact .inl hpos
      · exact .inr ⟨other, mem_append_left _ hother, hlowers⟩
  | check c =>
    simp only [Netifd.step] at hstep
    split at hstep
    · rename_i hc _
      split at hstep
      · rename_i hquiet
        cases hstep
        refine h.moves hc .gone rfl s.locked s.netifdState h.unused fun hup => .inl ?_
        have hne := hquiet.resolve_left fun hnotUp => hnotUp hup
        have hcounted := h.counted
        omega
      · cases hstep
        exact h.moves hc .lowering rfl true s.netifdState h.unused fun _ =>
          .inr ⟨.lowering, mem_set_self hc, rfl⟩
    · cases hstep
  | lower c helper =>
    simp only [Netifd.step] at hstep
    split at hstep
    · rename_i hc
      cases hstep
      cases hdown
      exact h.moves hc .gone rfl false .none (fun _ => rfl) fun hup => nomatch hup
    · cases hstep

/-- While no connection is underway, an interface that is up has a live connection, if none gives
up as the last one of an interface that is up. -/
theorem link_follows_connectivity {interfaceManager netifdInterface : String}
    {actions : List NetifdAction}
    (hrun : run Netifd.step (new interfaceManager netifdInterface) actions = some s)
    (hdown : ∀ action ∈ actions, DownSucceeds action)
    (hleaves : Along Netifd.step LeavesNoneUp (new interfaceManager netifdInterface) actions)
    (hquiet : ∀ stage ∈ s.conns, stage.underway = false) (hup : s.netifdState.up = true) :
    0 < s.liveConns := by
  have hsound : s.Sound :=
    run_invariant
      (fun _ _ _ hsound hallowed hstep => Sound.step hsound hallowed.2 hallowed.1 hstep)
      (sound_new _ _) (hleaves.and_mem hdown) hrun
  rcases hsound.published hup with hpos | ⟨stage, hmem, hlowers⟩
  · exact hpos
  · have hsettled := hquiet stage hmem
    cases stage with
    | closing | lowering => cases hsettled
    | counted | failed | serving | gone => cases hlowers

/-- Addresses of a first session. -/
def firstAddresses : Addresses := ⟨"10.0.0.2/24", "fd00::2/64", "10.0.0.1", "fd00::1"⟩

/-- Addresses of a second session. -/
def otherAddresses : Addresses := ⟨"10.0.0.3/24", "fd00::3/64", "10.0.0.1", "fd00::1"⟩

/-- Two connections, of which the second could not publish and gives up first. -/
theorem served_link_stays_up :
    ∃ s, run Netifd.step (new "netifd" "vpn") [.link firstAddresses, .up 0 true,
        .link otherAddresses, .up 1 false, .giveUp 1] = some s ∧
      s.netifdState.up = true ∧ 0 < s.liveConns := by
  obtain ⟨s, hrun, hquiet, hup⟩ := exists_run_of_decide
    (P := fun s : Netifd =>
      (∀ stage ∈ s.conns, stage.underway = false) ∧ s.netifdState.up = true)
    (show (run Netifd.step (new "netifd" "vpn") [.link firstAddresses, .up 0 true,
      .link otherAddresses, .up 1 false, .giveUp 1]).any _ = true by decide +kernel)
  exact ⟨s, hrun, hup,
    link_follows_connectivity hrun (by decide) (by decide +kernel) hquiet hup⟩

/-- The first connection goes while the second is about to fail: the interface stays up. -/
theorem failed_update_leaves_up :
    ∃ s, run Netifd.step (new "netifd" "vpn") [.link firstAddresses, .up 0 true,
        .link otherAddresses, .close 0, .up 1 false, .giveUp 1] = some s ∧
      (∀ stage ∈ s.conns, stage.underway = false) ∧ s.netifdState.up = true ∧
      s.liveConns = 0 :=
  exists_run_of_decide (by decide +kernel)

end Netifd

end TlsVpn.Client
