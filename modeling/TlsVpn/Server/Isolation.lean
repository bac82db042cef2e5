import TlsVpn.Lib.Run
import TlsVpn.Server.VSwitch

/-!
# Isolation of the sessions

A run of the switch is a sequence of sessions created and destroyed, seconds of the clock, and
frames from the sessions and the TAP device. Sessions that are there at the same time have different
MACs.

`Net.switch_isolates` says what every step of a run does: entries of sessions are not touched by
frames or the clock, a frame with the MAC of another goes nowhere, a frame for a known MAC goes to
the port of its entry only, and other frames go to all other ports.
-/

namespace TlsVpn.Server

open Lib

variable {PortID : Type} [DecidableEq PortID]

/-- A switch with its sessions. -/
structure Net (PortID : Type) where
  switch : VSwitch PortID
  tap : Nat
  sessions : List (Registered PortID)
  /-- All sessions so far: a frame of a session can be late for its destruction. -/
  created : List (Registered PortID)
  /-- The ports that the last step wrote to. -/
  delivered : List Nat

/-- Where a frame comes from. -/
inductive Origin (PortID : Type) where
  | session (r : Registered PortID)
  | tap
  deriving DecidableEq

/-- A session claims another source address than its own. -/
def Origin.Spoofs (f : EthernetFrame) : Origin PortID → Prop
  | .session r => f.srcMAC ≠ r.mac
  | .tap => False

namespace Net

/-- Only the TAP device is there. -/
def new (trustedPort : PortID) (tap : Nat) : Net PortID :=
  { switch := (VSwitch.new trustedPort).addPort trustedPort tap
    tap
    sessions := []
    created := []
    delivered := [] }

/-- A session with an address may use only that. -/
def validateSrcMAC (sessions : List (Registered PortID)) (srcPortID : PortID) (mac : MacKey) :
    Bool :=
  match findKey Registered.id sessions srcPortID with
  | none => true
  | some r => decide (r.mac = .zero ∨ r.mac = mac)

/-- Sessions come and go, and frames arrive. -/
inductive Action (PortID : Type) where
  | create (r : Registered PortID)
  | destroy (id : PortID)
  | frame (origin : Origin PortID) (raw : Bytes) (now : Nat)
  | tick

/-- The port that the frame comes from. -/
def portOf (s : Net PortID) : Origin PortID → PortID
  | .session r => r.id
  | .tap => s.switch.trustedPort

/-- The MAC that the frames of an origin are compared with. -/
def registeredMAC : Origin PortID → Option MacKey
  | .session r => some r.mac
  | .tap => none

/-- A session that may be created: its name and its MAC are free. -/
def MayCreate (s : Net PortID) (r : Registered PortID) : Prop :=
  r.id ∉ s.switch.trustedPort :: s.sessions.map Registered.id ∧ r.mac ≠ .zero ∧
    ∀ r' ∈ s.sessions, r'.mac ≠ r.mac

instance (s : Net PortID) (r : Registered PortID) : Decidable (s.MayCreate r) :=
  inferInstanceAs (Decidable (_ ∧ _ ∧ _))

/-- A frame comes from the TAP device or from a session that has been there. -/
def Arrives (s : Net PortID) : Origin PortID → Prop
  | .session r => r ∈ s.created
  | .tap => True

instance (s : Net PortID) : DecidablePred s.Arrives
  | .session r => inferInstanceAs (Decidable (r ∈ s.created))
  | .tap => isTrue trivial

/-- The state after a frame. -/
def afterFrame (s : Net PortID) (origin : Origin PortID) (raw : Bytes) (now : Nat) : Net PortID :=
  let result := s.switch.processFrame (validateSrcMAC s.sessions) (s.portOf origin) raw
    (registeredMAC origin) now
  { s with switch := result.1, delivered := result.2 }

/-- A step that cannot be taken gives none. -/
def step (s : Net PortID) : Action PortID → Option (Net PortID)
  | .create r =>
    if s.MayCreate r then
      some { s with
        switch := (s.switch.addPort r.id r.port).addStaticMAC r.id r.mac
        sessions := r :: s.sessions
        created := r :: s.created
        delivered := [] }
    else none
  | .destroy id =>
    if id ∈ s.sessions.map Registered.id then
      some { s with
        switch := s.switch.removePort id
        sessions := s.sessions.filter fun r => r.id ≠ id
        delivered := [] }
    else none
  | .frame origin raw now =>
    if s.Arrives origin then some (s.afterFrame origin raw now) else none
  | .tick => some { s with switch := s.switch.tick, delivered := [] }

/-! ## What a step may do -/

/-- What a frame does. The entry of its destination is the one after its source has been learned. -/
structure FrameIsolated (s : Net PortID) (origin : Origin PortID) (raw : Bytes) (now : Nat)
    (s' : Net PortID) : Prop where
  /-- Bytes without a header go nowhere. -/
  short : EthernetFrame.parse raw = none → s'.delivered = [] ∧ s'.switch = s.switch
  spoofed : ∀ f, EthernetFrame.parse raw = some f → origin.Spoofs f →
    s'.delivered = [] ∧ s'.switch = { s.switch with spoofDrops := s.switch.spoofDrops + 1 }
  known : ∀ f, EthernetFrame.parse raw = some f → ¬ origin.Spoofs f → f.dstMAC.IsUnicast →
    ∀ e, s'.switch.entry f.dstMAC = some e → ∃ p, s'.switch.port e.portID = some p ∧
      s'.delivered = if e.portID = s.portOf origin then [] else [p]
  unknown : ∀ f, EthernetFrame.parse raw = some f → ¬ origin.Spoofs f →
    (f.dstMAC.IsUnicast → s'.switch.entry f.dstMAC = none) →
    s.switch.MayFlood (s.portOf origin) now →
    s'.delivered = s'.switch.others (s.portOf origin)

/-- What a step does to the tables, and where it writes its frame. -/
structure Isolates (s : Net PortID) (action : Action PortID) (s' : Net PortID) : Prop where
  static_kept : ∀ mac e, s.switch.entry mac = some e → e.static = true →
    (∀ r, action ≠ .create r) → (∀ id, action ≠ .destroy id) → s'.switch.entry mac = some e
  frame : ∀ origin raw now, action = .frame origin raw now → s.FrameIsolated origin raw now s'
  named : ∀ mac e, s'.switch.entry mac = some e → (s'.switch.port e.portID).isSome = true

/-! ## Steps and runs -/

variable {s s' : Net PortID}

/-- What every step keeps. -/
structure Sound (s : Net PortID) : Prop where
  serves : s.switch.Serves s.tap s.sessions
  nonzero : ∀ r ∈ s.created, r.mac ≠ .zero

theorem Sound.trusted_valid (h : s.Sound) (mac : MacKey) :
    validateSrcMAC s.sessions s.switch.trustedPort mac = true := by
  have hnone : findKey Registered.id s.sessions s.switch.trustedPort = none := by
    refine find_key_eq_none.mpr fun r hr heq => ?_
    exact (List.nodup_cons.mp h.serves.ids).1 (List.mem_map.mpr ⟨r, hr, heq⟩)
  unfold validateSrcMAC
  rw [hnone]

variable {origin : Origin PortID}

/-- The check of the source: a spoofed frame is dropped, and another one may teach the TAP port. -/
theorem Sound.check (h : s.Sound) (harrives : s.Arrives origin) (f : EthernetFrame) :
    (origin.Spoofs f ∧ s.switch.checkSource (validateSrcMAC s.sessions) (s.portOf origin)
        (registeredMAC origin) f.srcMAC = none) ∨
      (¬ origin.Spoofs f ∧ ∃ vs, s.switch.checkSource (validateSrcMAC s.sessions) (s.portOf origin)
        (registeredMAC origin) f.srcMAC = some vs ∧ s.switch.Learns s.tap f.srcMAC vs ∧
        (vs.MayFlood (s.portOf origin) = s.switch.MayFlood (s.portOf origin))) := by
  cases origin with
  | session r =>
    have hcheck : s.switch.checkSource (validateSrcMAC s.sessions) r.id (some r.mac) f.srcMAC =
        if f.srcMAC ≠ r.mac then none else some s.switch :=
      VSwitch.check_registered (h.nonzero r harrives)
    by_cases hmac : f.srcMAC = r.mac
    · rw [if_neg (not_not.mpr hmac)] at hcheck
      exact .inr ⟨not_not.mpr hmac, s.switch, hcheck, .kept, rfl⟩
    · rw [if_pos hmac] at hcheck
      exact .inl ⟨hmac, hcheck⟩
  | tap =>
    obtain ⟨vs, hcheck, hlearns⟩ := h.serves.check_trusted h.trusted_valid f.srcMAC
    refine .inr ⟨id, vs, hcheck, hlearns, funext fun now => propext ?_⟩
    exact ⟨fun _ => .inl rfl, fun _ => .inl hlearns.ports.2.symm⟩

/-- A frame in one of three ways: it is no frame, it is dropped, or it is forwarded. -/
theorem Sound.frame_cases (h : s.Sound) (harrives : s.Arrives origin) (raw : Bytes) (now : Nat) :
    (EthernetFrame.parse raw = none ∧ s.afterFrame origin raw now = { s with delivered := [] }) ∨
    ∃ f, EthernetFrame.parse raw = some f ∧
      ((origin.Spoofs f ∧ s.afterFrame origin raw now =
        { s with
          switch := { s.switch with spoofDrops := s.switch.spoofDrops + 1 }
          delivered := [] }) ∨
      (¬ origin.Spoofs f ∧ ∃ vs, s.switch.Learns s.tap f.srcMAC vs ∧
        (vs.MayFlood (s.portOf origin) = s.switch.MayFlood (s.portOf origin)) ∧
        s.afterFrame origin raw now =
          { s with
            switch := (vs.forward (s.portOf origin) f.dstMAC now).1
            delivered := (vs.forward (s.portOf origin) f.dstMAC now).2 })) := by
  unfold afterFrame
  cases hparse : EthernetFrame.parse raw with
  | none =>
    rw [VSwitch.process_short hparse]
    exact .inl ⟨rfl, rfl⟩
  | some f =>
    refine .inr ⟨f, rfl, ?_⟩
    rcases h.check harrives f with ⟨hspoofs, hcheck⟩ | ⟨hspoofs, vs, hcheck, hlearns, hmay⟩
    · rw [VSwitch.process_dropped hparse hcheck]
      exact .inl ⟨hspoofs, rfl⟩
    · rw [VSwitch.process_forwarded hparse hcheck]
      exact .inr ⟨hspoofs, vs, hlearns, hmay, rfl⟩

theorem Sound.after_frame (h : s.Sound) (harrives : s.Arrives origin) (raw : Bytes) (now : Nat) :
    (s.afterFrame origin raw now).Sound := by
  rcases h.frame_cases harrives raw now with
    ⟨-, heq⟩ | ⟨f, -, ⟨-, heq⟩ | ⟨-, vs, hlearns, -, heq⟩⟩
  · rw [heq]
    exact ⟨h.serves, h.nonzero⟩
  · rw [heq]
    exact ⟨h.serves.of_same ⟨rfl, rfl, rfl⟩, h.nonzero⟩
  · rw [heq]
    exact ⟨(h.serves.learns hlearns).of_same (VSwitch.forward_same _ _ _ _), h.nonzero⟩

theorem Sound.frame_static (h : s.Sound) (harrives : s.Arrives origin) (raw : Bytes) (now : Nat)
    {mac : MacKey} {e : MacEntry PortID} (he : s.switch.entry mac = some e)
    (hstatic : e.static = true) : (s.afterFrame origin raw now).switch.entry mac = some e := by
  rcases h.frame_cases harrives raw now with
    ⟨-, heq⟩ | ⟨f, -, ⟨-, heq⟩ | ⟨-, vs, hlearns, -, heq⟩⟩
  · rw [heq]
    exact he
  · rw [heq]
    exact he
  · rw [heq]
    exact (VSwitch.forward_same _ _ _ _).entry.trans (hlearns.static_kept he hstatic)

/-- The tables that a frame meets serve the sessions. -/
theorem Sound.frame_isolated (h : s.Sound) (harrives : s.Arrives origin) (raw : Bytes) (now : Nat) :
    s.FrameIsolated origin raw now (s.afterFrame origin raw now) := by
  rcases h.frame_cases harrives raw now with
    ⟨hparse, heq⟩ | ⟨f, hparse, ⟨hspoofs, heq⟩ | ⟨hspoofs, vs, hlearns, hmay, heq⟩⟩
  · rw [heq]
    exact
      { short := fun _ => ⟨rfl, rfl⟩
        spoofed := fun f hf => by rw [hparse] at hf; cases hf
        known := fun f hf => by rw [hparse] at hf; cases hf
        unknown := fun f hf => by rw [hparse] at hf; cases hf }
  · rw [heq]
    exact
      { short := fun hnone => by rw [hparse] at hnone; cases hnone
        spoofed := fun _ _ _ => ⟨rfl, rfl⟩
        known := fun f' hf hnot => by cases hparse.symm.trans hf; exact absurd hspoofs hnot
        unknown := fun f' hf hnot => by cases hparse.symm.trans hf; exact absurd hspoofs hnot }
  · rw [heq]
    have hserves := h.serves.learns hlearns
    have hsame := VSwitch.forward_same vs (s.portOf origin) f.dstMAC now
    have hserves' := hserves.of_same hsame
    refine
      { short := fun hnone => by rw [hparse] at hnone; cases hnone
        spoofed := fun f' hf hsp => by cases hparse.symm.trans hf; exact absurd hsp hspoofs
        known := ?_
        unknown := ?_ }
    · intro f' hf _ hunicast e he
      cases hparse.symm.trans hf
      obtain ⟨p, -, hport⟩ := hserves'.entry_port he
      refine ⟨p, hport, ?_⟩
      have hport' : vs.port e.portID = some p := by
        rw [← hport]
        unfold VSwitch.port
        rw [hsame.ports]
      have hforward := hserves.forward_known (s.portOf origin) now hunicast
        (hsame.entry.symm.trans he)
      rw [hport'] at hforward
      exact hforward
    · intro f' hf _ hunknown hflood
      cases hparse.symm.trans hf
      refine (VSwitch.forward_unknown (fun hunicast => ?_) ?_).trans (hsame.others _).symm
      · exact hsame.entry.symm.trans (hunknown hunicast)
      · rw [hmay]
        exact hflood

theorem new_sound (trustedPort : PortID) (tap : Nat) : (Net.new trustedPort tap).Sound :=
  ⟨.new trustedPort, by nofun⟩

/-- Only `create` and `destroy` change the sessions. -/
theorem Sound.step (h : s.Sound) {action : Action PortID} (hstep : s.step action = some s') :
    s'.Sound := by
  cases action with
  | create r =>
    obtain ⟨hmay, rfl⟩ := of_guarded hstep
    refine ⟨h.serves.create r hmay.1 hmay.2.1 hmay.2.2, fun r' hr' => ?_⟩
    rcases List.mem_cons.mp hr' with rfl | hold
    · exact hmay.2.1
    · exact h.nonzero r' hold
  | destroy id =>
    obtain ⟨hmem, rfl⟩ := of_guarded hstep
    have hid : id ≠ s.switch.trustedPort := by
      rintro rfl
      exact (List.nodup_cons.mp h.serves.ids).1 hmem
    exact ⟨h.serves.removePort hid, h.nonzero⟩
  | frame origin raw now =>
    obtain ⟨harrives, rfl⟩ := of_guarded hstep
    exact h.after_frame harrives raw now
  | tick =>
    cases hstep
    exact ⟨h.serves.tick, h.nonzero⟩

theorem Sound.static_kept (h : s.Sound) {action : Action PortID} (hstep : s.step action = some s')
    {mac : MacKey} {e : MacEntry PortID} (he : s.switch.entry mac = some e)
    (hstatic : e.static = true)
    (hcreate : ∀ r, action ≠ .create r) (hdestroy : ∀ id, action ≠ .destroy id) :
    s'.switch.entry mac = some e := by
  cases action with
  | create r => exact absurd rfl (hcreate r)
  | destroy id => exact absurd rfl (hdestroy id)
  | frame origin raw now =>
    obtain ⟨harrives, rfl⟩ := of_guarded hstep
    exact h.frame_static harrives raw now he hstatic
  | tick =>
    cases hstep
    rcases VSwitch.entry_tick s.switch mac with hkept | hfiltered
    · exact hkept.trans he
    · -- only entries that are not pinned age
      show s.switch.tick.entry mac = some e
      rw [hfiltered, he]
      exact Option.filter_some_pos (by rw [hstatic]; rfl)

/-- Every step of every run keeps the sessions apart. -/
theorem switch_isolates {trustedPort : PortID} {tap : Nat} {actions : List (Action PortID)}
    {action : Action PortID} (hrun : run step (new trustedPort tap) actions = some s)
    (hstep : s.step action = some s') : s.Isolates action s' := by
  have hsound : s.Sound :=
    run_preserves (fun _ _ _ h hstep => Sound.step h hstep) (new_sound trustedPort tap) hrun
  refine
    { static_kept := fun _ _ he hstatic => hsound.static_kept hstep he hstatic
      frame := ?_
      named := ?_ }
  · rintro origin raw now rfl
    obtain ⟨harrives, rfl⟩ := of_guarded hstep
    exact hsound.frame_isolated harrives raw now
  · intro mac e he
    obtain ⟨p, -, hport⟩ := (hsound.step hstep).serves.entry_port he
    rw [hport]
    rfl

/-- The session with a number, whose MAC ends in it. -/
def client (n : UInt8) : Registered Nat := ⟨n.toNat, n.toNat, ⟨[2, 0, 0, 0, 0, n], rfl⟩⟩

/-- A frame between two of the sessions. -/
def between (dst src : UInt8) : Bytes := [2, 0, 0, 0, 0, dst, 2, 0, 0, 0, 0, src, 8, 0]

/-- The TAP device uses the MAC of a session as source, and the session still gets its frames. -/
theorem client_frame_isolated :
    ∃ s s', run step (new 0 0) [.create (client 1), .create (client 2),
        .frame .tap (between 1 2) 0] = some s ∧
      s.step (.frame (.session (client 1)) (between 2 1) 0) = some s' ∧ s'.delivered = [2] ∧
      s.Isolates (.frame (.session (client 1)) (between 2 1) 0) s' := by
  obtain ⟨s, hrun, hnext⟩ : ∃ s, run step (new 0 0) [.create (client 1), .create (client 2),
      .frame .tap (between 1 2) 0] = some s ∧
      ((s.step (.frame (.session (client 1)) (between 2 1) 0)).any fun s' =>
        decide (s'.delivered = [2])) = true := exists_run_of_decide (by decide +kernel)
  obtain ⟨s', hstep, hdelivered⟩ := exists_some_of_decide hnext
  exact ⟨s, s', hrun, hstep, hdelivered, switch_isolates hrun hstep⟩

end Net

end TlsVpn.Server
