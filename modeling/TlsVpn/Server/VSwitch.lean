import TlsVpn.Lib.Bytes
import TlsVpn.Lib.Keyed

/-!
# The switch of the server

The server connects its sessions and its own TAP device by a learning switch. The MAC of a session
is pinned to the port of the session when it is created, and the frames of a session are only
compared with that MAC; the TAP port learns. A frame for a known MAC goes to the port of its entry,
and every other frame to all ports but its own, within a budget of the port.

`Serves` is what holds of a switch between the calls of the server: every session has its entry, and
every other entry is one of the TAP port. Each operation has a lemma that keeps it.
-/

namespace TlsVpn.Server

open Lib Function List

/-! ## Frames -/

/-- An address of six bytes. -/
def MacKey := { bytes : Bytes // bytes.length = 6 }
  deriving DecidableEq

namespace MacKey

/-- No address. -/
def zero : MacKey := ⟨List.replicate 6 0, rfl⟩

/-- The group bit is not set. -/
def IsUnicast (mac : MacKey) : Prop := byteAt mac.1 0 &&& 1 ≠ 1

instance (mac : MacKey) : Decidable mac.IsUnicast := inferInstanceAs (Decidable (_ ≠ _))

end MacKey

/-- A frame with an Ethernet header. -/
structure EthernetFrame where
  bytes : Bytes
  header : 14 ≤ bytes.length

namespace EthernetFrame

/-- None if the header is not complete. -/
def parse (raw : Bytes) : Option EthernetFrame :=
  if h : 14 ≤ raw.length then some ⟨raw, h⟩ else none

/-- The destination comes first. -/
def dstMAC (f : EthernetFrame) : MacKey := ⟨f.bytes.take 6, by simp; have := f.header; omega⟩

/-- The source comes second. -/
def srcMAC (f : EthernetFrame) : MacKey :=
  ⟨(f.bytes.drop 6).take 6, by simp; have := f.header; omega⟩

end EthernetFrame

/-! ## Tables -/

/-- The tables are split by address. -/
def shardCount : Nat := 16

/-- The shard of an address: its FNV hash. -/
def getShardIdx (mac : MacKey) : Fin shardCount :=
  let hash : UInt32 := mac.1.foldl (fun hash b => (hash * 16777619) ^^^ b.toUInt32) 2166136261
  ⟨hash.toNat % shardCount, Nat.mod_lt _ (by decide)⟩

/-- An entry of the table. The port is missing if none was registered under the name. -/
structure MacEntry (PortID : Type) where
  portID : PortID
  port : Option Nat
  updatedTick : Nat
  static : Bool
  deriving DecidableEq, Repr

/-- A bucket of tokens, counted in billionths, and the time in nanoseconds at which it was filled.
-/
structure FloodBudget where
  tokens : Nat
  last : Nat
  deriving DecidableEq, Repr

/-- The bucket at a time, filled up for the time since. -/
def FloodBudget.fill (b : FloodBudget) (burst rate now : Nat) : FloodBudget :=
  if b.last < now then
    ⟨min (burst * 1000000000) (b.tokens + (now - b.last) * rate), now⟩
  else b

/-- The switch. Ports are the numbers of the objects that frames are written to. -/
structure VSwitch (PortID : Type) where
  ports : List (PortID × Nat)
  shards : Fin shardCount → MacKey → Option (MacEntry PortID)
  coarseSec : Nat
  purgeTicks : Nat
  trustedPort : PortID
  floodBudgets : PortID → Option FloodBudget
  floodBurst : Nat
  floodRatePerSec : Nat
  spoofDrops : Nat
  floodDrops : Nat

namespace VSwitch

variable {PortID : Type} {vs vs' : VSwitch PortID} {mac : MacKey}

/-- A switch without ports. -/
def new (trustedPort : PortID) : VSwitch PortID :=
  { ports := []
    shards := fun _ _ => none
    coarseSec := 1
    purgeTicks := 0
    trustedPort
    floodBudgets := fun _ => none
    floodBurst := 8192
    floodRatePerSec := 16384
    spoofDrops := 0
    floodDrops := 0 }

/-- The entry of an address. -/
def entry (vs : VSwitch PortID) (mac : MacKey) : Option (MacEntry PortID) :=
  vs.shards (getShardIdx mac) mac

/-- Writes the entry of an address. -/
def setEntry (vs : VSwitch PortID) (mac : MacKey) (e : MacEntry PortID) : VSwitch PortID :=
  { vs with
    shards := update vs.shards (getShardIdx mac)
      (update (vs.shards (getShardIdx mac)) mac (some e)) }

/-- Deletes the entries that a condition holds of, shard by shard. -/
def deleteEntries (vs : VSwitch PortID) (p : MacEntry PortID → Bool) : VSwitch PortID :=
  { vs with shards := fun i mac => (vs.shards i mac).filter fun e => !p e }

/-- The greatest age of an entry that is not pinned. -/
def maxAgeSec : Nat := 1800

/-- Old entries are deleted, pinned ones stay. -/
def purgeExpiredMACsAt (vs : VSwitch PortID) (now : Nat) : VSwitch PortID :=
  vs.deleteEntries fun e => !e.static && decide (now - e.updatedTick > maxAgeSec)

/-- A second of the clock. Every 300 seconds old entries are deleted. -/
def tick (vs : VSwitch PortID) : VSwitch PortID :=
  let next := { vs with coarseSec := vs.coarseSec + 1, purgeTicks := vs.purgeTicks + 1 }
  if next.purgeTicks < 300 then next
  else { next with purgeTicks := 0 }.purgeExpiredMACsAt next.coarseSec

theorem entry_set_entry (e : MacEntry PortID) (mac' : MacKey) :
    (vs.setEntry mac e).entry mac' = if mac' = mac then some e else vs.entry mac' := by
  unfold entry setEntry
  by_cases hmac : mac' = mac
  · rw [if_pos hmac, hmac]
    simp
  · rw [if_neg hmac]
    by_cases hshard : getShardIdx mac' = getShardIdx mac
    · simp [hshard, hmac]
    · simp [hshard]

theorem entry_tick (vs : VSwitch PortID) (mac : MacKey) :
    vs.tick.entry mac = vs.entry mac ∨
      vs.tick.entry mac = (vs.entry mac).filter fun e =>
        !(!e.static && decide (vs.coarseSec + 1 - e.updatedTick > maxAgeSec)) := by
  unfold tick
  dsimp only
  split
  · exact .inl rfl
  · exact .inr rfl

theorem tick_ports (vs : VSwitch PortID) :
    vs.tick.ports = vs.ports ∧ vs.tick.trustedPort = vs.trustedPort := by
  unfold tick
  dsimp only
  split
  · exact ⟨rfl, rfl⟩
  · exact ⟨rfl, rfl⟩

/-- The tables that forwarding reads: it changes only the budgets and the counters. -/
structure SameTables (vs vs' : VSwitch PortID) : Prop where
  ports : vs'.ports = vs.ports
  trusted : vs'.trustedPort = vs.trustedPort
  shards : vs'.shards = vs.shards

theorem SameTables.refl (vs : VSwitch PortID) : SameTables vs vs := ⟨rfl, rfl, rfl⟩

theorem SameTables.entry (h : SameTables vs vs') : vs'.entry mac = vs.entry mac := by
  unfold VSwitch.entry
  rw [h.shards]

/-! ## Operations -/

variable [DecidableEq PortID]

/-- The port registered under a name. -/
def port (vs : VSwitch PortID) (id : PortID) : Option Nat :=
  (findKey Prod.fst vs.ports id).map Prod.snd

/-- Replaces a port of the same name. -/
def addPort (vs : VSwitch PortID) (id : PortID) (p : Nat) : VSwitch PortID :=
  { vs with ports := (id, p) :: vs.ports.filter fun entry => entry.1 ≠ id }

/-- Pins an address to a port. -/
def addStaticMAC (vs : VSwitch PortID) (id : PortID) (mac : MacKey) : VSwitch PortID :=
  if mac = .zero then vs
  else vs.setEntry mac { portID := id, port := vs.port id, updatedTick := 0, static := true }

/-- The entries of the port go with it. -/
def removePort (vs : VSwitch PortID) (id : PortID) : VSwitch PortID :=
  { vs with
    ports := vs.ports.filter fun entry => entry.1 ≠ id
    floodBudgets := update vs.floodBudgets id none }.deleteEntries
      fun e => decide (e.portID = id)

/-- Takes a token. A port without a bucket gets a full one. -/
def allowFlood (vs : VSwitch PortID) (srcPortID : PortID) (now : Nat) : VSwitch PortID × Bool :=
  let store (b : FloodBudget) : VSwitch PortID :=
    { vs with floodBudgets := update vs.floodBudgets srcPortID (some b) }
  match vs.floodBudgets srcPortID with
  | none => (store ⟨(vs.floodBurst - 1) * 1000000000, now⟩, true)
  | some b =>
    let filled := b.fill vs.floodBurst vs.floodRatePerSec now
    if filled.tokens < 1000000000 then (store filled, false)
    else (store { filled with tokens := filled.tokens - 1000000000 }, true)

/-- The ports but one. -/
def others (vs : VSwitch PortID) (id : PortID) : List Nat :=
  (vs.ports.filter fun entry => entry.1 ≠ id).map Prod.snd

/-- Writes a frame to all ports but one. The result has the ports written to. -/
def flood (vs : VSwitch PortID) (excludePortID : PortID) (now : Nat) : VSwitch PortID × List Nat :=
  if excludePortID = vs.trustedPort then (vs, vs.others excludePortID)
  else
    match vs.allowFlood excludePortID now with
    | (vs, true) => (vs, vs.others excludePortID)
    | (vs, false) => ({ vs with floodDrops := vs.floodDrops + 1 }, [])

/-- The update of an entry under the lock of its shard, none if the frame is dropped. A pinned entry
of another port stays as it is. -/
def learn (vs : VSwitch PortID) (srcPortID : PortID) (mac : MacKey) : Option (VSwitch PortID) :=
  match vs.entry mac with
  | some current =>
    if current.static = true ∧ current.portID ≠ srcPortID then
      if srcPortID ≠ vs.trustedPort then none else some vs
    else
      some (vs.setEntry mac { current with
        portID := srcPortID, port := vs.port srcPortID, updatedTick := vs.coarseSec })
  | none => some (vs.setEntry mac ⟨srcPortID, vs.port srcPortID, vs.coarseSec, false⟩)

/-- The first half of `processFrame`: the source of the frame is compared with the registered MAC,
or learned. The result is none if the frame is dropped. -/
def checkSource (vs : VSwitch PortID) (validateMAC : PortID → MacKey → Bool) (srcPortID : PortID)
    (registeredMAC : Option MacKey) (srcMAC : MacKey) : Option (VSwitch PortID) :=
  match registeredMAC.filter (· ≠ .zero) with
  | some registered => if srcMAC ≠ registered then none else some vs
  | none =>
    let found := vs.entry srcMAC
    let staticElsewhere := found.any fun e => e.static && decide (e.portID ≠ srcPortID)
    let needUpdate := found.all fun e =>
      !e.static && (decide (e.portID ≠ srcPortID) || decide (vs.coarseSec - e.updatedTick > 5))
    if staticElsewhere = true then
      if srcPortID ≠ vs.trustedPort then none else some vs
    else if needUpdate = true then
      if validateMAC srcPortID srcMAC = false then none else vs.learn srcPortID srcMAC
    else some vs

/-- The second half of `processFrame`. An entry without a port is looked up by its name. -/
def forward (vs : VSwitch PortID) (srcPortID : PortID) (dstMAC : MacKey) (now : Nat) :
    VSwitch PortID × List Nat :=
  match if dstMAC.IsUnicast then vs.entry dstMAC else none with
  | some e =>
    if e.portID = srcPortID then (vs, [])
    else
      match e.port with
      | some p => (vs, [p])
      | none => (vs, (vs.port e.portID).toList)
  | none => vs.flood srcPortID now

/-- A frame without a header goes nowhere, and a false source is counted. -/
def processFrame (vs : VSwitch PortID) (validateMAC : PortID → MacKey → Bool) (srcPortID : PortID)
    (raw : Bytes) (registeredMAC : Option MacKey) (now : Nat) : VSwitch PortID × List Nat :=
  match EthernetFrame.parse raw with
  | none => (vs, [])
  | some f =>
    match vs.checkSource validateMAC srcPortID registeredMAC f.srcMAC with
    | none => ({ vs with spoofDrops := vs.spoofDrops + 1 }, [])
    | some vs => vs.forward srcPortID f.dstMAC now

theorem add_static_trusted (id : PortID) (mac : MacKey) :
    (vs.addStaticMAC id mac).trustedPort = vs.trustedPort := by
  unfold addStaticMAC
  split
  · rfl
  · rfl

theorem allow_flood_same (vs : VSwitch PortID) (src : PortID) (now : Nat) :
    SameTables vs (vs.allowFlood src now).1 := by
  unfold allowFlood
  dsimp only
  split
  · exact ⟨rfl, rfl, rfl⟩
  · split
    · exact ⟨rfl, rfl, rfl⟩
    · exact ⟨rfl, rfl, rfl⟩

/-- A port may flood: it is trusted or has a token left. -/
def MayFlood (vs : VSwitch PortID) (src : PortID) (now : Nat) : Prop :=
  src = vs.trustedPort ∨ (vs.allowFlood src now).2 = true

instance (vs : VSwitch PortID) (src : PortID) (now : Nat) : Decidable (vs.MayFlood src now) :=
  inferInstanceAs (Decidable (_ ∨ _))

theorem SameTables.others (h : SameTables vs vs') (src : PortID) :
    vs'.others src = vs.others src := by
  unfold VSwitch.others
  rw [h.ports]

theorem flood_same (src : PortID) (now : Nat) : SameTables vs (vs.flood src now).1 := by
  have hsame := allow_flood_same vs src now
  unfold flood
  split
  · exact .refl vs
  · split
    · rename_i hallow
      rw [hallow] at hsame
      exact hsame
    · rename_i hallow
      rw [hallow] at hsame
      exact ⟨hsame.ports, hsame.trusted, hsame.shards⟩

theorem flood_of_may (src : PortID) (now : Nat) (h : vs.MayFlood src now) :
    (vs.flood src now).2 = vs.others src := by
  have hsame := allow_flood_same vs src now
  unfold flood
  split
  · rfl
  · rename_i htrusted
    have hallowed := h.resolve_left htrusted
    split
    · rename_i hallow
      rw [hallow] at hsame
      exact hsame.others src
    · rename_i hallow
      rw [hallow] at hallowed
      cases hallowed

theorem forward_same (vs : VSwitch PortID) (src : PortID) (dst : MacKey) (now : Nat) :
    SameTables vs (vs.forward src dst now).1 := by
  unfold forward
  split
  · split
    · exact .refl vs
    · split
      · exact .refl vs
      · exact .refl vs
  · exact flood_same src now

theorem forward_unknown {src : PortID} {dst : MacKey} {now : Nat}
    (hunknown : dst.IsUnicast → vs.entry dst = none) (hmay : vs.MayFlood src now) :
    (vs.forward src dst now).2 = vs.others src := by
  unfold forward
  have hnone : (if dst.IsUnicast then vs.entry dst else none) = none := by
    split
    · rename_i hunicast
      exact hunknown hunicast
    · rfl
  rw [hnone]
  exact flood_of_may src now hmay

theorem check_registered {validateMAC : PortID → MacKey → Bool} {src : PortID}
    {registered mac : MacKey} (hzero : registered ≠ .zero) :
    vs.checkSource validateMAC src (some registered) mac =
      if mac ≠ registered then none else some vs := by
  have hkept : (some registered).filter (· ≠ .zero) = some registered :=
    Option.filter_some_pos (decide_eq_true hzero)
  unfold checkSource
  rw [hkept]

section

variable {validateMAC : PortID → MacKey → Bool} {src : PortID} {raw : Bytes}
  {registeredMAC : Option MacKey} {now : Nat} {f : EthernetFrame}

theorem process_short (h : EthernetFrame.parse raw = none) :
    vs.processFrame validateMAC src raw registeredMAC now = (vs, []) := by
  rw [processFrame, h]

theorem process_dropped (h : EthernetFrame.parse raw = some f)
    (hcheck : vs.checkSource validateMAC src registeredMAC f.srcMAC = none) :
    vs.processFrame validateMAC src raw registeredMAC now =
      ({ vs with spoofDrops := vs.spoofDrops + 1 }, []) := by
  rw [processFrame, h]
  dsimp only
  rw [hcheck]

theorem process_forwarded (h : EthernetFrame.parse raw = some f)
    (hcheck : vs.checkSource validateMAC src registeredMAC f.srcMAC = some vs') :
    vs.processFrame validateMAC src raw registeredMAC now = vs'.forward src f.dstMAC now := by
  rw [processFrame, h]
  dsimp only
  rw [hcheck]

end

end VSwitch

/-! ## A switch in service -/

/-- A session of the switch: its port and its MAC. -/
structure Registered (PortID : Type) where
  id : PortID
  port : Nat
  mac : MacKey
  deriving DecidableEq

namespace VSwitch

variable {PortID : Type} {vs vs' : VSwitch PortID} {tap : Nat}
  {sessions : List (Registered PortID)}

/-- The entry that pins the MAC of a session. -/
def pinned (r : Registered PortID) : MacEntry PortID :=
  { portID := r.id, port := some r.port, updatedTick := 0, static := true }

/-- The ports are those of the TAP device and of the sessions, every session has its entry, and
every other entry is one that the TAP port has learned. -/
structure Serves (vs : VSwitch PortID) (tap : Nat) (sessions : List (Registered PortID)) :
    Prop where
  ports : vs.ports.Perm ((vs.trustedPort, tap) :: sessions.map fun r => (r.id, r.port))
  ids : (vs.trustedPort :: sessions.map Registered.id).Nodup
  session_entry : ∀ r ∈ sessions, vs.entry r.mac = some (pinned r)
  other_entry : ∀ mac e, vs.entry mac = some e →
    (∃ r ∈ sessions, r.mac = mac) ∨ e.static = false ∧ e.portID = vs.trustedPort ∧ e.port = some tap

/-- What the TAP port can do to the tables with a source address. -/
inductive Learns (vs : VSwitch PortID) (tap : Nat) (mac : MacKey) : VSwitch PortID → Prop
  | kept : Learns vs tap mac vs
  | learned (updatedTick : Nat) (hdynamic : ∀ e, vs.entry mac = some e → e.static = false) :
      Learns vs tap mac (vs.setEntry mac ⟨vs.trustedPort, some tap, updatedTick, false⟩)

/-- A pinned entry survives every frame of the TAP port. -/
theorem Learns.static_kept {mac mac' : MacKey} {e : MacEntry PortID} (h : Learns vs tap mac vs')
    (he : vs.entry mac' = some e) (hstatic : e.static = true) : vs'.entry mac' = some e := by
  cases h with
  | kept => exact he
  | learned updatedTick hdynamic =>
    rw [entry_set_entry, if_neg]
    · exact he
    · rintro rfl
      rw [hdynamic e he] at hstatic
      cases hstatic

theorem Learns.ports {mac : MacKey} (h : Learns vs tap mac vs') :
    vs'.ports = vs.ports ∧ vs'.trustedPort = vs.trustedPort := by
  cases h with
  | kept | learned => exact ⟨rfl, rfl⟩

namespace Serves

theorem keys (h : vs.Serves tap sessions) : (vs.ports.map Prod.fst).Nodup := by
  have hperm := h.ports.map Prod.fst
  rw [map_cons, map_map] at hperm
  exact hperm.nodup_iff.mpr h.ids

/-- Sessions have different MACs. -/
theorem mac_inj (h : vs.Serves tap sessions) {r r' : Registered PortID} (hr : r ∈ sessions)
    (hr' : r' ∈ sessions) (hmac : r.mac = r'.mac) : r = r' := by
  have hentry := h.session_entry r hr
  rw [hmac, h.session_entry r' hr'] at hentry
  have hid : r'.id = r.id := congrArg MacEntry.portID (Option.some.inj hentry)
  exact inj_on_of_nodup_map h.ids.of_cons hr hr' hid.symm

theorem of_same (h : vs.Serves tap sessions) (hsame : SameTables vs vs') :
    vs'.Serves tap sessions :=
  { ports := by rw [hsame.ports, hsame.trusted]; exact h.ports
    ids := by rw [hsame.trusted]; exact h.ids
    session_entry := fun r hr => hsame.entry.trans (h.session_entry r hr)
    other_entry := fun mac e he => by
      rw [hsame.trusted]
      exact h.other_entry mac e (hsame.entry.symm.trans he) }

theorem tick (h : vs.Serves tap sessions) : vs.tick.Serves tap sessions := by
  obtain ⟨hports, htrusted⟩ := tick_ports vs
  refine
    { ports := by rw [hports, htrusted]; exact h.ports
      ids := by rw [htrusted]; exact h.ids
      session_entry := ?_
      other_entry := ?_ }
  · intro r hr
    rcases entry_tick vs r.mac with hkept | hfiltered
    · exact hkept.trans (h.session_entry r hr)
    · rw [hfiltered, h.session_entry r hr]
      rfl
  · intro mac e he
    rw [htrusted]
    rcases entry_tick vs mac with hkept | hfiltered
    · exact h.other_entry mac e (hkept.symm.trans he)
    · exact h.other_entry mac e (Option.filter_eq_some_iff.mp (hfiltered.symm.trans he)).1

theorem learns (h : vs.Serves tap sessions) {mac : MacKey} (hlearn : Learns vs tap mac vs') :
    vs'.Serves tap sessions := by
  cases hlearn with
  | kept => exact h
  | learned updatedTick hdynamic =>
    have hother : ∀ r ∈ sessions, r.mac ≠ mac := by
      intro r hr heq
      have hstatic := hdynamic _ (heq ▸ h.session_entry r hr)
      cases hstatic
    refine
      { ports := h.ports
        ids := h.ids
        session_entry := ?_
        other_entry := ?_ }
    · intro r hr
      rw [entry_set_entry, if_neg (hother r hr)]
      exact h.session_entry r hr
    · intro mac' e he
      rw [entry_set_entry] at he
      split at he
      · cases he
        exact .inr ⟨rfl, rfl, rfl⟩
      · exact h.other_entry mac' e he

variable [DecidableEq PortID]

theorem port_eq (h : vs.Serves tap sessions) {id : PortID} {p : Nat} :
    vs.port id = some p ↔ (id, p) ∈ vs.ports := by
  unfold VSwitch.port
  rw [Option.map_eq_some_iff]
  constructor
  · rintro ⟨⟨id', p'⟩, hfound, rfl⟩
    obtain ⟨hmem, rfl⟩ := mem_of_find_key hfound
    exact hmem
  · intro hmem
    exact ⟨(id, p), (find_key_eq_some h.keys).mpr ⟨hmem, rfl⟩, rfl⟩

theorem trusted_port (h : vs.Serves tap sessions) : vs.port vs.trustedPort = some tap :=
  h.port_eq.mpr (h.ports.mem_iff.mpr mem_cons_self)

theorem session_port (h : vs.Serves tap sessions) {r : Registered PortID} (hr : r ∈ sessions) :
    vs.port r.id = some r.port :=
  h.port_eq.mpr (h.ports.mem_iff.mpr (mem_cons_of_mem _ (mem_map.mpr ⟨r, hr, rfl⟩)))

/-- Every entry names a port, and has it. -/
theorem entry_port (h : vs.Serves tap sessions) {mac : MacKey} {e : MacEntry PortID}
    (he : vs.entry mac = some e) : ∃ p, e.port = some p ∧ vs.port e.portID = some p := by
  rcases h.other_entry mac e he with ⟨r, hr, rfl⟩ | ⟨-, hid, hport⟩
  · cases he.symm.trans (h.session_entry r hr)
    exact ⟨r.port, rfl, h.session_port hr⟩
  · exact ⟨tap, hport, by rw [hid]; exact h.trusted_port⟩

/-! ### The calls of the server -/

theorem new (trustedPort : PortID) :
    ((VSwitch.new trustedPort).addPort trustedPort tap).Serves tap [] :=
  { ports := by simp [addPort, VSwitch.new]
    ids := by simp
    session_entry := by nofun
    other_entry := by nofun }

/-- A session is created with a MAC that no other session has. -/
theorem create (h : vs.Serves tap sessions) (r : Registered PortID)
    (hid : r.id ∉ vs.trustedPort :: sessions.map Registered.id) (hzero : r.mac ≠ .zero)
    (hmac : ∀ r' ∈ sessions, r'.mac ≠ r.mac) :
    ((vs.addPort r.id r.port).addStaticMAC r.id r.mac).Serves tap (r :: sessions) := by
  have hkept : vs.ports.filter (fun entry => entry.1 ≠ r.id) = vs.ports := by
    refine filter_eq_self.mpr fun entry hmem => decide_eq_true fun heq => hid ?_
    have hkey := (h.ports.map Prod.fst).mem_iff.mp (mem_map_of_mem hmem)
    rwa [map_cons, map_map, heq] at hkey
  have hports : (vs.addPort r.id r.port).ports = (r.id, r.port) :: vs.ports := by
    rw [addPort, hkept]
  have hport : (vs.addPort r.id r.port).port r.id = some r.port := by
    unfold VSwitch.port findKey
    rw [hports]
    simp
  have hset : (vs.addPort r.id r.port).addStaticMAC r.id r.mac =
      (vs.addPort r.id r.port).setEntry r.mac (pinned r) := by
    unfold addStaticMAC
    rw [if_neg hzero, hport]
    rfl
  have hentry : ∀ mac, ((vs.addPort r.id r.port).addStaticMAC r.id r.mac).entry mac =
      if mac = r.mac then some (pinned r) else vs.entry mac := by
    intro mac
    rw [hset, entry_set_entry]
    rfl
  refine
    { ports := ?_
      ids := ?_
      session_entry := ?_
      other_entry := ?_ }
  · rw [hset]
    show (vs.addPort r.id r.port).ports.Perm ((vs.trustedPort, tap) :: _)
    rw [hports]
    exact (h.ports.cons _).trans (List.Perm.swap _ _ _)
  · rw [hset]
    show (vs.trustedPort :: r.id :: sessions.map Registered.id).Nodup
    exact (List.Perm.swap _ _ _).nodup_iff.mp (nodup_cons.mpr ⟨hid, h.ids⟩)
  · intro r' hr'
    rw [hentry]
    rcases mem_cons.mp hr' with rfl | hold
    · rw [if_pos rfl]
    · rw [if_neg (hmac r' hold)]
      exact h.session_entry r' hold
  · intro mac e he
    rw [hentry] at he
    split at he
    · rename_i hsame
      exact .inl ⟨r, mem_cons_self, hsame.symm⟩
    · rcases h.other_entry mac e he with ⟨r', hr', heq⟩ | hdyn
      · exact .inl ⟨r', mem_cons_of_mem _ hr', heq⟩
      · rw [hset]
        exact .inr hdyn

theorem removePort (h : vs.Serves tap sessions) {id : PortID} (hid : id ≠ vs.trustedPort) :
    (vs.removePort id).Serves tap (sessions.filter fun r => r.id ≠ id) := by
  have hentry : ∀ mac, (vs.removePort id).entry mac =
      (vs.entry mac).filter fun e => !decide (e.portID = id) := fun _ => rfl
  refine
    { ports := ?_
      ids := ?_
      session_entry := ?_
      other_entry := ?_ }
  · show (vs.ports.filter fun entry => entry.1 ≠ id).Perm ((vs.trustedPort, tap) :: _)
    refine (h.ports.filter _).trans ?_
    rw [filter_cons_of_pos (by simpa using hid.symm), filter_map]
    exact List.Perm.refl _
  · exact h.ids.sublist ((filter_sublist.map Registered.id).cons_cons _)
  · intro r hr
    obtain ⟨hmem, hne⟩ := mem_filter.mp hr
    rw [hentry, h.session_entry r hmem]
    exact Option.filter_some_pos (by
      rw [decide_eq_false (show (pinned r).portID ≠ id from of_decide_eq_true hne)]
      rfl)
  · intro mac e he
    rw [hentry, Option.filter_eq_some_iff] at he
    rcases h.other_entry mac e he.1 with ⟨r, hr, rfl⟩ | hdyn
    · cases he.1.symm.trans (h.session_entry r hr)
      have hne : r.id ≠ id := fun heq => by simp [pinned, heq] at he
      exact .inl ⟨r, mem_filter.mpr ⟨hr, decide_eq_true hne⟩, rfl⟩
    · exact .inr hdyn

/-! ### Frames -/

theorem check_trusted (h : vs.Serves tap sessions) {validateMAC : PortID → MacKey → Bool}
    (hvalid : ∀ mac, validateMAC vs.trustedPort mac = true) (mac : MacKey) :
    ∃ vs', vs.checkSource validateMAC vs.trustedPort none mac = some vs' ∧
      Learns vs tap mac vs' := by
  have htap := h.trusted_port
  unfold checkSource
  rw [Option.filter_none]
  dsimp only
  cases he : vs.entry mac with
  | none =>
    refine ⟨vs.setEntry mac ⟨vs.trustedPort, some tap, vs.coarseSec, false⟩, ?_,
      .learned vs.coarseSec (by rw [he]; nofun)⟩
    simp [hvalid, learn, he, htap]
  | some e =>
    rcases h.other_entry mac e he with ⟨r, hr, rfl⟩ | ⟨hstatic, hid, hport⟩
    · -- the MAC of a session: the frame passes and the entry stays
      cases he.symm.trans (h.session_entry r hr)
      have hne : r.id ≠ vs.trustedPort := fun heq =>
        (nodup_cons.mp h.ids).1 (mem_map.mpr ⟨r, hr, heq⟩)
      exact ⟨vs, by simp [pinned, hne], .kept⟩
    · by_cases hold : vs.coarseSec - e.updatedTick > 5
      · refine ⟨vs.setEntry mac ⟨vs.trustedPort, some tap, vs.coarseSec, false⟩, ?_,
          .learned vs.coarseSec (by rw [he]; rintro _ ⟨⟩; exact hstatic)⟩
        simp [hvalid, learn, he, htap, hstatic, hid, hold]
      · exact ⟨vs, by simp [hstatic, hid, hold], .kept⟩

/-- A frame leaves the tables in order if the check of its source at most learns from it. -/
theorem processFrame (h : vs.Serves tap sessions) {validateMAC : PortID → MacKey → Bool}
    {src : PortID} {registeredMAC : Option MacKey} (raw : Bytes) (now : Nat)
    (hcheck : ∀ mac vs', vs.checkSource validateMAC src registeredMAC mac = some vs' →
      Learns vs tap mac vs') :
    (vs.processFrame validateMAC src raw registeredMAC now).1.Serves tap sessions ∧
      (vs.processFrame validateMAC src raw registeredMAC now).1.trustedPort = vs.trustedPort := by
  cases hparse : EthernetFrame.parse raw with
  | none =>
    rw [process_short hparse]
    exact ⟨h, rfl⟩
  | some f =>
    cases hsource : vs.checkSource validateMAC src registeredMAC f.srcMAC with
    | none =>
      rw [process_dropped hparse hsource]
      exact ⟨h.of_same ⟨rfl, rfl, rfl⟩, rfl⟩
    | some vs' =>
      have hlearns := hcheck f.srcMAC vs' hsource
      have hsame := forward_same vs' src f.dstMAC now
      rw [process_forwarded hparse hsource]
      exact ⟨(h.learns hlearns).of_same hsame, hsame.trusted.trans hlearns.ports.2⟩

/-- Where a frame goes that has passed the check of its source. -/
theorem forward_known (h : vs.Serves tap sessions) (src : PortID) {dst : MacKey} (now : Nat)
    {e : MacEntry PortID} (hunicast : dst.IsUnicast) (he : vs.entry dst = some e) :
    (vs.forward src dst now).2 = if e.portID = src then [] else (vs.port e.portID).toList := by
  obtain ⟨p, hport, hname⟩ := h.entry_port he
  unfold forward
  rw [if_pos hunicast, he, hname]
  dsimp only
  split
  · rfl
  · rw [hport]
    rfl

end Serves

end VSwitch

end TlsVpn.Server
