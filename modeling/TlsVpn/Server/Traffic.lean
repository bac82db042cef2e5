import TlsVpn.Lib.Sums
import TlsVpn.Server.Sessions

/-!
# The traffic of a client

Translation of `Server.sampleClientTraffic` and of what `destroySessionLocked` does for it while
collection is enabled. A session counts its bytes; a sample reports what the counters of a client's
sessions have gained, and forgets the sessions that were destroyed before it.

`MeteredServer.traffic_conserved` says that no byte is reported twice, and that none is lost if no
session counts a byte after it has been forgotten. A connection does so when it flushes its counters
after its session was destroyed (`late_flush_lost`).
-/

namespace TlsVpn.Server

open Lib Session Function List

/-- The counters `RxBytes` and `TxBytes`. -/
inductive Direction where
  | rx
  | tx
  deriving DecidableEq

/-- A server with its counters. -/
structure MeteredServer (ClientID : Type) where
  server : ServerState ClientID
  /-- The counters of each session. -/
  bytes : Direction → Nat → Nat
  /-- The counters of each session at its last sample. -/
  trafficLast : Nat → Option (Direction → Nat)
  retiredTraffic : List (ClientID × Nat)
  /-- Every session that there has been, with its client. -/
  sessions : List (ClientID × Nat)
  /-- The bytes of each session that samples have reported. -/
  credited : Direction → Nat → Nat
  /-- The bytes that samples have reported for each client. -/
  reported : ClientID → Direction → Nat

/-- A sample that is being taken. -/
structure Sampling (ClientID : Type) where
  out : ClientID → Direction → Nat
  last : Nat → Option (Direction → Nat)
  credited : Direction → Nat → Nat

/-- A critical section, a count or a sample. -/
inductive MeteredAction (ClientID : Type) where
  | server (action : ServerState.Action ClientID)
  | count (ref : Nat) (dir : Direction) (amount : Nat)
  | sample

namespace Sampling

variable {ClientID : Type} [DecidableEq ClientID]

/-- The counters of a session at its last sample, `0` before the first one. -/
def previous (x : Sampling ClientID) (ref : Nat) (dir : Direction) : Nat :=
  (x.last ref).elim 0 fun counters => counters dir

/-- What a counter has gained. -/
def grown (x : Sampling ClientID) (bytes : Direction → Nat → Nat) (ref : Nat) (dir : Direction) :
    Nat :=
  if x.previous ref dir ≤ bytes dir ref then bytes dir ref - x.previous ref dir else 0

/-- The function `add` of the sample. -/
def add (bytes : Direction → Nat → Nat) (x : Sampling ClientID) (r : ClientID × Nat) :
    Sampling ClientID where
  out := update x.out r.1 fun dir => (x.out r.1 dir + x.grown bytes r.2 dir) % 2 ^ 64
  last := update x.last r.2 (some fun dir => bytes dir r.2)
  credited := fun dir =>
    update (x.credited dir) r.2 (x.credited dir r.2 + x.grown bytes r.2 dir)

/-- The body of the loop over the retired sessions. -/
def addRetired (bytes : Direction → Nat → Nat) (x : Sampling ClientID) (r : ClientID × Nat) :
    Sampling ClientID :=
  { x.add bytes r with last := update (x.add bytes r).last r.2 none }

end Sampling

namespace MeteredServer

variable {ClientID : Type} [DecidableEq ClientID]

/-- Nothing has been counted. -/
def new (server : ServerState ClientID) : MeteredServer ClientID :=
  { server
    bytes := fun _ _ => 0
    trafficLast := fun _ => none
    retiredTraffic := []
    sessions := []
    credited := fun _ _ => 0
    reported := fun _ _ => 0 }

/-- A session with its client. -/
def entry (c : ClientSession ClientID) : ClientID × Nat := (c.clientID, c.ref)

/-- The sessions of the first list that the second one has not. -/
def without (first second : List (ClientSession ClientID)) : List (ClientSession ClientID) :=
  first.filter fun c => second.all fun c' => c'.ref ≠ c.ref

/-- A critical section. `destroySessionLocked`, which alone takes sessions away, retires each of
them. -/
def advance (s : MeteredServer ClientID) (server : ServerState ClientID) :
    MeteredServer ClientID :=
  { s with
    server
    retiredTraffic := s.retiredTraffic ++
      (without s.server.activeClients server.activeClients).map entry
    sessions := s.sessions ++ (without server.activeClients s.server.activeClients).map entry }

/-- `sampleClientTraffic`: the deltas, and the tables afterwards. -/
def sampleClientTraffic (s : MeteredServer ClientID) : Sampling ClientID :=
  s.retiredTraffic.foldl (Sampling.addRetired s.bytes)
    ((s.server.activeClients.map entry).foldl (Sampling.add s.bytes)
      ⟨fun _ _ => 0, s.trafficLast, s.credited⟩)

/-- The bytes that the sessions of a client have counted. -/
def counted (s : MeteredServer ClientID) (id : ClientID) (dir : Direction) : Nat :=
  sumKey Prod.fst Prod.snd s.sessions (s.bytes dir) id

/-- A session counts even when it is retired. -/
def step (uuid : MacKey → String → ClientID) (s : MeteredServer ClientID) :
    MeteredAction ClientID → Option (MeteredServer ClientID)
  | .server action => (s.server.step uuid action).map s.advance
  | .count ref dir amount =>
    if ref ∈ s.sessions.map Prod.snd then
      some { s with
        bytes := update s.bytes dir
          (update (s.bytes dir) ref ((s.bytes dir ref + amount) % 2 ^ 64)) }
    else none
  | .sample =>
    some { s with
      trafficLast := s.sampleClientTraffic.last
      retiredTraffic := []
      credited := s.sampleClientTraffic.credited
      reported := fun id dir => s.reported id dir + s.sampleClientTraffic.out id dir }

/-- The bytes of a client stay below the end of the counters. -/
def Fits (s : MeteredServer ClientID) : MeteredAction ClientID → Prop
  | .count ref dir amount => ∀ p ∈ s.sessions, p.2 = ref → s.counted p.1 dir + amount < 2 ^ 64
  | _ => True

/-- The session is active, or waits for its last sample. -/
def Tracked (s : MeteredServer ClientID) (ref : Nat) : Prop :=
  ref ∈ s.server.activeClients.map ClientSession.ref ∨ ref ∈ s.retiredTraffic.map Prod.snd

/-- No session counts a byte after it has been forgotten. -/
def InTime (s : MeteredServer ClientID) : MeteredAction ClientID → Prop
  | .count ref _ _ => s.Tracked ref
  | _ => True

/-- The action counts bytes. -/
def Counts : MeteredAction ClientID → Prop
  | .count _ _ _ => True
  | _ => False

instance (s : MeteredServer ClientID) : ∀ action, Decidable (s.Fits action)
  | .count _ _ _ => inferInstanceAs (Decidable (∀ p ∈ s.sessions, _ → _))
  | .server _ | .sample => isTrue trivial

instance (s : MeteredServer ClientID) : ∀ action, Decidable (s.InTime action)
  | .count _ _ _ => inferInstanceAs (Decidable (_ ∨ _))
  | .server _ | .sample => isTrue trivial

/-! ## A sample -/

/-- The books of a sample that is being taken. -/
structure Auditing (s : MeteredServer ClientID) (x : Sampling ClientID) : Prop where
  bounded : ∀ dir ref, x.credited dir ref ≤ s.bytes dir ref
  balanced : ∀ id dir, s.reported id dir + x.out id dir =
    sumKey Prod.fst Prod.snd s.sessions (x.credited dir) id

variable {uuid : MacKey → String → ClientID} {s s' : MeteredServer ClientID}
  {x : Sampling ClientID} {r : ClientID × Nat}

/-- A session whose baseline is what has been reported of it is reported in full. -/
theorem Auditing.add (h : s.Auditing x) (hkeys : (s.sessions.map Prod.snd).Nodup)
    (hsmall : ∀ id dir, s.counted id dir < 2 ^ 64) (hr : r ∈ s.sessions)
    (hbase : ∀ dir, x.previous r.2 dir = x.credited dir r.2) :
    s.Auditing (x.add s.bytes r) ∧ ∀ dir, (x.add s.bytes r).credited dir r.2 = s.bytes dir r.2 := by
  have hgrown : ∀ dir, x.credited dir r.2 + x.grown s.bytes r.2 dir = s.bytes dir r.2 := by
    intro dir
    have hle := h.bounded dir r.2
    rw [Sampling.grown, hbase, if_pos hle]
    omega
  have hbounded : ∀ dir ref, (x.add s.bytes r).credited dir ref ≤ s.bytes dir ref := by
    intro dir ref
    show update (x.credited dir) r.2 _ ref ≤ _
    by_cases heq : ref = r.2
    · rw [heq, update_self, hgrown]
    · rw [update_of_ne heq]
      exact h.bounded dir ref
  have htotal : ∀ id dir, sumKey Prod.fst Prod.snd s.sessions ((x.add s.bytes r).credited dir) id =
      s.reported id dir + x.out id dir + if r.1 = id then x.grown s.bytes r.2 dir else 0 := by
    intro id dir
    rw [h.balanced]
    exact sum_key_update hkeys hr _ id
  refine ⟨⟨hbounded, fun id dir => ?_⟩, fun dir => ?_⟩
  · rw [htotal]
    by_cases heq : r.1 = id
    · -- the sum does not wrap, as it is at most the sum of the counters
      have hle : sumKey Prod.fst Prod.snd s.sessions ((x.add s.bytes r).credited dir) id ≤
          s.counted id dir := sum_key_mono (hbounded dir) id
      have hlt := hsmall id dir
      rw [htotal, if_pos heq] at hle
      rw [if_pos heq]
      subst heq
      show _ + update x.out r.1 _ r.1 dir = _
      rw [update_self, Nat.mod_eq_of_lt (by omega)]
      omega
    · rw [if_neg heq]
      show _ + update x.out r.1 _ id dir = _
      rw [update_of_ne (Ne.symm heq)]
      rfl
  · show update (x.credited dir) r.2 _ r.2 = _
    rw [update_self, hgrown]

/-- A loop of the sample, whose body adds a session and leaves a baseline for it. -/
structure Visits (bytes : Direction → Nat → Nat)
    (visit : Sampling ClientID → ClientID × Nat → Sampling ClientID)
    (baseline : Nat → Option (Direction → Nat)) : Prop where
  out : ∀ x r, (visit x r).out = (x.add bytes r).out
  credited : ∀ x r, (visit x r).credited = (x.add bytes r).credited
  last : ∀ x r, (visit x r).last = update x.last r.2 (baseline r.2)

theorem visits_add (bytes : Direction → Nat → Nat) :
    Visits bytes (Sampling.add bytes : Sampling ClientID → _ → _)
      fun ref => some fun dir => bytes dir ref :=
  ⟨fun _ _ => rfl, fun _ _ => rfl, fun _ _ => rfl⟩

theorem visits_add_retired (bytes : Direction → Nat → Nat) :
    Visits bytes (Sampling.addRetired bytes : Sampling ClientID → _ → _) fun _ => none :=
  ⟨fun _ _ => rfl, fun _ _ => rfl, fun _ _ => update_idem _ _ _⟩

/-- The loop reports the sessions of a list in full and leaves the others alone. -/
theorem Auditing.fold {visit : Sampling ClientID → ClientID × Nat → Sampling ClientID}
    {baseline : Nat → Option (Direction → Nat)} (hvisits : Visits s.bytes visit baseline)
    (hkeys : (s.sessions.map Prod.snd).Nodup) (hsmall : ∀ id dir, s.counted id dir < 2 ^ 64)
    {list : List (ClientID × Nat)} (h : s.Auditing x) (hlist : ∀ r ∈ list, r ∈ s.sessions)
    (honce : (list.map Prod.snd).Nodup)
    (hbase : ∀ r ∈ list, ∀ dir, x.previous r.2 dir = x.credited dir r.2) :
    s.Auditing (list.foldl visit x) ∧
      (∀ r ∈ list, (∀ dir, (list.foldl visit x).credited dir r.2 = s.bytes dir r.2) ∧
        (list.foldl visit x).last r.2 = baseline r.2) ∧
      ∀ ref ∉ list.map Prod.snd,
        (∀ dir, (list.foldl visit x).credited dir ref = x.credited dir ref) ∧
          (list.foldl visit x).last ref = x.last ref := by
  induction list generalizing x with
  | nil => exact ⟨h, forall_mem_nil _, fun _ _ => ⟨fun _ => rfl, rfl⟩⟩
  | cons r rest ih =>
    obtain ⟨hr, hrest⟩ := nodup_cons.mp honce
    obtain ⟨haudit, hfull⟩ :=
      h.add hkeys hsmall (hlist r mem_cons_self) (hbase r mem_cons_self)
    -- the entries of the other sessions are as before
    have hother : ∀ ref ≠ r.2, (∀ dir, (visit x r).credited dir ref = x.credited dir ref) ∧
        (visit x r).last ref = x.last ref := by
      intro ref hne
      rw [hvisits.credited, hvisits.last]
      exact ⟨fun dir => update_of_ne hne _ _, update_of_ne hne _ _⟩
    have hne : ∀ p ∈ rest, p.2 ≠ r.2 := fun p hp heq => hr (heq ▸ mem_map_of_mem hp)
    have hvisited : s.Auditing (visit x r) := by
      refine ⟨?_, ?_⟩
      · rw [hvisits.credited]
        exact haudit.bounded
      · rw [hvisits.credited, hvisits.out]
        exact haudit.balanced
    obtain ⟨hdone, hreported, hkept⟩ := ih hvisited
      (fun p hp => hlist p (mem_cons_of_mem _ hp)) hrest (fun p hp dir => by
        obtain ⟨hcredited, hlast⟩ := hother p.2 (hne p hp)
        have hold := hbase p (mem_cons_of_mem _ hp) dir
        rw [Sampling.previous, hlast, hcredited]
        exact hold)
    refine ⟨hdone, fun p hp => ?_, fun ref hnot => ?_⟩
    · rcases mem_cons.mp hp with rfl | hmem
      · obtain ⟨hcredited, hlast⟩ := hkept p.2 hr
        refine ⟨fun dir => ?_, ?_⟩
        · show (rest.foldl visit (visit x p)).credited dir p.2 = _
          rw [hcredited, hvisits.credited, hfull]
        · show (rest.foldl visit (visit x p)).last p.2 = _
          rw [hlast, hvisits.last, update_self]
      · exact hreported p hmem
    · obtain ⟨hfirst, hnot⟩ := not_or.mp (fun hor => hnot (mem_cons.mpr hor))
      obtain ⟨hcredited, hlast⟩ := hkept ref hnot
      obtain ⟨hcredited', hlast'⟩ := hother ref hfirst
      exact ⟨fun dir => (hcredited dir).trans (hcredited' dir), hlast.trans hlast'⟩

/-! ## Whole runs -/

/-- The books of the traffic. -/
structure Audited (s : MeteredServer ClientID) : Prop where
  books : s.server.Books
  keys : (s.sessions.map Prod.snd).Nodup
  below : ∀ p ∈ s.sessions, p.2 < s.server.nextRef
  active : ∀ c ∈ s.server.activeClients, entry c ∈ s.sessions
  retired : ∀ r ∈ s.retiredTraffic, r ∈ s.sessions ∧
    r.2 ∉ s.server.activeClients.map ClientSession.ref
  once : (s.retiredTraffic.map Prod.snd).Nodup
  unused : ∀ ref, s.server.nextRef ≤ ref →
    s.trafficLast ref = none ∧ ∀ dir, s.bytes dir ref = 0 ∧ s.credited dir ref = 0
  base : ∀ ref, s.Tracked ref → ∀ dir,
    (s.trafficLast ref).elim 0 (fun counters => counters dir) = s.credited dir ref
  bounded : ∀ dir ref, s.credited dir ref ≤ s.bytes dir ref
  balanced : ∀ id dir, s.reported id dir =
    sumKey Prod.fst Prod.snd s.sessions (s.credited dir) id
  small : ∀ id dir, s.counted id dir < 2 ^ 64

/-- Every session that is forgotten has been reported in full. -/
def Closed (s : MeteredServer ClientID) : Prop :=
  ∀ p ∈ s.sessions, s.Tracked p.2 ∨ ∀ dir, s.credited dir p.2 = s.bytes dir p.2

/-- Every session has been reported in full. -/
def Settled (s : MeteredServer ClientID) : Prop :=
  ∀ p ∈ s.sessions, ∀ dir, s.credited dir p.2 = s.bytes dir p.2

theorem audited_new {server : ServerState ClientID} (h : server.Books)
    (hnone : server.activeClients = []) : (new server).Audited := by
  refine ⟨h, nodup_nil, forall_mem_nil _, ?_, forall_mem_nil _, nodup_nil,
    fun _ _ => ⟨rfl, fun _ => ⟨rfl, rfl⟩⟩, fun _ _ _ => rfl, fun _ _ => le_rfl, fun _ _ => rfl,
    fun _ _ => ?_⟩
  · show ∀ c ∈ server.activeClients, _
    rw [hnone]
    exact forall_mem_nil _
  · show (0 : Nat) < 2 ^ 64
    decide

theorem Settled.reported_eq (h : s.Settled) (haudited : s.Audited) (id : ClientID)
    (dir : Direction) : s.reported id dir = s.counted id dir := by
  rw [haudited.balanced]
  exact sum_key_congr (fun p hp => h p hp dir) id

/-! ### Critical sections -/

omit [DecidableEq ClientID] in
theorem mem_without {first second : List (ClientSession ClientID)} {c : ClientSession ClientID} :
    c ∈ without first second ↔ c ∈ first ∧ c.ref ∉ second.map ClientSession.ref := by
  unfold without
  rw [mem_filter, all_eq_true, mem_map]
  refine and_congr_right fun _ => ⟨fun h hex => ?_, fun h c' hc' => decide_eq_true fun heq => ?_⟩
  · obtain ⟨c', hc', heq⟩ := hex
    exact of_decide_eq_true (h c' hc') heq
  · exact h ⟨c', hc', heq⟩

omit [DecidableEq ClientID] in
theorem map_snd_entry (list : List (ClientSession ClientID)) :
    (list.map entry).map Prod.snd = list.map ClientSession.ref := by
  rw [map_map]
  rfl

omit [DecidableEq ClientID] in
theorem nodup_without {first second : List (ClientSession ClientID)}
    (h : (first.map ClientSession.ref).Nodup) :
    (((without first second).map entry).map Prod.snd).Nodup := by
  rw [map_snd_entry]
  exact nodup_keys_filter h _

section Advance

variable {server : ServerState ClientID} {action : ServerState.Action ClientID}

/-- A session that a step adds has the next number. -/
theorem ref_of_added (heffect : ServerState.Effect uuid s.server action server)
    {c : ClientSession ClientID} (hc : c ∈ without server.activeClients s.server.activeClients) :
    c ∈ server.activeClients ∧ c.ref = s.server.nextRef := by
  obtain ⟨hmem, hnew⟩ := mem_without.mp hc
  refine ⟨hmem, ?_⟩
  rcases heffect.older hmem with ⟨old, hold, href, -⟩ | ⟨_, _, _, _, href⟩
  · exact absurd (href ▸ mem_map_of_mem hold) hnew
  · exact href

omit [DecidableEq ClientID] in
/-- A step leaves the sessions tracked. -/
theorem tracked_advance {ref : Nat} (h : s.Tracked ref) : (s.advance server).Tracked ref := by
  by_cases hactive : ref ∈ server.activeClients.map ClientSession.ref
  · exact .inl hactive
  · refine .inr ?_
    show ref ∈ (s.retiredTraffic ++ _).map Prod.snd
    rw [map_append, map_snd_entry]
    rcases h with hold | hretired
    · obtain ⟨c, hc, rfl⟩ := mem_map.mp hold
      exact mem_append_right _ (mem_map_of_mem (mem_without.mpr ⟨hc, hactive⟩))
    · exact mem_append_left _ hretired

theorem tracked_of_advance (heffect : ServerState.Effect uuid s.server action server) {ref : Nat}
    (h : (s.advance server).Tracked ref) : s.Tracked ref ∨ ref = s.server.nextRef := by
  rcases h with hactive | hretired
  · obtain ⟨c, hc, rfl⟩ := mem_map.mp hactive
    rcases heffect.older hc with ⟨old, hold, href, -⟩ | ⟨_, _, _, _, href⟩
    · exact .inl (.inl (href ▸ mem_map_of_mem hold))
    · exact .inr href
  · have hmem : ref ∈ (s.retiredTraffic ++ _).map Prod.snd := hretired
    rw [map_append, map_snd_entry] at hmem
    rcases mem_append.mp hmem with hold | hnew
    · exact .inl (.inr hold)
    · obtain ⟨c, hc, rfl⟩ := mem_map.mp hnew
      exact .inl (.inl (mem_map_of_mem (mem_without.mp hc).1))

/-- A sum over the sessions does not change if it is `0` for new numbers. -/
theorem sum_advance (heffect : ServerState.Effect uuid s.server action server) {f : Nat → Nat}
    (hzero : f s.server.nextRef = 0) (id : ClientID) :
    sumKey Prod.fst Prod.snd (s.advance server).sessions f id =
      sumKey Prod.fst Prod.snd s.sessions f id := by
  show sumKey Prod.fst Prod.snd (s.sessions ++ _) f id = _
  rw [sum_key_append]
  have hnone : sumKey Prod.fst Prod.snd
      ((without server.activeClients s.server.activeClients).map entry) f id =
      sumKey Prod.fst Prod.snd
        ((without server.activeClients s.server.activeClients).map entry) (fun _ => 0) id := by
    refine sum_key_congr (fun p hp => ?_) id
    obtain ⟨c, hc, rfl⟩ := mem_map.mp hp
    show f c.ref = 0
    rw [(ref_of_added heffect hc).2, hzero]
  have hzeros : ∀ list : List (ClientID × Nat),
      sumKey Prod.fst Prod.snd list (fun _ => 0) id = 0 := by
    intro list
    induction list with
    | nil => rfl
    | cons p rest ih =>
      rw [sum_key_cons, ih]
      split
      · rfl
      · rfl
  rw [hnone, hzeros, Nat.add_zero]

/-- A session that goes is retired, and one that comes has counted nothing. -/
theorem Audited.advance (h : s.Audited) (hstep : s.server.step uuid action = some server) :
    (s.advance server).Audited := by
  have heffect := ServerState.step_effect h.books hstep
  have hbooks := h.books.step hstep
  have hnext := heffect.next_ref
  obtain ⟨hlast, hzero⟩ := h.unused s.server.nextRef le_rfl
  refine ⟨hbooks, ?_, ?_, ?_, ?_, ?_, fun ref hle => h.unused ref (hnext.trans hle), ?_, h.bounded,
    ?_, ?_⟩
  · show ((s.sessions ++ _).map Prod.snd).Nodup
    rw [map_append]
    refine nodup_append.mpr ⟨h.keys, nodup_without hbooks.refs, ?_⟩
    intro a ha b hb heq
    obtain ⟨p, hp, rfl⟩ := mem_map.mp ha
    rw [map_snd_entry] at hb
    obtain ⟨c, hc, rfl⟩ := mem_map.mp hb
    have hlt := h.below p hp
    have href := (ref_of_added heffect hc).2
    omega
  · intro p hp
    rcases mem_append.mp hp with hold | hnew
    · exact Nat.lt_of_lt_of_le (h.below p hold) hnext
    · obtain ⟨c, hc, rfl⟩ := mem_map.mp hnew
      exact hbooks.ref_lt c (ref_of_added heffect hc).1
  · intro c hc
    show entry c ∈ s.sessions ++ _
    by_cases hold : c.ref ∈ s.server.activeClients.map ClientSession.ref
    · rcases heffect.older hc with ⟨old, hmem, href, hid⟩ | ⟨_, _, _, _, href⟩
      · have hentry : entry old = entry c := by
          unfold entry
          rw [href, hid]
        exact mem_append_left _ (hentry ▸ h.active old hmem)
      · obtain ⟨old, hmem, hsame⟩ := mem_map.mp hold
        have hlt := h.books.ref_lt old hmem
        omega
    · exact mem_append_right _ (mem_map_of_mem (mem_without.mpr ⟨hc, hold⟩))
  · intro r hr
    rcases mem_append.mp hr with hold | hnew
    · obtain ⟨hsession, hgone⟩ := h.retired r hold
      refine ⟨mem_append_left _ hsession, fun hactive => ?_⟩
      obtain ⟨c, hc, heq⟩ := mem_map.mp hactive
      rcases heffect.older hc with ⟨old, hmem, href, -⟩ | ⟨_, _, _, _, href⟩
      · exact hgone (heq ▸ href ▸ mem_map_of_mem hmem)
      · have hlt := h.below r hsession
        omega
    · obtain ⟨c, hc, rfl⟩ := mem_map.mp hnew
      obtain ⟨hmem, hgone⟩ := mem_without.mp hc
      exact ⟨mem_append_left _ (h.active c hmem), hgone⟩
  · show ((s.retiredTraffic ++ _).map Prod.snd).Nodup
    rw [map_append]
    refine nodup_append.mpr ⟨h.once, nodup_without h.books.refs, ?_⟩
    intro a ha b hb heq
    obtain ⟨r, hr, rfl⟩ := mem_map.mp ha
    rw [map_snd_entry] at hb
    obtain ⟨c, hc, rfl⟩ := mem_map.mp hb
    exact (h.retired r hr).2 (heq ▸ mem_map_of_mem (mem_without.mp hc).1)
  · intro ref htracked dir
    rcases tracked_of_advance heffect htracked with hold | rfl
    · exact h.base ref hold dir
    · show (s.trafficLast _).elim 0 _ = s.credited dir _
      rw [hlast, (hzero dir).2]
      rfl
  · intro id dir
    exact (h.balanced id dir).trans (sum_advance heffect (hzero dir).2 id).symm
  · intro id dir
    show sumKey Prod.fst Prod.snd (s.advance server).sessions (s.bytes dir) id < _
    rw [sum_advance heffect (hzero dir).1]
    exact h.small id dir

omit [DecidableEq ClientID] in
/-- The sessions after a critical section were there, or are new and active. -/
theorem mem_sessions_advance {p : ClientID × Nat} (hp : p ∈ (s.advance server).sessions) :
    p ∈ s.sessions ∨ ∃ c ∈ without server.activeClients s.server.activeClients, p = entry c := by
  rcases mem_append.mp hp with hold | hnew
  · exact .inl hold
  · obtain ⟨c, hc, rfl⟩ := mem_map.mp hnew
    exact .inr ⟨c, hc, rfl⟩

omit [DecidableEq ClientID] in
theorem Closed.advance (h : s.Closed) : (s.advance server).Closed := by
  intro p hp
  rcases mem_sessions_advance hp with hold | ⟨c, hc, rfl⟩
  · exact (h p hold).imp_left tracked_advance
  · exact .inl (.inl (mem_map_of_mem (mem_without.mp hc).1))

theorem Settled.advance (h : s.Settled) (haudited : s.Audited)
    (heffect : ServerState.Effect uuid s.server action server) : (s.advance server).Settled := by
  intro p hp dir
  rcases mem_sessions_advance hp with hold | ⟨c, hc, rfl⟩
  · exact h p hold dir
  · obtain ⟨hbytes, hcredited⟩ := (haudited.unused s.server.nextRef le_rfl).2 dir
    show s.credited dir c.ref = s.bytes dir c.ref
    rw [(ref_of_added heffect hc).2, hbytes, hcredited]

end Advance

/-! ### Counting -/

section Count

variable {ref amount : Nat} {dir : Direction}

/-- A counter below its end grows by what is counted. -/
theorem count_eq (hfits : s.Fits (.count ref dir amount))
    (hstep : s.step uuid (.count ref dir amount) = some s') :
    (∃ id, (id, ref) ∈ s.sessions) ∧
      s' = { s with
        bytes := update s.bytes dir
          (update (s.bytes dir) ref (s.bytes dir ref + amount)) } := by
  simp only [step] at hstep
  split at hstep
  · rename_i hmem
    obtain ⟨p, hp, rfl⟩ := mem_map.mp hmem
    cases hstep
    have hle : s.bytes dir p.2 ≤ sumKey Prod.fst Prod.snd s.sessions (s.bytes dir) p.1 :=
      le_sum_key hp (s.bytes dir)
    have hlt : sumKey Prod.fst Prod.snd s.sessions (s.bytes dir) p.1 + amount < 2 ^ 64 :=
      hfits p hp rfl
    refine ⟨⟨p.1, hp⟩, ?_⟩
    rw [Nat.mod_eq_of_lt (by omega)]
  · cases hstep

omit [DecidableEq ClientID] in
/-- The counters of the other sessions stay as they are. -/
theorem bytes_of_ne (s : MeteredServer ClientID) {ref' : Nat} (hne : ref' ≠ ref) (amount : Nat)
    (dir dir' : Direction) : update s.bytes dir
      (update (s.bytes dir) ref (s.bytes dir ref + amount)) dir' ref' =
        s.bytes dir' ref' := by
  by_cases hdir : dir' = dir
  · rw [hdir, update_self, update_of_ne hne]
  · rw [update_of_ne hdir]

omit [DecidableEq ClientID] in
theorem bytes_mono (s : MeteredServer ClientID) (ref amount : Nat) (dir dir' : Direction)
    (ref' : Nat) : s.bytes dir' ref' ≤ update s.bytes dir
      (update (s.bytes dir) ref (s.bytes dir ref + amount)) dir' ref' := by
  by_cases href : ref' = ref
  · by_cases hdir : dir' = dir
    · rw [hdir, href, update_self, update_self]
      exact Nat.le_add_right _ _
    · rw [update_of_ne hdir]
  · exact (bytes_of_ne s href amount dir dir').ge

theorem Audited.count (h : s.Audited) (hfits : s.Fits (.count ref dir amount))
    (hstep : s.step uuid (.count ref dir amount) = some s') : s'.Audited := by
  obtain ⟨⟨id, hp⟩, rfl⟩ := count_eq hfits hstep
  refine ⟨h.books, h.keys, h.below, h.active, h.retired, h.once, fun ref' hle => ?_, h.base,
    fun dir' ref' => (h.bounded dir' ref').trans (bytes_mono s ref amount dir dir' ref'),
    h.balanced, fun id' dir' => ?_⟩
  · obtain ⟨hlast, hzero⟩ := h.unused ref' hle
    refine ⟨hlast, fun dir' => ⟨?_, (hzero dir').2⟩⟩
    have hne : ref' ≠ ref := by
      have hlt : ref < s.server.nextRef := h.below (id, ref) hp
      have hle : s.server.nextRef ≤ ref' := hle
      omega
    exact (bytes_of_ne s hne amount dir dir').trans (hzero dir').1
  · show sumKey Prod.fst Prod.snd s.sessions (update s.bytes dir _ dir') id' < _
    by_cases hdir : dir' = dir
    · rw [hdir, update_self]
      have htotal : sumKey Prod.fst Prod.snd s.sessions
          (update (s.bytes dir) ref (s.bytes dir ref + amount)) id' =
          s.counted id' dir + if id = id' then amount else 0 :=
        sum_key_update h.keys hp amount id'
      rw [htotal]
      split
      · rename_i heq
        have hlt := hfits (id, ref) hp rfl
        rw [heq] at hlt
        exact hlt
      · exact h.small id' dir
    · rw [update_of_ne hdir]
      exact h.small id' dir'

theorem Closed.count (h : s.Closed) (hfits : s.Fits (.count ref dir amount))
    (hintime : s.InTime (.count ref dir amount))
    (hstep : s.step uuid (.count ref dir amount) = some s') : s'.Closed := by
  obtain ⟨-, rfl⟩ := count_eq hfits hstep
  intro p hp
  by_cases heq : p.2 = ref
  · exact .inl (heq ▸ hintime)
  · refine (h p hp).imp_right fun hfull dir' => ?_
    exact (hfull dir').trans (bytes_of_ne s heq amount dir dir').symm

end Count

/-! ### Sampling -/

/-- A sample reports the sessions that are tracked in full, leaves a baseline for those that are
active, and leaves the others alone. -/
theorem sample_spec (h : s.Audited) :
    s.Auditing s.sampleClientTraffic ∧
      (∀ ref, s.Tracked ref → ∀ dir, s.sampleClientTraffic.credited dir ref = s.bytes dir ref) ∧
      (∀ c ∈ s.server.activeClients,
        s.sampleClientTraffic.last c.ref = some fun dir => s.bytes dir c.ref) ∧
      ∀ ref, ¬ s.Tracked ref → s.sampleClientTraffic.last ref = s.trafficLast ref ∧
        ∀ dir, s.sampleClientTraffic.credited dir ref = s.credited dir ref := by
  have hstart : s.Auditing ⟨fun _ _ => 0, s.trafficLast, s.credited⟩ := ⟨h.bounded, h.balanced⟩
  have hlist : ∀ r ∈ s.server.activeClients.map entry, r ∈ s.sessions := by
    intro r hr
    obtain ⟨c, hc, rfl⟩ := mem_map.mp hr
    exact h.active c hc
  have hrefs := map_snd_entry s.server.activeClients
  obtain ⟨hlive, hfull, hkept⟩ := hstart.fold (visits_add s.bytes) h.keys h.small hlist
    (hrefs ▸ h.books.refs) (fun r hr dir => h.base r.2
      (.inl (hrefs ▸ mem_map_of_mem hr)) dir)
  rw [hrefs] at hkept
  -- the first loop has not touched the retired sessions
  have hbase : ∀ r ∈ s.retiredTraffic, ∀ dir,
      ((s.server.activeClients.map entry).foldl (Sampling.add s.bytes)
        ⟨fun _ _ => 0, s.trafficLast, s.credited⟩).previous r.2 dir =
      ((s.server.activeClients.map entry).foldl (Sampling.add s.bytes)
        ⟨fun _ _ => 0, s.trafficLast, s.credited⟩).credited dir r.2 := by
    intro r hr dir
    obtain ⟨hcredited, hlast⟩ := hkept r.2 (h.retired r hr).2
    rw [Sampling.previous, hlast, hcredited]
    exact h.base r.2 (.inr (mem_map_of_mem hr)) dir
  obtain ⟨hdone, hfull', hkept'⟩ := hlive.fold (visits_add_retired s.bytes) h.keys h.small
    (fun r hr => (h.retired r hr).1) h.once hbase
  have hactive : ∀ c ∈ s.server.activeClients, c.ref ∉ s.retiredTraffic.map Prod.snd := by
    intro c hc hretired
    obtain ⟨r, hr, heq⟩ := mem_map.mp hretired
    exact (h.retired r hr).2 (heq ▸ mem_map_of_mem hc)
  refine ⟨hdone, ?_, ?_, ?_⟩
  · intro ref htracked dir
    rcases htracked with hmem | hretired
    · obtain ⟨c, hc, rfl⟩ := mem_map.mp hmem
      exact ((hkept' c.ref (hactive c hc)).1 dir).trans
        ((hfull (entry c) (mem_map_of_mem hc)).1 dir)
    · obtain ⟨r, hr, rfl⟩ := mem_map.mp hretired
      exact (hfull' r hr).1 dir
  · intro c hc
    exact (hkept' c.ref (hactive c hc)).2.trans (hfull (entry c) (mem_map_of_mem hc)).2
  · intro ref hnot
    obtain ⟨hactive, hretired⟩ := not_or.mp hnot
    obtain ⟨hcredited, hlast⟩ := hkept ref hactive
    obtain ⟨hcredited', hlast'⟩ := hkept' ref hretired
    exact ⟨hlast'.trans hlast, fun dir => (hcredited' dir).trans (hcredited dir)⟩

theorem Audited.sample (h : s.Audited) (hstep : s.step uuid .sample = some s') : s'.Audited := by
  cases hstep
  obtain ⟨haudit, hfull, hlast, hother⟩ := sample_spec h
  refine ⟨h.books, h.keys, h.below, h.active, forall_mem_nil _, nodup_nil,
    fun ref hle => ?_, fun ref htracked dir => ?_, haudit.bounded, haudit.balanced, h.small⟩
  · have hle : s.server.nextRef ≤ ref := hle
    have hnot : ¬ s.Tracked ref := by
      rintro (hactive | hretired)
      · obtain ⟨c, hc, rfl⟩ := mem_map.mp hactive
        have hlt := h.books.ref_lt c hc
        omega
      · obtain ⟨r, hr, rfl⟩ := mem_map.mp hretired
        have hlt := h.below r (h.retired r hr).1
        omega
    obtain ⟨hsame, hcredited⟩ := hother ref hnot
    obtain ⟨hnone, hzero⟩ := h.unused ref hle
    exact ⟨hsame.trans hnone, fun dir => ⟨(hzero dir).1, (hcredited dir).trans (hzero dir).2⟩⟩
  · rcases htracked with hactive | hretired
    · obtain ⟨c, hc, rfl⟩ := mem_map.mp hactive
      show (s.sampleClientTraffic.last c.ref).elim 0 _ = s.sampleClientTraffic.credited dir c.ref
      rw [hlast c hc, hfull c.ref (.inl hactive)]
      rfl
    · exact absurd hretired not_mem_nil

/-- If the sessions that have been forgotten are reported in full, after a sample all are. -/
theorem Closed.sample (h : s.Closed) (haudited : s.Audited)
    (hstep : s.step uuid .sample = some s') : s'.Settled := by
  cases hstep
  obtain ⟨-, hfull, -, hother⟩ := sample_spec haudited
  intro p hp dir
  show s.sampleClientTraffic.credited dir p.2 = s.bytes dir p.2
  by_cases htracked : s.Tracked p.2
  · exact hfull p.2 htracked dir
  · rw [(hother p.2 htracked).2]
    exact (h p hp).resolve_left htracked dir

/-! ### Conservation -/

omit [DecidableEq ClientID] in
theorem Settled.closed (h : s.Settled) : s.Closed := fun p hp => .inr (h p hp)

variable {action : MeteredAction ClientID}

/-- A sample reports what has been counted since the last one. -/
theorem Audited.step (h : s.Audited) (hfits : s.Fits action)
    (hstep : s.step uuid action = some s') : s'.Audited := by
  cases action with
  | server action =>
    obtain ⟨server, hserver, rfl⟩ := Option.map_eq_some_iff.mp hstep
    exact h.advance hserver
  | count ref dir amount => exact h.count hfits hstep
  | sample => exact h.sample hstep

/-- A session is retired before it is forgotten. -/
theorem Closed.step (h : s.Closed) (haudited : s.Audited) (hfits : s.Fits action)
    (hintime : s.InTime action) (hstep : s.step uuid action = some s') : s'.Closed := by
  cases action with
  | server action =>
    obtain ⟨server, -, rfl⟩ := Option.map_eq_some_iff.mp hstep
    exact h.advance
  | count ref dir amount => exact h.count hfits hintime hstep
  | sample => exact (h.sample haudited hstep).closed

/-- Without a count nothing is left to report. -/
theorem Settled.step (h : s.Settled) (haudited : s.Audited) (hcounts : ¬ Counts action)
    (hstep : s.step uuid action = some s') : s'.Settled := by
  cases action with
  | server action =>
    obtain ⟨server, hserver, rfl⟩ := Option.map_eq_some_iff.mp hstep
    exact h.advance haudited (ServerState.step_effect haudited.books hserver)
  | count ref dir amount => exact absurd trivial hcounts
  | sample => exact h.closed.sample haudited hstep

theorem audited_of_run {actions : List (MeteredAction ClientID)} (h : s.Audited)
    (hfits : Along (MeteredServer.step uuid) Fits s actions)
    (hrun : run (MeteredServer.step uuid) s actions = some s') : s'.Audited := by
  have hpreserve : ∀ (s : MeteredServer ClientID) action s', s.Audited → s.Fits action →
      s.step uuid action = some s' → s'.Audited :=
    fun _ _ _ haudited hnow hstep => haudited.step hnow hstep
  exact run_invariant hpreserve h hfits hrun

/-- Let the bytes of a client stay below the end of the counters. What is reported of a session is
never more than it has counted, and the reports for a client are the sum of this over all sessions
that it has had. If no session counts a byte after it has been forgotten, then after a sample and
until the next byte is counted the reports are the sum of the counters. -/
theorem traffic_conserved (config : ServerConfig) (maxSessions : Nat) (v4 v6 : Nat × Nat)
    {actions : List (MeteredAction ClientID)}
    (hfits : Along (step uuid) Fits (new (.new config maxSessions v4 v6)) actions)
    (hrun : run (step uuid) (new (.new config maxSessions v4 v6)) actions = some s) :
    (∀ dir ref, s.credited dir ref ≤ s.bytes dir ref) ∧
      (∀ id dir, s.reported id dir = sumKey Prod.fst Prod.snd s.sessions (s.credited dir) id) ∧
      (Along (step uuid) InTime (new (.new config maxSessions v4 v6)) actions →
        ∀ first rest, actions = first ++ .sample :: rest → (∀ action ∈ rest, ¬ Counts action) →
          ∀ id dir, s.reported id dir = s.counted id dir) := by
  have hnew : (new (.new config maxSessions v4 v6 : ServerState ClientID)).Audited :=
    audited_new (ServerState.new_books config maxSessions v4 v6) rfl
  have haudited := audited_of_run hnew hfits hrun
  refine ⟨haudited.bounded, haudited.balanced, fun hintime first rest hsplit hcounts id dir => ?_⟩
  subst hsplit
  obtain ⟨before, hfirst, hlater⟩ := run_append_eq_some.mp hrun
  obtain ⟨after, hsample, hrest⟩ := run_cons_eq_some.mp hlater
  obtain ⟨hfits', hfitsLater⟩ := hfits.append hfirst
  obtain ⟨-, hfitsRest⟩ := hfitsLater.cons hsample
  have hclosed : before.Audited ∧ before.Closed := by
    have hpreserve : ∀ (s : MeteredServer ClientID) action s', s.Audited ∧ s.Closed →
        s.Fits action ∧ s.InTime action → s.step uuid action = some s' →
        s'.Audited ∧ s'.Closed :=
      fun _ _ _ hbooks hnow hstep => ⟨hbooks.1.step hnow.1 hstep,
        hbooks.2.step hbooks.1 hnow.1 hnow.2 hstep⟩
    exact run_invariant hpreserve ⟨hnew, forall_mem_nil _⟩
      (hfits'.and (hintime.append hfirst).1) hfirst
  have hsettled : s.Audited ∧ s.Settled := by
    have hpreserve : ∀ (s : MeteredServer ClientID) action s', s.Audited ∧ s.Settled →
        s.Fits action ∧ ¬ Counts action → s.step uuid action = some s' →
        s'.Audited ∧ s'.Settled :=
      fun _ _ _ hbooks hnow hstep => ⟨hbooks.1.step hnow.1 hstep,
        hbooks.2.step hbooks.1 hnow.2 hstep⟩
    exact run_invariant hpreserve
      ⟨hclosed.1.sample hsample, hclosed.2.sample hclosed.1 hsample⟩
      (hfitsRest.and_mem hcounts) hrest
  exact hsettled.2.reported_eq hsettled.1 id dir

open ServerState (settings hello someMAC handshake)

/-- The server of the runs below. -/
def idle : MeteredServer (MacKey × String) := new (.new (settings "key") 8 (256, 256) (512, 256))

/-- The client of the runs below. -/
def customer : MacKey × String := (someMAC, "key")

/-- A session counts bytes before and after a sample and is kicked before the next one. -/
def countAndKick : List (MeteredAction (MacKey × String)) :=
  (handshake "key" 1 0 1).map .server ++
    [.count 1 .rx 100, .sample, .count 1 .rx 50, .server (.kick 1), .count 1 .rx 7, .sample]

/-- The bytes after the kick are reported, too. -/
theorem kicked_session_reported :
    ∃ s, run (step Prod.mk) idle countAndKick = some s ∧ s.reported customer .rx = 157 := by
  obtain ⟨s, hrun, hcounted⟩ : ∃ s, run (step Prod.mk) idle countAndKick = some s ∧
      s.counted customer .rx = 157 :=
    exists_run_of_decide (by decide +kernel)
  have hconserved := traffic_conserved (settings "key") 8 (256, 256) (512, 256)
    (by decide +kernel : Along (step Prod.mk) Fits idle countAndKick) hrun
  have hreported := hconserved.2.2
    (by decide +kernel : Along (step Prod.mk) InTime idle countAndKick)
    ((handshake "key" 1 0 1).map .server ++
      [.count 1 .rx 100, .sample, .count 1 .rx 50, .server (.kick 1), .count 1 .rx 7]) [] rfl
    (forall_mem_nil _) customer .rx
  exact ⟨s, hrun, hreported.trans hcounted⟩

/-- The connection flushes its last bytes after the sample that has forgotten its session. -/
def flushLate : List (MeteredAction (MacKey × String)) :=
  countAndKick ++ [.count 1 .rx 9, .sample]

/-- They are never reported. -/
theorem late_flush_lost :
    ∃ s, run (step Prod.mk) idle flushLate = some s ∧ s.reported customer .rx = 157 ∧
      s.counted customer .rx = 166 :=
  exists_run_of_decide (by decide +kernel)

end MeteredServer

end TlsVpn.Server
