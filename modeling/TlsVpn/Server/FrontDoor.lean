import TlsVpn.Server.Registry

/-!
# The front door of the server

What a stranger can make the server spend. `serveListener` gives a connection a slot while fewer
than 256 are held, and fewer than 16 by its address, and its goroutine gives the slot back when it
returns. A handshake with a wrong PSK is held in the tarpit, which costs a goroutine, and from the
sixth failure of its address within a minute on it is dropped at once; the table of failures is
swept of old entries when it has grown large.

`total` and `byIP` count the slots exactly, whatever is accepted, refused and closed, so a slot is
never lost or given twice (`admission_exact`). The limits are on goroutines and not on connections:
`serveFallbackHTTP` returns at once unless the protocol is HTTP/2, and leaves its connection open
without a slot, as often as one asks (`fallback_unbounded`).

The sweep is invisible: every address is treated as if it had a counter of its own, whatever the
others do. The counter starts anew with the first failure after its minute, so an address can time
its failures around the change, and ten of them, twice the limit, is the most that the tarpit holds
of any minute.
-/

namespace TlsVpn.Server

open Lib Function List

variable {Host : Type} [DecidableEq Host]

/-! ## The limiter -/

/-- The limit of the server. -/
def maxAcceptedConnections : Nat := 256

/-- The connections in total and by address. -/
structure ConnectionLimiter (Host : Type) where
  total : Int
  byIP : Host → Option Nat

namespace ConnectionLimiter

/-- The count of an address, `0` without an entry. -/
def count (l : ConnectionLimiter Host) (host : Host) : Nat := (l.byIP host).getD 0

/-- Neither limit may be reached. -/
def acquire (l : ConnectionLimiter Host) (host : Host) : Bool × ConnectionLimiter Host :=
  if l.total ≥ maxAcceptedConnections ∨ l.count host ≥ maxConnectionsPerIP then (false, l)
  else
    (true,
      { total := l.total + 1
        byIP := update l.byIP host (some (l.count host + 1)) })

/-- An entry goes with its last connection. -/
def release (l : ConnectionLimiter Host) (host : Host) : ConnectionLimiter Host :=
  { total := l.total - 1
    byIP := update l.byIP host
      (if l.count host ≤ 1 then none else some (l.count host - 1)) }

end ConnectionLimiter

/-! ## The failures -/

/-- The failures of an address that are held in a window. -/
def pskFailLimit : Nat := 5

/-- A minute in nanoseconds. -/
def pskFailWindow : Nat := 60 * 1000000000

/-- A table of this size is not swept. -/
def pskFailEntryMax : Nat := 1024

/-- Ten windows. -/
def pskFailBucketTTL : Nat := 10 * pskFailWindow

/-- The failures since the first one. -/
structure PskFailBucket where
  count : Nat
  first : Nat
  deriving DecidableEq

/-- A large table loses the entries that are older than ten minutes. -/
def sweep (fails : List (Host × PskFailBucket)) (now : Nat) : List (Host × PskFailBucket) :=
  if fails.length > pskFailEntryMax then
    fails.filter fun entry => ¬ now - entry.2.first > pskFailBucketTTL
  else fails

/-- Writes the entry of an address. -/
def setBucket (fails : List (Host × PskFailBucket)) (host : Host) (b : PskFailBucket) :
    List (Host × PskFailBucket) :=
  (host, b) :: fails.filter fun entry => entry.1 ≠ host

/-- `pskFailExceeded`, which reads the clock for the sweep and once more for the entry. -/
def pskFailExceeded (fails : List (Host × PskFailBucket)) (host : Host) (swept now : Nat) :
    Bool × List (Host × PskFailBucket) :=
  let fails := sweep fails swept
  match findKey Prod.fst fails host with
  | none => (false, setBucket fails host ⟨1, now⟩)
  | some (_, b) =>
    if now - b.first > pskFailWindow then (false, setBucket fails host ⟨1, now⟩)
    else
      (decide (b.count + 1 > pskFailLimit), setBucket fails host { b with count := b.count + 1 })

/-- A handshake that failed, which is dropped at once or held in the tarpit. -/
structure Failure (Host : Type) where
  host : Host
  time : Nat
  dropped : Bool

/-- The table with its history. -/
structure Failures (Host : Type) where
  pskFail : List (Host × PskFailBucket)
  /-- The time of the last failure. -/
  clock : Nat
  past : List (Failure Host)

/-- A failure is noted with its outcome. -/
def Failures.fail (s : Failures Host) (host : Host) (swept now : Nat) : Failures Host :=
  let (dropped, pskFail) := pskFailExceeded s.pskFail host swept now
  { pskFail, clock := now, past := s.past ++ [⟨host, now, dropped⟩] }

/-! ## The server -/

/-- The protocol of a connection that speaks HTTP, by its ALPN. -/
inductive Fallback where
  | http1
  | http2
  deriving DecidableEq

/-- The server with the connections that it has let in. -/
structure FrontDoor (Host : Type) where
  limiter : ConnectionLimiter Host
  /-- The addresses of the connections whose goroutine has not returned. -/
  slots : List Host
  /-- The addresses of the open connections that an HTTP server of their own answers. -/
  fallback : List Host
  failures : Failures Host

namespace FrontDoor

/-- What happens to the connections. -/
inductive Action (Host : Type) where
  | accept (host : Host)
  | fail (host : Host) (swept now : Nat)
  | fallback (host : Host) (protocol : Fallback)
  | close (host : Host)
  | hangUp (host : Host)

/-- No connection is open. -/
def new : FrontDoor Host := ⟨⟨0, fun _ => none⟩, [], [], ⟨[], 0, []⟩⟩

/-- The goroutine of a connection returns, and its deferred call releases the slot. -/
def finish (d : FrontDoor Host) (host : Host) : FrontDoor Host :=
  { d with limiter := d.limiter.release host, slots := d.slots.erase host }

/-- The listener of a connection over HTTP/1.1 has nothing more to accept, so that `Serve` returns
while another goroutine answers the requests. `ServeConn` returns when the connection has ended. -/
def serveFallbackHTTP (d : FrontDoor Host) (host : Host) : Fallback → FrontDoor Host
  | .http1 => { d.finish host with fallback := host :: d.fallback }
  | .http2 => d

/-- A connection that is refused changes nothing. The clock does not go back. All goroutines but
those of an HTTP/1.1 connection return when they have closed it, which is `close`. -/
def step (d : FrontDoor Host) : Action Host → Option (FrontDoor Host)
  | .accept host =>
    match d.limiter.acquire host with
    | (true, limiter) => some { d with limiter, slots := host :: d.slots }
    | (false, limiter) => some { d with limiter }
  | .fail host swept now =>
    if host ∈ d.slots ∧ d.failures.clock ≤ swept ∧ swept ≤ now then
      some { d with failures := d.failures.fail host swept now }
    else none
  | .fallback host protocol =>
    if host ∈ d.slots then some (d.serveFallbackHTTP host protocol) else none
  | .close host => if host ∈ d.slots then some (d.finish host) else none
  | .hangUp host =>
    if host ∈ d.fallback then some { d with fallback := d.fallback.erase host } else none

variable {d d' : FrontDoor Host} {host : Host}

/-! ## Admission -/

/-- The limiter counts the slots. -/
structure Counted (d : FrontDoor Host) : Prop where
  total : d.limiter.total = d.slots.length
  byIP : ∀ host, d.limiter.byIP host =
    if d.slots.count host = 0 then none else some (d.slots.count host)
  total_le : d.slots.length ≤ maxAcceptedConnections
  byIP_le : ∀ host, (d.slots.count host : Int) ≤ maxConnectionsPerIP

theorem counted_new : (new : FrontDoor Host).Counted where
  total := rfl
  byIP := fun _ => rfl
  total_le := Nat.zero_le _
  byIP_le := fun _ => show (0 : Int) ≤ maxConnectionsPerIP by decide

/-- The count of an address is the number of its slots, with or without an entry. -/
theorem Counted.count_eq (h : d.Counted) (host : Host) :
    d.limiter.count host = d.slots.count host := by
  rw [ConnectionLimiter.count, h.byIP]
  split
  · rename_i hzero
    exact hzero.symm
  · rfl

/-- The limiter admits by the slots that are held. -/
theorem Counted.acquire_iff (h : d.Counted) (host : Host) :
    (d.limiter.acquire host).1 = true ↔
      d.slots.length < maxAcceptedConnections ∧
        (d.slots.count host : Int) < maxConnectionsPerIP := by
  unfold ConnectionLimiter.acquire
  rw [h.total, h.count_eq]
  split
  · rename_i hfull
    simp only [Bool.false_eq_true, false_iff]
    omega
  · rename_i hroom
    simp only [true_iff]
    omega

/-- A connection is let in with a slot. -/
theorem Counted.accept (h : d.Counted) (hstep : d.step (.accept host) = some d') : d'.Counted := by
  have hroom := h.acquire_iff host
  unfold step at hstep
  dsimp only at hstep
  split at hstep
  · rename_i limiter hacquire
    cases hstep
    rw [hacquire] at hroom
    obtain ⟨htotal, hhost⟩ := hroom.mp rfl
    unfold ConnectionLimiter.acquire at hacquire
    split at hacquire
    · cases hacquire
    · cases hacquire
      refine ⟨?_, fun other => ?_, Nat.succ_le_of_lt htotal, fun other => ?_⟩
      · simp [h.total]
      · by_cases hother : other = host
        · simp [hother, h.count_eq]
        · simp [update_of_ne hother, count_cons_of_ne (Ne.symm hother), h.byIP]
      · by_cases hother : other = host
        · simp only [hother, count_cons_self]
          omega
        · rw [count_cons_of_ne (Ne.symm hother)]
          exact h.byIP_le other
  · rename_i limiter hacquire
    cases hstep
    unfold ConnectionLimiter.acquire at hacquire
    split at hacquire
    · cases hacquire
      exact h
    · cases hacquire

/-- A goroutine that returns gives one slot back, and it had one. -/
theorem Counted.finish (h : d.Counted) (hheld : host ∈ d.slots) : (d.finish host).Counted := by
  have hpos := count_pos_iff.mpr hheld
  have hlength := length_pos_of_mem hheld
  unfold FrontDoor.finish
  refine ⟨?_, fun other => ?_, ?_, fun other => ?_⟩
  · simp only [ConnectionLimiter.release, h.total, length_erase_of_mem hheld]
    omega
  · by_cases hother : other = host
    · simp only [ConnectionLimiter.release, hother, update_self, h.count_eq,
        count_erase_self, Nat.sub_eq_zero_iff_le]
    · simp [ConnectionLimiter.release, update_of_ne hother, h.byIP,
        count_erase_of_ne hother]
  · exact Nat.le_trans length_erase_le h.total_le
  · have hle := h.byIP_le other
    have hfewer : (d.slots.erase host).count other ≤ d.slots.count other :=
      erase_sublist.count_le other
    dsimp only
    omega

/-- A slot is taken and given back together with its count. -/
theorem Counted.step {action : Action Host} (h : d.Counted) (hstep : d.step action = some d') :
    d'.Counted := by
  cases action with
  | accept host => exact h.accept hstep
  | fail host swept now =>
    obtain ⟨-, rfl⟩ := of_guarded hstep
    exact { h with }
  | fallback host protocol =>
    obtain ⟨hheld, rfl⟩ := of_guarded hstep
    cases protocol with
    | http1 => exact { h.finish hheld with }
    | http2 => exact h
  | close host =>
    obtain ⟨hheld, rfl⟩ := of_guarded hstep
    exact h.finish hheld
  | hangUp host =>
    obtain ⟨-, rfl⟩ := of_guarded hstep
    exact { h with }

/-- Whatever has been accepted, refused, handed to an HTTP server and closed, a connection is let in
if and only if fewer slots are held than the two limits allow, an address has an entry as long as it
holds a slot, and the limits hold of the slots. -/
theorem admission_exact (actions : List (Action Host)) (d : FrontDoor Host)
    (hrun : run step new actions = some d) (host : Host) :
    ((d.limiter.acquire host).1 = true ↔
        d.slots.length < maxAcceptedConnections ∧
          (d.slots.count host : Int) < maxConnectionsPerIP) ∧
      ((d.limiter.byIP host).isSome = true ↔ host ∈ d.slots) ∧
      d.slots.length ≤ maxAcceptedConnections ∧
      (d.slots.count host : Int) ≤ maxConnectionsPerIP := by
  have hcounted : d.Counted := run_preserves (fun _ _ _ h hstep => h.step hstep) counted_new hrun
  refine ⟨hcounted.acquire_iff host, ?_, hcounted.total_le, hcounted.byIP_le host⟩
  rw [hcounted.byIP, ← count_pos_iff]
  split
  · rename_i hzero
    simp [hzero]
  · rename_i hsome
    simp [Nat.pos_of_ne_zero hsome]

/-- Three connections of an address and one of another. One of the three is closed, and one goes on
without its slot. -/
def fourAccepted : List (Action Nat) :=
  [.accept 7, .accept 7, .accept 7, .accept 8, .close 7, .fallback 7 .http1]

/-- The connection over HTTP/1.1 is open without a slot. -/
theorem four_accepted_admission :
    ∃ d, run step new fourAccepted = some d ∧ d.slots = [8, 7] ∧ d.fallback = [7] ∧
      ((d.limiter.byIP 7).isSome = true ↔ 7 ∈ d.slots) := by
  have hfinal : ∃ d, run step new fourAccepted = some d ∧ d.slots = [8, 7] ∧ d.fallback = [7] :=
    exists_run_of_decide (by decide +kernel)
  obtain ⟨d, hrun, hslots, hfallback⟩ := hfinal
  exact ⟨d, hrun, hslots, hfallback, (admission_exact fourAccepted d hrun 7).2.1⟩

/-- An address connects and speaks HTTP/1.1, again and again. -/
def fallbacks (host : Host) (n : Nat) : List (Action Host) :=
  (List.replicate n [.accept host, .fallback host .http1]).flatten

/-- While no slot is held, one such connection stays open and holds none. -/
theorem fallback_once (host : Host) (h : d.Counted) (hslots : d.slots = []) :
    ∃ d', run step d [.accept host, .fallback host .http1] = some d' ∧ d'.Counted ∧
      d'.slots = [] ∧ d'.fallback = host :: d.fallback := by
  have hroom : (d.limiter.acquire host).1 = true := by
    rw [h.acquire_iff, hslots]
    exact ⟨show 0 < maxAcceptedConnections by decide,
      show (0 : Int) < maxConnectionsPerIP by decide⟩
  obtain ⟨limiter, hacquire⟩ : ∃ limiter, d.limiter.acquire host = (true, limiter) :=
    ⟨_, Prod.ext hroom rfl⟩
  have hrun : run step d [.accept host, .fallback host .http1] =
      some (serveFallbackHTTP { d with limiter, slots := host :: d.slots } host .http1) := by
    simp [run, step, hacquire]
  refine ⟨_, hrun, run_preserves (fun _ _ _ h hstep => h.step hstep) h hrun, ?_, rfl⟩
  simp [serveFallbackHTTP, FrontDoor.finish, hslots]

/-- The limits do not bound the open connections: any number of one address can stay open. -/
theorem fallback_unbounded (host : Host) (n : Nat) :
    ∃ d, run step new (fallbacks host n) = some d ∧ d.fallback = List.replicate n host := by
  have hruns : ∀ n, ∀ d : FrontDoor Host, d.Counted → d.slots = [] →
      ∃ d', run step d (fallbacks host n) = some d' ∧
        d'.fallback = List.replicate n host ++ d.fallback := by
    intro n
    induction n with
    | zero => exact fun d _ _ => ⟨d, rfl, rfl⟩
    | succ n ih =>
      intro d h hslots
      obtain ⟨d', hrun, h', hslots', hfallback⟩ := fallback_once host h hslots
      obtain ⟨last, hlast, hopen⟩ := ih d' h' hslots'
      refine ⟨last, ?_, ?_⟩
      · rw [fallbacks, replicate_succ, flatten_cons, run_append_eq_some]
        exact ⟨d', hrun, hlast⟩
      · rw [hopen, hfallback, append_cons, replicate_succ']
  obtain ⟨d, hrun, hopen⟩ := hruns n new counted_new rfl
  exact ⟨d, hrun, hopen.trans (append_nil _)⟩

end FrontDoor

/-! ## The counters -/

/-- A failure in the counter of an address that has one to itself. -/
def counted (b : Option PskFailBucket) (now : Nat) : PskFailBucket :=
  match b with
  | none => ⟨1, now⟩
  | some b => if now - b.first > pskFailWindow then ⟨1, now⟩ else { b with count := b.count + 1 }

/-- The counter after failures at these times. -/
def counter (times : List Nat) : Option PskFailBucket :=
  times.foldl (fun b now => some (counted b now)) none

theorem counter_append (times : List Nat) (now : Nat) :
    counter (times ++ [now]) = some (counted (counter times) now) := by
  simp [counter]

theorem exceeded_eq (fails : List (Host × PskFailBucket)) (host : Host) (swept now : Nat) :
    pskFailExceeded fails host swept now =
      let b := counted ((findKey Prod.fst (sweep fails swept) host).map Prod.snd) now
      (decide (pskFailLimit < b.count), setBucket (sweep fails swept) host b) := by
  unfold pskFailExceeded
  dsimp only
  split
  · rename_i hnone
    rw [hnone]
    rfl
  · rename_i other b hsome
    rw [hsome]
    simp only [Option.map_some, counted]
    split
    · rfl
    · rfl

/-- An entry of the table is the counter of its address, and an address without one has no counter
or one that has run out long ago. -/
structure Tallied (fails : List (Host × PskFailBucket)) (clock : Nat)
    (times : Host → List Nat) : Prop where
  entry : ∀ host b, (host, b) ∈ fails → counter (times host) = some b
  swept : ∀ host b, (∀ c, (host, c) ∉ fails) → counter (times host) = some b →
    b.first + pskFailBucketTTL < clock

variable {fails : List (Host × PskFailBucket)} {clock swept now : Nat} {times : Host → List Nat}

omit [DecidableEq Host] in
theorem Tallied.sweep (h : Tallied fails clock times) (hclock : clock ≤ swept) :
    Tallied (sweep fails swept) swept times := by
  unfold Server.sweep
  split
  · refine ⟨fun host b hmem => h.entry host b (mem_filter.mp hmem).1, ?_⟩
    intro host b hnone hcounter
    by_cases hsome : ∃ c, (host, c) ∈ fails
    · -- the entry has been swept
      obtain ⟨c, hc⟩ := hsome
      cases (h.entry host c hc).symm.trans hcounter
      have hgone := hnone b
      rw [mem_filter, not_and] at hgone
      have hold := hgone hc
      simp only [decide_eq_true_eq, not_not] at hold
      omega
    · have hlong := h.swept host b (not_exists.mp hsome) hcounter
      omega
  · refine ⟨h.entry, fun host b hnone hcounter => ?_⟩
    have hlong := h.swept host b hnone hcounter
    omega

/-- The entry counts as the counter of the address would. -/
theorem Tallied.counted_eq (h : Tallied fails clock times) (hclock : clock ≤ now) (host : Host) :
    counted ((findKey Prod.fst fails host).map Prod.snd) now =
      counted (counter (times host)) now := by
  cases hfound : findKey Prod.fst fails host with
  | some entry =>
    obtain ⟨hmem, rfl⟩ := mem_of_find_key hfound
    rw [h.entry entry.1 entry.2 hmem]
    rfl
  | none =>
    cases hcounter : counter (times host) with
    | none => rfl
    | some b =>
      have hnone : ∀ c, (host, c) ∉ fails := fun c hc =>
        find_key_eq_none.mp hfound (host, c) hc rfl
      have hlong := h.swept host b hnone hcounter
      have hout : now - b.first > pskFailWindow := by
        unfold pskFailBucketTTL at hlong
        omega
      exact (if_pos hout).symm

/-- The failure of an address is counted, and the others keep their counters. -/
theorem Tallied.set_bucket (h : Tallied fails clock times) (hclock : clock ≤ now) (host : Host) :
    Tallied (setBucket fails host (counted (counter (times host)) now)) now
      (update times host (times host ++ [now])) := by
  refine ⟨fun other b hmem => ?_, fun other b hnone hother => ?_⟩
  · rcases mem_cons.mp hmem with heq | hrest
    · cases heq
      rw [update_self]
      exact counter_append (times host) now
    · obtain ⟨hold, hne⟩ := mem_filter.mp hrest
      rw [update_of_ne (by simpa using hne)]
      exact h.entry other b hold
  · by_cases hsame : other = host
    · rw [hsame] at hnone
      exact absurd mem_cons_self (hnone _)
    · rw [update_of_ne hsame] at hother
      have hlong := h.swept other b (fun c hc => hnone c ?_) hother
      · omega
      · exact mem_cons_of_mem _ (mem_filter.mpr ⟨hc, by simpa using hsame⟩)

/-! ## The tarpit -/

/-- What the tarpit can hold of the minute from `since` on, by the counter of the address: one
counter may have been at work before, and a second one since. -/
def Fits (since held : Nat) : Option PskFailBucket → Prop
  | none => held = 0
  | some b => held ≤ 2 * pskFailLimit ∧ (b.first < since → held ≤ min b.count pskFailLimit) ∧
      (b.first ≤ since + pskFailWindow → held ≤ pskFailLimit + min b.count pskFailLimit)

/-- One more failure, of which the tarpit holds `extra`. -/
theorem Fits.counted {b : Option PskFailBucket} {since held extra : Nat} (h : Fits since held b)
    (hclock : clock ≤ now) (hfirst : ∀ c ∈ b, c.first ≤ clock)
    (hearly : clock < since → held = 0) (hone : extra ≤ 1)
    (hextra : extra = 1 → (counted b now).count ≤ pskFailLimit ∧ since ≤ now ∧
      now ≤ since + pskFailWindow) :
    (Server.counted b now).first ≤ now ∧ Fits since (held + extra) (some (counted b now)) := by
  have hlimit : pskFailLimit = 5 := rfl
  unfold Fits at h ⊢
  unfold Server.counted at hextra ⊢
  cases b with
  | none =>
    dsimp only at h hextra ⊢
    omega
  | some c =>
    have hle := hfirst c rfl
    dsimp only at h hextra ⊢
    split at hextra
    · -- the counter starts anew, and the minute has seen at most the one before it
      rename_i hout
      rw [if_pos hout]
      dsimp only at hextra ⊢
      omega
    · rename_i hin
      rw [if_neg hin]
      dsimp only at hextra ⊢
      omega

namespace Failures

variable {s : Failures Host} {host : Host} {since : Nat}

/-- When an address failed. -/
def timesOf (s : Failures Host) (host : Host) : List Nat :=
  (s.past.filter fun failure => failure.host = host).map Failure.time

/-- How many failures of an address in the minute from `since` on are held in the tarpit. -/
def tarpit (s : Failures Host) (host : Host) (since : Nat) : Nat :=
  s.past.countP fun failure => failure.host = host ∧ failure.dropped = false ∧
    since ≤ failure.time ∧ failure.time ≤ since + pskFailWindow

/-- What every failure keeps. -/
structure Paced (host : Host) (since : Nat) (s : Failures Host) : Prop where
  tallied : Tallied s.pskFail s.clock s.timesOf
  first_le : ∀ b ∈ counter (s.timesOf host), b.first ≤ s.clock
  early : s.clock < since → s.tarpit host since = 0
  fits : Fits since (s.tarpit host since) (counter (s.timesOf host))

theorem times_of_fail (s : Failures Host) (host : Host) (swept now : Nat) :
    (s.fail host swept now).timesOf = update s.timesOf host (s.timesOf host ++ [now]) := by
  funext other
  unfold timesOf fail
  dsimp only
  rw [filter_append]
  by_cases hother : other = host
  · simp [hother]
  · simp [update_of_ne hother, Ne.symm hother]

theorem tarpit_fail (s : Failures Host) (host other : Host) (since swept now : Nat) :
    ∃ extra ≤ 1, (s.fail other swept now).tarpit host since = s.tarpit host since + extra ∧
      (extra = 1 → other = host ∧ (pskFailExceeded s.pskFail other swept now).1 = false ∧
        since ≤ now ∧ now ≤ since + pskFailWindow) := by
  unfold tarpit fail
  dsimp only
  rw [countP_append]
  refine ⟨_, countP_le_length, rfl, fun hone => ?_⟩
  have hmem := countP_pos_iff.mp (hone ▸ Nat.one_pos)
  simpa using hmem

/-- A failure of another address changes nothing. -/
theorem Paced.fail (h : Paced host since s) (hswept : s.clock ≤ swept) (hnow : swept ≤ now)
    (other : Host) : Paced host since (s.fail other swept now) := by
  have htable := h.tallied.sweep hswept
  have hcounted := htable.counted_eq hnow other
  obtain ⟨extra, hone, htarpit, hextra⟩ := tarpit_fail s host other since swept now
  rw [exceeded_eq, hcounted] at hextra
  dsimp only at hextra
  have htallied :
      Tallied (s.fail other swept now).pskFail now (s.fail other swept now).timesOf := by
    rw [times_of_fail]
    unfold Failures.fail
    rw [exceeded_eq, hcounted]
    exact htable.set_bucket hnow other
  have hearly : now < since → (s.fail other swept now).tarpit host since = 0 := by
    intro hlt
    have hzero := h.early (by omega)
    omega
  by_cases hother : host = other
  · subst hother
    obtain ⟨hfirst, hfits⟩ := h.fits.counted (Nat.le_trans hswept hnow) h.first_le h.early hone
      fun heq => ⟨by simpa using (hextra heq).2.1, (hextra heq).2.2⟩
    have hcounter : counter ((s.fail host swept now).timesOf host) =
        some (counted (counter (s.timesOf host)) now) := by
      rw [times_of_fail, update_self, counter_append]
    refine ⟨htallied, ?_, hearly, ?_⟩
    · rw [hcounter]
      rintro b ⟨⟩
      exact hfirst
    · rw [hcounter, htarpit]
      exact hfits
  · have hsame : (s.fail other swept now).timesOf host = s.timesOf host := by
      rw [times_of_fail, update_of_ne hother]
    have hzero : extra = 0 := by
      have hnot : extra ≠ 1 := fun heq => hother (hextra heq).1.symm
      omega
    refine ⟨htallied, ?_, hearly, ?_⟩
    · rw [hsame]
      exact fun b hb => Nat.le_trans (h.first_le b hb) (Nat.le_trans hswept hnow)
    · rw [hsame, htarpit, hzero]
      exact h.fits

end Failures

namespace FrontDoor

open Failures

variable {d d' : FrontDoor Host} {host : Host}

/-- Only a failure of the address counts. -/
theorem paced_step {since : Nat} {action : Action Host} (h : d.failures.Paced host since)
    (hstep : d.step action = some d') : d'.failures.Paced host since := by
  cases action with
  | accept host | close host | hangUp host =>
    simp only [step] at hstep
    split at hstep <;> cases hstep <;> exact h
  | fallback host protocol =>
    obtain ⟨-, rfl⟩ := of_guarded hstep
    cases protocol <;> exact h
  | fail other swept now =>
    obtain ⟨hguard, rfl⟩ := of_guarded hstep
    exact h.fail hguard.2.1 hguard.2.2 other

/-- Whatever has failed before, and however large the table of failures has grown: a failure is
dropped at once if and only if it is more than the fifth in a counter of its address, and however an
address times its failures, the tarpit holds at most ten of any minute. -/
theorem failures_paced (actions : List (Action Host)) (d : FrontDoor Host)
    (hrun : run step new actions = some d) (host : Host) :
    (∀ swept now, d.failures.clock ≤ swept → swept ≤ now →
      ((pskFailExceeded d.failures.pskFail host swept now).1 = true ↔
        pskFailLimit < (counted (counter (d.failures.timesOf host)) now).count)) ∧
      ∀ since, d.failures.tarpit host since ≤ 2 * pskFailLimit := by
  have hpaced : ∀ since, d.failures.Paced host since := by
    intro since
    have hnew : (new : FrontDoor Host).failures.Paced host since :=
      ⟨⟨nofun, fun _ _ _ => nofun⟩, nofun, fun _ => rfl, rfl⟩
    exact run_preserves (fun _ _ _ h hstep => paced_step h hstep) hnew hrun
  refine ⟨fun swept now hswept hnow => ?_, fun since => ?_⟩
  · rw [exceeded_eq, ((hpaced 0).tallied.sweep hswept).counted_eq hnow]
    exact decide_eq_true_iff
  · have hfits := (hpaced since).fits
    unfold Fits at hfits
    split at hfits
    · omega
    · exact hfits.1

/-- Five failures of an address within a minute, the last one after another address has failed. -/
def fiveFailures : List (Action Nat) :=
  [.accept 7, .accept 8, .fail 7 1 1, .fail 7 2 2, .fail 7 3 3, .fail 7 4 4, .fail 8 5 5,
    .fail 7 6 6]

/-- The sixth failure in a minute is dropped. -/
theorem sixth_failure_dropped :
    ∃ d, run step new fiveFailures = some d ∧ d.failures.tarpit 7 0 = 5 ∧
      (pskFailExceeded d.failures.pskFail 7 9 9).1 = true ∧
      pskFailLimit < (counted (counter (d.failures.timesOf 7)) 9).count ∧
      d.failures.tarpit 7 0 ≤ 2 * pskFailLimit := by
  have hfinal : ∃ d, run step new fiveFailures = some d ∧ d.failures.clock = 6 ∧
      d.failures.tarpit 7 0 = 5 ∧ (pskFailExceeded d.failures.pskFail 7 9 9).1 = true :=
    exists_run_of_decide (by decide +kernel)
  obtain ⟨d, hrun, hclock, htarpit, hdropped⟩ := hfinal
  obtain ⟨hexact, hbound⟩ := failures_paced fiveFailures d hrun 7
  exact ⟨d, hrun, htarpit, hdropped,
    (hexact 9 9 (by omega) (Nat.le_refl 9)).mp hdropped, hbound 0⟩

end FrontDoor

end TlsVpn.Server
