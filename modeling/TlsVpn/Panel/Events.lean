import TlsVpn.Lib.Bytes
import TlsVpn.Lib.Keyed
import TlsVpn.Lib.Run

/-!
# The event stream of the panel

Translation of `eventBus` and of the streaming part of `handleEvents`. The bus keeps the newest
events in a ring and pushes each new one into the channel of every subscriber, or drops it there
when the channel is full. A request takes a snapshot of the ring, writes it, subscribes, and then
writes what comes out of its channel; the lock of the bus is taken by the snapshot and by the
subscription separately, so that any number of events may be emitted between any two steps.

`owed` and `overflowed` are history variables: the events that the client has to receive, and
whether the channel has dropped one. `EventFeed.stream_complete` holds if nothing is emitted while
a snapshot is written. Otherwise the event is neither in the snapshot nor in the channel
(`emitted_in_between`).
-/

namespace TlsVpn.Panel

open Lib Function List

/-- An event. -/
structure EvtJSON where
  seq : Nat
  time : String
  type : String
  level : String
  client : String
  msg : String
  deriving DecidableEq, Repr

/-- A subscriber, named by the request it belongs to. -/
structure EventSub where
  request : Nat
  ch : List EvtJSON

/-- The room of the channel of a subscriber. -/
def subCapacity : Nat := 256

/-- A send that does not wait. -/
def EventSub.offer (s : EventSub) (e : EvtJSON) : EventSub :=
  if s.ch.length < subCapacity then { s with ch := s.ch ++ [e] } else s

/-- The ring of events and the subscribers. -/
structure EventBus where
  seq : Nat
  cap : Nat
  ring : List EvtJSON
  subs : List EventSub

namespace EventBus

/-- A bus without events. -/
def new (capacity : Nat) : EventBus := { seq := 0, cap := capacity, ring := [], subs := [] }

/-- The next event. Numbers have 64 bits. -/
def event (b : EventBus) (time type level client msg : String) : EvtJSON :=
  { seq := (b.seq + 1) % uint64Size, time, type, level, client, msg }

/-- The ring loses its oldest event when it is full. -/
def emit (b : EventBus) (e : EvtJSON) : EventBus :=
  let ring := b.ring ++ [e]
  { b with
    seq := e.seq
    ring := if ring.length > b.cap then ring.drop (ring.length - b.cap) else ring
    subs := b.subs.map (·.offer e) }

/-- The events in the ring after a number. -/
def snapshot (b : EventBus) (after : Nat) : List EvtJSON := b.ring.filter fun e => after < e.seq

/-- A new channel is empty. -/
def subscribe (b : EventBus) (request : Nat) : EventBus :=
  { b with subs := b.subs ++ [⟨request, []⟩] }

/-- The function that `subscribe` returns. -/
def cancel (b : EventBus) (request : Nat) : EventBus :=
  { b with subs := b.subs.eraseP fun s => s.request = request }

/-- The channel of a subscriber. -/
def channel (b : EventBus) (request : Nat) : Option (List EvtJSON) :=
  (findKey EventSub.request b.subs request).map EventSub.ch

/-- Takes the first event out of a channel. -/
def receive (b : EventBus) (request : Nat) : EventBus :=
  { b with subs := updateKey EventSub.request b.subs request fun s => { s with ch := s.ch.tail } }

end EventBus

/-! ## Requests -/

/-- Where a request stands. -/
inductive Phase where
  | opened (after : Nat)
  | writing (rest : List EvtJSON)
  | streaming
  | closed
  deriving DecidableEq

/-- A request, with what it should have been sent. -/
structure Request where
  phase : Phase
  /-- What has been written to the client. -/
  written : List EvtJSON
  owed : List EvtJSON
  overflowed : Bool

/-- The bus and the requests. -/
structure EventFeed where
  bus : EventBus
  requests : Nat → Option Request

/-- What happens to the bus and to a request. -/
inductive EventAction where
  | emit (time type level client msg : String)
  | arrive (r after : Nat)
  | snapshot (r : Nat)
  | write (r : Nat)
  | subscribe (r : Nat)
  | receive (r : Nat)
  | leave (r : Nat)
  deriving DecidableEq

namespace EventFeed

/-- No request is open. -/
def new (capacity : Nat) : EventFeed := { bus := .new capacity, requests := fun _ => none }

/-- Writes a request. -/
def setRequest (s : EventFeed) (r : Nat) (q : Request) : EventFeed :=
  { s with requests := update s.requests r (some q) }

/-- What an event means for a request: after its snapshot it is owed, and it overflows a channel
without room. -/
def noted (b : EventBus) (e : EvtJSON) (r : Nat) (q : Request) : Request :=
  match q.phase with
  | .writing _ => { q with owed := q.owed ++ [e] }
  | .streaming =>
    { q with
      owed := q.owed ++ [e]
      overflowed := q.overflowed || (b.channel r).any fun ch => subCapacity ≤ ch.length }
  | _ => q

/-- A request subscribes after it has written its snapshot. -/
def step (s : EventFeed) : EventAction → Option EventFeed
  | .emit time type level client msg =>
    let e := s.bus.event time type level client msg
    some
      { bus := s.bus.emit e
        requests := fun r => (s.requests r).map (noted s.bus e r) }
  | .arrive r after =>
    match s.requests r with
    | none => some (s.setRequest r ⟨.opened after, [], [], false⟩)
    | some _ => none
  | .snapshot r =>
    match s.requests r with
    | some ⟨.opened after, written, _, overflowed⟩ =>
      let events := s.bus.snapshot after
      some (s.setRequest r ⟨.writing events, written, events, overflowed⟩)
    | _ => none
  | .write r =>
    match s.requests r with
    | some ⟨.writing (e :: rest), written, owed, overflowed⟩ =>
      some (s.setRequest r ⟨.writing rest, written ++ [e], owed, overflowed⟩)
    | _ => none
  | .subscribe r =>
    match s.requests r with
    | some ⟨.writing [], written, owed, overflowed⟩ =>
      some { s.setRequest r ⟨.streaming, written, owed, overflowed⟩ with
        bus := s.bus.subscribe r }
    | _ => none
  | .receive r =>
    match s.requests r, s.bus.channel r with
    | some ⟨.streaming, written, owed, overflowed⟩, some (e :: _) =>
      some { s.setRequest r ⟨.streaming, written ++ [e], owed, overflowed⟩ with
        bus := s.bus.receive r }
    | _, _ => none
  | .leave r =>
    match s.requests r with
    | some ⟨.streaming, written, owed, overflowed⟩ =>
      some { s.setRequest r ⟨.closed, written, owed, overflowed⟩ with bus := s.bus.cancel r }
    | _ => none

end EventFeed

/-! ## Channels -/

namespace EventBus

variable {b : EventBus} {e : EvtJSON} {r r' after : Nat}

theorem channel_emit (b : EventBus) (e : EvtJSON) (r : Nat) :
    (b.emit e).channel r =
      (b.channel r).map fun ch => if ch.length < subCapacity then ch ++ [e] else ch := by
  have hkey : ∀ s : EventSub, (s.offer e).request = s.request := by
    intro s
    unfold EventSub.offer
    split
    · rfl
    · rfl
  show (findKey EventSub.request (b.subs.map (·.offer e)) r).map EventSub.ch = _
  rw [find_key_map hkey, channel, Option.map_map, Option.map_map]
  congr 1
  funext s
  show (s.offer e).ch = if s.ch.length < subCapacity then s.ch ++ [e] else s.ch
  unfold EventSub.offer
  split
  · rfl
  · rfl

theorem channel_subscribe (b : EventBus) (r r' : Nat) :
    (b.subscribe r).channel r' = (b.channel r').or (if r = r' then some [] else none) := by
  show (findKey EventSub.request (b.subs ++ [⟨r, []⟩]) r').map EventSub.ch = _
  unfold channel findKey
  rw [find?_append]
  cases b.subs.find? fun s => s.request = r' with
  | some s => rfl
  | none =>
    show (([⟨r, []⟩] : List EventSub).find? fun s => s.request = r').map EventSub.ch =
      if r = r' then some [] else none
    by_cases heq : r = r'
    · rw [find?_cons_of_pos (by simpa using heq), if_pos heq]
      rfl
    · rw [find?_cons_of_neg (by simpa using heq), if_neg heq]
      rfl

theorem channel_cancel (b : EventBus) (h : r' ≠ r) : (b.cancel r).channel r' = b.channel r' := by
  unfold cancel channel
  dsimp only
  rw [find_key_eraseP h]

theorem channel_receive (b : EventBus) (r r' : Nat) :
    (b.receive r).channel r' = (b.channel r').map fun ch => if r' = r then ch.tail else ch := by
  have hkey : ∀ s : EventSub, ({ s with ch := s.ch.tail } : EventSub).request = s.request :=
    fun _ => rfl
  unfold receive channel
  dsimp only
  rw [find_key_updateKey hkey, Option.map_map, Option.map_map]
  congr 1
  funext s
  show (if r' = r then { s with ch := s.ch.tail } else s).ch = if r' = r then s.ch.tail else s.ch
  split
  · rfl
  · rfl

/-! ## The ring -/

/-- The events of the ring are in order, and none is newer than the counter. -/
structure Ordered (b : EventBus) : Prop where
  sorted : b.ring.Pairwise fun e e' => e.seq < e'.seq
  newest : ∀ e ∈ b.ring, e.seq ≤ b.seq

theorem Ordered.emit (h : b.Ordered) (hnext : b.seq < e.seq) : (b.emit e).Ordered := by
  have hsorted : (b.ring ++ [e]).Pairwise fun e e' => e.seq < e'.seq := by
    refine pairwise_append.mpr ⟨h.sorted, pairwise_singleton _ _, ?_⟩
    intro x hx y hy
    rw [mem_singleton.mp hy]
    exact Nat.lt_of_le_of_lt (h.newest x hx) hnext
  have hnewest : ∀ x ∈ b.ring ++ [e], x.seq ≤ e.seq := by
    intro x hx
    rcases mem_append.mp hx with hold | hnew
    · exact Nat.le_of_lt (Nat.lt_of_le_of_lt (h.newest x hold) hnext)
    · exact Nat.le_of_eq (congrArg EvtJSON.seq (mem_singleton.mp hnew))
  unfold EventBus.emit
  dsimp only
  split
  · exact ⟨hsorted.sublist (drop_sublist _ _), fun x hx => hnewest x (mem_of_mem_drop hx)⟩
  · exact ⟨hsorted, hnewest⟩

theorem seq_event (hroom : b.seq + 1 < uint64Size)
    (time type level client msg : String) :
    (b.event time type level client msg).seq = b.seq + 1 :=
  Nat.mod_eq_of_lt hroom

end EventBus

namespace EventFeed

variable {s s' : EventFeed} {r r' : Nat} {q : Request}

/-! ## What a request has received -/

/-- The request has taken its snapshot and has not subscribed. -/
def writing (s : EventFeed) (r : Nat) : Bool :=
  match s.requests r with
  | some ⟨.writing _, _, _, _⟩ => true
  | _ => false

/-- The numbers last, and nothing is emitted while the request writes its snapshot. -/
def Undisturbed (r : Nat) (s : EventFeed) : EventAction → Prop
  | .emit _ _ _ _ _ => s.bus.seq + 1 < uint64Size ∧ s.writing r = false
  | _ => True

instance (r : Nat) (s : EventFeed) : ∀ action, Decidable (Undisturbed r s action)
  | .emit _ _ _ _ _ => inferInstanceAs (Decidable (_ ∧ _))
  | .arrive _ _ | .snapshot _ | .write _ | .subscribe _ | .receive _ | .leave _ => isTrue trivial

/-- What the client has received of what it is owed. -/
def Received (s : EventFeed) (r : Nat) (q : Request) : Prop :=
  match q.phase with
  | .opened _ => q.written = [] ∧ q.owed = []
  | .writing rest => q.written ++ rest = q.owed
  | .streaming => ∃ ch, s.bus.channel r = some ch ∧ q.written ++ ch = q.owed
  | .closed => q.written <+: q.owed

/-- What holds of a request in every state. -/
structure Served (s : EventFeed) (r : Nat) (q : Request) : Prop where
  sorted : q.owed.Pairwise fun e e' => e.seq < e'.seq
  newest : ∀ e ∈ q.owed, e.seq ≤ s.bus.seq
  received : q.overflowed = false → s.Received r q

/-- What holds of the feed in every state, with one request. -/
structure Sound (r : Nat) (s : EventFeed) : Prop where
  ordered : s.bus.Ordered
  subscribed : ∀ r, s.bus.channel r ≠ none →
    ∃ q ∈ s.requests r, q.phase = .streaming ∨ q.phase = .closed
  served : ∀ q ∈ s.requests r, s.Served r q

theorem sound_new (capacity r : Nat) : (new capacity).Sound r :=
  ⟨⟨List.Pairwise.nil, fun _ he => absurd he not_mem_nil⟩, fun _ h => absurd rfl h,
    fun _ hq => nomatch hq⟩

/-- A step that leaves the request and its channel as they were. -/
theorem Served.of_same (h : s.Served r q) (hseq : s'.bus.seq = s.bus.seq)
    (hch : s'.bus.channel r = s.bus.channel r) : s'.Served r q := by
  refine ⟨h.sorted, hseq ▸ h.newest, fun hover => ?_⟩
  have hreceived := h.received hover
  unfold Received at hreceived ⊢
  rw [hch]
  exact hreceived

theorem phase_noted (b : EventBus) (e : EvtJSON) (r : Nat) (q : Request) :
    (noted b e r q).phase = q.phase := by
  unfold noted
  split
  · rfl
  · rfl
  · rfl

/-- An event that is emitted goes to the client if the request does not write its snapshot. -/
theorem Served.emit (h : s.Served r q) (hq : s.requests r = some q) (hwriting : s.writing r = false)
    {e : EvtJSON} (hnext : s.bus.seq < e.seq) (hbus : s'.bus = s.bus.emit e) :
    s'.Served r (noted s.bus e r q) := by
  have hseq : s'.bus.seq = e.seq := by
    rw [hbus]
    rfl
  have hsorted : (q.owed ++ [e]).Pairwise fun e e' => e.seq < e'.seq := by
    refine pairwise_append.mpr ⟨h.sorted, pairwise_singleton _ _, ?_⟩
    intro x hx y hy
    rw [mem_singleton.mp hy]
    exact Nat.lt_of_le_of_lt (h.newest x hx) hnext
  have hold : ∀ x ∈ q.owed, x.seq ≤ s'.bus.seq := by
    intro x hx
    rw [hseq]
    exact Nat.le_of_lt (Nat.lt_of_le_of_lt (h.newest x hx) hnext)
  have hnewest : ∀ x ∈ q.owed ++ [e], x.seq ≤ s'.bus.seq := by
    intro x hx
    rcases mem_append.mp hx with hx | hx
    · exact hold x hx
    · rw [hseq]
      exact Nat.le_of_eq (congrArg EvtJSON.seq (mem_singleton.mp hx))
  obtain ⟨phase, written, owed, overflowed⟩ := q
  have hreceived := h.received
  cases phase with
  | opened | closed => exact ⟨h.sorted, hold, hreceived⟩
  | writing rest =>
    unfold EventFeed.writing at hwriting
    rw [hq] at hwriting
    cases hwriting
  | streaming =>
    refine ⟨hsorted, hnewest, fun hover => ?_⟩
    obtain ⟨hbefore, hroom⟩ := Bool.or_eq_false_iff.mp hover
    obtain ⟨ch, hch, heq⟩ := hreceived hbefore
    rw [hch] at hroom
    have hlength : ch.length < subCapacity := Nat.lt_of_not_le (by simpa using hroom)
    refine ⟨ch ++ [e], ?_, ?_⟩
    · rw [hbus, EventBus.channel_emit, hch, Option.map_some, if_pos hlength]
    · show written ++ (ch ++ [e]) = owed ++ [e]
      rw [← append_assoc, heq]

/-- A request has no channel before it subscribes. -/
theorem Sound.unsubscribed (h : s.Sound r) (hq : s.requests r' = some q)
    (hphase : ¬ (q.phase = .streaming ∨ q.phase = .closed)) : s.bus.channel r' = none := by
  by_contra hch
  obtain ⟨q', hq', hphase'⟩ := h.subscribed r' hch
  rw [hq] at hq'
  cases hq'
  exact hphase hphase'

/-- A step of one request, which leaves the ring and the other channels as they were. -/
theorem Sound.set {bus' : EventBus} {q' : Request} (h : s.Sound r)
    (hring : bus'.ring = s.bus.ring) (hseq : bus'.seq = s.bus.seq)
    (hothers : ∀ x, x ≠ r' → bus'.channel x = s.bus.channel x)
    (hphase : bus'.channel r' ≠ none → q'.phase = .streaming ∨ q'.phase = .closed)
    (hserved : r' = r → Served { s.setRequest r' q' with bus := bus' } r q') :
    Sound r { s.setRequest r' q' with bus := bus' } := by
  refine ⟨⟨?_, ?_⟩, fun x hx => ?_, fun q hq => ?_⟩
  · rw [hring]
    exact h.ordered.sorted
  · rw [hring, hseq]
    exact h.ordered.newest
  · show ∃ q ∈ update s.requests r' (some q') x, _
    by_cases hxr : x = r'
    · subst hxr
      rw [update_self]
      exact ⟨q', rfl, hphase hx⟩
    · rw [update_of_ne hxr]
      exact h.subscribed x (hothers x hxr ▸ hx)
  · replace hq : update s.requests r' (some q') r = some q := hq
    by_cases hrr : r' = r
    · subst hrr
      rw [update_self] at hq
      cases hq
      exact hserved rfl
    · rw [update_of_ne (Ne.symm hrr)] at hq
      exact (h.served q hq).of_same hseq (hothers r (Ne.symm hrr))

/-- An event is emitted. -/
theorem Sound.emit (h : s.Sound r) (hwriting : s.writing r = false) {e : EvtJSON}
    (hnext : s.bus.seq < e.seq) :
    Sound r { bus := s.bus.emit e, requests := fun x => (s.requests x).map (noted s.bus e x) } := by
  refine ⟨h.ordered.emit hnext, fun x hx => ?_, fun q hq => ?_⟩
  · rw [EventBus.channel_emit] at hx
    obtain ⟨q, hq, hphase⟩ := h.subscribed x fun hnone => hx (by rw [hnone]; rfl)
    refine ⟨_, Option.map_eq_some_iff.mpr ⟨q, hq, rfl⟩, ?_⟩
    rw [phase_noted]
    exact hphase
  · obtain ⟨q, hold, rfl⟩ := Option.map_eq_some_iff.mp hq
    exact (h.served q hold).emit hold hwriting hnext rfl

section Written

variable {after : Nat} {rest written owed : List EvtJSON} {e : EvtJSON} {overflowed : Bool}

/-- The request takes its snapshot. -/
theorem Served.snapshot (h : s.Served r ⟨.opened after, written, owed, overflowed⟩)
    (hring : s.bus.Ordered) (hseq : s'.bus.seq = s.bus.seq) :
    s'.Served r ⟨.writing (s.bus.snapshot after), written, s.bus.snapshot after, overflowed⟩ := by
  refine ⟨hring.sorted.sublist filter_sublist, fun e he => ?_, fun hover => ?_⟩
  · rw [hseq]
    exact hring.newest e (mem_filter.mp he).1
  · obtain ⟨hwritten, -⟩ := h.received hover
    show written ++ s.bus.snapshot after = s.bus.snapshot after
    rw [show written = [] from hwritten, nil_append]

/-- An event of the snapshot is written. -/
theorem Served.write (h : s.Served r ⟨.writing (e :: rest), written, owed, overflowed⟩)
    (hseq : s'.bus.seq = s.bus.seq) :
    s'.Served r ⟨.writing rest, written ++ [e], owed, overflowed⟩ := by
  refine ⟨h.sorted, hseq ▸ h.newest, fun hover => ?_⟩
  have hreceived : written ++ e :: rest = owed := h.received hover
  show written ++ [e] ++ rest = owed
  rw [← hreceived, append_assoc]
  rfl

/-- The request subscribes when the snapshot is written. -/
theorem Served.subscribe (h : s.Served r ⟨.writing [], written, owed, overflowed⟩)
    (hseq : s'.bus.seq = s.bus.seq) (hch : s'.bus.channel r = some []) :
    s'.Served r ⟨.streaming, written, owed, overflowed⟩ :=
  ⟨h.sorted, hseq ▸ h.newest, fun hover => ⟨[], hch, h.received hover⟩⟩

/-- An event from the channel is written. -/
theorem Served.receive (h : s.Served r ⟨.streaming, written, owed, overflowed⟩)
    (hseq : s'.bus.seq = s.bus.seq) (hch : s.bus.channel r = some (e :: rest))
    (hrest : s'.bus.channel r = some rest) :
    s'.Served r ⟨.streaming, written ++ [e], owed, overflowed⟩ := by
  refine ⟨h.sorted, hseq ▸ h.newest, fun hover => ⟨rest, hrest, ?_⟩⟩
  obtain ⟨ch, hch', heq⟩ := h.received hover
  rw [hch] at hch'
  cases hch'
  show written ++ [e] ++ rest = owed
  rw [append_assoc]
  exact heq

/-- The client leaves. -/
theorem Served.leave (h : s.Served r ⟨.streaming, written, owed, overflowed⟩)
    (hseq : s'.bus.seq = s.bus.seq) : s'.Served r ⟨.closed, written, owed, overflowed⟩ := by
  refine ⟨h.sorted, hseq ▸ h.newest, fun hover => ?_⟩
  obtain ⟨ch, -, heq⟩ := h.received hover
  exact ⟨ch, heq⟩

end Written

/-- An event is owed, and goes to the channel or overflows it. -/
theorem Sound.step (h : s.Sound r) {action : EventAction} (hquiet : Undisturbed r s action)
    (hstep : s.step action = some s') : s'.Sound r := by
  cases action with
  | emit time type level client msg =>
    cases hstep
    obtain ⟨hroom, hwriting⟩ := hquiet
    refine h.emit hwriting ?_
    rw [EventBus.seq_event hroom]
    exact Nat.lt_succ_self _
  | arrive r' after =>
    simp only [EventFeed.step] at hstep
    split at hstep
    · rename_i hnone
      cases hstep
      refine h.set rfl rfl (fun _ _ => rfl) (fun hch => ?_) fun _ => ?_
      · obtain ⟨q, hq, -⟩ := h.subscribed r' hch
        rw [hnone] at hq
        cases hq
      · exact ⟨List.Pairwise.nil, fun _ he => absurd he not_mem_nil, fun _ => ⟨rfl, rfl⟩⟩
    · cases hstep
  | snapshot r' =>
    simp only [EventFeed.step] at hstep
    split at hstep
    · rename_i after written owed overflowed hq
      cases hstep
      refine h.set rfl rfl (fun _ _ => rfl) (fun hch => ?_) ?_
      · exact absurd (h.unsubscribed hq (by simp)) hch
      · rintro rfl
        exact (h.served _ hq).snapshot h.ordered rfl
    · cases hstep
  | write r' =>
    simp only [EventFeed.step] at hstep
    split at hstep
    · rename_i e rest written owed overflowed hq
      cases hstep
      refine h.set rfl rfl (fun _ _ => rfl) (fun hch => ?_) ?_
      · exact absurd (h.unsubscribed hq (by simp)) hch
      · rintro rfl
        exact (h.served _ hq).write rfl
    · cases hstep
  | subscribe r' =>
    simp only [EventFeed.step] at hstep
    split at hstep
    · rename_i written owed overflowed hq
      cases hstep
      have hfresh : s.bus.channel r' = none := h.unsubscribed hq (by simp)
      refine h.set rfl rfl (fun x hx => ?_) (fun _ => .inl rfl) ?_
      · rw [EventBus.channel_subscribe, if_neg (Ne.symm hx), Option.or_none]
      · rintro rfl
        refine (h.served _ hq).subscribe rfl ?_
        show (s.bus.subscribe r').channel r' = some []
        rw [EventBus.channel_subscribe, hfresh, if_pos rfl]
        rfl
    · cases hstep
  | receive r' =>
    simp only [EventFeed.step] at hstep
    split at hstep
    · rename_i written owed overflowed e rest hq hch
      cases hstep
      refine h.set rfl rfl (fun x hx => ?_) (fun _ => .inl rfl) ?_
      · rw [EventBus.channel_receive]
        simp only [hx, if_false]
        exact Option.map_id_apply
      · rintro rfl
        refine (h.served _ hq).receive rfl hch ?_
        show (s.bus.receive r').channel r' = some rest
        rw [EventBus.channel_receive, hch, Option.map_some, if_pos rfl]
        rfl
    · cases hstep
  | leave r' =>
    simp only [EventFeed.step] at hstep
    split at hstep
    · rename_i written owed overflowed hq
      cases hstep
      refine h.set rfl rfl (fun x hx => EventBus.channel_cancel _ hx) (fun _ => .inr rfl) ?_
      rintro rfl
      exact (h.served _ hq).leave rfl
    · cases hstep

/-- A client receives what was retained at the snapshot and all that is emitted afterwards, each
event once and in order, if nothing is emitted while the snapshot is written. -/
theorem stream_complete {capacity : Nat} {actions : List EventAction}
    (hrun : run EventFeed.step (new capacity) actions = some s)
    (hquiet : Along EventFeed.step (Undisturbed r) (new capacity) actions)
    (hq : s.requests r = some q) (hover : q.overflowed = false) :
    (q.owed.Pairwise fun e e' => e.seq < e'.seq) ∧ s.Received r q := by
  have hsound : s.Sound r :=
    run_invariant (fun _ _ _ hsound hallowed hstep => hsound.step hallowed hstep)
      (sound_new capacity r) hquiet hrun
  have hserved := hsound.served q hq
  exact ⟨hserved.sorted, hserved.received hover⟩

/-- An event before the snapshot, and one after the subscription. -/
def calmActions : List EventAction :=
  [.emit "" "up" "info" "" "a", .arrive 0 0, .snapshot 0, .write 0, .subscribe 0,
    .emit "" "up" "info" "" "b", .receive 0]

/-- The client has both events. -/
theorem calm_stream_complete :
    ∃ s q, run EventFeed.step (new 500) calmActions = some s ∧ s.requests 0 = some q ∧
      s.bus.channel 0 = some [] ∧ q.written.map EvtJSON.seq = [1, 2] ∧
      (q.owed.Pairwise fun e e' => e.seq < e'.seq) ∧ s.Received 0 q := by
  obtain ⟨s, hrun, hwritten, hch⟩ := exists_run_of_decide
    (P := fun s => (s.requests 0).any (fun q => ! q.overflowed &&
      decide (q.written.map EvtJSON.seq = [1, 2])) = true ∧ s.bus.channel 0 = some [])
    (show (run EventFeed.step (new 500) calmActions).any _ = true by decide +kernel)
  obtain ⟨q, hq, hfacts⟩ := (Option.any_eq_true _ _).mp hwritten
  obtain ⟨hover, hseqs⟩ := Bool.and_eq_true_iff.mp hfacts
  exact ⟨s, q, hrun, hq, hch, of_decide_eq_true hseqs,
    stream_complete hrun (by decide +kernel) hq (by simpa using hover)⟩

/-- The same with an event between the snapshot and the subscription. -/
def gapActions : List EventAction :=
  [.emit "" "up" "info" "" "a", .arrive 0 0, .snapshot 0, .write 0,
    .emit "" "up" "info" "" "b", .subscribe 0, .emit "" "up" "info" "" "c", .receive 0]

/-- The second event is never sent. -/
theorem emitted_in_between :
    ∃ s q, run EventFeed.step (new 500) gapActions = some s ∧ s.requests 0 = some q ∧
      q.phase = .streaming ∧ q.overflowed = false ∧ s.bus.channel 0 = some [] ∧
      q.written.map EvtJSON.seq = [1, 3] ∧ q.owed.map EvtJSON.seq = [1, 2, 3] ∧
      ¬ s.Received 0 q := by
  obtain ⟨s, hrun, hfacts, hch⟩ := exists_run_of_decide
    (P := fun s => (s.requests 0).any (fun q => decide (q.phase = .streaming ∧
      q.overflowed = false ∧ q.written.map EvtJSON.seq = [1, 3] ∧
      q.owed.map EvtJSON.seq = [1, 2, 3])) = true ∧ s.bus.channel 0 = some [])
    (show (run EventFeed.step (new 500) gapActions).any _ = true by decide +kernel)
  obtain ⟨q, hq, hfacts⟩ := (Option.any_eq_true _ _).mp hfacts
  obtain ⟨hphase, hover, hwritten, howed⟩ := of_decide_eq_true hfacts
  refine ⟨s, q, hrun, hq, hphase, hover, hch, hwritten, howed, fun hreceived => ?_⟩
  unfold Received at hreceived
  rw [hphase] at hreceived
  obtain ⟨ch, hch', heq⟩ := hreceived
  rw [hch] at hch'
  cases hch'
  rw [append_nil] at heq
  rw [heq, howed] at hwritten
  cases hwritten

end EventFeed

end TlsVpn.Panel
