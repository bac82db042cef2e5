import TlsVpn.Fec.Agreement
import TlsVpn.Lib.Run

/-!
# The counters of the process

A process shares one pair of counters among its decoders, which outlives them. A decoder adds to the
pair if the place that created it attached the pair, and the recovery of the receive worker adds to
the decoder's own counter only.

`lifetime_counts_decoders` shows that the pair is the sum over all decoders ever created, in every
run that hands frames only to decoders that take part. `recoveries_not_counted` is a run of a server
with a receive worker, and one with an epoch rotation.
-/

namespace TlsVpn.Fec

open Lib Crypto List

/-! ## The process -/

/-- The three places that create a decoder: a new session of the server, an epoch rotation of the
server, and the client. -/
inductive Origin where
  | session
  | rotation
  | client
  deriving DecidableEq, Repr

/-- The place attaches the counters of the process. -/
def Origin.Attaches : Origin → Prop
  | .session | .client => True
  | .rotation => False

instance : DecidablePred Origin.Attaches
  | .session => isTrue trivial
  | .rotation => isFalse id
  | .client => isTrue trivial

/-- A decoder of the process, with the receive mode of its session. -/
structure Created where
  probed : Probed
  origin : Origin
  worker : Bool

namespace Created

/-- A decoder with its probe installed. -/
def new (origin : Origin) (worker single : Bool) (k : Nat) (ic : Option InnerCipher)
    (answers : Nat → Nat) : Created :=
  { probed :=
      { decoder := { FecDecoder.new k ic with staticSingle := single }
        probe := { installed := true, answers, used := 0 } }
    origin
    worker }

/-- The decoder is reset. -/
def reset (c : Created) : Created := { c with probed := c.probed.setDecoder c.probed.decoder.reset }

/-- The decoder with the counters it would add to. -/
def share (c : Created) (lifetime : FecLifetimeCounters) : Probed :=
  c.probed.setDecoder
    { c.probed.decoder with lifetime := if c.origin.Attaches then some lifetime else none }

/-- Hand over one frame or control, and return what the counters are afterwards. -/
def receive (c : Created) (lifetime : FecLifetimeCounters) (input : Input) :
    Created × FecLifetimeCounters :=
  let next := if c.worker then ((c.share lifetime).feedActor input).1
    else ((c.share lifetime).feed input).1
  ({ c with probed := next }, next.decoder.lifetime.getD lifetime)

end Created

/-- A session of the server, as far as its decoder is concerned. -/
structure FecSession where
  fecEncK : Nat
  worker : Bool
  fecDec : Option Nat

/-- A process: a server, or a client with a number of connections. -/
inductive Role where
  | server
  | client (conns : Nat)
  deriving DecidableEq, Repr

/-- The decoders of a process and the counters they share. -/
structure Process where
  role : Role
  lifetime : FecLifetimeCounters
  /-- Every decoder ever created, oldest first. -/
  decoders : List Created
  /-- The sessions of a server, by client. -/
  sessions : Nat → Option FecSession
  /-- The decoder of a client. -/
  fecDec : Option Nat

/-- What creates decoders, and what they receive. -/
inductive ProcessAction where
  | createSession (client fecEncK brutalConns : Nat) (brutalGroups : Bool) (ic : Option InnerCipher)
      (answers : Nat → Nat)
  | rotateSessionEpoch (client brutalConns : Nat) (brutalGroups : Bool) (ic : Option InnerCipher)
      (answers : Nat → Nat)
  | destroySession (client : Nat)
  | adopt (isNewSession rebuild : Bool) (fecNegotiated : Nat) (ic : Option InnerCipher)
      (answers : Nat → Nat)
  | receive (decoder : Nat) (input : Input)

/-- A topology of exactly one connection, which is served without a receive worker. -/
def isStaticSinglePathTopology (conns : Nat) : Bool := conns = 1

namespace Process

/-- A process without decoders. -/
def new (role : Role) : Process :=
  { role, lifetime := ⟨0, 0⟩, decoders := [], sessions := fun _ => none, fecDec := none }

/-- Resets a decoder, if there is one. -/
def resetDecoder (s : Process) (decoder : Option Nat) : Process :=
  match decoder with
  | none => s
  | some i => { s with decoders := s.decoders.modify i Created.reset }

/-- Append a decoder. Its index is the number of decoders before. -/
def create (s : Process) (c : Created) : Process := { s with decoders := s.decoders ++ [c] }

/-- Writes the session of a client. -/
def setSession (s : Process) (client : Nat) (session : Option FecSession) : Process :=
  { s with sessions := Function.update s.sessions client session }

/-- A session has a decoder if FEC is negotiated. -/
def createSession (s : Process) (client fecEncK brutalConns : Nat) (brutalGroups : Bool)
    (ic : Option InnerCipher) (answers : Nat → Nat) : Process :=
  let worker := !isStaticSinglePathTopology brutalConns
  if fecEncK > 0 then
    (s.create (.new .session worker (brutalGroups && isStaticSinglePathTopology brutalConns) fecEncK
      ic answers)).setSession client (some ⟨fecEncK, worker, some s.decoders.length⟩)
  else s.setSession client (some ⟨fecEncK, worker, none⟩)

/-- The old decoder is reset, by the worker at its barrier or in place, and the new one starts
without the counters. The handshake that rotates the epoch sets its static single path. -/
def rotateSessionEpoch (s : Process) (client : Nat) (session : FecSession) (brutalConns : Nat)
    (brutalGroups : Bool) (ic : Option InnerCipher) (answers : Nat → Nat) : Process :=
  let s := s.resetDecoder session.fecDec
  if session.fecEncK > 0 then
    (s.create (.new .rotation session.worker
      (brutalGroups && isStaticSinglePathTopology brutalConns) session.fecEncK ic
      answers)).setSession client (some { session with fecDec := some s.decoders.length })
  else s

/-- The client adopts a response. -/
def adopt (s : Process) (conns : Nat) (isNewSession rebuild : Bool) (fecNegotiated : Nat)
    (ic : Option InnerCipher) (answers : Nat → Nat) : Process :=
  let worker := !isStaticSinglePathTopology conns
  let s := if isNewSession && worker then s.resetDecoder s.fecDec else s
  if rebuild then
    let s := if worker then s else s.resetDecoder s.fecDec
    { s.create
      (.new .client worker (isStaticSinglePathTopology conns) fecNegotiated ic answers) with
      fecDec := some s.decoders.length }
  else s

/-- A step that cannot be taken gives none. -/
def step (s : Process) : ProcessAction → Option Process
  | .createSession client fecEncK conns groups ic answers =>
    match s.role, s.sessions client with
    | .server, none => some (s.createSession client fecEncK conns groups ic answers)
    | _, _ => none
  | .rotateSessionEpoch client conns groups ic answers =>
    match s.role, s.sessions client with
    | .server, some session =>
      some (s.rotateSessionEpoch client session conns groups ic answers)
    | _, _ => none
  | .destroySession client =>
    match s.role, s.sessions client with
    | .server, some _ => some (s.setSession client none)
    | _, _ => none
  | .adopt isNewSession rebuild fecNegotiated ic answers =>
    match s.role with
    | .client conns => some (s.adopt conns isNewSession rebuild fecNegotiated ic answers)
    | .server => none
  -- a reader keeps the decoder of its connection, so older decoders still receive
  | .receive decoder input =>
    match s.decoders[decoder]? with
    | none => none
    | some c =>
      let (next, lifetime) := c.receive s.lifetime input
      some { s with lifetime, decoders := s.decoders.set decoder next }

/-- The frames that all decoders recovered. -/
def recovered (s : Process) : Nat := (s.decoders.map (·.probed.decoder.recovered)).sum

/-- The frames that all decoders counted as lost. -/
def lost (s : Process) : Nat := (s.decoders.map (·.probed.decoder.lost)).sum

/-- A decoder that receives was not created by an epoch rotation. -/
def ToAttached (s : Process) : ProcessAction → Prop
  | .receive decoder _ => (s.decoders[decoder]?).all (fun c => c.origin ≠ .rotation) = true
  | _ => True

/-- A decoder that receives was not created by an epoch rotation and has no receive worker. -/
def ToCounting (s : Process) : ProcessAction → Prop
  | .receive decoder _ =>
    (s.decoders[decoder]?).all (fun c => c.origin ≠ .rotation ∧ c.worker = false) = true
  | _ => True

instance (s : Process) : DecidablePred s.ToAttached
  | .receive _ _ => inferInstanceAs (Decidable (_ = true))
  | .createSession _ _ _ _ _ _ | .rotateSessionEpoch _ _ _ _ _ | .destroySession _
  | .adopt _ _ _ _ _ => isTrue trivial

instance (s : Process) : DecidablePred s.ToCounting
  | .receive _ _ => inferInstanceAs (Decidable (_ = true))
  | .createSession _ _ _ _ _ _ | .rotateSessionEpoch _ _ _ _ _ | .destroySession _
  | .adopt _ _ _ _ _ => isTrue trivial

end Process

/-! ## What one call adds -/

/-- From `d` to `d'` the decoder recovers and loses some frames, and the counters of the process
grow by the same losses, and by the same recoveries if `shared`. -/
def Accounts (shared : Bool) (d d' : FecDecoder) : Prop :=
  ∃ recovered lost, d'.recovered = d.recovered + recovered ∧ d'.lost = d.lost + lost ∧
    d'.lifetime = d.lifetime.map fun c =>
      { recovered := c.recovered + if shared then recovered else 0, lost := c.lost + lost }

namespace Accounts

variable {shared : Bool} {d d' d'' : FecDecoder}

/-- A call that leaves all three counters. -/
theorem of_eq (hrecovered : d'.recovered = d.recovered) (hlost : d'.lost = d.lost)
    (hlifetime : d'.lifetime = d.lifetime) : Accounts shared d d' := by
  refine ⟨0, 0, hrecovered, hlost, ?_⟩
  rw [hlifetime]
  cases d.lifetime with
  | none => rfl
  | some c => cases shared <;> rfl

theorem refl (d : FecDecoder) : Accounts shared d d := of_eq rfl rfl rfl

theorem trans (h : Accounts shared d d') (h' : Accounts shared d' d'') : Accounts shared d d'' := by
  obtain ⟨r, l, hr, hl, hlifetime⟩ := h
  obtain ⟨r', l', hr', hl', hlifetime'⟩ := h'
  refine ⟨r + r', l + l', ?_, ?_, ?_⟩
  · rw [hr', hr, Nat.add_assoc]
  · rw [hl', hl, Nat.add_assoc]
  · rw [hlifetime', hlifetime, Option.map_map]
    congr 1
    funext c
    cases shared <;> simp [Nat.add_assoc]

end Accounts

/-- The three counters are those of before. -/
def SameCounters (d d' : FecDecoder) : Prop :=
  d'.recovered = d.recovered ∧ d'.lost = d.lost ∧ d'.lifetime = d.lifetime

theorem SameCounters.accounts {shared : Bool} {d d' : FecDecoder} (h : SameCounters d d') :
    Accounts shared d d' := Accounts.of_eq h.1 h.2.1 h.2.2

theorem SameCounters.trans {d d' d'' : FecDecoder} (h : SameCounters d d')
    (h' : SameCounters d' d'') : SameCounters d d'' :=
  ⟨h'.1.trans h.1, h'.2.1.trans h.2.1, h'.2.2.trans h.2.2⟩

namespace FecDecoder

theorem prune_same_counters (d : FecDecoder) : SameCounters d d.pruneGroupOrder := by
  unfold pruneGroupOrder
  dsimp only
  repeat' split
  all_goals exact ⟨rfl, rfl, rfl⟩

theorem evict_from_same_counters (d : FecDecoder) (order : List Nat) :
    SameCounters d (d.evictFrom order) := by
  induction order generalizing d with
  | nil => exact ⟨rfl, rfl, rfl⟩
  | cons start rest ih =>
    unfold evictFrom
    split
    · exact ⟨rfl, rfl, rfl⟩
    · exact ih { d with groupHead := d.groupHead + 1 }

theorem new_group_same_counters (d : FecDecoder) (start : Nat) :
    SameCounters d (d.newGroup start) := by
  have hadd : ∀ room : FecDecoder, SameCounters d room → SameCounters d
      { room with
        groups := room.groups.insert start (.new start)
        groupOrder := room.groupOrder ++ [start] } := fun _ hroom => hroom
  have hpruned := d.prune_same_counters
  refine hadd _ ?_
  split
  · have hevicted := evict_from_same_counters d.pruneGroupOrder
      (d.pruneGroupOrder.groupOrder.drop d.pruneGroupOrder.groupHead)
    exact hpruned.trans (hevicted.trans (prune_same_counters _))
  · exact hpruned

theorem open_group_same_counters (d : FecDecoder) (start : Nat) :
    SameCounters d (d.openGroup start).1 := by
  unfold openGroup
  split
  · exact ⟨rfl, rfl, rfl⟩
  · exact d.new_group_same_counters start

theorem drop_groups_same_counters (d : FecDecoder) (p : Nat → Bool) :
    SameCounters d (d.dropGroups p) := by
  unfold dropGroups
  dsimp only
  split
  · exact ⟨rfl, rfl, rfl⟩
  · exact SameCounters.trans ⟨rfl, rfl, rfl⟩ (prune_same_counters _)

theorem drop_groups_in_range_same_counters (d : FecDecoder) (fromSeq untilSeq : Nat) :
    SameCounters d (d.dropGroupsInRange fromSeq untilSeq) := by
  unfold dropGroupsInRange
  split
  · exact ⟨rfl, rfl, rfl⟩
  · exact drop_groups_same_counters _ _

theorem finish_group_accounts (shared : Bool) (d : FecDecoder) (g : FecGroupState) :
    Accounts shared d (d.finishGroup g) := by
  refine ⟨0, if g.k > 0 ∧ g.parity ≠ none then g.missing.length else 0, rfl, rfl, ?_⟩
  cases shared <;> rfl

/-- The recovery under the mutex adds to both counters. -/
theorem try_recover_accounts (d : FecDecoder) (g : FecGroupState) :
    Accounts true d (d.tryRecover g).1 := by
  unfold tryRecover
  split
  · exact .refl d
  · split
    · exact .refl d
    · split
      · exact d.finish_group_accounts true g
      · split
        · exact d.finish_group_accounts true g
        · exact (d.finish_group_accounts true _).trans ⟨1, 0, rfl, rfl, rfl⟩
      · exact .refl d

end FecDecoder

namespace Probed

/-- The recovery of the worker adds to the decoder's own counter only. -/
theorem try_recover_actor_accounts (d : FecDecoder) (g : FecGroupState) :
    Accounts false d (tryRecoverActor d g).1 := by
  unfold tryRecoverActor
  split
  · exact .refl d
  · split
    · exact .refl d
    · split
      · exact d.finish_group_accounts false g
      · split
        · exact d.finish_group_accounts false g
        · refine (d.finish_group_accounts false _).trans ⟨1, 0, rfl, rfl, ?_⟩
          exact Option.map_id'.symm
      · exact .refl d

theorem maybe_retire_same_counters (p : Probed) :
    SameCounters p.decoder p.maybeRetireOldGroupsLocked.decoder := by
  unfold maybeRetireOldGroupsLocked
  dsimp only
  split
  · exact ⟨rfl, rfl, rfl⟩
  · split
    · exact ⟨rfl, rfl, rfl⟩
    · exact SameCounters.trans ⟨rfl, rfl, rfl⟩ (FecDecoder.drop_groups_same_counters _ _)

theorem store_parity_same_counters (d : FecDecoder) (start : Nat) (payload : Bytes) :
    SameCounters d (storeParity d start payload).1 := by
  refine (d.open_group_same_counters start).trans ?_
  unfold storeParity
  dsimp only
  split
  · exact ⟨rfl, rfl, rfl⟩
  · exact ⟨rfl, rfl, rfl⟩

section Recover

variable {shared : Bool} {recover : FecDecoder → FecGroupState → FecDecoder × Option (Nat × Bytes)}
  (hrecover : ∀ d g, Accounts shared d (recover d g).1)

include hrecover

theorem count_member_accounts (d : FecDecoder) (seq : Nat) (frame : Bytes) :
    Accounts shared d (countMember d seq frame recover).1 := by
  have hopen : Accounts shared d (d.openGroup (d.groupStartOf seq)).1 :=
    (d.open_group_same_counters _).accounts
  refine hopen.trans ?_
  unfold countMember countInto
  dsimp only
  split
  · exact .refl _
  · split
    · exact FecDecoder.finish_group_accounts shared _ _
    · exact (SameCounters.accounts ⟨rfl, rfl, rfl⟩).trans (hrecover _ _)

theorem data_with_accounts (p : Probed) (seq : Nat) (frame : Bytes) :
    Accounts shared p.decoder (dataWith recover p seq frame).1.decoder := by
  unfold dataWith
  split
  · exact .refl _
  · split
    · dsimp only
      split
      · exact p.maybe_retire_same_counters.accounts
      · exact .refl _
    · split
      · exact .refl _
      · split
        · exact .refl _
        · exact count_member_accounts hrecover p.decoder seq frame

theorem parity_with_accounts (p : Probed) (payload : Bytes) :
    Accounts shared p.decoder (parityWith recover p payload).1.decoder := by
  unfold parityWith
  dsimp only
  have hprobed : Accounts shared p.decoder p.maybeRetireOldGroupsLocked.decoder :=
    p.maybe_retire_same_counters.accounts
  generalize p.maybeRetireOldGroupsLocked = q at hprobed
  generalize uint ((payload.drop 1).take 4) = start
  have hstore : Accounts shared q.decoder (storeParity q.decoder start payload).1 :=
    (store_parity_same_counters q.decoder start payload).accounts
  split
  · exact .refl _
  · refine hprobed.trans ?_
    split
    · exact .refl _
    · split
      · exact .refl _
      · split
        · exact .refl _
        · split
          · exact .refl _
          · split
            · rename_i stored hnone
              rw [hnone] at hstore
              exact hstore
            · rename_i stored held hsome
              rw [hsome] at hstore
              have hdone := hstore.trans (hrecover stored held)
              exact hdone.trans (maybe_retire_same_counters _).accounts

end Recover

theorem handle_mode_control_same_counters (p : Probed) (ctrl : FecModeControl) :
    SameCounters p.decoder (p.handleModeControl ctrl).decoder := by
  unfold handleModeControl
  dsimp only
  split
  · exact ⟨rfl, rfl, rfl⟩
  · split
    · exact ⟨rfl, rfl, rfl⟩
    · refine SameCounters.trans ?_ (maybe_retire_same_counters _)
      exact SameCounters.trans ⟨rfl, rfl, rfl⟩ (FecDecoder.drop_groups_in_range_same_counters _ _ _)

/-- A call under the mutex adds to the counters of the process what it adds to its own. -/
theorem feed_accounts (p : Probed) (input : Input) :
    Accounts true p.decoder (p.feed input).1.decoder := by
  cases input with
  | data vf =>
    show Accounts true p.decoder (p.onData vf.seq vf.data).1.decoder
    rw [on_data_eq]
    exact data_with_accounts FecDecoder.try_recover_accounts p vf.seq vf.data
  | control payload =>
    show Accounts true p.decoder (p.onControlWithScratch payload).1.decoder
    unfold onControlWithScratch
    split
    · exact .refl _
    · split
      · rw [on_parity_eq]
        exact parity_with_accounts FecDecoder.try_recover_accounts p payload
      · split
        · split
          · exact .refl _
          · exact (p.handle_mode_control_same_counters _).accounts
        · exact .refl _

/-- A call of the worker adds only its losses to the counters of the process. -/
theorem feed_actor_accounts (p : Probed) (input : Input) :
    Accounts false p.decoder (p.feedActor input).1.decoder := by
  cases input with
  | data vf => exact data_with_accounts try_recover_actor_accounts p vf.seq vf.data
  | control payload =>
    show Accounts false p.decoder (p.onControlActorWithScratch payload).1.decoder
    unfold onControlActorWithScratch
    split
    · exact .refl _
    · split
      · exact parity_with_accounts try_recover_actor_accounts p payload
      · split
        · split
          · exact .refl _
          · exact (p.handle_mode_control_same_counters _).accounts
        · exact .refl _

end Probed

/-! ## Totals of the process -/

/-- A decoder that has the counters attached passes its losses on, and its recoveries unless it
belongs to a worker. -/
theorem Created.receive_counts (c : Created) (lifetime : FecLifetimeCounters) (input : Input)
    (hattached : c.origin ≠ .rotation) :
    ∃ recovered lost,
      (c.receive lifetime input).1.probed.decoder.recovered =
        c.probed.decoder.recovered + recovered ∧
      (c.receive lifetime input).1.probed.decoder.lost = c.probed.decoder.lost + lost ∧
      (c.receive lifetime input).2 =
        { recovered := lifetime.recovered + if c.worker then 0 else recovered
          lost := lifetime.lost + lost } := by
  have hshare : (c.share lifetime).decoder.lifetime = some lifetime := by
    have hattaches : c.origin.Attaches := by
      cases horigin : c.origin with
      | session => trivial
      | rotation => exact absurd horigin hattached
      | client => trivial
    exact if_pos hattaches
  unfold receive
  cases c.worker with
  | true =>
    obtain ⟨recovered, lost, hrecovered, hlost, hlifetime⟩ :=
      (c.share lifetime).feed_actor_accounts input
    refine ⟨recovered, lost, hrecovered, hlost, ?_⟩
    simp only [if_true, hlifetime, hshare, Option.map_some, Option.getD_some,
      Bool.false_eq_true, if_false]
  | false =>
    obtain ⟨recovered, lost, hrecovered, hlost, hlifetime⟩ :=
      (c.share lifetime).feed_accounts input
    refine ⟨recovered, lost, hrecovered, hlost, ?_⟩
    simp only [if_true, Bool.false_eq_true, if_false, hlifetime, hshare, Option.map_some,
      Option.getD_some]

/-- Replacing one entry changes a sum by the entry's change. -/
theorem sum_map_set {α : Type} {f : α → Nat} {l : List α} {i n : Nat} {a b : α}
    (hentry : l[i]? = some a) (hchange : f b = f a + n) :
    ((l.set i b).map f).sum = (l.map f).sum + n := by
  induction l generalizing i with
  | nil => cases hentry
  | cons head tail ih =>
    cases i with
    | zero =>
      cases hentry
      simp only [set_cons_zero, map_cons, sum_cons, hchange]
      omega
    | succ i =>
      simp only [set_cons_succ, map_cons, sum_cons, ih hentry]
      omega

namespace Process

/-- The totals and the counters are those of before. -/
def SameTotals (s s' : Process) : Prop :=
  s'.recovered = s.recovered ∧ s'.lost = s.lost ∧ s'.lifetime = s.lifetime

variable {s s' : Process}

theorem SameTotals.trans {s'' : Process} (h : SameTotals s s') (h' : SameTotals s' s'') :
    SameTotals s s'' := ⟨h'.1.trans h.1, h'.2.1.trans h.2.1, h'.2.2.trans h.2.2⟩

theorem reset_decoder_same_totals (s : Process) (decoder : Option Nat) :
    SameTotals s (s.resetDecoder decoder) := by
  have hmap : ∀ (f : Created → Nat) (i : Nat), (∀ c : Created, f c.reset = f c) →
      (s.decoders.modify i Created.reset).map f = s.decoders.map f := by
    intro f i hreset
    induction s.decoders generalizing i with
    | nil => cases i <;> rfl
    | cons head tail ih =>
      cases i with
      | zero => simp only [modify_zero_cons, map_cons, hreset]
      | succ i => simp only [modify_succ_cons, map_cons, ih]
  cases decoder with
  | none => exact ⟨rfl, rfl, rfl⟩
  | some i =>
    exact ⟨congrArg List.sum (hmap _ i fun _ => rfl), congrArg List.sum (hmap _ i fun _ => rfl),
      rfl⟩

/-- A new decoder has counted nothing. -/
theorem create_same_totals (s : Process) (origin : Origin) (worker single : Bool) (k : Nat)
    (ic : Option InnerCipher) (answers : Nat → Nat) :
    SameTotals s (s.create (.new origin worker single k ic answers)) := by
  refine ⟨?_, ?_, rfl⟩
  · simp only [recovered, create, map_append, sum_append]
    rfl
  · simp only [lost, create, map_append, sum_append]
    rfl

theorem adopt_same_totals (s : Process) (conns : Nat) (isNewSession rebuild : Bool)
    (fecNegotiated : Nat) (ic : Option InnerCipher) (answers : Nat → Nat) :
    SameTotals s (s.adopt conns isNewSession rebuild fecNegotiated ic answers) := by
  have hreset :
      ∀ (s : Process) (b : Bool), SameTotals s (if b then s.resetDecoder s.fecDec else s) ∧
      SameTotals s (if b then s else s.resetDecoder s.fecDec) := by
    intro s b
    cases b with
    | true => exact ⟨s.reset_decoder_same_totals _, rfl, rfl, rfl⟩
    | false => exact ⟨⟨rfl, rfl, rfl⟩, s.reset_decoder_same_totals _⟩
  unfold adopt
  dsimp only
  have hfirst := (hreset s (isNewSession && !isStaticSinglePathTopology conns)).1
  generalize (if (isNewSession && !isStaticSinglePathTopology conns) = true then
    s.resetDecoder s.fecDec else s) = t at hfirst ⊢
  refine hfirst.trans ?_
  cases rebuild with
  | true =>
    exact (hreset t (!isStaticSinglePathTopology conns)).2.trans
      (create_same_totals _ .client _ _ fecNegotiated ic answers)
  | false => exact ⟨rfl, rfl, rfl⟩

variable {a : ProcessAction}

/-- Only a call of a decoder changes the totals. -/
theorem step_same_totals (hstep : s.step a = some s')
    (hquiet : ∀ decoder input, a ≠ .receive decoder input) : SameTotals s s' := by
  cases a with
  | createSession client fecEncK conns groups ic answers =>
    simp only [step] at hstep
    split at hstep
    · cases hstep
      unfold createSession
      dsimp only
      split
      · exact s.create_same_totals _ _ _ _ _ _
      · exact ⟨rfl, rfl, rfl⟩
    · cases hstep
  | rotateSessionEpoch client conns groups ic answers =>
    simp only [step] at hstep
    split at hstep
    · rename_i session _ _
      cases hstep
      unfold rotateSessionEpoch
      dsimp only
      refine (s.reset_decoder_same_totals session.fecDec).trans ?_
      split
      · exact create_same_totals _ _ _ _ _ _ _
      · exact ⟨rfl, rfl, rfl⟩
    · cases hstep
  | destroySession client =>
    simp only [step] at hstep
    split at hstep
    · cases hstep
      exact ⟨rfl, rfl, rfl⟩
    · cases hstep
  | adopt isNewSession rebuild fecNegotiated ic answers =>
    simp only [step] at hstep
    split at hstep
    · cases hstep
      exact s.adopt_same_totals _ _ _ _ _ _
    · cases hstep
  | receive decoder input => exact absurd rfl (hquiet decoder input)

/-- What a call of a decoder with the counters attached adds to the totals. -/
theorem receive_totals {decoder : Nat} {input : Input}
    (hstep : s.step (.receive decoder input) = some s')
    (hattached : s.ToAttached (.receive decoder input)) :
    ∃ c recovered lost, s.decoders[decoder]? = some c ∧
      s'.recovered = s.recovered + recovered ∧ s'.lost = s.lost + lost ∧
      s'.lifetime =
        { recovered := s.lifetime.recovered + if c.worker then 0 else recovered
          lost := s.lifetime.lost + lost } := by
  simp only [step] at hstep
  cases hentry : s.decoders[decoder]? with
  | none => simp only [hentry, reduceCtorEq] at hstep
  | some c =>
    simp only [hentry, Option.some.injEq] at hstep
    have horigin : c.origin ≠ .rotation := by
      simp only [ToAttached, hentry, Option.all_some, decide_eq_true_eq] at hattached
      exact hattached
    obtain ⟨recovered, lost, hrecovered, hlost, hlifetime⟩ :=
      c.receive_counts s.lifetime input horigin
    subst hstep
    exact ⟨c, recovered, lost, rfl, sum_map_set hentry hrecovered, sum_map_set hentry hlost,
      hlifetime⟩

/-- The counters of the process agree with the losses of its decoders. -/
def LossesCounted (s : Process) : Prop := s.lifetime.lost = s.lost

/-- The counters of the process agree with the recoveries of its decoders. -/
def RecoveriesCounted (s : Process) : Prop := s.lifetime.recovered = s.recovered

/-- A decoder with the counters adds to both. -/
theorem LossesCounted.step (h : s.LossesCounted) (hattached : s.ToAttached a)
    (hstep : s.step a = some s') : s'.LossesCounted := by
  unfold LossesCounted at h ⊢
  cases a with
  | receive decoder input =>
    obtain ⟨c, recovered, lost, _, _, hlost, hlifetime⟩ := receive_totals hstep hattached
    rw [hlifetime, hlost, h]
  | _ =>
    obtain ⟨_, hlost, hlifetime⟩ := step_same_totals hstep nofun
    rw [hlifetime, hlost, h]

theorem ToCounting.toAttached (h : s.ToCounting a) : s.ToAttached a := by
  cases a with
  | receive decoder input =>
    unfold ToCounting at h
    unfold ToAttached
    cases hentry : s.decoders[decoder]? with
    | none => simp only [hentry, Option.all_none]
    | some c =>
      simp only [hentry, Option.all_some, decide_eq_true_eq] at h ⊢
      exact h.1
  | _ => trivial

/-- Without a worker a recovery is added to both. -/
theorem RecoveriesCounted.step (h : s.RecoveriesCounted) (hcounting : s.ToCounting a)
    (hstep : s.step a = some s') : s'.RecoveriesCounted := by
  unfold RecoveriesCounted at h ⊢
  cases a with
  | receive decoder input =>
    obtain ⟨c, recovered, lost, hentry, hrecovered, _, hlifetime⟩ :=
      receive_totals hstep hcounting.toAttached
    have hdirect : c.worker = false := by
      simp only [ToCounting, hentry, Option.all_some, decide_eq_true_eq] at hcounting
      exact hcounting.2
    rw [hlifetime, hrecovered, h, hdirect]
    rfl
  | _ =>
    obtain ⟨hrecovered, _, hlifetime⟩ := step_same_totals hstep nofun
    rw [hlifetime, hrecovered, h]

/-- In every run that hands frames only to decoders with the counters attached, the counters of the
process are the losses of all its decoders. If these decoders have no receive worker either, they
are the recoveries too. -/
theorem lifetime_counts_decoders (role : Role) {actions : List ProcessAction} {s : Process}
    (hrun : run step (new role) actions = some s) :
    (Along step ToAttached (new role) actions → s.lifetime.lost = s.lost) ∧
      (Along step ToCounting (new role) actions →
        s.lifetime.recovered = s.recovered ∧ s.lifetime.lost = s.lost) := by
  have hlost : Along step ToAttached (new role) actions → s.LossesCounted := fun halong =>
    run_invariant (fun _ _ _ hinv hallowed hstep => LossesCounted.step hinv hallowed hstep)
      (show (new role).LossesCounted from rfl) halong hrun
  have hrecovered : Along step ToCounting (new role) actions → s.RecoveriesCounted := fun halong =>
    run_invariant (fun _ _ _ hinv hallowed hstep => RecoveriesCounted.step hinv hallowed hstep)
      (show (new role).RecoveriesCounted from rfl) halong hrun
  exact ⟨hlost, fun halong => ⟨hrecovered halong,
    hlost (halong.mono fun _ _ => ToCounting.toAttached)⟩⟩

/-- A frame and the parity record of its group, from which the other frame is recovered. -/
def lossyGroup (decoder : Nat) : List ProcessAction :=
  [.receive decoder (.data ⟨1, [5]⟩),
    .receive decoder (.control [1, 0, 0, 0, 1, 2, 0, 0, 0, 1, 0, 0, 0, 1, 3])]

/-- A server session of a peer with `conns` connections and without group semantics. -/
def plainSession (conns : Nat) : ProcessAction := .createSession 0 2 conns false none fun _ => 0

/-- The recovery of a session without a worker is counted. -/
theorem direct_recovery_counted :
    ∃ s, run step (new .server) (plainSession 1 :: lossyGroup 0) = some s ∧ s.recovered = 1 ∧
      s.lifetime.recovered = 1 := by
  obtain ⟨s, hrun, hend⟩ : ∃ s, run step (new .server) (plainSession 1 :: lossyGroup 0) = some s ∧
      s.recovered = 1 := exists_run_of_decide (by decide +kernel)
  have hcounted := ((lifetime_counts_decoders .server hrun).2 (by decide +kernel)).1
  exact ⟨s, hrun, hend, hcounted.trans hend⟩

/-- The recovery of a session with a worker is not counted, and neither is the recovery of a session
without one after its epoch has been rotated. -/
theorem recoveries_not_counted :
    (∃ s, run step (new .server) (plainSession 2 :: lossyGroup 0) = some s ∧ s.recovered = 1 ∧
      s.lifetime.recovered = 0) ∧
    ∃ s, run step (new .server)
        (plainSession 1 :: .rotateSessionEpoch 0 1 false none (fun _ => 0) :: lossyGroup 1) =
          some s ∧
      s.recovered = 1 ∧ s.lifetime.recovered = 0 :=
  ⟨exists_run_of_decide (by decide +kernel), exists_run_of_decide (by decide +kernel)⟩

end Process

end TlsVpn.Fec
