import TlsVpn.Port.Honest
import TlsVpn.Tunnel.Inbound
import TlsVpn.Wire.Record

/-!
# What comes out of the tunnel

One direction of a session in one epoch, from the frames written to the sending port to the frames
that the receiving end hands over in order. The connections are streams that are read in order and
interleaved arbitrarily; one that is not read any more has stalled or died. On each of them numbered
frames are sealed by the writer and opened by the reader. A connection that joins, leaves or fails,
a suspension or a resumption of FEC, a group that is dropped, retired or evicted, a gap that expires
and a queue that overflows are all steps or consequences of steps.

The frames handed over are a part of those numbered by the sender, in the same order: nothing is
invented, altered, repeated or reordered, whatever is lost. Two conditions are needed. The sender
must not drop a batch for want of a backend while it encodes a group (`skipped_batch_delivers_wrong`
is a frame delivered under a number it was not sent with otherwise), and a window of numbers must be
left in the 32-bit space.
-/

namespace TlsVpn.Tunnel

open Lib Crypto Fec Reorder Port Wire Function List

/-- The room of a batch. -/
def rxSessionBatchCap : Nat := 16

/-- The room of the worker's queue. -/
def rxSessionQueueDepth : Nat := 256

/-- One direction of the tunnel. -/
structure Direction where
  /-- The sending port with the history of what was written to it. -/
  sender : Ledger
  /-- The ciphers of the two ends of each connection. -/
  icTx : Nat → Option InnerCipher
  icRx : Nat → Option InnerCipher
  inbound : Inbound
  /-- A worker owns the receiving end, as it does with several connections. -/
  actor : Bool
  /-- The number of frames read from each connection. -/
  consumed : Nat → Nat
  /-- The reader has given the connection up. -/
  stopped : Nat → Bool
  /-- The frame that a reader without a worker has passed through the decoder and not inserted. -/
  hand : Nat → Option VPNFrame
  /-- The batch that the reader of a connection collects. -/
  producer : Nat → List VPNFrame
  /-- The batches that wait for the worker. -/
  queue : List (List VPNFrame)

namespace Direction

/-- Both ends at the start of an epoch with FEC group size `k`. -/
def new (k : Nat) (tx rx : Option InnerCipher) (icTx icRx : Nat → Option InnerCipher)
    (actor : Bool) : Direction :=
  { sender := Ledger.new.note (.reset k tx) (AsyncPort.new.resetEpoch k tx)
    icTx
    icRx
    inbound := .new k rx
    actor
    consumed := fun _ => 0
    stopped := fun _ => false
    hand := fun _ => none
    producer := fun _ => []
    queue := [] }

/-- The next frame on the wire of a connection. -/
def nextFrame (t : Direction) (b : Nat) : Option VPNFrame :=
  (t.sender.port.backend b).taken.flatten[t.consumed b]?

/-- What the reader of a connection makes of a frame. -/
def opened (t : Direction) (b : Nat) (vf : VPNFrame) : Option VPNFrame :=
  (openPayload (t.icRx b) (wirePayload (t.icTx b) vf) vf.seq).map fun data => ⟨vf.seq, data⟩

/-- A frame has been read. -/
def advance (t : Direction) (b : Nat) : Direction :=
  { t with consumed := update t.consumed b (t.consumed b + 1) }

/-- The reader gives up. -/
def stop (t : Direction) (b : Nat) : Direction :=
  { t with stopped := update t.stopped b true }

/-- A reader without a worker takes an opened frame. The probe answers `before` when the decoder
starts and `after` when it retires groups at the end of a record. -/
def take (t : Direction) (b now : Nat) (before after : Option Nat) (vf : VPNFrame) : Direction :=
  if vf.seq = 0 then
    match t.inbound.onControl before after vf.data with
    | none => t.stop b
    | some (inbound, out) => { t with inbound := inbound.insertRecovered now out }
  else
    let counted := t.inbound.onData before vf
    { t with
      inbound := counted.1.insertRecovered now counted.2
      hand := update t.hand b (some vf) }

/-- A reader without a worker reads a frame. One that cannot be opened is lost. -/
def read (t : Direction) (b now : Nat) (before after : Option Nat) : Option Direction :=
  if t.actor = true ∨ t.stopped b = true ∨ (t.hand b).isSome = true then none
  else
    (t.nextFrame b).map fun vf =>
      match t.opened b vf with
      | none => t.advance b
      | some vf => (t.advance b).take b now before after vf

/-- The reader hands its frame to the reorder buffer. -/
def insert (t : Direction) (b now : Nat) : Option Direction :=
  (t.hand b).map fun vf =>
    { t with
      inbound := t.inbound.call (.insert now vf.seq vf)
      hand := update t.hand b none }

/-- The reader of a connection adds a frame to its batch. -/
def push (t : Direction) (b : Nat) : Option Direction :=
  if t.actor = false ∨ t.stopped b = true ∨ rxSessionBatchCap ≤ (t.producer b).length then none
  else
    (t.nextFrame b).map fun vf =>
      match t.opened b vf with
      | none => t.advance b
      | some vf =>
        if vf.seq = 0 ∧ t.inbound.decoder = none then (t.advance b).stop b
        else
          { t.advance b with
            producer := update t.producer b (t.producer b ++ [vf]) }

/-- The batch of a connection goes to the worker. A full queue blocks the reader. -/
def flush (t : Direction) (b : Nat) : Option Direction :=
  if t.producer b = [] ∨ rxSessionQueueDepth ≤ t.queue.length then none
  else
    some { t with
      producer := update t.producer b []
      queue := t.queue ++ [t.producer b] }

/-- The worker takes the next batch. -/
def process (t : Direction) (now : Nat → Nat) : Option Direction :=
  match t.queue with
  | [] => none
  | batch :: rest => some { t with inbound := t.inbound.process now batch, queue := rest }

/-- The peer's topology becomes a single path by configuration, or is one no more. -/
def setStaticSinglePath (t : Direction) (single : Bool) : Direction :=
  { t with
    inbound :=
      { t.inbound with
        decoder := t.inbound.decoder.map fun d =>
          if single = false then { d with staticSingle := false }
          else if d.staticSingle = true then d
          else { d with staticSingle := true }.reset } }

/-- The steps of the two ends. -/
inductive Action where
  | send (action : AsyncPort.Action)
  | setStaticSinglePath (single : Bool)
  | read (b now : Nat) (before after : Option Nat)
  | insert (b now : Nat)
  | push (b : Nat)
  | flush (b : Nat)
  | process (now : Nat → Nat)
  | expire (now : Nat)

/-- There is no reset within an epoch. -/
def step (t : Direction) : Action → Option Direction
  | .send (.reset _ _) => none
  | .send action => (t.sender.step action).map fun sender => { t with sender }
  | .setStaticSinglePath single => some (t.setStaticSinglePath single)
  | .read b now before after => t.read b now before after
  | .insert b now => t.insert b now
  | .push b => t.push b
  | .flush b => t.flush b
  | .process now => t.process now
  | .expire now =>
    some { t with
      inbound := t.inbound.call (if t.actor then .expireGapActor now else .timeoutSkip now) }

/-- The sender does not drop a batch while it encodes a group. -/
def NoGap (t : Direction) : Action → Prop
  | .send action => t.sender.port.NoGap action
  | .setStaticSinglePath _ | .read _ _ _ _ | .insert _ _ | .push _ | .flush _ | .process _
  | .expire _ => True

instance (t : Direction) : ∀ action, Decidable (t.NoGap action)
  | .send action => inferInstanceAs (Decidable (t.sender.port.NoGap action))
  | .setStaticSinglePath _ | .read _ _ _ _ | .insert _ _ | .push _ | .flush _ | .process _
  | .expire _ => isTrue trivial

/-- The frames handed over. -/
def delivered (t : Direction) : List VPNFrame := t.inbound.epoch.receiver.delivered

/-! ## The invariant -/

/-- The two ends of every connection share their cipher, if they have one. -/
def Paired (t : Direction) : Prop :=
  ∀ b, CipherPair (t.icTx b) (t.icRx b) ∧ (t.icRx b).isSome = (t.icTx b).isSome

/-- The sending end keeps its books and puts nothing on the connections that it has not numbered or
encoded. -/
structure Sends (k : Nat) (tx : Option InnerCipher) (t : Direction) : Prop where
  books : t.sender.Sound
  honest : t.sender.port.Honest k tx
  paired : t.Paired

/-- The log of the sender has only grown. -/
def Before (t t' : Direction) : Prop := t.sender.port.assigned <+: t'.sender.port.assigned

/-- Frames of a stream, as a reader holds them. -/
def Held (s : Stream) (held : Option VPNFrame) : Prop := ∀ vf ∈ held, s.Carries (vf.seq, vf.data)

/-- Frames that come from the sender of a stream. -/
def HeardAll (s : Stream) (batch : List VPNFrame) : Prop := ∀ vf ∈ batch, Inbound.Heard s vf

/-- The receiving end is sound with respect to a stream, and so is every frame on its way there. -/
structure Receives (s : Stream) (rx : Option InnerCipher) (t : Direction) : Prop where
  inbound : t.inbound.Sound s rx
  hand : ∀ b, Held s (t.hand b)
  producer : ∀ b, HeardAll s (t.producer b)
  queue : ∀ batch ∈ t.queue, HeardAll s batch

variable {t t' : Direction} {k : Nat} {tx rx : Option InnerCipher} {action : Action}

/-- A step is one of the sender, or leaves the sender and the keys alone. -/
theorem step_sender (hstep : t.step action = some t') :
    (∃ a sender, action = .send a ∧ (∀ k ic, a ≠ .reset k ic) ∧
        t.sender.step a = some sender ∧ t' = { t with sender }) ∨
      ((∀ a, action ≠ .send a) ∧ t'.sender = t.sender ∧ t'.icTx = t.icTx ∧ t'.icRx = t.icRx) := by
  cases action with
  | send a =>
    cases a with
    | reset k ic => cases hstep
    | _ =>
      simp only [step, Option.map_eq_some_iff] at hstep
      obtain ⟨sender, hsender, rfl⟩ := hstep
      exact .inl ⟨_, sender, rfl, nofun, hsender, rfl⟩
  | setStaticSinglePath single | expire now =>
    cases hstep
    exact .inr ⟨nofun, rfl, rfl, rfl⟩
  | read b now before after =>
    refine .inr ⟨nofun, ?_⟩
    simp only [step, read] at hstep
    split at hstep
    · cases hstep
    · obtain ⟨vf, -, rfl⟩ := Option.map_eq_some_iff.mp hstep
      split
      · exact ⟨rfl, rfl, rfl⟩
      · unfold take
        split
        · split
          · exact ⟨rfl, rfl, rfl⟩
          · exact ⟨rfl, rfl, rfl⟩
        · exact ⟨rfl, rfl, rfl⟩
  | insert b now =>
    obtain ⟨vf, -, rfl⟩ := Option.map_eq_some_iff.mp hstep
    exact .inr ⟨nofun, rfl, rfl, rfl⟩
  | push b =>
    refine .inr ⟨nofun, ?_⟩
    simp only [step, push] at hstep
    split at hstep
    · cases hstep
    · obtain ⟨vf, -, rfl⟩ := Option.map_eq_some_iff.mp hstep
      split
      · exact ⟨rfl, rfl, rfl⟩
      · split
        · exact ⟨rfl, rfl, rfl⟩
        · exact ⟨rfl, rfl, rfl⟩
  | flush b | process now =>
    refine .inr ⟨nofun, ?_⟩
    simp only [step, flush, process] at hstep
    split at hstep
    · cases hstep
    · cases hstep
      exact ⟨rfl, rfl, rfl⟩

theorem sends_new (k : Nat) (tx rx : Option InnerCipher) {icTx icRx : Nat → Option InnerCipher}
    (actor : Bool) (hpaired : (new k tx rx icTx icRx actor).Paired) :
    (new k tx rx icTx icRx actor).Sends k tx := by
  have hreset : Ledger.new.step (.reset k tx) =
      some (Ledger.new.note (.reset k tx) (AsyncPort.new.resetEpoch k tx)) := rfl
  exact ⟨(Ledger.sound_new.step hreset).1, .start k tx, hpaired⟩

/-- The port only appends to its log. -/
theorem Sends.step (h : t.Sends k tx) (hgap : t.NoGap action) (hstep : t.step action = some t') :
    t'.Sends k tx ∧ t.Before t' := by
  obtain ⟨a, sender, rfl, hreset, hsender, rfl⟩ | ⟨-, hsame, htx, hrx⟩ := step_sender hstep
  · obtain ⟨port, hport, hnote⟩ := Option.map_eq_some_iff.mp hsender
    have hhonest : sender.port.Honest k tx := by
      rw [← hnote, Ledger.note_port]
      exact h.honest.step hgap hreset hport
    exact ⟨⟨(h.books.step hsender).1, hhonest, h.paired⟩,
      Ledger.assigned_grows h.books hsender hreset⟩
  · refine ⟨⟨hsame ▸ h.books, hsame ▸ h.honest, ?_⟩, ?_⟩
    · unfold Paired
      rw [htx, hrx]
      exact h.paired
    · unfold Before
      rw [hsame]

/-! ## The receiving end -/

/-- What holds of every connection still does after one of them has changed. -/
theorem forall_update {α : Type} {f : Nat → α} {P : α → Prop} {b : Nat} {value : α}
    (h : ∀ c, P (f c)) (hvalue : P value) (c : Nat) : P (update f b value c) :=
  (forall_update_iff f fun _ => P).mpr ⟨hvalue, fun c _ => h c⟩ c

section
variable {log : List VPNFrame} (hlog : Logged log)

/-- What a reader opens comes from the log. -/
theorem Sends.heard (h : t.Sends k tx) (hfront : t.sender.port.assigned <+: log) {b : Nat}
    {vf vf' : VPNFrame} (hnext : t.nextFrame b = some vf) (hopen : t.opened b vf = some vf') :
    Inbound.Heard (streamOf k tx log hlog) vf' := by
  obtain ⟨hpair, hends⟩ := h.paired b
  have hsame : vf' = vf := by
    unfold opened at hopen
    rw [open_wire_payload hpair hends vf] at hopen
    cases hopen
    rfl
  have hmem : vf ∈ (t.sender.port.stream b).flatten := by
    rw [AsyncPort.stream, flatten_append]
    exact mem_append_left _ (mem_of_getElem? hnext)
  rw [hsame]
  refine ⟨fun hseq => hlog.carries_iff.mpr (hfront.subset (h.honest.numbered b vf hmem hseq)), ?_⟩
  intro hseq hkind
  obtain ⟨e, he, g, hmod, hle, hrecord⟩ :=
    h.honest.aligned.records _ (h.honest.records b vf hmem hseq hkind)
  obtain ⟨hk, hic⟩ := h.honest.settings e he
  rw [hk] at hmod hle hrecord
  rw [hic] at hrecord
  obtain ⟨rest, rfl⟩ := hfront
  have hlength : g + clampFecGroup k ≤ (t.sender.port.assigned ++ rest).length := by
    rw [length_append]
    omega
  obtain ⟨hcomplete, hgroup⟩ := hlog.record_eq hmod hlength
  rw [group_record_append hle] at hgroup
  exact ⟨_, hcomplete, hrecord.trans hgroup⟩

variable (hpair : CipherPair tx rx) (hroom : log.length + reorderMaxWindowSize < 2 ^ 32)
include hpair hroom

omit hpair hroom in
theorem receives_new {icTx icRx : Nat → Option InnerCipher} (actor : Bool) :
    (new k tx rx icTx icRx actor).Receives (streamOf k tx log hlog) rx where
  inbound := Inbound.sound_new _ rx k rfl
  hand := fun _ => nofun
  producer := fun _ => nofun
  queue := nofun

/-- The reader opens what the sender has sealed. -/
theorem Receives.read (h : t.Receives (streamOf k tx log hlog) rx) (hsends : t.Sends k tx)
    (hfront : t.sender.port.assigned <+: log) {b now : Nat} {before after : Option Nat}
    (hstep : t.read b now before after = some t') :
    t'.Receives (streamOf k tx log hlog) rx := by
  unfold Direction.read at hstep
  split at hstep
  · cases hstep
  · obtain ⟨vf, hnext, rfl⟩ := Option.map_eq_some_iff.mp hstep
    cases hopen : t.opened b vf with
    | none => exact { h with }
    | some heard =>
      have hheard := hsends.heard hlog hfront hnext hopen
      dsimp only
      unfold take
      split
      · rename_i hseq
        split
        · exact { h with }
        · rename_i inbound out hcontrol
          obtain ⟨hsound, hout⟩ := h.inbound.on_control hpair before after hheard hseq hcontrol
          exact { h with inbound := hsound.insert_recovered hroom now hout }
      · rename_i hseq
        obtain ⟨hsound, hout⟩ := h.inbound.on_data hpair before hheard
        have hheld : Held (streamOf k tx log hlog) (some heard) := by
          rintro vf ⟨⟩
          exact hheard.1 hseq
        exact { h with
          inbound := hsound.insert_recovered hroom now hout
          hand := forall_update h.hand hheld }

/-- What is read was sent. -/
theorem Receives.step (h : t.Receives (streamOf k tx log hlog) rx) (hsends : t.Sends k tx)
    (hfront : t.sender.port.assigned <+: log) (hstep : t.step action = some t') :
    t'.Receives (streamOf k tx log hlog) rx := by
  cases action with
  | send a =>
    obtain ⟨a, sender, -, -, -, rfl⟩ | ⟨hne, -⟩ := step_sender hstep
    · exact { h with }
    · exact absurd rfl (hne a)
  | setStaticSinglePath single =>
    cases hstep
    refine { h with inbound := { h.inbound with decoder := fun d' hd' => ?_ } }
    obtain ⟨d, hd, rfl⟩ := Option.map_eq_some_iff.mp hd'
    have hfollows := h.inbound.decoder d hd
    split
    · exact { hfollows with }
    · split
      · exact hfollows
      · exact { hfollows with collects := fun _ _ hg => (by cases hg) }
  | read b now before after => exact h.read hlog hpair hroom hsends hfront hstep
  | insert b now =>
    obtain ⟨vf, hhand, rfl⟩ := Option.map_eq_some_iff.mp hstep
    have hvf := h.hand b vf hhand
    have hnone : Held (streamOf k tx log hlog) none := fun held hheld => by cases hheld
    exact { h with
      inbound := h.inbound.call hroom (c := .insert now vf.seq vf) ⟨rfl, hvf⟩
      hand := forall_update h.hand hnone }
  | push b =>
    simp only [Direction.step, push] at hstep
    split at hstep
    · cases hstep
    · obtain ⟨vf, hnext, rfl⟩ := Option.map_eq_some_iff.mp hstep
      cases hopen : t.opened b vf with
      | none => exact { h with }
      | some heard =>
        have hheard := hsends.heard hlog hfront hnext hopen
        dsimp only
        split
        · exact { h with }
        · have hbatch : HeardAll (streamOf k tx log hlog) (t.producer b ++ [heard]) := by
            intro other hother
            rcases mem_append.mp hother with hold | hnew
            · exact h.producer b other hold
            · rw [mem_singleton.mp hnew]
              exact hheard
          exact { h with producer := forall_update h.producer hbatch }
  | flush b =>
    obtain ⟨_, rfl⟩ := of_blocked hstep
    have hnil : HeardAll (streamOf k tx log hlog) [] := fun other hother => by cases hother
    refine { h with
      producer := forall_update h.producer hnil
      queue := fun batch hbatch => ?_ }
    rcases mem_append.mp hbatch with hold | hnew
    · exact h.queue batch hold
    · rw [mem_singleton.mp hnew]
      exact h.producer b
  | process now =>
    simp only [Direction.step, process] at hstep
    split at hstep
    · cases hstep
    · rename_i batch rest hqueue
      cases hstep
      have hbatch := h.queue batch (by rw [hqueue]; exact mem_cons_self)
      refine { h with
        inbound := h.inbound.process hroom hpair now hbatch
        queue := fun other hother => h.queue other ?_ }
      rw [hqueue]
      exact mem_cons_of_mem _ hother
  | expire now =>
    cases hstep
    refine { h with inbound := h.inbound.call hroom ?_ }
    split
    · trivial
    · trivial

end

/-! ## Whole runs -/

/-- The payloads of the log are a part of the frames that entered the port. -/
theorem Sends.log_sublist (h : t.Sends k tx) :
    (t.sender.port.assigned.map (·.data)).Sublist t.sender.accepted := by
  obtain ⟨settled, refused, hbooks⟩ := h.books.booked
  have hconserved := hbooks.conserved
  generalize settled ++ t.sender.port.inHand ++ refused = taken at hconserved
  have hdata : (taken.filterMap Taken.numbered).map (·.data) =
      (taken.filter fun entry => entry.seq.isSome).map (·.frame) := by
    clear hconserved
    induction taken with
    | nil => rfl
    | cons entry rest ih =>
      cases hseq : entry.seq with
      | none | some => simpa [Taken.numbered, hseq] using ih
  rw [← hconserved.numbered_eq, hdata]
  refine List.Sublist.trans ?_ (filter_sublist (p := fun frame => frame ≠ []))
  rw [hconserved.frames_eq]
  exact (filter_sublist.map _).trans (sublist_append_left _ _)

/-- The log of a sender whose frames fit their descriptors. -/
theorem Sends.logged (h : t.Sends k tx) (hlt : t.sender.port.txSeq < 2 ^ 32)
    (hframes : ∀ frame ∈ t.sender.accepted, frame.length < 2 ^ 32) :
    Logged t.sender.port.assigned := by
  have hnumbered := h.books.numbered
  refine ⟨hnumbered.txSeq_eq ▸ hlt, hnumbered.seqs_eq, hnumbered.data_ne, ?_⟩
  intro vf hvf
  exact hframes _ (h.log_sublist.subset (mem_map_of_mem hvf))

/-- Whatever joins, leaves, fails, overflows or expires in a direction of a session during an epoch,
the frames handed over are frames that were written to the sender, unaltered, in the order in which
they were written, and none of them twice. -/
theorem delivered_sublist (k : Nat) {tx rx : Option InnerCipher}
    {icTx icRx : Nat → Option InnerCipher} (actor : Bool) (actions : List Action) (t : Direction)
    (hpair : CipherPair tx rx)
    (hpaired : ∀ b, CipherPair (icTx b) (icRx b) ∧ (icRx b).isSome = (icTx b).isSome)
    (hgap : Along step NoGap (new k tx rx icTx icRx actor) actions)
    (hrun : run step (new k tx rx icTx icRx actor) actions = some t)
    (hframes : ∀ frame ∈ t.sender.accepted, frame.length < 2 ^ 32)
    (hroom : t.sender.port.txSeq + reorderMaxWindowSize < 2 ^ 32) :
    t.delivered.Sublist t.sender.port.assigned ∧
      (t.delivered.map (·.data)).Sublist t.sender.accepted := by
  have hbase : ∀ (t : Direction) action t', t.Sends k tx → t.NoGap action →
      t.step action = some t' → t'.Sends k tx ∧ t.Before t' :=
    fun _ _ _ hsends hgap hstep => hsends.step hgap hstep
  have hrefl : ∀ t : Direction, t.Before t := fun t => prefix_rfl
  have htrans : ∀ {t t' t'' : Direction}, t.Before t' → t'.Before t'' → t.Before t'' :=
    fun h h' => List.IsPrefix.trans h h'
  have hstart := sends_new k tx rx actor hpaired
  obtain ⟨hsends, -⟩ := run_before hrefl htrans hbase hstart hgap hrun
  have hnumbered := hsends.books.numbered
  have hlog := hsends.logged (by omega) hframes
  rw [hnumbered.txSeq_eq] at hroom
  have hreceives : t.Receives (streamOf k tx _ hlog) rx := by
    refine run_invariant_ahead hrefl htrans hbase ?_ hstart ?_ hgap hrun
    · intro t action t' hsends hreceives hgap hstep _ hahead
      exact hreceives.step hlog hpair hroom hsends
        (List.IsPrefix.trans (hsends.step hgap hstep).2 hahead) hstep
    · exact receives_new hlog actor
  obtain ⟨next, haccounted, -⟩ := hreceives.inbound.within.kept
  have hsublist : t.delivered.Sublist t.sender.port.assigned := by
    refine sublist_of_increasing VPNFrame.seq ?_ ?_ ?_
    · exact haccounted.ordered.sublist ((sublist_append_left _ _).map _)
    · rw [hnumbered.seqs_eq]
      exact pairwise_lt_range'
    · intro vf hvf
      refine hlog.carries_iff.mp (hreceives.inbound.accepted vf ?_)
      exact (haccounted.traced vf).mpr (.inl (mem_append_left _ hvf))
  exact ⟨hsublist, (hsublist.map _).trans hsends.log_sublist⟩

/-- Two frames go out over two connections. The second connection is never read, and its frame is
recovered from the record. -/
def stalledConnection : List Action :=
  [.send (.register 0 32), .send (.register 1 32),
    .send (.write [1]), .send .takeFrame, .send .gotSlot, .send (.dispatch ⟨0, [], []⟩),
    .send (.write [2, 2]), .send .takeFrame, .send .gotSlot, .send (.dispatch ⟨1, [], [([], 0)]⟩),
    .send (.drain 0), .send (.drain 0), .read 0 0 none none, .insert 0 0, .read 0 0 none none]

/-- Both frames arrive in order. -/
theorem stalled_connection_delivers :
    ∃ t, run step (new 2 none none (fun _ => none) (fun _ => none) false) stalledConnection =
        some t ∧
      t.delivered = [⟨1, [1]⟩, ⟨2, [2, 2]⟩] ∧ t.delivered.Sublist t.sender.port.assigned ∧
      (t.delivered.map (·.data)).Sublist t.sender.accepted := by
  have hfinal : ∃ t,
      run step (new 2 none none (fun _ => none) (fun _ => none) false) stalledConnection =
        some t ∧
      t.delivered = [⟨1, [1]⟩, ⟨2, [2, 2]⟩] ∧ t.sender.accepted = [[1], [2, 2]] ∧
      t.sender.port.txSeq = 2 := exists_run_of_decide (by decide +kernel)
  obtain ⟨t, hrun, hdelivered, haccepted, hseq⟩ := hfinal
  refine ⟨t, hrun, hdelivered, delivered_sublist 2 false stalledConnection t .plain
    (fun _ => ⟨.plain, rfl⟩) (by decide +kernel) hrun ?_ ?_⟩
  · rw [haccepted]
    decide
  · rw [hseq]
    decide

/-- The second frame is numbered and dropped for want of a connection, and the record that the third
one completes is taken for one of the first two. -/
def skippedBatch : List Action :=
  [.send (.register 0 32), .send (.register 1 32),
    .send (.write [1]), .send .takeFrame, .send .gotSlot, .send (.dispatch ⟨0, [], []⟩),
    .send (.drain 0), .read 0 0 none none, .insert 0 0,
    .send (.write [2]), .send .takeFrame, .send .gotSlot,
    .send (.unregister 0), .send (.unregister 1), .send (.dispatch ⟨0, [], []⟩),
    .send (.register 2 32), .send (.register 3 32),
    .send (.write [4]), .send .takeFrame, .send .gotSlot, .send (.dispatch ⟨2, [], [([], 3)]⟩),
    .send (.drain 2), .send (.drain 3), .read 3 0 none none, .read 2 0 none none, .insert 2 0]

/-- The third frame is then handed over twice, once in place of the second. -/
theorem skipped_batch_delivers_wrong :
    ∃ t, run step (new 2 none none (fun _ => none) (fun _ => none) false) skippedBatch = some t ∧
      t.sender.port.assigned = [⟨1, [1]⟩, ⟨2, [2]⟩, ⟨3, [4]⟩] ∧
      t.delivered = [⟨1, [1]⟩, ⟨2, [4]⟩, ⟨3, [4]⟩] :=
  exists_run_of_decide (by decide +kernel)

end Direction

end TlsVpn.Tunnel
