import TlsVpn.Session.Wiring

/-!
# Nonces of the client's writers

Every connection seals the frames it takes with the salt of its own handshake, while the sequence
numbers are those of the one port. A reset of the port restarts the numbers for all registered
backends: for those of connections of an older epoch, and without FEC, where the reset comes after
the session lock has been released, also for those of connections that joined the new epoch in the
meantime.

`nonces_unique` shows that no two different frames are sealed under one salt and one number as long
as every batch is dispatched while no registered backend seals under a salt that carried frames
before the last reset. `late_reset_reuses_nonce` and `old_connection_reuses_nonce` are the two kinds
of runs in which one does.
-/

namespace TlsVpn.Session

open Lib Crypto Fec Port Reorder Function List

namespace System

/-- A writer has taken a data frame and sealed it under the salt. -/
def Sealed (s : System) (salt : Bytes) (vf : VPNFrame) : Prop :=
  ∃ b, s.salt b = some salt ∧ vf ∈ (s.port.backend b).taken.flatten ∧ vf.seq ≠ 0

/-- Frames sealed under one salt and one sequence number have one payload. -/
def NoncesUnique (s : System) : Prop :=
  ∀ salt vf vf', s.Sealed salt vf → s.Sealed salt vf' → vf.seq = vf'.seq → vf.data = vf'.data

/-- A batch is dispatched only while no registered backend seals under a salt that carried data
frames before the last reset of the sender. -/
def Unspent (s : System) : Action → Prop
  | .port (.dispatch _) => ∀ b ∈ s.port.backends, ∀ salt ∈ s.salt b, salt ∉ s.spent
  | _ => True

instance (s : System) (action : Action) : Decidable (s.Unspent action) := by
  unfold Unspent
  split <;> infer_instance

/-! ## What a step hands to the connections -/

/-- A data frame has been handed to a connection that seals under the salt. -/
def Handed (s : System) (salt : Bytes) (vf : VPNFrame) : Prop :=
  ∃ b, s.salt b = some salt ∧ vf ∈ (s.port.stream b).flatten ∧ vf.seq ≠ 0

variable {s s' : System} {b : Nat}

variable {salt : Bytes} {vf : VPNFrame}

theorem Sealed.handed (h : s.Sealed salt vf) : s.Handed salt vf := by
  obtain ⟨b, hsalt, hmem, hseq⟩ := h
  refine ⟨b, hsalt, ?_, hseq⟩
  rw [AsyncPort.stream, flatten_append]
  exact mem_append_left _ hmem

/-- The salts of the connections that have been handed something stay. -/
def SameSalts (s s' : System) : Prop := ∀ b, s'.salt b = s.salt b ∨ s.port.stream b = []

/-- The effect of a step on what the connections have been handed. -/
inductive Handing (s s' : System) : Action → Prop where
  | nothing {action : Action} (hsalts : SameSalts s s')
      (hstream : ∀ b, s'.port.stream b = s.port.stream b) (hspent : s'.spent = s.spent)
      (hassigned : s.port.assigned ⊆ s'.port.assigned) : Handing s s' action
  | reset {action : Action} (hsalts : SameSalts s s')
      (hstream : ∀ b, s'.port.stream b = s.port.stream b)
      (hspent : ∀ b ∈ s.registered, s.Carried b → ∀ salt ∈ s.salt b, salt ∈ s'.spent)
      (hassigned : s'.port.assigned = []) : Handing s s' action
  | batch {choice : Choice} (hsalts : s'.salt = s.salt)
      (hstream : ∀ b, ∀ vf ∈ (s'.port.stream b).flatten, vf.seq ≠ 0 →
        vf ∈ (s.port.stream b).flatten ∨ b ∈ s.port.backends ∧ vf ∈ s.port.batch)
      (hspent : s'.spent = s.spent) (hassigned : s'.port.assigned = s.port.assigned) :
      Handing s s' (.port (.dispatch choice))

theorem salt_eq_of_linked (h : (s'.conn b).linked = (s.conn b).linked) : s'.salt b = s.salt b := by
  unfold salt
  rw [h]

/-- Only a connection that has been handed nothing gets another link. -/
theorem same_salts_of_update (hwired : s.Wired) (hb : b ∉ s.registered) {conn : Conn}
    (hconn : s'.conn = update s.conn b conn) : SameSalts s s' := by
  intro x
  by_cases heq : x = b
  · right
    rw [heq]
    exact hwired.stream_nil hb
  · left
    refine salt_eq_of_linked ?_
    rw [hconn, update_of_ne heq]

theorem same_salts_of_conn (hconn : s'.conn = s.conn) : SameSalts s s' := fun b =>
  .inl (salt_eq_of_linked (by rw [hconn]))

variable {action : Action}

theorem Handing.quiet (hsalts : SameSalts s s') (hquiet : AsyncPort.Quiet s.port s'.port)
    (hspent : s'.spent = s.spent) : Handing s s' action := by
  obtain ⟨new, hassigned, -⟩ := hquiet.numbers
  refine .nothing hsalts hquiet.stream_eq hspent ?_
  rw [hassigned]
  exact subset_append_left _ _

theorem Handing.reset_sender (hwired : s.Wired) (hidle : s.port.phase = .idle) {k : Nat}
    {ic : Option InnerCipher} (hsalts : SameSalts s s') (hport : s'.port = s.port.resetEpoch k ic)
    (hspent : s'.spent = (s.resetSender k ic).spent) : Handing s s' action := by
  obtain ⟨-, hreset⟩ := AsyncPort.reset_spec hwired.numbered hidle k ic
  refine .reset hsalts (fun b => ?_) (fun b hb hcarried salt hsalt => ?_) ?_
  · rw [hport, hreset.stream_eq]
  · rw [hspent]
    refine mem_append_right _ (mem_filterMap.mpr ⟨b, ?_, hsalt⟩)
    exact mem_filter.mpr ⟨hb, decide_eq_true hcarried⟩
  · rw [hport, hreset.assigned_eq]

variable {p : AsyncPort}

/-- A control in front of a batch carries no data. -/
theorem mem_fenced_batch {batch : List VPNFrame} (hmem : vf ∈ p.fencedBatch b batch)
    (hseq : vf.seq ≠ 0) : vf ∈ batch := by
  unfold AsyncPort.fencedBatch at hmem
  split at hmem
  · exact hmem
  · rcases mem_cons.mp hmem with heq | hbatch
    · rw [heq] at hseq
      exact absurd rfl hseq
    · exact hbatch

/-- A dispatch hands the frames of the batch to a registered backend, besides controls and
records. -/
theorem dispatched_frames {p' : AsyncPort} {choice : Choice} (h : AsyncPort.Dispatched p p' choice)
    (hmem : vf ∈ (p'.stream b).flatten) (hseq : vf.seq ≠ 0) :
    vf ∈ (p.stream b).flatten ∨ b ∈ p.backends ∧ vf ∈ p.batch := by
  obtain ⟨target, htarget, records, -, hstream, -⟩ := h.sent
  rw [hstream, flatten_append, flatten_append] at hmem
  rcases mem_append.mp hmem with hold | hnew
  · exact .inl hold
  · right
    rcases mem_append.mp hnew with hbatch | hrecord
    · split at hbatch
      · rename_i hb
        rw [flatten_singleton] at hbatch
        exact ⟨htarget b hb, mem_fenced_batch hbatch hseq⟩
      · cases hbatch
    · obtain ⟨batch, hbatch, hvf⟩ := mem_flatten.mp hrecord
      obtain ⟨par, -, rfl⟩ := mem_map.mp hbatch
      rw [mem_singleton.mp hvf] at hseq
      exact absurd rfl hseq

/-- A step that leaves the port alone and moves at most one connection that has not served. -/
theorem Handing.moved (hsalts : SameSalts s s') (hport : s'.port = s.port)
    (hspent : s'.spent = s.spent) : Handing s s' action := by
  refine .nothing hsalts (fun b => by rw [hport]) hspent ?_
  rw [hport]
  exact List.Subset.refl _

/-- A step of the port, seen from the connections. -/
theorem handing_port_step (hwired : s.Wired) {action : AsyncPort.Action}
    (hstep : s.portStep action = some s') : Handing s s' (.port action) := by
  obtain ⟨-, -, hreset, port, hport, rfl⟩ := port_step_eq_some hstep
  have hsalts : SameSalts s { s with port } := same_salts_of_conn rfl
  rcases (AsyncPort.step_cases hwired.numbered hport).2 with
    hquiet | ⟨choice, rfl, hskipped⟩ | ⟨choice, rfl, hdispatched⟩ | ⟨k, ic, rfl, -⟩
  · exact .quiet hsalts hquiet rfl
  · refine .nothing hsalts hskipped.stream_eq rfl ?_
    rw [hskipped.assigned_eq]
    exact List.Subset.refl _
  · exact .batch rfl (fun b vf hvf hseq => dispatched_frames hdispatched hvf hseq) rfl
      hdispatched.assigned_eq
  · exact absurd rfl (hreset k ic)

theorem handing_close (hwired : s.Wired) (hstep : s.close b = some s') :
    Handing s s' (.close b) := by
  have hlinked : ∀ x, ((update s.conn b (.closed (s.conn b).linked)) x).linked =
      (s.conn x).linked := by
    intro x
    by_cases heq : x = b
    · rw [heq, update_self]
      rfl
    · rw [update_of_ne heq]
  rcases close_eq_some hstep with ⟨link, hconn, rfl⟩ | rfl
  · rw [hconn] at hlinked
    exact .quiet (fun x => .inl (salt_eq_of_linked (hlinked x)))
      (AsyncPort.unregister_quiet hwired.numbered b).2 rfl
  · exact .moved (fun x => .inl (salt_eq_of_linked (hlinked x))) rfl rfl

/-- A step of the client, seen from the connections. -/
theorem handing_step (hwired : s.Wired) (hstep : s.step action = some s') :
    Handing s s' action := by
  cases action with
  | applyConfig | rotateInstance | exhaustServer | restartServer =>
    cases hstep
    exact .moved (same_salts_of_conn rfl) rfl rfl
  | refresh disk =>
    cases hstep
    show Handing s (s.refresh disk) _
    unfold refresh
    repeat' split
    all_goals exact .moved (same_salts_of_conn rfl) rfl rfl
  | dial b =>
    obtain ⟨hconn, rfl⟩ := dial_eq_some hstep
    have hb := hwired.not_registered (b := b) (by rw [hconn]; exact id)
    exact .moved (same_salts_of_update hwired hb rfl) rfl rfl
  | answer b fresh =>
    obtain ⟨lv, req, hconn, -, hs'⟩ := answer_eq_some hstep
    have hb := hwired.not_registered (b := b) (by rw [hconn]; exact id)
    rcases hs' with rfl | ⟨session, -, rfl⟩
    · exact .moved (same_salts_of_update hwired hb rfl) rfl rfl
    · exact .moved (same_salts_of_update hwired hb rfl) rfl rfl
  | adopt b =>
    obtain ⟨lv, resp, hconn, hs'⟩ := adopt_eq_some hstep
    have hb := hwired.not_registered (b := b) (by rw [hconn]; exact id)
    rcases hs' with rfl | ⟨ciphers, -, hidle, rfl⟩
    · exact .moved (same_salts_of_update hwired hb rfl) rfl rfl
    · have hsalts := same_salts_of_update hwired hb (enter_conn s b lv resp ciphers)
      by_cases hrebuild : (s.session.adoption lv resp ciphers.encAlgo).fecRebuild = true
      · exact .reset_sender hwired (hidle hrebuild) hsalts
          (by rw [enter_port, if_pos hrebuild]) (by rw [enter_spent, if_pos hrebuild])
      · exact .moved hsalts (by rw [enter_port, if_neg hrebuild])
          (by rw [enter_spent, if_neg hrebuild])
  | settle b =>
    obtain ⟨link, owed, ⟨hconn, hidle, rfl⟩ | ⟨hconn, rfl⟩⟩ := settle_eq_some hstep
    · have hb := hwired.not_registered (b := b) (by rw [hconn]; exact id)
      exact .reset_sender hwired hidle (same_salts_of_update hwired hb rfl) rfl rfl
    · have hb := hwired.not_registered (b := b) (by rw [hconn]; exact id)
      exact .moved (same_salts_of_update hwired hb rfl) rfl rfl
  | register b =>
    obtain ⟨link, hconn, hnew, rfl⟩ := register_eq_some hstep
    have hb := hwired.not_registered (b := b) (by rw [hconn]; exact id)
    exact .quiet (same_salts_of_update hwired hb rfl)
      (AsyncPort.register_quiet hwired.numbered hnew _).2 rfl
  | close b => exact handing_close hwired hstep
  | port action => exact handing_port_step hwired hstep
  | arrive call =>
    obtain ⟨reorder, rfl⟩ := arrive_eq_some hstep
    exact .moved (same_salts_of_conn rfl) rfl rfl

/-! ## The invariant -/

/-- Under a salt that is not spent only frames of the current epoch have been handed out, and under
any salt a number belongs to one frame. -/
structure Salted (s : System) : Prop where
  wired : s.Wired
  current : ∀ salt vf, salt ∉ s.spent → s.Handed salt vf → vf ∈ s.port.assigned
  unique : ∀ salt vf vf', s.Handed salt vf → s.Handed salt vf' → vf.seq = vf'.seq → vf = vf'

/-- The numbers of the current epoch are distinct. -/
theorem assigned_inj (h : p.Numbered) {vf' : VPNFrame} (hvf : vf ∈ p.assigned)
    (hvf' : vf' ∈ p.assigned) (hseq : vf.seq = vf'.seq) : vf = vf' := by
  have hnodup : (p.assigned.map (·.seq)).Nodup := by
    rw [h.seqs_eq]
    exact nodup_range'
  exact inj_on_of_nodup_map hnodup hvf hvf' hseq

/-- With the streams and their salts, what has been handed out stays the same. -/
theorem handed_of_same (hsalts : SameSalts s s') (hstream : ∀ b, s'.port.stream b = s.port.stream b)
    (h : s'.Handed salt vf) : s.Handed salt vf := by
  obtain ⟨b, hsalt, hmem, hseq⟩ := h
  rw [hstream] at hmem
  rcases hsalts b with heq | hnil
  · exact ⟨b, by rw [← heq]; exact hsalt, hmem, hseq⟩
  · rw [hnil] at hmem
    cases hmem

theorem salted_new (suite : Suite) (conns : Nat) (config : ServerConfig)
    (server : Option ServerSession) (live : LiveConfig) (instanceID : Nat) (stored : Stored) :
    (new suite conns config server live instanceID stored).Salted := by
  have hnone : ∀ salt vf,
      ¬ (new suite conns config server live instanceID stored).Handed salt vf := by
    rintro salt vf ⟨b, -, hmem, -⟩
    cases hmem
  exact ⟨wired_new suite conns config server live instanceID stored,
    fun salt vf _ h => absurd h (hnone salt vf), fun salt vf _ h => absurd h (hnone salt vf)⟩

/-- A reset spends the salts of the epoch before. -/
theorem Salted.step (h : s.Salted) (hallowed : s.Unspent action) (hstep : s.step action = some s') :
    s'.Salted := by
  have hwired := h.wired.step hstep
  cases handing_step h.wired hstep with
  | nothing hsalts hstream hspent hassigned =>
    refine ⟨hwired, ?_, ?_⟩
    · intro salt vf hsalt hvf
      rw [hspent] at hsalt
      exact hassigned (h.current salt vf hsalt (handed_of_same hsalts hstream hvf))
    · intro salt vf vf' hvf hvf'
      exact h.unique salt vf vf' (handed_of_same hsalts hstream hvf)
        (handed_of_same hsalts hstream hvf')
  | reset hsalts hstream hspent hassigned =>
    refine ⟨hwired, ?_, ?_⟩
    · -- every salt that has carried a frame is now spent
      intro salt vf hsalt hvf
      obtain ⟨b, hb, hmem, hseq⟩ := handed_of_same hsalts hstream hvf
      have hregistered : b ∈ s.registered := by
        by_contra hnot
        rw [h.wired.stream_nil hnot] at hmem
        cases hmem
      exact absurd (hspent b hregistered ⟨vf, hmem, hseq⟩ salt hb) hsalt
    · intro salt vf vf' hvf hvf'
      exact h.unique salt vf vf' (handed_of_same hsalts hstream hvf)
        (handed_of_same hsalts hstream hvf')
  | batch hsalts hstream hspent hassigned =>
    obtain ⟨fed, hfed⟩ := h.wired.numbered.suffix
    -- a frame of the batch goes out under a salt that is not spent
    have hframe : ∀ salt vf, s'.Handed salt vf →
        s.Handed salt vf ∨ salt ∉ s.spent ∧ vf ∈ s.port.assigned := by
      rintro salt vf ⟨b, hsalt, hmem, hseq⟩
      rw [hsalts] at hsalt
      rcases hstream b vf hmem hseq with hold | ⟨hb, hbatch⟩
      · exact .inl ⟨b, hsalt, hold, hseq⟩
      · refine .inr ⟨hallowed b hb salt hsalt, ?_⟩
        rw [hfed]
        exact mem_append_right _ hbatch
    have hcurrent : ∀ salt vf, salt ∉ s.spent → s'.Handed salt vf → vf ∈ s.port.assigned := by
      intro salt vf hsalt hvf
      rcases hframe salt vf hvf with hold | ⟨-, hnew⟩
      · exact h.current salt vf hsalt hold
      · exact hnew
    refine ⟨hwired, ?_, ?_⟩
    · intro salt vf hsalt hvf
      rw [hspent] at hsalt
      rw [hassigned]
      exact hcurrent salt vf hsalt hvf
    · intro salt vf vf' hvf hvf' hseq
      by_cases hsalt : salt ∈ s.spent
      · rcases hframe salt vf hvf with hold | ⟨hnot, -⟩
        · rcases hframe salt vf' hvf' with hold' | ⟨hnot, -⟩
          · exact h.unique salt vf vf' hold hold' hseq
          · exact absurd hsalt hnot
        · exact absurd hsalt hnot
      · exact assigned_inj h.wired.numbered (hcurrent salt vf hsalt hvf)
          (hcurrent salt vf' hsalt hvf') hseq

/-- In every run that dispatches only while no registered backend seals under a spent salt, no two
frames with different payloads are sealed under one salt and one sequence number. -/
theorem nonces_unique (suite : Suite) (conns : Nat) (config : ServerConfig)
    (server : Option ServerSession) (live : LiveConfig) (instanceID : Nat) (stored : Stored)
    (actions : List Action) (s : System)
    (hunspent : Along step Unspent (new suite conns config server live instanceID stored) actions)
    (hrun : run step (new suite conns config server live instanceID stored) actions = some s) :
    s.NoncesUnique := by
  have hsalted : s.Salted :=
    run_invariant (fun _ _ _ h hallowed hstep => Salted.step h hallowed hstep)
      (salted_new suite conns config server live instanceID stored) hunspent hrun
  intro salt vf vf' hvf hvf' hseq
  rw [hsalted.unique salt vf vf' hvf.handed hvf'.handed hseq]

/-- A client without FEC serves on two connections in the first epoch. -/
def twoConnections : List Action :=
  [.dial 0, .answer 0 (draw 1), .adopt 0, .settle 0, .register 0,
    .dial 1, .answer 1 (draw 2), .adopt 1, .register 1] ++
    sendFrame [1] 0 ++ sendFrame [2] 1 ++ [.port (.drain 0), .port (.drain 1)]

/-- Both close, and a third connection serves in the second epoch. -/
def replacedConnections : List Action :=
  twoConnections ++ [.exhaustServer 0, .close 0, .close 1,
    .dial 2, .answer 2 (draw 3), .adopt 2, .settle 2, .register 2] ++
    sendFrame [3] 2 ++ [.port (.drain 2)]

/-- The third connection seals under another salt. -/
theorem replaced_connections_nonces :
    ∃ s, run step (firstStart true 0 2) replacedConnections = some s ∧
      ((s.port.backend 0).taken = [[⟨1, [1]⟩]] ∧ (s.port.backend 1).taken = [[⟨2, [2]⟩]] ∧
        (s.port.backend 2).taken = [[⟨1, [3]⟩]]) ∧ s.NoncesUnique := by
  obtain ⟨s, hrun, hend⟩ : ∃ s, run step (firstStart true 0 2) replacedConnections = some s ∧
      (s.port.backend 0).taken = [[⟨1, [1]⟩]] ∧ (s.port.backend 1).taken = [[⟨2, [2]⟩]] ∧
        (s.port.backend 2).taken = [[⟨1, [3]⟩]] :=
    exists_run_of_decide (by decide +kernel)
  exact ⟨s, hrun, hend, nonces_unique clearSuite 2 (serverSettings true) none
    (clientSettings true 0) 1 ⟨0, 0, 0⟩ replacedConnections s (by decide +kernel) hrun⟩

/-- Two frames on one connection under one number contradict the uniqueness. -/
theorem not_unique_of_taken {seq : Nat} {data data' : Bytes} (hsalt : s.salt b = some salt)
    (hseq : seq ≠ 0) (hdata : data ≠ data') (hvf : ⟨seq, data⟩ ∈ (s.port.backend b).taken.flatten)
    (hvf' : ⟨seq, data'⟩ ∈ (s.port.backend b).taken.flatten) : ¬ s.NoncesUnique := fun h =>
  hdata (h salt ⟨seq, data⟩ ⟨seq, data'⟩ ⟨b, hsalt, hvf, hseq⟩ ⟨b, hsalt, hvf', hseq⟩ rfl)

/-- Two connections of a client without FEC join the first epoch. The second one serves before the
reset that the first one owes. -/
def lateReset : List Action :=
  [.dial 0, .answer 0 (draw 1), .dial 1, .answer 1 (draw 2), .adopt 0, .adopt 1, .register 1] ++
    sendFrame [1] 1 ++ [.port (.drain 1), .settle 0] ++ sendFrame [2] 1 ++ [.port (.drain 1)]

/-- Two frames are sealed under one number and one salt. -/
theorem late_reset_reuses_nonce :
    ∃ s, run step (firstStart true 0 2) lateReset = some s ∧ ¬ s.NoncesUnique := by
  obtain ⟨s, hrun, hsalt, htaken⟩ : ∃ s, run step (firstStart true 0 2) lateReset = some s ∧
      s.salt 1 = some (draw 1).saltA ∧ (s.port.backend 1).taken = [[⟨1, [1]⟩], [⟨1, [2]⟩]] :=
    exists_run_of_decide (by decide +kernel)
  exact ⟨s, hrun, not_unique_of_taken hsalt (Nat.succ_ne_zero 0) (show [1] ≠ [2] by decide)
    (by rw [htaken]; exact mem_cons_self ..)
    (by rw [htaken]; exact mem_cons_of_mem _ (mem_cons_self ..))⟩

/-- The connections of the first epoch stay registered when the second epoch starts. -/
def oldConnection : List Action :=
  twoConnections ++ [.exhaustServer 0, .dial 2, .answer 2 (draw 3), .adopt 2, .settle 2] ++
    sendFrame [3] 0 ++ [.port (.drain 0)]

/-- The old connection sends a number again. -/
theorem old_connection_reuses_nonce :
    ∃ s, run step (firstStart true 0 2) oldConnection = some s ∧ ¬ s.NoncesUnique := by
  obtain ⟨s, hrun, hsalt, htaken⟩ : ∃ s, run step (firstStart true 0 2) oldConnection = some s ∧
      s.salt 0 = some (draw 1).saltA ∧ (s.port.backend 0).taken = [[⟨1, [1]⟩], [⟨1, [3]⟩]] :=
    exists_run_of_decide (by decide +kernel)
  exact ⟨s, hrun, not_unique_of_taken hsalt (Nat.succ_ne_zero 0) (show [1] ≠ [3] by decide)
    (by rw [htaken]; exact mem_cons_self ..)
    (by rw [htaken]; exact mem_cons_of_mem _ (mem_cons_self ..))⟩

end System

end TlsVpn.Session
