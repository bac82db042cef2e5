import TlsVpn.Session.Persist

/-!
# Resuming a session after a restart

A client that was killed starts again with the token in its state file, and the server admits the
new process only if the token is the current or the pending one of the session. The server replaces
its current token when a request presents the pending one. The client keeps the token of a response
in memory, from where its other connections present it, before it is in the file.

`disk_token_accepted` shows that the server always accepts the token in the file, in every run in
which the server is presented the pending token only once the file holds it.
`unpersisted_token_presented` is a run in which another connection is faster than the file.
-/

namespace TlsVpn.Session

open Lib List

/-! ## The model -/

/-- What the client keeps of a response. -/
def HandshakeResp.stored (resp : HandshakeResp) : Stored :=
  ⟨resp.sessionID, resp.sessionEpoch, resp.sessionToken⟩

/-- A server with the session of a client, the client, and the handshakes on their way. Requests and
responses of a killed process stay on their way. The tokens that the server draws are numbered. -/
structure Resuming where
  config : ServerConfig
  server : Option ServerSession
  nextToken : Nat
  /-- The session in the file before the run, which the server does not hold. -/
  oldSession : Nat
  client : Persisting
  instanceID : Nat
  requests : List HandshakeReq
  /-- A response with the instance it is for. -/
  responses : List (Nat × Stored)

namespace Resuming

/-- A first process with the file of an old session, or none. -/
def new (config : ServerConfig) (file : Option Stored) (instanceID : Nat) : Resuming :=
  let client := Persisting.new file
  { config
    server := none
    nextToken := client.store.memory.sessionToken + 1
    oldSession := client.store.memory.sessionID
    client
    instanceID
    requests := []
    responses := [] }

/-- Requests and responses can be lost, and the client can crash. -/
inductive Action where
  | send (settings : HandshakeReq)
  | process (req : HandshakeReq) (fresh : Fresh)
  | loseRequest (req : HandshakeReq)
  | loseResponse (entry : Nat × Stored)
  | receive (r : Stored)
  | work (action : Persisting.Action)
  | crash (instanceID : Nat)

/-- What the server draws for a request: the next token, and a session identifier not used before.
-/
def IsFresh (s : Resuming) (fresh : Fresh) : Prop :=
  fresh.token = s.nextToken ∧ fresh.sessionID ≠ 0 ∧ fresh.sessionID ≠ s.oldSession

instance (s : Resuming) (fresh : Fresh) : Decidable (s.IsFresh fresh) :=
  inferInstanceAs (Decidable (_ ∧ _ ∧ _))

/-- A handshake with the token in memory. -/
def send (s : Resuming) (settings : HandshakeReq) : Resuming :=
  { s with
    requests := s.requests ++
      [{ settings with
        clientInstance := s.instanceID
        sessionToken := s.client.store.memory.sessionToken }] }

/-- The server handles a request and responds, or refuses it. -/
def process (s : Resuming) (req : HandshakeReq) (fresh : Fresh) : Resuming :=
  let rest := { s with requests := s.requests.erase req, nextToken := s.nextToken + 1 }
  match handleConnection s.config s.server req fresh with
  | none => rest
  | some session =>
    { rest with
      server := some session
      responses := s.responses ++ [(req.clientInstance, (session.respond req).stored)] }

/-- The process is killed, and the next one starts from the file. -/
def crash (s : Resuming) (instanceID : Nat) : Resuming :=
  { s with client := Persisting.new s.client.store.disk, instanceID }

/-- A response is received by the process that asked for it. -/
def step (s : Resuming) : Action → Option Resuming
  | .send settings => some (s.send settings)
  | .process req fresh =>
    if req ∈ s.requests ∧ s.IsFresh fresh then some (s.process req fresh) else none
  | .loseRequest req => some { s with requests := s.requests.erase req }
  | .loseResponse entry => some { s with responses := s.responses.erase entry }
  | .receive r =>
    if (s.instanceID, r) ∈ s.responses then
      some { s with client := s.client.adopt r, responses := s.responses.erase (s.instanceID, r) }
    else none
  | .work action => (s.client.work action).map fun client => { s with client }
  | .crash instanceID => some (s.crash instanceID)

/-- The server would admit a new process with the token that the file holds for its session. -/
def DiskAccepted (s : Resuming) : Prop :=
  ∀ session ∈ s.server, ∀ d ∈ s.client.store.disk, d.sessionID = session.sessionID →
    (session.acceptSessionResumeToken d.sessionToken).isSome = true

instance (s : Resuming) : Decidable s.DiskAccepted :=
  inferInstanceAs (Decidable (∀ session ∈ s.server, ∀ d ∈ s.client.store.disk, _))

/-- A request with the pending token is handled only when the file holds that token. -/
def PersistedFirst (s : Resuming) : Action → Prop
  | .process req _ => ∀ session ∈ s.server, session.pendingResumeToken ≠ 0 →
      req.sessionToken = session.pendingResumeToken →
      ∃ d ∈ s.client.store.disk, d.sessionID = session.sessionID ∧
        d.sessionToken = session.pendingResumeToken
  | _ => True

instance (s : Resuming) : DecidablePred s.PersistedFirst
  | .process req _ => inferInstanceAs (Decidable (∀ session ∈ s.server,
      session.pendingResumeToken ≠ 0 → req.sessionToken = session.pendingResumeToken →
      ∃ d ∈ s.client.store.disk, _))
  | .send _ | .loseRequest _ | .loseResponse _ | .receive _ | .work _ | .crash _ => isTrue trivial

end Resuming

/-! ## What a request does to the tokens -/

namespace ServerSession

variable {session session' : ServerSession} {req : HandshakeReq} {fresh : Fresh}

/-- The tokens and the epoch of a session after a request that it admits. -/
inductive Joined (session session' : ServerSession) (presented token : Nat) : Prop
  | joined (hepoch : session'.epoch = session.epoch)
      (hcur : session'.resumeToken = session.resumeToken)
      (hpend : session'.pendingResumeToken = session.pendingResumeToken)
  | acknowledged (hne : session.pendingResumeToken ≠ 0)
      (hpresented : presented = session.pendingResumeToken)
      (hepoch : session'.epoch = session.epoch)
      (hcur : session'.resumeToken = session.pendingResumeToken)
      (hpend : session'.pendingResumeToken = 0)
  | rotated (hepoch : session'.epoch = session.epoch + 1)
      (hcur : session'.resumeToken = session.resumeToken)
      (hpend : session'.pendingResumeToken =
        if session.pendingResumeToken ≠ 0 then session.pendingResumeToken else token)
  | promoted (hne : session.pendingResumeToken ≠ 0)
      (hpresented : presented = session.pendingResumeToken)
      (hepoch : session'.epoch = session.epoch + 1)
      (hcur : session'.resumeToken = session.pendingResumeToken)
      (hpend : session'.pendingResumeToken = token)

theorem ensure_pending (s : ServerSession) (fresh : Fresh) :
    s.ensurePendingResumeToken fresh =
      { s with
        pendingResumeToken :=
          if s.pendingResumeToken ≠ 0 then s.pendingResumeToken else fresh.token } := by
  unfold ensurePendingResumeToken
  split
  · rfl
  · rfl

theorem join_cases (h : session.join req fresh = some session') :
    (session'.sessionID = session.sessionID ∧ session'.psk = session.psk) ∧
      Joined session session' req.sessionToken fresh.token := by
  unfold join at h
  split at h
  · cases h
  · split at h
    · obtain ⟨accepted, haccept, rfl⟩ := Option.map_eq_some_iff.mp h
      rw [ensure_pending]
      unfold acceptSessionResumeToken at haccept
      split at haccept
      · cases haccept
        exact ⟨⟨rfl, rfl⟩, .rotated rfl rfl rfl⟩
      · split at haccept
        · rename_i hpending
          cases haccept
          exact ⟨⟨rfl, rfl⟩, .promoted hpending.1 hpending.2 rfl rfl rfl⟩
        · cases haccept
    · cases h
      unfold acknowledge
      split
      · rename_i hpending
        exact ⟨⟨rfl, rfl⟩, .acknowledged hpending.1 hpending.2 rfl rfl rfl⟩
      · exact ⟨⟨rfl, rfl⟩, .joined rfl rfl rfl⟩

end ServerSession

/-! ## The records of a session -/

namespace Persisting

variable {c c' : Persisting}

/-- The client holds a record: in memory, in the file or its copy, or in a persist or a refresh. -/
inductive Holds (c : Persisting) (r : Stored) : Prop
  | memory (h : r = c.store.memory)
  | disk (h : c.store.disk = some r)
  | state (h : c.store.state = some r)
  | reading (h : c.reading = some r)
  | unchecked (h : r ∈ c.unchecked)
  | checked (h : r ∈ c.checked)

theorem save_disk (s : ClientStore) (r : Stored) :
    (s.save r).memory = s.memory ∧
      ((s.save r).disk = s.disk ∧ ((s.save r).state = s.state ∨ (s.save r).state = s.disk) ∨
        (s.save r).disk = some r ∧ (s.save r).state = some r ∧ ¬ s.DiskAhead r) := by
  unfold ClientStore.save
  split
  · exact ⟨rfl, .inl ⟨rfl, .inr rfl⟩⟩
  · rename_i hdisk
    split
    · exact ⟨rfl, .inl ⟨rfl, .inl rfl⟩⟩
    · exact ⟨rfl, .inr ⟨rfl, rfl, hdisk⟩⟩

theorem refresh_holds (s : ClientStore) (d : Stored) :
    (s.refresh d).disk = s.disk ∧ ((s.refresh d).memory = s.memory ∧ (s.refresh d).state = s.state ∨
      (s.refresh d).memory = d ∧ (s.refresh d).state = some d) := by
  unfold ClientStore.refresh
  split
  · exact ⟨rfl, .inl ⟨rfl, rfl⟩⟩
  · split
    · exact ⟨rfl, .inl ⟨rfl, rfl⟩⟩
    · split
      · exact ⟨rfl, .inl ⟨rfl, rfl⟩⟩
      · exact ⟨rfl, .inr ⟨rfl, rfl⟩⟩

/-- What the steps of a client without a response do: they move records, and write one that is not
behind the file. -/
structure Moves (c c' : Persisting) : Prop where
  holds : ∀ r, c'.Holds r → c.Holds r
  unchecked : ∀ r ∈ c'.unchecked, r ∈ c.unchecked
  checked : ∀ r ∈ c'.checked, r ∈ c.unchecked ∨ r ∈ c.checked
  disk : c'.store.disk = c.store.disk ∨
    ∃ r ∈ c.checked, c'.store.disk = some r ∧ ¬ c.store.DiskAhead r

/-- With the same store, only the persists and the refresh can hold something new. -/
theorem holds_of_store_eq (hstore : c'.store = c.store)
    (hreading : ∀ r, c'.reading = some r → c.Holds r) (hunchecked : ∀ r ∈ c'.unchecked, c.Holds r)
    (hchecked : ∀ r ∈ c'.checked, c.Holds r) : ∀ r, c'.Holds r → c.Holds r := by
  intro r hr
  cases hr with
  | memory h => exact .memory (hstore ▸ h)
  | disk h => exact .disk (hstore ▸ h)
  | state h => exact .state (hstore ▸ h)
  | reading h => exact hreading r h
  | unchecked h => exact hunchecked r h
  | checked h => exact hchecked r h

theorem compare_moves {r : Stored} (h : c.work (.compare r) = some c') : Moves c c' := by
  simp only [work] at h
  split at h
  · rename_i hmem
    have herase : ∀ x ∈ c.unchecked.erase r, x ∈ c.unchecked := fun _ => mem_of_mem_erase
    split at h
    · cases h
      have hchecked : ∀ x ∈ c.checked ++ [r], x ∈ c.unchecked ∨ x ∈ c.checked := by
        intro x hx
        rcases mem_append.mp hx with hold | hnew
        · exact .inr hold
        · rw [mem_singleton.mp hnew]
          exact .inl hmem
      refine ⟨holds_of_store_eq rfl (fun _ hx => .reading hx)
        (fun x hx => .unchecked (herase x hx)) ?_, herase, hchecked, .inl rfl⟩
      exact fun x hx => (hchecked x hx).elim .unchecked .checked
    · cases h
      exact ⟨holds_of_store_eq rfl (fun _ hx => .reading hx)
        (fun x hx => .unchecked (herase x hx)) (fun _ hx => .checked hx), herase, fun _ => .inr,
        .inl rfl⟩
  · cases h

/-- A write puts a checked record into the file and its copy, or leaves the file as it is. -/
theorem write_moves {r : Stored} (h : c.work (.write r) = some c') : Moves c c' := by
  obtain ⟨hguard, rfl⟩ := of_guarded h
  have herase : ∀ x ∈ c.checked.erase r, x ∈ c.checked := fun _ => mem_of_mem_erase
  obtain ⟨hmemory, hsaved⟩ := save_disk c.store r
  refine ⟨fun x hx => ?_, fun _ hx => hx, fun x hx => .inr (herase x hx), ?_⟩
  · cases hx with
    | memory hx => exact .memory (hx.trans hmemory)
    | disk hx =>
      rcases hsaved with ⟨hdisk, -⟩ | ⟨hdisk, -⟩
      · exact .disk (hdisk.symm.trans hx)
      · cases hdisk.symm.trans hx
        exact .checked hguard.1
    | state hx =>
      rcases hsaved with ⟨-, hstate | hstate⟩ | ⟨-, hstate, -⟩
      · exact .state (hstate.symm.trans hx)
      · exact .disk (hstate.symm.trans hx)
      · cases hstate.symm.trans hx
        exact .checked hguard.1
    | reading hx => exact .reading hx
    | unchecked hx => exact .unchecked hx
    | checked hx => exact .checked (herase x hx)
  · rcases hsaved with ⟨hdisk, -⟩ | ⟨hdisk, -, hahead⟩
    · exact .inl hdisk
    · exact .inr ⟨r, hguard.1, hdisk, hahead⟩

/-- A refresh takes the record that was read into memory, or nothing. -/
theorem absorb_moves (h : c.work .absorb = some c') : Moves c c' := by
  simp only [work] at h
  obtain ⟨d, hreading, rfl⟩ := Option.map_eq_some_iff.mp h
  obtain ⟨hdisk, hrest⟩ := refresh_holds c.store d
  refine ⟨fun x hx => ?_, fun _ hx => hx, fun _ hx => .inr hx, .inl hdisk⟩
  cases hx with
  | memory hx =>
    rcases hrest with ⟨hmemory, -⟩ | ⟨hmemory, -⟩
    · exact .memory (hx.trans hmemory)
    · exact .reading (by rw [hreading, hx, hmemory])
  | disk hx => exact .disk (hdisk.symm.trans hx)
  | state hx =>
    rcases hrest with ⟨-, hstate⟩ | ⟨-, hstate⟩
    · exact .state (hstate.symm.trans hx)
    · exact .reading (hreading.trans (hstate.symm.trans hx))
  | reading hx => cases hx
  | unchecked hx => exact .unchecked hx
  | checked hx => exact .checked hx

theorem work_moves {action : Action} (h : c.work action = some c') : Moves c c' := by
  cases action with
  | adopt r => cases h
  | compare r => exact compare_moves h
  | write r => exact write_moves h
  | readDisk =>
    obtain ⟨_, rfl⟩ := of_guarded h
    exact ⟨holds_of_store_eq rfl (fun x hx => .disk (Option.filter_eq_some_iff.mp hx).1)
      (fun _ hx => .unchecked hx) (fun _ hx => .checked hx), fun _ => id, fun _ => .inr,
      .inl rfl⟩
  | absorb => exact absorb_moves h

end Persisting

/-! ## The invariant -/

namespace Resuming

variable {s s' : Resuming} {session session' : ServerSession}

/-- A record is held by the client or by a response. -/
def Holds (s : Resuming) (r : Stored) : Prop := s.client.Holds r ∨ ∃ inst, (inst, r) ∈ s.responses

/-- A record that may still be written to the file. -/
def Underway (s : Resuming) (r : Stored) : Prop :=
  r ∈ s.client.unchecked ∨ r ∈ s.client.checked ∨ ∃ inst, (inst, r) ∈ s.responses

/-- A record of the session that is held somewhere. -/
def Known (s : Resuming) (session : ServerSession) (r : Stored) : Prop :=
  s.Holds r ∧ r.sessionID = session.sessionID

/-- The records of the session are in the order of their epochs, and none in the file is behind the
current token. -/
structure Accepting (s : Resuming) (session : ServerSession) : Prop where
  psk_eq : session.psk = s.config.psk
  id_ne : session.sessionID ≠ 0
  cur_pos : 0 < session.resumeToken
  cur_lt : session.resumeToken < s.nextToken
  pend : session.pendingResumeToken ≠ 0 →
    session.resumeToken < session.pendingResumeToken ∧ session.pendingResumeToken < s.nextToken
  epoch_le : ∀ r, s.Known session r → r.sessionEpoch ≤ session.epoch
  newest : ∀ r, s.Known session r → r.sessionEpoch = session.epoch →
    r.sessionToken = session.responseResumeToken
  issued : ∀ r, s.Known session r → r.sessionToken ≤ session.resumeToken ∨
    session.pendingResumeToken ≠ 0 ∧ r.sessionToken = session.pendingResumeToken
  mono : ∀ r r', s.Known session r → s.Known session r' → r.sessionEpoch ≤ r'.sessionEpoch →
    r.sessionToken ≤ r'.sessionToken
  underway : ∀ r, s.Underway r → r.sessionID = session.sessionID
  disk_ge : ∀ d ∈ s.client.store.disk, d.sessionID = session.sessionID →
    session.resumeToken ≤ d.sessionToken
  first_ge : (∀ d ∈ s.client.store.disk, d.sessionID ≠ session.sessionID) →
    ∀ r, s.Known session r → session.resumeToken ≤ r.sessionToken

/-- The tokens of the client have been drawn, the file holds a session if anything, and the records
of the server's session are in order. -/
structure Sane (s : Resuming) : Prop where
  held_lt : ∀ r, s.Holds r → r.sessionToken < s.nextToken
  request_lt : ∀ req ∈ s.requests, req.sessionToken < s.nextToken
  disk_id : ∀ d ∈ s.client.store.disk, d.sessionID ≠ 0
  absent : s.server = none → (∀ r, ¬ s.Underway r) ∧
    ∀ r, s.Holds r → r.sessionID = 0 ∨ r.sessionID = s.oldSession
  present : ∀ session ∈ s.server, s.Accepting session

theorem Accepting.disk_accepted (h : s.Accepting session) {d : Stored}
    (hd : d ∈ s.client.store.disk) (hsame : d.sessionID = session.sessionID) :
    (session.acceptSessionResumeToken d.sessionToken).isSome = true := by
  have hge := h.disk_ge d hd hsame
  have hpos := h.cur_pos
  unfold ServerSession.acceptSessionResumeToken
  split
  · rfl
  · rename_i hcur
    rcases h.issued d ⟨.inl (.disk hd), hsame⟩ with hle | ⟨hne, hpend⟩
    · exact absurd ⟨by omega, by omega⟩ hcur
    · rw [if_pos ⟨hne, hpend⟩]
      rfl

/-- A step that moves records, or writes one that is not behind the file. -/
theorem Accepting.moves (h : s.Accepting session) (hconfig : s'.config = s.config)
    (hnext : s.nextToken ≤ s'.nextToken)
    (hholds : ∀ r, s'.Holds r → r.sessionID ≠ 0 → s.Holds r)
    (hunderway : ∀ r, s'.Underway r → s.Underway r)
    (hdisk : s'.client.store.disk = s.client.store.disk ∨
      ∃ r, s.Underway r ∧ s.Holds r ∧ s'.client.store.disk = some r ∧
        ¬ s.client.store.DiskAhead r) :
    s'.Accepting session := by
  have hknown : ∀ r, s'.Known session r → s.Known session r := fun r hr =>
    ⟨hholds r hr.1 (by rw [hr.2]; exact h.id_ne), hr.2⟩
  refine
    { psk_eq := h.psk_eq.trans (by rw [hconfig])
      id_ne := h.id_ne
      cur_pos := h.cur_pos
      cur_lt := h.cur_lt.trans_le hnext
      pend := fun hne => ⟨(h.pend hne).1, (h.pend hne).2.trans_le hnext⟩
      epoch_le := fun r hr => h.epoch_le r (hknown r hr)
      newest := fun r hr => h.newest r (hknown r hr)
      issued := fun r hr => h.issued r (hknown r hr)
      mono := fun r r' hr hr' => h.mono r r' (hknown r hr) (hknown r' hr')
      underway := fun r hr => h.underway r (hunderway r hr)
      disk_ge := ?_
      first_ge := ?_ }
  · intro d hd hsame
    rcases hdisk with hkept | ⟨r, hun, hheld, hwritten, hahead⟩
    · exact h.disk_ge d (by rw [← hkept]; exact hd) hsame
    · cases hwritten.symm.trans (Option.mem_def.mp hd)
      by_cases hbefore : ∃ d₀ ∈ s.client.store.disk, d₀.sessionID = session.sessionID
      · -- the file held the session before, at an epoch that is not later
        obtain ⟨d₀, hd₀, hid⟩ := hbefore
        refine (h.disk_ge d₀ hd₀ hid).trans
          (h.mono d₀ d ⟨.inl (.disk hd₀), hid⟩ ⟨hheld, hsame⟩ ?_)
        by_contra hlater
        exact hahead ⟨d₀, hd₀, hid.trans hsame.symm, .inl (by omega)⟩
      · refine h.first_ge (fun d₀ hd₀ hid => hbefore ⟨d₀, hd₀, hid⟩) d ⟨hheld, hsame⟩
  · intro hnone r hr
    rcases hdisk with hkept | ⟨d, hun, _, hwritten, _⟩
    · exact h.first_ge (fun d hd => hnone d (by rw [hkept]; exact hd)) r (hknown r hr)
    · exact absurd (h.underway d hun) (hnone d hwritten)

/-- The server answers a request: the response is the only new record. -/
def respond (s : Resuming) (req : HandshakeReq) (session : ServerSession) : Resuming :=
  { s with
    requests := s.requests.erase req
    nextToken := s.nextToken + 1
    server := some session
    responses := s.responses ++ [(req.clientInstance, (session.respond req).stored)] }

variable {req : HandshakeReq} {r : Stored}

theorem respond_holds (h : (s.respond req session).Holds r) :
    s.Holds r ∨ r = (session.respond req).stored := by
  rcases h with hclient | ⟨inst, hmem⟩
  · exact .inl (.inl hclient)
  · rcases mem_append.mp hmem with hold | hnew
    · exact .inl (.inr ⟨inst, hold⟩)
    · exact .inr (Prod.mk.inj (mem_singleton.mp hnew)).2

theorem respond_underway (h : (s.respond req session).Underway r) :
    s.Underway r ∨ r = (session.respond req).stored := by
  rcases h with hun | hch | ⟨inst, hmem⟩
  · exact .inl (.inl hun)
  · exact .inl (.inr (.inl hch))
  · rcases mem_append.mp hmem with hold | hnew
    · exact .inl (.inr (.inr ⟨inst, hold⟩))
    · exact .inr (Prod.mk.inj (mem_singleton.mp hnew)).2

/-- A response has the pending token, or the current one if none is pending. -/
theorem response_token_cases (session : ServerSession) :
    session.pendingResumeToken ≠ 0 ∧ session.responseResumeToken = session.pendingResumeToken ∨
      session.pendingResumeToken = 0 ∧ session.responseResumeToken = session.resumeToken := by
  unfold ServerSession.responseResumeToken
  split
  · rename_i hne
    exact .inl ⟨hne, rfl⟩
  · rename_i hzero
    exact .inr ⟨not_not.mp hzero, rfl⟩

/-- A session that moves on: its newest token and its epoch are not behind any record, and its
current token is not ahead of the file. -/
theorem Accepting.advance (h : s.Accepting session) (hid : session'.sessionID = session.sessionID)
    (hpsk : session'.psk = session.psk) (hepoch : session.epoch ≤ session'.epoch)
    (hcur : session.resumeToken ≤ session'.resumeToken)
    (hcur_lt : session'.resumeToken < s.nextToken)
    (hpend : session'.pendingResumeToken ≠ 0 → session'.resumeToken < session'.pendingResumeToken ∧
      session'.pendingResumeToken ≤ s.nextToken)
    (hnewest : ∀ r, s.Known session r → r.sessionEpoch = session'.epoch →
      r.sessionToken = session'.responseResumeToken)
    (hissued : ∀ r, s.Known session r → r.sessionToken ≤ session'.resumeToken ∨
      session'.pendingResumeToken ≠ 0 ∧ r.sessionToken = session'.pendingResumeToken)
    (hdisk : session'.resumeToken = session.resumeToken ∨
      ∃ d ∈ s.client.store.disk, d.sessionID = session.sessionID ∧
        session'.resumeToken ≤ d.sessionToken) : (s.respond req session').Accepting session' := by
  have htop : session'.resumeToken ≤ session'.responseResumeToken := by
    rcases response_token_cases session' with ⟨hne, heq⟩ | ⟨-, heq⟩
    · rw [heq]
      exact (hpend hne).1.le
    · exact heq.ge
  have hbelow : ∀ r, s.Known session r → r.sessionToken ≤ session'.responseResumeToken := by
    intro r hr
    rcases hissued r hr with hle | ⟨hne, heq⟩
    · exact hle.trans htop
    · unfold ServerSession.responseResumeToken
      rw [if_pos hne, heq]
  have hknown : ∀ r, (s.respond req session').Known session' r →
      s.Known session r ∨ r = (session'.respond req).stored := by
    intro r hr
    rcases respond_holds hr.1 with hold | hnew
    · exact .inl ⟨hold, hr.2.trans hid⟩
    · exact .inr hnew
  refine
    { psk_eq := hpsk.trans h.psk_eq
      id_ne := by rw [hid]; exact h.id_ne
      cur_pos := h.cur_pos.trans_le hcur
      cur_lt := Nat.lt_succ_of_lt hcur_lt
      pend := fun hne => ⟨(hpend hne).1, Nat.lt_succ_of_le (hpend hne).2⟩
      epoch_le := ?_
      newest := ?_
      issued := ?_
      mono := ?_
      underway := ?_
      disk_ge := ?_
      first_ge := ?_ }
  · intro r hr
    rcases hknown r hr with hold | rfl
    · exact (h.epoch_le r hold).trans hepoch
    · exact le_rfl
  · intro r hr heq
    rcases hknown r hr with hold | rfl
    · exact hnewest r hold heq
    · rfl
  · intro r hr
    rcases hknown r hr with hold | rfl
    · exact hissued r hold
    · rcases response_token_cases session' with ⟨hne, heq⟩ | ⟨-, heq⟩
      · exact .inr ⟨hne, heq⟩
      · exact .inl heq.le
  · intro r r' hr hr' hle
    rcases hknown r hr with hold | rfl
    · rcases hknown r' hr' with hold' | rfl
      · exact h.mono r r' hold hold' hle
      · exact hbelow r hold
    · rcases hknown r' hr' with hold' | rfl
      · have heq : r'.sessionEpoch = session'.epoch :=
          Nat.le_antisymm ((h.epoch_le r' hold').trans hepoch) hle
        rw [hnewest r' hold' heq]
        exact le_rfl
      · exact le_rfl
  · intro r hr
    rcases respond_underway hr with hold | rfl
    · exact (h.underway r hold).trans hid.symm
    · rfl
  · intro d hd hsame
    rw [hid] at hsame
    rcases hdisk with hkept | ⟨d₀, hd₀, -, hge⟩
    · rw [hkept]
      exact h.disk_ge d hd hsame
    · cases (Option.mem_def.mp hd₀).symm.trans (Option.mem_def.mp hd)
      exact hge
  · intro hnone r hr
    rcases hdisk with hkept | ⟨d₀, hd₀, hsame, -⟩
    · rcases hknown r hr with hold | rfl
      · rw [hkept]
        exact h.first_ge (fun d hd => by rw [← hid]; exact hnone d hd) r hold
      · exact htop
    · exact absurd (hsame.trans hid.symm) (hnone d₀ hd₀)

theorem Accepting.le_pending (h : s.Accepting session) (hne : session.pendingResumeToken ≠ 0)
    (hr : s.Known session r) : r.sessionToken ≤ session.pendingResumeToken := by
  rcases h.issued r hr with hle | ⟨-, heq⟩
  · exact hle.trans (h.pend hne).1.le
  · exact heq.le

variable {fresh : Fresh}

/-- A request that the session admits. The pending token becomes current only if the file holds it.
-/
theorem Accepting.join (h : s.Accepting session) (hjoin : session.join req fresh = some session')
    (hfresh : fresh.token = s.nextToken)
    (hpersisted : session.pendingResumeToken ≠ 0 → req.sessionToken = session.pendingResumeToken →
      ∃ d ∈ s.client.store.disk, d.sessionID = session.sessionID ∧
        d.sessionToken = session.pendingResumeToken) :
    (s.respond req session').Accepting session' := by
  obtain ⟨⟨hid, hpsk⟩, hjoined⟩ := ServerSession.join_cases hjoin
  have hlt := h.cur_lt
  have hpending := h.pend
  have htop : session.responseResumeToken =
      if session.pendingResumeToken ≠ 0 then session.pendingResumeToken
      else session.resumeToken := rfl
  have htop' : session'.responseResumeToken =
      if session'.pendingResumeToken ≠ 0 then session'.pendingResumeToken
      else session'.resumeToken := rfl
  -- a rotated session is ahead of every record
  have hahead : session'.epoch = session.epoch + 1 → ∀ r, s.Known session r →
      r.sessionEpoch = session'.epoch → r.sessionToken = session'.responseResumeToken := by
    intro hrot r hr heq
    have hle := h.epoch_le r hr
    omega
  cases hjoined with
  | joined hepoch hcur hpend =>
    refine h.advance hid hpsk hepoch.ge hcur.ge (by omega) ?_ ?_ ?_ (.inl hcur)
    · intro hne
      rw [hpend] at hne ⊢
      rw [hcur]
      exact ⟨(hpending hne).1, (hpending hne).2.le⟩
    · intro r hr heq
      rw [hepoch] at heq
      rw [h.newest r hr heq, htop, htop', hpend, hcur]
    · intro r hr
      rw [hcur, hpend]
      exact h.issued r hr
  | acknowledged hne hpresented hepoch hcur hpend =>
    obtain ⟨d, hd, hsame, htoken⟩ := hpersisted hne hpresented
    refine h.advance hid hpsk hepoch.ge (by rw [hcur]; exact (hpending hne).1.le)
      (by rw [hcur]; exact (hpending hne).2) ?_ ?_ ?_
      (.inr ⟨d, hd, hsame, by rw [hcur, htoken]⟩)
    · intro hne'
      exact absurd hpend hne'
    · intro r hr heq
      rw [hepoch] at heq
      rw [h.newest r hr heq, htop, htop', if_pos hne, if_neg (not_not.mpr hpend), hcur]
    · intro r hr
      rw [hcur]
      exact .inl (h.le_pending hne hr)
  | rotated hepoch hcur hpend =>
    refine h.advance hid hpsk (by omega) hcur.ge (by omega) ?_ (hahead hepoch) ?_ (.inl hcur)
    · intro _
      rw [hcur, hpend]
      split
      · rename_i hne
        exact ⟨(hpending hne).1, (hpending hne).2.le⟩
      · rw [hfresh]
        exact ⟨hlt, le_rfl⟩
    · intro r hr
      rw [hcur]
      rcases h.issued r hr with hle | ⟨hne, heq⟩
      · exact .inl hle
      · rw [hpend, if_pos hne]
        exact .inr ⟨hne, heq⟩
  | promoted hne hpresented hepoch hcur hpend =>
    obtain ⟨d, hd, hsame, htoken⟩ := hpersisted hne hpresented
    refine h.advance hid hpsk (by omega) (by rw [hcur]; exact (hpending hne).1.le)
      (by rw [hcur]; exact (hpending hne).2) ?_ (hahead hepoch) ?_
      (.inr ⟨d, hd, hsame, by rw [hcur, htoken]⟩)
    · intro _
      rw [hcur, hpend, hfresh]
      exact ⟨(hpending hne).2, le_rfl⟩
    · intro r hr
      rw [hcur]
      exact .inl (h.le_pending hne hr)

/-- The first session: no record but its response is of it. -/
theorem Sane.create (h : s.Sane) (hnone : s.server = none) (hmem : req ∈ s.requests)
    (hfresh : s.IsFresh fresh) :
    (s.respond req (.create s.config req fresh)).Accepting (.create s.config req fresh) := by
  obtain ⟨htoken, hid, hold⟩ := hfresh
  obtain ⟨hidle, hrecords⟩ := h.absent hnone
  have hreq := h.request_lt req hmem
  have hcur : (ServerSession.create s.config req fresh).resumeToken =
      if req.sessionToken ≠ 0 then req.sessionToken else fresh.token := rfl
  have hother : ∀ r, s.Holds r → r.sessionID ≠ fresh.sessionID := by
    intro r hr heq
    rcases hrecords r hr with hzero | hsame
    · exact hid (heq.symm.trans hzero)
    · exact hold (heq.symm.trans hsame)
  have hknown : ∀ r, (s.respond req (.create s.config req fresh)).Known
      (.create s.config req fresh) r →
      r = ((ServerSession.create s.config req fresh).respond req).stored := by
    intro r hr
    rcases respond_holds hr.1 with hold | hnew
    · exact absurd hr.2 (hother r hold)
    · exact hnew
  refine
    { psk_eq := rfl
      id_ne := hid
      cur_pos := by rw [hcur]; split <;> omega
      cur_lt := by
        show _ < s.nextToken + 1
        rw [hcur]
        split <;> omega
      pend := fun hne => absurd rfl hne
      epoch_le := fun r hr => by rw [hknown r hr]; exact le_rfl
      newest := fun r hr _ => by rw [hknown r hr]; rfl
      issued := fun r hr => by rw [hknown r hr]; exact .inl le_rfl
      mono := fun r r' hr hr' _ => by rw [hknown r hr, hknown r' hr']
      underway := ?_
      disk_ge := fun d hd hsame => absurd hsame (hother d (.inl (.disk hd)))
      first_ge := fun _ r hr => by rw [hknown r hr]; exact le_rfl }
  intro r hr
  rcases respond_underway hr with hun | rfl
  · exact absurd hun (hidle r)
  · rfl

/-- An answered request keeps the books, if it leaves the new session in order. -/
theorem Sane.respond (h : s.Sane) (hsession : (s.respond req session).Accepting session) :
    (s.respond req session).Sane := by
  refine
    { held_lt := ?_
      request_lt := fun r hr => Nat.lt_succ_of_lt (h.request_lt r (mem_of_mem_erase hr))
      disk_id := h.disk_id
      absent := by nofun
      present := ?_ }
  · intro r hr
    rcases respond_holds hr with hold | rfl
    · exact Nat.lt_succ_of_lt (h.held_lt r hold)
    · show session.responseResumeToken < _
      rcases response_token_cases session with ⟨hne, heq⟩ | ⟨-, heq⟩
      · rw [heq]
        exact (hsession.pend hne).2
      · rw [heq]
        exact hsession.cur_lt
  · intro session₀ hmem
    cases Option.mem_def.mp hmem
    exact hsession

/-- A step of the client alone, which moves records or forgets them. -/
theorem Sane.moves (h : s.Sane) (hserver : s'.server = s.server) (hconfig : s'.config = s.config)
    (hold : s'.oldSession = s.oldSession) (hnext : s.nextToken ≤ s'.nextToken)
    (hrequests : ∀ req ∈ s'.requests, req.sessionToken < s.nextToken)
    (hholds : ∀ r, s'.Holds r → s.Holds r ∨ r = ⟨0, 0, 0⟩)
    (hunderway : ∀ r, s'.Underway r → s.Underway r)
    (hdisk : s'.client.store.disk = s.client.store.disk ∨
      ∃ r, s.Underway r ∧ s.Holds r ∧ s'.client.store.disk = some r ∧
        ¬ s.client.store.DiskAhead r) : s'.Sane := by
  have hzero : ∀ r, s'.Holds r → r.sessionID ≠ 0 → s.Holds r := by
    intro r hr hne
    rcases hholds r hr with hr | rfl
    · exact hr
    · exact absurd rfl hne
  refine
    { held_lt := ?_
      request_lt := fun req hreq => (hrequests req hreq).trans_le hnext
      disk_id := ?_
      absent := ?_
      present := ?_ }
  · intro r hr
    rcases hholds r hr with hr | rfl
    · exact (h.held_lt r hr).trans_le hnext
    · exact (Nat.zero_le _).trans_lt ((h.held_lt _ (.inl (.memory rfl))).trans_le hnext)
  · intro d hd
    rcases hdisk with hkept | ⟨r, hun, -, hwritten, -⟩
    · exact h.disk_id d (by rw [← hkept]; exact hd)
    · cases hwritten.symm.trans (Option.mem_def.mp hd)
      cases hsession : s.server with
      | none => exact absurd hun ((h.absent hsession).1 d)
      | some session =>
        have hpresent := h.present session hsession
        rw [hpresent.underway d hun]
        exact hpresent.id_ne
  · intro hnone
    obtain ⟨hidle, hrecords⟩ := h.absent (hserver.symm.trans hnone)
    refine ⟨fun r hr => hidle r (hunderway r hr), fun r hr => ?_⟩
    rw [hold]
    rcases hholds r hr with hr | rfl
    · exact hrecords r hr
    · exact .inl rfl
  · intro session hsession
    exact (h.present session (by rw [← hserver]; exact hsession)).moves hconfig hnext hzero
      hunderway hdisk

theorem new_sane (config : ServerConfig) (file : Option Stored) (instanceID : Nat) :
    (Resuming.new config file instanceID).Sane := by
  have hmemory : ∀ r, (Resuming.new config file instanceID).Holds r →
      r = (Resuming.new config file instanceID).client.store.memory := by
    have hdisk : ∀ r, file.filter (·.sessionID ≠ 0) = some r →
        r = (file.filter (·.sessionID ≠ 0)).getD ⟨0, 0, 0⟩ := by
      intro r hr
      rw [hr]
      rfl
    intro r hr
    rcases hr with hclient | ⟨_, hmem⟩
    · cases hclient with
      | memory hr => exact hr
      | disk hr | state hr => exact hdisk r hr
      | reading hr | unchecked hr | checked hr => cases hr
    · cases hmem
  refine
    { held_lt := ?_
      request_lt := by nofun
      disk_id := ?_
      absent := ?_
      present := by nofun }
  · intro r hr
    rw [hmemory r hr]
    exact Nat.lt_succ_self _
  · intro d hd
    exact of_decide_eq_true (Option.filter_eq_some_iff.mp hd).2
  · intro _
    refine ⟨?_, fun r hr => .inr (by rw [hmemory r hr]; rfl)⟩
    rintro r (hr | hr | ⟨_, hr⟩)
    · cases hr
    · cases hr
    · cases hr

/-! ## Steps and runs -/

theorem Sane.send (h : s.Sane) (settings : HandshakeReq) : (s.send settings).Sane := by
  refine h.moves rfl rfl rfl le_rfl ?_ (fun _ hr => .inl hr) (fun _ hr => hr) (.inl rfl)
  intro req hreq
  rcases mem_append.mp hreq with hold | hnew
  · exact h.request_lt req hold
  · rw [mem_singleton.mp hnew]
    exact h.held_lt _ (.inl (.memory rfl))

theorem Sane.process (h : s.Sane) (hmem : req ∈ s.requests) (hfresh : s.IsFresh fresh)
    (hpersisted : s.PersistedFirst (.process req fresh)) : (s.process req fresh).Sane := by
  unfold Resuming.process
  split
  · refine h.moves rfl rfl rfl (Nat.le_succ _) ?_ (fun _ hr => .inl hr) (fun _ hr => hr)
      (.inl rfl)
    exact fun r hr => h.request_lt r (mem_of_mem_erase hr)
  · rename_i session' hsession
    refine h.respond ?_
    unfold handleConnection at hsession
    split at hsession
    · cases hsession
    · cases hserver : s.server with
      | none =>
        rw [hserver] at hsession
        cases hsession
        exact h.create hserver hmem hfresh
      | some session =>
        have hpresent := h.present session hserver
        have hkept : s.server.filter (·.psk = s.config.psk) = some session := by
          rw [hserver]
          exact Option.filter_some_pos (decide_eq_true hpresent.psk_eq)
        rw [hkept] at hsession
        exact hpresent.join hsession hfresh.1 (hpersisted session hserver)

theorem Sane.receive (h : s.Sane) (hmem : (s.instanceID, r) ∈ s.responses) :
    Sane { s with
      client := s.client.adopt r
      responses := s.responses.erase (s.instanceID, r) } := by
  have hun : ∀ x ∈ s.client.unchecked ++ [r], s.Underway x := by
    intro x hx
    rcases mem_append.mp hx with hold | hnew
    · exact .inl hold
    · rw [mem_singleton.mp hnew]
      exact .inr (.inr ⟨_, hmem⟩)
  have hheld : s.Holds r := .inr ⟨_, hmem⟩
  refine h.moves rfl rfl rfl le_rfl h.request_lt ?_ ?_ (.inl rfl)
  · rintro x (hclient | ⟨inst, hx⟩)
    · left
      cases hclient with
      | memory hx => rw [hx]; exact hheld
      | disk hx => exact .inl (.disk hx)
      | state hx => exact .inl (.state hx)
      | reading hx => exact .inl (.reading hx)
      | unchecked hx =>
        rcases hun x hx with hx | hx | hx
        · exact .inl (.unchecked hx)
        · exact .inl (.checked hx)
        · exact .inr hx
      | checked hx => exact .inl (.checked hx)
    · exact .inl (.inr ⟨inst, mem_of_mem_erase hx⟩)
  · rintro x (hx | hx | ⟨inst, hx⟩)
    · exact hun x hx
    · exact .inr (.inl hx)
    · exact .inr (.inr ⟨inst, mem_of_mem_erase hx⟩)

theorem Sane.work (h : s.Sane) {client : Persisting} (hmoves : Persisting.Moves s.client client) :
    Sane { s with client } := by
  refine h.moves rfl rfl rfl le_rfl h.request_lt ?_ ?_ ?_
  · rintro x (hx | hx)
    · exact .inl (.inl (hmoves.holds x hx))
    · exact .inl (.inr hx)
  · rintro x (hx | hx | hx)
    · exact .inl (hmoves.unchecked x hx)
    · rcases hmoves.checked x hx with hx | hx
      · exact .inl hx
      · exact .inr (.inl hx)
    · exact .inr (.inr hx)
  · rcases hmoves.disk with hkept | ⟨r, hr, hwritten, hahead⟩
    · exact .inl hkept
    · exact .inr ⟨r, .inr (.inl hr), .inl (.checked hr), hwritten, hahead⟩

/-- The next process knows what is in the file. -/
theorem Sane.crash (h : s.Sane) (instanceID : Nat) : (s.crash instanceID).Sane := by
  have hdisk : s.client.store.disk.filter (·.sessionID ≠ 0) = s.client.store.disk := by
    cases hd : s.client.store.disk with
    | none => rfl
    | some d => exact Option.filter_some_pos (decide_eq_true (h.disk_id d hd))
  have hnew : ∀ r, s.client.store.disk.filter (·.sessionID ≠ 0) = some r → s.Holds r :=
    fun r hr => .inl (.disk (hdisk.symm.trans hr))
  refine h.moves rfl rfl rfl le_rfl h.request_lt ?_ ?_ (.inl hdisk)
  · rintro r (hclient | hr)
    · cases hclient with
      | memory hr =>
        cases hd : s.client.store.disk.filter (·.sessionID ≠ 0) with
        | none =>
          right
          show r = _
          rw [hr]
          show (s.client.store.disk.filter (·.sessionID ≠ 0)).getD _ = _
          rw [hd]
          rfl
        | some d =>
          left
          have heq : r = d := by
            rw [hr]
            show (s.client.store.disk.filter (·.sessionID ≠ 0)).getD _ = _
            rw [hd]
            rfl
          rw [heq]
          exact hnew d hd
      | disk hr | state hr => exact .inl (hnew r hr)
      | reading hr | unchecked hr | checked hr => cases hr
    · exact .inl (.inr hr)
  · rintro r (hr | hr | hr)
    · cases hr
    · cases hr
    · exact .inr (.inr hr)

/-- Tokens are drawn in order. -/
theorem Sane.step (h : s.Sane) {action : Action} (hpersisted : s.PersistedFirst action)
    (hstep : s.step action = some s') : s'.Sane := by
  cases action with
  | send settings =>
    cases hstep
    exact h.send settings
  | process req fresh =>
    obtain ⟨hguard, rfl⟩ := of_guarded hstep
    exact h.process hguard.1 hguard.2 hpersisted
  | loseRequest req =>
    cases hstep
    exact h.moves rfl rfl rfl le_rfl (fun r hr => h.request_lt r (mem_of_mem_erase hr))
      (fun _ hr => .inl hr) (fun _ hr => hr) (.inl rfl)
  | loseResponse entry =>
    cases hstep
    refine h.moves rfl rfl rfl le_rfl h.request_lt ?_ ?_ (.inl rfl)
    · rintro r (hr | ⟨inst, hr⟩)
      · exact .inl (.inl hr)
      · exact .inl (.inr ⟨inst, mem_of_mem_erase hr⟩)
    · rintro r (hr | hr | ⟨inst, hr⟩)
      · exact .inl hr
      · exact .inr (.inl hr)
      · exact .inr (.inr ⟨inst, mem_of_mem_erase hr⟩)
  | receive r =>
    obtain ⟨hmem, rfl⟩ := of_guarded hstep
    exact h.receive hmem
  | work action =>
    obtain ⟨client, hclient, rfl⟩ := Option.map_eq_some_iff.mp hstep
    exact h.work (Persisting.work_moves hclient)
  | crash instanceID =>
    cases hstep
    exact h.crash instanceID

/-- The server accepts the token that the file holds for its session, so a client can resume after a
crash at any point. -/
theorem disk_token_accepted (config : ServerConfig) (file : Option Stored) (instanceID : Nat)
    (actions : List Action)
    (halong : Along step PersistedFirst (new config file instanceID) actions)
    (hrun : run step (new config file instanceID) actions = some s) : s.DiskAccepted := by
  have hsane : s.Sane := run_invariant (fun _ _ _ h hallowed hstep => Sane.step h hallowed hstep)
    (new_sane config file instanceID) halong hrun
  intro session hsession d hd hsame
  exact (hsane.present session hsession).disk_accepted hd hsame

/-- A request of a client without FEC and encryption. -/
def request (instanceID token : Nat) : HandshakeReq :=
  { clientInstance := instanceID
    psk := "key"
    fec := false
    fecGroup := 0
    encrypt := false
    encAlgo := none
    sessionToken := token }

/-- A connection of an instance does a handshake with the token in memory and adopts the response.
-/
def handshake (instanceID token drawn : Nat) (r : Stored) : List Action :=
  [.send (request 0 0), .process (request instanceID token) (System.draw drawn), .receive r]

/-- The first process keeps the token of its session, and the second one resumes with it. The server
makes a second token pending, which the client holds in memory only. -/
def resumedOnce : List Action :=
  handshake 1 0 1 ⟨1, 1, 1⟩ ++ [.work (.compare ⟨1, 1, 1⟩), .work (.write ⟨1, 1, 1⟩), .crash 2] ++
    handshake 2 1 2 ⟨1, 2, 2⟩

/-- The second token reaches the file before another connection presents it. -/
def persistedBeforeUse : List Action :=
  resumedOnce ++ [.work (.compare ⟨1, 2, 2⟩), .work (.write ⟨1, 2, 2⟩)] ++ handshake 2 2 3 ⟨1, 2, 2⟩

/-- The token in the file is the current one. -/
theorem persisted_before_use_accepted :
    ∃ s, run step (new (System.serverSettings false) none 1) persistedBeforeUse = some s ∧
      (s.client.store.disk = some ⟨1, 2, 2⟩ ∧ s.server.map (·.resumeToken) = some 2) ∧
      s.DiskAccepted := by
  obtain ⟨s, hrun, hend⟩ :
      ∃ s, run step (new (System.serverSettings false) none 1) persistedBeforeUse = some s ∧
        (s.client.store.disk = some ⟨1, 2, 2⟩ ∧ s.server.map (·.resumeToken) = some 2) :=
    exists_run_of_decide (by decide +kernel)
  exact ⟨s, hrun, hend, disk_token_accepted _ _ _ _ (by decide +kernel) hrun⟩

/-- Another connection presents the second token before it is in the file: the server drops the
first one, which is all that a process started after a crash has. -/
theorem unpersisted_token_presented :
    ∃ s, run step (new (System.serverSettings false) none 1)
        (resumedOnce ++ handshake 2 2 3 ⟨1, 2, 2⟩) = some s ∧
      s.client.store.disk = some ⟨1, 1, 1⟩ ∧ ¬ s.DiskAccepted :=
  exists_run_of_decide (by decide +kernel)

end Resuming

end TlsVpn.Session
