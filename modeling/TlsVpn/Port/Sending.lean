import TlsVpn.Port.AsyncPort

/-!
# What sending changes

Sending touches the queues and the drop counter only. The batches handed to a backend, taken by its
writer or still queued, form its stream; a writer that takes a batch does not change it.

`send_owned_batch_spec` says that a batch ends up on one registered backend, behind the control that
is pending there, or nowhere; `send_parities_spec` that the records go, without a control, to the
backends picked for them. Neither the number of passes nor the writers in between matter.
-/

namespace TlsVpn.Port

open Lib Crypto Fec Function List

namespace AsyncPort

/-- Everything handed to a backend so far, in order. -/
def stream (p : AsyncPort) (b : Nat) : List (List VPNFrame) :=
  (p.backend b).taken ++ (p.backend b).queue

/-- The batch as it is queued on a backend, with the pending control in front. -/
def fencedBatch (p : AsyncPort) (b : Nat) (batch : List VPNFrame) : List VPNFrame :=
  match p.fence b with
  | none => batch
  | some ctrl => ⟨0, appendFECModeControl [] ctrl⟩ :: batch

/-- The fence generation of a backend after it took a batch. -/
def fencedGen (p : AsyncPort) (b : Nat) : Nat :=
  match p.fence b with
  | none => (p.backend b).fecFenceGen
  | some ctrl => ctrl.generation

/-- The fields that sending leaves alone. -/
structure Keeps (p p' : AsyncPort) : Prop where
  ch_eq : p'.ch = p.ch
  backends_eq : p'.backends = p.backends
  encoder_eq : p'.encoder = p.encoder
  txSeq_eq : p'.txSeq = p.txSeq
  exhausted_eq : p'.exhausted = p.exhausted
  phase_eq : p'.phase = p.phase
  batch_eq : p'.batch = p.batch
  assigned_eq : p'.assigned = p.assigned
  parities_eq : p'.parities = p.parities
  created_eq : ∀ b, (p'.backend b).created = (p.backend b).created

namespace Keeps

variable {p p' p'' : AsyncPort}

theorem refl (p : AsyncPort) : Keeps p p :=
  ⟨rfl, rfl, rfl, rfl, rfl, rfl, rfl, rfl, rfl, fun _ => rfl⟩

theorem trans (h : Keeps p p') (h' : Keeps p' p'') : Keeps p p'' :=
  ⟨h'.ch_eq.trans h.ch_eq, h'.backends_eq.trans h.backends_eq, h'.encoder_eq.trans h.encoder_eq,
    h'.txSeq_eq.trans h.txSeq_eq, h'.exhausted_eq.trans h.exhausted_eq,
    h'.phase_eq.trans h.phase_eq, h'.batch_eq.trans h.batch_eq,
    h'.assigned_eq.trans h.assigned_eq, h'.parities_eq.trans h.parities_eq,
    fun b => (h'.created_eq b).trans (h.created_eq b)⟩

theorem set_backend {b : Nat} {state : Backend} (hcreated : state.created = (p.backend b).created) :
    Keeps p (p.setBackend b state) := by
  refine ⟨rfl, rfl, rfl, rfl, rfl, rfl, rfl, rfl, rfl, fun x => ?_⟩
  show (update p.backend b state x).created = _
  rw [update_apply]
  split
  · rename_i heq
    rw [heq, hcreated]
  · rfl

end Keeps

/-- The streams grow by the given batches and the fences change to the given generations. -/
structure Sends (p p' : AsyncPort) (added : Nat → List (List VPNFrame)) (gen : Nat → Nat) :
    Prop where
  keeps : Keeps p p'
  stream_eq : ∀ b, p'.stream b = p.stream b ++ added b
  fenceGen_eq : ∀ b, (p'.backend b).fecFenceGen = gen b

/-- Nothing is handed to a backend. -/
def SendsNothing (p p' : AsyncPort) : Prop :=
  Sends p p' (fun _ => []) (fun b => (p.backend b).fecFenceGen)

/-- One backend is handed one batch. -/
def SendsOne (p p' : AsyncPort) (b : Nat) (batch : List VPNFrame) (gen : Nat) : Prop :=
  Sends p p' (fun x => if x = b then [batch] else [])
    (fun x => if x = b then gen else (p.backend x).fecFenceGen)

section Sends

variable {p p' p'' : AsyncPort}

theorem SendsNothing.refl (p : AsyncPort) : SendsNothing p p :=
  ⟨.refl p, fun _ => (append_nil _).symm, fun _ => rfl⟩

theorem SendsNothing.drop (p : AsyncPort) (n : Nat) : SendsNothing p (p.dropN n) :=
  ⟨⟨rfl, rfl, rfl, rfl, rfl, rfl, rfl, rfl, rfl, fun _ => rfl⟩,
    fun _ => (append_nil _).symm, fun _ => rfl⟩

theorem SendsNothing.then {added : Nat → List (List VPNFrame)} {gen : Nat → Nat}
    (h : SendsNothing p p') (h' : Sends p' p'' added gen) : Sends p p'' added gen := by
  refine ⟨h.keeps.trans h'.keeps, fun b => ?_, h'.fenceGen_eq⟩
  rw [h'.stream_eq, h.stream_eq, append_nil]

theorem SendsNothing.trans (h : SendsNothing p p') (h' : SendsNothing p' p'') :
    SendsNothing p p'' := by
  have hboth := h.then h'
  exact ⟨hboth.keeps, hboth.stream_eq, fun b => (hboth.fenceGen_eq b).trans (h.fenceGen_eq b)⟩

variable {b : Nat}

/-- Replacing a backend by one with a longer stream. -/
theorem sends_set_backend {state : Backend} {added : List (List VPNFrame)}
    (hcreated : state.created = (p.backend b).created)
    (hstream : state.taken ++ state.queue = p.stream b ++ added) :
    Sends p (p.setBackend b state) (fun x => if x = b then added else [])
      (fun x => if x = b then state.fecFenceGen else (p.backend x).fecFenceGen) := by
  refine ⟨.set_backend hcreated, fun x => ?_, fun x => ?_⟩
  · show (update p.backend b state x).taken ++
      (update p.backend b state x).queue = _
    rw [update_apply]
    by_cases heq : x = b
    · rw [if_pos heq, if_pos heq, heq, hstream]
    · rw [if_neg heq, if_neg heq, append_nil]
      rfl
  · show (update p.backend b state x).fecFenceGen = _
    rw [update_apply]
    by_cases heq : x = b
    · rw [if_pos heq, if_pos heq]
    · rw [if_neg heq, if_neg heq]

/-- Replacing a backend by one with the same stream. -/
theorem SendsNothing.set_backend {state : Backend}
    (hcreated : state.created = (p.backend b).created)
    (hstream : state.taken ++ state.queue = p.stream b ++ [])
    (hgen : state.fecFenceGen = (p.backend b).fecFenceGen) :
    SendsNothing p (p.setBackend b state) := by
  have hsends := sends_set_backend hcreated hstream
  refine ⟨hsends.keeps, fun x => ?_, fun x => ?_⟩
  · rw [hsends.stream_eq, ite_self]
  · rw [hsends.fenceGen_eq]
    by_cases heq : x = b
    · rw [if_pos heq, heq, hgen]
    · rw [if_neg heq]

theorem drain_sends_nothing (p : AsyncPort) (b : Nat) : SendsNothing p (p.drain b) := by
  unfold drain
  cases hqueue : (p.backend b).queue with
  | nil => exact .refl p
  | cons batch rest =>
    have hstream : ((p.backend b).taken ++ [batch]) ++ rest = p.stream b ++ [] := by
      rw [stream, hqueue, append_nil, append_assoc, singleton_append]
    exact .set_backend rfl hstream rfl

theorem complete_sends_nothing (p : AsyncPort) (b : Nat) : SendsNothing p (p.complete b) :=
  .set_backend rfl (append_nil _).symm rfl

theorem drain_all_sends_nothing (p : AsyncPort) (bs : List Nat) :
    SendsNothing p (p.drainAll bs) := by
  induction bs generalizing p with
  | nil => exact .refl p
  | cons b rest ih => exact (drain_sends_nothing p b).trans (ih (p.drain b))

theorem drain_all_dropped (p : AsyncPort) (bs : List Nat) :
    (p.drainAll bs).dropped = p.dropped := by
  induction bs generalizing p with
  | nil => rfl
  | cons b rest ih =>
    refine (ih (p.drain b)).trans ?_
    unfold drain
    split
    · rfl
    · rfl

variable {batch : List VPNFrame}

theorem try_send_sends_one (h : p.trySend b batch = some p') :
    SendsOne p p' b (p.fencedBatch b batch) (p.fencedGen b) := by
  have hstream : ∀ added, (p.backend b).taken ++ ((p.backend b).queue ++ [added])
      = p.stream b ++ [added] := fun added => (append_assoc _ _ _).symm
  unfold trySend at h
  dsimp only at h
  split at h
  · cases h
  · unfold fencedBatch fencedGen
    cases hfence : p.fence b with
    | none | some =>
      rw [hfence] at h
      cases h
      exact sends_set_backend rfl (hstream _)

theorem try_send_dropped (h : p.trySend b batch = some p') : p'.dropped = p.dropped := by
  unfold trySend at h
  dsimp only at h
  split at h
  · cases h
  · split at h
    · cases h
      rfl
    · cases h
      rfl

theorem try_all_sends_one {best : Nat} (h : p.tryAll best batch = some p') :
    p'.dropped = p.dropped ∧ ∃ b, (b = best ∨ b ∈ p.backends) ∧
      SendsOne p p' b (p.fencedBatch b batch) (p.fencedGen b) := by
  obtain ⟨b, hmem, hsend⟩ := exists_of_findSome?_eq_some h
  refine ⟨try_send_dropped hsend, b, ?_, try_send_sends_one hsend⟩
  rcases mem_cons.mp hmem with heq | hrest
  · exact .inl heq
  · exact .inr (mem_filter.mp hrest).1

/-- What is pending for a backend does not depend on what its writer has taken. -/
theorem SendsNothing.fence_eq (h : SendsNothing p p') (b : Nat) : p'.fence b = p.fence b := by
  unfold fence
  rw [h.keeps.encoder_eq, h.fenceGen_eq]

theorem SendsNothing.then_one (h : SendsNothing p p')
    (h' : SendsOne p' p'' b (p'.fencedBatch b batch) (p'.fencedGen b)) :
    SendsOne p p'' b (p.fencedBatch b batch) (p.fencedGen b) := by
  have hboth := h.then h'
  unfold fencedBatch fencedGen at hboth ⊢
  rw [h.fence_eq] at hboth
  refine ⟨hboth.keeps, hboth.stream_eq, fun x => ?_⟩
  rw [hboth.fenceGen_eq]
  by_cases heq : x = b
  · rw [if_pos heq, if_pos heq, h.fenceGen_eq]
  · rw [if_neg heq, if_neg heq, h.fenceGen_eq]

/-- A batch ends up on one registered backend, behind the control pending there, or it is dropped.
-/
theorem send_owned_batch_spec (p : AsyncPort) {best : Nat} (hbest : best ∈ p.backends)
    (batch : List VPNFrame) (rounds : List (List Nat)) :
    SendsNothing p (p.sendOwnedBatchToAnyFenced best batch rounds) ∧
        (p.sendOwnedBatchToAnyFenced best batch rounds).dropped = p.dropped + batch.length ∨
      (∃ b ∈ p.backends, SendsOne p (p.sendOwnedBatchToAnyFenced best batch rounds) b
        (p.fencedBatch b batch) (p.fencedGen b)) ∧
        (p.sendOwnedBatchToAnyFenced best batch rounds).dropped = p.dropped := by
  have hpass : ∀ {q q' : AsyncPort}, q.backends = p.backends → q.tryAll best batch = some q' →
      (∃ b ∈ p.backends, SendsOne q q' b (q.fencedBatch b batch) (q.fencedGen b)) ∧
        q'.dropped = q.dropped := by
    intro q q' hbackends hall
    obtain ⟨hdropped, b, hmem, hsent⟩ := try_all_sends_one hall
    rw [hbackends] at hmem
    exact ⟨⟨b, hmem.elim (fun heq => heq ▸ hbest) id, hsent⟩, hdropped⟩
  -- every pass starts from a state that has sent and dropped nothing yet
  suffices hrounds : ∀ q, SendsNothing p q → q.dropped = p.dropped →
      SendsNothing p (q.sendOwnedBatchToAnyFenced best batch rounds) ∧
          (q.sendOwnedBatchToAnyFenced best batch rounds).dropped = p.dropped + batch.length ∨
        (∃ b ∈ p.backends, SendsOne p (q.sendOwnedBatchToAnyFenced best batch rounds) b
          (p.fencedBatch b batch) (p.fencedGen b)) ∧
          (q.sendOwnedBatchToAnyFenced best batch rounds).dropped = p.dropped from
    hrounds p (.refl p) rfl
  induction rounds with
  | nil =>
    intro q hq hdropped
    unfold sendOwnedBatchToAnyFenced
    cases hall : q.tryAll best batch with
    | none =>
      refine .inl ⟨hq.trans (.drop q batch.length), ?_⟩
      show q.dropped + batch.length = _
      rw [hdropped]
    | some sent =>
      obtain ⟨⟨b, hmem, hsent⟩, hsame⟩ := hpass hq.keeps.backends_eq hall
      exact .inr ⟨⟨b, hmem, hq.then_one hsent⟩, hsame.trans hdropped⟩
  | cons drains rest ih =>
    intro q hq hdropped
    unfold sendOwnedBatchToAnyFenced
    cases hall : q.tryAll best batch with
    | none =>
      exact ih _ (hq.trans (drain_all_sends_nothing q drains))
        ((q.drain_all_dropped drains).trans hdropped)
    | some sent =>
      obtain ⟨⟨b, hmem, hsent⟩, hsame⟩ := hpass hq.keeps.backends_eq hall
      exact .inr ⟨⟨b, hmem, hq.then_one hsent⟩, hsame.trans hdropped⟩

/-- A record ends up on its backend or nowhere, without a control. -/
theorem send_owned_frame_spec (p : AsyncPort) (b : Nat) (vf : VPNFrame) :
    SendsNothing p (p.sendOwnedFrameTo b vf) ∨
      SendsOne p (p.sendOwnedFrameTo b vf) b [vf] (p.backend b).fecFenceGen := by
  unfold sendOwnedFrameTo
  dsimp only
  split
  · exact .inr (sends_set_backend rfl (append_assoc _ _ _).symm)
  · exact .inl (.drop p 1)

end Sends

/-- Some of the records are queued on the given backends, each as a batch of its own. -/
structure SendsRecords (p p' : AsyncPort) (records : List Bytes) (targets : List Nat) :
    Prop where
  keeps : Keeps p p'
  stream_eq : ∀ b, ∃ sent : List Bytes, sent ⊆ records ∧ (sent ≠ [] → b ∈ targets) ∧
    p'.stream b = p.stream b ++ sent.map (fun par => [⟨0, par⟩])
  fenceGen_eq : ∀ b, (p'.backend b).fecFenceGen = (p.backend b).fecFenceGen

namespace SendsRecords

variable {p p' p'' : AsyncPort} {records : List Bytes} {targets : List Nat}

theorem of_nothing (h : SendsNothing p p') : SendsRecords p p' records targets :=
  ⟨h.keeps, fun b => ⟨[], nil_subset _, fun hne => absurd rfl hne, h.stream_eq b⟩,
    h.fenceGen_eq⟩

theorem trans (h : SendsRecords p p' records targets) (h' : SendsRecords p' p'' records targets) :
    SendsRecords p p'' records targets := by
  refine ⟨h.keeps.trans h'.keeps, fun b => ?_, fun b => (h'.fenceGen_eq b).trans (h.fenceGen_eq b)⟩
  obtain ⟨sent, hsub, htarget, hstream⟩ := h.stream_eq b
  obtain ⟨sent', hsub', htarget', hstream'⟩ := h'.stream_eq b
  refine ⟨sent ++ sent', append_subset.mpr ⟨hsub, hsub'⟩, fun hne => ?_, ?_⟩
  · by_cases hnil : sent = []
    · exact htarget' (by rw [hnil] at hne; exact hne)
    · exact htarget hnil
  · rw [hstream', hstream, map_append, append_assoc]

theorem mono {records' : List Bytes} {targets' : List Nat}
    (h : SendsRecords p p' records targets) (hrecords : records ⊆ records')
    (htargets : targets ⊆ targets') : SendsRecords p p' records' targets' := by
  refine ⟨h.keeps, fun b => ?_, h.fenceGen_eq⟩
  obtain ⟨sent, hsub, htarget, hstream⟩ := h.stream_eq b
  exact ⟨sent, List.Subset.trans hsub hrecords, fun hne => htargets (htarget hne), hstream⟩

/-- One record, sent after some writers took batches. -/
theorem one (p : AsyncPort) (drains : List Nat) (target : Nat) (par : Bytes) :
    SendsRecords p ((p.drainAll drains).sendOwnedFrameTo target ⟨0, par⟩) [par] [target] := by
  have hdrained := drain_all_sends_nothing p drains
  rcases send_owned_frame_spec (p.drainAll drains) target ⟨0, par⟩ with hnothing | hone
  · exact of_nothing (hdrained.trans hnothing)
  · have hsent := hdrained.then hone
    refine ⟨hsent.keeps, fun b => ?_, fun b => ?_⟩
    · by_cases heq : b = target
      · refine ⟨[par], List.Subset.refl _, fun _ => mem_singleton.mpr heq, ?_⟩
        rw [hsent.stream_eq, if_pos heq]
        rfl
      · refine ⟨[], nil_subset _, fun hne => absurd rfl hne, ?_⟩
        rw [hsent.stream_eq, if_neg heq]
        rfl
    · rw [hsent.fenceGen_eq]
      by_cases heq : b = target
      · rw [if_pos heq, hdrained.fenceGen_eq, heq]
      · rw [if_neg heq, hdrained.fenceGen_eq]

end SendsRecords

/-- The records of a dispatch go to the backends the scheduler picked for them. -/
theorem send_parities_spec (p : AsyncPort) (records : List (Bytes × List Nat × Nat)) :
    SendsRecords p (p.sendParities records) (records.map Prod.fst)
      (records.map (fun entry => entry.2.2)) := by
  induction records generalizing p with
  | nil => exact .of_nothing (.refl p)
  | cons entry rest ih =>
    obtain ⟨par, drains, target⟩ := entry
    have hfirst : SendsRecords p
        (if p.backends.length < 2 then p
          else (p.drainAll drains).sendOwnedFrameTo target ⟨0, par⟩)
        (par :: rest.map Prod.fst) (target :: rest.map (fun entry => entry.2.2)) := by
      split
      · exact .of_nothing (.refl p)
      · exact (SendsRecords.one p drains target par).mono (by simp) (by simp)
    exact hfirst.trans ((ih _).mono (subset_cons_self _ _) (subset_cons_self _ _))

end AsyncPort

end TlsVpn.Port
