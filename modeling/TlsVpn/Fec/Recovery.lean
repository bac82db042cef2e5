import TlsVpn.Fec.Group
import TlsVpn.Lib.Run

/-!
# Recovery is exact

Data frames and parity records of a stream reach the decoder in any order, each data frame at most
once and each record any number of times. `Outcome` says what one arrival does: the decoder touches
one group, keeps its relation to the ideal receiver, and outputs what the ideal receiver yields.

`Tracks` is the relation for all groups at once, kept by every arrival (`Tracks.step`) and hence by
every run (`Tracks.run`). `recovery_exact` reads off what the decoder outputs over a whole run.
-/

namespace TlsVpn.Fec

open Lib Crypto Function List

/-! ## One arrival at the decoder -/

/-- What an arrival for a group does: the decoder touches that group only, outputs at most one
member, with its own payload, and the relation to the ideal receiver is kept. A member yielded by
the ideal receiver is output. -/
def Outcome (s : Stream) (group : Nat) (d : FecDecoder) (result : FecDecoder × Option (Nat × Bytes))
    (ideal : IdealGroup × Option Nat) (count : Nat → Nat) : Prop :=
  ∃ entry finished out,
    d.Effect result.1 (s.member group 0) entry finished ∧
    result.2 = out.map (fun i => (s.member group i, s.payload (s.member group i))) ∧
    GroupTracks s group entry (d.IsDone (s.member group 0) ∨ finished = true) ideal.1
      (fun i => count i + if out = some i then 1 else 0) ∧
    (∀ i, ideal.2 = some i → out = some i) ∧ (∀ i, out = some i → i < s.k ∧ s.Complete group)

section Arrival

variable {s : Stream} {rx : Option InnerCipher} {group i : Nat} {d d' : FecDecoder}
  {ideal : IdealGroup} {count : Nat → Nat} {g : FecGroupState} {entry : Option FecGroupState}
  {finished : Bool}

/-- An arrival without output. -/
theorem Outcome.silent (heffect : d.Effect d' (s.member group 0) entry finished)
    (h : GroupTracks s group entry (d.IsDone (s.member group 0) ∨ finished = true) ideal count) :
    Outcome s group d (d', none) (ideal, none) count :=
  ⟨entry, finished, none, heffect, rfl, h, nofun, nofun⟩

/-- The attempt to recover the group that an arrival was counted into. -/
theorem Outcome.try_recover (heffect : d.Effect d' (s.member group 0) (some g) false)
    (h : GroupTracks s group (some g) (d.IsDone (s.member group 0)) ideal count) :
    Outcome s group d (d'.tryRecover g) (ideal.settle s.k) count := by
  have hcollects := h.collects g rfl
  by_cases hwaiting : FecDecoder.Waiting g
  · rw [FecDecoder.try_recover_waiting hwaiting, h.settle_waiting hwaiting]
    exact Outcome.silent heffect (h.of_done (fun hd => hd.resolve_right Bool.false_ne_true))
  · obtain ⟨hparity, hfew⟩ := not_or.mp hwaiting
    obtain ⟨hcomplete, hk, hlens, hbody⟩ := hcollects.parity_spec hparity
    obtain ⟨j, hj, hnotGot⟩ := h.not_full
    have hmem : j ∈ g.missing := (hcollects.mem_missing hparity).mpr ⟨hj, hnotGot⟩
    have hsingle : g.missing = [j] := by
      match hlist : g.missing with
      | [] => rw [hlist] at hmem; cases hmem
      | [x] => rw [hlist, mem_singleton] at hmem; rw [hmem]
      | _ :: _ :: _ => rw [hlist] at hfew; simp at hfew
    have hlen : g.lens.getD j 0 ≤ (s.body group).length := by
      rw [hlens, Stream.lens_get hj]
      exact Stream.length_le_body hj
    obtain ⟨hrecover, hout⟩ := FecDecoder.try_recover_single (d := d') hbody hsingle
      (by rw [hlens, Stream.length_lens]; exact hj) hlen
    obtain ⟨htracks, hideal⟩ := h.settle_recovered hparity hsingle
    have hseq : add32 g.start j = s.member group j := by
      have hle := hcomplete.member_le hj
      have hlt := s.count_lt
      rw [hcollects.start_eq, add32]
      unfold Stream.member at hle ⊢
      omega
    rw [hcollects.start_eq] at hrecover
    refine ⟨none, true, some j, heffect.trans hrecover, ?_, ?_, ?_, ?_⟩
    · rw [hout, hseq, hcollects.reconstruct_eq hparity hsingle]
      rfl
    · refine (htracks.of_done fun _ => trivial).congr_count fun x _ => ?_
      simp only [Option.some.injEq]
    · intro x hx
      rw [hideal x hx]
    · rintro x ⟨⟩
      exact ⟨hj, hcomplete⟩

/-- A data frame of the stream arrives for the first time. -/
theorem Outcome.data (hunfenced : s.Unfenced rx d)
    (h : GroupTracks s group (d.lookupGroup (s.member group 0)) (d.IsDone (s.member group 0))
      ideal count)
    (hi : i < s.k) (hnew : i ∉ ideal.arrived) (hle : s.member group i ≤ s.count)
    (hroom : d.lookupGroup (s.member group 0) = none → ¬ d.IsDone (s.member group 0) →
      d.groups.keys.length < fecMaxPendingGroups) (progress : Option Nat) :
    Outcome s group d (d.onData progress (s.member group i) (s.payload (s.member group i)))
      (ideal.onMember s.k i) count := by
  rw [hunfenced.on_data hi hle]
  by_cases hdone : d.IsDone (s.member group 0)
  · -- a finished group ignores the member
    have hclosed := h.done_closed hdone
    have hafter := h.member_closed (i := i) hclosed
    rw [if_pos hdone, IdealGroup.onMember, IdealGroup.settle_closed (hafter.done_closed hdone)]
    exact Outcome.silent (.refl d _) (hafter.of_done (fun _ => hdone))
  · rw [if_neg hdone]
    obtain ⟨hopen, hstate⟩ := FecDecoder.effect_open_group (fun hnone => hroom hnone hdone)
    have htracks := h.opened
    rw [← hstate] at htracks
    generalize d.openGroup (s.member group 0) = opened at hopen htracks ⊢
    obtain ⟨d₁, g⟩ := opened
    have hcollects := htracks.collects g rfl
    have hnotGot : ¬ g.Got i := fun hgot => hnew (htracks.got_arrived g rfl i hgot)
    have hgotLt : ∀ j, (g.mark i).Got j → j < s.k := by
      intro j hj
      rcases (FecGroupState.got_mark g i j).mp hj with hold | rfl
      · exact hcollects.got_lt j hold
      · exact hi
    have hmask : d₁.fullMask = 2 ^ s.k - 1 := (hunfenced.of_same hopen.settings).fullMask_eq
    rw [FecDecoder.onMember, if_neg hnotGot, hmask, IdealGroup.onMember]
    by_cases hfull : (g.mark i).gotMask = 2 ^ s.k - 1
    · -- the last member finishes the group before its parity is needed
      rw [if_pos hfull]
      obtain ⟨hafter, hclosed⟩ := htracks.member_full hnew hi
        ((FecGroupState.mask_full_iff hgotLt).mp hfull)
      rw [IdealGroup.settle_closed hclosed]
      have hfinish := d₁.effect_finish_group (g.mark i)
      rw [show (g.mark i).start = s.member group 0 from hcollects.start_eq] at hfinish
      exact Outcome.silent (hopen.trans hfinish) (hafter.of_done (fun _ => trivial))
    · rw [if_neg hfull]
      have hafter := htracks.member_live hi hnew
        (fun hall => hfull ((FecGroupState.mask_full_iff hgotLt).mpr hall))
      have hset := d₁.effect_set_group
        { g.mark i with acc := xorExtend g.acc (s.payload (s.member group i)) }
      rw [show (g.mark i).start = s.member group 0 from hcollects.start_eq] at hset
      exact Outcome.try_recover (hopen.trans hset) hafter

/-- A copy of the group's record arrives. -/
theorem Outcome.parity (hunfenced : s.Unfenced rx d) (hpair : CipherPair s.ic rx)
    (h : GroupTracks s group (d.lookupGroup (s.member group 0)) (d.IsDone (s.member group 0))
      ideal count)
    (hcomplete : s.Complete group)
    (hroom : d.lookupGroup (s.member group 0) = none → ¬ d.IsDone (s.member group 0) →
      d.groups.keys.length < fecMaxPendingGroups) (before after : Option Nat) :
    Outcome s group d (d.onParity before after (s.record group)) (ideal.onParity s.k) count := by
  have hignored : ideal.Closed s.k ∨ ideal.parity = true →
      Outcome s group d (d, none) (ideal.onParity s.k) count := by
    intro hcase
    by_cases hclosed : ideal.Closed s.k
    · have hclosed' : IdealGroup.Closed s.k { ideal with parity := true } := hclosed
      rw [IdealGroup.onParity_eq_settle (.inl hclosed), IdealGroup.settle_closed hclosed']
      exact Outcome.silent (.refl d _)
        ((h.parity_closed hclosed).of_done (fun hd => hd.resolve_right Bool.false_ne_true))
    · rw [IdealGroup.onParity, if_pos (hcase.resolve_left hclosed)]
      exact Outcome.silent (.refl d _) (h.of_done (fun hd => hd.resolve_right Bool.false_ne_true))
  rw [hunfenced.on_parity hpair hcomplete]
  by_cases hdone : d.IsDone (s.member group 0)
  · rw [if_pos hdone]
    exact hignored (.inl (h.done_closed hdone))
  rw [if_neg hdone]
  by_cases hheld : ((d.lookupGroup (s.member group 0)).bind (·.parity)).isSome
  · -- the parity is held already
    rw [if_pos hheld]
    refine hignored ?_
    obtain ⟨body, hbody⟩ := Option.isSome_iff_exists.mp hheld
    obtain ⟨g, hg, hparity⟩ := Option.bind_eq_some_iff.mp hbody
    by_cases hclosed : ideal.Closed s.k
    · exact .inl hclosed
    · exact .inr ((h.exact g hg hclosed).2.mp (by rw [hparity]; exact Option.some_ne_none _))
  · rw [if_neg hheld]
    have hopenParity : ideal.Closed s.k ∨ ideal.parity = false := by
      by_cases hclosed : ideal.Closed s.k
      · exact .inl hclosed
      · refine .inr ?_
        cases hlookup : d.lookupGroup (s.member group 0) with
        | none => exact (h.unopened hlookup hclosed).2
        | some g =>
          rw [hlookup, Option.bind_some, Option.not_isSome_iff_eq_none] at hheld
          refine Bool.eq_false_iff.mpr fun htrue => ?_
          exact (h.exact g hlookup hclosed).2.mpr htrue hheld
    rw [IdealGroup.onParity_eq_settle hopenParity]
    obtain ⟨hopen, hstate⟩ := FecDecoder.effect_open_group (fun hnone => hroom hnone hdone)
    have htracks := h.opened
    rw [← hstate] at htracks
    generalize d.openGroup (s.member group 0) = opened at hopen htracks ⊢
    obtain ⟨d₁, g⟩ := opened
    have hset := d₁.effect_set_group (s.held group g)
    rw [show (s.held group g).start = s.member group 0 from (htracks.collects g rfl).start_eq]
      at hset
    have houtcome := Outcome.try_recover (hopen.trans hset) (htracks.parity_live hcomplete)
    obtain ⟨entry, finished, out, heffect, hrest⟩ := houtcome
    refine ⟨entry, finished, out, ?_, hrest⟩
    dsimp only
    rw [(hunfenced.of_same heffect.settings).maybe_retire]
    exact heffect

end Arrival

/-! ## Runs -/

/-- What reaches the decoder: a data frame of the stream, or a copy of one of the records the
encoder emitted, with the answers of the progress probe. -/
inductive Arrival where
  | data (seq : Nat) (progress : Option Nat)
  | parity (group : Nat) (before after : Option Nat)
  deriving DecidableEq, Repr

/-- The decoder and everything it has output. -/
structure Reception where
  decoder : FecDecoder
  outputs : List (Nat × Bytes)

namespace Stream

/-- The decoder's call for an arrival. -/
def receive (s : Stream) (d : FecDecoder) : Arrival → FecDecoder × Option (Nat × Bytes)
  | .data seq progress => d.onData progress seq (s.payload seq)
  | .parity group before after => d.onParity before after (s.parities.getD group [])

/-- Before the first arrival. -/
def reception (s : Stream) (rx : Option InnerCipher) : Reception := ⟨FecDecoder.new s.k rx, []⟩

/-- Outputs are collected. -/
def receiveStep (s : Stream) (r : Reception) (a : Arrival) : Option Reception :=
  some ⟨(s.receive r.decoder a).1, r.outputs ++ (s.receive r.decoder a).2.toList⟩

/-- The arrival is a data frame of the stream or a record of the encoder. -/
def Sent (s : Stream) : Arrival → Prop
  | .data seq _ => 0 < seq ∧ seq ≤ s.count
  | .parity group _ _ => group < s.parities.length

/-- The group an arrival belongs to. -/
def groupOf (s : Stream) : Arrival → Nat
  | .data seq _ => (seq - 1) / s.k
  | .parity group _ _ => group

/-- If the arrival opens a group, the pending limit is not exceeded. -/
def WithinLimit (s : Stream) (r : Reception) (a : Arrival) : Prop :=
  r.decoder.lookupGroup (s.member (s.groupOf a) 0) = none →
    ¬ r.decoder.IsDone (s.member (s.groupOf a) 0) →
    r.decoder.groups.keys.length < fecMaxPendingGroups

instance (s : Stream) : ∀ a, Decidable (s.Sent a)
  | .data _ _ => inferInstanceAs (Decidable (_ ∧ _))
  | .parity _ _ _ => inferInstanceAs (Decidable (_ < _))

instance (s : Stream) (r : Reception) (a : Arrival) : Decidable (s.WithinLimit r a) :=
  inferInstanceAs (Decidable (_ = _ → ¬ _ → _ < _))

/-- The number of a data frame. -/
def dataSeq : Arrival → Option Nat
  | .data seq _ => some seq
  | .parity _ _ _ => none

/-- The parity of the group and exactly its members other than `offset` have arrived. -/
def Recoverable (s : Stream) (arrivals : List Arrival) (group offset : Nat) : Prop :=
  (∃ before after, .parity group before after ∈ arrivals) ∧ offset < s.k ∧
    ∀ i < s.k, (∃ progress, .data (s.member group i) progress ∈ arrivals) ↔ i ≠ offset

/-- The ideal receiver of the arrival's group after the arrival, and what it yields. -/
def idealNext (s : Stream) (ideal : Nat → IdealGroup) (a : Arrival) : IdealGroup × Option Nat :=
  match a with
  | .data seq _ => (ideal (s.groupOf a)).onMember s.k ((seq - 1) % s.k)
  | .parity _ _ _ => (ideal (s.groupOf a)).onParity s.k

/-- The receivers after the arrival. -/
def idealStep (s : Stream) (ideal : Nat → IdealGroup) (a : Arrival) : Nat → IdealGroup :=
  update ideal (s.groupOf a) (s.idealNext ideal a).1

end Stream

/-- The decoder and its outputs after the arrivals `seen`, related to the ideal receivers. -/
structure Tracks (s : Stream) (rx : Option InnerCipher) (seen : List Arrival) (r : Reception)
    (ideal : Nat → IdealGroup) : Prop where
  unfenced : s.Unfenced rx r.decoder
  groups : ∀ group, GroupTracks s group (r.decoder.lookupGroup (s.member group 0))
    (r.decoder.IsDone (s.member group 0)) (ideal group)
    (fun i => (r.outputs.map Prod.fst).count (s.member group i))
  outputs_exact : ∀ out ∈ r.outputs, 0 < out.1 ∧ out.1 ≤ s.count ∧ out.2 = s.payload out.1
  arrived_iff : ∀ group i, i ∈ (ideal group).arrived ↔
    i < s.k ∧ ∃ progress, .data (s.member group i) progress ∈ seen
  parity_iff : ∀ group, (ideal group).parity = true ↔
    ∃ before after, .parity group before after ∈ seen

namespace Tracks

variable {s : Stream} {rx : Option InnerCipher} {seen : List Arrival} {r : Reception}
  {ideal : Nat → IdealGroup} {a : Arrival} {group : Nat}

theorem initial (s : Stream) (rx : Option InnerCipher) :
    Tracks s rx [] (s.reception rx) (fun _ => .empty) := by
  refine ⟨s.unfenced_new rx, ?_, nofun, ?_, ?_⟩
  · intro group
    have hopen : ¬ IdealGroup.empty.Closed s.k := by
      rintro (hall | hrecovered)
      · exact absurd (hall 0 s.k_pos) (by simp [IdealGroup.empty])
      · exact hrecovered rfl
    have hlookup : (s.reception rx).decoder.lookupGroup (s.member group 0) = none := rfl
    rw [hlookup]
    refine ⟨nofun, ?_, nofun, nofun, fun _ _ => ⟨rfl, rfl⟩, nofun, nofun, fun _ _ _ => rfl, nofun⟩
    intro hdone
    exact absurd hdone.symm (s.member_pos group 0).ne'
  · intro group i
    simp [IdealGroup.empty]
  · intro group
    simp [IdealGroup.empty]

/-- An arrival for one group leaves the others as they were. -/
theorem groups_step {result : FecDecoder × Option (Nat × Bytes)} {next : IdealGroup × Option Nat}
    (h : Tracks s rx seen r ideal)
    (houtcome : Outcome s group r.decoder result next
      (fun i => (r.outputs.map Prod.fst).count (s.member group i))) (other : Nat) :
    GroupTracks s other (result.1.lookupGroup (s.member other 0))
      (result.1.IsDone (s.member other 0)) (update ideal group next.1 other)
      (fun i => ((r.outputs ++ result.2.toList).map Prod.fst).count (s.member other i)) := by
  obtain ⟨entry, finished, out, heffect, hresult, htracks, -, hmember⟩ := houtcome
  by_cases heq : other = group
  · subst heq
    rw [update_self, heffect.lookup_eq]
    refine (htracks.of_done ?_).congr_count fun i hi => ?_
    · intro hdone
      exact (heffect.done _ hdone).imp_right And.left
    · rw [map_append, count_append, hresult]
      cases out with
      | none => simp
      | some x =>
        have hiff : s.member other x = s.member other i ↔ x = i :=
          ⟨fun hx => (Stream.member_inj (hmember x rfl).1 hi hx).2, fun hx => by rw [hx]⟩
        simp [count_singleton, hiff]
  · have hstart : s.member other 0 ≠ s.member group 0 := fun hsame =>
      heq (Stream.member_inj s.k_pos s.k_pos hsame).1
    rw [update_of_ne heq, heffect.lookup_ne _ hstart]
    refine ((h.groups other).of_done ?_).congr_count fun i hi => ?_
    · intro hdone
      exact (heffect.done _ hdone).resolve_right (fun hnow => hstart hnow.2)
    · rw [map_append, count_append, hresult]
      cases out with
      | none => simp
      | some x =>
        have hne : s.member group x ≠ s.member other i := fun hsame =>
          heq (Stream.member_inj (hmember x rfl).1 hi hsame).1.symm
        simp [hne]

/-- The decoder does for the group what the ideal receiver does. -/
theorem outcome (h : Tracks s rx seen r ideal) (hpair : CipherPair s.ic rx) (hsent : s.Sent a)
    (hfresh : ∀ seq, Stream.dataSeq a = some seq → ∀ progress, .data seq progress ∉ seen)
    (hroom : s.WithinLimit r a) :
    Outcome s (s.groupOf a) r.decoder (s.receive r.decoder a) (s.idealNext ideal a)
      (fun i => (r.outputs.map Prod.fst).count (s.member (s.groupOf a) i)) := by
  cases a with
  | data seq progress =>
    obtain ⟨hpos, hle⟩ := hsent
    have hseq := s.member_div_mod hpos
    have hmod : (seq - 1) % s.k < s.k := Nat.mod_lt _ s.k_pos
    have hnew : (seq - 1) % s.k ∉ (ideal ((seq - 1) / s.k)).arrived := by
      intro hmem
      obtain ⟨-, progress', hseen⟩ := (h.arrived_iff _ _).mp hmem
      rw [hseq] at hseen
      exact hfresh seq rfl progress' hseen
    have hdata := Outcome.data h.unfenced (h.groups ((seq - 1) / s.k)) hmod hnew
      (by rw [hseq]; exact hle) hroom progress
    rw [hseq] at hdata
    exact hdata
  | parity group before after =>
    have hparities := s.parities_eq
    have hgroup : group < s.count / s.k := by
      have hlen : group < s.parities.length := hsent
      rwa [hparities, length_map, length_range] at hlen
    have hrecord : s.parities.getD group [] = s.record group := by
      rw [getD_eq_getElem _ _ hsent]
      simp [hparities]
    have hparity := Outcome.parity h.unfenced hpair (h.groups group)
      ((s.complete_iff group).mpr hgroup) hroom before after
    rw [← hrecord] at hparity
    exact hparity

/-- Every first arrival of a data frame and every arrival of a record keeps the relation. -/
theorem step (h : Tracks s rx seen r ideal) (hpair : CipherPair s.ic rx) (hsent : s.Sent a)
    (hfresh : ∀ seq, Stream.dataSeq a = some seq → ∀ progress, .data seq progress ∉ seen)
    (hroom : s.WithinLimit r a) :
    Tracks s rx (seen ++ [a])
      ⟨(s.receive r.decoder a).1, r.outputs ++ (s.receive r.decoder a).2.toList⟩
      (s.idealStep ideal a) := by
  have houtcome := h.outcome hpair hsent hfresh hroom
  obtain ⟨entry, finished, out, heffect, hresult, -, -, hmember⟩ := id houtcome
  refine ⟨h.unfenced.of_same heffect.settings, h.groups_step houtcome, ?_, ?_, ?_⟩
  · intro o ho
    rcases mem_append.mp ho with hold | hnew
    · exact h.outputs_exact o hold
    · rw [hresult] at hnew
      cases out with
      | none => cases hnew
      | some i =>
        obtain ⟨hi, hcomplete⟩ := hmember i rfl
        rw [mem_singleton.mp hnew]
        exact ⟨s.member_pos _ i, hcomplete.member_le hi, rfl⟩
  · intro group i
    rw [Stream.idealStep, update_apply]
    cases a with
    | data seq progress =>
      have hseq := s.member_div_mod hsent.1
      have hmod : (seq - 1) % s.k < s.k := Nat.mod_lt _ s.k_pos
      split
      · rename_i heq
        subst heq
        simp only [Stream.idealNext, IdealGroup.onMember, IdealGroup.settle_arrived,
          mem_cons, h.arrived_iff, mem_append, not_mem_nil, or_false,
          Arrival.data.injEq, Stream.groupOf]
        constructor
        · rintro (rfl | ⟨hi, p, hp⟩)
          · exact ⟨hmod, progress, .inr ⟨hseq, rfl⟩⟩
          · exact ⟨hi, p, .inl hp⟩
        · rintro ⟨hi, p, hp | ⟨hnow, -⟩⟩
          · exact .inr ⟨hi, p, hp⟩
          · rw [← hseq] at hnow
            exact .inl (Stream.member_inj hi hmod hnow).2
      · rename_i hne
        rw [h.arrived_iff]
        refine and_congr_right fun hi => exists_congr fun p => ?_
        have hother : Arrival.data (s.member group i) p ≠ Arrival.data seq progress := by
          rintro hsame
          rw [Arrival.data.injEq, ← hseq] at hsame
          exact hne (Stream.member_inj hi hmod hsame.1).1
        simp [hother]
    | parity group' before after =>
      have hiff : (∃ p, Arrival.data (s.member group i) p ∈
          seen ++ [Arrival.parity group' before after]) ↔
            ∃ p, Arrival.data (s.member group i) p ∈ seen := by simp
      rw [hiff, ← h.arrived_iff]
      split
      · rename_i heq
        rw [heq, Stream.idealNext, IdealGroup.onParity_arrived]
      · rfl
  · intro group
    rw [Stream.idealStep, update_apply]
    cases a with
    | data seq progress =>
      have hiff : (∃ b c, Arrival.parity group b c ∈ seen ++ [Arrival.data seq progress]) ↔
          ∃ b c, Arrival.parity group b c ∈ seen := by simp
      rw [hiff, ← h.parity_iff]
      split
      · rename_i heq
        rw [heq, Stream.idealNext, IdealGroup.onMember, IdealGroup.settle_parity]
      · rfl
    | parity group' before after =>
      split
      · rename_i heq
        rw [Stream.idealNext, IdealGroup.onParity_parity]
        refine iff_of_true rfl ⟨before, after, ?_⟩
        rw [heq]
        exact mem_append_right _ (mem_singleton_self _)
      · rename_i hne
        rw [h.parity_iff]
        refine exists_congr fun b => exists_congr fun c => ?_
        have hother : Arrival.parity group b c ≠ Arrival.parity group' before after := by
          rintro hsame
          rw [Arrival.parity.injEq] at hsame
          exact hne hsame.1
        simp [hother]

/-- A member once recovered stays recovered. -/
theorem recovered_keeps {i : Nat} (hrecovered : (ideal group).recovered = some i) :
    (s.idealStep ideal a group).recovered = some i := by
  rw [Stream.idealStep, update_apply]
  split
  · rename_i heq
    subst heq
    cases a with
    | data seq progress => exact IdealGroup.settle_keeps hrecovered
    | parity group before after => exact IdealGroup.onParity_keeps hrecovered
  · exact hrecovered

theorem recoverable_iff (h : Tracks s rx seen r ideal) {offset : Nat} :
    s.Recoverable seen group offset ↔ (ideal group).Determined s.k offset := by
  rw [Stream.Recoverable, IdealGroup.Determined, h.parity_iff]
  refine and_congr_right fun _ => and_congr_right fun _ => forall_congr' fun i =>
    forall_congr' fun hi => ?_
  rw [h.arrived_iff, and_iff_right hi]

/-- The arrival that makes a group recoverable makes the ideal receiver yield the missing member. -/
theorem yields {next : Reception} {offset : Nat} (h : Tracks s rx seen r ideal)
    (hnext : Tracks s rx (seen ++ [a]) next (s.idealStep ideal a))
    (hnow : s.Recoverable (seen ++ [a]) group offset)
    (hbefore : ¬ s.Recoverable seen group offset) :
    s.groupOf a = group ∧ (s.idealNext ideal a).2 = some offset ∧
      (s.idealStep ideal a group).recovered = some offset := by
  rw [hnext.recoverable_iff] at hnow
  rw [h.recoverable_iff] at hbefore
  have hgroup : s.groupOf a = group := by
    by_contra hne
    rw [Stream.idealStep, update_of_ne (Ne.symm hne)] at hnow
    exact hbefore hnow
  subst hgroup
  rw [Stream.idealStep, update_self] at hnow ⊢
  have hspec := (h.groups (s.groupOf a)).recovered_spec
  refine ⟨rfl, ?_⟩
  cases a with
  | data seq progress => exact IdealGroup.onMember_yields hspec hbefore hnow
  | parity group before after => exact IdealGroup.onParity_yields hspec hbefore hnow

/-- A run keeps the relation and what has been recovered. -/
theorem run {arrivals : List Arrival} {final : Reception} (h : Tracks s rx seen r ideal)
    (hpair : CipherPair s.ic rx) (hsent : ∀ a ∈ arrivals, s.Sent a)
    (honce : ((seen ++ arrivals).filterMap Stream.dataSeq).Nodup)
    (hlimit : Along s.receiveStep s.WithinLimit r arrivals)
    (hrun : Lib.run s.receiveStep r arrivals = some final) :
    ∃ ideal', Tracks s rx (seen ++ arrivals) final ideal' ∧
      ∀ group i, (ideal group).recovered = some i → (ideal' group).recovered = some i := by
  induction arrivals generalizing seen r ideal with
  | nil =>
    cases hrun
    rw [append_nil]
    exact ⟨ideal, h, fun _ _ hi => hi⟩
  | cons a rest ih =>
    obtain ⟨next, hstep, hrest⟩ := run_cons_eq_some.mp hrun
    obtain ⟨hroom, halong⟩ := hlimit.cons hstep
    cases hstep
    have hfresh : ∀ seq, Stream.dataSeq a = some seq →
        ∀ progress, Arrival.data seq progress ∉ seen := by
      intro seq hseq progress hmem
      rw [filterMap_append, filterMap_cons_some hseq, nodup_append] at honce
      exact honce.2.2 seq (mem_filterMap.mpr ⟨_, hmem, rfl⟩) seq mem_cons_self rfl
    have htracks := h.step hpair (hsent a mem_cons_self) hfresh hroom
    obtain ⟨ideal', hfinal, hkept⟩ := ih htracks
      (fun b hb => hsent b (mem_cons_of_mem _ hb))
      (by rw [append_assoc]; exact honce) halong hrest
    rw [append_assoc] at hfinal
    exact ⟨ideal', hfinal, fun group i hi => hkept group i (recovered_keeps hi)⟩

end Tracks

/-- Whatever the order of arrival, the decoder outputs a frame only with the payload originally
numbered so; and the arrival after which the parity of a group and exactly all its members but one
are there makes the decoder output the missing member, which is output once over the whole run. -/
theorem recovery_exact (s : Stream) (rx : Option InnerCipher) (arrivals : List Arrival)
    (r : Reception) (hpair : CipherPair s.ic rx) (hsent : ∀ a ∈ arrivals, s.Sent a)
    (honce : (arrivals.filterMap Stream.dataSeq).Nodup)
    (hlimit : Along s.receiveStep s.WithinLimit (s.reception rx) arrivals)
    (hrun : run s.receiveStep (s.reception rx) arrivals = some r) :
    (∀ out ∈ r.outputs, 0 < out.1 ∧ out.1 ≤ s.count ∧ out.2 = s.payload out.1) ∧
      ∀ front a back group offset, arrivals = front ++ a :: back →
        s.Recoverable (front ++ [a]) group offset → ¬ s.Recoverable front group offset →
        (∃ before, run s.receiveStep (s.reception rx) front = some before ∧
          (s.receive before.decoder a).2
            = some (s.member group offset, s.payload (s.member group offset))) ∧
        (r.outputs.map Prod.fst).count (s.member group offset) = 1 := by
  have hinit := Tracks.initial s rx
  refine ⟨?_, ?_⟩
  · obtain ⟨ideal, hfinal, -⟩ := hinit.run hpair hsent honce hlimit hrun
    exact hfinal.outputs_exact
  · rintro front a back group offset rfl hnow hbefore
    obtain ⟨before, hfront, hrest⟩ := run_append_eq_some.mp hrun
    obtain ⟨next, hstep, hback⟩ := run_cons_eq_some.mp hrest
    obtain ⟨hlimitFront, hlimitRest⟩ := hlimit.append hfront
    obtain ⟨hroom, hlimitBack⟩ := hlimitRest.cons hstep
    cases hstep
    have honce' : (front.filterMap Stream.dataSeq).Nodup ∧
        ∀ seq, Stream.dataSeq a = some seq → ∀ progress, Arrival.data seq progress ∉ front := by
      rw [filterMap_append, nodup_append] at honce
      refine ⟨honce.1, fun seq hseq progress hmem => ?_⟩
      rw [filterMap_cons_some hseq] at honce
      exact honce.2.2 seq (mem_filterMap.mpr ⟨_, hmem, rfl⟩) seq mem_cons_self rfl
    have hsentA : s.Sent a := hsent a (mem_append_right _ mem_cons_self)
    -- the state before the arrival, the state after it, and the end of the run
    obtain ⟨ideal, htracks, -⟩ := hinit.run hpair
      (fun b hb => hsent b (mem_append_left _ hb)) honce'.1 hlimitFront hfront
    rw [nil_append] at htracks
    have hafter := htracks.step hpair hsentA honce'.2 hroom
    obtain ⟨hgroup, hyield, hrecovered⟩ := htracks.yields hafter hnow hbefore
    obtain ⟨entry, finished, out, -, hresult, -, hout, -⟩ :=
      htracks.outcome hpair hsentA honce'.2 hroom
    obtain ⟨ideal', hfinal, hkept⟩ := hafter.run hpair
      (fun b hb => hsent b (mem_append_right _ (mem_cons_of_mem _ hb)))
      (by rw [append_assoc]; exact honce) hlimitBack hback
    refine ⟨⟨before, hfront, ?_⟩, (hfinal.groups group).counted offset (hkept _ _ hrecovered)⟩
    rw [hresult, hout offset hyield, hgroup]
    rfl

/-- Four payloads of different lengths in groups of two. -/
def fourPayloads : Stream where
  k := 2
  k_low := le_rfl
  k_high := by decide
  ic := none
  count := 4
  count_lt := by decide
  payload := fun seq => List.replicate seq (UInt8.ofNat seq)
  payload_ne := fun seq hpos _ => by simpa using hpos.ne'
  payload_lt := fun seq _ hle => by
    rw [length_replicate]
    omega

/-- The second payload is lost and its group's record arrives twice. -/
def secondLost : List Arrival :=
  [.data 3 none, .data 1 none, .parity 0 none none, .parity 0 none none, .data 4 none]

/-- The lost frame is recovered once. -/
theorem second_lost_recovered :
    ∃ r, run fourPayloads.receiveStep (fourPayloads.reception none) secondLost = some r ∧
      r.outputs = [(2, [2, 2])] ∧ (r.outputs.map Prod.fst).count 2 = 1 := by
  have hnow : fourPayloads.Recoverable
      [.data 3 none, .data 1 none, .parity 0 none none] 0 1 := by
    refine ⟨⟨none, none, by simp⟩, by decide, ?_⟩
    intro i hi
    have hcases : i = 0 ∨ i = 1 := by
      have : i < 2 := hi
      omega
    rcases hcases with rfl | rfl
    · exact iff_of_true ⟨none, by simp [fourPayloads, Stream.member]⟩ (by decide)
    · exact iff_of_false (by simp [fourPayloads, Stream.member]) (by decide)
  have hbefore : ¬ fourPayloads.Recoverable [.data 3 none, .data 1 none] 0 1 := by
    rintro ⟨⟨before, after, hmem⟩, -⟩
    simp at hmem
  refine ⟨_, rfl, by decide, ?_⟩
  exact ((recovery_exact fourPayloads none secondLost _ .plain (by decide) (by decide) (by decide)
    rfl).2 [.data 3 none, .data 1 none] (.parity 0 none none) [.parity 0 none none, .data 4 none]
    0 1 rfl hnow hbefore).2

end TlsVpn.Fec
