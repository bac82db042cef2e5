import TlsVpn.Fec.Stream

/-!
# The receiver of one group

`IdealGroup` is the abstract receiver of one group of a stream: it knows which members and whether
the parity arrived, and yields the missing member at the moment it is determined
(`onMember_yields`, `onParity_yields`).

`Collects` describes a group state of the decoder by the members it has received, and
`reconstruct_eq` is the recovery of a single missing one. `GroupTracks` relates what the decoder
holds of a group to the ideal receiver, also after the ring of finished groups has forgotten the
group and late arrivals have opened it again; every arrival and the attempt to recover keep it.
-/

namespace TlsVpn.Fec

open Lib Crypto List

/-! ## The ideal receiver -/

/-- What has arrived of a group, and the member that was missing when the group became
recoverable. -/
structure IdealGroup where
  arrived : List Nat
  parity : Bool
  recovered : Option Nat
  deriving DecidableEq, Repr

namespace IdealGroup

variable {k : Nat} {g : IdealGroup}

/-- Nothing has arrived. -/
def empty : IdealGroup := ⟨[], false, none⟩

/-- The members that have not arrived. -/
def missing (k : Nat) (g : IdealGroup) : List Nat := (List.range k).filter (fun i => i ∉ g.arrived)

/-- Yield the missing member if it is determined and has not been yielded before. -/
def settle (k : Nat) (g : IdealGroup) : IdealGroup × Option Nat :=
  match g.missing k with
  | [i] =>
    if g.parity = true ∧ g.recovered = none then ({ g with recovered := some i }, some i)
    else (g, none)
  | _ => (g, none)

/-- A member arrives. -/
def onMember (k : Nat) (g : IdealGroup) (i : Nat) : IdealGroup × Option Nat :=
  settle k { g with arrived := i :: g.arrived }

/-- Further copies of the parity change nothing. -/
def onParity (k : Nat) (g : IdealGroup) : IdealGroup × Option Nat :=
  if g.parity = true then (g, none) else settle k { g with parity := true }

/-- Nothing is left to recover: all members arrived, or the missing one was yielded. -/
def Closed (k : Nat) (g : IdealGroup) : Prop := (∀ i < k, i ∈ g.arrived) ∨ g.recovered ≠ none

variable {i : Nat}

theorem mem_missing : i ∈ g.missing k ↔ i < k ∧ i ∉ g.arrived := by
  simp [missing]

theorem settle_closed (h : g.Closed k) : g.settle k = (g, none) := by
  unfold settle
  split
  · rename_i i hmissing
    have hi : i ∈ g.missing k := by
      rw [hmissing]
      exact mem_singleton_self i
    obtain ⟨hlt, hnot⟩ := mem_missing.mp hi
    rcases h with hall | hrecovered
    · exact absurd (hall i hlt) hnot
    · rw [if_neg (fun hopen => hrecovered hopen.2)]
  · rfl

theorem settle_waiting (h : g.parity = false ∨ 2 ≤ (g.missing k).length) :
    g.settle k = (g, none) := by
  unfold settle
  split
  · rename_i i hmissing
    rw [hmissing] at h
    have hparity : g.parity = false := h.resolve_right (by simp)
    rw [if_neg (by simp [hparity])]
  · rfl

theorem settle_single (hmissing : g.missing k = [i]) (hparity : g.parity = true)
    (hopen : g.recovered = none) : g.settle k = ({ g with recovered := some i }, some i) := by
  unfold settle
  rw [hmissing]
  exact if_pos ⟨hparity, hopen⟩

@[simp] theorem settle_arrived (k : Nat) (g : IdealGroup) :
    (g.settle k).1.arrived = g.arrived := by
  unfold settle
  split
  · split <;> rfl
  · rfl

@[simp] theorem settle_parity (k : Nat) (g : IdealGroup) : (g.settle k).1.parity = g.parity := by
  unfold settle
  split
  · split <;> rfl
  · rfl

theorem settle_keeps (h : g.recovered = some i) : (g.settle k).1.recovered = some i := by
  rw [settle_closed (.inr (by rw [h]; exact Option.some_ne_none i))]
  exact h

theorem onParity_keeps (h : g.recovered = some i) : (g.onParity k).1.recovered = some i := by
  unfold onParity
  split
  · exact h
  · exact settle_keeps h

@[simp] theorem onParity_arrived (k : Nat) (g : IdealGroup) :
    (g.onParity k).1.arrived = g.arrived := by
  unfold onParity
  split
  · rfl
  · exact settle_arrived k _

@[simp] theorem onParity_parity (k : Nat) (g : IdealGroup) :
    (g.onParity k).1.parity = true := by
  unfold onParity
  split
  · assumption
  · exact settle_parity k _

/-- If everything but one member arrived, that member is the list of missing ones. -/
theorem missing_eq_singleton (hi : i < k) (h : ∀ j < k, j ∈ g.arrived ↔ j ≠ i) :
    g.missing k = [i] := by
  have hfilter : g.missing k = (List.range k).filter (· == i) := by
    refine filter_congr fun j hj => ?_
    have hiff : j ∉ g.arrived ↔ j = i := by rw [h j (mem_range.mp hj), not_not]
    simp only [hiff]
    rfl
  rw [hfilter, filter_beq, count_eq_one_of_mem nodup_range (mem_range.mpr hi)]
  rfl

/-- The parity and exactly the members other than `i` have arrived. -/
def Determined (k : Nat) (g : IdealGroup) (i : Nat) : Prop :=
  g.parity = true ∧ i < k ∧ ∀ j < k, j ∈ g.arrived ↔ j ≠ i

/-- The recovered member was the only one missing. -/
def RecoveredSpec (k : Nat) (g : IdealGroup) : Prop :=
  ∀ i, g.recovered = some i → i < k ∧ g.parity = true ∧ ∀ j < k, j ≠ i → j ∈ g.arrived

/-- The member that makes another one determined makes it be yielded. -/
theorem onMember_yields {offset : Nat} (hspec : g.RecoveredSpec k)
    (hbefore : ¬ g.Determined k offset) (hnow : (g.onMember k i).1.Determined k offset) :
    (g.onMember k i).2 = some offset ∧ (g.onMember k i).1.recovered = some offset := by
  obtain ⟨hparity, hoffset, harrived⟩ := hnow
  simp only [onMember, settle_parity, settle_arrived] at hparity harrived
  have hnotArrived : offset ∉ g.arrived := fun hmem =>
    (harrived offset hoffset).mp (mem_cons_of_mem _ hmem) rfl
  have hopen : g.recovered = none := by
    by_contra hne
    obtain ⟨x, hx⟩ := Option.ne_none_iff_exists'.mp hne
    obtain ⟨-, -, hothers⟩ := hspec x hx
    have hsame : offset = x := by
      by_contra hdiff
      exact hnotArrived (hothers offset hoffset hdiff)
    subst hsame
    refine hbefore ⟨hparity, hoffset, fun j hj => ⟨?_, hothers j hj⟩⟩
    rintro hmem rfl
    exact hnotArrived hmem
  have hmissing : missing k { g with arrived := i :: g.arrived } = [offset] :=
    missing_eq_singleton hoffset harrived
  rw [onMember, settle_single hmissing hparity hopen]
  exact ⟨rfl, rfl⟩

/-- The parity that makes a member determined makes it be yielded. -/
theorem onParity_yields {offset : Nat} (hspec : g.RecoveredSpec k)
    (hbefore : ¬ g.Determined k offset) (hnow : (g.onParity k).1.Determined k offset) :
    (g.onParity k).2 = some offset ∧ (g.onParity k).1.recovered = some offset := by
  obtain ⟨-, hoffset, harrived⟩ := hnow
  rw [onParity_arrived] at harrived
  have hparity : ¬ g.parity = true := fun htrue => hbefore ⟨htrue, hoffset, harrived⟩
  have hopen : g.recovered = none := by
    by_contra hne
    obtain ⟨x, hx⟩ := Option.ne_none_iff_exists'.mp hne
    exact hparity (hspec x hx).2.1
  have hmissing : missing k { g with parity := true } = [offset] :=
    missing_eq_singleton hoffset harrived
  rw [onParity, if_neg hparity, settle_single hmissing rfl hopen]
  exact ⟨rfl, rfl⟩

theorem onParity_eq_settle (h : g.Closed k ∨ g.parity = false) :
    g.onParity k = settle k { g with parity := true } := by
  unfold onParity
  by_cases hparity : g.parity = true
  · have hclosed : g.Closed k := h.resolve_right (by rw [hparity]; decide)
    have hsame : { g with parity := true } = g := by rw [← hparity]
    rw [if_pos hparity, hsame, settle_closed hclosed]
  · rw [if_neg hparity]

end IdealGroup

/-! ## Groups held by the decoder -/

/-- The group state collects members of the stream's group: the accumulator is the exclusive or of
the members received, and a parity held is the stream's. -/
structure Collects (s : Stream) (group : Nat) (g : FecGroupState) : Prop where
  start_eq : g.start = s.member group 0
  got_lt : ∀ i, g.Got i → i < s.k
  acc_eq : ∀ b, byteAt g.acc b = xorOver ((Finset.range s.k).filter g.Got)
    (fun i => byteAt (s.payload (s.member group i)) b)
  parity_spec : g.parity ≠ none →
    s.Complete group ∧ g.k = s.k ∧ g.lens = s.lens group ∧ g.parity = some (s.body group)

namespace Collects

variable {s : Stream} {group i : Nat} {g : FecGroupState}

theorem new (s : Stream) (group : Nat) : Collects s group (.new (s.member group 0)) := by
  refine ⟨rfl, ?_, ?_, fun hparity => absurd rfl hparity⟩
  · intro i hgot
    exact absurd hgot (FecGroupState.not_got_new _ i)
  · intro b
    rw [Finset.filter_false_of_mem (fun i _ => FecGroupState.not_got_new _ i), xorOver_empty]
    rfl

/-- A member that has not been received yet is counted. -/
theorem count (h : Collects s group g) (hi : i < s.k) (hnew : ¬ g.Got i) :
    Collects s group
      { g.mark i with acc := xorExtend g.acc (s.payload (s.member group i)) } := by
  have hgot : ∀ j, FecGroupState.Got
      { g.mark i with acc := xorExtend g.acc (s.payload (s.member group i)) } j ↔
        g.Got j ∨ i = j := FecGroupState.got_mark g i
  refine ⟨h.start_eq, ?_, ?_, h.parity_spec⟩
  · intro j hj
    rcases (hgot j).mp hj with hold | rfl
    · exact h.got_lt j hold
    · exact hi
  · intro b
    have hset : (Finset.range s.k).filter (fun j => FecGroupState.Got
        { g.mark i with acc := xorExtend g.acc (s.payload (s.member group i)) } j)
          = insert i ((Finset.range s.k).filter g.Got) := by
      ext j
      simp only [Finset.mem_filter, Finset.mem_range, Finset.mem_insert, hgot]
      constructor
      · rintro ⟨hlt, hold | rfl⟩
        · exact .inr ⟨hlt, hold⟩
        · exact .inl rfl
      · rintro (rfl | ⟨hlt, hold⟩)
        · exact ⟨hi, .inr rfl⟩
        · exact ⟨hlt, .inl hold⟩
    have hnotMem : i ∉ (Finset.range s.k).filter g.Got := by
      simp [hnew]
    rw [hset, xorOver_insert hnotMem, ← h.acc_eq, UInt8.xor_comm]
    exact byteAt_xorExtend _ _ _

theorem held (h : Collects s group g) (hcomplete : s.Complete group) :
    Collects s group (s.held group g) :=
  ⟨h.start_eq, h.got_lt, h.acc_eq, fun _ => ⟨hcomplete, rfl, rfl, rfl⟩⟩

theorem mem_missing (h : Collects s group g) (hparity : g.parity ≠ none) :
    i ∈ g.missing ↔ i < s.k ∧ ¬ g.Got i := by
  simp [FecGroupState.missing, (h.parity_spec hparity).2.1]

/-- The exclusive or of the parity and all members but one is that member. -/
theorem reconstruct_eq (h : Collects s group g) (hparity : g.parity ≠ none)
    (hmissing : g.missing = [i]) :
    FecDecoder.reconstruct (s.body group) g.acc (g.lens.getD i 0)
      = s.payload (s.member group i) := by
  obtain ⟨hcomplete, -, hlens, -⟩ := h.parity_spec hparity
  have hi : i < s.k ∧ ¬ g.Got i := by
    rw [← h.mem_missing hparity, hmissing]
    exact mem_singleton_self i
  have hgot : (Finset.range s.k).filter g.Got = (Finset.range s.k).erase i := by
    ext j
    have hj := h.mem_missing (i := j) hparity
    rw [hmissing, mem_singleton] at hj
    simp only [Finset.mem_filter, Finset.mem_range, Finset.mem_erase, ne_eq]
    constructor
    · rintro ⟨hlt, hold⟩
      exact ⟨fun heq => (hj.mp heq).2 hold, hlt⟩
    · rintro ⟨hne, hlt⟩
      exact ⟨hlt, by by_contra hnot; exact hne (hj.mpr ⟨hlt, hnot⟩)⟩
  have hlen : (s.payload (s.member group i)).length ≤ (s.body group).length :=
    Stream.length_le_body hi.1
  rw [hlens, Stream.lens_get hi.1]
  refine bytes_ext (FecDecoder.length_reconstruct hlen) ?_
  intro b hb
  rw [FecDecoder.length_reconstruct hlen] at hb
  rw [FecDecoder.byteAt_reconstruct hlen hb, h.acc_eq, hgot]
  have hbody : byteAt (s.body group) b = xorOver (Finset.range s.k)
      (fun j => byteAt (s.payload (s.member group j)) b) := by
    rw [Stream.body, Stream.frames, map_map]
    exact byteAt_xorAll_range s.k (fun j => s.payload (s.member group j)) b
  rw [hbody]
  exact xor_erase (Finset.mem_range.mpr hi.1) _

end Collects

/-! ## One group -/

/-- The relation between a group in the decoder and its ideal receiver. While the group is open the
decoder holds exactly what arrived. A closed group may be opened again once the ring has forgotten
it, but then it only sees the member that was recovered before it arrived. -/
structure GroupTracks (s : Stream) (group : Nat) (entry : Option FecGroupState) (done : Prop)
    (ideal : IdealGroup) (count : Nat → Nat) : Prop where
  recovered_spec : ideal.RecoveredSpec s.k
  done_closed : done → ideal.Closed s.k
  collects : ∀ g, entry = some g → Collects s group g
  got_arrived : ∀ g, entry = some g → ∀ i, g.Got i → i ∈ ideal.arrived
  unopened : entry = none → ¬ ideal.Closed s.k → ideal.arrived = [] ∧ ideal.parity = false
  exact : ∀ g, entry = some g → ¬ ideal.Closed s.k →
    (∀ i ∈ ideal.arrived, g.Got i) ∧ (g.parity ≠ none ↔ ideal.parity = true)
  late : ∀ g, entry = some g → ideal.Closed s.k → ∀ i, g.Got i → ideal.recovered = some i
  uncounted : ¬ ideal.Closed s.k → ∀ i < s.k, count i = 0
  counted : ∀ i, ideal.recovered = some i → count i = 1

namespace GroupTracks

variable {s : Stream} {group i : Nat} {entry : Option FecGroupState} {done done' : Prop}
  {ideal : IdealGroup} {count : Nat → Nat} {g : FecGroupState}

theorem of_done (h : GroupTracks s group entry done ideal count) (hdone : done' → done) :
    GroupTracks s group entry done' ideal count :=
  { h with done_closed := fun hd => h.done_closed (hdone hd) }

theorem congr_count {count' : Nat → Nat} (h : GroupTracks s group entry done ideal count)
    (hcount : ∀ i < s.k, count' i = count i) : GroupTracks s group entry done ideal count' := by
  refine { h with uncounted := ?_, counted := ?_ }
  · intro hopen i hi
    rw [hcount i hi, h.uncounted hopen i hi]
  · intro i hrecovered
    rw [hcount i (h.recovered_spec i hrecovered).1, h.counted i hrecovered]

/-- A closed group that misses a member has recovered it. -/
theorem recovered_eq (h : GroupTracks s group entry done ideal count) (hclosed : ideal.Closed s.k)
    (hi : i < s.k) (hnew : i ∉ ideal.arrived) : ideal.recovered = some i := by
  rcases hclosed with hall | hrecovered
  · exact absurd (hall i hi) hnew
  · obtain ⟨j, hj⟩ := Option.ne_none_iff_exists'.mp hrecovered
    by_cases heq : i = j
    · rw [heq]
      exact hj
    · exact absurd ((h.recovered_spec j hj).2.2 i hi heq) hnew

/-- A live group misses a member. -/
theorem not_full (h : GroupTracks s group (some g) done ideal count) : ∃ i < s.k, ¬ g.Got i := by
  have hlow := s.k_low
  by_cases hclosed : ideal.Closed s.k
  · by_cases hzero : g.Got 0
    · refine ⟨1, by omega, fun hone => ?_⟩
      have hboth := (h.late g rfl hclosed 0 hzero).symm.trans (h.late g rfl hclosed 1 hone)
      exact absurd hboth (by decide)
    · exact ⟨0, by omega, hzero⟩
  · obtain ⟨hnotAll, -⟩ := not_or.mp hclosed
    simp only [not_forall] at hnotAll
    obtain ⟨i, hi, hnot⟩ := hnotAll
    exact ⟨i, hi, fun hgot => hnot (h.got_arrived g rfl i hgot)⟩

theorem opened (h : GroupTracks s group entry done ideal count) :
    GroupTracks s group (some (entry.getD (.new (s.member group 0)))) done ideal count := by
  cases entry with
  | some g => exact h
  | none =>
    have hgot : ∀ i, ¬ (FecGroupState.new (s.member group 0)).Got i :=
      FecGroupState.not_got_new _
    refine { h with collects := ?_, got_arrived := ?_, unopened := ?_, exact := ?_, late := ?_ }
    · rintro g ⟨⟩
      exact Collects.new s group
    · rintro g ⟨⟩ i hi
      exact absurd hi (hgot i)
    · intro hnone
      cases hnone
    · rintro g ⟨⟩ hopen
      obtain ⟨harrived, hparity⟩ := h.unopened rfl hopen
      refine ⟨by simp [harrived], ?_⟩
      rw [hparity]
      exact ⟨fun hne => absurd rfl hne, fun hfalse => absurd hfalse Bool.false_ne_true⟩
    · rintro g ⟨⟩ - i hi
      exact absurd hi (hgot i)

/-! ### Arrivals at a closed group -/

theorem member_closed (h : GroupTracks s group entry done ideal count)
    (hclosed : ideal.Closed s.k) :
    GroupTracks s group entry done { ideal with arrived := i :: ideal.arrived } count := by
  have hclosed' : IdealGroup.Closed s.k { ideal with arrived := i :: ideal.arrived } := by
    rcases hclosed with hall | hrecovered
    · exact .inl fun j hj => mem_cons_of_mem _ (hall j hj)
    · exact .inr hrecovered
  refine ⟨?_, fun _ => hclosed', h.collects, ?_, fun _ hopen => absurd hclosed' hopen,
    fun _ _ hopen => absurd hclosed' hopen, fun g hg _ => h.late g hg hclosed,
    fun hopen => absurd hclosed' hopen, h.counted⟩
  · intro j hj
    obtain ⟨hlt, hparity, hothers⟩ := h.recovered_spec j hj
    exact ⟨hlt, hparity, fun x hx hne => mem_cons_of_mem _ (hothers x hx hne)⟩
  · intro g hg j hj
    exact mem_cons_of_mem _ (h.got_arrived g hg j hj)

theorem parity_closed (h : GroupTracks s group entry done ideal count)
    (hclosed : ideal.Closed s.k) :
    GroupTracks s group entry done { ideal with parity := true } count := by
  refine ⟨?_, h.done_closed, h.collects, h.got_arrived, fun _ hopen => absurd hclosed hopen,
    fun _ _ hopen => absurd hclosed hopen, h.late, h.uncounted, h.counted⟩
  intro j hj
  exact ⟨(h.recovered_spec j hj).1, rfl, (h.recovered_spec j hj).2.2⟩

/-! ### Arrivals counted into a live group -/

/-- A new member that does not complete the group. -/
theorem member_live (h : GroupTracks s group (some g) done ideal count) (hi : i < s.k)
    (hnew : i ∉ ideal.arrived) (hnotFull : ¬ ∀ j < s.k, (g.mark i).Got j) :
    GroupTracks s group
      (some { g.mark i with acc := xorExtend g.acc (s.payload (s.member group i)) }) done
      { ideal with arrived := i :: ideal.arrived } count := by
  have hgot : ∀ j, (g.mark i).Got j ↔ g.Got j ∨ i = j := FecGroupState.got_mark g i
  by_cases hclosed : ideal.Closed s.k
  · have hrecovered := h.recovered_eq hclosed hi hnew
    have hbase := h.member_closed (i := i) hclosed
    refine { hbase with collects := ?_, got_arrived := ?_, unopened := ?_, exact := ?_, late := ?_ }
    · rintro g' ⟨⟩
      exact (h.collects g rfl).count hi (fun hold => hnew (h.got_arrived g rfl i hold))
    · rintro g' ⟨⟩ j hj
      rcases (hgot j).mp hj with hold | rfl
      · exact mem_cons_of_mem _ (h.got_arrived g rfl j hold)
      · exact mem_cons_self
    · intro hnone
      cases hnone
    · rintro g' ⟨⟩ hopen
      exact absurd (.inr (hrecovered ▸ Option.some_ne_none i)) hopen
    · rintro g' ⟨⟩ - j hj
      rcases (hgot j).mp hj with hold | rfl
      · exact h.late g rfl hclosed j hold
      · exact hrecovered
  · have hopen : ¬ IdealGroup.Closed s.k { ideal with arrived := i :: ideal.arrived } := by
      rintro (hall | hrecovered)
      · refine hnotFull fun j hj => (hgot j).mpr ?_
        rcases mem_cons.mp (hall j hj) with heq | hold
        · exact .inr heq.symm
        · exact .inl ((h.exact g rfl hclosed).1 j hold)
      · exact hclosed (.inr hrecovered)
    have hnone : ideal.recovered = none := not_not.mp (not_or.mp hclosed).2
    refine ⟨?_, fun hdone => absurd (h.done_closed hdone) hclosed, ?_, ?_, ?_, ?_,
      fun _ _ hclosed' => absurd hclosed' hopen, fun _ => h.uncounted hclosed, h.counted⟩
    · intro j hj
      rw [show IdealGroup.recovered _ = none from hnone] at hj
      cases hj
    · rintro g' ⟨⟩
      exact (h.collects g rfl).count hi (fun hold => hnew (h.got_arrived g rfl i hold))
    · rintro g' ⟨⟩ j hj
      rcases (hgot j).mp hj with hold | rfl
      · exact mem_cons_of_mem _ (h.got_arrived g rfl j hold)
      · exact mem_cons_self
    · intro hentry
      cases hentry
    · rintro g' ⟨⟩ -
      refine ⟨?_, (h.exact g rfl hclosed).2⟩
      intro j hj
      rcases mem_cons.mp hj with heq | hold
      · exact (hgot j).mpr (.inr heq.symm)
      · exact (hgot j).mpr (.inl ((h.exact g rfl hclosed).1 j hold))

/-- A member that completes a group closes it. -/
theorem member_full (h : GroupTracks s group (some g) done ideal count)
    (hnew : i ∉ ideal.arrived) (hi : i < s.k) (hfull : ∀ j < s.k, (g.mark i).Got j) :
    GroupTracks s group none True { ideal with arrived := i :: ideal.arrived } count ∧
      IdealGroup.Closed s.k { ideal with arrived := i :: ideal.arrived } := by
  have hothers : ∀ j < s.k, j ≠ i → g.Got j := by
    intro j hj hne
    exact ((FecGroupState.got_mark g i j).mp (hfull j hj)).resolve_right (Ne.symm hne)
  have hopen : ¬ ideal.Closed s.k := by
    intro hclosed
    have hrecovered := h.recovered_eq hclosed hi hnew
    -- of two members one is not the recovered one, but a reopened group only sees that one
    obtain ⟨j, hj, hne⟩ := s.exists_other_member i
    have hlate := h.late g rfl hclosed j (hothers j hj hne)
    rw [hrecovered] at hlate
    exact hne (Option.some.inj hlate).symm
  have hclosed : IdealGroup.Closed s.k { ideal with arrived := i :: ideal.arrived } := by
    refine .inl fun j hj => ?_
    by_cases heq : j = i
    · rw [heq]
      exact mem_cons_self
    · exact mem_cons_of_mem _ (h.got_arrived g rfl j (hothers j hj heq))
  have hnone : ideal.recovered = none := not_not.mp (not_or.mp hopen).2
  refine ⟨⟨?_, fun _ => hclosed, nofun, nofun, fun _ hc => absurd hclosed hc, nofun, nofun,
    fun hc => absurd hclosed hc, h.counted⟩, hclosed⟩
  intro j hj
  rw [show IdealGroup.recovered _ = none from hnone] at hj
  cases hj

/-- The parity of the group, held by a live group. -/
theorem parity_live (h : GroupTracks s group (some g) done ideal count)
    (hcomplete : s.Complete group) :
    GroupTracks s group (some (s.held group g)) done { ideal with parity := true } count := by
  refine ⟨?_, h.done_closed, ?_, ?_, ?_, ?_, ?_, h.uncounted, h.counted⟩
  · intro j hj
    exact ⟨(h.recovered_spec j hj).1, rfl, (h.recovered_spec j hj).2.2⟩
  · rintro g' ⟨⟩
    exact (h.collects g rfl).held hcomplete
  · rintro g' ⟨⟩
    exact h.got_arrived g rfl
  · intro hnone
    cases hnone
  · rintro g' ⟨⟩ hopen
    exact ⟨(h.exact g rfl hopen).1, fun _ => rfl, fun _ => Option.some_ne_none _⟩
  · rintro g' ⟨⟩
    exact h.late g rfl

/-! ### The attempt to recover -/

/-- The open group misses the members that the ideal receiver misses. -/
theorem missing_eq (h : GroupTracks s group (some g) done ideal count)
    (hopen : ¬ ideal.Closed s.k) (hparity : g.parity ≠ none) :
    g.missing = ideal.missing s.k := by
  rw [FecGroupState.missing, IdealGroup.missing, ((h.collects g rfl).parity_spec hparity).2.1]
  refine filter_congr fun i _ => ?_
  have hiff : g.Got i ↔ i ∈ ideal.arrived :=
    ⟨h.got_arrived g rfl i, (h.exact g rfl hopen).1 i⟩
  simp only [hiff]

/-- A waiting group waits in the ideal receiver as well. -/
theorem settle_waiting (h : GroupTracks s group (some g) done ideal count)
    (hwaiting : FecDecoder.Waiting g) : ideal.settle s.k = (ideal, none) := by
  by_cases hclosed : ideal.Closed s.k
  · exact IdealGroup.settle_closed hclosed
  · refine IdealGroup.settle_waiting ?_
    by_cases hparity : g.parity = none
    · refine .inl (Bool.eq_false_iff.mpr fun htrue => ?_)
      exact ((h.exact g rfl hclosed).2.mpr htrue) hparity
    · rw [← h.missing_eq hclosed hparity]
      exact .inr (hwaiting.resolve_left hparity)

/-- A group that yields a member is closed by it. If the group was closed before, the member is not
the one recovered then. -/
theorem settle_recovered (h : GroupTracks s group (some g) done ideal count)
    (hparity : g.parity ≠ none) (hmissing : g.missing = [i]) :
    GroupTracks s group none True (ideal.settle s.k).1 (fun j => count j + if i = j then 1 else 0) ∧
      ∀ j, (ideal.settle s.k).2 = some j → i = j := by
  have hmem : ∀ j, j ∈ g.missing ↔ j < s.k ∧ ¬ g.Got j := fun j =>
    (h.collects g rfl).mem_missing hparity
  rw [hmissing] at hmem
  have hi : i < s.k ∧ ¬ g.Got i := (hmem i).mp (mem_singleton_self i)
  by_cases hclosed : ideal.Closed s.k
  · rw [IdealGroup.settle_closed hclosed]
    refine ⟨⟨h.recovered_spec, fun _ => hclosed, nofun, nofun, fun _ hc => absurd hclosed hc,
      nofun, nofun, fun hc => absurd hclosed hc, ?_⟩, nofun⟩
    intro j hj
    have hne : i ≠ j := by
      rintro rfl
      obtain ⟨x, hx, hxi⟩ := s.exists_other_member i
      have hgot : g.Got x := by
        by_contra hnot
        exact hxi (mem_singleton.mp ((hmem x).mpr ⟨hx, hnot⟩))
      have hlate := h.late g rfl hclosed x hgot
      rw [hj] at hlate
      exact hxi (Option.some.inj hlate).symm
    simp only [h.counted j hj, if_neg hne]
  · have hideal := h.missing_eq hclosed hparity
    rw [hmissing] at hideal
    have hnone : ideal.recovered = none := not_not.mp (not_or.mp hclosed).2
    have hsettle := IdealGroup.settle_single hideal.symm
      ((h.exact g rfl hclosed).2.mp hparity) hnone
    have hclosed' : IdealGroup.Closed s.k { ideal with recovered := some i } :=
      .inr (Option.some_ne_none i)
    rw [hsettle]
    refine ⟨⟨?_, fun _ => hclosed', nofun, nofun, fun _ hc => absurd hclosed' hc, nofun, nofun,
      fun hc => absurd hclosed' hc, ?_⟩, fun j hj => Option.some.inj hj⟩
    · rintro j ⟨⟩
      refine ⟨hi.1, (h.exact g rfl hclosed).2.mp hparity, fun x hx hne => ?_⟩
      refine h.got_arrived g rfl x ?_
      by_contra hnot
      exact hne (mem_singleton.mp ((hmem x).mpr ⟨hx, hnot⟩))
    · rintro j ⟨⟩
      simp only [h.uncounted hclosed i hi.1, if_pos]

end GroupTracks

end TlsVpn.Fec
