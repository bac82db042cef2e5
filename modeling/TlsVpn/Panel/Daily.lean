import TlsVpn.Lib.Sums
import TlsVpn.Panel.History

/-!
# The daily totals

Translation of `TrafficAccounting.Add` and `Snapshot`, over the model of a flush. What has been
added and not flushed yet belongs to no bucket; a snapshot adds it to the bucket of its day, or
shows it as a day of its own if there is no such bucket. `daily_totals_conserved` says that the days
of every snapshot add up to the restored history and all that has been added since, as long as
nothing is trimmed and no counter overflows. The proof treats the two directions as one.
-/

namespace TlsVpn.Panel

open Lib List

/-- A day of a snapshot. -/
structure TrafficDayJSON (Date : Type) where
  date : Date
  up : Nat
  down : Nat
  deriving DecidableEq, Repr

/-- What the panel is sent. -/
structure TrafficSnapshotJSON (Date : Type) where
  days : Nat
  today : Date
  up : Nat
  down : Nat
  daily : List (TrafficDayJSON Date)
  deriving DecidableEq, Repr

/-- The accounting together with the counters that the data plane adds to. -/
structure LiveTraffic (Date ClientID : Type) where
  up : Nat
  down : Nat
  accounting : TrafficAccounting Date ClientID

/-- What happens to the counters. -/
inductive LiveAction (Date ClientID : Type) where
  | add (up down : Nat)
  | flush (today : Date) (sample : ClientSample ClientID)
  | snapshot (today : Date)

/-- The difference of two 64-bit counters. -/
def gain (count last : Nat) : Nat :=
  (uint64Size + count - last) % uint64Size

namespace LiveTraffic

variable {Date ClientID : Type} [LinearOrder Date]

/-- The state of a process that has restored its histories and counted nothing yet. -/
def restored (days : Nat) (today : Option Date) (buckets : AList fun _ : Date => TrafficDay)
    (clientBuckets : AList fun _ : Date => AList fun _ : ClientID => TrafficDay) :
    LiveTraffic Date ClientID where
  up := 0
  down := 0
  accounting :=
    { (TrafficAccounting.new : TrafficAccounting Date ClientID) with
      days, today, buckets, clientBuckets }

/-- Counters have 64 bits. -/
def add (t : LiveTraffic Date ClientID) (up down : Nat) : LiveTraffic Date ClientID :=
  { t with
    up := (t.up + up) % uint64Size
    down := (t.down + down) % uint64Size }

/-- The gain goes to the bucket of the day. -/
def flush [DecidableEq ClientID] (t : LiveTraffic Date ClientID) (today : Date)
    (sample : ClientSample ClientID) : LiveTraffic Date ClientID :=
  { t with accounting := t.accounting.flush t.up t.down today sample }

/-- The upload that has not been flushed. -/
def gainUp (t : LiveTraffic Date ClientID) : Nat := gain t.up t.accounting.lastUp

/-- The download that has not been flushed. -/
def gainDown (t : LiveTraffic Date ClientID) : Nat := gain t.down t.accounting.lastDown

/-- The bucket of a day. -/
def bucket (t : LiveTraffic Date ClientID) (day : Date) : TrafficDay :=
  (t.accounting.buckets.lookup day).getD .zero

/-- A day of a snapshot. Only the current one includes what has not been flushed. -/
def snapshotDay (t : LiveTraffic Date ClientID) (today day : Date) : TrafficDayJSON Date :=
  let b := t.bucket day
  let b := if day = today then b.add t.gainUp t.gainDown else b
  ⟨day, b.up, b.down⟩

/-- One round of the loop over the sorted days. -/
def appendDay (t : LiveTraffic Date ClientID) (out : TrafficSnapshotJSON Date) (day : Date) :
    TrafficSnapshotJSON Date :=
  let d := t.snapshotDay out.today day
  let out := { out with daily := out.daily ++ [d] }
  if day = out.today then { out with up := d.up, down := d.down } else out

/-- The days of the buckets in order. -/
def sortedDays (t : LiveTraffic Date ClientID) : List Date :=
  t.accounting.buckets.keys.insertionSort (· ≤ ·)

/-- A day without a bucket is appended if something was counted. -/
def snapshot (t : LiveTraffic Date ClientID) (today : Date) : TrafficSnapshotJSON Date :=
  let out := t.sortedDays.foldl t.appendDay ⟨t.accounting.days, today, 0, 0, []⟩
  if out.up = 0 ∧ out.down = 0 ∧ (0 < t.gainUp ∨ 0 < t.gainDown) then
    -- nothing of the day has been flushed yet
    { out with
      up := t.gainUp
      down := t.gainDown
      daily := out.daily ++ [⟨today, t.gainUp, t.gainDown⟩] }
  else out

/-- A snapshot changes nothing. -/
def step [DecidableEq ClientID] (t : LiveTraffic Date ClientID) :
    LiveAction Date ClientID → Option (LiveTraffic Date ClientID)
  | .add up down => some (t.add up down)
  | .flush today sample => some (t.flush today sample)
  | .snapshot _ => some t

/-- Adding what has not been flushed to the bucket of the day does not overflow. -/
def Fits (t : LiveTraffic Date ClientID) (today : Date) : Prop :=
  (t.bucket today).up + t.gainUp < uint64Size ∧
    (t.bucket today).down + t.gainDown < uint64Size

/-- The step neither overflows nor trims. -/
def Allowed [DecidableEq ClientID] (t : LiveTraffic Date ClientID) :
    LiveAction Date ClientID → Prop
  | .add up down =>
    t.up + up < uint64Size ∧ t.down + down < uint64Size
  | .flush today sample =>
    let sampled := t.accounting.sampled t.up t.down today sample
    t.Fits today ∧ (sampled.days = 0 ∨ sampled.buckets.keys.length ≤ sampled.days)
  | .snapshot _ => True

instance (t : LiveTraffic Date ClientID) (today : Date) : Decidable (t.Fits today) :=
  inferInstanceAs (Decidable (_ ∧ _))

instance [DecidableEq ClientID] (t : LiveTraffic Date ClientID) :
    ∀ action, Decidable (t.Allowed action)
  | .add _ _ | .flush _ _ => inferInstanceAs (Decidable (_ ∧ _))
  | .snapshot _ => inferInstanceAs (Decidable True)

/-- All that the actions add. -/
def added (actions : List (LiveAction Date ClientID)) : TrafficDay where
  up := (actions.map fun action => match action with | .add up _ => up | _ => 0).sum
  down := (actions.map fun action => match action with | .add _ down => down | _ => 0).sum

/-- The days of the flushes. -/
def flushDays (actions : List (LiveAction Date ClientID)) : List Date :=
  actions.filterMap fun action => match action with
    | .flush today _ => some today
    | _ => none

/-- The days of a snapshot are in order, add up to the given totals, and the headline is the entry
of the current day. -/
structure Consistent (snap : TrafficSnapshotJSON Date) (sum : TrafficDay) : Prop where
  increasing : (snap.daily.map (·.date)).Pairwise (· < ·)
  up_total : (snap.daily.map (·.up)).sum = sum.up
  down_total : (snap.daily.map (·.down)).sum = sum.down
  headline : ∀ d ∈ snap.daily, d.date = snap.today → snap.up = d.up ∧ snap.down = d.down
  no_headline : (∀ d ∈ snap.daily, d.date ≠ snap.today) → snap.up = 0 ∧ snap.down = 0

end LiveTraffic

/-! ## One direction -/

/-- Upload or download. -/
inductive Direction where
  | up
  | down

/-- The value of a direction. -/
def Direction.pick (dir : Direction) (up down : Nat) : Nat :=
  match dir with
  | .up => up
  | .down => down

/-- The bytes of a direction. -/
def TrafficDay.get (d : TrafficDay) (dir : Direction) : Nat := dir.pick d.up d.down

/-- The bytes of a direction. -/
def TrafficDayJSON.get {Date : Type} (d : TrafficDayJSON Date) (dir : Direction) : Nat :=
  dir.pick d.up d.down

theorem get_add (d : TrafficDay) (up down : Nat) (dir : Direction) :
    (d.add up down).get dir = (d.get dir + dir.pick up down) % uint64Size := by
  cases dir <;> rfl

theorem contribution_eq {κ : Type} [DecidableEq κ] (m : AList fun _ : κ => TrafficDay) (k : κ)
    (dir : Direction) :
    contribution m (·.get dir) k = ((m.lookup k).getD .zero).get dir := by
  unfold contribution
  cases m.lookup k with
  | some d => rfl
  | none => cases dir <;> rfl

/-- Traffic that is added to a bucket is added to the total. -/
theorem totalOf_addTraffic {κ : Type} [DecidableEq κ] (m : AList fun _ : κ => TrafficDay) (k : κ)
    (up down : Nat) (dir : Direction)
    (hfits : ((m.lookup k).getD .zero).get dir + dir.pick up down < uint64Size) :
    totalOf (addTraffic m k up down) (·.get dir) = totalOf m (·.get dir) + dir.pick up down := by
  have hinsert := totalOf_insert m (·.get dir) k (((m.lookup k).getD .zero).add up down)
  rw [contribution_eq, get_add, Nat.mod_eq_of_lt hfits] at hinsert
  unfold addTraffic
  omega

namespace LiveTraffic

variable {Date ClientID : Type} [LinearOrder Date] {t t' : LiveTraffic Date ClientID} {today : Date}

/-- The counter of a direction. -/
def count (t : LiveTraffic Date ClientID) (dir : Direction) : Nat := dir.pick t.up t.down

/-- The counter at the last flush. -/
def last (t : LiveTraffic Date ClientID) (dir : Direction) : Nat :=
  dir.pick t.accounting.lastUp t.accounting.lastDown

/-- What has been added and not flushed. -/
def pending (t : LiveTraffic Date ClientID) (dir : Direction) : Nat := dir.pick t.gainUp t.gainDown

theorem Fits.get (h : t.Fits today) (dir : Direction) :
    (t.bucket today).get dir + t.pending dir < uint64Size := by
  cases dir
  · exact h.1
  · exact h.2

/-- The counters have not wrapped, and the buckets with what is pending give the sum. -/
structure Balanced (t : LiveTraffic Date ClientID) (dir : Direction) (sum : Nat) : Prop where
  le : t.last dir ≤ t.count dir
  lt : t.count dir < uint64Size
  total : totalOf t.accounting.buckets (·.get dir) + (t.count dir - t.last dir) = sum

theorem Balanced.pending_eq {dir : Direction} {sum : Nat} (h : t.Balanced dir sum) :
    t.pending dir = t.count dir - t.last dir := by
  have hgain : t.pending dir = gain (t.count dir) (t.last dir) := by cases dir <;> rfl
  have hle := h.le
  have hlt := h.lt
  unfold uint64Size at hlt
  rw [hgain, gain, uint64Size]
  omega

theorem Balanced.add {dir : Direction} {sum up down : Nat} (h : t.Balanced dir sum)
    (hfits : t.count dir + dir.pick up down < uint64Size) :
    (t.add up down).Balanced dir (sum + dir.pick up down) := by
  have hcount : (t.add up down).count dir = t.count dir + dir.pick up down := by
    have hmod : (t.add up down).count dir =
        (t.count dir + dir.pick up down) % uint64Size := by cases dir <;> rfl
    rw [hmod, Nat.mod_eq_of_lt hfits]
  have hlast : (t.add up down).last dir = t.last dir := rfl
  have hle := h.le
  have htotal := h.total
  refine ⟨by omega, by omega, ?_⟩
  show totalOf t.accounting.buckets (·.get dir) + _ = _
  omega

/-! ## A flush -/

/-- The buckets once the day has one: they are as before, or there is an empty one more. -/
def Opened (buckets : AList fun _ : Date => TrafficDay) (today : Date)
    (m : AList fun _ : Date => TrafficDay) : Prop :=
  m = buckets ∨ today ∉ buckets ∧ m = buckets.insert today .zero

theorem Opened.totalOf_eq {buckets m : AList fun _ : Date => TrafficDay}
    (h : Opened buckets today m) (dir : Direction) :
    totalOf m (·.get dir) = totalOf buckets (·.get dir) ∧
      (m.lookup today).getD .zero = (buckets.lookup today).getD .zero := by
  rcases h with rfl | ⟨hnew, rfl⟩
  · exact ⟨rfl, rfl⟩
  · have hzero : TrafficDay.zero.get dir = 0 := by cases dir <;> rfl
    have hinsert := totalOf_insert buckets (·.get dir) today .zero
    rw [contribution_eq, AList.lookup_eq_none.mpr hnew, Option.getD_none, hzero] at hinsert
    rw [AList.lookup_insert, AList.lookup_eq_none.mpr hnew]
    exact ⟨hinsert, rfl⟩

theorem countTotal_buckets (t : TrafficAccounting Date ClientID) (up down : Nat) (today : Date) :
    ∃ m, Opened t.buckets today m ∧ (t.countTotal up down today).buckets =
      if 0 < gain up t.lastUp ∨ 0 < gain down t.lastDown then
        addTraffic m today (gain up t.lastUp) (gain down t.lastDown)
      else m := by
  unfold TrafficAccounting.countTotal
  dsimp only [gain]
  by_cases htoday : t.today = some today
  · refine ⟨t.buckets, .inl rfl, ?_⟩
    rw [if_pos htoday]
    exact apply_ite TrafficAccounting.buckets _ _ _
  · refine ⟨if today ∈ t.buckets then t.buckets else t.buckets.insert today .zero, ?_, ?_⟩
    · split
      · exact .inl rfl
      · rename_i hnew
        exact .inr ⟨hnew, rfl⟩
    · rw [if_neg htoday]
      exact apply_ite TrafficAccounting.buckets _ _ _

/-- A flush moves what is pending into the total. -/
theorem totalOf_countTotal (t : TrafficAccounting Date ClientID) (up down : Nat) (today : Date)
    (dir : Direction)
    (hfits : ((t.buckets.lookup today).getD .zero).get dir +
      dir.pick (gain up t.lastUp) (gain down t.lastDown) < uint64Size) :
    totalOf (t.countTotal up down today).buckets (·.get dir) =
      totalOf t.buckets (·.get dir) + dir.pick (gain up t.lastUp) (gain down t.lastDown) := by
  obtain ⟨m, hm, hbuckets⟩ := countTotal_buckets t up down today
  obtain ⟨htotal, hlookup⟩ := hm.totalOf_eq dir
  rw [hbuckets]
  split
  · rw [← hlookup] at hfits
    rw [totalOf_addTraffic m today _ _ dir hfits, htotal]
  · rename_i hnone
    have hzero : dir.pick (gain up t.lastUp) (gain down t.lastDown) = 0 := by
      cases dir
      · exact Nat.eq_zero_of_not_pos fun h => hnone (.inl h)
      · exact Nat.eq_zero_of_not_pos fun h => hnone (.inr h)
    rw [htotal, hzero, Nat.add_zero]

theorem mem_countTotal {t : TrafficAccounting Date ClientID} {up down : Nat} {d : Date}
    (h : d ∈ (t.countTotal up down today).buckets) : d = today ∨ d ∈ t.buckets := by
  obtain ⟨m, hm, hbuckets⟩ := countTotal_buckets t up down today
  have hmem : d ∈ m → d = today ∨ d ∈ t.buckets := by
    rcases hm with rfl | ⟨-, rfl⟩
    · exact .inr
    · exact fun h => (AList.mem_insert _).mp h
  rw [hbuckets] at h
  split at h
  · rcases (AList.mem_insert _).mp h with rfl | hold
    · exact .inl rfl
    · exact hmem hold
  · exact hmem h

section

variable [DecidableEq ClientID]

omit [LinearOrder Date] [DecidableEq ClientID] in
theorem foldl_keeps {α β : Type} {f : TrafficAccounting Date ClientID → α}
    {g : TrafficAccounting Date ClientID → β → TrafficAccounting Date ClientID}
    (h : ∀ t b, f (g t b) = f t) (values : List β) (t : TrafficAccounting Date ClientID) :
    f (values.foldl g t) = f t := by
  induction values generalizing t with
  | nil => rfl
  | cons b rest ih => exact (ih (g t b)).trans (h t b)

/-- Sampling the clients keeps all that does not depend on what is known about them. -/
theorem sampleClients_keeps {α : Type} {f : TrafficAccounting Date ClientID → α}
    (hlast : ∀ t last, f { t with clientLast := last } = f t)
    (hbuckets : ∀ t buckets, f { t with clientBuckets := buckets } = f t)
    (t : TrafficAccounting Date ClientID) (today : Date) (sample : ClientSample ClientID) :
    f (t.sampleClientsLocked today sample) = f t := by
  have hadd : ∀ t id up down, f (TrafficAccounting.addClient t today id up down) = f t := by
    intro t id up down
    unfold TrafficAccounting.addClient
    split
    · rfl
    · exact hbuckets t _
  cases sample with
  | missing => rfl
  | deltas values => exact foldl_keeps (fun t b => hadd t b.1 b.2.1 b.2.2) values t
  | totals values =>
    have htotal : ∀ t b, f (TrafficAccounting.sampleTotal today t b) = f t := fun t b =>
      (hadd _ _ _ _).trans (hlast t _)
    exact (hlast _ _).trans (foldl_keeps htotal values t)

omit [DecidableEq ClientID] in
theorem countTotal_last (t : TrafficAccounting Date ClientID) (up down : Nat) (today : Date) :
    (t.countTotal up down today).lastUp = up ∧ (t.countTotal up down today).lastDown = down := by
  unfold TrafficAccounting.countTotal
  dsimp only
  split <;> split <;> exact ⟨rfl, rfl⟩

/-- A flush that trims nothing. -/
theorem flush_spec {sample : ClientSample ClientID} (hallowed : t.Allowed (.flush today sample)) :
    (t.flush today sample).accounting.buckets =
        (t.accounting.countTotal t.up t.down today).buckets ∧
      (t.flush today sample).accounting.lastUp = t.up ∧
      (t.flush today sample).accounting.lastDown = t.down := by
  have hflush : (t.flush today sample).accounting =
      t.accounting.sampled t.up t.down today sample := by
    show (t.accounting.sampled t.up t.down today sample).trimLocked = _
    unfold TrafficAccounting.trimLocked
    rw [if_pos hallowed.2]
  obtain ⟨hup, hdown⟩ := countTotal_last t.accounting t.up t.down today
  rw [hflush]
  refine ⟨sampleClients_keeps (fun _ _ => rfl) (fun _ _ => rfl) _ today sample, ?_, ?_⟩
  · exact (sampleClients_keeps (fun _ _ => rfl) (fun _ _ => rfl) _ today sample).trans hup
  · exact (sampleClients_keeps (fun _ _ => rfl) (fun _ _ => rfl) _ today sample).trans hdown

theorem Balanced.flush {dir : Direction} {sum : Nat} {sample : ClientSample ClientID}
    (h : t.Balanced dir sum) (hallowed : t.Allowed (.flush today sample)) :
    (t.flush today sample).Balanced dir sum := by
  obtain ⟨hbuckets, hup, hdown⟩ := flush_spec hallowed
  have hlast : (t.flush today sample).last dir = t.count dir := by
    cases dir
    · exact hup
    · exact hdown
  have hcount : (t.flush today sample).count dir = t.count dir := rfl
  have htotal := totalOf_countTotal t.accounting t.up t.down today dir (hallowed.1.get dir)
  refine ⟨(hlast.trans hcount.symm).le, h.lt, ?_⟩
  rw [hbuckets, htotal, hlast, hcount, Nat.sub_self, ← h.total, ← h.pending_eq]
  rfl

/-- A run adds to the sum what it adds to the counters. -/
theorem Balanced.run {dir : Direction} {sum : Nat} {actions : List (LiveAction Date ClientID)}
    (h : t.Balanced dir sum) (hallowed : Along LiveTraffic.step Allowed t actions)
    (hrun : Lib.run LiveTraffic.step t actions = some t') :
    t'.Balanced dir (sum + (added actions).get dir) := by
  induction actions generalizing t sum with
  | nil =>
    cases hrun
    have hnone : (added ([] : List (LiveAction Date ClientID))).get dir = 0 := by
      cases dir <;> rfl
    rw [hnone]
    exact h
  | cons action rest ih =>
    obtain ⟨next, hstep, hrest⟩ := run_cons_eq_some.mp hrun
    obtain ⟨hnow, hlater⟩ := hallowed.cons hstep
    cases action with
    | add up down =>
      cases hstep
      have hfits : t.count dir + dir.pick up down < uint64Size := by
        cases dir
        · exact hnow.1
        · exact hnow.2
      have hadded : (added (.add up down :: rest)).get dir =
          dir.pick up down + (added rest).get dir := by cases dir <;> rfl
      rw [hadded, ← Nat.add_assoc]
      exact ih (h.add hfits) hlater hrest
    | flush today sample =>
      cases hstep
      have hadded : (added (.flush today sample :: rest)).get dir = (added rest).get dir := by
        cases dir <;> exact Nat.zero_add _
      rw [hadded]
      exact ih (h.flush hnow) hlater hrest
    | snapshot today =>
      cases hstep
      have hadded : (added (.snapshot today :: rest)).get dir =
          (added rest).get dir := by
        cases dir <;> exact Nat.zero_add _
      rw [hadded]
      exact ih h hlater hrest

/-- The days of the buckets are restored ones or days of flushes. -/
theorem mem_buckets_run {actions : List (LiveAction Date ClientID)}
    (hallowed : Along LiveTraffic.step Allowed t actions)
    (hrun : Lib.run LiveTraffic.step t actions = some t') :
    ∀ d ∈ t'.accounting.buckets, d ∈ t.accounting.buckets ∨ d ∈ flushDays actions := by
  induction actions generalizing t with
  | nil =>
    cases hrun
    exact fun d hd => .inl hd
  | cons action rest ih =>
    obtain ⟨next, hstep, hrest⟩ := run_cons_eq_some.mp hrun
    obtain ⟨hnow, hlater⟩ := hallowed.cons hstep
    intro d hd
    have hmem := ih hlater hrest d hd
    cases action with
    | add up down =>
      cases hstep
      exact hmem
    | flush today sample =>
      cases hstep
      rcases hmem with hmem | hmem
      · rw [(flush_spec hnow).1] at hmem
        rcases mem_countTotal hmem with rfl | hold
        · exact .inr mem_cons_self
        · exact .inl hold
      · exact .inr (mem_cons_of_mem _ hmem)
    | snapshot today =>
      cases hstep
      exact hmem

end

/-! ## A snapshot -/

theorem foldl_appendDay (t : LiveTraffic Date ClientID) (days : List Date)
    (out : TrafficSnapshotJSON Date) :
    days.foldl t.appendDay out =
      { out with
        daily := out.daily ++ days.map (t.snapshotDay out.today)
        up := if out.today ∈ days then (t.snapshotDay out.today out.today).up else out.up
        down := if out.today ∈ days then (t.snapshotDay out.today out.today).down
          else out.down } := by
  induction days generalizing out with
  | nil => simp
  | cons day rest ih =>
    rw [foldl_cons, ih]
    by_cases hday : day = out.today
    · subst hday
      simp [appendDay]
    · have hother : out.today ≠ day := fun h => hday h.symm
      simp [appendDay, hday, hother]

theorem mem_sortedDays {d : Date} : d ∈ t.sortedDays ↔ d ∈ t.accounting.buckets :=
  (mem_insertionSort _).trans AList.mem_keys.symm

theorem sortedDays_increasing (t : LiveTraffic Date ClientID) :
    t.sortedDays.Pairwise (· < ·) :=
  pairwise_lt_insertionSort t.accounting.buckets.keys_nodup

theorem sum_sortedDays (t : LiveTraffic Date ClientID) (f : Date → Nat) :
    (t.sortedDays.map f).sum = (t.accounting.buckets.keys.map f).sum :=
  ((perm_insertionSort _ _).map f).sum_eq

theorem get_snapshotDay_of_ne {d : Date} (h : d ≠ today) (dir : Direction) :
    (t.snapshotDay today d).get dir = contribution t.accounting.buckets (·.get dir) d := by
  rw [contribution_eq, snapshotDay, if_neg h]
  rfl

theorem get_snapshotDay_self (hfits : t.Fits today) (dir : Direction) :
    (t.snapshotDay today today).get dir = (t.bucket today).get dir + t.pending dir := by
  have hentry : (t.snapshotDay today today).get dir =
      ((t.bucket today).add t.gainUp t.gainDown).get dir := by
    rw [snapshotDay, if_pos rfl]
    rfl
  rw [hentry, get_add]
  exact Nat.mod_eq_of_lt (hfits.get dir)

/-- The days that have a bucket, the current one with what is pending. -/
theorem sum_snapshotDays (hfits : t.Fits today) (htoday : today ∈ t.accounting.buckets)
    (dir : Direction) :
    (t.sortedDays.map fun d => (t.snapshotDay today d).get dir).sum =
      totalOf t.accounting.buckets (·.get dir) + t.pending dir := by
  have hflushed := totalOf_addTraffic t.accounting.buckets today t.gainUp t.gainDown dir
    (hfits.get dir)
  have hkeys : (addTraffic t.accounting.buckets today t.gainUp t.gainDown).keys.Perm
      t.accounting.buckets.keys := by
    rw [addTraffic, AList.keys_insert]
    exact (perm_cons_erase (AList.mem_keys.mp htoday)).symm
  rw [sum_sortedDays, ← (hkeys.map _).sum_eq]
  refine Eq.trans (congrArg List.sum (map_congr_left fun d _ => ?_)) hflushed
  by_cases hd : d = today
  · subst hd
    rw [contribution_eq, addTraffic, AList.lookup_insert, get_snapshotDay_self hfits,
      Option.getD_some, get_add]
    exact (Nat.mod_eq_of_lt (hfits.get dir)).symm
  · rw [get_snapshotDay_of_ne hd, contribution_eq, contribution_eq, addTraffic,
      AList.lookup_insert_ne hd]

theorem snapshot_of_mem (hfits : t.Fits today) (htoday : today ∈ t.accounting.buckets) :
    t.snapshot today =
      { days := t.accounting.days
        today := today
        up := (t.snapshotDay today today).up
        down := (t.snapshotDay today today).down
        daily := t.sortedDays.map (t.snapshotDay today) } := by
  have hup : (t.snapshotDay today today).up = _ := get_snapshotDay_self hfits .up
  have hdown : (t.snapshotDay today today).down = _ := get_snapshotDay_self hfits .down
  -- nothing is pending if the day shows no traffic
  have hshown : ¬ ((t.snapshotDay today today).up = 0 ∧ (t.snapshotDay today today).down = 0 ∧
      (0 < t.gainUp ∨ 0 < t.gainDown)) := by
    rintro ⟨hzero, hzero', hpending⟩
    have hgains : t.pending .up = t.gainUp ∧ t.pending .down = t.gainDown := ⟨rfl, rfl⟩
    omega
  have hmem := mem_sortedDays.mpr htoday
  rw [snapshot, foldl_appendDay]
  dsimp only
  rw [if_pos hmem, if_pos hmem, if_neg hshown, nil_append]

theorem snapshot_of_notMem (htoday : today ∉ t.accounting.buckets) :
    t.snapshot today =
      if 0 < t.gainUp ∨ 0 < t.gainDown then
        { days := t.accounting.days
          today := today
          up := t.gainUp
          down := t.gainDown
          daily := t.sortedDays.map (t.snapshotDay today) ++ [⟨today, t.gainUp, t.gainDown⟩] }
      else
        { days := t.accounting.days
          today := today
          up := 0
          down := 0
          daily := t.sortedDays.map (t.snapshotDay today) } := by
  have hmem : today ∉ t.sortedDays := fun h => htoday (mem_sortedDays.mp h)
  rw [snapshot, foldl_appendDay]
  dsimp only
  rw [if_neg hmem, if_neg hmem, nil_append]
  simp only [true_and]

theorem map_date_snapshotDay (t : LiveTraffic Date ClientID) (today : Date) (days : List Date) :
    (days.map (t.snapshotDay today)).map (·.date) = days := by
  rw [map_map]
  exact map_id days

/-- The current day has a bucket. -/
theorem consistent_of_mem (hfits : t.Fits today) (htoday : today ∈ t.accounting.buckets)
    {sum : TrafficDay}
    (hsum : ∀ dir, totalOf t.accounting.buckets (·.get dir) + t.pending dir = sum.get dir) :
    Consistent (t.snapshot today) sum := by
  have htotal : ∀ dir : Direction,
      ((t.sortedDays.map (t.snapshotDay today)).map (·.get dir)).sum = sum.get dir := by
    intro dir
    rw [map_map, ← hsum]
    exact sum_snapshotDays hfits htoday dir
  rw [snapshot_of_mem hfits htoday]
  refine ⟨?_, htotal .up, htotal .down, fun d hd hdate => ?_, fun hnone => ?_⟩
  · rw [map_date_snapshotDay]
    exact t.sortedDays_increasing
  · obtain ⟨day, -, rfl⟩ := mem_map.mp hd
    cases hdate
    exact ⟨rfl, rfl⟩
  · exact absurd rfl (hnone _ (mem_map_of_mem (mem_sortedDays.mpr htoday)))

/-- The current day has no bucket. -/
theorem consistent_of_notMem (hpast : ∀ d ∈ t.accounting.buckets, d ≤ today)
    (htoday : today ∉ t.accounting.buckets) {sum : TrafficDay}
    (hsum : ∀ dir, totalOf t.accounting.buckets (·.get dir) + t.pending dir = sum.get dir) :
    Consistent (t.snapshot today) sum := by
  have hne : ∀ day ∈ t.sortedDays, day ≠ today := fun day hday heq =>
    htoday (heq ▸ mem_sortedDays.mp hday)
  have htotal : ∀ dir : Direction, ((t.sortedDays.map (t.snapshotDay today)).map (·.get dir)).sum =
      totalOf t.accounting.buckets (·.get dir) := by
    intro dir
    rw [map_map, totalOf, ← sum_sortedDays]
    exact congrArg List.sum
      (map_congr_left fun day hday => get_snapshotDay_of_ne (hne day hday) dir)
  have hdates : ∀ d ∈ t.sortedDays.map (t.snapshotDay today), d.date ≠ today := by
    intro d hd
    obtain ⟨day, hday, rfl⟩ := mem_map.mp hd
    exact hne day hday
  rw [snapshot_of_notMem htoday]
  split
  · have hlast : ∀ dir, List.sum (List.map (TrafficDayJSON.get · dir)
        (t.sortedDays.map (t.snapshotDay today) ++ [⟨today, t.gainUp, t.gainDown⟩])) =
          sum.get dir := by
      intro dir
      rw [map_append, sum_append, htotal, ← hsum]
      rfl
    refine ⟨?_, hlast .up, hlast .down, fun d hd hdate => ?_, fun hnone => ?_⟩
    · rw [map_append, map_date_snapshotDay, map_singleton]
      refine pairwise_append.mpr ⟨t.sortedDays_increasing, pairwise_singleton _ _, ?_⟩
      intro day hday last hlast
      rw [mem_singleton.mp hlast]
      exact lt_of_le_of_ne (hpast day (mem_sortedDays.mp hday)) (hne day hday)
    · rcases mem_append.mp hd with hold | hnew
      · exact absurd hdate (hdates d hold)
      · rw [mem_singleton.mp hnew]
        exact ⟨rfl, rfl⟩
    · exact absurd rfl (hnone _ (mem_append_right _ mem_cons_self))
  · rename_i hidle
    have hzero : ∀ dir, t.pending dir = 0 := by
      intro dir
      cases dir
      · exact Nat.eq_zero_of_not_pos fun h => hidle (.inl h)
      · exact Nat.eq_zero_of_not_pos fun h => hidle (.inr h)
    have hall : ∀ dir : Direction,
        ((t.sortedDays.map (t.snapshotDay today)).map (·.get dir)).sum = sum.get dir := by
      intro dir
      rw [htotal, ← hsum, hzero, Nat.add_zero]
    refine ⟨?_, hall .up, hall .down, fun d hd hdate => ?_, fun _ => ⟨rfl, rfl⟩⟩
    · rw [map_date_snapshotDay]
      exact t.sortedDays_increasing
    · exact absurd hdate (hdates d hd)

/-- From every restored history, after any additions, flushes and snapshots in any order that
neither overflow nor trim, a snapshot on a day that is not before a restored day or a flush is
consistent with the history and all that has been added. -/
theorem daily_totals_conserved [DecidableEq ClientID] {days : Nat} {day : Option Date}
    {buckets : AList fun _ : Date => TrafficDay}
    {clientBuckets : AList fun _ : Date => AList fun _ : ClientID => TrafficDay}
    {actions : List (LiveAction Date ClientID)}
    (hallowed : Along LiveTraffic.step Allowed (restored days day buckets clientBuckets) actions)
    (hrun : run LiveTraffic.step (restored days day buckets clientBuckets) actions = some t)
    (hrestored : ∀ d ∈ buckets, d ≤ today) (hflushes : ∀ d ∈ flushDays actions, d ≤ today)
    (hfits : t.Fits today) :
    Consistent (t.snapshot today)
      ⟨totalOf buckets (·.up) + (added actions).up,
        totalOf buckets (·.down) + (added actions).down⟩ := by
  have hbalanced : ∀ dir,
      t.Balanced dir (totalOf buckets (·.get dir) + (added actions).get dir) := by
    intro dir
    have hstart : (restored days day buckets clientBuckets).Balanced dir
        (totalOf buckets (·.get dir)) := by
      have hzero : 0 < uint64Size := by decide
      cases dir <;> exact ⟨Nat.le_refl 0, hzero, rfl⟩
    exact hstart.run hallowed hrun
  have hsum : ∀ dir, totalOf t.accounting.buckets (·.get dir) + t.pending dir =
      TrafficDay.get ⟨totalOf buckets (·.up) + (added actions).up,
        totalOf buckets (·.down) + (added actions).down⟩ dir := by
    intro dir
    rw [(hbalanced dir).pending_eq, (hbalanced dir).total]
    cases dir <;> rfl
  have hpast : ∀ d ∈ t.accounting.buckets, d ≤ today := fun d hd =>
    (mem_buckets_run hallowed hrun d hd).elim (hrestored d) (hflushes d)
  by_cases htoday : today ∈ t.accounting.buckets
  · exact consistent_of_mem hfits htoday hsum
  · exact consistent_of_notMem hpast htoday hsum

/-- A history of one day. -/
def oneDay : AList fun _ : Nat => TrafficDay := AList.insert 3 ⟨100, 10⟩ ∅

/-- More traffic on the restored day, traffic that is flushed two days later, and some that is not
flushed yet. -/
def acrossDays : List (LiveAction Nat Nat) :=
  [.add 5 1, .flush 3 .missing, .add 7 2, .snapshot 4, .flush 5 .missing, .add 1 0]

/-- Nothing is lost between the days. -/
theorem across_days_conserved :
    ∃ t, run LiveTraffic.step (restored 30 (some 3) oneDay ∅) acrossDays = some t ∧
      (t.snapshot 6).daily = [⟨3, 105, 11⟩, ⟨5, 7, 2⟩, ⟨6, 1, 0⟩] ∧
      Consistent (t.snapshot 6) ⟨totalOf oneDay (·.up) + (added acrossDays).up,
        totalOf oneDay (·.down) + (added acrossDays).down⟩ := by
  obtain ⟨t, hrun, hdaily, hfits⟩ := exists_run_of_decide
    (P := fun t => (t.snapshot 6).daily = [⟨3, 105, 11⟩, ⟨5, 7, 2⟩, ⟨6, 1, 0⟩] ∧ t.Fits 6)
    (show (run LiveTraffic.step (restored 30 (some 3) oneDay ∅) acrossDays).any _ = true by
      decide +kernel)
  have hallowed : Along LiveTraffic.step Allowed (restored 30 (some 3) oneDay ∅) acrossDays := by
    decide +kernel
  have hrestored : ∀ d ∈ oneDay.keys, d ≤ 6 := by decide
  have hflushes : ∀ d ∈ flushDays acrossDays, d ≤ 6 := by decide
  exact ⟨t, hrun, hdaily, daily_totals_conserved hallowed hrun
    (fun d hd => hrestored d (AList.mem_keys.mp hd)) hflushes hfits⟩

end LiveTraffic

end TlsVpn.Panel
