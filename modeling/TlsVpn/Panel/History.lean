import Mathlib.Data.List.AList
import TlsVpn.Lib.Bytes
import TlsVpn.Lib.Lists
import TlsVpn.Lib.Run

/-!
# The traffic of each day

Translation of `TrafficAccounting.flush`, `sampleClientsLocked`, `trimLocked` and the retention part
of `OnConfig`. A flush adds what the counters have gained to the bucket of the day, for all traffic
and for each client, and then keeps the newest days of both histories. A day is a value of a linear
order; the formatted dates of the source sort as dates. The trend, the files and the
rate estimates are left out: the histories do not depend on them, and a history that was restored
from a file is an arbitrary one.

`TrafficAccounting.histories_aligned` holds if, whenever days of the total history are dropped,
every day that it keeps has client traffic. The two histories are trimmed by their own numbers of
days, and the clients' one only together with the other (`idle_days_keep_old`).
-/

namespace TlsVpn.Panel

open Lib Function List

/-- The bytes of a day. -/
structure TrafficDay where
  up : Nat
  down : Nat
  deriving DecidableEq, Repr

/-- An empty bucket. -/
def TrafficDay.zero : TrafficDay := ⟨0, 0⟩

/-- Counters have 64 bits. -/
def TrafficDay.add (d : TrafficDay) (up down : Nat) : TrafficDay :=
  ⟨(d.up + up) % uint64Size, (d.down + down) % uint64Size⟩

/-- Adds to the entry of a key, which starts at zero. -/
def addTraffic {κ : Type} [DecidableEq κ] (m : AList fun _ : κ => TrafficDay) (k : κ)
    (up down : Nat) : AList fun _ : κ => TrafficDay :=
  m.insert k (((m.lookup k).getD .zero).add up down)

/-- What the callback for the clients returns, if there is one: what each client has gained, or what
its session has counted so far. -/
inductive ClientSample (ClientID : Type) where
  | deltas (values : List (ClientID × Nat × Nat))
  | totals (values : List (ClientID × Nat × Nat))
  | missing

/-- The histories of all traffic and of the clients. -/
structure TrafficAccounting (Date ClientID : Type) where
  lastUp : Nat
  lastDown : Nat
  days : Nat
  today : Option Date
  buckets : AList fun _ : Date => TrafficDay
  clientLast : ClientID → Option (Nat × Nat)
  clientBuckets : AList fun _ : Date => AList fun _ : ClientID => TrafficDay

/-- For settings without a retention. -/
def defaultTrafficDays : Nat := 30

/-- The longest retention. -/
def maxTrafficDays : Nat := 3650

/-- A flush or new settings. -/
inductive TrafficAction (Date ClientID : Type) where
  | flush (up down : Nat) (today : Date) (sample : ClientSample ClientID)
  | onConfig (trafficDays : Int)

namespace TrafficAccounting

variable {Date ClientID : Type} [LinearOrder Date]

/-- No history. -/
def new : TrafficAccounting Date ClientID :=
  { lastUp := 0
    lastDown := 0
    days := 0
    today := none
    buckets := ∅
    clientLast := fun _ => none
    clientBuckets := ∅ }

/-- Only the newest days. -/
def trimTo {V : Type} (n : Nat) (m : AList fun _ : Date => V) : AList fun _ : Date => V :=
  (oldest n m.keys).foldl (fun m k => m.erase k) m

/-- Zero days mean no limit. -/
def trimLocked (t : TrafficAccounting Date ClientID) : TrafficAccounting Date ClientID :=
  if t.days = 0 ∨ t.buckets.keys.length ≤ t.days then t
  else
    let t := { t with buckets := trimTo t.days t.buckets }
    if t.days = 0 ∨ t.clientBuckets.keys.length ≤ t.days then t
    else { t with clientBuckets := trimTo t.days t.clientBuckets }

section

variable [DecidableEq ClientID]

/-- The bucket of a client on a day. -/
def addClient (t : TrafficAccounting Date ClientID) (today : Date) (id : ClientID)
    (up down : Nat) : TrafficAccounting Date ClientID :=
  if up = 0 ∧ down = 0 then t
  else
    { t with
      clientBuckets := t.clientBuckets.insert today
        (addTraffic ((t.clientBuckets.lookup today).getD ∅) id up down) }

/-- One client of a sample of totals. A counter that has gone back counts as no gain. -/
def sampleTotal (today : Date) (t : TrafficAccounting Date ClientID)
    (value : ClientID × Nat × Nat) : TrafficAccounting Date ClientID :=
  let (id, up, down) := value
  let last := (t.clientLast id).getD (0, 0)
  { t with clientLast := update t.clientLast id (some (up, down)) }.addClient today id
    (up - last.1) (down - last.2)

/-- A client that is missing in a sample of totals is forgotten. -/
def sampleClientsLocked (t : TrafficAccounting Date ClientID) (today : Date) :
    ClientSample ClientID → TrafficAccounting Date ClientID
  | .deltas values => values.foldl (fun t (id, up, down) => t.addClient today id up down) t
  | .totals values =>
    let t := values.foldl (sampleTotal today) t
    { t with clientLast := fun id => if id ∈ values.map Prod.fst then t.clientLast id else none }
  | .missing => t

/-- What a flush adds to the history of all traffic. -/
def countTotal (t : TrafficAccounting Date ClientID) (up down : Nat) (today : Date) :
    TrafficAccounting Date ClientID :=
  let dUp := (uint64Size + up - t.lastUp) % uint64Size
  let dDown := (uint64Size + down - t.lastDown) % uint64Size
  let t := { t with lastUp := up, lastDown := down }
  let t :=
    if t.today = some today then t
    else
      { t with
        today := some today
        buckets := if today ∈ t.buckets then t.buckets else t.buckets.insert today .zero }
  if 0 < dUp ∨ 0 < dDown then { t with buckets := addTraffic t.buckets today dUp dDown } else t

/-- A flush up to the trimming. -/
def sampled (t : TrafficAccounting Date ClientID) (up down : Nat) (today : Date)
    (sample : ClientSample ClientID) : TrafficAccounting Date ClientID :=
  (t.countTotal up down today).sampleClientsLocked today sample

/-- Old days are trimmed at the end. -/
def flush (t : TrafficAccounting Date ClientID) (up down : Nat) (today : Date)
    (sample : ClientSample ClientID) : TrafficAccounting Date ClientID :=
  (t.sampled up down today sample).trimLocked

/-- The retention that the settings ask for. -/
def retention (trafficDays : Int) : Nat :=
  if trafficDays ≤ 0 then defaultTrafficDays
  else if trafficDays > maxTrafficDays then maxTrafficDays
  else trafficDays.toNat

/-- A shorter retention takes effect at once. -/
def onConfig (t : TrafficAccounting Date ClientID) (trafficDays : Int) :
    TrafficAccounting Date ClientID :=
  { t with days := retention trafficDays }.trimLocked

/-- Every step can be taken. -/
def step (t : TrafficAccounting Date ClientID) :
    TrafficAction Date ClientID → Option (TrafficAccounting Date ClientID)
  | .flush up down today sample => some (t.flush up down today sample)
  | .onConfig trafficDays => some (t.onConfig trafficDays)

end

/-! ## What is kept -/

variable {t t' : TrafficAccounting Date ClientID} {today : Date}

theorem mem_erase_all {V : Type} {k : Date} (drop : List Date) (m : AList fun _ : Date => V) :
    k ∈ drop.foldl (fun m k => m.erase k) m ↔ k ∈ m ∧ k ∉ drop := by
  induction drop generalizing m with
  | nil => simp
  | cons d rest ih =>
    rw [foldl_cons, ih, AList.mem_erase, mem_cons, not_or]
    constructor
    · rintro ⟨⟨hne, hmem⟩, hrest⟩
      exact ⟨hmem, hne, hrest⟩
    · rintro ⟨hmem, hne, hrest⟩
      exact ⟨⟨hne, hmem⟩, hrest⟩

theorem mem_trimTo {V : Type} {n : Nat} {k : Date} {m : AList fun _ : Date => V} :
    k ∈ trimTo n m ↔ k ∈ m ∧ later m.keys k < n := by
  unfold trimTo
  rw [mem_erase_all, mem_oldest m.keys_nodup, ← AList.mem_keys, not_and, Nat.not_le]
  exact and_congr_right fun hmem => ⟨fun h => h hmem, fun h _ => h⟩

/-- Trimming leaves the newest entry. -/
theorem exists_mem_trimTo {V : Type} {n : Nat} {k : Date} {m : AList fun _ : Date => V}
    (hn : n ≠ 0) (hk : k ∈ m) : ∃ x ∈ trimTo n m, k ≤ x := by
  obtain ⟨x, hx, hle, hlast⟩ := exists_latest (AList.mem_keys.mp hk)
  exact ⟨x, mem_trimTo.mpr ⟨AList.mem_keys.mpr hx, by omega⟩, hle⟩

/-- If days of the total history are to be dropped, every day that is kept has client traffic. -/
def Covered (t : TrafficAccounting Date ClientID) : Prop :=
  t.days < t.buckets.keys.length →
    ∀ d ∈ t.buckets.keys, later t.buckets.keys d < t.days → d ∈ t.clientBuckets.keys

instance (t : TrafficAccounting Date ClientID) : Decidable t.Covered :=
  inferInstanceAs (Decidable (_ → _))

/-- No day of the clients' history is older than the oldest one of the total history. -/
def Aligned (t : TrafficAccounting Date ClientID) : Prop :=
  ∀ c ∈ t.clientBuckets, ∃ d ∈ t.buckets, d ≤ c

/-- The current day is not newer than the newest bucket. -/
def Current (t : TrafficAccounting Date ClientID) : Prop :=
  ∀ d ∈ t.today, ∃ x ∈ t.buckets, d ≤ x

theorem trim_subset {d : Date} (h : d ∈ t.trimLocked.buckets) : d ∈ t.buckets := by
  unfold trimLocked at h
  split at h
  · exact h
  · dsimp only at h
    split at h
    · exact (mem_trimTo.mp h).1
    · exact (mem_trimTo.mp h).1

theorem Current.trim (h : t.Current) : t.trimLocked.Current := by
  unfold trimLocked
  split
  · exact h
  · rename_i hlong
    obtain ⟨hdays, -⟩ := not_or.mp hlong
    have hkept : ∀ d ∈ t.today, ∃ x ∈ trimTo t.days t.buckets, d ≤ x := by
      intro d hd
      obtain ⟨x, hx, hdx⟩ := h d hd
      obtain ⟨y, hy, hxy⟩ := exists_mem_trimTo hdays hx
      exact ⟨y, hy, hdx.trans hxy⟩
    dsimp only
    split
    · exact hkept
    · exact hkept

/-- A day of the clients that is older than all days that are kept has too many later ones. -/
theorem Covered.le_later (h : t.Covered) (hlong : t.days < t.buckets.keys.length) {c : Date}
    (hold : ∀ d ∈ trimTo t.days t.buckets, c < d) : t.days ≤ later t.clientBuckets.keys c := by
  have hcount := length_newest (n := t.days) t.buckets.keys_nodup hlong.le
  rw [← hcount]
  refine Lib.le_later (t.buckets.keys_nodup.filter _) (fun d hd => ?_) fun d hd => ?_
  · obtain ⟨hmem, hlater⟩ := mem_filter.mp hd
    exact h hlong d hmem (of_decide_eq_true hlater)
  · obtain ⟨hmem, hlater⟩ := mem_filter.mp hd
    exact hold d (mem_trimTo.mpr ⟨AList.mem_keys.mpr hmem, of_decide_eq_true hlater⟩)

theorem Aligned.trim (h : t.Aligned) (hcovered : t.Covered) : t.trimLocked.Aligned := by
  unfold trimLocked
  split
  · exact h
  · rename_i hlong
    obtain ⟨hdays, hlong⟩ := not_or.mp hlong
    rw [Nat.not_le] at hlong
    dsimp only
    split
    · rename_i hshort
      intro c hc
      by_contra hnone
      have hrank := hcovered.le_later hlong fun d hd => not_le.mp fun hle => hnone ⟨d, hd, hle⟩
      have hless : later t.clientBuckets.keys c < t.clientBuckets.keys.length :=
        later_lt_length (AList.mem_keys.mp hc)
      have hfew : t.clientBuckets.keys.length ≤ t.days := hshort.resolve_left hdays
      omega
    · intro c hc
      obtain ⟨-, hkept⟩ := mem_trimTo.mp hc
      by_contra hnone
      have hrank := hcovered.le_later hlong fun d hd => not_le.mp fun hle => hnone ⟨d, hd, hle⟩
      omega

/-! ## A flush -/

/-- Only the clients' history has changed, and at most by the day. -/
structure Samples (today : Date) (t t' : TrafficAccounting Date ClientID) : Prop where
  days_eq : t'.days = t.days
  today_eq : t'.today = t.today
  buckets_eq : t'.buckets = t.buckets
  clients : ∀ c ∈ t'.clientBuckets, c = today ∨ c ∈ t.clientBuckets

omit [LinearOrder Date] in
theorem Samples.refl (t : TrafficAccounting Date ClientID) : Samples today t t :=
  ⟨rfl, rfl, rfl, fun _ hc => .inr hc⟩

omit [LinearOrder Date] in
theorem Samples.trans {t'' : TrafficAccounting Date ClientID} (h : Samples today t t')
    (h' : Samples today t' t'') : Samples today t t'' :=
  ⟨h'.days_eq.trans h.days_eq, h'.today_eq.trans h.today_eq, h'.buckets_eq.trans h.buckets_eq,
    fun c hc => (h'.clients c hc).elim .inl (h.clients c)⟩

/-- The total history after a flush has the day besides, if no bucket is newer. -/
theorem count_total_spec (hcurrent : t.Current) (hpast : ∀ d ∈ t.buckets, d ≤ today)
    (up down : Nat) :
    (∀ d, d ∈ (t.countTotal up down today).buckets ↔ d = today ∨ d ∈ t.buckets) ∧
      (t.countTotal up down today).today = some today ∧
      (t.countTotal up down today).clientBuckets = t.clientBuckets := by
  have hadd : ∀ (m : AList fun _ : Date => TrafficDay) up down d,
      d ∈ addTraffic m today up down ↔ d = today ∨ d ∈ m := fun m up down d => AList.mem_insert m
  -- a day that is current already has its bucket
  have hstarted : t.today = some today → today ∈ t.buckets := by
    intro htoday
    obtain ⟨x, hx, hle⟩ := hcurrent today htoday
    rwa [le_antisymm hle (hpast x hx)]
  have hinsert : ∀ d, d ∈ (if today ∈ t.buckets then t.buckets else t.buckets.insert today .zero) ↔
      d = today ∨ d ∈ t.buckets := by
    intro d
    split
    · rename_i hmem
      exact ⟨.inr, fun h => h.elim (fun heq => heq ▸ hmem) id⟩
    · exact AList.mem_insert _
  unfold countTotal
  dsimp only
  by_cases htoday : t.today = some today
  · have hmem := hstarted htoday
    rw [if_pos htoday]
    split
    · exact ⟨fun d => hadd _ _ _ d, htoday, rfl⟩
    · exact ⟨fun d => ⟨.inr, fun h => h.elim (fun heq => heq ▸ hmem) id⟩, htoday, rfl⟩
  · rw [if_neg htoday]
    split
    · refine ⟨fun d => (hadd _ _ _ d).trans ⟨fun h => ?_, fun h => ?_⟩, rfl, rfl⟩
      · exact h.elim .inl fun h => (hinsert d).mp h
      · exact .inr ((hinsert d).mpr h)
    · exact ⟨hinsert, rfl, rfl⟩

variable [DecidableEq ClientID]

theorem samples_addClient (t : TrafficAccounting Date ClientID) (today : Date) (id : ClientID)
    (up down : Nat) : Samples today t (t.addClient today id up down) := by
  unfold addClient
  split
  · exact .refl t
  · exact ⟨rfl, rfl, rfl, fun c hc => (AList.mem_insert _).mp hc⟩

omit [LinearOrder Date] [DecidableEq ClientID] in
theorem samples_foldl {β : Type} {f : TrafficAccounting Date ClientID → β →
    TrafficAccounting Date ClientID} (h : ∀ t b, Samples today t (f t b)) (values : List β)
    (t : TrafficAccounting Date ClientID) : Samples today t (values.foldl f t) := by
  induction values generalizing t with
  | nil => exact .refl t
  | cons b rest ih => exact (h t b).trans (ih (f t b))

theorem samples_sampleClients (t : TrafficAccounting Date ClientID) (today : Date)
    (sample : ClientSample ClientID) : Samples today t (t.sampleClientsLocked today sample) := by
  cases sample with
  | missing => exact .refl t
  | deltas values => exact samples_foldl (fun t b => t.samples_addClient today _ _ _) values t
  | totals values =>
    have htotals : Samples today t (values.foldl (sampleTotal today) t) := by
      refine samples_foldl (fun t b => ?_) values t
      unfold sampleTotal
      dsimp only
      have hadded := samples_addClient
        { t with clientLast := update t.clientLast b.1 (some b.2) } today b.1
      exact ⟨(hadded _ _).days_eq, (hadded _ _).today_eq, (hadded _ _).buckets_eq,
        (hadded _ _).clients⟩
    exact ⟨htotals.days_eq, htotals.today_eq, htotals.buckets_eq, htotals.clients⟩

/-- The invariant: the histories are aligned, and no flush is before a bucket. -/
structure Sound (t : TrafficAccounting Date ClientID) (dates : List Date) : Prop where
  aligned : t.Aligned
  current : t.Current
  past : ∀ d ∈ t.buckets, ∀ x ∈ dates, d ≤ x

omit [DecidableEq ClientID] in
theorem Sound.trim {dates : List Date} (h : t.Sound dates) (hcovered : t.Covered) :
    t.trimLocked.Sound dates :=
  ⟨h.aligned.trim hcovered, h.current.trim, fun d hd => h.past d (trim_subset hd)⟩

theorem Sound.sampled {dates : List Date} (h : t.Sound (today :: dates))
    (hdates : ∀ x ∈ dates, today ≤ x) (up down : Nat) (sample : ClientSample ClientID) :
    (t.sampled up down today sample).Sound dates := by
  obtain ⟨hmem, htoday, hclients⟩ :=
    count_total_spec h.current (fun d hd => h.past d hd today mem_cons_self) up down
  have hsamples := samples_sampleClients (t.countTotal up down today) today sample
  have hbuckets : ∀ d,
      d ∈ (t.sampled up down today sample).buckets ↔ d = today ∨ d ∈ t.buckets := by
    intro d
    rw [show (t.sampled up down today sample).buckets = _ from hsamples.buckets_eq]
    exact hmem d
  refine ⟨fun c hc => ?_, fun d hd => ?_, fun d hd x hx => ?_⟩
  · rcases hsamples.clients c hc with rfl | hold
    · exact ⟨c, (hbuckets c).mpr (.inl rfl), le_rfl⟩
    · rw [hclients] at hold
      obtain ⟨d, hd, hle⟩ := h.aligned c hold
      exact ⟨d, (hbuckets d).mpr (.inr hd), hle⟩
  · have heq : d = today := by
      have hnow := hsamples.today_eq.trans htoday
      exact Option.some.inj (Eq.trans (Eq.symm hd) hnow)
    exact ⟨today, (hbuckets today).mpr (.inl rfl), heq.le⟩
  · rcases (hbuckets d).mp hd with rfl | hold
    · exact hdates x hx
    · exact h.past d hold x (mem_cons_of_mem _ hx)

/-- Whenever days of the total history are to be dropped, the days that are kept have client
traffic. -/
def CoveredAt (t : TrafficAccounting Date ClientID) : TrafficAction Date ClientID → Prop
  | .flush up down today sample => (t.sampled up down today sample).Covered
  | .onConfig trafficDays => Covered { t with days := retention trafficDays }

instance (t : TrafficAccounting Date ClientID) : ∀ action, Decidable (CoveredAt t action)
  | .flush _ _ _ _ | .onConfig _ => inferInstanceAs (Decidable (Covered _))

/-- The days of the flushes. -/
def flushDates (actions : List (TrafficAction Date ClientID)) : List Date :=
  actions.filterMap fun action => match action with
    | .flush _ _ today _ => some today
    | .onConfig _ => none

/-- From restored histories with the same days, none of them newer than the flushes, the clients'
history never goes back beyond the total one, if the days that are kept have client traffic
whenever days are dropped. -/
theorem histories_aligned {actions : List (TrafficAction Date ClientID)}
    (hclients : ∀ c ∈ t.clientBuckets, c ∈ t.buckets) (hcurrent : t.Current)
    (hpast : ∀ d ∈ t.buckets, ∀ x ∈ flushDates actions, d ≤ x)
    (hdates : (flushDates actions).Pairwise (· ≤ ·))
    (hcovered : Along TrafficAccounting.step CoveredAt t actions)
    (hrun : run TrafficAccounting.step t actions = some t') :
    ∀ c ∈ t'.clientBuckets, ∃ d ∈ t'.buckets, d ≤ c := by
  have hsound : t.Sound (flushDates actions) :=
    ⟨fun c hc => ⟨c, hclients c hc, le_rfl⟩, hcurrent, hpast⟩
  clear hclients hcurrent hpast
  induction actions generalizing t with
  | nil =>
    cases hrun
    exact hsound.aligned
  | cons action rest ih =>
    obtain ⟨next, hstep, hrest⟩ := run_cons_eq_some.mp hrun
    obtain ⟨hnow, hcovered⟩ := hcovered.cons hstep
    cases action with
    | flush up down today sample =>
      cases hstep
      obtain ⟨hlater, hdates⟩ := pairwise_cons.mp hdates
      exact ih hdates hcovered hrest ((Sound.sampled hsound hlater up down sample).trim hnow)
    | onConfig trafficDays =>
      cases hstep
      have hconfigured : Sound { t with days := retention trafficDays } (flushDates rest) :=
        ⟨hsound.aligned, hsound.current, hsound.past⟩
      exact ih hdates hcovered hrest (hconfigured.trim hnow)

/-- Three days with client traffic, of which two are kept. -/
def busyDays : List (TrafficAction Nat Nat) :=
  [.onConfig 2, .flush 10 10 1 (.deltas [(7, 10, 10)]), .flush 20 20 2 (.deltas [(7, 10, 10)]),
    .flush 30 30 3 (.deltas [(7, 10, 10)])]

/-- Both histories keep the same days. -/
theorem busy_days_aligned :
    ∃ t, run TrafficAccounting.step new busyDays = some t ∧ t.buckets.keys = [3, 2] ∧
      t.clientBuckets.keys = [3, 2] ∧ ∀ c ∈ t.clientBuckets, ∃ d ∈ t.buckets, d ≤ c := by
  obtain ⟨t, hrun, hkeys, hclients⟩ := exists_run_of_decide
    (P := fun t => t.buckets.keys = [3, 2] ∧ t.clientBuckets.keys = [3, 2])
    (show (run TrafficAccounting.step new busyDays).any _ = true by decide +kernel)
  refine ⟨t, hrun, hkeys, hclients, histories_aligned ?_ ?_ ?_ (by decide) (by decide +kernel) hrun⟩
  · exact fun c hc => absurd hc (AList.notMem_empty c)
  · exact fun d hd => nomatch hd
  · exact fun d hd => absurd hd (AList.notMem_empty d)

/-- The same without client traffic on the second and the third day. -/
def idleDays : List (TrafficAction Nat Nat) :=
  [.onConfig 2, .flush 10 10 1 (.deltas [(7, 10, 10)]), .flush 20 20 2 (.deltas []),
    .flush 30 30 3 (.deltas [])]

/-- The history of the clients keeps a day that the other one has lost. -/
theorem idle_days_keep_old :
    ∃ t, run TrafficAccounting.step new idleDays = some t ∧ t.buckets.keys = [3, 2] ∧
      t.clientBuckets.keys = [1] ∧ ∃ c ∈ t.clientBuckets.keys, ∀ d ∈ t.buckets.keys, c < d :=
  exists_run_of_decide (by decide +kernel)

end TrafficAccounting

end TlsVpn.Panel
