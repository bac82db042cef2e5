import TlsVpn.Port.Scheduler

/-!
# Soundness of the choice

`choice_sound_iff`: a call returns a healthy backend that is not outside of the envelope around the
least measured round-trip time, and leaves flags, debts and the preference as the choice says. The
one exception is a value: the greatest round-trip time stands for none in the search for the least
one, so if every healthy path has been measured with it, no path is a candidate
(`greatest_rtt_not_active`).
-/

namespace TlsVpn.Port

open Lib List

/-! ## The reference of the envelope -/

section Envelope

variable {views : List View} {v : View}

theorem adaptiveBackendRTT_le (v : View) : (adaptiveBackendRTT v).1 ≤ maxUint32 := by
  unfold adaptiveBackendRTT adaptiveUnknownRTTUS maxUint32
  split
  · decide
  · rename_i rtt _
    have hbound := rtt.toNat_lt
    split <;> simp only <;> omega

/-- The path has been measured, and takes part in the reference. -/
def View.warmed (v : View) : Bool := v.healthy && !v.fairStart

theorem minMeasuredRTT_append (views : List View) (v : View) :
    minMeasuredRTT (views ++ [v]) =
      if v.warmed = true ∧ (adaptiveBackendRTT v).1 < minMeasuredRTT views then
        (adaptiveBackendRTT v).1
      else minMeasuredRTT views := by
  simp [minMeasuredRTT, View.warmed]

theorem minMeasuredRTT_spec (views : List View) :
    (minMeasuredRTT views = maxUint32 ∨
        ∃ v ∈ views, v.warmed = true ∧ (adaptiveBackendRTT v).1 = minMeasuredRTT views) ∧
      ∀ v ∈ views, v.warmed = true → minMeasuredRTT views ≤ (adaptiveBackendRTT v).1 := by
  induction views using List.reverseRecOn with
  | nil => exact ⟨.inl rfl, nofun⟩
  | append_singleton views v ih =>
    obtain ⟨hattained, hleast⟩ := ih
    rw [minMeasuredRTT_append]
    split
    · rename_i himproves
      refine ⟨.inr ⟨v, by simp, himproves.1, rfl⟩, fun w hfound hwarmed => ?_⟩
      rcases mem_append.mp hfound with hold | hnew
      · exact Nat.le_trans (Nat.le_of_lt himproves.2) (hleast w hold hwarmed)
      · rw [mem_singleton.mp hnew]
    · rename_i hsame
      refine ⟨hattained.imp_right fun ⟨w, hfound, hspec⟩ => ⟨w, by simp [hfound], hspec⟩, ?_⟩
      intro w hfound hwarmed
      rcases mem_append.mp hfound with hold | hnew
      · exact hleast w hold hwarmed
      · rw [mem_singleton.mp hnew] at hwarmed ⊢
        exact Nat.le_of_not_lt fun himproves => hsame ⟨hwarmed, himproves⟩

theorem envelope_mono {a b : Nat} (h : a ≤ b) : envelope a ≤ envelope b := by
  unfold envelope backendRTTHysteresisMin
  omega

/-- The path has been measured, and its round-trip time is outside of the envelope of another
path. -/
def Outside (views : List View) (v : View) : Prop :=
  v.fairStart = false ∧
    ∃ w ∈ views, w.warmed = true ∧ envelope (adaptiveBackendRTT w).1 < (adaptiveBackendRTT v).1

theorem not_outside_of_eligible (h : eligible views v = true) : ¬ Outside views v := by
  rintro ⟨hmeasured, w, hfound, hwarmed, hbeyond⟩
  obtain ⟨-, hleast⟩ := minMeasuredRTT_spec views
  have hbound := adaptiveBackendRTT_le v
  have hinside : (adaptiveBackendRTT v).1 ≤ maxRTT views := by
    simp only [eligible, hmeasured, Bool.false_or, Bool.and_eq_true, decide_eq_true_eq] at h
    exact h.2
  have hreference := hleast w hfound hwarmed
  by_cases hnone : minMeasuredRTT views = maxUint32
  · -- the other path has the greatest time there is, and nothing is beyond its envelope
    rw [hnone] at hreference
    unfold envelope at hbeyond
    omega
  · rw [maxRTT, minRTT, if_neg hnone] at hinside
    have hmono := envelope_mono hreference
    omega

/-- Some path is healthy, and every healthy path has been measured with the greatest time. -/
def Saturated (views : List View) : Prop :=
  (∃ v ∈ views, v.healthy = true) ∧
    ∀ v ∈ views, v.healthy = true → v.fairStart = false ∧ (adaptiveBackendRTT v).1 = maxUint32

/-- If nobody is eligible although somebody is healthy, the greatest time has been taken for
none. -/
theorem saturated_iff (hsome : ∃ v ∈ views, v.healthy = true) :
    (∀ v ∈ views, eligible views v = false) ↔ Saturated views := by
  obtain ⟨hattained, hleast⟩ := minMeasuredRTT_spec views
  constructor
  · intro hnone
    have hrejected : ∀ v ∈ views, v.healthy = true →
        v.fairStart = false ∧ maxRTT views < (adaptiveBackendRTT v).1 := by
      intro v hfound hhealthy
      simpa [eligible, hhealthy] using hnone v hfound
    have hsentinel : minMeasuredRTT views = maxUint32 := by
      by_contra hmeasured
      obtain ⟨w, hfound, hwarmed, hattains⟩ := hattained.resolve_left hmeasured
      -- the path that attains the minimum is inside of its own envelope
      have hbeyond := (hrejected w hfound (by simp_all [View.warmed])).2
      rw [maxRTT, minRTT, if_neg hmeasured, hattains] at hbeyond
      unfold envelope at hbeyond
      omega
    refine ⟨hsome, fun v hfound hhealthy => ?_⟩
    have hmeasured := (hrejected v hfound hhealthy).1
    have hreference := hleast v hfound (by simp [View.warmed, hhealthy, hmeasured])
    have hbound := adaptiveBackendRTT_le v
    exact ⟨hmeasured, by omega⟩
  · rintro ⟨-, hgreatest⟩ v hfound
    have hsentinel : minMeasuredRTT views = maxUint32 := by
      rcases hattained with hsentinel | ⟨w, hfoundW, hwarmed, hattains⟩
      · exact hsentinel
      · rw [← hattains]
        exact (hgreatest w hfoundW (by simp_all [View.warmed])).2
    have hreach : maxRTT views = 62500 := by
      rw [maxRTT, minRTT, if_pos hsentinel]
      rfl
    by_cases hhealthy : v.healthy = true
    · obtain ⟨hmeasured, htime⟩ := hgreatest v hfound hhealthy
      simp [eligible, hmeasured, htime, hreach, maxUint32]
    · simp [eligible, hhealthy]

end Envelope

/-! ## Soundness of the choice -/

/-- The backends of a port, of which there is at least one. -/
structure Listing where
  head : View
  tail : List View
  distinct : ((head :: tail).map View.ref).Nodup

/-- The backends in their order. -/
def Listing.views (l : Listing) : List View := l.head :: l.tail

/-- The result of a call fits the backends and the state that it leaves. -/
structure SoundChoice (l : Listing) (result : Option Nat × Scheduler) : Prop where
  choice : (∃ v ∈ l.views, v.healthy = true) →
    ∃ v ∈ l.views, result.1 = some v.ref ∧ v.healthy = true ∧ ¬ Outside l.views v
  count : (l.views.filter fun v => (result.2.paths v.ref).active).length = result.2.activePaths
  returned : ∃ v ∈ l.views, result.1 = some v.ref ∧ (result.2.paths v.ref).active = true
  idle : ∀ v ∈ l.views, (result.2.paths v.ref).active = false →
    (result.2.paths v.ref).virtualFinishNS = 0
  preferred : result.2.preferred = result.1

section Choice

variable {l : Listing} {s : Scheduler}

/-- The number of the marked backends, from a list of their references. -/
theorem Listing.count_active {refs : List Nat} (hnodup : refs.Nodup)
    (hsub : refs ⊆ l.views.map View.ref)
    (hmarked : ∀ v ∈ l.views, (s.paths v.ref).active = true ↔ v.ref ∈ refs) :
    (l.views.filter fun v => (s.paths v.ref).active).length = refs.length := by
  have hsame : ((l.views.filter fun v => (s.paths v.ref).active).map View.ref).Perm refs := by
    refine (perm_ext_iff_of_nodup ?_ hnodup).mpr fun ref => ?_
    · exact l.distinct.sublist (filter_sublist.map View.ref)
    · constructor
      · intro hfound
        obtain ⟨v, hfilter, rfl⟩ := mem_map.mp hfound
        obtain ⟨hlisted, hactive⟩ := mem_filter.mp hfilter
        exact (hmarked v hlisted).mp hactive
      · intro hlisted
        obtain ⟨v, hfound, rfl⟩ := mem_map.mp (hsub hlisted)
        exact mem_map_of_mem (mem_filter.mpr ⟨hfound, (hmarked v hfound).mpr hlisted⟩)
  simpa using hsame.length_eq

variable {v : View}

/-- One path alone. -/
theorem single_sound (hfound : v ∈ l.views)
    (hchoice : (∃ w ∈ l.views, w.healthy = true) → v.healthy = true ∧ ¬ Outside l.views v) :
    SoundChoice l (some v.ref, s.single l.views v.ref) := by
  have hpaths : ∀ w ∈ l.views, (s.single l.views v.ref).paths w.ref = ⟨w.ref = v.ref, 0⟩ := by
    intro w hlisted
    simp [Scheduler.single, Scheduler.paths_store, mem_map_of_mem hlisted]
  refine ⟨fun hhealthy => ⟨v, hfound, rfl, hchoice hhealthy⟩, ?_, ⟨v, hfound, rfl, ?_⟩, ?_, rfl⟩
  · have hlisted : v.ref ∈ l.views.map View.ref := mem_map_of_mem hfound
    exact l.count_active (nodup_singleton v.ref) (by simpa using hlisted) fun w hlisted => by
      simp [hpaths w hlisted]
  · simp [hpaths v hfound]
  · intro w hlisted _
    rw [hpaths w hlisted]

variable {cands : List BackendCandidate} {incomingBytes : Nat}

/-- The references of the sorted candidates are those of the eligible backends. -/
theorem mem_sorted_iff (hsorted : sortCandidates (candidates s l.views incomingBytes) = cands)
    (hfound : v ∈ l.views) : v.ref ∈ cands.map (·.backend.ref) ↔ eligible l.views v = true := by
  have hperm := (sortCandidates_perm (candidates s l.views incomingBytes)).map (·.backend.ref)
  rw [hsorted, map_ref_candidates] at hperm
  rw [hperm.mem_iff]
  constructor
  · intro hlisted
    obtain ⟨w, hfilter, hsame⟩ := mem_map.mp hlisted
    obtain ⟨hfoundW, heligible⟩ := mem_filter.mp hfilter
    rwa [inj_on_of_nodup_map l.distinct hfoundW hfound hsame] at heligible
  · exact fun heligible => mem_map_of_mem (mem_filter.mpr ⟨hfound, heligible⟩)

theorem nodup_sorted (hsorted : sortCandidates (candidates s l.views incomingBytes) = cands) :
    (cands.map (·.backend.ref)).Nodup ∧ cands.map (·.backend.ref) ⊆ l.views.map View.ref := by
  have hperm := (sortCandidates_perm (candidates s l.views incomingBytes)).map (·.backend.ref)
  rw [hsorted, map_ref_candidates] at hperm
  have hsub : ((l.views.filter (eligible l.views)).map View.ref).Sublist (l.views.map View.ref) :=
    filter_sublist.map View.ref
  exact ⟨hperm.nodup_iff.mpr (l.distinct.sublist hsub), List.Subset.trans hperm.subset hsub.subset⟩

theorem candidate_view {c : BackendCandidate}
    (hsorted : sortCandidates (candidates s l.views incomingBytes) = cands) (hfound : c ∈ cands) :
    c.backend ∈ l.views ∧ c.backend.healthy = true ∧ ¬ Outside l.views c.backend := by
  have hcands : c ∈ candidates s l.views incomingBytes := by
    rw [← hsorted] at hfound
    exact (sortCandidates_perm _).mem_iff.mp hfound
  obtain ⟨v, hfilter, rfl⟩ := mem_map.mp hcands
  obtain ⟨hlisted, heligible⟩ := mem_filter.mp hfilter
  refine ⟨hlisted, ?_, not_outside_of_eligible heligible⟩
  simp only [eligible, Bool.and_eq_true] at heligible
  exact heligible.1

theorem sticky_mem (preferred : Option Nat) (first : BackendCandidate)
    (others : List BackendCandidate) :
    ∃ c ∈ first :: others, Scheduler.sticky preferred first (first :: others) = c.backend.ref := by
  unfold Scheduler.sticky
  split
  · exact ⟨first, mem_cons_self, rfl⟩
  · split
    · exact ⟨first, mem_cons_self, rfl⟩
    · rename_i c hfound
      split
      · have hsame := find?_some hfound
        simp only [decide_eq_true_eq] at hsame
        exact ⟨c, mem_of_find?_eq_some hfound, hsame.symm⟩
      · exact ⟨first, mem_cons_self, rfl⟩

theorem paths_cleared (hfound : v ∈ l.views) :
    (s.cleared l.views).paths v.ref =
      if eligible l.views v = true then s.paths v.ref else Scheduler.idle := by
  rw [Scheduler.cleared, Scheduler.paths_store]
  by_cases heligible : eligible l.views v = true
  · rw [if_pos heligible, if_neg]
    intro hlisted
    obtain ⟨w, hfilter, hsame⟩ := mem_map.mp hlisted
    obtain ⟨hfoundW, hrejected⟩ := mem_filter.mp hfilter
    rw [inj_on_of_nodup_map l.distinct hfoundW hfound hsame, heligible] at hrejected
    cases hrejected
  · rw [if_neg heligible, if_pos]
    exact mem_map_of_mem (mem_filter.mpr ⟨hfound, by simpa using heligible⟩)

section Dispatch

variable {first : BackendCandidate} {others : List BackendCandidate} {incomingBytes : Nat}

/-- A path that is not in front has been sorted behind the active set or was not eligible. -/
theorem dispatch_idle
    (hsorted : sortCandidates (candidates s l.views incomingBytes) = first :: others) (n : Nat)
    {v : View} (hfound : v ∈ l.views)
    (hout : v.ref ∉ (first :: others.take n).map (·.backend.ref)) :
    ((s.cleared l.views).dispatch first (others.take n) (others.drop n)
      incomingBytes).2.paths v.ref = Scheduler.idle := by
  obtain ⟨-, -, -, -, -, -, hunmarked⟩ :=
    (s.cleared l.views).dispatch_spec first (others.take n) (others.drop n) incomingBytes
  rw [hunmarked v.ref hout]
  split
  · rfl
  · rename_i hnotBack
    rw [paths_cleared hfound, if_neg]
    intro heligible
    have hlisted := (mem_sorted_iff hsorted hfound).mpr heligible
    rw [← take_append_drop n others, ← cons_append, map_append,
      mem_append] at hlisted
    exact hlisted.elim hout hnotBack

/-- The paths in front are the active set. -/
theorem dispatch_active_iff
    (hsorted : sortCandidates (candidates s l.views incomingBytes) = first :: others) (n : Nat)
    {v : View} (hfound : v ∈ l.views) :
    (((s.cleared l.views).dispatch first (others.take n) (others.drop n)
      incomingBytes).2.paths v.ref).active = true ↔
        v.ref ∈ (first :: others.take n).map (·.backend.ref) := by
  obtain ⟨-, -, -, -, -, hmarked, -⟩ :=
    (s.cleared l.views).dispatch_spec first (others.take n) (others.drop n) incomingBytes
  refine ⟨fun hactive => ?_, hmarked v.ref⟩
  by_contra hout
  rw [dispatch_idle hsorted n hfound hout] at hactive
  cases hactive

/-- Several paths. -/
theorem dispatch_sound
    (hsorted : sortCandidates (candidates s l.views incomingBytes) = first :: others) (n : Nat) :
    SoundChoice l ((s.cleared l.views).dispatch first (others.take n) (others.drop n)
      incomingBytes) := by
  obtain ⟨chosen, hmem, hresult, hpreferred, hnumber, hmarked, -⟩ :=
    (s.cleared l.views).dispatch_spec first (others.take n) (others.drop n) incomingBytes
  have hsub : (first :: others.take n).Sublist (first :: others) :=
    (take_sublist n others).cons_cons first
  obtain ⟨hnodup, hlisted⟩ := nodup_sorted hsorted
  have hnodupFront := hnodup.sublist (hsub.map (·.backend.ref))
  have hlistedFront := List.Subset.trans (hsub.map (·.backend.ref)).subset hlisted
  obtain ⟨hfound, hhealthy, hinside⟩ := candidate_view hsorted (hsub.subset hmem)
  refine ⟨fun _ => ⟨_, hfound, hresult, hhealthy, hinside⟩, ?_, ⟨_, hfound, hresult, ?_⟩, ?_, ?_⟩
  · rw [l.count_active hnodupFront hlistedFront fun v => dispatch_active_iff hsorted n, hnumber]
    simp
  · exact hmarked _ (mem_map_of_mem hmem)
  · intro v hfoundV hnotActive
    rw [dispatch_idle hsorted n hfoundV]
    · rfl
    · rw [← dispatch_active_iff hsorted n hfoundV, hnotActive]
      nofun
  · rw [hpreferred, hresult]

end Dispatch

/-- The fallback leaves no path active. -/
theorem not_sound_of_cleared (hnone : ∀ v ∈ l.views, eligible l.views v = false) :
    ¬ SoundChoice l ((s.cleared l.views).pickBackend l.head l.views) := by
  intro hsound
  obtain ⟨v, hfound, -, hactive⟩ := hsound.returned
  have hidle : ((s.cleared l.views).pickBackend l.head l.views).2.paths v.ref = Scheduler.idle := by
    show (s.cleared l.views).paths v.ref = _
    rw [paths_cleared hfound, hnone v hfound]
    rfl
  rw [hidle] at hactive
  cases hactive

theorem sorted_eq_nil_iff :
    sortCandidates (candidates s l.views incomingBytes) = [] ↔
      ∀ v ∈ l.views, eligible l.views v = false := by
  have hperm := sortCandidates_perm (candidates s l.views incomingBytes)
  rw [← length_eq_zero_iff, hperm.length_eq, length_eq_zero_iff]
  simp [candidates, filter_eq_nil_iff]

/-- A call for a list that is not empty. -/
theorem pickAdaptiveBackend_eq (s : Scheduler) (l : Listing)
    (pressure demandRate incomingBytes : Nat) :
    s.pickAdaptiveBackend l.views pressure demandRate incomingBytes =
      if l.views.all (fun v => !v.healthy) then (some l.head.ref, s.single l.views l.head.ref)
      else
        match sortCandidates (candidates s l.views incomingBytes) with
        | [] => (s.cleared l.views).pickBackend l.head l.views
        | first :: others =>
          let active := adaptiveActivePathTarget pressure demandRate (others.length + 1)
          if active = 1 then
            let chosen := Scheduler.sticky s.preferred first (first :: others)
            (some chosen, (s.cleared l.views).single l.views chosen)
          else
            (s.cleared l.views).dispatch first (others.take (active - 1))
              (others.drop (active - 1)) incomingBytes := rfl

/-- The choice is sound, and leaves the active set and the preference as it says, if and only if not
every healthy path has been measured with the greatest round-trip time that can be stored. -/
theorem choice_sound_iff (s : Scheduler) (l : Listing) (pressure demandRate incomingBytes : Nat) :
    SoundChoice l (s.pickAdaptiveBackend l.views pressure demandRate incomingBytes) ↔
      ¬ Saturated l.views := by
  rw [pickAdaptiveBackend_eq]
  by_cases hhealthy : ∃ v ∈ l.views, v.healthy = true
  · rw [if_neg (by simpa using hhealthy)]
    split
    · rename_i hsorted
      have hnone := sorted_eq_nil_iff.mp hsorted
      exact iff_of_false (not_sound_of_cleared hnone)
        (not_not_intro ((saturated_iff hhealthy).mp hnone))
    · rename_i first others hsorted
      have hreached : ¬ Saturated l.views := by
        rw [← saturated_iff hhealthy, ← sorted_eq_nil_iff, hsorted]
        nofun
      refine iff_of_true ?_ hreached
      dsimp only
      split
      · obtain ⟨c, hmem, hchosen⟩ := sticky_mem s.preferred first others
        obtain ⟨hfound, hspec⟩ := candidate_view hsorted hmem
        rw [hchosen]
        exact single_sound hfound fun _ => hspec
      · exact dispatch_sound hsorted _
  · rw [if_pos (by simpa using hhealthy)]
    exact iff_of_true (single_sound mem_cons_self fun hsome => absurd hsome hhealthy)
      fun hsaturated => hhealthy hsaturated.1

end Choice

/-- A path that answers after the greatest round-trip time that can be stored. -/
def slowView : View where
  ref := 0
  queueLen := 0
  queueCap := 256
  rttCache := some 4294967295
  rateBytesPerSec := 1000
  queuedBytes := 0
  carryPending := false

/-- The only path is healthy and is returned, but it is not marked active. -/
theorem greatest_rtt_not_active :
    ∃ s : Scheduler,
      (s.pickAdaptiveBackend [slowView] 0 0 100).1 = some 0 ∧
      ((s.pickAdaptiveBackend [slowView] 0 0 100).2.paths 0).active = false ∧
      ¬ SoundChoice ⟨slowView, [], by decide⟩ (s.pickAdaptiveBackend [slowView] 0 0 100) := by
  refine ⟨⟨fun _ => ⟨true, 0⟩, none, 1⟩, by decide, by decide, fun hsound => ?_⟩
  exact absurd hsound.count (by decide)

end TlsVpn.Port
