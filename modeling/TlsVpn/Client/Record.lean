import Mathlib.Data.Finset.Card
import TlsVpn.Client.Install

/-!
# How the record grows

`installPolicyRouting` enters a spec into the record in two places. A spec that is not the current
one is entered if nothing on record describes the same objects; a spec that is the current one is
entered again in any case, with the gateways of the call. `length_record` counts the entries of a
sequence of calls exactly. A client that reconnects passes the same spec every time, so its record
grows with every connection (`reconnects_grow`). `record_bounded_iff` says when the different specs
bound the record: the repeated calls have to be made up for by new gateways.
-/

namespace TlsVpn.Client

open List

namespace PolicyRoutingSpec

/-- What `samePolicySpec` compares. -/
def objects (spec : PolicyRoutingSpec) : Int × List String × List SourceRule :=
  (spec.mark, spec.extra, spec.sourceRules)

/-- The objects with the gateways. -/
def withGateways (spec : PolicyRoutingSpec) :
    (Int × List String × List SourceRule) × String × String :=
  (spec.objects, spec.gwV4, spec.gwV6)

end PolicyRoutingSpec

theorem same_objects_iff {a b : PolicyRoutingSpec} :
    samePolicySpec a b = true ↔ a.objects = b.objects := by
  simp [samePolicySpec, PolicyRoutingSpec.objects, and_assoc]

/-- The number of different specs, gateways included. -/
def differentSpecs (specs : List PolicyRoutingSpec) : Nat :=
  (specs.map PolicyRoutingSpec.withGateways).toFinset.card

/-- The number of specs that differ by more than their gateways. -/
def differentObjects (specs : List PolicyRoutingSpec) : Nat :=
  (specs.map PolicyRoutingSpec.objects).toFinset.card

/-- A call that comes after one for the same objects. -/
def isRepeat (previous spec : PolicyRoutingSpec) : Bool :=
  !specEmpty previous && samePolicySpec previous spec

/-- How many calls repeat the one before. -/
def repeats : List PolicyRoutingSpec → Nat
  | previous :: spec :: rest => (isRepeat previous spec).toNat + repeats (spec :: rest)
  | _ => 0

/-- The client after a sequence of calls. -/
def PolicyClient.installAll (h : Host) (tapName : String) (c : PolicyClient)
    (specs : List PolicyRoutingSpec) : PolicyClient :=
  specs.foldl (fun c spec => c.installPolicyRouting h tapName spec) c

theorem differentObjects_append (specs : List PolicyRoutingSpec) (spec : PolicyRoutingSpec) :
    differentObjects (specs ++ [spec]) =
      differentObjects specs + if ∃ s ∈ specs, samePolicySpec s spec = true then 0 else 1 := by
  have hinsert : ((specs ++ [spec]).map PolicyRoutingSpec.objects).toFinset =
      insert spec.objects (specs.map PolicyRoutingSpec.objects).toFinset := by
    ext objects
    simp
  have hmem : spec.objects ∈ (specs.map PolicyRoutingSpec.objects).toFinset ↔
      ∃ s ∈ specs, samePolicySpec s spec = true := by
    simp only [mem_toFinset, mem_map, same_objects_iff]
  rw [differentObjects, hinsert, differentObjects]
  split
  · rename_i hold
    rw [Finset.insert_eq_self.mpr (hmem.mpr hold), Nat.add_zero]
  · rename_i hnew
    exact Finset.card_insert_of_notMem fun hfound => hnew (hmem.mp hfound)

theorem repeats_append (specs : List PolicyRoutingSpec) (spec : PolicyRoutingSpec) :
    repeats (specs ++ [spec]) =
      repeats specs + (specs.getLast?.any (isRepeat · spec)).toNat := by
  induction specs with
  | nil => rfl
  | cons first rest ih =>
    cases rest with
    | nil => simp [repeats]
    | cons second rest =>
      rw [cons_append, cons_append, repeats, repeats, ← cons_append, ih,
        getLast?_cons_cons, Nat.add_assoc]

namespace PolicyClient

variable {h : Host} {tapName : String} {c : PolicyClient}

/-- A call finds its spec current if the call before was for the same objects. -/
structure Counts (c : PolicyClient) (specs : List PolicyRoutingSpec) : Prop where
  current : ∀ spec, (c.reinstalled spec).isSome = specs.getLast?.any (isRepeat · spec)
  contained : ∀ spec, containsPolicySpec c.prInstalled spec = true ↔
    ∃ s ∈ specs, samePolicySpec s spec = true
  length : c.prInstalled.length = differentObjects specs + repeats specs

theorem counts_new (kernel : Kernel) : Counts (new kernel) [] where
  current _ := rfl
  contained spec := by simp [new, containsPolicySpec]
  length := rfl

theorem reinstalled_install (c : PolicyClient) (previous spec : PolicyRoutingSpec) :
    ((c.installPolicyRouting h tapName previous).reinstalled spec).isSome =
      isRepeat previous spec := by
  unfold reinstalled isRepeat
  rw [installedSpecFor_install]
  cases specEmpty previous with
  | true => rfl
  | false =>
    have hsame : samePolicySpec { previous with priority := 0 } spec =
        samePolicySpec previous spec := rfl
    cases hrepeat : samePolicySpec previous spec <;> simp [Option.filter, hsame, hrepeat]

/-- A spec that is installed again describes the objects of the call. -/
theorem same_reinstalled {snap spec : PolicyRoutingSpec} (hagain : c.reinstalled spec = some snap) :
    samePolicySpec snap spec = true := by
  obtain ⟨current, hcurrent, rfl⟩ := Option.map_eq_some_iff.mp hagain
  exact (Option.filter_eq_some_iff.mp hcurrent).2

/-- A call enters nothing but its own objects. -/
theorem mem_recorded {s spec : PolicyRoutingSpec} (hmem : s ∈ c.recorded spec) :
    s ∈ c.prInstalled ∨ samePolicySpec s spec = true := by
  have hinstalled : s ∈ c.prInstalled ++ (c.reinstalled spec).toList →
      s ∈ c.prInstalled ∨ samePolicySpec s spec = true := by
    intro hfound
    rcases mem_append.mp hfound with hold | hagain
    · exact .inl hold
    · exact .inr (same_reinstalled (Option.mem_toList.mp hagain))
  unfold recorded at hmem
  dsimp only at hmem
  split at hmem
  · exact hinstalled hmem
  · rcases mem_append.mp hmem with hfound | hnew
    · exact hinstalled hfound
    · rw [mem_singleton.mp hnew]
      exact .inr (samePolicySpec_self spec)

theorem contains_recorded (c : PolicyClient) (spec other : PolicyRoutingSpec) :
    containsPolicySpec (c.recorded spec) other = true ↔
      containsPolicySpec c.prInstalled other = true ∨ samePolicySpec spec other = true := by
  simp only [containsPolicySpec, any_eq_true]
  constructor
  · rintro ⟨s, hs, hsame⟩
    rcases mem_recorded hs with hold | hown
    · exact .inl ⟨s, hold, hsame⟩
    · exact .inr (same_objects_iff.mpr
        ((same_objects_iff.mp hown).symm.trans (same_objects_iff.mp hsame)))
  · rintro (⟨s, hs, hsame⟩ | hsame)
    · exact ⟨s, subset_recorded c spec hs, hsame⟩
    · obtain ⟨s, hs, hown⟩ := exists_recorded c spec
      exact ⟨s, hs, samePolicySpec_trans hown hsame⟩

/-- What a call adds to the record. -/
theorem length_recorded (c : PolicyClient) (spec : PolicyRoutingSpec) :
    (c.recorded spec).length = c.prInstalled.length + (c.reinstalled spec).isSome.toNat +
      if (c.reinstalled spec).isSome ∨ containsPolicySpec c.prInstalled spec then 0 else 1 := by
  unfold recorded
  cases hagain : c.reinstalled spec with
  | none =>
    cases hcontained : containsPolicySpec c.prInstalled spec <;> simp [hcontained]
  | some snap =>
    have hcontained : containsPolicySpec (c.prInstalled ++ [snap]) spec = true := by
      simp [containsPolicySpec, same_reinstalled hagain]
    simp [hcontained]

/-- One call. -/
theorem Counts.install {specs : List PolicyRoutingSpec} (hcounts : Counts c specs)
    (spec : PolicyRoutingSpec) :
    Counts (c.installPolicyRouting h tapName spec) (specs ++ [spec]) := by
  have hrecord : (c.installPolicyRouting h tapName spec).prInstalled = c.recorded spec := rfl
  refine ⟨fun other => ?_, fun other => ?_, ?_⟩
  · rw [reinstalled_install, getLast?_concat]
    rfl
  · rw [hrecord, contains_recorded, hcounts.contained]
    simp only [mem_append, mem_singleton, or_and_right, exists_or, exists_eq_left]
  · -- a repeated call has the objects of the call before, so it does not count as a new spec
    have hpassed : (c.reinstalled spec).isSome = true →
        ∃ s ∈ specs, samePolicySpec s spec = true := by
      intro hagain
      rw [hcounts.current] at hagain
      obtain ⟨last, hlast, hrepeat⟩ := (Option.any_eq_true _ _).mp hagain
      exact ⟨last, mem_of_getLast? hlast, (Bool.and_eq_true_iff.mp hrepeat).2⟩
    rw [hrecord, length_recorded, hcounts.length, differentObjects_append, repeats_append,
      ← hcounts.current]
    simp only [hcounts.contained, or_iff_right_of_imp hpassed]
    omega

/-- The record has an entry for every different spec and one for every repeated call. -/
theorem length_record (h : Host) (tapName : String) (kernel : Kernel)
    (specs : List PolicyRoutingSpec) :
    ((new kernel).installAll h tapName specs).prInstalled.length =
      differentObjects specs + repeats specs := by
  have hcounts : Counts ((new kernel).installAll h tapName specs) specs := by
    induction specs using List.reverseRecOn with
    | nil => exact counts_new kernel
    | append_singleton specs spec ih =>
      rw [installAll, foldl_append]
      exact ih.install spec
  exact hcounts.length

theorem differentObjects_le (specs : List PolicyRoutingSpec) :
    differentObjects specs ≤ differentSpecs specs := by
  have himage : (specs.map PolicyRoutingSpec.objects).toFinset =
      (specs.map PolicyRoutingSpec.withGateways).toFinset.image Prod.fst := by
    ext objects
    simp [PolicyRoutingSpec.withGateways]
  rw [differentObjects, himage]
  exact Finset.card_image_le

/-- The different specs bound the record exactly if no more calls are repeats than there are
gateways beyond the first ones of each spec. -/
theorem record_bounded_iff (h : Host) (tapName : String) (kernel : Kernel)
    (specs : List PolicyRoutingSpec) :
    ((new kernel).installAll h tapName specs).prInstalled.length ≤ differentSpecs specs ↔
      repeats specs ≤ differentSpecs specs - differentObjects specs := by
  have hle := differentObjects_le specs
  rw [length_record]
  omega

/-- The same spec at every reconnect. -/
theorem reconnects_grow :
    ¬ ((new (.bare false)).installAll sampleHost "tap0"
        (List.replicate 3 (sampleSpec 100 "10.0.0.1"))).prInstalled.length ≤
      differentSpecs (List.replicate 3 (sampleSpec 100 "10.0.0.1")) := by
  decide +kernel

end PolicyClient

end TlsVpn.Client
