import Mathlib.Data.List.Nodup
import TlsVpn.Client.Policy

/-!
# The rule of the mark

`setupFwmarkRoutes` asks for the rule of the mark once for every gateway and once for every extra
route. The kernel refuses a rule that is there already, and accepts another one when it chooses the
priority. `mark_installed_iff` says when that goes well: no family is asked for twice, and no source
rule stops the installation before. With a gateway and an extra route of one family the second
request is refused, or leaves a second rule without a priority (`gateway_and_route_refused`), unlike
in `setupSourceRuleRoutes`, which asks once and then writes all routes.
-/

namespace TlsVpn.Client

open List

/-- The families that have a gateway, followed by the family of each extra route. -/
def PolicyRoutingSpec.families (h : Host) (link : Nat) (spec : PolicyRoutingSpec) : List Family :=
  [Family.v4, .v6].filter (fun family => spec.gateway family ≠ "") ++
    spec.extra.filterMap fun raw =>
      (parsePolicyRoute h link spec.mark raw).toOption.map fun route => route.dst.family

/-- The rule is one for the mark, and not for a source prefix. -/
def IsMarkRule (mark : Int) (r : Rule) : Bool := selectsMark mark r && r.src = none

/-- The errors that come from `setupFwmarkRoutes`. -/
def fwmarkErrors : Option SetupError → List PolicyError
  | some (.install fwmark _) => fwmark
  | _ => []

/-- The gateways are empty or addresses, and every extra route can be parsed. -/
structure PolicyRoutingSpec.Valid (h : Host) (link : Nat) (spec : PolicyRoutingSpec) : Prop where
  mark : 0 < spec.mark
  gateway : ∀ family, spec.gateway family = "" ∨ (h.parseIP (spec.gateway family)).isSome
  extra : ∀ raw ∈ spec.extra, (parsePolicyRoute h link spec.mark raw).isOk

/-- The part for the mark reports no error and leaves one rule in every family that has a gateway or
an extra route, and none in the other. -/
def MarkInstalled (h : Host) (tapName : String) (link : Nat) (spec : PolicyRoutingSpec)
    (k : Kernel) : Prop :=
  fwmarkErrors (setupPolicyRouting h tapName spec k).1 = [] ∧
    ∀ family, ((setupPolicyRouting h tapName spec k).2.rules family).countP
        (IsMarkRule spec.mark) = if family ∈ spec.families h link then 1 else 0

/-! ## Requests for the rule -/

section Requests

variable {h : Host} {link : Nat} {spec : PolicyRoutingSpec}

/-- The rules that the kernel holds after some requests for one family. -/
def PolicyRoutingSpec.held (spec : PolicyRoutingSpec) (requests : Nat) : Nat :=
  if spec.priority = 0 then requests else min requests 1

/-- The families in the list have been asked for, and the others have no rule of the mark. -/
structure Asked (spec : PolicyRoutingSpec) (asked : List Family)
    (s : Kernel × List PolicyError) : Prop where
  exclusive : s.1.exclusive = true
  rules : ∀ family, (s.1.rules family).filter (selectsMark spec.mark) =
    List.replicate (spec.held (asked.count family)) spec.markRule
  errors : s.2 = [] ↔ spec.priority = 0 ∨ asked.Nodup

/-- The rule names a priority if the policy does. -/
theorem markRule_priority : spec.markRule.priority ≠ none ↔ spec.priority ≠ 0 := by
  by_cases hzero : spec.priority = 0 <;> simp [PolicyRoutingSpec.markRule, hzero]

theorem selectsMark_markRule (spec : PolicyRoutingSpec) :
    selectsMark spec.mark spec.markRule = true := by
  simp [selectsMark, PolicyRoutingSpec.markRule]

/-- A rule that the request fits is one of the mark. -/
theorem selectsMark_of_fits {r : Rule} (hfits : spec.markRule.Fits r) :
    selectsMark spec.mark r = true := by
  obtain ⟨hmark, htable, -, -⟩ := hfits
  simp [selectsMark, ← hmark, ← htable, PolicyRoutingSpec.markRule]

variable {asked : List Family} {s : Kernel × List PolicyError}

/-- The kernel has the rule if its family has been asked for with a priority. -/
theorem Asked.exists_fits (hstate : Asked spec asked s) (family : Family) :
    (∃ existing ∈ s.1.rules family, spec.markRule.Fits existing) ↔
      spec.priority ≠ 0 ∧ family ∈ asked := by
  have hfiltered := hstate.rules family
  constructor
  · rintro ⟨existing, hfound, hfits⟩
    have hselected : existing ∈ (s.1.rules family).filter (selectsMark spec.mark) :=
      mem_filter.mpr ⟨hfound, selectsMark_of_fits hfits⟩
    have hgiven := markRule_priority.mp hfits.2.2.2.1
    refine ⟨hgiven, ?_⟩
    by_contra habsent
    rw [hfiltered, count_eq_zero.mpr habsent] at hselected
    simp [PolicyRoutingSpec.held] at hselected
  · rintro ⟨hgiven, hpresent⟩
    have hpositive := count_pos_iff.mpr hpresent
    have hselected : spec.markRule ∈ (s.1.rules family).filter (selectsMark spec.mark) := by
      rw [hfiltered, PolicyRoutingSpec.held, if_neg hgiven, Nat.min_eq_right hpositive]
      exact mem_singleton.mpr rfl
    exact ⟨spec.markRule, (mem_filter.mp hselected).1,
      Rule.fits_self (markRule_priority.mpr hgiven)⟩

/-- One more request. With a priority it is refused if the family has been asked for. -/
theorem Asked.addRule (hstate : Asked spec asked s) (family : Family) :
    Asked spec (asked ++ [family]) (addRule spec family s) := by
  by_cases hfits : spec.priority ≠ 0 ∧ family ∈ asked
  · obtain ⟨hgiven, hpresent⟩ := hfits
    have hsame : Client.addRule spec family s = (s.1, s.2 ++ [.ruleExists family]) := by
      simp [Client.addRule, Kernel.ruleAdd, hstate.exists_fits, hgiven, hpresent,
        hstate.exclusive]
    rw [hsame]
    refine ⟨hstate.exclusive, fun other => ?_, ?_⟩
    · rw [hstate.rules other]
      by_cases hequal : other = family
      · subst hequal
        have hpositive := count_pos_iff.mpr hpresent
        simp only [PolicyRoutingSpec.held, if_neg hgiven, count_append,
          count_singleton_self]
        congr 1
        omega
      · simp [count_append, Ne.symm hequal]
    · rw [nodup_append_comm]
      simp [hpresent, hgiven]
  · have hnew : Client.addRule spec family s =
        ({ s.1 with
            rules := Function.update s.1.rules family (s.1.rules family ++ [spec.markRule])
            added := s.1.added ++ [(family, spec.markRule)] }, s.2) := by
      simp [Client.addRule, Kernel.ruleAdd, hstate.exists_fits, hfits]
    -- the kernel holds one rule more: the first one, or another one with a fresh priority
    have hmore : spec.held (asked.count family + 1) = spec.held (asked.count family) + 1 := by
      by_cases hzero : spec.priority = 0
      · simp [PolicyRoutingSpec.held, hzero]
      · have hfirst : asked.count family = 0 :=
          count_eq_zero.mpr fun hpresent => hfits ⟨hzero, hpresent⟩
        simp [PolicyRoutingSpec.held, hzero, hfirst]
    rw [hnew]
    refine ⟨hstate.exclusive, fun other => ?_, ?_⟩
    · by_cases hequal : other = family
      · subst hequal
        simp [hstate.rules, selectsMark_markRule, count_append, hmore,
          replicate_succ']
      · simp [hequal, hstate.rules, count_append, Ne.symm hequal]
    · rw [hstate.errors, nodup_append_comm]
      by_cases hzero : spec.priority = 0
      · simp [hzero]
      · have hfirst : family ∉ asked := fun hpresent => hfits ⟨hzero, hpresent⟩
        simp [hfirst]

theorem Asked.replaceRoute (hstate : Asked spec asked s) (route : Route) :
    Asked spec asked (replaceRoute route s) :=
  ⟨hstate.exclusive, hstate.rules, hstate.errors⟩

theorem Asked.replaceDefault (hstate : Asked spec asked s) (hvalid : spec.Valid h link)
    (family : Family) :
    Asked spec (asked ++ [family].filter (fun family => spec.gateway family ≠ ""))
      (replaceDefault h link spec family s) := by
  by_cases hnone : spec.gateway family = ""
  · simpa [Client.replaceDefault, hnone] using hstate
  · obtain ⟨gw, hparsed⟩ : ∃ gw, h.parseIP (spec.gateway family) = some gw :=
      Option.isSome_iff_exists.mp ((hvalid.gateway family).resolve_left hnone)
    simpa [Client.replaceDefault, hnone, hparsed] using
      (hstate.addRule family).replaceRoute (defaultRoute link spec.mark family gw)

theorem Asked.extra (hstate : Asked spec asked s) (l : List String)
    (hparses : ∀ raw ∈ l, (parsePolicyRoute h link spec.mark raw).isOk) :
    Asked spec (asked ++ l.filterMap fun raw =>
        (parsePolicyRoute h link spec.mark raw).toOption.map fun route => route.dst.family)
      (l.foldl (replaceExtra h link spec) s) := by
  induction l generalizing asked s with
  | nil => simpa using hstate
  | cons raw l ih =>
    obtain ⟨route, hparsed⟩ : ∃ route, parsePolicyRoute h link spec.mark raw = .ok route := by
      have hok := hparses raw mem_cons_self
      cases hresult : parsePolicyRoute h link spec.mark raw with
      | error error => simp [hresult, Except.isOk, Except.toBool] at hok
      | ok route => exact ⟨route, rfl⟩
    have hstep : Asked spec (asked ++ [route.dst.family]) (replaceExtra h link spec s raw) := by
      simpa [replaceExtra, hparsed] using (hstate.addRule route.dst.family).replaceRoute route
    have hrest := ih hstep fun other hfound => hparses other (mem_cons_of_mem _ hfound)
    simpa [hparsed, Except.toOption] using hrest

/-- The state after the whole part for the mark. -/
theorem setupFwmarkRoutes_asked (hvalid : spec.Valid h link) {k : Kernel}
    (hexclusive : k.exclusive = true)
    (hremoved : ∀ family, (k.rules family).filter (selectsMark spec.mark) = []) :
    Asked spec (spec.families h link) (setupFwmarkRoutes h link spec k) := by
  have hmark := hvalid.mark
  have hstart : Asked spec [] (k, []) :=
    ⟨hexclusive, by simpa [PolicyRoutingSpec.held] using hremoved, by simp⟩
  have hgateways := (hstart.replaceDefault hvalid .v4).replaceDefault hvalid .v6
  rw [nil_append, ← filter_append] at hgateways
  rw [setupFwmarkRoutes, if_neg (by omega)]
  exact hgateways.extra spec.extra hvalid.extra

end Requests

/-! ## The rest of the installation -/

section SourcePart

variable {h : Host} {link : Nat} {spec : PolicyRoutingSpec} {mark : Int}

/-- A rule with a source prefix is no rule of the mark. -/
theorem filter_ruleAdd {m : Int} (k : Kernel) (family other : Family) {r : Rule}
    (hsource : r.src ≠ none) :
    ((k.ruleAdd family r).2.rules other).filter (IsMarkRule m) =
      (k.rules other).filter (IsMarkRule m) := by
  unfold Kernel.ruleAdd
  split
  · split <;> rfl
  · by_cases hsame : other = family
    · subst hsame
      simp [IsMarkRule, hsource]
    · simp [hsame]

theorem rules_replaceSourceRoute (r : SourceRule) (s : Kernel × List PolicyError) (raw : String) :
    (replaceSourceRoute h link r s raw).1.rules = s.1.rules := by
  unfold replaceSourceRoute
  split <;> rfl

theorem rules_foldl_replaceSourceRoute (r : SourceRule) (l : List String)
    (s : Kernel × List PolicyError) :
    (l.foldl (replaceSourceRoute h link r) s).1.rules = s.1.rules := by
  induction l generalizing s with
  | nil => rfl
  | cons raw l ih => rw [foldl_cons, ih, rules_replaceSourceRoute]

theorem filter_setupSourceRule (s : Kernel × List PolicyError) (r : SourceRule)
    (family : Family) :
    ((setupSourceRule h link spec s r).1.rules family).filter (IsMarkRule mark) =
      (s.1.rules family).filter (IsMarkRule mark) := by
  unfold setupSourceRule
  split
  · rfl
  · rename_i source _
    have hkept := filter_ruleAdd (m := mark) s.1 source.family family (r := r.rule source)
      (by simp [SourceRule.rule])
    dsimp only
    split
    · rfl
    · split
      · rfl
      · split
        · rename_i hadded
          rw [hadded] at hkept
          exact hkept
        · rename_i hadded
          rw [hadded] at hkept
          rw [rules_foldl_replaceSourceRoute]
          exact hkept

theorem filter_setupSourceRuleRoutes (k : Kernel) (family : Family) :
    ((setupSourceRuleRoutes h link spec k).1.rules family).filter (IsMarkRule mark) =
      (k.rules family).filter (IsMarkRule mark) := by
  have hrun : ∀ (l : List SourceRule) (s : Kernel × List PolicyError),
      ((l.foldl (setupSourceRule h link spec) s).1.rules family).filter (IsMarkRule mark) =
        (s.1.rules family).filter (IsMarkRule mark) := by
    intro l
    induction l with
    | nil => exact fun _ => rfl
    | cons r l ih => exact fun s => (ih _).trans (filter_setupSourceRule s r family)
  exact hrun spec.sourceRules (k, [])

end SourcePart

section Main

variable {h : Host} {tapName : String} {link : Nat} {spec : PolicyRoutingSpec} {k : Kernel}

/-- The rules of the mark in a list in which the rules that select it are known. -/
theorem countP_markRule {rules : List Rule} {n : Nat}
    (hfiltered : rules.filter (selectsMark spec.mark) = List.replicate n spec.markRule) :
    rules.countP (IsMarkRule spec.mark) = n := by
  have hsplit : rules.filter (IsMarkRule spec.mark) =
      (rules.filter (selectsMark spec.mark)).filter (fun r => r.src = none) := by
    rw [filter_filter]
    congr 1
    funext r
    simp [IsMarkRule, Bool.and_comm]
  rw [countP_eq_length_filter, hsplit, hfiltered]
  simp [PolicyRoutingSpec.markRule]

/-- No request is refused and every family has one rule, if and only if no family is asked for
twice. -/
theorem held_once_iff (asked : List Family) :
    ((spec.priority = 0 ∨ asked.Nodup) ∧
      ∀ family, spec.held (asked.count family) = if family ∈ asked then 1 else 0) ↔
      asked.Nodup := by
  constructor
  · rintro ⟨hzero | hnodup, hone⟩
    · rw [nodup_iff_count_le_one]
      intro family
      have hcount := hone family
      rw [PolicyRoutingSpec.held, if_pos hzero] at hcount
      split at hcount <;> omega
    · exact hnodup
  · intro hnodup
    refine ⟨.inr hnodup, fun family => ?_⟩
    rw [hnodup.count]
    by_cases hpresent : family ∈ asked <;> simp [PolicyRoutingSpec.held, hpresent]

/-- After the removals no rule selects the mark. -/
theorem filter_removed (hpositive : 0 < spec.mark) (family : Family) :
    ((removeSourceRules h spec.sourceRules (removePolicyRules spec.mark k)).2.rules family).filter
      (selectsMark spec.mark) = [] := by
  rw [filter_eq_nil_iff]
  intro r hfound hselects
  exact (removeSourceRules_shrinks h spec.sourceRules _).not_mem
    (not_mem_removePolicyRules hpositive k family hselects) hfound

theorem removeSourceRules_errors (rules : List SourceRule) :
    (removeSourceRules h rules k).1 = [] ↔ ∀ r ∈ rules, (h.parseIPNet r.fromPrefix).isSome := by
  simp [removeSourceRules, Option.ne_none_iff_isSome]

theorem specEmpty_of_mark (hpositive : 0 < spec.mark) : specEmpty spec = false := by
  simp [specEmpty, Int.not_le.mpr hpositive]

theorem markInstalled_of_stop (hpositive : 0 < spec.mark)
    (hfound : h.linkByName tapName = some link)
    (hstops : ¬ ∀ r ∈ spec.sourceRules, (h.parseIPNet r.fromPrefix).isSome) :
    MarkInstalled h tapName link spec k ↔ spec.families h link = [] := by
  have herrors := mt (removeSourceRules_errors (k := removePolicyRules spec.mark k) _).mp hstops
  have hcounts : ∀ family, ((setupPolicyRouting h tapName spec k).2.rules family).countP
      (IsMarkRule spec.mark) = 0 := by
    intro family
    simp only [setupPolicyRouting, specEmpty_of_mark hpositive, hfound, ne_eq, herrors,
      not_false_eq_true, if_true, Bool.false_eq_true, if_false]
    rw [countP_eq_zero]
    intro r hpresent
    have hselected : selectsMark spec.mark r = false := by
      simpa using filter_eq_nil_iff.mp (filter_removed hpositive family) r hpresent
    simp [IsMarkRule, hselected]
  constructor
  · rintro ⟨-, hcounted⟩
    rw [eq_nil_iff_forall_not_mem]
    intro family hasks
    have hone := hcounted family
    rw [hcounts, if_pos hasks] at hone
    cases hone
  · intro hnone
    refine ⟨?_, fun family => by simp [hcounts, hnone]⟩
    simp [setupPolicyRouting, specEmpty_of_mark hpositive, hfound, herrors, fwmarkErrors]

/-- In an exclusive kernel the mark is installed if no family occurs twice. -/
theorem markInstalled_of_run (hvalid : spec.Valid h link)
    (hfound : h.linkByName tapName = some link) (hexclusive : k.exclusive = true)
    (hparses : ∀ r ∈ spec.sourceRules, (h.parseIPNet r.fromPrefix).isSome) :
    MarkInstalled h tapName link spec k ↔ (spec.families h link).Nodup := by
  have herrors := (removeSourceRules_errors (k := removePolicyRules spec.mark k) _).mpr hparses
  set removed := removeSourceRules h spec.sourceRules (removePolicyRules spec.mark k) with hr
  have hkept : removed.2.exclusive = true :=
    (((removePolicyRules_shrinks spec.mark k).trans
      (removeSourceRules_shrinks h spec.sourceRules _)).exclusive).trans hexclusive
  have hstate := setupFwmarkRoutes_asked hvalid hkept (filter_removed hvalid.mark)
  set fwmark := setupFwmarkRoutes h link spec removed.2 with hf
  have hresult : setupPolicyRouting h tapName spec k =
      (if fwmark.2 = [] ∧ (setupSourceRuleRoutes h link spec fwmark.1).2 = [] then none
        else some (.install fwmark.2 (setupSourceRuleRoutes h link spec fwmark.1).2),
        (setupSourceRuleRoutes h link spec fwmark.1).1) := by
    simp [setupPolicyRouting, specEmpty_of_mark hvalid.mark, hfound, ← hr, herrors, ← hf]
  have hreported : fwmarkErrors (setupPolicyRouting h tapName spec k).1 = fwmark.2 := by
    rw [hresult]
    dsimp only
    split
    · rename_i hnone
      exact hnone.1.symm
    · rfl
  have hcounts : ∀ family, ((setupPolicyRouting h tapName spec k).2.rules family).countP
      (IsMarkRule spec.mark) = spec.held ((spec.families h link).count family) := by
    intro family
    rw [hresult, countP_eq_length_filter, filter_setupSourceRuleRoutes,
      ← countP_eq_length_filter]
    exact countP_markRule (hstate.rules family)
  simp only [MarkInstalled, hreported, hstate.errors, hcounts]
  exact held_once_iff _

/-- Installing a valid policy for a mark reports no error for it and leaves one rule in the families
that need one, if and only if every family is asked for at most once. -/
theorem mark_installed_iff (valid : spec.Valid h link) (found : h.linkByName tapName = some link)
    (exclusive : k.exclusive = true) :
    MarkInstalled h tapName link spec k ↔
      spec.families h link = [] ∨
        ((spec.families h link).Nodup ∧
          ∀ r ∈ spec.sourceRules, (h.parseIPNet r.fromPrefix).isSome) := by
  by_cases hparses : ∀ r ∈ spec.sourceRules, (h.parseIPNet r.fromPrefix).isSome
  · rw [markInstalled_of_run valid found exclusive hparses]
    constructor
    · exact fun hnodup => .inr ⟨hnodup, hparses⟩
    · rintro (hnone | ⟨hnodup, -⟩)
      · simp [hnone]
      · exact hnodup
  · rw [markInstalled_of_stop valid.mark found hparses]
    simp [hparses]

end Main

/-! ## A gateway and a route of the same family -/

/-- A mark with a gateway. -/
def markedSpec (priority : Nat) (extra : List String) : PolicyRoutingSpec where
  mark := 100
  priority := priority
  gwV4 := "10.0.0.1"
  gwV6 := ""
  extra := extra
  sourceRules := []

theorem markedSpec_valid (priority : Nat) (extra : List String)
    (hparses : ∀ raw ∈ extra, raw = "10.1.0.0/16") :
    (markedSpec priority extra).Valid sampleHost 4 where
  mark := show (0 : Int) < 100 by decide
  gateway family := by
    cases family with
    | v4 => exact .inr (show (sampleHost.parseIP "10.0.0.1").isSome = true by decide)
    | v6 => exact .inl rfl
  extra raw hfound := by
    rw [hparses raw hfound]
    show (parsePolicyRoute sampleHost 4 100 "10.1.0.0/16").isOk = true
    decide +kernel

/-- With the gateway alone the rule is installed. -/
theorem gateway_alone_installed :
    (markedSpec 500 []).Valid sampleHost 4 ∧
      MarkInstalled sampleHost "tap0" 4 (markedSpec 500 []) (.bare true) :=
  have hvalid := markedSpec_valid 500 [] (by simp)
  ⟨hvalid, (mark_installed_iff hvalid rfl rfl).mpr (.inr ⟨by decide, by decide⟩)⟩

/-- The gateway has its rule, and the extra route asks for it again. The request with a priority is
refused, and the one without leaves two rules. -/
theorem gateway_and_route_refused :
    ((markedSpec 500 ["10.1.0.0/16"]).Valid sampleHost 4 ∧
      (setupPolicyRouting sampleHost "tap0" (markedSpec 500 ["10.1.0.0/16"]) (.bare true)).1 =
        some (.install [.ruleExists .v4] []) ∧
      ¬ MarkInstalled sampleHost "tap0" 4 (markedSpec 500 ["10.1.0.0/16"]) (.bare true)) ∧
    (markedSpec 0 ["10.1.0.0/16"]).Valid sampleHost 4 ∧
      (setupPolicyRouting sampleHost "tap0" (markedSpec 0 ["10.1.0.0/16"]) (.bare true)).1 = none ∧
      ((setupPolicyRouting sampleHost "tap0" (markedSpec 0 ["10.1.0.0/16"])
        (.bare true)).2.rules .v4).countP (IsMarkRule 100) = 2 ∧
      ¬ MarkInstalled sampleHost "tap0" 4 (markedSpec 0 ["10.1.0.0/16"]) (.bare true) := by
  have hresult : (setupPolicyRouting sampleHost "tap0" (markedSpec 500 ["10.1.0.0/16"])
      (.bare true)).1 = some (.install [.ruleExists .v4] []) := by decide +kernel
  have htwo : ((setupPolicyRouting sampleHost "tap0" (markedSpec 0 ["10.1.0.0/16"])
      (.bare true)).2.rules .v4).countP (IsMarkRule 100) = 2 := by decide +kernel
  refine ⟨⟨markedSpec_valid _ _ (by simp), hresult, fun hinstalled => ?_⟩,
    markedSpec_valid _ _ (by simp), by decide +kernel, htwo, fun hinstalled => ?_⟩
  · have hnone := hinstalled.1
    rw [hresult] at hnone
    cases hnone
  · have hone := hinstalled.2 .v4
    rw [show (markedSpec 0 ["10.1.0.0/16"]).mark = 100 from rfl, htwo] at hone
    split at hone <;> cases hone

end TlsVpn.Client
