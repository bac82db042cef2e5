import TlsVpn.Client.Policy
import TlsVpn.Lib.Run

/-!
# The record of what has been installed

Translation of `installPolicyRouting` with its bookkeeping and of the cleanup at the end of
`Client.Run`. The record compares two specs without their gateways, so a spec that comes back with
another gateway after a different one is not entered again. `nothing_left_behind` excludes that
another call follows before the gateway is on record; `returning_spec_left_behind` is such a run.
-/

namespace TlsVpn.Client

open Lib List

/-- The fields of the client that `prMu` protects, with the kernel. -/
structure PolicyClient where
  prMark : Int
  prGwV4 : String
  prGwV6 : String
  prExtra : List String
  prSrc : List SourceRule
  prInstalled : List PolicyRoutingSpec
  prOK : Bool
  prErr : String
  kernel : Kernel

/-- The specs describe the same kernel objects. Gateways and the priority of the mark are not
compared. -/
def samePolicySpec (a b : PolicyRoutingSpec) : Bool :=
  a.mark = b.mark && a.extra = b.extra && a.sourceRules = b.sourceRules

/-- Some entry describes the same objects. -/
def containsPolicySpec (specs : List PolicyRoutingSpec) (spec : PolicyRoutingSpec) : Bool :=
  specs.any (samePolicySpec · spec)

/-- Entries that are there already are kept as they are. -/
def mergePolicySpecs (dst src : List PolicyRoutingSpec) : List PolicyRoutingSpec :=
  src.foldl (fun dst s => if specEmpty s || containsPolicySpec dst s then dst else dst ++ [s]) dst

namespace PolicyClient

/-- Nothing has been installed. -/
def new (kernel : Kernel) : PolicyClient where
  prMark := 0
  prGwV4 := ""
  prGwV6 := ""
  prExtra := []
  prSrc := []
  prInstalled := []
  prOK := false
  prErr := ""
  kernel := kernel

/-- The spec of the last call. -/
def installedSpecFor (c : PolicyClient) : Option PolicyRoutingSpec :=
  if c.prMark ≤ 0 ∧ c.prSrc = [] then none
  else some
    { mark := c.prMark
      priority := 0
      gwV4 := c.prGwV4
      gwV6 := c.prGwV6
      extra := c.prExtra
      sourceRules := c.prSrc }

/-- The spec that is in the kernel, with the gateways of the call, if the call is for the same
objects. -/
def reinstalled (c : PolicyClient) (spec : PolicyRoutingSpec) : Option PolicyRoutingSpec :=
  (c.installedSpecFor.filter (samePolicySpec · spec)).map fun snap =>
    { snap with gwV4 := spec.gwV4, gwV6 := spec.gwV6 }

/-- The record after a call. -/
def recorded (c : PolicyClient) (spec : PolicyRoutingSpec) : List PolicyRoutingSpec :=
  let installed := c.prInstalled ++ (c.reinstalled spec).toList
  if containsPolicySpec installed spec then installed else installed ++ [spec]

/-- A call for the same objects first removes them. -/
def installPolicyRouting (h : Host) (tapName : String) (c : PolicyClient)
    (spec : PolicyRoutingSpec) : PolicyClient :=
  let cleaned := match c.reinstalled spec with
    | some snap => cleanPolicyRouting h tapName snap c.kernel
    | none => c.kernel
  let result := setupPolicyRouting h tapName spec cleaned
  { prMark := spec.mark
    prGwV4 := spec.gwV4
    prGwV6 := spec.gwV6
    prExtra := spec.extra
    prSrc := spec.sourceRules
    prInstalled := c.recorded spec
    prOK := result.1.isNone
    prErr := (result.1.map SetupError.message).getD ""
    kernel := result.2 }

/-- The cleanup at the end of `Run`, with the spec of the configuration that is live then. -/
def exit (h : Host) (tapName : String) (c : PolicyClient) (live : PolicyRoutingSpec) :
    PolicyClient :=
  let installed := c.prInstalled ++ c.installedSpecFor.toList
  { c with
    prInstalled := []
    kernel := (mergePolicySpecs installed [live]).foldl
      (fun k spec => cleanPolicyRouting h tapName spec k) c.kernel }

/-- A call of the connection that has been assigned its gateways. -/
def step (h : Host) (tapName : String) (c : PolicyClient) (spec : PolicyRoutingSpec) :
    Option PolicyClient :=
  some (c.installPolicyRouting h tapName spec)

/-- Every gateway that is in use is on record for its spec. -/
def Recorded (c : PolicyClient) : Prop :=
  ∀ current ∈ c.installedSpecFor, ∀ family ∈ [Family.v4, .v6],
    current.gateway family = "" ∨
      ∃ s ∈ c.prInstalled, samePolicySpec s current ∧ s.gateway family = current.gateway family

instance (c : PolicyClient) : Decidable c.Recorded :=
  inferInstanceAs (Decidable (∀ _ ∈ _, _))

/-- No rule and no route that has been installed is in the kernel. -/
structure NothingLeft (k : Kernel) : Prop where
  rules : ∀ family r, (family, r) ∈ k.added → r ∉ k.rules family
  routes : ∀ route ∈ k.replaced, k.routes route.table route.dst ≠ some route

end PolicyClient

/-! ## What a call may install -/

section Installing

variable {h : Host} {link : Nat} {spec : PolicyRoutingSpec}

/-- The rule may be added for the spec. -/
inductive Installs (h : Host) (spec : PolicyRoutingSpec) : Family → Rule → Prop where
  | mark (positive : 0 < spec.mark) (family : Family) : Installs h spec family spec.markRule
  | source (r : SourceRule) (source : Prefix) (found : r ∈ spec.sourceRules)
      (parsed : h.parseIPNet r.fromPrefix = some source) :
      Installs h spec source.family (r.rule source)

/-- The tables of a spec with the routes that are configured for them. -/
def PolicyRoutingSpec.tables (spec : PolicyRoutingSpec) : List (Int × List String) :=
  (spec.mark, spec.extra) :: spec.sourceRules.map fun r => (r.table, r.routes)

/-- The route may be written for the spec. -/
inductive Writes (h : Host) (link : Nat) (spec : PolicyRoutingSpec) : Route → Prop where
  | gateway (table : Int × List String) (found : table ∈ spec.tables) (family : Family) (gw : IP)
      (given : spec.gateway family ≠ "") (parsed : h.parseIP (spec.gateway family) = some gw) :
      Writes h link spec (defaultRoute link table.1 family gw)
  | extra (table : Int × List String) (found : table ∈ spec.tables) (raw : String)
      (listed : raw ∈ table.2) (route : Route)
      (parsed : parsePolicyRoute h link table.1 raw = .ok route) : Writes h link spec route

/-- Only rules and routes of the spec have been installed. -/
structure Grows (h : Host) (link : Nat) (spec : PolicyRoutingSpec) (k k' : Kernel) : Prop where
  added : ∀ family r, (family, r) ∈ k'.added → (family, r) ∈ k.added ∨ Installs h spec family r
  replaced : ∀ route ∈ k'.replaced, route ∈ k.replaced ∨ Writes h link spec route

namespace Grows

theorem refl (k : Kernel) : Grows h link spec k k where
  added _ _ := .inl
  replaced _ := .inl

theorem trans {k k' k'' : Kernel} (hfirst : Grows h link spec k k')
    (hsecond : Grows h link spec k' k'') : Grows h link spec k k'' where
  added family r hfound := (hsecond.added family r hfound).elim (hfirst.added family r) .inr
  replaced route hfound := (hsecond.replaced route hfound).elim (hfirst.replaced route) .inr

theorem of_shrinks {k k' : Kernel} (hshrinks : Kernel.Shrinks k k') : Grows h link spec k k' where
  added _ _ hfound := .inl (hshrinks.added ▸ hfound)
  replaced _ hfound := .inl (hshrinks.replaced ▸ hfound)

theorem ruleAdd (k : Kernel) {family : Family} {r : Rule} (hinstalls : Installs h spec family r) :
    Grows h link spec k (k.ruleAdd family r).2 := by
  have hnew : ∀ other r', (other, r') ∈ k.added ++ [(family, r)] →
      (other, r') ∈ k.added ∨ Installs h spec other r' := by
    intro other r' hfound
    rcases mem_append.mp hfound with hold | hlast
    · exact .inl hold
    · cases mem_singleton.mp hlast
      exact .inr hinstalls
  unfold Kernel.ruleAdd
  split
  · split
    · exact refl k
    · exact ⟨hnew, fun _ => .inl⟩
  · exact ⟨hnew, fun _ => .inl⟩

theorem replaceRoute (s : Kernel × List PolicyError) {route : Route}
    (hwrites : Writes h link spec route) : Grows h link spec s.1 (replaceRoute route s).1 where
  added _ _ := .inl
  replaced other hfound := by
    rcases mem_append.mp hfound with hold | hlast
    · exact .inl hold
    · cases mem_singleton.mp hlast
      exact .inr hwrites

/-- A loop over a list, one entry at a time. -/
theorem foldl {α : Type} {f : Kernel × List PolicyError → α → Kernel × List PolicyError}
    {l : List α} (hgrows : ∀ a ∈ l, ∀ s, Grows h link spec s.1 (f s a).1)
    (s : Kernel × List PolicyError) : Grows h link spec s.1 (l.foldl f s).1 := by
  induction l generalizing s with
  | nil => exact refl s.1
  | cons a l ih =>
    exact (hgrows a mem_cons_self s).trans
      (ih (fun b hfound => hgrows b (mem_cons_of_mem a hfound)) (f s a))

end Grows

theorem addRule_grows (hpositive : 0 < spec.mark) (family : Family)
    (s : Kernel × List PolicyError) : Grows h link spec s.1 (addRule spec family s).1 := by
  have hgrows : Grows h link spec s.1 (s.1.ruleAdd family spec.markRule).2 :=
    .ruleAdd s.1 (.mark hpositive family)
  unfold addRule
  split
  · rename_i hadded
    rwa [hadded] at hgrows
  · rename_i hadded
    rwa [hadded] at hgrows

theorem replaceDefault_grows (hpositive : 0 < spec.mark) (family : Family)
    (s : Kernel × List PolicyError) :
    Grows h link spec s.1 (replaceDefault h link spec family s).1 := by
  unfold replaceDefault
  split
  · exact .refl s.1
  · rename_i hgiven
    split
    · exact .refl s.1
    · rename_i gw hparsed
      exact (addRule_grows hpositive family s).trans
        (.replaceRoute _ (.gateway _ mem_cons_self family gw hgiven hparsed))

theorem replaceExtra_grows (hpositive : 0 < spec.mark) {raw : String} (hlisted : raw ∈ spec.extra)
    (s : Kernel × List PolicyError) :
    Grows h link spec s.1 (replaceExtra h link spec s raw).1 := by
  unfold replaceExtra
  split
  · exact .refl s.1
  · rename_i route hparsed
    exact (addRule_grows hpositive _ s).trans
      (.replaceRoute _ (.extra _ mem_cons_self raw hlisted route hparsed))

theorem setupFwmarkRoutes_grows (k : Kernel) :
    Grows h link spec k (setupFwmarkRoutes h link spec k).1 := by
  unfold setupFwmarkRoutes
  split
  · exact .refl k
  · rename_i hmark
    have hpositive : 0 < spec.mark := by omega
    have hv4 : Grows h link spec k (replaceDefault h link spec .v4 (k, [])).1 :=
      replaceDefault_grows hpositive .v4 (k, [])
    exact (hv4.trans (replaceDefault_grows hpositive .v6 _)).trans
      (.foldl (fun raw hlisted s => replaceExtra_grows hpositive hlisted s) _)

theorem SourceRule.mem_tables {r : SourceRule} (hfound : r ∈ spec.sourceRules) :
    (r.table, r.routes) ∈ spec.tables :=
  mem_cons_of_mem _ (mem_map_of_mem hfound)

theorem setupSourceRule_grows {r : SourceRule} (hfound : r ∈ spec.sourceRules)
    (s : Kernel × List PolicyError) :
    Grows h link spec s.1 (setupSourceRule h link spec s r).1 := by
  unfold setupSourceRule
  split
  · exact .refl s.1
  · rename_i source hparsed
    have hgrows : Grows h link spec s.1 (s.1.ruleAdd source.family (r.rule source)).2 :=
      .ruleAdd s.1 (.source r source hfound hparsed)
    dsimp only
    split
    · exact .refl s.1
    · rename_i hgiven
      split
      · exact .refl s.1
      · rename_i gw hgateway
        split
        · rename_i hadded
          rwa [hadded] at hgrows
        · rename_i k hadded
          rw [hadded] at hgrows
          have hdefault : Grows h link spec k
              (replaceRoute (defaultRoute link r.table source.family gw) (k, s.2)).1 :=
            .replaceRoute (k, s.2)
              (.gateway _ (SourceRule.mem_tables hfound) source.family gw hgiven hgateway)
          refine hgrows.trans (hdefault.trans (.foldl (fun raw hlisted s => ?_) _))
          unfold replaceSourceRoute
          split
          · exact .refl s.1
          · rename_i route hparsed
            exact .replaceRoute s
              (.extra _ (SourceRule.mem_tables hfound) raw hlisted route hparsed)

theorem setupSourceRuleRoutes_grows (k : Kernel) :
    Grows h link spec k (setupSourceRuleRoutes h link spec k).1 :=
  .foldl (fun _ hlisted s => setupSourceRule_grows hlisted s) (k, [])

theorem setupPolicyRouting_grows {tapName : String} (hfound : h.linkByName tapName = some link)
    (k : Kernel) : Grows h link spec k (setupPolicyRouting h tapName spec k).2 := by
  have hremoved : Grows h link spec k
      (removeSourceRules h spec.sourceRules (removePolicyRules spec.mark k)).2 :=
    .of_shrinks ((removePolicyRules_shrinks spec.mark k).trans
      (removeSourceRules_shrinks h spec.sourceRules _))
  unfold setupPolicyRouting
  split
  · exact .refl k
  · rw [hfound]
    dsimp only
    split
    · exact hremoved
    · exact hremoved.trans ((setupFwmarkRoutes_grows _).trans (setupSourceRuleRoutes_grows _))

end Installing

/-! ## What a cleanup removes -/

section Cleaning

variable {h : Host} {link : Nat} {spec : PolicyRoutingSpec} {tapName : String}

theorem delRoute_shrinks (table : Int) (family : Family) (k : Kernel) :
    Kernel.Shrinks k (delRoute h link spec table family k) := by
  unfold delRoute
  split
  · exact .refl k
  · split
    · exact .refl k
    · exact k.routeDel_shrinks _

theorem delExtra_shrinks (table : Int) (k : Kernel) (raw : String) :
    Kernel.Shrinks k (delExtra h link table k raw) := by
  unfold delExtra
  split
  · exact .refl k
  · exact k.routeDel_shrinks _

theorem delTable_shrinks (table : Int) (routes : List String) (k : Kernel) :
    Kernel.Shrinks k (delTable h link spec table routes k) :=
  ((delRoute_shrinks table .v4 k).trans (delRoute_shrinks table .v6 _)).trans
    (.foldl (delExtra_shrinks table) routes _)

/-- The cleanup takes one table after the other. -/
theorem cleanPolicyRouting_eq (hfound : h.linkByName tapName = some link)
    (hnonempty : specEmpty spec = false) (k : Kernel) :
    cleanPolicyRouting h tapName spec k =
      spec.tables.foldl (fun k table => delTable h link spec table.1 table.2 k)
        (removeSourceRules h spec.sourceRules (removePolicyRules spec.mark k)).2 := by
  simp [cleanPolicyRouting, hnonempty, hfound, PolicyRoutingSpec.tables, foldl_map]

theorem cleanPolicyRouting_shrinks (hfound : h.linkByName tapName = some link)
    (spec : PolicyRoutingSpec) (k : Kernel) :
    Kernel.Shrinks k (cleanPolicyRouting h tapName spec k) := by
  by_cases hnonempty : specEmpty spec = false
  · rw [cleanPolicyRouting_eq hfound hnonempty]
    exact ((removePolicyRules_shrinks spec.mark k).trans
      (removeSourceRules_shrinks h spec.sourceRules _)).trans
        (.foldl (fun k (table : Int × List String) => delTable_shrinks table.1 table.2 k) _ _)
  · rw [cleanPolicyRouting, if_pos (by simpa using hnonempty)]
    exact .refl k

variable {a b : PolicyRoutingSpec}

theorem samePolicySpec_iff :
    samePolicySpec a b = true ↔
      a.mark = b.mark ∧ a.extra = b.extra ∧ a.sourceRules = b.sourceRules := by
  simp [samePolicySpec, and_assoc]

theorem specEmpty_congr (hsame : samePolicySpec a b = true) : specEmpty a = specEmpty b := by
  obtain ⟨hmark, -, hsourceRules⟩ := samePolicySpec_iff.mp hsame
  rw [specEmpty, specEmpty, hmark, hsourceRules]

theorem tables_congr (hsame : samePolicySpec a b = true) : a.tables = b.tables := by
  obtain ⟨hmark, hextra, hsourceRules⟩ := samePolicySpec_iff.mp hsame
  rw [PolicyRoutingSpec.tables, PolicyRoutingSpec.tables, hmark, hextra, hsourceRules]

variable {family : Family} {r : Rule}

theorem specEmpty_of_installs (hinstalls : Installs h spec family r) : specEmpty spec = false := by
  cases hinstalls with
  | mark hpositive => simp [specEmpty, Int.not_le.mpr hpositive]
  | source r source hfound => simp [specEmpty, ne_nil_of_mem hfound]

variable {s : PolicyRoutingSpec}

/-- Cleaning a spec removes the rules of every spec for the same objects. -/
theorem clean_removes_rule (hfound : h.linkByName tapName = some link)
    (hsame : samePolicySpec s spec = true) (hinstalls : Installs h spec family r) (k : Kernel) :
    r ∉ (cleanPolicyRouting h tapName s k).rules family := by
  have hnonempty := (specEmpty_congr hsame).trans (specEmpty_of_installs hinstalls)
  obtain ⟨hmark, -, hsourceRules⟩ := samePolicySpec_iff.mp hsame
  rw [cleanPolicyRouting_eq hfound hnonempty]
  refine (Kernel.Shrinks.foldl (fun k (table : Int × List String) =>
    delTable_shrinks table.1 table.2 k) _ _).not_mem ?_
  cases hinstalls with
  | mark hpositive =>
    refine (removeSourceRules_shrinks h s.sourceRules _).not_mem ?_
    refine not_mem_removePolicyRules (by omega) k family ?_
    simp [selectsMark, hmark, PolicyRoutingSpec.markRule]
  | source r source hlisted hparsed =>
    rw [← hsourceRules] at hlisted
    refine Kernel.Shrinks.foldl_establishes (removeSourceRule_shrinks h)
      (fun _ _ hshrinks => hshrinks.not_mem) hlisted (fun k => ?_) _
    simp only [removeSourceRule, hparsed]
    exact k.not_mem_ruleDelWhere _ (by simp [selectsSource, SourceRule.rule])

variable {route : Route}

/-- Cleaning a table removes its routes. -/
theorem clean_removes_route (hfound : h.linkByName tapName = some link)
    (hnonempty : specEmpty s = false) {table : Int × List String} (hlisted : table ∈ s.tables)
    (hremoves : ∀ k, (delTable h link s table.1 table.2 k).routes route.table route.dst ≠
      some route) (k : Kernel) :
    (cleanPolicyRouting h tapName s k).routes route.table route.dst ≠ some route := by
  rw [cleanPolicyRouting_eq hfound hnonempty]
  exact Kernel.Shrinks.foldl_establishes
    (fun k (table : Int × List String) => delTable_shrinks table.1 table.2 k)
    (fun _ _ hshrinks => hshrinks.routes_ne) hlisted hremoves _

theorem delTable_removes_default {gw : IP} (hgiven : s.gateway family ≠ "")
    (hparsed : h.parseIP (s.gateway family) = some gw) (table : Int) (routes : List String)
    (k : Kernel) (hdefault : route = defaultRoute link table family gw) :
    (delTable h link s table routes k).routes route.table route.dst ≠ some route := by
  have hremoved : ∀ k, (delRoute h link s table family k).routes route.table route.dst ≠
      some route := by
    intro k
    simp only [delRoute, hgiven, if_false, hparsed, ← hdefault]
    exact k.routes_routeDel rfl rfl (.inr rfl)
  refine (Kernel.Shrinks.foldl (delExtra_shrinks table) routes _).routes_ne ?_
  cases family with
  | v4 => exact (delRoute_shrinks table .v6 _).routes_ne (hremoved k)
  | v6 => exact hremoved _

theorem delTable_removes_extra {table : Int} {routes : List String} {raw : String}
    (hlisted : raw ∈ routes) (hparsed : parsePolicyRoute h link table raw = .ok route)
    (k : Kernel) :
    (delTable h link s table routes k).routes route.table route.dst ≠ some route := by
  refine Kernel.Shrinks.foldl_establishes (delExtra_shrinks table)
    (fun _ _ hshrinks => hshrinks.routes_ne) hlisted (fun k => ?_) _
  simp only [delExtra, hparsed]
  exact k.routes_routeDel rfl rfl (.inr rfl)

/-! ## Specs on record -/

/-- The list has the spec, and has it with each of its gateways. -/
structure Covers (specs : List PolicyRoutingSpec) (spec : PolicyRoutingSpec) : Prop where
  same : ∃ s ∈ specs, samePolicySpec s spec = true
  gateway : ∀ family, spec.gateway family = "" ∨
    ∃ s ∈ specs, samePolicySpec s spec = true ∧ s.gateway family = spec.gateway family

variable {specs : List PolicyRoutingSpec}

theorem Covers.mono {specs' : List PolicyRoutingSpec} (hcovers : Covers specs spec)
    (hsub : specs ⊆ specs') : Covers specs' spec where
  same := hcovers.same.imp fun _ ⟨hfound, hsame⟩ => ⟨hsub hfound, hsame⟩
  gateway family := (hcovers.gateway family).imp_right
    fun ⟨s, hfound, hsame⟩ => ⟨s, hsub hfound, hsame⟩

theorem Covers.of_mem (hfound : s ∈ specs) (hsame : samePolicySpec s spec = true)
    (hgateway : s.gateway = spec.gateway) : Covers specs spec :=
  ⟨⟨s, hfound, hsame⟩, fun _ => .inr ⟨s, hfound, hsame, congrFun hgateway _⟩⟩

theorem samePolicySpec_self (spec : PolicyRoutingSpec) : samePolicySpec spec spec = true := by
  simp [samePolicySpec]

theorem samePolicySpec_trans {c : PolicyRoutingSpec} (hfirst : samePolicySpec a b = true)
    (hsecond : samePolicySpec b c = true) : samePolicySpec a c = true := by
  rw [samePolicySpec_iff] at hfirst hsecond ⊢
  exact ⟨hfirst.1.trans hsecond.1, hfirst.2.1.trans hsecond.2.1, hfirst.2.2.trans hsecond.2.2⟩

/-- A list that covers every spec of another one covers what the other one covers. -/
theorem Covers.trans {specs' : List PolicyRoutingSpec} (heach : ∀ s ∈ specs, Covers specs' s)
    (hcovers : Covers specs spec) : Covers specs' spec where
  same := by
    obtain ⟨s, hfound, hsame⟩ := hcovers.same
    obtain ⟨s', hfound', hsame'⟩ := (heach s hfound).same
    exact ⟨s', hfound', samePolicySpec_trans hsame' hsame⟩
  gateway family := by
    rcases hcovers.gateway family with hnone | ⟨s, hfound, hsame, hequal⟩
    · exact .inl hnone
    · rcases (heach s hfound).gateway family with hnone | ⟨s', hfound', hsame', hequal'⟩
      · exact .inl (hequal ▸ hnone)
      · exact .inr ⟨s', hfound', samePolicySpec_trans hsame' hsame, hequal'.trans hequal⟩

/-- Cleaning every spec of the list removes the rules of what it covers. -/
theorem Covers.removes_rule (hcovers : Covers specs spec)
    (hfound : h.linkByName tapName = some link) (hinstalls : Installs h spec family r)
    (k : Kernel) :
    r ∉ (specs.foldl (fun k s => cleanPolicyRouting h tapName s k) k).rules family := by
  obtain ⟨s, hlisted, hsame⟩ := hcovers.same
  exact Kernel.Shrinks.foldl_establishes (fun k s => cleanPolicyRouting_shrinks hfound s k)
    (fun _ _ hshrinks => hshrinks.not_mem) hlisted (clean_removes_rule hfound hsame hinstalls) k

/-- Cleaning every spec of the list removes the routes of what it covers. -/
theorem Covers.removes_route (hcovers : Covers specs spec)
    (hfound : h.linkByName tapName = some link) (hnonempty : specEmpty spec = false)
    (hwrites : Writes h link spec route) (k : Kernel) :
    (specs.foldl (fun k s => cleanPolicyRouting h tapName s k) k).routes route.table route.dst ≠
      some route := by
  obtain ⟨s, hlisted, hremoves⟩ : ∃ s ∈ specs, ∀ k,
      (cleanPolicyRouting h tapName s k).routes route.table route.dst ≠ some route := by
    cases hwrites with
    | gateway table htables family gw hgiven hparsed =>
      -- the gateway has to match, so the entry with this gateway is the one that removes it
      obtain ⟨s, hlisted, hsame, hequal⟩ := (hcovers.gateway family).resolve_left hgiven
      rw [← hequal] at hgiven hparsed
      exact ⟨s, hlisted, clean_removes_route hfound ((specEmpty_congr hsame).trans hnonempty)
        ((tables_congr hsame) ▸ htables)
        fun k => delTable_removes_default hgiven hparsed table.1 table.2 k rfl⟩
    | extra table htables raw htable _ hparsed =>
      obtain ⟨s, hlisted, hsame⟩ := hcovers.same
      exact ⟨s, hlisted, clean_removes_route hfound ((specEmpty_congr hsame).trans hnonempty)
        ((tables_congr hsame) ▸ htables) (delTable_removes_extra htable hparsed)⟩
  exact Kernel.Shrinks.foldl_establishes (fun k s => cleanPolicyRouting_shrinks hfound s k)
    (fun _ _ hshrinks => hshrinks.routes_ne) hlisted hremoves k

end Cleaning

/-! ## Runs -/

namespace PolicyClient

variable {h : Host} {link : Nat} {tapName : String}

/-- What has been installed belongs to calls that the list covers, or is in no kernel object. -/
structure AccountedBy (h : Host) (link : Nat) (specs : List PolicyRoutingSpec) (k : Kernel) :
    Prop where
  added : ∀ family r, (family, r) ∈ k.added → ∃ spec, Covers specs spec ∧ Installs h spec family r
  replaced : ∀ route ∈ k.replaced, ∃ spec, Covers specs spec ∧ specEmpty spec = false ∧
    Writes h link spec route

/-- The specs that the cleanup would take now, apart from the live one. -/
def onRecord (c : PolicyClient) : List PolicyRoutingSpec :=
  c.prInstalled ++ c.installedSpecFor.toList

/-- What every call keeps. -/
structure Sound (h : Host) (link : Nat) (c : PolicyClient) : Prop where
  accounted : AccountedBy h link c.onRecord c.kernel
  current : ∀ current ∈ c.installedSpecFor, ∃ s ∈ c.prInstalled, samePolicySpec s current = true

variable {specs : List PolicyRoutingSpec} {k : Kernel}

theorem AccountedBy.mono {specs' : List PolicyRoutingSpec} (heach : ∀ s ∈ specs, Covers specs' s)
    (haccounted : AccountedBy h link specs k) :
    AccountedBy h link specs' k where
  added family r hfound :=
    (haccounted.added family r hfound).imp fun _ ⟨hcovers, hinstalls⟩ =>
      ⟨hcovers.trans heach, hinstalls⟩
  replaced route hfound :=
    (haccounted.replaced route hfound).imp fun _ ⟨hcovers, hwrites⟩ =>
      ⟨hcovers.trans heach, hwrites⟩

/-- A call that the list covers may be added. -/
theorem AccountedBy.grows {spec : PolicyRoutingSpec} {k' : Kernel}
    (haccounted : AccountedBy h link specs k) (hcovers : Covers specs spec)
    (hnonempty : specEmpty spec = false) (grows : Grows h link spec k k') :
    AccountedBy h link specs k' where
  added family r hfound := by
    rcases grows.added family r hfound with hold | hnew
    · exact haccounted.added family r hold
    · exact ⟨spec, hcovers, hnew⟩
  replaced route hfound := by
    rcases grows.replaced route hfound with hold | hnew
    · exact haccounted.replaced route hold
    · exact ⟨spec, hcovers, hnonempty, hnew⟩

theorem AccountedBy.of_shrinks {k' : Kernel} (haccounted : AccountedBy h link specs k)
    (hshrinks : Kernel.Shrinks k k') :
    AccountedBy h link specs k' where
  added family r hfound := haccounted.added family r (hshrinks.added ▸ hfound)
  replaced route hfound := haccounted.replaced route (hshrinks.replaced ▸ hfound)

variable {c : PolicyClient}

/-- The record alone covers what it covers together with the current spec. -/
theorem Recorded.covers (hrecorded : c.Recorded) (hcurrent : ∀ current ∈ c.installedSpecFor,
      ∃ s ∈ c.prInstalled, samePolicySpec s current = true) :
    ∀ s ∈ c.onRecord, Covers c.prInstalled s := by
  intro s hfound
  rcases mem_append.mp hfound with hentered | hlast
  · exact .of_mem hentered (samePolicySpec_self s) rfl
  · have hisCurrent : s ∈ c.installedSpecFor := by simpa using hlast
    refine ⟨hcurrent s hisCurrent, fun family => hrecorded s hisCurrent family ?_⟩
    cases family <;> simp

theorem subset_recorded (c : PolicyClient) (spec : PolicyRoutingSpec) :
    c.prInstalled ⊆ c.recorded spec := by
  intro s hfound
  unfold recorded
  dsimp only
  split
  · exact mem_append_left _ hfound
  · exact mem_append_left _ (mem_append_left _ hfound)

theorem exists_recorded (c : PolicyClient) (spec : PolicyRoutingSpec) :
    ∃ s ∈ c.recorded spec, samePolicySpec s spec = true := by
  unfold recorded
  dsimp only
  split
  · rename_i hcontained
    exact any_eq_true.mp hcontained
  · exact ⟨spec, mem_append_right _ (mem_singleton.mpr rfl), samePolicySpec_self spec⟩

/-- After a call its spec is the current one. -/
theorem installedSpecFor_install (c : PolicyClient) (spec : PolicyRoutingSpec) :
    (c.installPolicyRouting h tapName spec).installedSpecFor =
      if specEmpty spec then none else some { spec with priority := 0 } := by
  by_cases hempty : spec.mark ≤ 0 ∧ spec.sourceRules = []
  · simp [installedSpecFor, installPolicyRouting, specEmpty, hempty]
  · simp [installedSpecFor, installPolicyRouting, specEmpty, hempty]

/-- One call, with every gateway in use on record before it. -/
theorem Sound.install (hsound : Sound h link c) (hrecorded : c.Recorded)
    (hfound : h.linkByName tapName = some link) (spec : PolicyRoutingSpec) :
    Sound h link (c.installPolicyRouting h tapName spec) := by
  set c' := c.installPolicyRouting h tapName spec with hc
  have hinstalled : c'.prInstalled = c.recorded spec := rfl
  have hcurrent : c'.installedSpecFor = if specEmpty spec then none
      else some { spec with priority := 0 } := installedSpecFor_install c spec
  have hkept : AccountedBy h link c'.onRecord c.kernel := by
    refine hsound.accounted.mono fun s hlisted => ?_
    refine (hrecorded.covers hsound.current s hlisted).mono fun entry hentered => ?_
    exact mem_append_left _ (c.subset_recorded spec hentered)
  have hcleaned : ∃ k, Kernel.Shrinks c.kernel k ∧
      c'.kernel = (setupPolicyRouting h tapName spec k).2 := by
    simp only [hc, installPolicyRouting]
    cases c.reinstalled spec with
    | none => exact ⟨_, .refl _, rfl⟩
    | some snap => exact ⟨_, cleanPolicyRouting_shrinks hfound snap c.kernel, rfl⟩
  obtain ⟨k, hshrinks, hkernel⟩ := hcleaned
  constructor
  · rw [hkernel]
    by_cases hnonempty : specEmpty spec = false
    · have hcovers : Covers c'.onRecord spec := by
        refine .of_mem (s := { spec with priority := 0 }) ?_ (samePolicySpec_self _) ?_
        · simp [onRecord, hcurrent, hnonempty]
        · funext family
          cases family <;> rfl
      exact (hkept.of_shrinks hshrinks).grows hcovers hnonempty (setupPolicyRouting_grows hfound k)
    · simpa [setupPolicyRouting, hnonempty] using hkept.of_shrinks hshrinks
  · intro last hisCurrent
    obtain ⟨s, hentered, hsame⟩ := c.exists_recorded spec
    rw [hcurrent] at hisCurrent
    obtain ⟨_, rfl⟩ := of_blocked hisCurrent
    exact ⟨s, hentered, hsame⟩

theorem sound_new (kernel : Kernel) (hadded : kernel.added = [])
    (hreplaced : kernel.replaced = []) :
    Sound h link (new kernel) where
  accounted := ⟨by simp [new, hadded], by simp [new, hreplaced]⟩
  current := by simp [new, installedSpecFor]

/-- The cleanup takes every spec on record. -/
theorem subset_mergePolicySpecs (dst : List PolicyRoutingSpec) (live : PolicyRoutingSpec) :
    dst ⊆ mergePolicySpecs dst [live] := by
  intro s hfound
  simp only [mergePolicySpecs, foldl_cons, foldl_nil]
  split
  · exact hfound
  · exact mem_append_left _ hfound

theorem Sound.exit (hsound : Sound h link c) (hfound : h.linkByName tapName = some link)
    (live : PolicyRoutingSpec) : NothingLeft (c.exit h tapName live).kernel := by
  have hshrinks : Kernel.Shrinks c.kernel (c.exit h tapName live).kernel :=
    .foldl (fun k spec => cleanPolicyRouting_shrinks hfound spec k) _ _
  have hsub := subset_mergePolicySpecs c.onRecord live
  constructor
  · intro family r hlisted
    rw [hshrinks.added] at hlisted
    obtain ⟨spec, hcovers, hinstalls⟩ := hsound.accounted.added family r hlisted
    exact (hcovers.mono hsub).removes_rule hfound hinstalls c.kernel
  · intro route hlisted
    rw [hshrinks.replaced] at hlisted
    obtain ⟨spec, hcovers, hnonempty, hwrites⟩ := hsound.accounted.replaced route hlisted
    exact (hcovers.mono hsub).removes_route hfound hnonempty hwrites c.kernel

/-- Whatever has been installed is gone after the cleanup, if every gateway in use was on record
before each of the calls. -/
theorem nothing_left_behind (found : h.linkByName tapName = some link) (exclusive : Bool)
    (rules : Family → List Rule) (routes : Int → Prefix → Option Route)
    {specs : List PolicyRoutingSpec} {c : PolicyClient}
    (recorded : Along (step h tapName) (fun c _ => c.Recorded)
      (new (.start exclusive rules routes)) specs)
    (hrun : run (step h tapName) (new (.start exclusive rules routes)) specs = some c)
    (live : PolicyRoutingSpec) : NothingLeft (c.exit h tapName live).kernel := by
  have hsound : Sound h link c := by
    refine run_invariant (fun c spec next hsound recorded hstep => ?_)
      (sound_new (.start exclusive rules routes) rfl rfl) recorded hrun
    cases hstep
    exact hsound.install recorded found spec
  exact hsound.exit found live

/-- A spec for a mark with a gateway. -/
def sampleSpec (mark : Int) (gwV4 : String) : PolicyRoutingSpec where
  mark := mark
  priority := 0
  gwV4 := gwV4
  gwV6 := ""
  extra := ["10.1.0.0/16"]
  sourceRules := []

/-- A new gateway for the same mark, and then another mark. -/
def newGateway : List PolicyRoutingSpec :=
  [sampleSpec 100 "10.0.0.1", sampleSpec 100 "10.0.0.2", sampleSpec 200 "10.0.0.2"]

/-- The routes of both gateways are removed. -/
theorem new_gateway_cleaned : ∃ c,
    run (step sampleHost "tap0") (new (.bare false)) newGateway = some c ∧
    c.kernel.replaced.length = 6 ∧
    NothingLeft (c.exit sampleHost "tap0" (sampleSpec 200 "10.0.0.2")).kernel := by
  have hfound : sampleHost.linkByName "tap0" = some 4 := rfl
  have hrecorded : Along (step sampleHost "tap0") (fun c _ => c.Recorded) (new (.bare false))
      newGateway := by decide +kernel
  exact ⟨_, rfl, by decide +kernel, nothing_left_behind hfound false _ _ hrecorded rfl _⟩

/-- The first mark comes back with another gateway, which is not entered, and then goes again. -/
theorem returning_spec_left_behind : ∃ c,
    run (step sampleHost "tap0") (new (.bare false))
      [sampleSpec 100 "10.0.0.1", sampleSpec 200 "10.0.0.1", sampleSpec 100 "10.0.0.2",
        sampleSpec 200 "10.0.0.1"] = some c ∧
    ¬ NothingLeft (c.exit sampleHost "tap0" (sampleSpec 200 "10.0.0.1")).kernel := by
  refine ⟨_, rfl, fun hnothing => ?_⟩
  exact hnothing.routes (defaultRoute 4 100 .v4 ⟨.v4, 167772162⟩) (by decide +kernel)
    (by decide +kernel)

end PolicyClient

end TlsVpn.Client
