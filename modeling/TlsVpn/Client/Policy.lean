import TlsVpn.Client.Netlink
import TlsVpn.Lib.Bytes

/-!
# Policy routing

Translation of `route_spec.go` and of `setupPolicyRouting` and `cleanPolicyRouting` with what they
call. The parsers of addresses and the lookup of a link are fields of `Host`; every netlink call
succeeds, except that a rule that is there already may be refused.
-/

namespace TlsVpn.Client

open Lib

/-- What the client asks of the system it runs on. -/
structure Host where
  linkByName : String → Option Nat
  parseIP : String → Option IP
  ipString : IP → String
  /-- The network of `net.ParseCIDR`. -/
  parseCIDR : String → Option Prefix
  /-- The address with the length of its mask, of `netlink.ParseIPNet`. -/
  parseIPNet : String → Option Prefix

/-- A source rule of the settings. -/
structure SourceRule where
  fromPrefix : String
  table : Int
  priority : Int
  routes : List String
  deriving DecidableEq, Repr

/-- What one call installs. -/
structure PolicyRoutingSpec where
  mark : Int
  priority : Nat
  gwV4 : String
  gwV6 : String
  extra : List String
  sourceRules : List SourceRule
  deriving DecidableEq, Repr

/-- Empty if the family has none. -/
def PolicyRoutingSpec.gateway (spec : PolicyRoutingSpec) : Family → String
  | .v4 => spec.gwV4
  | .v6 => spec.gwV6

/-- The conversion `uint32(mark)`. -/
def uint32 (mark : Int) : Nat := (mark % 4294967296).toNat

/-! ## Extra routes -/

/-- Why an entry is no route. -/
inductive RouteSpecError where
  | empty
  | invalidPrefix (raw : String)
  | duplicateDev
  | noInterfaceName
  | unsupportedOption (option : String)
  deriving DecidableEq, Repr

/-- The texts of the source. -/
def RouteSpecError.message : RouteSpecError → String
  | .empty => "entry must not be empty"
  | .invalidPrefix raw => "invalid prefix " ++ raw.quote
  | .duplicateDev => "duplicate \"dev\" option"
  | .noInterfaceName => "\"dev\" requires an interface name"
  | .unsupportedOption option => "unsupported option " ++ option.quote

/-- A bare address stands for the route to the host. -/
def normalizePrefix (h : Host) (raw : String) : Except RouteSpecError String :=
  if (h.parseCIDR raw).isSome then .ok raw
  else
    match h.parseIP raw with
    | none => .error (.invalidPrefix raw)
    | some ip =>
      let bits := match ip.family with
        | .v4 => "32"
        | .v6 => "128"
      .ok (h.ipString ip ++ "/" ++ bits)

/-- The options after the prefix, with the device that has been read. -/
def parseOptions (dev : String) : List String → Except RouteSpecError String
  | [] => .ok dev
  | option :: rest =>
    if option = "dev" then
      if dev ≠ "" then .error .duplicateDev
      else
        match rest with
        | [] => .error .noInterfaceName
        | name :: rest => parseOptions name rest
    else .error (.unsupportedOption option)

/-- The prefix and the device. -/
def parseRouteSpec (h : Host) (raw : String) : Except RouteSpecError (String × String) :=
  match fields raw with
  | [] => .error .empty
  | first :: rest => do
      let address ← normalizePrefix h first
      let dev ← parseOptions "" rest
      return (address, dev)

/-- Why an entry gives no route of the link. -/
inductive RouteError where
  | spec (raw : String) (error : RouteSpecError)
  | devNotFound (raw dev : String)
  | invalidPrefix (raw address : String)
  deriving DecidableEq, Repr

/-- The texts of the source. -/
def RouteError.message : RouteError → String
  | .spec raw error => "extra route " ++ raw.quote ++ ": " ++ error.message
  | .devNotFound raw dev =>
    "extra route " ++ raw.quote ++ ": dev " ++ dev.quote ++ " not found: Link not found"
  | .invalidPrefix raw address =>
    "extra route " ++ raw.quote ++ ": invalid prefix " ++ address.quote

/-- Without a device the route goes through the link of the tunnel. -/
def parsePolicyRoute (h : Host) (link : Nat) (table : Int) (raw : String) :
    Except RouteError Route :=
  match parseRouteSpec h raw with
  | .error error => .error (.spec raw error)
  | .ok (address, dev) =>
    match if dev = "" then some link else h.linkByName dev with
    | none => .error (.devNotFound raw dev)
    | some linkIndex =>
      match h.parseCIDR address with
      | none => .error (.invalidPrefix raw address)
      | some dst => .ok { linkIndex, dst, gw := none, table }

/-! ## Removing the rules -/

/-- What the parts of a setup report. -/
inductive PolicyError where
  | ruleDelPrefix (fromPrefix : String)
  | ruleExists (family : Family)
  | invalidGateway (gateway : String)
  | extraRoute (error : RouteError)
  | sourcePrefix (fromPrefix : String)
  | sourceNoGateway (r : SourceRule) (family : Family)
  | sourceGateway (r : SourceRule) (family : Family) (gateway : String)
  | sourceRuleExists (r : SourceRule) (family : Family)
  | sourceRoute (r : SourceRule) (error : RouteError)
  deriving DecidableEq, Repr

/-- The name in the texts. -/
def Family.label : Family → String
  | .v4 => "IPv4"
  | .v6 => "IPv6"

/-- The text of `net.ParseCIDR` for a prefix it does not accept. -/
def invalidCIDR (address : String) : String := "invalid CIDR address: " ++ address

/-- The texts of the source. -/
def PolicyError.message : PolicyError → String
  | .ruleDelPrefix fromPrefix =>
    "rule del: invalid prefix " ++ fromPrefix.quote ++ ": " ++ invalidCIDR fromPrefix
  | .ruleExists family => "rule add (family=" ++ toString family.code ++ "): file exists"
  | .invalidGateway gateway => "route replace: invalid gateway " ++ gateway.quote
  | .extraRoute error => error.message
  | .sourcePrefix fromPrefix =>
    "source rule: invalid prefix " ++ fromPrefix.quote ++ ": " ++ invalidCIDR fromPrefix
  | .sourceNoGateway r family =>
    "source rule " ++ r.fromPrefix ++ " table " ++ toString r.table ++ ": no " ++
      family.label ++ " gateway offered"
  | .sourceGateway r family gateway =>
    "source rule " ++ r.fromPrefix ++ ": invalid " ++ family.label ++ " gateway " ++
      gateway.quote
  | .sourceRuleExists r family =>
    "rule add from " ++ r.fromPrefix ++ " table " ++ toString r.table ++ " (family=" ++
      toString family.code ++ "): file exists"
  | .sourceRoute r error => "source rule " ++ r.fromPrefix ++ ": " ++ error.message

/-- The rule selects the mark and its table, whatever its priority. -/
def selectsMark (mark : Int) (r : Rule) : Bool := r.mark = uint32 mark && r.table = mark

/-- The rules of a mark, in both families. -/
def removePolicyRules (mark : Int) (k : Kernel) : Kernel :=
  if mark ≤ 0 then k
  else [Family.v4, .v6].foldl (fun k family => k.ruleDelWhere family (selectsMark mark)) k

/-- The rule selects the prefix and the table of the source rule, whatever its priority. -/
def selectsSource (table : Int) (source : Prefix) (r : Rule) : Bool :=
  r.table = table && r.src = some source

/-- A prefix that cannot be parsed removes nothing. -/
def removeSourceRule (h : Host) (k : Kernel) (r : SourceRule) : Kernel :=
  match h.parseIPNet r.fromPrefix with
  | none => k
  | some source => k.ruleDelWhere source.family (selectsSource r.table source)

/-- An error does not keep the other rules from being removed. -/
def removeSourceRules (h : Host) (rules : List SourceRule) (k : Kernel) :
    List PolicyError × Kernel :=
  ((rules.filter (fun r => (h.parseIPNet r.fromPrefix).isNone)).map (.ruleDelPrefix ·.fromPrefix),
    rules.foldl (removeSourceRule h) k)

theorem removePolicyRules_shrinks (mark : Int) (k : Kernel) :
    Kernel.Shrinks k (removePolicyRules mark k) := by
  unfold removePolicyRules
  split
  · exact .refl k
  · exact .foldl (fun k family => k.ruleDelWhere_shrinks family _) _ k

theorem removeSourceRule_shrinks (h : Host) (k : Kernel) (r : SourceRule) :
    Kernel.Shrinks k (removeSourceRule h k r) := by
  unfold removeSourceRule
  split
  · exact .refl k
  · exact k.ruleDelWhere_shrinks _ _

theorem removeSourceRules_shrinks (h : Host) (rules : List SourceRule) (k : Kernel) :
    Kernel.Shrinks k (removeSourceRules h rules k).2 :=
  .foldl (removeSourceRule_shrinks h) rules k

/-- No rule of the mark is left in either family. -/
theorem not_mem_removePolicyRules {mark : Int} (hpositive : 0 < mark) (k : Kernel)
    (family : Family) {r : Rule} (hselects : selectsMark mark r = true) :
    r ∉ (removePolicyRules mark k).rules family := by
  rw [removePolicyRules, if_neg (by omega)]
  cases family with
  | v4 =>
    -- the second family is removed after the first one
    exact (Kernel.ruleDelWhere_shrinks _ .v6 _).not_mem (k.not_mem_ruleDelWhere .v4 hselects)
  | v6 => exact Kernel.not_mem_ruleDelWhere _ .v6 hselects

/-! ## Installing -/

/-- The rule that `setupFwmarkRoutes` asks for. -/
def PolicyRoutingSpec.markRule (spec : PolicyRoutingSpec) : Rule where
  mark := uint32 spec.mark
  table := spec.mark
  src := none
  priority := if spec.priority ≠ 0 then some spec.priority else none

/-- A rule that exists is an error. -/
def addRule (spec : PolicyRoutingSpec) (family : Family) (s : Kernel × List PolicyError) :
    Kernel × List PolicyError :=
  match s.1.ruleAdd family spec.markRule with
  | (true, k) => (k, s.2)
  | (false, k) => (k, s.2 ++ [.ruleExists family])

/-- The default route of a family. -/
def defaultRoute (link : Nat) (table : Int) (family : Family) (gw : IP) : Route where
  linkIndex := link
  dst := .default family
  gw := some gw
  table := table

/-- Replacing a route does not fail. -/
def replaceRoute (route : Route) (s : Kernel × List PolicyError) : Kernel × List PolicyError :=
  (s.1.routeReplace route, s.2)

/-- The default route of a family and the rule of the mark, if a gateway is set. -/
def replaceDefault (h : Host) (link : Nat) (spec : PolicyRoutingSpec) (family : Family)
    (s : Kernel × List PolicyError) : Kernel × List PolicyError :=
  if spec.gateway family = "" then s
  else
    match h.parseIP (spec.gateway family) with
    | none => (s.1, s.2 ++ [.invalidGateway (spec.gateway family)])
    | some gw => replaceRoute (defaultRoute link spec.mark family gw) (addRule spec family s)

/-- An extra route, and the rule of the mark in its family. -/
def replaceExtra (h : Host) (link : Nat) (spec : PolicyRoutingSpec)
    (s : Kernel × List PolicyError) (raw : String) : Kernel × List PolicyError :=
  match parsePolicyRoute h link spec.mark raw with
  | .error error => (s.1, s.2 ++ [.extraRoute error])
  | .ok route => replaceRoute route (addRule spec route.dst.family s)

/-- Without a mark there is nothing to install. -/
def setupFwmarkRoutes (h : Host) (link : Nat) (spec : PolicyRoutingSpec) (k : Kernel) :
    Kernel × List PolicyError :=
  if spec.mark ≤ 0 then (k, [])
  else
    spec.extra.foldl (replaceExtra h link spec)
      (replaceDefault h link spec .v6 (replaceDefault h link spec .v4 (k, [])))

/-- The rule that `setupSourceRuleRoutes` asks for. -/
def SourceRule.rule (r : SourceRule) (source : Prefix) : Rule where
  mark := 0
  table := r.table
  src := some source
  priority := if 0 < r.priority then some r.priority.toNat else none

/-- A route in the table of a source rule. -/
def replaceSourceRoute (h : Host) (link : Nat) (r : SourceRule) (s : Kernel × List PolicyError)
    (raw : String) : Kernel × List PolicyError :=
  match parsePolicyRoute h link r.table raw with
  | .error error => (s.1, s.2 ++ [.sourceRoute r error])
  | .ok route => replaceRoute route s

/-- The rule is asked for once, and the routes are only written if it has been added. -/
def setupSourceRule (h : Host) (link : Nat) (spec : PolicyRoutingSpec)
    (s : Kernel × List PolicyError) (r : SourceRule) : Kernel × List PolicyError :=
  match h.parseIPNet r.fromPrefix with
  | none => (s.1, s.2 ++ [.sourcePrefix r.fromPrefix])
  | some source =>
    let family := source.family
    if spec.gateway family = "" then (s.1, s.2 ++ [.sourceNoGateway r family])
    else
      match h.parseIP (spec.gateway family) with
      | none => (s.1, s.2 ++ [.sourceGateway r family (spec.gateway family)])
      | some gw =>
        match s.1.ruleAdd family (r.rule source) with
        | (false, k) => (k, s.2 ++ [.sourceRuleExists r family])
        | (true, k) =>
          r.routes.foldl (replaceSourceRoute h link r)
            (replaceRoute (defaultRoute link r.table family gw) (k, s.2))

/-- The source rules in turn, with the errors of all. -/
def setupSourceRuleRoutes (h : Host) (link : Nat) (spec : PolicyRoutingSpec) (k : Kernel) :
    Kernel × List PolicyError :=
  spec.sourceRules.foldl (setupSourceRule h link spec) (k, [])

/-- Where a setup fails. -/
inductive SetupError where
  | tapNotFound (tapName : String)
  | cleanup (errs : List PolicyError)
  | install (fwmark source : List PolicyError)
  deriving DecidableEq, Repr

/-- The texts of the source. -/
def SetupError.message : SetupError → String
  | .tapNotFound tapName => "tap " ++ tapName ++ " not found: Link not found"
  | .cleanup errs => "policy routing: " ++ "; ".intercalate (errs.map PolicyError.message)
  | .install fwmark source =>
    "policy routing: " ++ "; ".intercalate ((fwmark ++ source).map PolicyError.message)

/-- Nothing has to be installed. -/
def specEmpty (spec : PolicyRoutingSpec) : Bool := spec.mark ≤ 0 && spec.sourceRules.isEmpty

/-- The rules are removed before they are added again. A source prefix that cannot be parsed ends
the call after the removals. -/
def setupPolicyRouting (h : Host) (tapName : String) (spec : PolicyRoutingSpec) (k : Kernel) :
    Option SetupError × Kernel :=
  if specEmpty spec then (none, k)
  else
    match h.linkByName tapName with
    | none => (some (.tapNotFound tapName), k)
    | some link =>
      let removed := removeSourceRules h spec.sourceRules (removePolicyRules spec.mark k)
      if removed.1 ≠ [] then (some (.cleanup removed.1), removed.2)
      else
        let fwmark := setupFwmarkRoutes h link spec removed.2
        let source := setupSourceRuleRoutes h link spec fwmark.1
        (if fwmark.2 = [] ∧ source.2 = [] then none else some (.install fwmark.2 source.2),
          source.1)

/-! ## Cleaning -/

/-- The default route of a family, if a gateway is set. -/
def delRoute (h : Host) (link : Nat) (spec : PolicyRoutingSpec) (table : Int) (family : Family)
    (k : Kernel) : Kernel :=
  if spec.gateway family = "" then k
  else
    match h.parseIP (spec.gateway family) with
    | none => k
    | some gw => k.routeDel (defaultRoute link table family gw)

/-- An entry that cannot be parsed is passed over. -/
def delExtra (h : Host) (link : Nat) (table : Int) (k : Kernel) (raw : String) : Kernel :=
  match parsePolicyRoute h link table raw with
  | .error _ => k
  | .ok route => k.routeDel route

/-- The routes of one table. -/
def delTable (h : Host) (link : Nat) (spec : PolicyRoutingSpec) (table : Int)
    (routes : List String) (k : Kernel) : Kernel :=
  routes.foldl (delExtra h link table)
    (delRoute h link spec table .v6 (delRoute h link spec table .v4 k))

/-- Without the link nothing is removed. -/
def cleanPolicyRouting (h : Host) (tapName : String) (spec : PolicyRoutingSpec) (k : Kernel) :
    Kernel :=
  if specEmpty spec then k
  else
    match h.linkByName tapName with
    | none => k
    | some link =>
      let removed := (removeSourceRules h spec.sourceRules (removePolicyRules spec.mark k)).2
      spec.sourceRules.foldl (fun k r => delTable h link spec r.table r.routes k)
        (delTable h link spec spec.mark spec.extra removed)

/-! ## A host for concrete runs -/

/-- A host with one link, on which some addresses are in use. -/
def sampleHost : Host where
  linkByName name := if name = "tap0" then some 4 else none
  parseIP s := [("10.0.0.1", ⟨.v4, 167772161⟩), ("10.0.0.2", ⟨.v4, 167772162⟩)].lookup s
  ipString ip := if ip.value = 167772161 then "10.0.0.1" else "10.0.0.2"
  parseCIDR s := if s = "10.1.0.0/16" then some ⟨.v4, 167837696, 16⟩ else none
  parseIPNet s := if s = "10.1.0.0/16" then some ⟨.v4, 167837696, 16⟩ else none

/-- A kernel without rules and routes. -/
def Kernel.bare (exclusive : Bool) : Kernel := .start exclusive (fun _ => []) fun _ _ => none

end TlsVpn.Client
