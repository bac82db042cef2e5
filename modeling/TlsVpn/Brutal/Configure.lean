import TlsVpn.Brutal.Rates

/-!
# Switching a socket to TCP Brutal

Translation of `configureTCPBrutal` with `restoreCongestion` and `readBrutalParams`. The socket
operations of the source are an interface, and so they are here: functions on an arbitrary type of
sockets that may answer and fail as they like. `Faithful` says what they do to the part of a socket
that the kernel keeps. `configure_all_or_nothing` is the result for every such interface: a call
that does not report success leaves the algorithm as it was, and a call that does has switched it,
with parameters that were accepted or that belong to a lock rule.
-/

namespace TlsVpn.Brutal

open Lib

/-- An error of a socket operation, with the sentinel errors it wraps. -/
structure SocketError where
  text : String
  isLocked : Bool
  isNoVersion : Bool
  deriving DecidableEq, Repr

/-- The `brutalSocketOps` of the source. -/
structure BrutalSocketOps (Socket : Type) where
  setCongestion : String → Socket → Option SocketError × Socket
  getCongestion : Socket → (String × Option SocketError) × Socket
  getVersion : Socket → (UInt32 × Option SocketError) × Socket
  setParams : Bytes → Socket → Option SocketError × Socket
  getParams : Nat → Socket → (Bytes × Option SocketError) × Socket

/-- What a call reports. -/
structure BrutalApplyResult where
  attempted : Bool := false
  applied : Bool := false
  ruleManaged : Bool := false
  version : UInt32 := 0
  rateBps : UInt64 := 0
  rateMbps : UInt64 := 0
  cwndGain : UInt32 := 0
  groupID : UInt64 := 0
  error : String := ""
  deriving DecidableEq, Repr

section

variable {Socket : Type} (ops : BrutalSocketOps Socket)

/-- Brutal is not set again. -/
def restoreCongestion (previous : String) (s : Socket) : Socket :=
  if previous ≠ "" ∧ previous ≠ "brutal" then (ops.setCongestion previous s).2 else s

/-- From version 2 on the block has a group. -/
def readBrutalParams (version : UInt32) (s : Socket) :
    Except SocketError (UInt64 × UInt32 × UInt64) × Socket :=
  let size := if version ≥ brutalV2Version then 20 else 12
  match ops.getParams size s with
  | ((_, some err), s) => (.error err, s)
  | ((b, none), s) => ((decodeBrutalParamsBps b).mapError fun text => ⟨text, false, false⟩, s)

/-- An exit after the switch: the algorithm of before is set again. -/
def giveUp (previous : String) (result : BrutalApplyResult) (error : String) (s : Socket) :
    BrutalApplyResult × Socket :=
  ({ result with error := error }, restoreCongestion ops previous s)

/-- The end of a call that succeeds: report what the kernel says, if it can be read. -/
def reportParams (result : BrutalApplyResult) (rateBps : UInt64) (s : Socket) :
    BrutalApplyResult × Socket :=
  match readBrutalParams ops result.version s with
  | (.ok (actualRateBps, actualGain, actualGroup), s) =>
    ({ result with
        applied := true
        rateBps := actualRateBps
        cwndGain := actualGain
        groupID := actualGroup
        rateMbps := brutalBpsToMbps actualRateBps }, s)
  | (.error readErr, s) =>
    if result.ruleManaged && readErr.isLocked then
      -- the rule owns the parameters, which can be neither written nor read
      ({ result with
          applied := true
          rateBps := 0
          rateMbps := 0
          groupID := 0
          error := "TCP Brutal is active under a locked rule; " ++
            "actual rate is unavailable from this socket" }, s)
    else
      ({ result with
          applied := true
          rateBps := rateBps
          cwndGain := brutalDefaultCwndGain
          rateMbps := brutalBpsToMbps rateBps
          error := "TCP Brutal parameters applied but readback failed: " ++ readErr.text }, s)

/-- From the encoding of the parameters on. -/
def applyParams (previous : String) (result : BrutalApplyResult) (rateBps : UInt64)
    (useGroup : Bool) (s : Socket) : BrutalApplyResult × Socket :=
  match encodeBrutalParamsBps rateBps brutalDefaultCwndGain result.groupID useGroup with
  | .error err => giveUp ops previous result err s
  | .ok params =>
    match ops.setParams params s with
    | (none, s) => reportParams ops result rateBps s
    | (some err, s) =>
      if err.isLocked then reportParams ops { result with ruleManaged := true } rateBps s
      else giveUp ops previous result ("TCP_BRUTAL_PARAMS failed: " ++ err.text) s

/-- From the query for the version on, with the algorithm switched. -/
def applyBrutal (previous : String) (result : BrutalApplyResult)
    (totalRate legacyRateBps groupID : UInt64) (s : Socket) : BrutalApplyResult × Socket :=
  let ((version, err), s) := ops.getVersion s
  match err.filter (!·.isNoVersion) with
  | some err => giveUp ops previous result ("TCP_BRUTAL_VERSION failed: " ++ err.text) s
  | none =>
    let useGroup := decide (version ≥ brutalV2Version) && groupID ≠ 0
    let rateBps :=
      if useGroup then (brutalMbpsToBps totalRate).toOption.getD 0 else legacyRateBps
    let result :=
      { result with version := version, groupID := if useGroup then groupID else result.groupID }
    if rateBps = 0 then
      giveUp ops previous result ("TCP Brutal legacy share is 0 Mbps; " ++
        "connection left unshaped to preserve the total limit") s
    else applyParams ops previous result rateBps useGroup s

/-- `quote` formats a string for a message. -/
def configureTCPBrutal (quote : String → String) (totalRate legacyRateBps groupID : UInt64)
    (s : Socket) : BrutalApplyResult × Socket :=
  let result : BrutalApplyResult := { attempted := true, cwndGain := brutalDefaultCwndGain }
  if totalRate = 0 then ({ result with error := "TCP Brutal rate cannot be 0" }, s)
  else match brutalMbpsToBps totalRate with
  | .error err => ({ result with error := err }, s)
  | .ok _ =>
    let ((previous, _), s) := ops.getCongestion s
    match ops.setCongestion "brutal" s with
    | (none, s) => applyBrutal ops previous result totalRate legacyRateBps groupID s
    | (some err, s) =>
      if err.isLocked then
        let ((current, getErr), s) := ops.getCongestion s
        if getErr.isSome ∨ current ≠ "brutal" then
          ({ result with
              error := "TCP_CONGESTION is rule-locked and current algorithm is " ++
                quote current }, s)
        else
          applyBrutal ops previous { result with ruleManaged := true } totalRate legacyRateBps
            groupID s
      else ({ result with error := "TCP_CONGESTION=brutal failed: " ++ err.text }, s)

end

/-! ## The kernel's side -/

/-- A congestion algorithm, by its name. The source uses the empty string for an unknown one. -/
structure Algorithm where
  name : String
  named : name ≠ ""
  deriving DecidableEq

/-- What the kernel keeps of a socket. -/
structure KernelSocket where
  algorithm : Algorithm
  /-- The parameter block that was accepted last. -/
  params : Option Bytes
  /-- A lock rule owns the parameters. -/
  lockRule : Bool
  deriving DecidableEq

/-- The operations do what they answer. A setter that fails changes nothing, nothing else changes
the socket, and the answer to a query for the algorithm is true if there is one. -/
structure Faithful {Socket : Type} (ops : BrutalSocketOps Socket) (kernel : Socket → KernelSocket) :
    Prop where
  setCongestion_ok : ∀ name s, (ops.setCongestion name s).1 = none →
    (kernel (ops.setCongestion name s).2).algorithm.name = name
  setCongestion_failed : ∀ name s, (ops.setCongestion name s).1 ≠ none →
    kernel (ops.setCongestion name s).2 = kernel s
  getCongestion_keeps : ∀ s, kernel (ops.getCongestion s).2 = kernel s
  getCongestion_true : ∀ s, (ops.getCongestion s).1.2 = none →
    (ops.getCongestion s).1.1 = (kernel s).algorithm.name
  getVersion_keeps : ∀ s, kernel (ops.getVersion s).2 = kernel s
  setParams_ok : ∀ b s, (ops.setParams b s).1 = none →
    kernel (ops.setParams b s).2 = { kernel s with params := some b }
  setParams_failed : ∀ b s, (ops.setParams b s).1 ≠ none →
    kernel (ops.setParams b s).2 = kernel s
  setParams_locked : ∀ b s err, (ops.setParams b s).1 = some err → err.isLocked →
    (kernel s).lockRule
  getParams_keeps : ∀ size s, kernel (ops.getParams size s).2 = kernel s

/-- The block asks for the rate of the group or, from a module without groups, for the share of the
connection. -/
def Requested (totalRate legacyRateBps groupID : UInt64) (b : Bytes) : Prop :=
  decodeBrutalParamsBps b = .ok (totalRate * 1000000 / 8, brutalDefaultCwndGain, groupID) ∨
    decodeBrutalParamsBps b = .ok (legacyRateBps, brutalDefaultCwndGain, 0)

/-- A result, and the socket after the call, as seen from the socket before it. -/
structure AllOrNothing (totalRate legacyRateBps groupID : UInt64) (before after : KernelSocket)
    (result : BrutalApplyResult) : Prop where
  nothing : result.applied = false → after.algorithm = before.algorithm
  switched : result.applied = true → after.algorithm.name = "brutal"
  params : result.applied = true →
    (∃ b, after.params = some b ∧ Requested totalRate legacyRateBps groupID b) ∨ after.lockRule

theorem AllOrNothing.of_nothing {totalRate legacyRateBps groupID : UInt64}
    {before after : KernelSocket} {result : BrutalApplyResult} (hresult : result.applied = false)
    (hsame : after.algorithm = before.algorithm) :
    AllOrNothing totalRate legacyRateBps groupID before after result where
  nothing _ := hsame
  switched happlied := absurd (hresult.symm.trans happlied) (by decide)
  params happlied := absurd (hresult.symm.trans happlied) (by decide)

theorem Algorithm.ext_name {a b : Algorithm} (h : a.name = b.name) : a = b := by
  cases a
  cases b
  cases h
  rfl

section

variable {Socket : Type} {ops : BrutalSocketOps Socket} {kernel : Socket → KernelSocket}
variable {totalRate legacyRateBps groupID : UInt64} {before : KernelSocket} {s : Socket}

/-- The algorithm of before the call can be set again. -/
def Resettable (ops : BrutalSocketOps Socket) (kernel : Socket → KernelSocket)
    (original : Algorithm) : Prop :=
  ∀ s, (kernel s).algorithm ≠ original → (ops.setCongestion original.name s).1 = none

theorem restoreCongestion_restores (hfaithful : Faithful ops kernel)
    (hreset : Resettable ops kernel before.algorithm)
    (hbrutal : (kernel s).algorithm.name = "brutal") :
    (kernel (restoreCongestion ops before.algorithm.name s)).algorithm = before.algorithm := by
  unfold restoreCongestion
  by_cases hname : before.algorithm.name = "brutal"
  · rw [if_neg fun hguard => hguard.2 hname]
    exact Algorithm.ext_name (hbrutal.trans hname.symm)
  · rw [if_pos ⟨before.algorithm.named, hname⟩]
    have hother : (kernel s).algorithm ≠ before.algorithm := by
      intro hsame
      rw [hsame] at hbrutal
      exact hname hbrutal
    exact Algorithm.ext_name (hfaithful.setCongestion_ok _ s (hreset s hother))

variable {result : BrutalApplyResult}

theorem giveUp_outcome (hfaithful : Faithful ops kernel)
    (hreset : Resettable ops kernel before.algorithm)
    (hbrutal : (kernel s).algorithm.name = "brutal") (hresult : result.applied = false)
    (error : String) :
    AllOrNothing totalRate legacyRateBps groupID before
      (kernel (giveUp ops before.algorithm.name result error s).2)
      (giveUp ops before.algorithm.name result error s).1 :=
  .of_nothing hresult (restoreCongestion_restores hfaithful hreset hbrutal)

theorem readBrutalParams_keeps (hfaithful : Faithful ops kernel) (version : UInt32) (s : Socket) :
    kernel (readBrutalParams ops version s).2 = kernel s := by
  unfold readBrutalParams
  generalize (if version ≥ brutalV2Version then 20 else 12) = size
  have hkeeps := hfaithful.getParams_keeps size s
  dsimp only
  split
  · rename_i hread
    rwa [hread] at hkeeps
  · rename_i hread
    rwa [hread] at hkeeps

/-- However the parameters are read back, the call succeeds and the socket stays as it is. -/
theorem reportParams_spec (hfaithful : Faithful ops kernel) (result : BrutalApplyResult)
    (rateBps : UInt64) (s : Socket) :
    (reportParams ops result rateBps s).1.applied = true ∧
      kernel (reportParams ops result rateBps s).2 = kernel s := by
  unfold reportParams
  have hkeeps := readBrutalParams_keeps hfaithful result.version s
  split
  · rename_i hread
    rw [hread] at hkeeps
    exact ⟨rfl, hkeeps⟩
  · rename_i hread
    rw [hread] at hkeeps
    split
    · exact ⟨rfl, hkeeps⟩
    · exact ⟨rfl, hkeeps⟩

theorem reportParams_outcome (hfaithful : Faithful ops kernel)
    (hbrutal : (kernel s).algorithm.name = "brutal")
    (hparams : (∃ b, (kernel s).params = some b ∧ Requested totalRate legacyRateBps groupID b) ∨
      (kernel s).lockRule) (result : BrutalApplyResult) (rateBps : UInt64) :
    AllOrNothing totalRate legacyRateBps groupID before
      (kernel (reportParams ops result rateBps s).2) (reportParams ops result rateBps s).1 := by
  obtain ⟨happlied, hkeeps⟩ := reportParams_spec hfaithful result rateBps s
  rw [hkeeps]
  refine ⟨fun hnot => ?_, fun _ => hbrutal, fun _ => hparams⟩
  exact absurd (hnot.symm.trans happlied) (by decide)

theorem applyParams_outcome (hfaithful : Faithful ops kernel)
    (hreset : Resettable ops kernel before.algorithm)
    (hbrutal : (kernel s).algorithm.name = "brutal") (hresult : result.applied = false)
    {rateBps : UInt64} {useGroup : Bool} (hrequested : ∀ b, decodeBrutalParamsBps b =
        .ok (rateBps, brutalDefaultCwndGain, if useGroup then result.groupID else 0) →
      Requested totalRate legacyRateBps groupID b) :
    AllOrNothing totalRate legacyRateBps groupID before
      (kernel (applyParams ops before.algorithm.name result rateBps useGroup s).2)
      (applyParams ops before.algorithm.name result rateBps useGroup s).1 := by
  unfold applyParams
  split
  · exact giveUp_outcome hfaithful hreset hbrutal hresult _
  · rename_i params hencode
    have hok := hfaithful.setParams_ok params s
    have hfailed := hfaithful.setParams_failed params s
    have hlocked := hfaithful.setParams_locked params s
    split
    · rename_i next hset
      rw [hset] at hok
      have hnext : kernel next = { kernel s with params := some params } := hok rfl
      refine reportParams_outcome hfaithful ?_ (.inl ⟨params, ?_, ?_⟩) result rateBps
      · rw [hnext]
        exact hbrutal
      · rw [hnext]
      · exact hrequested params (decode_encode hencode)
    · rename_i err next hset
      rw [hset] at hfailed hlocked
      have hnext : kernel next = kernel s := hfailed (by simp)
      rw [← hnext] at hbrutal hlocked
      split
      · rename_i hrule
        exact reportParams_outcome hfaithful hbrutal (.inr (hlocked err rfl hrule)) _ rateBps
      · exact giveUp_outcome hfaithful hreset hbrutal hresult _

theorem applyBrutal_outcome (hfaithful : Faithful ops kernel)
    (hreset : Resettable ops kernel before.algorithm)
    (hbrutal : (kernel s).algorithm.name = "brutal") (hresult : result.applied = false)
    (hrate : brutalMbpsToBps totalRate = .ok (totalRate * 1000000 / 8)) :
    AllOrNothing totalRate legacyRateBps groupID before
      (kernel (applyBrutal ops before.algorithm.name result totalRate legacyRateBps groupID s).2)
      (applyBrutal ops before.algorithm.name result totalRate legacyRateBps groupID s).1 := by
  unfold applyBrutal
  have hkeeps := hfaithful.getVersion_keeps s
  rw [← hkeeps] at hbrutal
  split
  rename_i version err next hversion
  rw [hversion] at hbrutal
  split
  · exact giveUp_outcome hfaithful hreset hbrutal hresult _
  · dsimp only
    generalize (decide (version ≥ brutalV2Version) && decide (groupID ≠ 0)) = useGroup
    have hresult' : ∀ version groupID,
        { result with version := version, groupID := groupID }.applied = false :=
      fun _ _ => hresult
    cases useGroup with
    | true =>
      rw [hrate, if_pos rfl, if_pos rfl]
      split
      · exact giveUp_outcome hfaithful hreset hbrutal (hresult' ..) _
      · exact applyParams_outcome hfaithful hreset hbrutal (hresult' ..) fun b hdecoded =>
          .inl hdecoded
    | false =>
      rw [if_neg Bool.false_ne_true, if_neg Bool.false_ne_true]
      split
      · exact giveUp_outcome hfaithful hreset hbrutal (hresult' ..) _
      · exact applyParams_outcome hfaithful hreset hbrutal (hresult' ..) fun b hdecoded =>
          .inr hdecoded

end

/-- If the algorithm can be read at first and can be set again, then a call that does not succeed
has left it as it was, and a call that succeeds has switched it, with parameters that the module has
accepted or that a lock rule owns. -/
theorem configure_all_or_nothing {Socket : Type} {ops : BrutalSocketOps Socket}
    {kernel : Socket → KernelSocket} (hfaithful : Faithful ops kernel) (s : Socket)
    (hfirst : (ops.getCongestion s).1.2 = none)
    (hreset : Resettable ops kernel (kernel s).algorithm) (quote : String → String)
    (totalRate legacyRateBps groupID : UInt64) :
    AllOrNothing totalRate legacyRateBps groupID (kernel s)
      (kernel (configureTCPBrutal ops quote totalRate legacyRateBps groupID s).2)
      (configureTCPBrutal ops quote totalRate legacyRateBps groupID s).1 := by
  have hunchanged : ∀ {result : BrutalApplyResult} {next : Socket}, result.applied = false →
      kernel next = kernel s →
      AllOrNothing totalRate legacyRateBps groupID (kernel s) (kernel next) result := by
    intro result next hresult hnext
    exact .of_nothing hresult (by rw [hnext])
  unfold configureTCPBrutal
  split
  · exact hunchanged rfl rfl
  · split
    · exact hunchanged rfl rfl
    · rename_i rateBps hbps
      have hrate : brutalMbpsToBps totalRate = .ok (totalRate * 1000000 / 8) := by
        rw [hbps, brutalMbpsToBps_eq hbps]
      have hprevious := hfaithful.getCongestion_true s hfirst
      have hread := hfaithful.getCongestion_keeps s
      split
      rename_i previous err read hget
      rw [hget] at hprevious hread
      dsimp only at hprevious
      subst hprevious
      have hok := hfaithful.setCongestion_ok "brutal" read
      have hfailed := hfaithful.setCongestion_failed "brutal" read
      split
      · rename_i next hset
        rw [hset] at hok
        exact applyBrutal_outcome hfaithful hreset (hok rfl) rfl hrate
      · rename_i err next hset
        rw [hset] at hfailed
        have hnext : kernel next = kernel s := (hfailed (by simp)).trans hread
        split
        · have htrue := hfaithful.getCongestion_true next
          have hkeeps := hfaithful.getCongestion_keeps next
          split
          rename_i current getErr last hlast
          rw [hlast] at htrue hkeeps
          split
          · exact hunchanged rfl (hkeeps.trans hnext)
          · rename_i hcurrent
            obtain ⟨hsome, hname⟩ := not_or.mp hcurrent
            have hbrutal : (kernel last).algorithm.name = "brutal" := by
              rw [hkeeps, ← htrue (Option.not_isSome_iff_eq_none.mp hsome)]
              exact not_not.mp hname
            exact applyBrutal_outcome hfaithful hreset hbrutal rfl hrate
        · exact hunchanged rfl hnext

/-! ## The socket of the tests -/

/-- A socket whose setters refuse as its fields say. -/
structure FakeBrutalSocket where
  congestion : Algorithm
  params : Option Bytes
  version : UInt32
  versionErr : Option SocketError
  setAlgoErr : Option SocketError
  setParamErr : Option SocketError
  getParamErr : Option SocketError

namespace FakeBrutalSocket

/-- The operations of such a socket. -/
def ops : BrutalSocketOps FakeBrutalSocket where
  setCongestion name s :=
    if hname : name = "" then (some ⟨"invalid argument", false, false⟩, s)
    else if name = "brutal" ∧ s.setAlgoErr.isSome then (s.setAlgoErr, s)
    else (none, { s with congestion := ⟨name, hname⟩ })
  getCongestion s := ((s.congestion.name, none), s)
  getVersion s := ((s.version, s.versionErr), s)
  setParams b s :=
    if s.setParamErr.isSome then (s.setParamErr, s) else (none, { s with params := some b })
  getParams size s :=
    if s.getParamErr.isSome then (([], s.getParamErr), s)
    else match s.params.filter (·.length = size) with
      | none => (([], some ⟨"no params", false, false⟩), s)
      | some b => ((b, none), s)

/-- What the kernel knows of the socket. -/
def kernel (s : FakeBrutalSocket) : KernelSocket :=
  ⟨s.congestion, s.params, s.setParamErr.any (·.isLocked)⟩

theorem setCongestion_cases (name : String) (s : FakeBrutalSocket) :
    ((ops.setCongestion name s).1 = none ∧
        (kernel (ops.setCongestion name s).2).algorithm.name = name) ∨
      ((ops.setCongestion name s).1 ≠ none ∧ (ops.setCongestion name s).2 = s) := by
  unfold ops
  dsimp only
  split
  · exact .inr ⟨by simp, rfl⟩
  · split
    · rename_i hrefused
      exact .inr ⟨Option.isSome_iff_ne_none.mp hrefused.2, rfl⟩
    · exact .inl ⟨rfl, rfl⟩

theorem setParams_cases (b : Bytes) (s : FakeBrutalSocket) :
    ((ops.setParams b s).1 = none ∧
        kernel (ops.setParams b s).2 = { kernel s with params := some b }) ∨
      ((ops.setParams b s).1 = s.setParamErr ∧ s.setParamErr ≠ none ∧
        (ops.setParams b s).2 = s) := by
  unfold ops
  dsimp only
  split
  · rename_i hrefused
    exact .inr ⟨rfl, Option.isSome_iff_ne_none.mp hrefused, rfl⟩
  · exact .inl ⟨rfl, rfl⟩

/-- The socket does what its answers say. -/
theorem faithful : Faithful ops kernel where
  setCongestion_ok name s hok := by
    rcases setCongestion_cases name s with hset | hset
    · exact hset.2
    · exact absurd hok hset.1
  setCongestion_failed name s hfailed := by
    rcases setCongestion_cases name s with hset | hset
    · exact absurd hset.1 hfailed
    · rw [hset.2]
  getCongestion_keeps _ := rfl
  getCongestion_true _ _ := rfl
  getVersion_keeps _ := rfl
  setParams_ok b s hok := by
    rcases setParams_cases b s with hset | ⟨hanswer, herr, -⟩
    · exact hset.2
    · exact absurd (hanswer.symm.trans hok) herr
  setParams_failed b s hfailed := by
    rcases setParams_cases b s with hset | ⟨-, -, hsame⟩
    · exact absurd hset.1 hfailed
    · rw [hsame]
  setParams_locked b s err hanswer hlocked := by
    rcases setParams_cases b s with hset | ⟨herr, -, -⟩
    · exact absurd (hset.1.symm.trans hanswer) (by simp)
    · simp [kernel, ← herr, hanswer, hlocked]
  getParams_keeps size s := by
    unfold ops
    dsimp only
    split
    · rfl
    · split <;> rfl

/-- An algorithm other than Brutal can always be set. -/
theorem resettable {original : Algorithm} (h : original.name ≠ "brutal") :
    Resettable ops kernel original := by
  intro s _
  unfold ops
  dsimp only
  rw [dif_neg original.named, if_neg fun hguard => h hguard.1]

/-- An algorithm other than Brutal. -/
def cubic : Algorithm := ⟨"cubic", by decide⟩

/-- The module knows groups and refuses the parameters. -/
def refusing : FakeBrutalSocket where
  congestion := cubic
  params := none
  version := brutalV2Version
  versionErr := none
  setAlgoErr := none
  setParamErr := some ⟨"bad params", false, false⟩
  getParamErr := none

/-- An old module without a version. -/
def legacy : FakeBrutalSocket :=
  { refusing with
    version := 0
    versionErr := some ⟨"TCP Brutal version option is unavailable", false, true⟩
    setParamErr := none }

/-- One socket is rolled back, the other one configured. -/
theorem configured_or_rolled_back :
    (kernel (configureTCPBrutal ops id 30 1000000 42 refusing).2).algorithm = cubic ∧
      (kernel (configureTCPBrutal ops id 30 1000000 42 legacy).2).algorithm.name = "brutal" :=
  have hreset : Resettable ops kernel cubic := resettable (by decide)
  ⟨(configure_all_or_nothing faithful refusing rfl hreset id 30 1000000 42).nothing (by decide),
    (configure_all_or_nothing faithful legacy rfl hreset id 30 1000000 42).switched (by decide)⟩

end FakeBrutalSocket

end TlsVpn.Brutal
