import TlsVpn.Fec.Decoder
import TlsVpn.Fec.Encoder

/-!
# The three implementations of the decoder

The source writes the decoder out three times: one call per frame under a mutex (`OnData`,
`OnParityWithScratch`, `handleModeControl`), one call per frame without a mutex for the receive
worker (`OnDataActor`, `OnParityActorWithScratch`, `handleModeControlActor`), and a batch call for a
run of data frames (`OnDataBatch`). Each is translated here with its own order of checks, including
the checks that the mutex versions make a second time.

The progress probe of the reorder buffer is a sequence of answers of which every consultation takes
the next one.
-/

namespace TlsVpn.Fec

open Lib Crypto

/-- The answers of the reorder buffer's progress probe, from the one that is used next. -/
structure Probe where
  installed : Bool
  answers : Nat → Nat
  used : Nat

/-- A decoder with its probe. -/
structure Probed where
  decoder : FecDecoder
  probe : Probe

/-- The answer that a consultation would get, `none` without a probe. -/
def Probe.current (probe : Probe) : Option Nat :=
  if probe.installed then some (probe.answers probe.used) else none

namespace Probed

/-- Writes the decoder. -/
def setDecoder (p : Probed) (decoder : FecDecoder) : Probed := { p with decoder }

/-! ## Retirement -/

/-- The probe is asked only if there is a boundary to cross. -/
def maybeRetireOldGroupsLocked (p : Probed) : Probed :=
  let boundary := p.decoder.cleanupBefore
  if boundary = 0 ∨ p.decoder.retiredBefore ≥ boundary ∨ p.probe.installed = false then p
  else
    let expected := p.probe.answers p.probe.used
    let asked := { p with probe := { p.probe with used := p.probe.used + 1 } }
    if expected = 0 ∨ expected < boundary then asked
    else
      asked.setDecoder
        ({ p.decoder with retiredBefore := boundary }.dropGroups (fun start => start < boundary))

/-- The probe of the mutex version, which looks at the boundary before it takes the mutex. -/
def cleanupByReorderProgress (p : Probed) : Probed :=
  let boundary := p.decoder.cleanupBefore
  if boundary = 0 ∨ p.decoder.retiredBefore ≥ boundary ∨ p.probe.installed = false then p
  else p.maybeRetireOldGroupsLocked

/-! ## Data -/

/-- Data below the retirement boundary. -/
def Retired (p : Probed) (seq : Nat) : Prop :=
  p.decoder.retiredBefore ≠ 0 ∧ seq < p.decoder.retiredBefore

instance (p : Probed) (seq : Nat) : Decidable (p.Retired seq) := inferInstanceAs (Decidable (_ ∧ _))

/-- Count member `i` into its group and hand the group to a recovery function. -/
def countInto (d : FecDecoder) (g : FecGroupState) (i : Nat) (frame : Bytes)
    (recover : FecDecoder → FecGroupState → FecDecoder × Option (Nat × Bytes)) :
    FecDecoder × Option (Nat × Bytes) :=
  if g.Got i then (d, none)
  else if (g.mark i).gotMask = d.fullMask then (d.finishGroup (g.mark i), none)
  else
    let counted := { g.mark i with acc := xorExtend g.acc frame }
    recover (d.setGroup counted) counted

/-- Count a frame into its group, created if there is none. -/
def countMember (d : FecDecoder) (seq : Nat) (frame : Bytes)
    (recover : FecDecoder → FecGroupState → FecDecoder × Option (Nat × Bytes)) :
    FecDecoder × Option (Nat × Bytes) :=
  let (opened, g) := d.openGroup (d.groupStartOf seq)
  countInto opened g (seq - d.groupStartOf seq) frame recover

/-- `OnData`: after the mutex is taken all checks are made again. -/
def onData (p : Probed) (seq : Nat) (frame : Bytes) : Probed × Option (Nat × Bytes) :=
  if frame = [] ∨ seq = 0 then (p, none)
  else if p.decoder.staticSingle then (p, none)
  else if p.decoder.fence.bypassData seq then
    (if seq &&& 255 = 0 then p.cleanupByReorderProgress else p, none)
  else if p.Retired seq then (p, none)
  else if p.decoder.staticSingle = true ∨ p.decoder.fence.bypassData seq = true ∨ p.Retired seq ∨
      p.decoder.IsDone (p.decoder.groupStartOf seq) then (p, none)
  else
    let (decoder, out) := countMember p.decoder seq frame FecDecoder.tryRecover
    (p.setDecoder decoder, out)

/-- `tryRecoverActor`: the recovered member is returned, and the counters of the process do not
change. -/
def tryRecoverActor (d : FecDecoder) (g : FecGroupState) : FecDecoder × Option (Nat × Bytes) :=
  match g.parity with
  | none => (d, none)
  | some parity =>
    if g.k = 0 then (d, none)
    else
      match g.missing with
      | [] => (d.finishGroup g, none)
      | [i] =>
        if g.lens.length ≤ i ∨ parity.length < g.lens.getD i 0 then (d.finishGroup g, none)
        else
          let finished := d.finishGroup (g.mark i)
          ({ finished with recovered := finished.recovered + 1 },
            some (add32 g.start i, FecDecoder.reconstruct parity g.acc (g.lens.getD i 0)))
      | _ :: _ :: _ => (d, none)

/-- `OnDataActor`. -/
def onDataActor (p : Probed) (seq : Nat) (frame : Bytes) : Probed × Option (Nat × Bytes) :=
  if frame = [] ∨ seq = 0 ∨ p.decoder.staticSingle = true then (p, none)
  else if p.decoder.fence.bypassData seq then
    (if seq &&& 255 = 0 then p.maybeRetireOldGroupsLocked else p, none)
  else if p.Retired seq then (p, none)
  else if p.decoder.IsDone (p.decoder.groupStartOf seq) then (p, none)
  else
    let (decoder, out) := countMember p.decoder seq frame tryRecoverActor
    (p.setDecoder decoder, out)

/-- One turn of the loop of `OnDataBatch`. -/
def batchMember (p : Probed) (vf : VPNFrame) : Probed × Option (Nat × Bytes) :=
  if vf.data = [] ∨ vf.seq = 0 then (p, none)
  else if p.decoder.staticSingle then (p, none)
  else if p.decoder.fence.bypassData vf.seq then
    (if vf.seq &&& 255 = 0 then p.maybeRetireOldGroupsLocked else p, none)
  else if p.Retired vf.seq then (p, none)
  else if p.decoder.IsDone (p.decoder.groupStartOf vf.seq) then (p, none)
  else
    let (decoder, out) := countMember p.decoder vf.seq vf.data FecDecoder.tryRecover
    (p.setDecoder decoder, out)

/-- The loop of `OnDataBatch` with the members it has recovered so far. -/
def batchLoop (p : Probed) (recovered : List (Nat × Bytes)) :
    List VPNFrame → Probed × List (Nat × Bytes)
  | [] => (p, recovered)
  | vf :: rest =>
    let (next, out) := p.batchMember vf
    next.batchLoop (recovered ++ out.toList) rest

/-- `OnDataBatch`. -/
def onDataBatch (p : Probed) (frames : List VPNFrame) : Probed × List (Nat × Bytes) :=
  if frames = [] ∨ p.decoder.staticSingle = true then (p, []) else p.batchLoop [] frames

/-! ## Parity -/

/-- The checks of a parity record that need no state: its kind and length, its start and its member
count. -/
def ParityHeader (d : FecDecoder) (payload : Bytes) : Prop :=
  ¬ (payload.length < 7 ∨ byteAt payload 0 ≠ controlKindFECParity) ∧
    ¬ (uint ((payload.drop 1).take 4) = 0 ∨ (byteAt payload 5).toNat ≠ d.k ∨
      (uint ((payload.drop 1).take 4) - 1) % d.k ≠ 0)

instance (d : FecDecoder) (payload : Bytes) : Decidable (ParityHeader d payload) :=
  inferInstanceAs (Decidable (¬ _ ∧ ¬ _))

/-- The descriptor fits into the record: all member lengths are there and none is longer than the
body. -/
def DescriptorFits (d : FecDecoder) (payload : Bytes) : Prop :=
  ¬ payload.length < 6 + 4 * d.k + tagLen d.ic ∧
    ∀ l ∈ FecDecoder.descriptorLens payload d.k,
      ¬ l + tagLen d.ic > payload.length - (6 + 4 * d.k)

instance (d : FecDecoder) (payload : Bytes) : Decidable (DescriptorFits d payload) :=
  inferInstanceAs (Decidable (¬ _ ∧ ∀ _ ∈ _, ¬ _))

/-- Put the record into its group, created if there is none. The group is returned if the body
opens; otherwise it keeps the size without the lengths. -/
def storeParity (d : FecDecoder) (start : Nat) (payload : Bytes) :
    FecDecoder × Option FecGroupState :=
  let lens := FecDecoder.descriptorLens payload d.k
  let maxLen := lens.foldl max 0
  let sealed := (payload.drop (6 + 4 * d.k)).take (maxLen + tagLen d.ic)
  let (opened, g) := d.openGroup start
  match openTo d.ic sealed start ((maxLen + tagLen d.ic) % 4294967296) with
  | none => (opened.setGroup { g with k := d.k, lens := [] }, none)
  | some body =>
    let held := { g with k := d.k, lens, parity := some body }
    (opened.setGroup held, some held)

/-- The group already has its record. -/
def HasParity (d : FecDecoder) (start : Nat) : Prop :=
  ((d.lookupGroup start).bind (·.parity)).isSome = true

instance (d : FecDecoder) (start : Nat) : Decidable (HasParity d start) :=
  inferInstanceAs (Decidable (_ = true))

/-- `OnParityWithScratch`. -/
def onParityWithScratch (p : Probed) (payload : Bytes) : Probed × Option (Nat × Bytes) :=
  let start := uint ((payload.drop 1).take 4)
  if p.decoder.staticSingle = true ∨ ¬ ParityHeader p.decoder payload then (p, none)
  else
    let p := p.cleanupByReorderProgress
    if p.Retired start then (p, none)
    else if ¬ DescriptorFits p.decoder payload then (p, none)
    else if p.decoder.staticSingle = true ∨ p.Retired start ∨ p.decoder.IsDone start then (p, none)
    else if HasParity p.decoder start then (p, none)
    else
      match storeParity p.decoder start payload with
      | (stored, none) => (p.setDecoder stored, none)
      | (stored, some held) =>
        let (recovered, out) := stored.tryRecover held
        ((p.setDecoder recovered).maybeRetireOldGroupsLocked, out)

/-- `OnParityActorWithScratch`. -/
def onParityActorWithScratch (p : Probed) (payload : Bytes) : Probed × Option (Nat × Bytes) :=
  let start := uint ((payload.drop 1).take 4)
  if p.decoder.staticSingle = true ∨ ¬ ParityHeader p.decoder payload then (p, none)
  else
    let p := p.maybeRetireOldGroupsLocked
    if p.Retired start then (p, none)
    else if ¬ DescriptorFits p.decoder payload then (p, none)
    else if p.decoder.staticSingle = true ∨ p.Retired start ∨ p.decoder.IsDone start then (p, none)
    else if HasParity p.decoder start then (p, none)
    else
      match storeParity p.decoder start payload with
      | (stored, none) => (p.setDecoder stored, none)
      | (stored, some held) =>
        let (recovered, out) := tryRecoverActor stored held
        ((p.setDecoder recovered).maybeRetireOldGroupsLocked, out)

/-! ## Controls -/

/-- `handleModeControl`. -/
def handleModeControl (p : Probed) (ctrl : FecModeControl) : Probed :=
  let (fence, applied) := p.decoder.fence.apply ctrl
  if applied = false then p
  else
    let fenced := { p.decoder with fence }
    if fence.fromSeq = 0 then p.setDecoder fenced
    else
      (p.setDecoder ({ fenced with
        cleanupBefore := max fenced.cleanupBefore fence.fromSeq }.dropGroupsInRange
          fence.fromSeq fence.untilSeq)).maybeRetireOldGroupsLocked

/-- `handleModeControlActor`: the same without the mutexes. -/
def handleModeControlActor (p : Probed) (ctrl : FecModeControl) : Probed :=
  let (fence, applied) := p.decoder.fence.apply ctrl
  if applied = false then p
  else
    let fenced := { p.decoder with fence }
    if fence.fromSeq = 0 then p.setDecoder fenced
    else
      (p.setDecoder ({ fenced with
        cleanupBefore := max fenced.cleanupBefore fence.fromSeq }.dropGroupsInRange
          fence.fromSeq fence.untilSeq)).maybeRetireOldGroupsLocked

/-- What a call on a control payload returns. -/
abbrev ControlResult := Except ControlError (Option (Nat × Bytes))

/-- `OnControlWithScratch`. -/
def onControlWithScratch (p : Probed) (payload : Bytes) : Probed × ControlResult :=
  match parseControlKind payload with
  | .error e => (p, .error e)
  | .ok kind =>
    if kind = controlKindFECParity then
      let (next, out) := p.onParityWithScratch payload
      (next, .ok out)
    else if kind = controlKindFECMode then
      match parseFECModeControl payload with
      | none => (p, .error .malformedMode)
      | some ctrl => (p.handleModeControl ctrl, .ok none)
    else (p, .error (.unsupportedKind kind))

/-- `OnControlActorWithScratch`. -/
def onControlActorWithScratch (p : Probed) (payload : Bytes) : Probed × ControlResult :=
  match parseControlKind payload with
  | .error e => (p, .error e)
  | .ok kind =>
    if kind = controlKindFECParity then
      let (next, out) := p.onParityActorWithScratch payload
      (next, .ok out)
    else if kind = controlKindFECMode then
      match parseFECModeControl payload with
      | none => (p, .error .malformedMode)
      | some ctrl => (p.handleModeControlActor ctrl, .ok none)
    else (p, .error (.unsupportedKind kind))

end Probed

/-! ## Runs -/

/-- What a connection delivers to the decoder. -/
inductive Input where
  | data (vf : VPNFrame)
  | control (payload : Bytes)

/-- What the decoder delivers: recovered members and errors of controls. -/
inductive Delivery where
  | recovered (seq : Nat) (frame : Bytes)
  | failed (e : ControlError)
  deriving DecidableEq, Repr

/-- Members as deliveries. -/
def deliveries (members : List (Nat × Bytes)) : List Delivery :=
  members.map fun m => .recovered m.1 m.2

/-- What a control delivers. -/
def controlDeliveries : Probed.ControlResult → List Delivery
  | .error e => [.failed e]
  | .ok out => deliveries out.toList

/-- Inputs as the batch call groups them: a run of data frames, or a control. -/
inductive Segment where
  | frames (run : List VPNFrame)
  | control (payload : Bytes)

/-- The inputs of a segment. -/
def Segment.inputs : Segment → List Input
  | .frames run => run.map .data
  | .control payload => [.control payload]

namespace Probed

/-- One input under the mutex. -/
def feed (p : Probed) : Input → Probed × List Delivery
  | .data vf =>
    let (next, out) := p.onData vf.seq vf.data
    (next, deliveries out.toList)
  | .control payload =>
    let (next, result) := p.onControlWithScratch payload
    (next, controlDeliveries result)

/-- One input of the receive worker. -/
def feedActor (p : Probed) : Input → Probed × List Delivery
  | .data vf =>
    let (next, out) := p.onDataActor vf.seq vf.data
    (next, deliveries out.toList)
  | .control payload =>
    let (next, result) := p.onControlActorWithScratch payload
    (next, controlDeliveries result)

/-- One segment, with its data frames in one call. -/
def feedSegment (p : Probed) : Segment → Probed × List Delivery
  | .frames run =>
    let (next, out) := p.onDataBatch run
    (next, deliveries out)
  | .control payload =>
    let (next, result) := p.onControlWithScratch payload
    (next, controlDeliveries result)

/-- Feed a list in order and collect the deliveries. -/
def feedAll {α : Type} (step : Probed → α → Probed × List Delivery) :
    Probed → List α → Probed × List Delivery
  | p, [] => (p, [])
  | p, input :: rest =>
    let (next, out) := step p input
    let (final, outs) := feedAll step next rest
    (final, out ++ outs)

end Probed

end TlsVpn.Fec
