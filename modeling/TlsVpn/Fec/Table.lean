import TlsVpn.Fec.Live
import TlsVpn.Lib.Run

/-!
# Decoder calls as table operations

Every call of the decoder is a short list of changes to its tables: a group is created, updated or
finished, groups are dropped, a boundary moves. `FecDecoder.ops` lists the operations of a call, and
`receive_eq_run` shows that the call is the run of its operations, so that an invariant of the
tables is proved once per operation. The operations of a call suit the state they are applied in
(`along_ops`): a group is created only if there is none, and only a live one is updated or finished.
-/

namespace TlsVpn.Fec

open Lib Crypto List

/-- Why a group is finished. -/
inductive Reason where
  | complete
  | recovered
  | inconsistent
  deriving DecidableEq, Repr

/-- A change of the decoder's tables. -/
inductive TableOp where
  | create (start : Nat)
  | put (g : FecGroupState)
  | finish (reason : Reason) (g : FecGroupState)
  | countRecovered
  | setFence (fence : FecRXFenceState)
  | setCleanup (boundary : Nat)
  | setRetired (boundary : Nat)
  | drop (p : Nat → Bool)

/-- The operation concerns one live group. -/
def TableOp.Local : TableOp → Prop
  | .put _ | .finish _ _ | .countRecovered => True
  | .create _ | .setFence _ | .setCleanup _ | .setRetired _ | .drop _ => False

namespace FecDecoder

/-- Apply one operation. -/
def applyOp (d : FecDecoder) : TableOp → FecDecoder
  | .create start => d.newGroup start
  | .put g => d.setGroup g
  | .finish _ g => d.finishGroup g
  | .countRecovered =>
    { d with
      recovered := d.recovered + 1
      lifetime := d.lifetime.map (fun c => { c with recovered := c.recovered + 1 }) }
  | .setFence fence => { d with fence }
  | .setCleanup boundary => { d with cleanupBefore := boundary }
  | .setRetired boundary => { d with retiredBefore := boundary }
  | .drop p => d.dropGroups p

/-- Operations as steps; none is ever disabled. -/
def opStep (d : FecDecoder) (op : TableOp) : Option FecDecoder := some (d.applyOp op)

/-! ## The operations of a call -/

/-- The operations of `tryRecover`. -/
def recoverOps (g : FecGroupState) : List TableOp :=
  match g.parity with
  | none => []
  | some parity =>
    if g.k = 0 then []
    else
      match g.missing with
      | [] => [.finish .complete g]
      | [i] =>
        if g.lens.length ≤ i ∨ parity.length < g.lens.getD i 0 then [.finish .inconsistent g]
        else [.finish .recovered (g.mark i), .countRecovered]
      | _ :: _ :: _ => []

/-- The operations of `openGroup`. -/
def openOps (d : FecDecoder) (start : Nat) : List TableOp :=
  match d.lookupGroup start with
  | some _ => []
  | none => [.create start]

/-- The operations of `onMember`. -/
def memberOps (fullMask : Nat) (g : FecGroupState) (i : Nat) (frame : Bytes) : List TableOp :=
  if g.Got i then []
  else if (g.mark i).gotMask = fullMask then [.finish .complete (g.mark i)]
  else
    let counted := { g.mark i with acc := xorExtend g.acc frame }
    .put counted :: recoverOps counted

/-- The operations of `maybeRetireOldGroups`. The boundary is set last here, which comes to the same
because dropping groups does not read it. -/
def retireOps (d : FecDecoder) (progress : Option Nat) : List TableOp :=
  if d.cleanupBefore = 0 ∨ d.retiredBefore ≥ d.cleanupBefore then []
  else
    match progress with
    | none => []
    | some expected =>
      if expected = 0 ∨ expected < d.cleanupBefore then []
      else [.drop (fun start => start < d.cleanupBefore), .setRetired d.cleanupBefore]

/-- The operations of `onData`. -/
def dataOps (d : FecDecoder) (progress : Option Nat) (seq : Nat) (frame : Bytes) : List TableOp :=
  if frame = [] ∨ seq = 0 then []
  else if d.staticSingle then []
  else if d.fence.bypassData seq then if seq &&& 255 = 0 then d.retireOps progress else []
  else if d.retiredBefore ≠ 0 ∧ seq < d.retiredBefore then []
  else if d.IsDone (d.groupStartOf seq) then []
  else
    d.openOps (d.groupStartOf seq) ++
      memberOps d.fullMask (d.openGroup (d.groupStartOf seq)).2 (seq - d.groupStartOf seq) frame

/-- The operations of `acceptParity`. -/
def acceptOps (d : FecDecoder) (after : Option Nat) (start : Nat) (lens : List Nat)
    (payload : Bytes) : List TableOp :=
  let maxLen := lens.foldl max 0
  let sealed := (payload.drop (6 + 4 * d.k)).take (maxLen + tagLen d.ic)
  let (opened, g) := d.openGroup start
  match openTo d.ic sealed start ((maxLen + tagLen d.ic) % 4294967296) with
  | none => d.openOps start ++ [.put { g with k := d.k, lens := [] }]
  | some body =>
    let held := { g with k := d.k, lens, parity := some body }
    d.openOps start ++ (.put held :: recoverOps held) ++
      ((opened.setGroup held).tryRecover held).1.retireOps after

/-- The operations of `onParity`. -/
def parityOps (d : FecDecoder) (before after : Option Nat) (payload : Bytes) : List TableOp :=
  if d.staticSingle ∨ payload.length < 7 ∨ byteAt payload 0 ≠ controlKindFECParity then []
  else
    let start := uint ((payload.drop 1).take 4)
    if start = 0 ∨ (byteAt payload 5).toNat ≠ d.k ∨ (start - 1) % d.k ≠ 0 then []
    else
      let retired := d.maybeRetireOldGroups before
      d.retireOps before ++
        if retired.retiredBefore ≠ 0 ∧ start < retired.retiredBefore then []
        else if payload.length < 6 + 4 * retired.k + tagLen retired.ic then []
        else
          let lens := descriptorLens payload retired.k
          if ∃ l ∈ lens, l + tagLen retired.ic > payload.length - (6 + 4 * retired.k) then []
          else if retired.IsDone start then []
          else if ((retired.lookupGroup start).bind (·.parity)).isSome then []
          else retired.acceptOps after start lens payload

/-- The operations of `handleModeControl`. -/
def modeOps (d : FecDecoder) (progress : Option Nat) (ctrl : FecModeControl) : List TableOp :=
  let (fence, applied) := d.fence.apply ctrl
  if applied = false ∨ fence.fromSeq = 0 then [.setFence fence]
  else
    [.setFence fence, .setCleanup (max d.cleanupBefore fence.fromSeq),
      .drop (fun start =>
        ¬ (start < fence.fromSeq ∨ (fence.untilSeq ≠ 0 ∧ start ≥ fence.untilSeq)))] ++
      (d.fenceControl ctrl).retireOps progress

end FecDecoder

/-- What reaches the decoder, with what its probe answers during the call. -/
inductive Incoming where
  | data (progress : Option Nat) (seq : Nat) (frame : Bytes)
  | control (before after : Option Nat) (payload : Bytes)

namespace FecDecoder

/-- Process one arrival. A control payload with a protocol error changes nothing. -/
def receive (d : FecDecoder) : Incoming → FecDecoder × Option (Nat × Bytes)
  | .data progress seq frame => d.onData progress seq frame
  | .control before after payload =>
    match d.onControl before after payload with
    | .ok result => result
    | .error _ => (d, none)

/-- The operations of one arrival. -/
def ops (d : FecDecoder) : Incoming → List TableOp
  | .data progress seq frame => d.dataOps progress seq frame
  | .control before after payload =>
    match parseControlKind payload with
    | .error _ => []
    | .ok kind =>
      if kind = controlKindFECParity then d.parityOps before after payload
      else
        match parseFECModeControl payload with
        | some ctrl => d.modeOps before ctrl
        | none => []

/-- The decoder after a list of arrivals. -/
def receiveAll (d : FecDecoder) : List Incoming → FecDecoder
  | [] => d
  | item :: rest => (d.receive item).1.receiveAll rest

/-- The operations of a list of arrivals. -/
def trace (d : FecDecoder) : List Incoming → List TableOp
  | [] => []
  | item :: rest => d.ops item ++ (d.receive item).1.trace rest

/-! ## The order of creation -/

/-- The groups created last, from the oldest one on that is still live. -/
def backlog (d : FecDecoder) : List Nat :=
  (d.groupOrder.drop d.groupHead).dropWhile (fun start => start ∉ d.groups)

/-- The group that has to go before another one is created. -/
def victim (d : FecDecoder) : Option Nat :=
  if d.groups.keys.length ≥ fecMaxPendingGroups then
    (d.groupOrder.drop d.groupHead).find? (fun start => start ∈ d.groups)
  else none

/-- Pruning leaves the backlog as the rest of the order, with fewer entries before it than in it. -/
theorem prune_spec (d : FecDecoder) :
    ∃ order head, d.pruneGroupOrder = { d with groupOrder := order, groupHead := head } ∧
      order.drop head = d.backlog ∧ head ≤ order.length ∧
      order.length ≤ 2 * d.backlog.length ∧ order.length ≤ d.groupOrder.length := by
  have hsplit := takeWhile_append_dropWhile (p := fun start => decide (start ∉ d.groups))
    (l := d.groupOrder.drop d.groupHead)
  have htail : d.groupOrder.drop (d.groupHead +
      ((d.groupOrder.drop d.groupHead).takeWhile (fun start => start ∉ d.groups)).length) =
      d.backlog := by
    rw [← drop_drop]
    nth_rewrite 2 [← hsplit]
    exact drop_left
  unfold pruneGroupOrder
  dsimp only
  generalize ((d.groupOrder.drop d.groupHead).takeWhile fun start =>
    decide (start ∉ d.groups)).length = skipped at htail ⊢
  have hlength : d.backlog.length = d.groupOrder.length - (d.groupHead + skipped) := by
    rw [← htail, length_drop]
  split
  · refine ⟨d.groupOrder, d.groupHead, rfl, ?_, by omega, by omega, le_rfl⟩
    rw [← htail, show d.groupHead + skipped = d.groupHead by omega]
  · split
    · refine ⟨[], 0, rfl, ?_, le_rfl, Nat.zero_le _, Nat.zero_le _⟩
      exact (length_eq_zero_iff.mp (by omega)).symm
    · split
      · refine ⟨_, 0, rfl, htail, Nat.zero_le _, ?_, ?_⟩
        · rw [htail]
          omega
        · rw [length_drop]
          omega
      · exact ⟨d.groupOrder, _, rfl, htail, by omega, by omega, le_rfl⟩

/-- The loop of an eviction removes the first live group, if there is one, and passes no other live
one. -/
theorem evict_from_spec (d : FecDecoder) (order : List Nat) :
    ∃ head groups, d.evictFrom order = { d with groups, groupHead := d.groupHead + head } ∧
      groups = (order.find? (fun start => start ∈ d.groups)).elim d.groups (d.groups.erase ·) ∧
      ∀ other ∈ order, other ∈ groups → other ∈ order.drop head := by
  induction order generalizing d with
  | nil => exact ⟨0, d.groups, rfl, rfl, fun _ hother _ => hother⟩
  | cons start rest ih =>
    by_cases hlive : start ∈ d.groups
    · refine ⟨1, d.groups.erase start, ?_, ?_, fun other hother hspared => ?_⟩
      · rw [evictFrom, if_pos hlive]
      · rw [find?_cons_of_pos (by simpa using hlive)]
        rfl
      · exact (mem_cons.mp hother).resolve_left (AList.mem_erase.mp hspared).1
    · obtain ⟨head, groups, hevict, hgroups, hrest⟩ := ih { d with groupHead := d.groupHead + 1 }
      dsimp only at hevict hgroups
      refine ⟨head + 1, groups, ?_, ?_, fun other hother hspared => ?_⟩
      · rw [evictFrom, if_neg hlive, hevict, Nat.add_right_comm, Nat.add_assoc]
      · rw [find?_cons_of_neg (by simpa using hlive)]
        exact hgroups
      · refine hrest other ((mem_cons.mp hother).resolve_left ?_) hspared
        rintro rfl
        rw [hgroups] at hspared
        cases hfound : rest.find? (fun start => start ∈ d.groups) with
        | none =>
          rw [hfound] at hspared
          exact hlive hspared
        | some victim =>
          rw [hfound] at hspared
          exact hlive (AList.mem_erase.mp hspared).2

/-- Dropping entries that are not live does not change the first live one. -/
theorem find_backlog (d : FecDecoder) :
    d.backlog.find? (fun start => start ∈ d.groups) =
      (d.groupOrder.drop d.groupHead).find? (fun start => start ∈ d.groups) := by
  unfold backlog
  generalize d.groupOrder.drop d.groupHead = order
  induction order with
  | nil => rfl
  | cons start rest ih =>
    by_cases hlive : start ∈ d.groups
    · rw [dropWhile_cons_of_neg (by simpa using hlive)]
    · rw [dropWhile_cons_of_pos (by simpa using hlive), ih,
        find?_cons_of_neg (by simpa using hlive)]

variable {start : Nat}

/-- A live entry is not dropped. -/
theorem mem_drop_while {order : List Nat} {groups : AList (fun _ : Nat => FecGroupState)}
    (h : start ∈ order) (hlive : start ∈ groups) :
    start ∈ order.dropWhile (fun start => start ∉ groups) := by
  induction order with
  | nil => exact h
  | cons first rest ih =>
    by_cases hfirst : first ∈ groups
    · rw [dropWhile_cons_of_neg (by simpa using hfirst)]
      exact h
    · rw [dropWhile_cons_of_pos (by simpa using hfirst)]
      refine ih ((mem_cons.mp h).resolve_left ?_)
      rintro rfl
      exact hfirst hlive

/-- The groups that are left when the victim is gone. -/
def spared (d : FecDecoder) : AList (fun _ : Nat => FecGroupState) :=
  d.victim.elim d.groups (fun start => d.groups.erase start)

/-- What creating a group does: the victim goes, the new group is filed and appended to what is left
of the order, which still has every live group of the backlog. -/
theorem new_group_spec (d : FecDecoder) (start : Nat) :
    ∃ order head, d.newGroup start =
      { d with
        groups := d.spared.insert start (.new start)
        groupOrder := order ++ [start]
        groupHead := head } ∧
      head ≤ order.length ∧ order.length ≤ 2 * d.backlog.length ∧
      ∀ other ∈ d.backlog, other ∈ d.spared → other ∈ order.drop head := by
  obtain ⟨order, head, hprune, hdrop, hhead, hlength, -⟩ := d.prune_spec
  unfold newGroup spared victim
  dsimp only
  rw [hprune]
  dsimp only
  by_cases hfull : d.groups.keys.length ≥ fecMaxPendingGroups
  · rw [if_pos hfull, if_pos hfull, evictOldest]
    obtain ⟨n, groups, hevict, hgroups, hrest⟩ :=
      evict_from_spec { d with groupOrder := order, groupHead := head } (order.drop head)
    dsimp only at hevict hgroups ⊢
    rw [hdrop, find_backlog] at hgroups
    obtain ⟨order', head', hprune', hdrop', hhead', -, hshorter⟩ := prune_spec
      { d with groups, groupOrder := order, groupHead := head + n }
    rw [hevict, hprune', ← hgroups]
    refine ⟨order', head', rfl, hhead', hshorter.trans hlength, fun other hother hlive => ?_⟩
    rw [hdrop']
    refine mem_drop_while ?_ hlive
    show other ∈ order.drop (head + n)
    rw [← drop_drop]
    exact hrest other (hdrop ▸ hother) hlive
  · rw [if_neg hfull, if_neg hfull]
    exact ⟨order, head, rfl, hhead, hlength, fun other hother _ => hdrop ▸ hother⟩

/-- What dropping groups does: the order keeps every entry that is still live. -/
theorem drop_groups_spec (d : FecDecoder) (p : Nat → Bool) :
    ∃ order head, d.dropGroups p =
      { d with
        groups := (d.groups.keys.filter p).foldl (fun m start => m.erase start) d.groups
        groupOrder := order
        groupHead := head } ∧
      order.length ≤ d.groupOrder.length ∧
      ∀ other ∈ d.groupOrder.drop d.groupHead,
        other ∈ (d.groups.keys.filter p).foldl (fun m start => m.erase start) d.groups →
        other ∈ order.drop head := by
  unfold dropGroups
  dsimp only
  split
  · rename_i hnone
    rw [hnone]
    exact ⟨d.groupOrder, d.groupHead, rfl, le_rfl, fun _ hother _ => hother⟩
  · obtain ⟨order, head, hprune, hdrop, -, -, hshorter⟩ := prune_spec
      { d with
        groups := (d.groups.keys.filter p).foldl (fun m start => m.erase start) d.groups }
    rw [hprune]
    refine ⟨order, head, rfl, hshorter, fun other hother hlive => ?_⟩
    rw [hdrop]
    exact mem_drop_while hother hlive

/-! ## A call is the run of its operations -/

variable {d : FecDecoder}

theorem run_ops_append {d' : FecDecoder} {first second : List TableOp}
    (h : run opStep d first = some d') :
    run opStep d (first ++ second) = run opStep d' second := by
  rw [run_append, h]
  rfl

theorem local_recover_ops (g : FecGroupState) : ∀ op ∈ recoverOps g, op.Local := by
  unfold recoverOps
  cases g.parity with
  | none => simp
  | some parity =>
    dsimp only
    split
    · simp
    · match g.missing with
      | [] => simp [TableOp.Local]
      | [i] =>
        dsimp only
        split
        · simp [TableOp.Local]
        · simp [TableOp.Local]
      | _ :: _ :: _ => simp

theorem local_member_ops (fullMask : Nat) (g : FecGroupState) (i : Nat) (frame : Bytes) :
    ∀ op ∈ memberOps fullMask g i frame, op.Local := by
  unfold memberOps
  split
  · simp
  · split
    · simp [TableOp.Local]
    · exact forall_mem_cons.mpr ⟨trivial, local_recover_ops _⟩

/-- What recovery does to the table. -/
theorem run_recover_ops (d : FecDecoder) (g : FecGroupState) :
    run opStep d (recoverOps g) = some (d.tryRecover g).1 := by
  unfold recoverOps tryRecover
  cases g.parity with
  | none => rfl
  | some parity =>
    dsimp only
    split
    · rfl
    · match g.missing with
      | [] => rfl
      | [i] =>
        dsimp only
        split
        · rfl
        · rfl
      | _ :: _ :: _ => rfl

theorem run_open_ops (d : FecDecoder) (start : Nat) :
    run opStep d (d.openOps start) = some (d.openGroup start).1 := by
  unfold openOps openGroup
  cases d.lookupGroup start with
  | none | some => rfl

/-- What a member does to the table. -/
theorem run_member_ops (d : FecDecoder) (g : FecGroupState) (i : Nat) (frame : Bytes) :
    run opStep d (memberOps d.fullMask g i frame) = some (d.onMember g i frame).1 := by
  unfold memberOps onMember
  dsimp only
  split
  · rfl
  · split
    · rfl
    · exact run_recover_ops _ _

/-- Dropping groups does not read the retirement boundary. -/
theorem drop_groups_retired (d : FecDecoder) (boundary : Nat) (p : Nat → Bool) :
    { d with retiredBefore := boundary }.dropGroups p =
      { d.dropGroups p with retiredBefore := boundary } := by
  unfold dropGroups pruneGroupOrder
  dsimp only
  repeat' split
  all_goals rfl

/-- What retirement does to the table. -/
theorem run_retire_ops (d : FecDecoder) (progress : Option Nat) :
    run opStep d (d.retireOps progress) = some (d.maybeRetireOldGroups progress) := by
  unfold retireOps maybeRetireOldGroups
  split
  · rfl
  · cases progress with
    | none => rfl
    | some expected =>
      dsimp only
      split
      · rfl
      · rw [drop_groups_retired]
        rfl

/-- Opening a group leaves everything but the groups and their order alone. -/
theorem open_group_eq (d : FecDecoder) (start : Nat) :
    ∃ groups order head, (d.openGroup start).1 =
      { d with groups, groupOrder := order, groupHead := head } := by
  unfold openGroup
  split
  · exact ⟨d.groups, d.groupOrder, d.groupHead, rfl⟩
  · obtain ⟨order, head, hnew, -⟩ := d.new_group_spec start
    exact ⟨_, _, _, hnew⟩

/-- What a data frame does to the table. -/
theorem run_data_ops (d : FecDecoder) (progress : Option Nat) (seq : Nat) (frame : Bytes) :
    run opStep d (d.dataOps progress seq frame) = some (d.onData progress seq frame).1 := by
  unfold dataOps onData
  dsimp only
  split
  · rfl
  · split
    · rfl
    · split
      · split
        · exact run_retire_ops d progress
        · rfl
      · split
        · rfl
        · split
          · rfl
          · rw [run_ops_append (run_open_ops d _)]
            obtain ⟨groups, order, head, hopen⟩ := d.open_group_eq (d.groupStartOf seq)
            have hmask : (d.openGroup (d.groupStartOf seq)).1.fullMask = d.fullMask := by
              rw [hopen]
            rw [← hmask]
            exact run_member_ops _ _ _ _

/-- What an accepted record does to the table. -/
theorem run_accept_ops (d : FecDecoder) (after : Option Nat) (start : Nat) (lens : List Nat)
    (payload : Bytes) :
    run opStep d (d.acceptOps after start lens payload) =
      some (d.acceptParity after start lens payload).1 := by
  unfold acceptOps acceptParity
  dsimp only
  generalize openTo d.ic _ start _ = body
  cases body with
  | none =>
    dsimp only
    rw [run_ops_append (run_open_ops d start)]
    rfl
  | some body =>
    dsimp only
    rw [append_assoc, run_ops_append (run_open_ops d start)]
    exact (run_ops_append (run_recover_ops _ _)).trans (run_retire_ops _ _)

/-- What a record does to the table. -/
theorem run_parity_ops (d : FecDecoder) (before after : Option Nat) (payload : Bytes) :
    run opStep d (d.parityOps before after payload) = some (d.onParity before after payload).1 := by
  unfold parityOps onParity
  dsimp only
  split
  · rfl
  · split
    · rfl
    · rw [run_ops_append (run_retire_ops d before)]
      split
      · rfl
      · split
        · rfl
        · split
          · rfl
          · split
            · rfl
            · split
              · rfl
              · exact run_accept_ops _ _ _ _ _

/-- The first operations of a control that leaves a window are those of `fenceControl`. -/
theorem run_fence_ops {ctrl : FecModeControl}
    (hactive : ¬ ((d.fence.apply ctrl).2 = false ∨ (d.fence.apply ctrl).1.fromSeq = 0)) :
    run opStep d
        [.setFence (d.fence.apply ctrl).1,
          .setCleanup (max d.cleanupBefore (d.fence.apply ctrl).1.fromSeq),
          .drop (fun start => ¬ (start < (d.fence.apply ctrl).1.fromSeq ∨
            ((d.fence.apply ctrl).1.untilSeq ≠ 0 ∧ start ≥ (d.fence.apply ctrl).1.untilSeq)))] =
      some (d.fenceControl ctrl) := by
  rw [fenceControl]
  dsimp only
  rw [if_neg hactive, dropGroupsInRange, if_neg (not_or.mp hactive).2]
  rfl

/-- What a control does to the table. -/
theorem run_mode_ops (d : FecDecoder) (progress : Option Nat) (ctrl : FecModeControl) :
    run opStep d (d.modeOps progress ctrl) = some (d.handleModeControl progress ctrl) := by
  unfold modeOps handleModeControl
  dsimp only
  by_cases hidle : (d.fence.apply ctrl).2 = false ∨ (d.fence.apply ctrl).1.fromSeq = 0
  · rw [if_pos hidle, if_pos hidle, fenceControl]
    dsimp only
    rw [if_pos hidle]
    rfl
  · rw [if_neg hidle, if_neg hidle]
    exact (run_ops_append (run_fence_ops hidle)).trans (run_retire_ops _ _)

/-- A call is the run of its operations. -/
theorem receive_eq_run (d : FecDecoder) (item : Incoming) :
    run opStep d (d.ops item) = some (d.receive item).1 := by
  cases item with
  | data progress seq frame => exact run_data_ops d progress seq frame
  | control before after payload =>
    unfold ops receive onControl
    dsimp only
    cases parseControlKind payload with
    | error e => rfl
    | ok kind =>
      simp only [bind, Except.bind]
      split
      · exact run_parity_ops d before after payload
      · cases parseFECModeControl payload with
        | none => rfl
        | some ctrl => exact run_mode_ops d before ctrl

theorem receive_all_append (d : FecDecoder) (first second : List Incoming) :
    d.receiveAll (first ++ second) = (d.receiveAll first).receiveAll second := by
  induction first generalizing d with
  | nil => rfl
  | cons item rest ih => exact ih _

theorem trace_append (d : FecDecoder) (first second : List Incoming) :
    d.trace (first ++ second) = d.trace first ++ (d.receiveAll first).trace second := by
  induction first generalizing d with
  | nil => rfl
  | cons item rest ih =>
    rw [cons_append, trace, ih, ← append_assoc]
    rfl

theorem receive_all_eq_run (d : FecDecoder) (items : List Incoming) :
    run opStep d (d.trace items) = some (d.receiveAll items) := by
  induction items generalizing d with
  | nil => rfl
  | cons item rest ih =>
    rw [trace, run_ops_append (receive_eq_run d item)]
    exact ih _

/-! ## Operations suit the state they are applied in -/

/-- The groups are filed under their own starts and have the size of the decoder or none yet. -/
structure WellFormed (d : FecDecoder) : Prop where
  size : 2 ≤ d.k
  mask : d.fullMask = 2 ^ d.k - 1
  keyed : d.Keyed
  sized : ∀ start g, d.lookupGroup start = some g → g.k = 0 ∨ g.k = d.k

/-- A group is created at a boundary if there is none, only a live one is updated or finished, and
only an inconsistent one is finished with a member missing. -/
def Suits (d : FecDecoder) : TableOp → Prop
  | .create start => ¬ d.Live start ∧ GroupBoundary d.k start
  | .put g => d.Live g.start ∧ (g.k = 0 ∨ g.k = d.k)
  | .finish reason g => d.Live g.start ∧ (reason ≠ .inconsistent → g.missing = [])
  | .countRecovered | .setFence _ | .setCleanup _ | .setRetired _ | .drop _ => True

theorem well_formed_new (k : Nat) (ic : Option InnerCipher) : (new k ic).WellFormed := by
  refine ⟨(clamp_fec_group_range k).1, rfl, ?_, ?_⟩
  · intro start g hg
    cases hg
  · intro start g hg
    cases hg

/-- The topology flag does not matter. -/
theorem WellFormed.with_single (h : d.WellFormed) (single : Bool) :
    WellFormed { d with staticSingle := single } :=
  ⟨h.size, h.mask, h.keyed, h.sized⟩

variable {g : FecGroupState}

/-- Where a group comes from that is live after an operation. -/
theorem lookup_apply_op {op : TableOp} (h : (d.applyOp op).lookupGroup start = some g) :
    d.lookupGroup start = some g ∨ (op = .create start ∧ g = .new start) ∨
      (op = .put g ∧ start = g.start) := by
  cases op with
  | create first =>
    obtain ⟨order, head, hnew, -⟩ := d.new_group_spec first
    simp only [applyOp, hnew, lookupGroup] at h
    by_cases heq : start = first
    · subst heq
      rw [AList.lookup_insert] at h
      cases h
      exact .inr (.inl ⟨rfl, rfl⟩)
    · rw [AList.lookup_insert_ne heq, spared] at h
      cases hvictim : d.victim with
      | none =>
        rw [hvictim] at h
        exact .inl h
      | some victim =>
        rw [hvictim] at h
        exact .inl (lookup_erase_some h).2
  | put g' =>
    simp only [applyOp, setGroup, lookupGroup] at h
    by_cases heq : start = g'.start
    · subst heq
      rw [AList.lookup_insert] at h
      cases h
      exact .inr (.inr ⟨rfl, rfl⟩)
    · rw [AList.lookup_insert_ne heq] at h
      exact .inl h
  | finish reason g' => exact .inl (lookup_erase_some h).2
  | drop p =>
    obtain ⟨order, head, hdrop, -⟩ := d.drop_groups_spec p
    simp only [applyOp, hdrop, lookupGroup] at h
    exact .inl (lookup_of_foldl_erase h)
  | countRecovered | setFence | setCleanup | setRetired => exact .inl h

/-- No operation changes the size. -/
theorem size_apply_op (d : FecDecoder) (op : TableOp) :
    (d.applyOp op).k = d.k ∧ (d.applyOp op).fullMask = d.fullMask := by
  cases op with
  | create start =>
    obtain ⟨order, head, hnew, -⟩ := d.new_group_spec start
    simp only [applyOp, hnew, and_self]
  | drop p =>
    obtain ⟨order, head, hdrop, -⟩ := d.drop_groups_spec p
    simp only [applyOp, hdrop, and_self]
  | put | finish | countRecovered | setFence | setCleanup | setRetired => exact ⟨rfl, rfl⟩

theorem WellFormed.apply_op {op : TableOp} (h : d.WellFormed) (hsuits : d.Suits op) :
    (d.applyOp op).WellFormed := by
  obtain ⟨hk, hmask⟩ := d.size_apply_op op
  refine ⟨hk ▸ h.size, by rw [hk, hmask]; exact h.mask, ?_, ?_⟩
  · intro start g hg
    rcases lookup_apply_op hg with hold | ⟨-, rfl⟩ | ⟨-, rfl⟩
    · exact h.keyed start g hold
    · rfl
    · rfl
  · intro start g hg
    rw [hk]
    rcases lookup_apply_op hg with hold | ⟨-, rfl⟩ | ⟨rfl, -⟩
    · exact h.sized start g hold
    · exact .inl rfl
    · exact hsuits.2

/-- A run of suitable operations keeps the decoder well formed. -/
theorem WellFormed.run_ops {list : List TableOp} {d' : FecDecoder} (h : d.WellFormed)
    (hsuits : Along opStep Suits d list) (hrun : run opStep d list = some d') : d'.WellFormed := by
  have hpreserve : ∀ (d : FecDecoder) op d', d.WellFormed → d.Suits op →
      opStep d op = some d' → d'.WellFormed := by
    intro d op d' hwell hop hstep
    cases hstep
    exact hwell.apply_op hop
  exact run_invariant hpreserve h hsuits hrun

theorem missing_of_full {k : Nat} (hmask : g.gotMask = 2 ^ k - 1) (hk : g.k ≤ k) :
    g.missing = [] := by
  refine filter_eq_nil_iff.mpr fun i hi => ?_
  have hlt := mem_range.mp hi
  have hgot : g.Got i := by
    rw [FecGroupState.got_iff_testBit, hmask, Nat.testBit_two_pow_sub_one]
    exact decide_eq_true (by omega)
  simp [hgot]

/-- Marking the only member missing leaves none. -/
theorem missing_mark {i : Nat} (h : g.missing = [i]) : (g.mark i).missing = [] := by
  refine filter_eq_nil_iff.mpr fun j hj => ?_
  have hiff : j ∈ g.missing ↔ ¬ g.Got j := by
    rw [FecGroupState.missing, mem_filter]
    simp only [decide_eq_true_eq, and_iff_right_iff_imp]
    exact fun _ => hj
  rw [h, mem_singleton] at hiff
  by_cases heq : j = i
  · simp [heq]
  · simp [show g.Got j by tauto]

theorem live_put (d : FecDecoder) (g : FecGroupState) : (d.setGroup g).Live g.start := by
  rw [Live, lookupGroup, setGroup, AList.lookup_insert]
  rfl

theorem along_recover_ops (hlive : d.Live g.start) : Along opStep Suits d (recoverOps g) := by
  unfold recoverOps
  cases g.parity with
  | none => trivial
  | some parity =>
    dsimp only
    split
    · trivial
    · match hmissing : g.missing with
      | [] => exact ⟨⟨hlive, fun _ => hmissing⟩, trivial⟩
      | [i] =>
        dsimp only
        split
        · exact ⟨⟨hlive, fun hne => absurd rfl hne⟩, trivial⟩
        · exact ⟨⟨hlive, fun _ => missing_mark hmissing⟩, trivial, trivial⟩
      | _ :: _ :: _ => trivial

theorem along_open_ops (hboundary : GroupBoundary d.k start) :
    Along opStep Suits d (d.openOps start) := by
  unfold openOps
  cases hlookup : d.lookupGroup start with
  | none =>
    refine ⟨⟨?_, hboundary⟩, trivial⟩
    rw [Live, hlookup]
    exact Bool.false_ne_true
  | some g => trivial

/-- The group that was opened is live and has the size of the decoder or none yet. -/
theorem WellFormed.open_group (h : d.WellFormed) (start : Nat) :
    (d.openGroup start).1.Live start ∧ (d.openGroup start).2.start = start ∧
      ((d.openGroup start).2.k = 0 ∨ (d.openGroup start).2.k = d.k) := by
  unfold openGroup
  cases hlookup : d.lookupGroup start with
  | none =>
    refine ⟨?_, rfl, .inl rfl⟩
    obtain ⟨order, head, hnew, -⟩ := d.new_group_spec start
    rw [Live, hnew, lookupGroup, AList.lookup_insert]
    rfl
  | some g =>
    refine ⟨?_, h.keyed start g hlookup, h.sized start g hlookup⟩
    rw [Live, hlookup]
    rfl

variable {frame : Bytes}

theorem along_member_ops {i : Nat} (h : d.WellFormed) (hlive : d.Live g.start)
    (hk : g.k = 0 ∨ g.k = d.k) : Along opStep Suits d (memberOps d.fullMask g i frame) := by
  unfold memberOps
  split
  · trivial
  · split
    · rename_i hfull
      rw [h.mask] at hfull
      refine ⟨⟨hlive, fun _ => missing_of_full hfull ?_⟩, trivial⟩
      show g.k ≤ d.k
      omega
    · refine ⟨⟨hlive, hk⟩, ?_⟩
      exact along_recover_ops (live_put d { g.mark i with acc := xorExtend g.acc frame })

theorem along_retire_ops (d : FecDecoder) (progress : Option Nat) :
    Along opStep Suits d (d.retireOps progress) := by
  unfold retireOps
  split
  · trivial
  · cases progress with
    | none => trivial
    | some expected =>
      dsimp only
      split
      · trivial
      · exact ⟨trivial, trivial, trivial⟩

variable {seq : Nat}

/-- The group of a data frame starts at a boundary. -/
theorem boundary_group_start_of (d : FecDecoder) (hseq : seq ≠ 0) :
    GroupBoundary d.k (d.groupStartOf seq) := by
  have hle : (seq - 1) % d.k ≤ seq - 1 := Nat.mod_le _ _
  have hquot := Nat.mod_add_div (seq - 1) d.k
  refine ⟨by unfold groupStartOf; omega, ?_⟩
  rw [show d.groupStartOf seq - 1 = d.k * ((seq - 1) / d.k) by unfold groupStartOf; omega,
    Nat.mul_mod_right]

theorem along_data_ops (h : d.WellFormed) (progress : Option Nat) (seq : Nat) (frame : Bytes) :
    Along opStep Suits d (d.dataOps progress seq frame) := by
  unfold dataOps
  split
  · trivial
  · rename_i hshape
    split
    · trivial
    · split
      · split
        · exact along_retire_ops d progress
        · trivial
      · split
        · trivial
        · split
          · trivial
          · have hopen := along_open_ops (d.boundary_group_start_of (not_or.mp hshape).2)
            have hrun := run_open_ops d (d.groupStartOf seq)
            obtain ⟨hlive, hstart, hk⟩ := h.open_group (d.groupStartOf seq)
            obtain ⟨groups, order, head, hopened⟩ := d.open_group_eq (d.groupStartOf seq)
            have hsame : (d.openGroup (d.groupStartOf seq)).1.fullMask = d.fullMask ∧
                (d.openGroup (d.groupStartOf seq)).1.k = d.k := by
              rw [hopened]
              exact ⟨rfl, rfl⟩
            refine hopen.join hrun ?_
            rw [← hsame.1]
            refine along_member_ops (h.run_ops hopen hrun) ?_ ?_
            · rw [hstart]
              exact hlive
            · rw [hsame.2]
              exact hk

theorem along_accept_ops (h : d.WellFormed) (after : Option Nat)
    (hboundary : GroupBoundary d.k start) (lens : List Nat) (payload : Bytes) :
    Along opStep Suits d (d.acceptOps after start lens payload) := by
  have hopen := along_open_ops hboundary
  have hrun := run_open_ops d start
  obtain ⟨hlive, hstart, -⟩ := h.open_group start
  obtain ⟨groups, order, head, hopened⟩ := d.open_group_eq start
  have hsize : (d.openGroup start).1.k = d.k := by rw [hopened]
  have hput : ∀ g : FecGroupState, g.start = (d.openGroup start).2.start → g.k = d.k →
      (d.openGroup start).1.Suits (.put g) := by
    intro g hg hk
    refine ⟨?_, .inr (hk.trans hsize.symm)⟩
    rw [hg, hstart]
    exact hlive
  unfold acceptOps
  dsimp only
  generalize openTo d.ic _ start _ = body
  cases body with
  | none =>
    dsimp only
    exact hopen.join hrun ⟨hput _ rfl rfl, trivial⟩
  | some body =>
    dsimp only
    rw [append_assoc]
    refine hopen.join hrun ⟨hput _ rfl rfl, ?_⟩
    have hlive := live_put (d.openGroup start).1
      { (d.openGroup start).2 with k := d.k, lens, parity := some body }
    refine Along.join (along_recover_ops hlive) (run_recover_ops _ _) ?_
    exact along_retire_ops _ after

theorem along_parity_ops (h : d.WellFormed) (before after : Option Nat) (payload : Bytes) :
    Along opStep Suits d (d.parityOps before after payload) := by
  unfold parityOps
  dsimp only
  split
  · trivial
  · split
    · trivial
    · rename_i hshape
      obtain ⟨hpos, -, hmod⟩ := not_or.mp hshape |>.imp_right not_or.mp
      have hretire := along_retire_ops d before
      have hrun := run_retire_ops d before
      have hwell := h.run_ops hretire hrun
      have hk : (d.maybeRetireOldGroups before).k = d.k := (adds_maybe_retire d before []).k_eq
      refine hretire.join hrun ?_
      split
      · trivial
      · split
        · trivial
        · split
          · trivial
          · split
            · trivial
            · split
              · trivial
              · refine along_accept_ops hwell after ?_ _ _
                rw [hk]
                exact ⟨Nat.pos_of_ne_zero hpos, not_not.mp hmod⟩

theorem along_mode_ops (d : FecDecoder) (progress : Option Nat) (ctrl : FecModeControl) :
    Along opStep Suits d (d.modeOps progress ctrl) := by
  unfold modeOps
  dsimp only
  split
  · exact ⟨trivial, trivial⟩
  · rename_i hactive
    refine Along.join ⟨trivial, trivial, trivial, trivial⟩ (run_fence_ops hactive) ?_
    exact along_retire_ops _ progress

/-- The operations of an arrival suit the state they are applied in. -/
theorem along_ops (h : d.WellFormed) (item : Incoming) : Along opStep Suits d (d.ops item) := by
  cases item with
  | data progress seq frame => exact along_data_ops h progress seq frame
  | control before after payload =>
    unfold ops
    dsimp only
    cases parseControlKind payload with
    | error e => trivial
    | ok kind =>
      dsimp only
      split
      · exact along_parity_ops h before after payload
      · cases parseFECModeControl payload with
        | none => trivial
        | some ctrl => exact along_mode_ops d before ctrl

/-- The operations of any number of arrivals do. -/
theorem along_trace (h : d.WellFormed) (items : List Incoming) :
    Along opStep Suits d (d.trace items) := by
  induction items generalizing d with
  | nil => trivial
  | cons item rest ih =>
    have hrun := receive_eq_run d item
    exact (along_ops h item).join hrun (ih (h.run_ops (along_ops h item) hrun))

/-- What every suitable operation keeps, every sequence of arrivals keeps. -/
theorem receive_all_invariant {Inv : FecDecoder → Prop} (items : List Incoming)
    (hpreserve : ∀ d op, d.WellFormed → Inv d → d.Suits op → Inv (d.applyOp op))
    (hwell : d.WellFormed) (hinit : Inv d) :
    (d.receiveAll items).WellFormed ∧ Inv (d.receiveAll items) := by
  have hstep : ∀ (d : FecDecoder) op d', d.WellFormed ∧ Inv d → d.Suits op →
      opStep d op = some d' → d'.WellFormed ∧ Inv d' := by
    rintro d op d' ⟨hwell, hinv⟩ hop hstep
    cases hstep
    exact ⟨hwell.apply_op hop, hpreserve d op hwell hinv hop⟩
  exact run_invariant hstep ⟨hwell, hinit⟩ (along_trace hwell items) (receive_all_eq_run d items)

/-! ## A decoder without controls -/

/-- No control was applied and the topology is not a static single path. -/
structure Plain (d : FecDecoder) : Prop where
  staticSingle_eq : d.staticSingle = false
  fence_eq : d.fence = .new
  cleanupBefore_eq : d.cleanupBefore = 0
  retiredBefore_eq : d.retiredBefore = 0

theorem plain_new (k : Nat) (ic : Option InnerCipher) : (new k ic).Plain := ⟨rfl, rfl, rfl, rfl⟩

/-- Without a control nothing is retired. -/
theorem Plain.maybe_retire (h : d.Plain) (progress : Option Nat) :
    d.maybeRetireOldGroups progress = d :=
  if_pos (.inl h.cleanupBefore_eq)

theorem Plain.on_data (h : d.Plain) (progress : Option Nat) (hframe : frame ≠ []) (hseq : seq ≠ 0) :
    d.onData progress seq frame =
      if d.IsDone (d.groupStartOf seq) then (d, none)
      else (d.openGroup (d.groupStartOf seq)).1.onMember (d.openGroup (d.groupStartOf seq)).2
        (seq - d.groupStartOf seq) frame := by
  unfold onData
  rw [if_neg (not_or.mpr ⟨hframe, hseq⟩), h.staticSingle_eq, if_neg Bool.false_ne_true, h.fence_eq,
    if_neg (by simp [FecRXFenceState.bypassData, FecRXFenceState.Covers, FecRXFenceState.new]),
    if_neg (fun hretired => hretired.1 h.retiredBefore_eq)]

/-- As long as the first entry of the order is live, nothing is pruned. -/
theorem prune_of_live {first : Nat} {rest : List Nat} (hhead : d.groupHead = 0)
    (horder : d.groupOrder = first :: rest) (hlive : first ∈ d.groups) :
    d.pruneGroupOrder = d := by
  have hnone : (d.groupOrder.drop d.groupHead).takeWhile (fun start => start ∉ d.groups) = [] := by
    rw [hhead, horder, drop_zero, takeWhile_cons_of_neg (by simpa using hlive)]
  unfold pruneGroupOrder
  dsimp only
  rw [hnone, hhead]
  rfl

/-- A group that holds its first member only. -/
def firstMember (start : Nat) (frame : Bytes) : FecGroupState :=
  { (FecGroupState.new start).mark 0 with acc := xorExtend [] frame }

/-- The first frame of a group below the limit, while the first entry of the order is live. -/
theorem Plain.on_first_member (h : d.Plain) (progress : Option Nat) {first : Nat} {rest : List Nat}
    (hhead : d.groupHead = 0) (horder : d.groupOrder = first :: rest) (hlive : first ∈ d.groups)
    (hroom : d.groups.keys.length < fecMaxPendingGroups) (hnew : d.lookupGroup start = none)
    (hdone : ¬ d.IsDone start) (hboundary : GroupBoundary d.k start) (hmask : d.fullMask ≠ 1)
    (hframe : frame ≠ []) :
    d.onData progress start frame =
      ({ d with
        groups := d.groups.insert start (firstMember start frame)
        groupOrder := d.groupOrder ++ [start] }, none) := by
  have hstart : d.groupStartOf start = start := by
    rw [groupStartOf, hboundary.2, Nat.sub_zero]
  have hopen : d.openGroup start =
      ({ d with
        groups := d.groups.insert start (.new start)
        groupOrder := d.groupOrder ++ [start] }, .new start) := by
    unfold openGroup
    rw [hnew]
    dsimp only
    rw [newGroup, prune_of_live hhead horder hlive, if_neg (Nat.not_le.mpr hroom)]
  have hnone : ((FecGroupState.new start).mark 0).gotMask = 1 := by
    show 0 ||| 1 <<< 0 = 1
    decide
  rw [h.on_data progress hframe (Nat.ne_of_gt hboundary.1), hstart, if_neg hdone, hopen,
    Nat.sub_self, onMember, if_neg (FecGroupState.not_got_new start 0),
    if_neg (fun heq => hmask (heq.symm.trans hnone))]
  dsimp only
  rw [try_recover_waiting (.inl rfl)]
  unfold setGroup
  dsimp only
  rw [show ((FecGroupState.new start).mark 0).start = start from rfl, AList.insert_insert]
  rfl

/-- The last member of a group finishes it. -/
theorem Plain.on_last_member (h : d.Plain) (progress : Option Nat)
    (hlookup : d.lookupGroup start = some g) (hstart : d.groupStartOf seq = start)
    (hdone : ¬ d.IsDone start) (hgot : ¬ g.Got (seq - start))
    (hmask : (g.mark (seq - start)).gotMask = d.fullMask) (hseq : seq ≠ 0) (hframe : frame ≠ []) :
    d.onData progress seq frame = (d.finishGroup (g.mark (seq - start)), none) := by
  have hopen : d.openGroup start = (d, g) := by
    unfold openGroup
    rw [hlookup]
  rw [h.on_data progress hframe hseq, hstart, if_neg hdone, hopen, onMember, if_neg hgot,
    if_pos hmask]

end FecDecoder

end TlsVpn.Fec
