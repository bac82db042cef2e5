import Mathlib.Data.List.Basic

/-!
# Runs of a partial step function

A system is a step function `step : State → Action → Option State`, where `none` says that the
action is not enabled. `run` takes a list of actions one after another, and `Along` says that
every action of a run meets a condition in the state it is taken from. `run_invariant` is the
induction rule of every safety proof of the development: what each allowed step preserves, a
whole run of allowed steps preserves. `run_remaining` is the rule for invariants that speak of the
actions still to come, and `run_invariant_ahead` for those that compare a state with the last one.
-/

namespace TlsVpn.Lib

variable {State Action : Type*}

/-- Take the actions of a list one after another. A disabled action stops the run. -/
def run (step : State → Action → Option State) : State → List Action → Option State
  | state, [] => some state
  | state, action :: rest => (step state action).bind fun next => run step next rest

/-- Every action of the list meets `allowed` in the state it is taken from. -/
def Along (step : State → Action → Option State) (allowed : State → Action → Prop) :
    State → List Action → Prop
  | _, [] => True
  | state, action :: rest =>
    allowed state action ∧
      match step state action with
      | some next => Along step allowed next rest
      | none => True

/-- A decidable condition can be checked along a concrete run. -/
instance decidableAlong (step : State → Action → Option State)
    (allowed : State → Action → Prop) [∀ state action, Decidable (allowed state action)] :
    ∀ (state : State) (actions : List Action), Decidable (Along step allowed state actions)
  | _, [] => isTrue trivial
  | state, action :: rest =>
    let tail : Decidable (match step state action with
        | some next => Along step allowed next rest
        | none => True) :=
      match step state action with
      | some next => decidableAlong step allowed next rest
      | none => isTrue trivial
    @instDecidableAnd _ _ _ tail

variable {step : State → Action → Option State} {allowed : State → Action → Prop}

@[simp] theorem run_nil (state : State) : run step state [] = some state := rfl

theorem run_cons (state : State) (action : Action) (rest : List Action) :
    run step state (action :: rest) = (step state action).bind fun next => run step next rest := rfl

variable {state final : State} {action : Action} {rest : List Action}

/-- A run of a nonempty list takes the first action and then runs the rest. -/
theorem run_cons_eq_some :
    run step state (action :: rest) = some final ↔
      ∃ next, step state action = some next ∧ run step next rest = some final := by
  rw [run_cons, Option.bind_eq_some_iff]

/-- Running `first ++ second` is running `first` and then `second`. -/
theorem run_append (state : State) (first second : List Action) :
    run step state (first ++ second) =
      (run step state first).bind fun next => run step next second := by
  induction first generalizing state with
  | nil => rfl
  | cons action rest ih =>
    rw [List.cons_append, run_cons, run_cons]
    cases step state action with
    | none => rfl
    | some next => exact ih next

variable {next : State}

/-- A condition that holds along a nonempty run holds at its first step and along the rest. -/
theorem Along.cons (h : Along step allowed state (action :: rest))
    (hstep : step state action = some next) :
    allowed state action ∧ Along step allowed next rest := by
  refine ⟨h.1, ?_⟩
  have hrest := h.2
  simp only [hstep] at hrest
  exact hrest

variable {actions : List Action}

/-- A weaker condition holds along the same actions. -/
theorem Along.mono {weaker : State → Action → Prop}
    (hweaker : ∀ state action, allowed state action → weaker state action)
    (h : Along step allowed state actions) : Along step weaker state actions := by
  induction actions generalizing state with
  | nil => trivial
  | cons action rest ih =>
    refine ⟨hweaker state action h.1, ?_⟩
    have hrest := h.2
    cases hstep : step state action with
    | none => trivial
    | some next =>
      simp only [hstep] at hrest
      exact ih hrest

/-- Two conditions hold along a run together. -/
theorem Along.and {other : State → Action → Prop} (h : Along step allowed state actions)
    (hother : Along step other state actions) :
    Along step (fun state action => allowed state action ∧ other state action) state actions := by
  induction actions generalizing state with
  | nil => trivial
  | cons action rest ih =>
    refine ⟨⟨h.1, hother.1⟩, ?_⟩
    have hrest := h.2
    have hrest' := hother.2
    cases hstep : step state action with
    | none => trivial
    | some next =>
      simp only [hstep] at hrest hrest'
      exact ih hrest hrest'

/-- A condition on the actions of the list holds along every run of them. -/
theorem along_of_mem (h : ∀ action ∈ actions, ∀ state, allowed state action) :
    Along step allowed state actions := by
  induction actions generalizing state with
  | nil => trivial
  | cons action rest ih =>
    refine ⟨h action List.mem_cons_self state, ?_⟩
    cases step state action with
    | none => trivial
    | some next => exact ih fun other hother => h other (List.mem_cons_of_mem _ hother)

/-- A condition on the actions alone holds along the run besides. -/
theorem Along.and_mem {P : Action → Prop} (h : Along step allowed state actions)
    (hactions : ∀ action ∈ actions, P action) :
    Along step (fun state action => allowed state action ∧ P action) state actions :=
  h.and (along_of_mem fun action haction _ => hactions action haction)

variable {first second : List Action}

/-- A run of `first ++ second` passes through a state after `first`. -/
theorem run_append_eq_some :
    run step state (first ++ second) = some final ↔
      ∃ middle, run step state first = some middle ∧ run step middle second = some final := by
  rw [run_append, Option.bind_eq_some_iff]

/-- A condition that holds along `first ++ second` holds along both parts. -/
theorem Along.append {middle : State} (h : Along step allowed state (first ++ second))
    (hrun : run step state first = some middle) :
    Along step allowed state first ∧ Along step allowed middle second := by
  induction first generalizing state with
  | nil =>
    cases hrun
    exact ⟨trivial, h⟩
  | cons action rest ih =>
    obtain ⟨next, hstep, hrest⟩ := run_cons_eq_some.mp hrun
    obtain ⟨hallowed, halong⟩ := Along.cons h hstep
    obtain ⟨hfirst, hsecond⟩ := ih halong hrest
    refine ⟨⟨hallowed, ?_⟩, hsecond⟩
    rw [hstep]
    exact hfirst

/-- A condition that holds along both parts holds along `first ++ second`. -/
theorem Along.join {middle : State} (h : Along step allowed state first)
    (hrun : run step state first = some middle) (hsecond : Along step allowed middle second) :
    Along step allowed state (first ++ second) := by
  induction first generalizing state with
  | nil =>
    cases hrun
    exact hsecond
  | cons action rest ih =>
    obtain ⟨next, hstep, hrest⟩ := run_cons_eq_some.mp hrun
    obtain ⟨hallowed, halong⟩ := Along.cons h hstep
    refine ⟨hallowed, ?_⟩
    rw [hstep]
    exact ih halong hrest

/-- A condition holds along a run if it holds at every place at which the run can be split. -/
theorem along_of_split
    (h : ∀ before action rest middle, actions = before ++ action :: rest →
      run step state before = some middle → allowed middle action) :
    Along step allowed state actions := by
  induction actions generalizing state with
  | nil => trivial
  | cons action rest ih =>
    refine ⟨h [] action rest state rfl rfl, ?_⟩
    cases hstep : step state action with
    | none => trivial
    | some next =>
      refine ih fun before other after middle hsplit hrun => ?_
      refine h (action :: before) other after middle (by rw [hsplit]; rfl) ?_
      exact run_cons_eq_some.mpr ⟨next, hstep, hrun⟩

/-- An enabled action meets its guard. -/
theorem of_guarded {guard : Prop} [Decidable guard]
    (h : (if guard then some next else none) = some final) : guard ∧ next = final :=
  (Option.ite_none_right_eq_some.mp h).imp_right Option.some.inj

/-- What blocks an action does not hold when it is enabled. -/
theorem of_blocked {block : Prop} [Decidable block]
    (h : (if block then none else some next) = some final) : ¬ block ∧ next = final :=
  (Option.ite_none_left_eq_some.mp h).imp_right Option.some.inj

/-- A decidable fact about the value of a concrete computation can be computed. -/
theorem exists_some_of_decide {α : Type*} {P : α → Prop} [DecidablePred P] {value : Option α}
    (h : value.any (fun a => decide (P a)) = true) : ∃ a, value = some a ∧ P a := by
  obtain ⟨a, hvalue, ha⟩ := (Option.any_eq_true _ _).mp h
  exact ⟨a, hvalue, of_decide_eq_true ha⟩

/-- A decidable fact about the end of a concrete run can be computed. -/
theorem exists_run_of_decide {P : State → Prop} [DecidablePred P]
    (h : (run step state actions).any (fun final => decide (P final)) = true) :
    ∃ final, run step state actions = some final ∧ P final :=
  exists_some_of_decide h

/-- What every allowed step preserves, every run of allowed steps preserves. -/
theorem run_invariant {Inv : State → Prop}
    (hpreserve : ∀ state action next, Inv state → allowed state action →
      step state action = some next → Inv next)
    {state final : State} {actions : List Action} (hinit : Inv state)
    (halong : Along step allowed state actions) (hrun : run step state actions = some final) :
    Inv final := by
  induction actions generalizing state with
  | nil =>
    cases hrun
    exact hinit
  | cons action rest ih =>
    obtain ⟨next, hstep, hrest⟩ := run_cons_eq_some.mp hrun
    obtain ⟨hallowed, halong⟩ := halong.cons hstep
    exact ih (hpreserve _ _ _ hinit hallowed hstep) halong hrest

/-- A condition that holds of every step holds along every run. -/
theorem along_of_forall (h : ∀ state action, allowed state action) (state : State)
    (actions : List Action) : Along step allowed state actions :=
  along_of_mem fun action _ state => h state action

/-- An invariant of every step holds in every state that a run reaches. -/
theorem run_preserves {Inv : State → Prop}
    (hpreserve : ∀ state action next, Inv state → step state action = some next → Inv next)
    {state final : State} {actions : List Action} (hinit : Inv state)
    (hrun : run step state actions = some final) : Inv final :=
  run_invariant
    (fun state action next hinv _ hstep => hpreserve state action next hinv hstep)
    hinit (along_of_forall (fun _ _ => (trivial : True)) _ _) hrun

/-- What the steps of a run note in the states that they lead to, in their order. -/
def noted {Note : Type*} (step : State → Action → Option State)
    (note : State → Action → List Note) : State → List Action → List Note
  | _, [] => []
  | state, action :: rest =>
    match step state action with
    | some next => note next action ++ noted step note next rest
    | none => []

theorem noted_cons {Note : Type*} {note : State → Action → List Note}
    (hstep : step state action = some next) (rest : List Action) :
    noted step note state (action :: rest) = note next action ++ noted step note next rest := by
  simp only [noted, hstep]

/-- If every allowed step is a step of a system with a larger state, so is every run. -/
theorem run_lift {Large : Type*} {view : Large → State}
    {largeStep : Large → Action → Option Large} {Inv : Large → Prop}
    (hlift : ∀ large action next, Inv large → allowed (view large) action →
      step (view large) action = some next →
      ∃ large', largeStep large action = some large' ∧ view large' = next ∧ Inv large')
    {large : Large} {final : State} {actions : List Action} (hinit : Inv large)
    (halong : Along step allowed (view large) actions)
    (hrun : run step (view large) actions = some final) :
    ∃ large', run largeStep large actions = some large' ∧ view large' = final ∧ Inv large' := by
  induction actions generalizing large with
  | nil =>
    cases hrun
    exact ⟨large, rfl, rfl, hinit⟩
  | cons action rest ih =>
    obtain ⟨next, hstep, hrest⟩ := run_cons_eq_some.mp hrun
    obtain ⟨hallowed, halong⟩ := halong.cons hstep
    obtain ⟨large', hlarge, rfl, hinv⟩ := hlift _ _ _ hinit hallowed hstep
    obtain ⟨last, hlast, hview⟩ := ih hinv halong hrest
    exact ⟨last, run_cons_eq_some.mpr ⟨large', hlarge, hlast⟩, hview⟩

/-! ## Invariants that look ahead

Some invariants are about what a run will have done when it ends: a log that only grows is compared
with the log it becomes. The states of a run are ordered by a relation that every step respects, and
the proof for one step may use that the next state stands before the last.
-/

section Ahead

variable {Base : State → Prop} {Before : State → State → Prop}
  (hrefl : ∀ state, Before state state)
  (htrans : ∀ {first second third}, Before first second → Before second third →
    Before first third)
  (hbase : ∀ state action next, Base state → allowed state action →
    step state action = some next → Base next ∧ Before state next)
include hrefl htrans hbase

/-- The states of a run stand before its last one. -/
theorem run_before {state final : State} {actions : List Action} (hinit : Base state)
    (halong : Along step allowed state actions) (hrun : run step state actions = some final) :
    Base final ∧ Before state final := by
  induction actions generalizing state with
  | nil =>
    cases hrun
    exact ⟨hinit, hrefl _⟩
  | cons action rest ih =>
    obtain ⟨next, hstep, hrest⟩ := run_cons_eq_some.mp hrun
    obtain ⟨hallowed, halong⟩ := halong.cons hstep
    obtain ⟨hnext, hfirst⟩ := hbase _ _ _ hinit hallowed hstep
    obtain ⟨hfinal, hlater⟩ := ih hnext halong hrest
    exact ⟨hfinal, htrans hfirst hlater⟩

/-- What each step preserves, given that the state it leads to stands before the last one, the run
preserves. -/
theorem run_invariant_ahead {Inv : State → Prop} {state final : State} {actions : List Action}
    (hpreserve : ∀ state action next, Base state → Inv state → allowed state action →
      step state action = some next → Base next → Before next final → Inv next)
    (hinit : Base state) (hinv : Inv state) (halong : Along step allowed state actions)
    (hrun : run step state actions = some final) : Inv final := by
  induction actions generalizing state with
  | nil =>
    cases hrun
    exact hinv
  | cons action rest ih =>
    obtain ⟨next, hstep, hrest⟩ := run_cons_eq_some.mp hrun
    obtain ⟨hallowed, halong⟩ := halong.cons hstep
    have hnext := (hbase _ _ _ hinit hallowed hstep).1
    have hahead := (run_before hrefl htrans hbase hnext halong hrest).2
    exact ih hnext (hpreserve _ _ _ hinit hinv hallowed hstep hnext hahead) halong hrest

end Ahead

end TlsVpn.Lib
