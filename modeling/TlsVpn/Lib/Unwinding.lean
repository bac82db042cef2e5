import TlsVpn.Lib.Run

/-!
# Noninterference by unwinding

Two runs of one machine on input lists that share some inputs, while others are given to one of the
runs only. If a relation between the two states survives a shared input, with the same output on
both sides, and survives an input of one run, which emits nothing, then the runs emit the same
outputs (`Unwinding.emitted_eq`). The conditions on the inputs may look at both states.
-/

namespace TlsVpn.Lib

variable {State Input Output : Type*}

/-- What a machine emits on a list of inputs. -/
def emitted (step : State → Input → State × Option Output) : State → List Input → List Output
  | _, [] => []
  | state, input :: rest =>
    (step state input).2.toList ++ emitted step (step state input).1 rest

/-- An input of two runs: of both, or of one of them. -/
inductive Paired (Input : Type*) where
  | both (input : Input)
  | left (input : Input)
  | right (input : Input)
  deriving DecidableEq, Repr

namespace Paired

/-- The inputs of the left run. -/
def lefts : List (Paired Input) → List Input
  | [] => []
  | .both input :: rest | .left input :: rest => input :: lefts rest
  | .right _ :: rest => lefts rest

/-- The inputs of the right run. -/
def rights : List (Paired Input) → List Input
  | [] => []
  | .both input :: rest | .right input :: rest => input :: rights rest
  | .left _ :: rest => rights rest

/-- The two runs take an input, each if it is one of its own. -/
def advance (step : State → Input → State × Option Output) (states : State × State) :
    Paired Input → Option (State × State)
  | .both input => some ((step states.1 input).1, (step states.2 input).1)
  | .left input => some ((step states.1 input).1, states.2)
  | .right input => some (states.1, (step states.2 input).1)

end Paired

/-- The relation `Similar` is kept by every input that is allowed; shared inputs have the same
output, and an input of one run has none. -/
structure Unwinding (step : State → Input → State × Option Output)
    (Similar : State → State → Prop) (allowed : State × State → Paired Input → Prop) : Prop where
  both : ∀ s t input, Similar s t → allowed (s, t) (.both input) →
    Similar (step s input).1 (step t input).1 ∧ (step s input).2 = (step t input).2
  left : ∀ s t input, Similar s t → allowed (s, t) (.left input) →
    Similar (step s input).1 t ∧ (step s input).2 = none
  right : ∀ s t input, Similar s t → allowed (s, t) (.right input) →
    Similar s (step t input).1 ∧ (step t input).2 = none

/-- Runs of allowed inputs from similar states emit the same. -/
theorem Unwinding.emitted_eq {step : State → Input → State × Option Output}
    {Similar : State → State → Prop} {allowed : State × State → Paired Input → Prop}
    (h : Unwinding step Similar allowed) {s t : State} {inputs : List (Paired Input)}
    (hsimilar : Similar s t) (halong : Along (Paired.advance step) allowed (s, t) inputs) :
    emitted step s (Paired.lefts inputs) = emitted step t (Paired.rights inputs) := by
  induction inputs generalizing s t with
  | nil => rfl
  | cons paired rest ih =>
    cases paired with
    | both input =>
      obtain ⟨hallowed, hrest⟩ := halong.cons rfl
      obtain ⟨hnext, hout⟩ := h.both s t input hsimilar hallowed
      show (step s input).2.toList ++ _ = (step t input).2.toList ++ _
      rw [hout, ih hnext hrest]
    | left input =>
      obtain ⟨hallowed, hrest⟩ := halong.cons rfl
      obtain ⟨hnext, hout⟩ := h.left s t input hsimilar hallowed
      show (step s input).2.toList ++ _ = _
      rw [hout, ih hnext hrest]
      rfl
    | right input =>
      obtain ⟨hallowed, hrest⟩ := halong.cons rfl
      obtain ⟨hnext, hout⟩ := h.right s t input hsimilar hallowed
      show emitted step s (Paired.lefts rest) = (step t input).2.toList ++ _
      rw [hout, ih hnext hrest]
      rfl

end TlsVpn.Lib
