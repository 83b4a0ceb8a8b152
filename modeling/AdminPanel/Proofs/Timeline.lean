import Mathlib.Data.List.DropRight

/-! # Timelines

A run of a system by a step function, told as its actions in order, each with the state it met.
What a law says about "the actions since" some event is said about the end of a timeline, by
`List.rtakeWhile`. What one event decides alone is said about the last action that tells of it. -/
namespace AdminPanel

variable {State Action : Type}

/-- The actions of a run, each with the state before it. -/
def timeline (step : State → Action → State) (state : State) : List Action → List (State × Action)
  | [] => []
  | action :: actions => (state, action) :: timeline step (step state action) actions

theorem timeline_append_singleton (step : State → Action → State) (state : State)
    (actions : List Action) (action : Action) :
    timeline step state (actions ++ [action]) =
      timeline step state actions ++ [(actions.foldl step state, action)] := by
  induction actions generalizing state with
  | nil => rfl
  | cons first actions ih => simp only [List.cons_append, timeline, ih, List.foldl_cons]

/-! ## The last action of a kind -/

/-- What the last of the actions says that say anything to a reader. -/
def lastOf {α : Type} (read : Action → Option α) (actions : List Action) : Option α :=
  (actions.filterMap read).getLast?

theorem lastOf_append_singleton {α : Type} (read : Action → Option α) (actions : List Action)
    (action : Action) : lastOf read (actions ++ [action]) = (read action).or (lastOf read actions) := by
  rw [lastOf, List.filterMap_append, List.getLast?_append]
  cases h : read action with
  | none => simp [lastOf, h]
  | some said => simp [h]

end AdminPanel
