import AdminPanel.Proofs.TableHead.Flag

/-! # What the owner of a head hears

A click hands the owner one request, with the items and the count of the properties that are in
force, stops the event once and writes one entry; new properties give nothing of the kind. Which
properties are in force is told by the replacements alone, so no request can carry those of an
earlier drawing, and over a run there is one request for each click, in the order of the clicks. -/
namespace AdminPanel.TableHead

/-! ## Requests -/

def Action.isClick : Action → Bool
  | .click => true
  | .replace _ => false

/-- The request of a click that meets the properties. -/
def Props.request (props : Props) : ToggleAll := ⟨props.items, props.selected⟩

/-- The properties that the clicks of a run meet, in order. -/
def clickedProps (props : Props) (actions : List Action) : List Props :=
  ((timeline Action.props props actions).filter isClick).map Prod.fst

/-- What a step of a run has to give, told by the properties in force and the action: `drawn` is
the head after it. -/
def Answers : Props × Action → TableHead × Reply → Prop
  | (props, .click), (drawn, reply) =>
    reply.requests = [props.request] ∧ reply.stopped = 1 ∧
      reply.console.map ConsoleEntry.arguments =
        [[.text "select-all toggled", .number props.selected, .flag (showsChecked drawn.html)]]
  | (_, .replace _), (_, reply) => reply.requests = [] ∧ reply.stopped = 0 ∧ reply.console = []

/-! ## One step -/

theorem props_step (head : TableHead) (action : Action) :
    (head.step action).1.props = action.props head.props := by
  cases action <;> rfl

/-- The entry tells the flag before the head is drawn again. Drawing it with the properties that it
has keeps the flag, so this is what the checkbox shows then. -/
theorem answers_step {head : TableHead} (h : head.state.shown = head.props.selected)
    (action : Action) : Answers (head.props, action) (head.step action) := by
  cases action with
  | click =>
    have hc : showsChecked head.click.1.html = head.state.flag.flip.checked := by
      rw [showsChecked_html, flag_click h]
    refine ⟨rfl, rfl, ?_⟩
    show _ = [[_, _, ConsoleArgument.flag (showsChecked head.click.1.html)]]
    rw [hc]
    rfl
  | replace props => exact ⟨rfl, rfl, rfl⟩

theorem requests_of_answers {entry : Props × Action} {step : TableHead × Reply}
    (h : Answers entry step) :
    step.2.requests = if isClick entry then [entry.1.request] else [] := by
  obtain ⟨props, action⟩ := entry
  cases action with
  | click => exact h.1
  | replace next => exact h.1

/-! ## Runs -/

theorem answers_run {head : TableHead} (h : head.state.shown = head.props.selected)
    (actions : List Action) :
    List.Forall₂ Answers (timeline Action.props head.props actions) (head.run actions) := by
  induction actions generalizing head with
  | nil => exact .nil
  | cons action actions ih =>
    have hrest := ih (shown_step head action)
    rw [props_step] at hrest
    exact .cons (answers_step h action) hrest

/-- Steps that answer give the requests of the clicks among them. -/
theorem requests_of_forall₂ {entries : List (Props × Action)} {steps : List (TableHead × Reply)}
    (h : List.Forall₂ Answers entries steps) :
    steps.flatMap (fun step => step.2.requests) =
      ((entries.filter isClick).map Prod.fst).map Props.request := by
  induction h with
  | nil => rfl
  | @cons entry step entries steps hstep _ ih =>
    rw [List.flatMap_cons, requests_of_answers hstep, ih]
    by_cases hc : isClick entry = true
    · rw [if_pos hc, List.filter_cons_of_pos hc]
      rfl
    · rw [if_neg hc, List.filter_cons_of_neg hc]
      rfl

theorem length_clickedProps (props : Props) (actions : List Action) :
    (clickedProps props actions).length = actions.countP Action.isClick := by
  rw [clickedProps, List.length_map, ← List.countP_eq_length_filter]
  induction actions generalizing props with
  | nil => rfl
  | cons action actions ih =>
    have hc : isClick (props, action) = action.isClick := by cases action <;> rfl
    rw [timeline, List.countP_cons, List.countP_cons, ih, hc]

/-- **Requests are neither lost nor doubled nor stale.** Over every run of a mounted head the owner
receives one request for each click, with the items and the count of the properties that the click
met, whether or not the checkbox is disabled. Each click stops the event once and writes one entry,
with that count and what the checkbox shows right after it; new properties give nothing. -/
theorem requests_run (props : Props) (actions : List Action) :
    let run := (mount props).run actions
    run.flatMap (fun step => step.2.requests) = (clickedProps props actions).map Props.request ∧
    (clickedProps props actions).length = actions.countP Action.isClick ∧
    List.Forall₂ Answers (timeline Action.props props actions) run := by
  intro run
  have hshown : (mount props).state.shown = (mount props).props.selected := rfl
  have hanswers : List.Forall₂ Answers (timeline Action.props props actions) run :=
    answers_run hshown actions
  exact ⟨requests_of_forall₂ hanswers, length_clickedProps props actions, hanswers⟩

end AdminPanel.TableHead
