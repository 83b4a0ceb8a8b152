import AdminPanel.Proofs.Text.Bytes
import AdminPanel.Template.Scan

/-! # The scan of a template is in place

Filling a template goes over the bytes of its text, with offsets of which some count from the start
of a round and some from the text behind the opening. `Pass` says where all of them are among the
bytes, and that none is inside of a character; a round has a result exactly when it is such a pass
(`round?_eq_some_iff`). Every text is gone through by one run of iterations. Each of them that finds
a hole takes four bytes or more off the text (`interpolate_in_place`). An opening that nothing
closes makes an iteration too: it is the last one, and two bytes are enough for it
(`lone_opening_is_an_iteration`). -/
namespace AdminPanel
open Text (IsSlice StandsAt FirstAt slice?_eq_some_iff sliceFrom?_eq_some_iff find?_eq_some_iff
  find?_eq_none_iff byteLength byteLength_append byteLength_toList breakOn? eq_append_of_breakOn?)

namespace Template.Scan

/-! ## One pass -/

/-- One pass of the scan over the bytes of a text, with the offsets and slices that it takes. The
opening is searched in the text and the closing in the text inside, which begins behind the opening;
the hole as it is written is sliced out of the text by offsets of both. -/
inductive Pass : List Char → Outcome → Prop
  | noOpening {rest : List Char} :
      (∀ offset, ¬ StandsAt opening rest offset) → Pass rest (.noOpening rest)
  | noClosing {rest before inside tail : List Char} {openingAt : Nat} :
      FirstAt opening rest openingAt →
      IsSlice rest 0 openingAt before →
      IsSlice rest (openingAt + 2) (byteLength rest) inside →
      (∀ offset, ¬ StandsAt closing inside offset) →
      IsSlice rest openingAt (byteLength rest) tail →
      Pass rest (.noClosing before tail)
  | hole {rest before inside body whole next : List Char} {openingAt closingAt : Nat} :
      FirstAt opening rest openingAt →
      IsSlice rest 0 openingAt before →
      IsSlice rest (openingAt + 2) (byteLength rest) inside →
      FirstAt closing inside closingAt →
      IsSlice inside 0 closingAt body →
      IsSlice rest openingAt (openingAt + closingAt + 4) whole →
      IsSlice inside (closingAt + 2) (byteLength inside) next →
      Pass rest (.hole ⟨rest, openingAt, closingAt, before, body, whole, next⟩)

theorem opening_ne_nil : opening ≠ [] := List.cons_ne_nil _ _

theorem closing_ne_nil : closing ≠ [] := List.cons_ne_nil _ _

theorem pass_of_round? {rest : List Char} {outcome : Outcome} (h : round? rest = some outcome) :
    Pass rest outcome := by
  unfold round? at h
  split at h
  · rename_i ho
    cases h
    exact .noOpening ((find?_eq_none_iff opening_ne_nil).mp ho)
  · rename_i openingAt ho
    obtain ⟨before, hbefore, h⟩ := Option.bind_eq_some_iff.mp h
    obtain ⟨inside, hinside, h⟩ := Option.bind_eq_some_iff.mp h
    have hfirst := (find?_eq_some_iff opening_ne_nil).mp ho
    rw [slice?_eq_some_iff] at hbefore
    rw [sliceFrom?_eq_some_iff] at hinside
    split at h
    · rename_i hc
      obtain ⟨tail, htail, h⟩ := Option.bind_eq_some_iff.mp h
      cases h
      exact .noClosing hfirst hbefore hinside ((find?_eq_none_iff closing_ne_nil).mp hc)
        (sliceFrom?_eq_some_iff.mp htail)
    · rename_i closingAt hc
      obtain ⟨body, hbody, h⟩ := Option.bind_eq_some_iff.mp h
      obtain ⟨whole, hwhole, h⟩ := Option.bind_eq_some_iff.mp h
      obtain ⟨next, hnext, h⟩ := Option.bind_eq_some_iff.mp h
      cases h
      exact .hole hfirst hbefore hinside ((find?_eq_some_iff closing_ne_nil).mp hc)
        (slice?_eq_some_iff.mp hbody) (slice?_eq_some_iff.mp hwhole)
        (sliceFrom?_eq_some_iff.mp hnext)

theorem Pass.round?_eq {rest : List Char} {outcome : Outcome} (h : Pass rest outcome) :
    round? rest = some outcome := by
  cases h with
  | noOpening ho => simp [round?, (find?_eq_none_iff opening_ne_nil).mpr ho]
  | noClosing ho hbefore hinside hc htail =>
    simp [round?, (find?_eq_some_iff opening_ne_nil).mpr ho, slice?_eq_some_iff.mpr hbefore,
      sliceFrom?_eq_some_iff.mpr hinside, (find?_eq_none_iff closing_ne_nil).mpr hc,
      sliceFrom?_eq_some_iff.mpr htail]
  | hole ho hbefore hinside hc hbody hwhole hnext =>
    simp [round?, (find?_eq_some_iff opening_ne_nil).mpr ho, slice?_eq_some_iff.mpr hbefore,
      sliceFrom?_eq_some_iff.mpr hinside, (find?_eq_some_iff closing_ne_nil).mpr hc,
      slice?_eq_some_iff.mpr hbody, slice?_eq_some_iff.mpr hwhole,
      sliceFrom?_eq_some_iff.mpr hnext]

/-- **A round has a result exactly when all that it takes from the text is in place.** -/
theorem round?_eq_some_iff {rest : List Char} {outcome : Outcome} :
    round? rest = some outcome ↔ Pass rest outcome :=
  ⟨pass_of_round?, Pass.round?_eq⟩

theorem Pass.unique {rest : List Char} {outcome other : Outcome} (h : Pass rest outcome)
    (ho : Pass rest other) : outcome = other :=
  Option.some.inj (h.round?_eq.symm.trans ho.round?_eq)

/-- The characters before an opening and those of a body may have more bytes than one. -/
example : round? "ü\x7b\x7bé\x7d\x7d!".toList = some (.hole
    ⟨"ü\x7b\x7bé\x7d\x7d!".toList, 2, 2, ['ü'], ['é'], "\x7b\x7bé\x7d\x7d".toList, ['!']⟩) := rfl

/-! ## What a pass takes off the text -/

/-- Every text has a pass, so nothing that a round takes is ever out of place. -/
theorem exists_pass (rest : List Char) : ∃ outcome, Pass rest outcome := by
  cases ho : breakOn? opening rest with
  | none => exact ⟨_, round?_eq_some_iff.mp (round?_of_no_opening ho)⟩
  | some sides =>
    obtain ⟨before, inside⟩ := sides
    cases hc : breakOn? closing inside with
    | none => exact ⟨_, round?_eq_some_iff.mp (round?_of_no_closing ho hc)⟩
    | some sides => exact ⟨_, round?_eq_some_iff.mp (round?_of_hole ho hc)⟩

theorem Pass.eq_of_noOpening {rest text : List Char} (h : Pass rest (.noOpening text)) :
    rest = text := by
  cases h
  rfl

theorem Pass.eq_of_noClosing {rest before tail : List Char}
    (h : Pass rest (.noClosing before tail)) : rest = before ++ tail := by
  cases h with
  | noClosing _ hbefore _ _ htail => exact hbefore.eq_append htail

theorem Pass.rest_eq {rest : List Char} {round : Round} (h : Pass rest (.hole round)) :
    round.rest = rest := by
  cases h
  rfl

/-- A hole is sliced out with its opening, its body and its closing, and stands between the text
before it and the text that is left. -/
theorem Pass.split {rest : List Char} {round : Round} (h : Pass rest (.hole round)) :
    rest = round.before ++ (round.written ++ round.next) ∧
      round.written = opening ++ round.body ++ closing := by
  obtain ⟨inside, ho, hc, hw⟩ := exists_breaks_of_hole h.round?_eq
  refine ⟨?_, hw⟩
  rw [eq_append_of_breakOn? ho, eq_append_of_breakOn? hc, hw]
  simp only [written, List.append_assoc]

theorem Pass.byteLength_next {rest : List Char} {round : Round} (h : Pass rest (.hole round)) :
    byteLength round.next + 4 ≤ byteLength rest := by
  obtain ⟨hrest, hw⟩ := h.split
  rw [hrest, hw]
  simp only [byteLength_append]
  have hbraces : byteLength opening = 2 ∧ byteLength closing = 2 := by decide
  omega

/-- A text with an opening in it has the two bytes of the opening. -/
theorem Pass.two_le_byteLength {rest before tail : List Char}
    (h : Pass rest (.noClosing before tail)) : 2 ≤ byteLength rest := by
  cases h with
  | noClosing _ _ hinside _ _ =>
    have := hinside.byteLength_eq
    omega

/-! ## A run of iterations -/

/-- An iteration of the scan: it has found an opening, and a hole there or that nothing closes
it. -/
inductive Iteration where
  | closed (round : Round)
  | unclosed (before tail : List Char)

/-- All iterations of a scan in turn, each on the text that the one before has left, and the text
that the last of them leaves. A search that finds no opening is no iteration, and all of its text is
left. Behind an opening that nothing closes nothing is left: the iteration takes over the whole
text. -/
inductive Runs : List Char → List Iteration → List Char → Prop
  | noOpening {rest left : List Char} : Pass rest (.noOpening left) → Runs rest [] left
  | noClosing {rest before tail : List Char} :
      Pass rest (.noClosing before tail) → Runs rest [.unclosed before tail] []
  | hole {rest left : List Char} {round : Round} {iterations : List Iteration} :
      Pass rest (.hole round) → Runs round.next iterations left →
      Runs rest (.closed round :: iterations) left

/-- How a run ends: no opening is left, or the last iteration is over one that nothing closes. -/
inductive Ending : List Iteration → List Char → Prop
  | noOpening {left : List Char} : Pass left (.noOpening left) → Ending [] left
  | noClosing {before tail : List Char} :
      Pass (before ++ tail) (.noClosing before tail) → Ending [.unclosed before tail] []

namespace Iteration

/-- The part of a text that an iteration takes off it. -/
def spelled : Iteration → List Char
  | .closed round => round.before ++ round.written
  | .unclosed before tail => before ++ tail

/-- What is written for it. -/
def shown (arguments : Arguments) : Iteration → List Char
  | .closed round => round.before ++ valueOr arguments round.body round.written
  | .unclosed before tail => before ++ tail

end Iteration

theorem exists_runs (rest : List Char) : ∃ iterations left, Runs rest iterations left := by
  generalize hn : byteLength rest = n
  induction n using Nat.strongRecOn generalizing rest with
  | ind n ih =>
    obtain ⟨outcome, hpass⟩ := exists_pass rest
    cases outcome with
    | noOpening left => exact ⟨[], left, .noOpening hpass⟩
    | noClosing before tail => exact ⟨[.unclosed before tail], [], .noClosing hpass⟩
    | hole round =>
      have hless : byteLength round.next < n := by
        have := hpass.byteLength_next
        omega
      obtain ⟨iterations, left, hruns⟩ := ih _ hless round.next rfl
      exact ⟨.closed round :: iterations, left, .hole hpass hruns⟩

section Runs
variable {rest left : List Char} {iterations : List Iteration}

theorem Runs.unique {others : List Iteration} {behind : List Char} (h : Runs rest iterations left)
    (ho : Runs rest others behind) : others = iterations ∧ behind = left := by
  induction h generalizing others behind with
  | noOpening hpass =>
    cases ho with
    | noOpening hother => cases hpass.unique hother; exact ⟨rfl, rfl⟩
    | noClosing hother => cases hpass.unique hother
    | hole hother _ => cases hpass.unique hother
  | noClosing hpass =>
    cases ho with
    | noOpening hother => cases hpass.unique hother
    | noClosing hother => cases hpass.unique hother; exact ⟨rfl, rfl⟩
    | hole hother _ => cases hpass.unique hother
  | hole hpass _ ih =>
    cases ho with
    | noOpening hother => cases hpass.unique hother
    | noClosing hother => cases hpass.unique hother
    | hole hother hruns =>
      cases hpass.unique hother
      obtain ⟨rfl, rfl⟩ := ih hruns
      exact ⟨rfl, rfl⟩

/-- Only the last iteration can be over an opening that nothing closes. -/
theorem Runs.exists_ending (h : Runs rest iterations left) :
    ∃ (rounds : List Round) (ending : List Iteration),
      iterations = rounds.map .closed ++ ending ∧ Ending ending left ∧
        ∀ round ∈ rounds, Pass round.rest (.hole round) := by
  induction h with
  | noOpening hpass =>
    cases hpass.eq_of_noOpening
    exact ⟨[], [], rfl, .noOpening hpass, List.forall_mem_nil _⟩
  | noClosing hpass =>
    cases hpass.eq_of_noClosing
    exact ⟨[], _, rfl, .noClosing hpass, List.forall_mem_nil _⟩
  | @hole rest left round iterations hpass _ ih =>
    obtain ⟨rounds, ending, rfl, hending, hrounds⟩ := ih
    refine ⟨round :: rounds, ending, rfl, hending, List.forall_mem_cons.mpr ⟨?_, hrounds⟩⟩
    rw [hpass.rest_eq]
    exact hpass

/-- The iterations take the text apart from its front, and what they leave is its end. -/
theorem Runs.split (h : Runs rest iterations left) :
    rest = iterations.flatMap Iteration.spelled ++ left := by
  induction h with
  | noOpening hpass => exact hpass.eq_of_noOpening
  | noClosing hpass => simpa [Iteration.spelled] using hpass.eq_of_noClosing
  | hole hpass _ ih =>
    rw [List.flatMap_cons, List.append_assoc, ← ih, Iteration.spelled, List.append_assoc]
    exact hpass.split.1

theorem Runs.fill?_eq (h : Runs rest iterations left) (arguments : Arguments) :
    fill? arguments rest = some (iterations.flatMap (Iteration.shown arguments) ++ left) := by
  induction h with
  | noOpening hpass => rw [fill?_of_round hpass.round?_eq]; rfl
  | noClosing hpass =>
    rw [fill?_of_round hpass.round?_eq]
    simp only [List.flatMap_singleton, Iteration.shown, List.append_nil]
  | hole hpass _ ih =>
    rw [fill?_of_round hpass.round?_eq]
    simp only [ih, Option.map_some, List.flatMap_cons, Iteration.shown, List.append_assoc]

end Runs

/-! ## How many iterations there are -/

theorem Ending.byteLength_spelled {ending : List Iteration} {left : List Char}
    (h : Ending ending left) :
    ending.length ≤ 1 ∧ 2 * ending.length ≤ byteLength (ending.flatMap Iteration.spelled) := by
  cases h with
  | noOpening _ => exact ⟨Nat.zero_le _, Nat.zero_le _⟩
  | noClosing hpass =>
    have := hpass.two_le_byteLength
    simpa [Iteration.spelled] using this

theorem byteLength_spelled_of_pass {rounds : List Round}
    (h : ∀ round ∈ rounds, Pass round.rest (.hole round)) :
    4 * rounds.length ≤ byteLength ((rounds.map .closed).flatMap Iteration.spelled) := by
  induction rounds with
  | nil => exact Nat.zero_le _
  | cons round rounds ih =>
    obtain ⟨hpass, hrounds⟩ := List.forall_mem_cons.mp h
    have hround : 4 ≤ byteLength (Iteration.closed round).spelled := by
      have hnext := hpass.byteLength_next
      have hsplit := congrArg byteLength hpass.split.1
      simp only [byteLength_append] at hsplit
      simp only [Iteration.spelled, byteLength_append]
      omega
    have := ih hrounds
    rw [List.map_cons, List.flatMap_cons, byteLength_append, List.length_cons]
    omega

/-- **The scan of a template is in place and comes to an end**, whatever the text and the values
are. One run of iterations goes through the text, over the holes and at last, perhaps, over an
opening that nothing closes. In each of them the offsets are boundaries of the texts that they count
in. A hole is sliced out as it is written, and at least four bytes are taken off the text with it,
so there is at most one hole for every four bytes. The other iteration takes two bytes or more,
which are all that is left. The iterations take the text apart, and what they show is what the scan
returns: the text filled by its characters. -/
theorem interpolate_in_place (template : String) (arguments : Arguments) :
    ∃ (rounds : List Round) (ending : List Iteration) (left : List Char),
      let iterations := rounds.map .closed ++ ending
      (∀ others behind, Runs template.toList others behind ↔ others = iterations ∧ behind = left) ∧
      (∀ round ∈ rounds, Pass round.rest (.hole round) ∧
        round.written = ['{', '{'] ++ round.body ++ ['}', '}'] ∧
        byteLength round.next + 4 ≤ byteLength round.rest) ∧
      Ending ending left ∧
      4 * rounds.length + 2 * ending.length + byteLength left ≤ template.utf8ByteSize ∧
      4 * iterations.length ≤ template.utf8ByteSize + 2 ∧
      template.toList = iterations.flatMap Iteration.spelled ++ left ∧
      fill? arguments template.toList =
        some (iterations.flatMap (Iteration.shown arguments) ++ left) ∧
      fill? arguments template.toList = some (interpolate template arguments).toList ∧
      interpolate template arguments = String.ofList ((ofText template.toList).fill arguments) := by
  obtain ⟨iterations, left, hruns⟩ := exists_runs template.toList
  obtain ⟨rounds, ending, hiterations, hending, hrounds⟩ := hruns.exists_ending
  have hsplit := hruns.split
  have hbound : 4 * rounds.length + 2 * ending.length + byteLength left ≤
      template.utf8ByteSize := by
    have hclosed := byteLength_spelled_of_pass hrounds
    obtain ⟨-, hunclosed⟩ := hending.byteLength_spelled
    rw [← byteLength_toList, hsplit, hiterations, List.flatMap_append, byteLength_append,
      byteLength_append]
    omega
  rw [hiterations] at hruns hsplit
  refine ⟨rounds, ending, left, fun others behind => ⟨hruns.unique, ?_⟩, fun round hmem => ?_,
    hending, hbound, ?_, hsplit, hruns.fill?_eq arguments, ?_, interpolate_eq template arguments⟩
  · intro h
    obtain ⟨rfl, rfl⟩ := h
    exact hruns
  · have hpass := hrounds round hmem
    exact ⟨hpass, hpass.split.2, hpass.byteLength_next⟩
  · obtain ⟨hone, -⟩ := hending.byteLength_spelled
    rw [List.length_append, List.length_map]
    omega
  · rw [fill?_eq, interpolate_eq, String.toList_ofList]

/-- Not every iteration finds a closing, or takes four bytes off the text, and there can be more
than one for every four bytes: a text of two bytes, an opening alone, makes one. -/
theorem lone_opening_is_an_iteration :
    let template := "\x7b\x7b"
    let iterations : List Iteration := [.unclosed [] template.toList]
    (∀ others behind, Runs template.toList others behind ↔ others = iterations ∧ behind = []) ∧
      (¬ ∀ iteration ∈ iterations, ∃ round, iteration = .closed round) ∧
      (¬ ∃ next : List Char, byteLength next + 4 ≤ byteLength template.toList) ∧
      ¬ 4 * iterations.length ≤ template.utf8ByteSize := by
  have hround : round? "\x7b\x7b".toList = some (.noClosing [] "\x7b\x7b".toList) := rfl
  intro template iterations
  have hruns : Runs template.toList iterations [] := .noClosing (pass_of_round? hround)
  have hsize : byteLength template.toList = 2 := by decide
  refine ⟨fun others behind => ⟨hruns.unique, ?_⟩, fun h => ?_, fun h => ?_, ?_⟩
  · intro h
    obtain ⟨rfl, rfl⟩ := h
    exact hruns
  · obtain ⟨round, hclosed⟩ := h _ List.mem_cons_self
    cases hclosed
  · obtain ⟨next, hnext⟩ := h
    omega
  · rw [← byteLength_toList, hsize]
    decide

end Template.Scan
end AdminPanel
