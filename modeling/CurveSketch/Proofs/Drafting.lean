import CurveSketch.Proofs.Drawing
import Mathlib.Data.List.DropRight

/- Drafting by any sequence of steps. A draft holds the rows that were added since the last restart,
   in their order, and the ruler that was set last; the order of rows and rulers among each other is
   forgotten, and what is built or converted along the way leaves the draft as it was. -/
namespace CurveSketch
variable {α : Type}

namespace Draft

namespace Step

def row? : Step α → Option (Row α)
  | .row glyphs => some ⟨none, glyphs⟩
  | .labeledRow label glyphs => some ⟨some label, glyphs⟩
  | .ruler _ _ | .restart => none

def ruler? : Step α → Option (Ruler α)
  | .ruler marks values => some ⟨marks, values⟩
  | .row _ | .labeledRow _ _ | .restart => none

def restarts : Step α → Bool
  | .restart => true
  | .row _ | .labeledRow _ _ | .ruler _ _ => false

end Step

/-- The steps after the last restart, or all of them when there is none. -/
def latest (steps : List (Step α)) : List (Step α) := steps.rtakeWhile (!·.restarts)

def latestRows (steps : List (Step α)) : List (Row α) := (latest steps).filterMap Step.row?

def latestRuler? (steps : List (Step α)) : Option (Ruler α) :=
  ((latest steps).filterMap Step.ruler?).getLast?

/-- What is asked of a draft: to take a step, or to have a copy built, or built and converted. -/
inductive Request (α : Type) where
  | take (step : Step α)
  | build
  | convert (samples : Nat)

def Request.step? : Request α → Option (Step α)
  | .take step => some step
  | .build | .convert _ => none

inductive Reply (α : Type) where
  | built (result : Except (Fault α) (Sketch α))
  | converted (result : Except (Fault α) (List (Constraint α)))

def after (d : Draft α) : Request α → Draft α
  | .take step => d.apply step
  | .build | .convert _ => d

theorem ofSteps_concat (steps : List (Step α)) (step : Step α) :
    ofSteps (steps ++ [step]) = (ofSteps steps).apply step := by
  simp [ofSteps]

theorem ofSteps_restart (steps later : List (Step α)) :
    ofSteps (steps ++ .restart :: later) = ofSteps later := by
  simp [ofSteps, apply]

theorem apply_going (d : Draft α) {step : Step α} (going : step.restarts = false) :
    d.apply step = ⟨d.rows ++ step.row?.toList, step.ruler?.or d.ruler?⟩ := by
  cases step with
  | row glyphs => rfl
  | labeledRow label glyphs => rfl
  | ruler marks values => simp [apply, Step.row?, Step.ruler?]
  | restart => cases going

theorem latest_going (steps : List (Step α)) {step : Step α} (going : step.restarts = false) :
    latest (steps ++ [step]) = latest steps ++ [step] :=
  List.rtakeWhile_concat_pos _ _ _ (by simp [going])

theorem latest_restart (steps : List (Step α)) : latest (steps ++ [.restart]) = [] :=
  List.rtakeWhile_concat_neg _ _ _ (by simp [Step.restarts])

theorem ofSteps_eq (steps : List (Step α)) :
    ofSteps steps = ⟨latestRows steps, latestRuler? steps⟩ := by
  induction steps using List.reverseRecOn with
  | nil => rfl
  | append_singleton steps step ih =>
    rw [ofSteps_concat, ih]
    cases going : step.restarts with
    | true =>
      cases step with
      | restart => simp [apply, empty, latestRows, latestRuler?, latest_restart]
      | row | labeledRow | ruler => cases going
    | false =>
      rw [apply_going _ going]
      cases row : step.row? <;> cases ruler : step.ruler? <;>
        simp [latestRows, latestRuler?, latest_going steps going, row, ruler]

theorem build_ok_iff (d : Draft α) (s : Sketch α) :
    d.build = .ok s ↔ d.rows = s.rows ∧ d.ruler? = some s.ruler := by
  obtain ⟨rows, ruler?⟩ := d
  obtain ⟨rows', ruler'⟩ := s
  cases ruler? with
  | none => simp [build]
  | some ruler => simp [build]

theorem build_error_iff (d : Draft α) (fault : Fault α) :
    d.build = .error fault ↔ fault = .noRuler ∧ d.ruler? = none := by
  obtain ⟨rows, ruler?⟩ := d
  cases ruler? with
  | none => simp [build, eq_comm]
  | some ruler => simp [build]

variable [Scalar α]

def reply (d : Draft α) : Request α → Reply α
  | .take _ | .build => .built d.build
  | .convert samples => .converted (d.build >>= fun s => (s.convert ⟨samples⟩).result)

def replies (d : Draft α) : List (Request α) → List (Reply α)
  | [] => []
  | r :: rest => (d.after r).reply r :: (d.after r).replies rest

theorem replies_at (d : Draft α) (requests : List (Request α)) (k : Nat) :
    (d.replies requests)[k]? = requests[k]?.map
      (((requests.take (k + 1)).filterMap Request.step?).foldl apply d).reply := by
  induction requests generalizing d k with
  | nil => rfl
  | cons r rest ih =>
    have split (asked : List (Request α)) :
        ((r :: asked).filterMap Request.step?).foldl apply d =
          (asked.filterMap Request.step?).foldl apply (d.after r) := by
      cases r <;> rfl
    cases k with
    | zero =>
      rw [List.take_succ_cons, split, List.take_zero]
      rfl
    | succ k =>
      rw [List.take_succ_cons, split, replies, List.getElem?_cons_succ, List.getElem?_cons_succ, ih]

/-- A draft holds the rows that were added since the last restart, in order and as they were given,
    over the ruler that was set last; nothing but a missing ruler keeps it from being built. Steps
    in another order that have the same rows and end in the same ruler make the same draft. Each
    reply to a list of requests is of the draft that the steps alone would have made by then. Every
    sketch is built from its rows and its ruler, wherever the ruler comes, after a restart as well
    as from nothing. -/
theorem draft_of_latest_steps (steps : List (Step α)) :
    (∀ s, (ofSteps steps).build = .ok s ↔
      latestRows steps = s.rows ∧ latestRuler? steps = some s.ruler) ∧
    (∀ fault, (ofSteps steps).build = .error fault ↔
      fault = .noRuler ∧ latestRuler? steps = none) ∧
    (∀ steps', latestRows steps' = latestRows steps → latestRuler? steps' = latestRuler? steps →
      ofSteps steps' = ofSteps steps) ∧
    (∀ (requests : List (Request α)) k, (empty.replies requests)[k]? = requests[k]?.map
      (ofSteps ((requests.take (k + 1)).filterMap Request.step?)).reply) ∧
    ∀ (s : Sketch α) place, (ofSteps (drawingSteps s.rows s.ruler place)).build = .ok s ∧
      (ofSteps (steps ++ .restart :: drawingSteps s.rows s.ruler place)).build = .ok s := by
  have held := ofSteps_eq steps
  refine ⟨fun s => ?_, fun fault => ?_, fun steps' rows ruler => ?_, replies_at empty,
    fun s place => ?_⟩
  · rw [held, build_ok_iff]
  · rw [held, build_error_iff]
  · rw [held, ofSteps_eq, rows, ruler]
  · have drawn := build_drawing s.rows s.ruler place
    rw [ofSteps_restart]
    exact ⟨drawn, drawn⟩

def patchwork : List (Step Float) :=
  [.ruler "|".toList [7], .row "XX".toList, .restart, .row "é".toList, .ruler "| |".toList [0, 1],
    .labeledRow 2 "i·i".toList, .ruler "".toList [3, 2], .row []]

def evenPatchwork : List (Step Float) :=
  [.ruler "".toList [3, 2], .row "é".toList, .labeledRow 2 "i·i".toList, .row []]

def patched : Sketch Float :=
  ⟨[⟨none, "é".toList⟩, ⟨some 2, "i·i".toList⟩, ⟨none, []⟩], ⟨[], [3, 2]⟩⟩

theorem patchwork_drafted :
    latestRows evenPatchwork = latestRows patchwork ∧
    latestRuler? evenPatchwork = latestRuler? patchwork ∧
    (ofSteps patchwork).build = .ok patched ∧ (ofSteps evenPatchwork).build = .ok patched ∧
    ((empty : Draft Float).replies [.build, .take (.row "é".toList), .convert 0,
        .take (.ruler "| |".toList [0, 1])])[3]? =
      some (.built (.ok ⟨[⟨none, "é".toList⟩], ⟨"| |".toList, [0, 1]⟩⟩)) := by
  have rows : latestRows evenPatchwork = latestRows patchwork := by decide +kernel
  have ruler : latestRuler? evenPatchwork = latestRuler? patchwork := by decide +kernel
  obtain ⟨builds, _, same, replied, _⟩ := draft_of_latest_steps patchwork
  have built : (ofSteps patchwork).build = .ok patched :=
    (builds patched).mpr (by decide +kernel)
  refine ⟨rows, ruler, built, ?_, (replied _ 3).trans rfl⟩
  rw [same _ rows ruler, built]

end Draft
end CurveSketch
