import CurveSketch.Fault
import Mathlib.Tactic.Tauto

/- Requirements in order of priority. A check decides a list of requirements when it accepts
   exactly if all are met, and reports the fault of the first one that is not. -/
namespace CurveSketch
variable {α β γ : Type}

structure Requirement (α : Type) where
  met : Prop
  reports : Fault α → Prop

def AllMet (qs : List (Requirement α)) : Prop := ∀ q ∈ qs, q.met

/-- The fault of the first requirement that is not met. -/
def FirstUnmet : List (Requirement α) → Fault α → Prop
  | [], _ => False
  | q :: rest, fault => (¬ q.met ∧ q.reports fault) ∨ (q.met ∧ FirstUnmet rest fault)

structure Decides (result : Except (Fault α) β) (qs : List (Requirement α)) : Prop where
  accepts : (∃ v, result = .ok v) ↔ AllMet qs
  refuses : ∀ fault, result = .error fault ↔ FirstUnmet qs fault

theorem all_met_cons (q : Requirement α) (qs : List (Requirement α)) :
    AllMet (q :: qs) ↔ q.met ∧ AllMet qs := by
  simp [AllMet]

theorem first_unmet_not_all {qs : List (Requirement α)} {fault : Fault α}
    (first : FirstUnmet qs fault) : ¬ AllMet qs := by
  induction qs with
  | nil => exact False.elim first
  | cons q rest ih =>
    intro all
    rcases first with ⟨unmet, _⟩ | ⟨_, later⟩
    · exact unmet (all q (by simp))
    · exact ih later fun r member => all r (by simp [member])

theorem first_unmet_append (qs rest : List (Requirement α)) (fault : Fault α) :
    FirstUnmet (qs ++ rest) fault ↔
      FirstUnmet qs fault ∨ (AllMet qs ∧ FirstUnmet rest fault) := by
  induction qs with
  | nil => simp [FirstUnmet, AllMet]
  | cons q qs ih =>
    rw [List.cons_append, FirstUnmet, FirstUnmet, ih, all_met_cons]
    tauto

theorem decides_nil (v : β) : Decides (.ok v : Except (Fault α) β) [] where
  accepts := by simp [AllMet]
  refuses := by simp [FirstUnmet]

theorem decides_met {result : Except (Fault α) β} {q : Requirement α}
    {rest : List (Requirement α)} (met : q.met) (later : Decides result rest) :
    Decides result (q :: rest) where
  accepts := by rw [all_met_cons, later.accepts]; simp [met]
  refuses := by intro fault; rw [FirstUnmet, later.refuses]; simp [met]

theorem decides_unmet {q : Requirement α} {rest : List (Requirement α)} {fault : Fault α}
    (unmet : ¬ q.met) (report : ∀ other, q.reports other ↔ other = fault) :
    Decides (.error fault : Except (Fault α) β) (q :: rest) where
  accepts := by simp [all_met_cons, unmet]
  refuses := by intro other; simp [FirstUnmet, unmet, report, eq_comm]

theorem decides_guard {p : Prop} [Decidable p] {next : Except (Fault α) β} {fault : Fault α}
    {rest : List (Requirement α)} (later : p → Decides next rest) :
    Decides (if p then next else .error fault) (⟨p, (· = fault)⟩ :: rest) := by
  split
  · rename_i pass
    exact decides_met pass (later pass)
  · rename_i fail
    exact decides_unmet fail fun _ => Iff.rfl

theorem decides_bind {first : Except (Fault α) β} {next : β → Except (Fault α) γ}
    {qs rest : List (Requirement α)} (head : Decides first qs)
    (tail : ∀ v, first = .ok v → Decides (next v) rest) :
    Decides (first >>= next) (qs ++ rest) := by
  cases outcome : first with
  | error fault =>
    have unmet : FirstUnmet qs fault := (head.refuses fault).mp outcome
    have notAll := first_unmet_not_all unmet
    refine ⟨⟨?_, ?_⟩, ?_⟩
    · intro accepted
      obtain ⟨v, impossible⟩ := accepted
      cases impossible
    · intro all
      exact absurd (fun q member => all q (List.mem_append_left rest member)) notAll
    · intro other
      rw [first_unmet_append, ← head.refuses, outcome]
      constructor
      · intro same
        exact Or.inl (by cases same; rfl)
      · rintro (same | ⟨all, _⟩)
        · cases same
          rfl
        · exact absurd all notAll
  | ok v =>
    have all : AllMet qs := head.accepts.mp ⟨v, outcome⟩
    have later := tail v outcome
    refine ⟨?_, ?_⟩
    · have split : AllMet (qs ++ rest) ↔ AllMet rest := by
        simp only [AllMet, List.mem_append] at all ⊢
        exact ⟨fun both q member => both q (Or.inr member),
          fun last q member => member.elim (all q) (last q)⟩
      rw [split]
      exact later.accepts
    · intro fault
      rw [first_unmet_append]
      have noFirst : ¬ FirstUnmet qs fault := fun unmet => first_unmet_not_all unmet all
      simp only [noFirst, all, true_and, false_or]
      exact later.refuses fault

end CurveSketch
