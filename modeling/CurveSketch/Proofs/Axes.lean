import CurveSketch.Sketch.Axes
import CurveSketch.Proofs.Requirements
import Mathlib.Data.List.Chain

/- Axes: which lists of slots make a scale, and what is reported of the others. -/
namespace CurveSketch
variable {α : Type}

theorem ticksFrom_values (i : Nat) (slots : List (Option α)) :
    (ticksFrom i slots).map (·.value) = slots.filterMap id := by
  induction slots generalizing i with
  | nil => rfl
  | cons slot rest ih =>
    cases slot with
    | none => simp [ticksFrom, ih]
    | some value => simp [ticksFrom, ih]

theorem ticksFrom_length (i : Nat) (slots : List (Option α)) :
    (ticksFrom i slots).length = (slots.filterMap id).length := by
  rw [← ticksFrom_values i slots, List.length_map]

theorem pairMarks_values {marks : List Char} {values : List α}
    (paired : marks.countP (· != blank) = values.length) :
    (pairMarks marks values).filterMap id = values := by
  induction marks generalizing values with
  | nil =>
    have empty : values = [] := List.length_eq_zero_iff.mp (by simpa using paired.symm)
    simp [pairMarks, empty]
  | cons mark marks ih =>
    rw [pairMarks]
    split
    · rename_i isBlank
      rw [List.countP_cons_of_neg (by simp [isBlank])] at paired
      simpa using ih paired
    · rename_i isTick
      rw [List.countP_cons_of_pos (by simp [isTick])] at paired
      cases values with
      | nil => simp at paired
      | cons value values => simpa using @ih values (by simpa using paired)

theorem pairMarks_ticks {marks : List Char} {values : List α}
    (paired : marks.countP (· != blank) = values.length) :
    (pairMarks marks values).map Option.isSome = marks.map (· != blank) := by
  induction marks generalizing values with
  | nil => rfl
  | cons mark marks ih =>
    rw [pairMarks]
    split
    · rename_i isBlank
      rw [List.countP_cons_of_neg (by simp [isBlank])] at paired
      simp [ih paired, isBlank]
    · rename_i isTick
      rw [List.countP_cons_of_pos (by simp [isTick])] at paired
      cases values with
      | nil => simp at paired
      | cons value values => simp [@ih values (by simpa using paired), isTick]

theorem head_map_true {β : Type} (items : List β) (shown : β → Bool) :
    (items.map shown).head? = some true ↔ ∃ b ∈ items.head?, shown b = true := by
  cases items <;> simp

theorem last_map_true {β : Type} (items : List β) (shown : β → Bool) :
    (items.map shown).getLast? = some true ↔ ∃ b ∈ items.getLast?, shown b = true := by
  rw [List.getLast?_map]
  cases items.getLast? <;> simp

theorem closedEnds_iff {β : Type} {slots : List (Option α)} {items : List β} {shown : β → Bool}
    (same : slots.map Option.isSome = items.map shown) :
    closedEnds slots = true ↔
      (∃ b ∈ items.head?, shown b = true) ∧ ∃ b ∈ items.getLast?, shown b = true := by
  have join (slot? : Option (Option α)) :
      slot?.join.isSome = true ↔ slot?.map Option.isSome = some true := by
    rcases slot? with _ | (_ | value) <;> simp
  rw [← head_map_true, ← last_map_true, ← same, closedEnds, Bool.and_eq_true, join, join,
    List.head?_map, List.getLast?_map]

/-- The leftmost neighbours that break the order, everything before them being in order. -/
def LeftmostBreak (r : α → α → Prop) (values : List α) (a b : α) : Prop :=
  ∃ before after, values = before ++ a :: b :: after ∧ List.IsChain r (before ++ [a]) ∧ ¬ r a b

theorem disorder_none_iff (inOrder : α → α → Bool) (values : List α) :
    disorder? inOrder values = none ↔ List.IsChain (fun a b => inOrder a b = true) values := by
  fun_induction disorder? inOrder values with
  | case1 a b rest ordered ih => simp [ih, ordered]
  | case2 a b rest broken => simp [broken]
  | case3 values short =>
    match values, short with
    | [], _ => simp
    | [a], _ => simp
    | a :: b :: rest, short => exact absurd rfl (short a b rest)

theorem disorder_some_iff (inOrder : α → α → Bool) (values : List α) (a b : α) :
    disorder? inOrder values = some (a, b) ↔
      LeftmostBreak (fun a b => inOrder a b = true) values a b := by
  fun_induction disorder? inOrder values with
  | case1 first second rest ordered ih =>
    rw [ih]
    constructor
    · intro broken
      obtain ⟨before, after, split, chain, broken⟩ := broken
      refine ⟨first :: before, after, by rw [split]; rfl, ?_, broken⟩
      cases before with
      | nil => simp_all
      | cons head before => simp_all
    · intro broken
      obtain ⟨before, after, split, chain, broken⟩ := broken
      cases before with
      | nil => simp_all
      | cons head before =>
        refine ⟨before, after, by simpa using (List.cons.inj split).2, ?_, broken⟩
        exact chain.tail
  | case2 first second rest broken =>
    rw [Option.some.injEq, Prod.mk.injEq]
    constructor
    · intro pair
      obtain ⟨rfl, rfl⟩ := pair
      exact ⟨[], rest, rfl, by simp, broken⟩
    · intro misplaced
      obtain ⟨before, after, split, chain, _⟩ := misplaced
      cases before with
      | nil => simp_all
      | cons head before => cases before <;> simp_all
  | case3 values short =>
    simp only [reduceCtorEq, false_iff]
    intro misplaced
    obtain ⟨before, after, rfl, _, _⟩ := misplaced
    match before with
    | [] => exact short a b after rfl
    | [head] => exact short head a (b :: after) rfl
    | head :: next :: before => exact short head next (before ++ a :: b :: after) rfl

variable [Scalar α]

def Axis.requirements (axis : Axis) (slots : List (Option α)) : List (Requirement α) :=
  [⟨2 ≤ (slots.filterMap id).length, (· = .tooFewTicks axis (slots.filterMap id).length)⟩,
    ⟨closedEnds slots = true, (· = .openEnds axis)⟩,
    ⟨List.IsChain (fun a b => axis.inOrder a b = true) (slots.filterMap id),
      fun fault => ∃ a b, fault = .disordered axis a b ∧
        LeftmostBreak (fun a b => axis.inOrder a b = true) (slots.filterMap id) a b⟩]

theorem decides_order (axis : Axis) (values : List α) {β : Type} (v : β) :
    Decides (match disorder? axis.inOrder values with
        | some (a, b) => .error (.disordered axis a b)
        | none => .ok v)
      [⟨List.IsChain (fun a b => axis.inOrder a b = true) values,
        fun fault => ∃ a b, fault = .disordered axis a b ∧
          LeftmostBreak (fun a b => axis.inOrder a b = true) values a b⟩] := by
  cases order : disorder? axis.inOrder values with
  | none => exact decides_met ((disorder_none_iff _ _).mp order) (decides_nil v)
  | some pair =>
    obtain ⟨a, b⟩ := pair
    refine decides_unmet ?_ fun fault => ?_
    · rw [← disorder_none_iff, order]
      simp
    · simp only [← disorder_some_iff, order, Option.some.injEq, Prod.mk.injEq]
      constructor
      · intro pair
        obtain ⟨a', b', rfl, rfl, rfl⟩ := pair
        rfl
      · rintro rfl
        exact ⟨a, b, rfl, rfl, rfl⟩

theorem axis_scale_decides (axis : Axis) (slots : List (Option α)) :
    Decides (axis.scale slots) (axis.requirements slots) := by
  have values := ticksFrom_values 0 slots
  have count := ticksFrom_length 0 slots
  unfold Axis.scale Axis.requirements
  split
  · rename_i first second rest ticks
    rw [ticks] at values count
    rw [values, ← count]
    refine decides_met (by simp) (decides_guard fun _ => ?_)
    exact decides_order axis _ _
  · rename_i few
    have short : ¬ 2 ≤ (slots.filterMap id).length := by
      rw [← count]
      match ticks : ticksFrom 0 slots with
      | [] => simp
      | [_] => simp
      | first :: second :: rest => exact absurd ticks (few first second rest)
    rw [count]
    exact decides_unmet short fun _ => Iff.rfl

end CurveSketch
