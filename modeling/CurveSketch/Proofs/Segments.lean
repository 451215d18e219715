import CurveSketch.Proofs.Axes
import Mathlib.Order.Basic

/- Where the ticks of an accepted axis stand, and which segment a position is read from. -/
namespace CurveSketch
variable {α : Type}

theorem ticksFrom_append (i : Nat) (left right : List (Option α)) :
    ticksFrom i (left ++ right) = ticksFrom i left ++ ticksFrom (i + left.length) right := by
  induction left generalizing i with
  | nil => simp [ticksFrom]
  | cons slot left ih =>
    have shift : i + 1 + left.length = i + (left.length + 1) := by omega
    cases slot with
    | none => simp [ticksFrom, ih, shift]
    | some value => simp [ticksFrom, ih, shift]

theorem ticksFrom_bounds (i : Nat) (slots : List (Option α)) :
    ∀ t ∈ ticksFrom i slots, i ≤ t.position := by
  induction slots generalizing i with
  | nil => simp [ticksFrom]
  | cons slot rest ih =>
    intro t member
    cases slot with
    | none =>
      have later := ih (i + 1) t member
      omega
    | some value =>
      rcases List.mem_cons.mp member with here | there
      · simp [here]
      · have later := ih (i + 1) t there
        omega

theorem ticksFrom_ascending (i : Nat) (slots : List (Option α)) :
    (ticksFrom i slots).Pairwise fun t u => t.position < u.position := by
  induction slots generalizing i with
  | nil => simp [ticksFrom]
  | cons slot rest ih =>
    cases slot with
    | none => exact ih (i + 1)
    | some value =>
      refine List.pairwise_cons.mpr ⟨?_, ih (i + 1)⟩
      intro t member
      have later := ticksFrom_bounds (i + 1) rest t member
      simp only
      omega

namespace Scale

/-- The ticks of a scale stand in order of position and of value, the outer ones at the first and
    the last of `width` positions. -/
structure Laid (inOrder : α → α → Prop) (width : Nat) (s : Scale α) : Prop where
  ascending : s.toList.IsChain fun t u => t.position < u.position
  ordered : s.toList.IsChain fun t u => inOrder t.value u.value
  first : s.first.position = 0
  last : s.last.position + 1 = width

theorem last_mem (s : Scale α) : s.toList.getLast? = some s.last := by
  simp only [toList, last]
  cases s.rest with
  | nil => rfl
  | cons t rest => simp [List.getLast?_cons, List.getLastD_eq_getLast?]

end Scale

theorem axis_scale_laid [Scalar α] {axis : Axis} {slots : List (Option α)} {s : Scale α}
    (accepted : axis.scale slots = .ok s) :
    s.Laid (fun a b => axis.inOrder a b = true) slots.length := by
  unfold Axis.scale at accepted
  split at accepted
  · rename_i first second rest ticks
    split at accepted
    · rename_i closed
      split at accepted
      · cases accepted
      · rename_i order
        cases accepted
        simp only [closedEnds, Bool.and_eq_true] at closed
        obtain ⟨left, right⟩ := closed
        have list : Scale.toList ⟨first, second, rest⟩ = ticksFrom 0 slots := ticks.symm
        refine ⟨?_, ?_, ?_, ?_⟩
        · rw [list]
          exact (ticksFrom_ascending 0 slots).isChain
        · have chain := (disorder_none_iff _ _).mp order
          rwa [List.isChain_map] at chain
        · cases slots with
          | nil => simp at left
          | cons slot later =>
            cases slot with
            | none => simp at left
            | some value =>
              rw [ticksFrom] at ticks
              have same := (List.cons.inj ticks).1
              simp [← same]
        · have lastTick := Scale.last_mem ⟨first, second, rest⟩
          rw [list] at lastTick
          cases final : slots.getLast? with
          | none => simp [final] at right
          | some slot =>
            cases slot with
            | none => simp [final] at right
            | some value =>
              obtain ⟨before, rfl⟩ := List.getLast?_eq_some_iff.mp final
              simp only [ticksFrom_append, ticksFrom, List.getLast?_concat,
                Option.some.injEq] at lastTick
              simp [← lastTick]
    · cases accepted
  · cases accepted

namespace Scale

section
variable {a b : Tick α} {rest : List (Tick α)}

theorem bracket_adjacent (a b : Tick α) (rest : List (Tick α)) (i : Nat) :
    ∃ before after, a :: b :: rest =
      before ++ (bracket a b rest i).start :: (bracket a b rest i).stop :: after := by
  induction rest generalizing a b with
  | nil => exact ⟨[], [], rfl⟩
  | cons c rest ih =>
    rw [bracket]
    split
    · exact ⟨[], c :: rest, rfl⟩
    · obtain ⟨before, after, found⟩ := ih b c
      exact ⟨a :: before, after, by rw [found]; rfl⟩

theorem bracket_start_le (i : Nat) (right : a.position ≤ i) :
    (bracket a b rest i).start.position ≤ i := by
  induction rest generalizing a b with
  | nil => exact right
  | cons c rest ih =>
    rw [bracket]
    split
    · exact right
    · exact ih (by omega)

theorem bracket_stop (a b : Tick α) (rest : List (Tick α)) (i : Nat) :
    i < (bracket a b rest i).stop.position ∨ (bracket a b rest i).stop = rest.getLastD b := by
  induction rest generalizing a b with
  | nil => exact Or.inr rfl
  | cons c rest ih =>
    rw [bracket]
    split
    · rename_i inside
      exact Or.inl inside
    · rw [List.getLastD_cons]
      exact ih b c

theorem last_furthest (ascending : (b :: rest).IsChain fun t u => t.position < u.position) :
    b.position ≤ (rest.getLastD b).position := by
  induction rest generalizing b with
  | nil => exact Nat.le_refl _
  | cons c rest ih =>
    obtain ⟨next, later⟩ := List.isChain_cons_cons.mp ascending
    have furthest := ih later
    rw [List.getLastD_cons]
    omega

theorem bracket_stop_le (ascending : (a :: b :: rest).IsChain fun t u => t.position < u.position)
    (i : Nat) : (bracket a b rest i).stop.position ≤ (rest.getLastD b).position := by
  induction rest generalizing a b with
  | nil => exact Nat.le_refl _
  | cons c rest ih =>
    rw [bracket]
    split
    · exact last_furthest ascending.tail
    · rw [List.getLastD_cons]
      exact ih ascending.tail

/-- One position further the segment is the same, or the next one has just begun. -/
theorem bracket_next (ascending : (a :: b :: rest).IsChain fun t u => t.position < u.position)
    (i : Nat) :
    bracket a b rest (i + 1) = bracket a b rest i ∨
      ∃ t u v, [t, u, v] <:+: a :: b :: rest ∧ i + 1 = u.position ∧
        bracket a b rest i = ⟨t, u⟩ ∧ bracket a b rest (i + 1) = ⟨u, v⟩ := by
  induction rest generalizing a b with
  | nil => exact Or.inl rfl
  | cons c rest ih =>
    have later := ascending.tail
    by_cases inside : i + 1 < b.position
    · left
      rw [bracket, bracket, if_pos inside, if_pos (by omega)]
    · by_cases before : i < b.position
      · right
        have next : b.position < c.position := (List.isChain_cons_cons.mp later).1
        have turned : bracket b c rest (i + 1) = ⟨b, c⟩ := by
          cases rest with
          | nil => rfl
          | cons d rest => rw [bracket, if_pos (by omega)]
        rw [bracket, bracket, if_pos before, if_neg inside, turned]
        exact ⟨a, b, c, ⟨[], rest, rfl⟩, by omega, rfl, rfl⟩
      · rw [bracket, bracket, if_neg before, if_neg inside]
        rcases ih later with same | ⟨t, u, v, consecutive, turn⟩
        · exact Or.inl same
        · exact Or.inr ⟨t, u, v, List.infix_cons consecutive, turn⟩

theorem bracket_between {t u : Tick α} {i : Nat}
    (ascending : (a :: b :: rest).IsChain fun t u => t.position < u.position)
    (neighbours : [t, u] <:+: a :: b :: rest) (left : t.position ≤ i) (right : i < u.position) :
    bracket a b rest i = ⟨t, u⟩ := by
  obtain ⟨before, after, found⟩ := neighbours
  induction rest generalizing a b before with
  | nil =>
    cases before with
    | nil =>
      cases found
      rfl
    | cons first before => simp [List.append_eq_cons_iff] at found
  | cons c rest ih =>
    rw [bracket]
    cases before with
    | nil =>
      cases found
      exact if_pos right
    | cons first before =>
      have later : before ++ [t, u] ++ after = b :: c :: rest := by simpa using (List.cons.inj found).2
      have beyond : b.position ≤ t.position := by
        have member : t ∈ b :: c :: rest := by simp [← later]
        rcases List.mem_cons.mp member with same | further
        · rw [same]
        · have order := List.isChain_iff_pairwise.mp ascending.tail
          exact (List.rel_of_pairwise_cons order further).le
      rw [if_neg (by omega)]
      exact ih ascending.tail before later

end

variable {s : Scale α}

theorem segment_turns (ascending : s.toList.IsChain fun t u => t.position < u.position)
    (i : Nat) :
    s.segment (i + 1) = s.segment i ∨
      ∃ t u v, [t, u, v] <:+: s.toList ∧ i + 1 = u.position ∧
        s.segment i = ⟨t, u⟩ ∧ s.segment (i + 1) = ⟨u, v⟩ :=
  bracket_next ascending i

theorem segment_next (ascending : s.toList.IsChain fun t u => t.position < u.position)
    (i : Nat) :
    s.segment (i + 1) = s.segment i ∨
      (i + 1 = (s.segment i).stop.position ∧
        (s.segment (i + 1)).start = (s.segment i).stop) := by
  rcases segment_turns ascending i with same | ⟨t, u, v, _, here, left, right⟩
  · exact Or.inl same
  · rw [left, right]
    exact Or.inr ⟨here, rfl⟩

theorem segment_between (ascending : s.toList.IsChain fun t u => t.position < u.position)
    {t u : Tick α} (neighbours : [t, u] <:+: s.toList) {i : Nat} (left : t.position ≤ i)
    (right : i < u.position) : s.segment i = ⟨t, u⟩ :=
  bracket_between ascending neighbours left right

theorem segments_at_turn (ascending : s.toList.IsChain fun t u => t.position < u.position)
    {t u v : Tick α} (consecutive : [t, u, v] <:+: s.toList) :
    ∃ i, i + 1 = u.position ∧ s.segment i = ⟨t, u⟩ ∧ s.segment (i + 1) = ⟨u, v⟩ := by
  have apart := ascending.infix consecutive
  simp only [List.isChain_cons_cons, List.isChain_singleton, and_true] at apart
  have before : [t, u] <:+: s.toList := (List.infix_append' [] [t, u] [v]).trans consecutive
  have behind : [u, v] <:+: s.toList := (List.infix_cons (List.infix_refl [u, v])).trans consecutive
  refine ⟨u.position - 1, by omega, ?_, ?_⟩
  · exact segment_between ascending before (by omega) (by omega)
  · exact segment_between ascending behind (by omega) (by omega)

theorem last_or_next {t : Tick α} (member : t ∈ s.toList) :
    t = s.last ∨ ∃ u, [t, u] <:+: s.toList := by
  obtain ⟨before, after, split⟩ := List.append_of_mem member
  cases after with
  | nil =>
    have last := s.last_mem
    rw [split, List.getLast?_concat] at last
    exact Or.inl (Option.some.inj last)
  | cons u after => exact Or.inr ⟨u, before, after, by simp [split]⟩

/-- Further right stands the same segment or one that starts no lower than this one stops, if the
    segments between rise. -/
theorem segment_rises {β : Type} [Preorder β] (v : Tick α → β)
    (ascending : s.toList.IsChain fun t u => t.position < u.position) {i j : Nat} (le : i ≤ j)
    (rises : ∀ k < j, v (s.segment k).start ≤ v (s.segment k).stop) :
    s.segment j = s.segment i ∨
      i < (s.segment i).stop.position ∧ v (s.segment i).stop ≤ v (s.segment j).start := by
  induction j, le using Nat.le_induction with
  | base => exact Or.inl rfl
  | succ j further ih =>
    have before := ih fun k less => rises k (by omega)
    rcases segment_next ascending j with same | ⟨here, start⟩
    · rwa [same]
    · right
      rw [start]
      rcases before with same | ⟨inside, above⟩
      · rw [same] at here ⊢
        exact ⟨by omega, le_refl _⟩
      · exact ⟨inside, above.trans (rises j (by omega))⟩

theorem segment_around {i : Nat} (left : s.first.position ≤ i) (right : i < s.last.position) :
    (s.segment i).start.position ≤ i ∧ i < (s.segment i).stop.position := by
  refine ⟨bracket_start_le i left, ?_⟩
  rcases bracket_stop s.first s.second s.rest i with inside | final
  · exact inside
  · have stop : (s.segment i).stop = s.last := final
    rwa [stop]

theorem segment_behind (ascending : s.toList.IsChain fun t u => t.position < u.position) {i : Nat}
    (behind : s.last.position ≤ i) : (s.segment i).stop = s.last := by
  rcases bracket_stop s.first s.second s.rest i with inside | final
  · have furthest : (s.segment i).stop.position ≤ s.last.position := bracket_stop_le ascending i
    have further : i < (s.segment i).stop.position := inside
    omega
  · exact final

theorem segment_last (ascending : s.toList.IsChain fun t u => t.position < u.position) :
    (s.segment s.last.position).stop = s.last :=
  segment_behind ascending (le_refl _)

theorem segment_of_chain {r : Tick α → Tick α → Prop} (chain : s.toList.IsChain r) (i : Nat) :
    r (s.segment i).start (s.segment i).stop := by
  obtain ⟨before, after, found⟩ := bracket_adjacent s.first s.second s.rest i
  have whole : s.toList = before ++ (s.segment i).start :: (s.segment i).stop :: after := found
  rw [whole] at chain
  exact (List.isChain_cons_cons.mp chain.right_of_append).1

end Scale

theorem pairMarks_length (marks : List Char) (values : List α) :
    (pairMarks marks values).length = marks.length := by
  induction marks generalizing values with
  | nil => rfl
  | cons mark marks ih =>
    rw [pairMarks]
    split <;> simp [ih]

theorem Ruler.scale_laid [Scalar α] {r : Ruler α} {across : Scale α}
    (accepted : r.scale = .ok across) : across.Laid (fun a b => a < b) r.width := by
  unfold Ruler.scale at accepted
  split at accepted
  · have laid := axis_scale_laid accepted
    have size : r.slots.length = r.width := pairMarks_length r.marks r.values
    rw [size] at laid
    simpa only [Axis.inOrder, decide_eq_true_eq] using laid
  · cases accepted

theorem Sketch.across_laid [Scalar α] {s : Sketch α} {across : Scale α}
    (accepted : s.across = .ok across) :
    across.Laid (fun a b => a < b) s.ruler.marks.length :=
  Ruler.scale_laid accepted

theorem Sketch.down_laid [Scalar α] {s : Sketch α} {down : Scale α}
    (accepted : s.down = .ok down) :
    down.Laid (fun a b => zero < a - b) s.rows.length := by
  have laid := axis_scale_laid accepted
  simpa only [Axis.inOrder, decide_eq_true_eq, List.length_map] using laid

end CurveSketch
