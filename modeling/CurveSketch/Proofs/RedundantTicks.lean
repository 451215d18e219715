import CurveSketch.Proofs.Acceptance
import CurveSketch.Proofs.Interpolation

/- Redundant ticks, in exact rationals. A tick at the value that its position has anyway splits a
   segment into two segments of the same line. No cell changes, so neither does anything that is
   made of cells. -/
namespace CurveSketch
variable {α : Type}

def insertTick (tick : Tick α) (ticks : List (Tick α)) : List (Tick α) :=
  ticks.orderedInsert (fun t u => t.position ≤ u.position) tick

theorem insertTick_first {tick : Tick α} {ticks : List (Tick α)}
    (first : ∀ t ∈ ticks, tick.position ≤ t.position) : insertTick tick ticks = tick :: ticks := by
  unfold insertTick
  cases ticks with
  | nil => rfl
  | cons t rest => exact List.orderedInsert_cons_of_le _ rest (first t (by simp))

theorem insertTick_later {tick t : Tick α} (rest : List (Tick α))
    (later : t.position < tick.position) :
    insertTick tick (t :: rest) = t :: insertTick tick rest :=
  List.orderedInsert_of_not_le _ rest (Nat.not_le.mpr later)

theorem insertTick_between {before after : List (Tick α)} {t u tick : Tick α}
    (ascending : (before ++ t :: u :: after).IsChain fun t u => t.position < u.position)
    (left : t.position < tick.position) (right : tick.position < u.position) :
    insertTick tick (before ++ t :: u :: after) = before ++ t :: tick :: u :: after := by
  induction before with
  | nil =>
    have beyond : ∀ v ∈ u :: after, tick.position ≤ v.position := by
      intro v member
      have order := List.isChain_iff_pairwise.mp ascending.tail
      rcases List.mem_cons.mp member with rfl | further
      · exact right.le
      · have := List.rel_of_pairwise_cons order further
        omega
    rw [List.nil_append, insertTick_later _ left, insertTick_first beyond]
    rfl
  | cons v before ih =>
    have order := List.isChain_iff_pairwise.mp ascending
    have earlier : v.position < t.position := List.rel_of_pairwise_cons order (by simp)
    rw [List.cons_append, insertTick_later _ (earlier.trans left), ih ascending.tail]
    rfl

section
variable {r : Tick α → Tick α → Prop} {before after : List (Tick α)} {t m u : Tick α}

theorem chain_middle (chain : (before ++ t :: u :: after).IsChain r) : r t u :=
  (List.isChain_append_cons_cons.mp chain).2.1

theorem chain_insert (chain : (before ++ t :: u :: after).IsChain r) (left : r t m)
    (right : r m u) : (before ++ t :: m :: u :: after).IsChain r := by
  obtain ⟨first, _, last⟩ := List.isChain_append_cons_cons.mp chain
  exact List.isChain_append_cons_cons.mpr ⟨first, left, List.isChain_cons_cons.mpr ⟨right, last⟩⟩

end

theorem mem_ticksFrom (i : Nat) (slots : List (Option α)) (t : Tick α) :
    t ∈ ticksFrom i slots ↔ ∃ k, slots[k]? = some (some t.value) ∧ t.position = i + k := by
  induction slots generalizing i with
  | nil => simp [ticksFrom]
  | cons slot rest ih =>
    constructor
    · intro member
      cases slot with
      | none =>
        obtain ⟨k, shown, place⟩ := (ih (i + 1)).mp member
        exact ⟨k + 1, by simpa using shown, by omega⟩
      | some value =>
        rcases List.mem_cons.mp member with rfl | later
        · exact ⟨0, rfl, rfl⟩
        · obtain ⟨k, shown, place⟩ := (ih (i + 1)).mp later
          exact ⟨k + 1, by simpa using shown, by omega⟩
    · intro found
      obtain ⟨k, shown, place⟩ := found
      cases k with
      | zero =>
        obtain ⟨value, position⟩ := t
        simp only [List.getElem?_cons_zero, Option.some.injEq] at shown
        simp only [Nat.add_zero] at place
        simp [shown, place, ticksFrom]
      | succ k =>
        have later := (ih (i + 1)).mpr ⟨k, by simpa using shown, by omega⟩
        cases slot with
        | none => exact later
        | some value => exact List.mem_cons_of_mem _ later

theorem ticksFrom_set (i : Nat) {slots : List (Option α)} {p : Nat} (empty : slots[p]? = some none)
    (value : α) :
    ticksFrom i (slots.set p (some value)) = insertTick ⟨value, i + p⟩ (ticksFrom i slots) := by
  induction slots generalizing i p with
  | nil => simp at empty
  | cons slot rest ih =>
    cases p with
    | zero =>
      simp only [List.getElem?_cons_zero, Option.some.injEq] at empty
      subst empty
      have beyond : ∀ t ∈ ticksFrom (i + 1) rest, i + 0 ≤ t.position := by
        intro t member
        have := ticksFrom_bounds (i + 1) rest t member
        omega
      exact (insertTick_first beyond).symm
    | succ p =>
      have later := ih (i + 1) (by simpa using empty)
      rw [show i + 1 + p = i + (p + 1) by omega] at later
      cases slot with
      | none => exact later
      | some first =>
        rw [List.set_cons_succ, ticksFrom, ticksFrom, later, insertTick_later _ (by simp)]

theorem closedEnds_set {slots : List (Option α)} (closed : closedEnds slots = true) (p : Nat)
    (value : α) : closedEnds (slots.set p (some value)) = true := by
  have shown (i : Nat) (filled : slots[i]?.join.isSome = true) :
      (slots.set p (some value))[i]?.join.isSome = true := by
    rw [List.getElem?_set]
    split
    · rename_i here
      subst here
      split
      · rfl
      · rename_i outside
        simp [List.getElem?_eq_none (Nat.not_lt.mp outside)] at filled
    · exact filled
  simp only [closedEnds, Bool.and_eq_true, List.head?_eq_getElem?, List.getLast?_eq_getElem?,
    List.length_set] at closed ⊢
  exact ⟨shown _ closed.1, shown _ closed.2⟩

theorem axis_scale_ok_iff [Scalar α] (axis : Axis) (slots : List (Option α)) (s : Scale α) :
    axis.scale slots = .ok s ↔
      s.toList = ticksFrom 0 slots ∧ closedEnds slots = true ∧
        s.toList.IsChain fun t u => axis.inOrder t.value u.value = true := by
  have ordered (ticks : List (Tick α)) : disorder? axis.inOrder (ticks.map (·.value)) = none ↔
      ticks.IsChain fun t u => axis.inOrder t.value u.value = true := by
    rw [disorder_none_iff, List.isChain_map]
  constructor
  · intro accepted
    unfold Axis.scale at accepted
    split at accepted
    · rename_i first second rest ticks
      split at accepted
      · rename_i closed
        split at accepted
        · cases accepted
        · rename_i order
          cases accepted
          exact ⟨ticks.symm, closed, (ordered _).mp order⟩
      · cases accepted
    · cases accepted
  · intro valid
    obtain ⟨ticks, closed, chain⟩ := valid
    obtain ⟨first, second, rest⟩ := s
    have order := (ordered _).mpr chain
    simp only [Scale.toList] at ticks order
    simp only [Axis.scale, ← ticks, closed, order, if_true]

namespace Scale

theorem toList_ofTicks [Scalar α] {ticks : List (Tick α)} (two : 2 ≤ ticks.length) :
    (ofTicks ticks).toList = ticks := by
  match ticks, two with
  | first :: second :: rest, _ => rfl

/-- Position `j` lies between the outer ticks and is no tick itself. -/
structure Vacant (s : Scale α) (j : Nat) : Prop where
  left : s.first.position < j
  right : j < s.last.position
  free : ∀ t ∈ s.toList, t.position ≠ j

theorem vacant_of_empty [Scalar α] {axis : Axis} {slots : List (Option α)} {s : Scale α}
    (accepted : axis.scale slots = .ok s) {p : Nat} (empty : slots[p]? = some none) :
    s.Vacant p := by
  have laid := axis_scale_laid accepted
  obtain ⟨ticks, _, _⟩ := (axis_scale_ok_iff axis slots s).mp accepted
  have free : ∀ t ∈ s.toList, t.position ≠ p := by
    intro t member here
    rw [ticks, mem_ticksFrom] at member
    obtain ⟨k, shown, place⟩ := member
    rw [show k = p by omega, empty] at shown
    cases shown
  have first := free s.first (by simp [toList])
  have last := free s.last (List.mem_of_getLast? (last_mem s))
  have inside := (List.getElem?_eq_some_iff.mp empty).1
  have start := laid.first
  have stop := laid.last
  exact ⟨by omega, by omega, free⟩

theorem vacant_inside {s : Scale α} {j : Nat} (vacant : s.Vacant j) :
    ∃ before after, s.toList = before ++ (s.segment j).start :: (s.segment j).stop :: after ∧
      (s.segment j).start.position < j ∧ j < (s.segment j).stop.position := by
  obtain ⟨before, after, split⟩ := bracket_adjacent s.first s.second s.rest j
  change s.toList = before ++ (s.segment j).start :: (s.segment j).stop :: after at split
  obtain ⟨reached, inside⟩ := segment_around vacant.left.le vacant.right
  have other := vacant.free (s.segment j).start (by simp [split])
  exact ⟨before, after, split, by omega, inside⟩

/-- One tick more between two neighbours: a position is read from the segment it was read from,
    or from one of the two halves of the segment that is split. -/
def Refines (t m u : Tick α) (old new : Segment α) : Prop :=
  new = old ∨ old = ⟨t, u⟩ ∧ (new = ⟨t, m⟩ ∨ new = ⟨m, u⟩)

theorem bracket_split {t m u : Tick α} (inside : m.position < u.position) (after : List (Tick α))
    (i : Nat) : Refines t m u (bracket t u after i) (bracket t m (u :: after) i) := by
  rw [bracket]
  by_cases first : i < m.position
  · rw [if_pos first]
    refine Or.inr ⟨?_, Or.inl rfl⟩
    cases after with
    | nil => rfl
    | cons c after => rw [bracket, if_pos (first.trans inside)]
  · rw [if_neg first]
    cases after with
    | nil => exact Or.inr ⟨rfl, Or.inr rfl⟩
    | cons c after =>
      rw [bracket, bracket]
      by_cases second : i < u.position
      · rw [if_pos second, if_pos second]
        exact Or.inr ⟨rfl, Or.inr rfl⟩
      · rw [if_neg second, if_neg second]
        exact Or.inl rfl

theorem bracket_insert {a b a' b' t m u : Tick α} {rest rest' before after : List (Tick α)}
    (old : a :: b :: rest = before ++ t :: u :: after)
    (new : a' :: b' :: rest' = before ++ t :: m :: u :: after)
    (inside : m.position < u.position) (i : Nat) :
    Refines t m u (bracket a b rest i) (bracket a' b' rest' i) := by
  induction before generalizing a b a' b' rest rest' with
  | nil =>
    cases old
    cases new
    exact bracket_split inside after i
  | cons x before ih =>
    obtain ⟨rfl, oldTail⟩ := List.cons.inj old
    obtain ⟨rfl, newTail⟩ := List.cons.inj new
    have same : b' = b := by
      cases before <;> rw [(List.cons.inj oldTail).1, (List.cons.inj newTail).1]
    subst same
    -- behind the first tick there are two more on either side
    cases rest with
    | nil => simp [List.cons_eq_append_iff] at oldTail
    | cons c rest =>
      cases rest' with
      | nil => simp [List.cons_eq_append_iff] at newTail
      | cons c' rest' =>
        rw [bracket, bracket]
        by_cases first : i < b'.position
        · rw [if_pos first, if_pos first]
          exact Or.inl rfl
        · rw [if_neg first, if_neg first]
          exact ih oldTail newTail

section
variable [Scalar α]

/-- The tick that an unmarked position stands for. -/
def interpolated (s : Scale α) (j : Nat) : Tick α := ⟨(s.cell j).center, j⟩

def insert (s : Scale α) (tick : Tick α) : Scale α := ofTicks (insertTick tick s.toList)

theorem toList_insert (s : Scale α) (tick : Tick α) :
    (s.insert tick).toList = insertTick tick s.toList := by
  refine toList_ofTicks ?_
  rw [insertTick, List.orderedInsert_length]
  simp [toList]

end
end Scale

theorem Segment.cell_of_points {g : Segment ℚ} {t u : Tick ℚ} (apart : t.position < u.position)
    (left : t.value = g.value t.position) (right : u.value = g.value u.position) (i : ℕ) :
    (Segment.mk t u).cell i = g.cell i := by
  have length : ((u.position - t.position : ℕ) : ℚ) = (u.position : ℚ) - (t.position : ℚ) :=
    Nat.cast_sub apart.le
  have positive : (0 : ℚ) < (u.position : ℚ) - (t.position : ℚ) := by
    have cast : (t.position : ℚ) < (u.position : ℚ) := by exact_mod_cast apart
    linarith
  have step : (Segment.mk t u).step = g.step := by
    rw [step_rat]
    simp only [left, right, length, value_rat]
    field_simp
    ring
  have value : (Segment.mk t u).value i = g.value i := by
    rw [value_rat, step]
    simp only [left, value_rat]
    ring
  rw [cell, cell, step, value]

theorem inOrder_scaled {axis : Axis} {a b a' b' k : ℚ} (ordered : axis.inOrder a b = true)
    (positive : 0 < k) (scaled : b' - a' = k * (b - a)) : axis.inOrder a' b' = true := by
  rw [axis.inOrder_iff] at ordered ⊢
  rw [scaled, mul_left_comm]
  exact mul_pos positive ordered

theorem inOrder_between {axis : Axis} {g : Segment ℚ} {j : ℕ} (left : g.start.position < j)
    (right : j < g.stop.position) (ordered : axis.inOrder g.start.value g.stop.value = true) :
    axis.inOrder g.start.value (g.value j) = true ∧
      axis.inOrder (g.value j) g.stop.value = true := by
  have before : (g.start.position : ℚ) < j := by exact_mod_cast left
  have after : (j : ℚ) < g.stop.position := by exact_mod_cast right
  have length : (0 : ℚ) < g.stop.position - g.start.position := by linarith
  have stop := Segment.value_stop (left.trans right)
  constructor
  · refine inOrder_scaled ordered (div_pos (sub_pos.mpr before) length) ?_
    rw [← stop, Segment.value_rat, Segment.value_rat]
    field_simp
    ring
  · refine inOrder_scaled ordered (div_pos (sub_pos.mpr after) length) ?_
    rw [← stop, Segment.value_rat, Segment.value_rat]
    field_simp
    ring

namespace Scale
variable {s : Scale ℚ} {j : ℕ}

theorem toList_interpolated (ascending : s.toList.IsChain fun t u => t.position < u.position)
    (vacant : s.Vacant j) :
    ∃ before t u after, s.segment j = ⟨t, u⟩ ∧ t.position < j ∧ j < u.position ∧
      s.toList = before ++ t :: u :: after ∧
      (s.insert (s.interpolated j)).toList = before ++ t :: s.interpolated j :: u :: after := by
  obtain ⟨before, after, split, left, right⟩ := vacant_inside vacant
  refine ⟨before, _, _, after, rfl, left, right, split, ?_⟩
  rw [split] at ascending
  rw [toList_insert, split]
  exact insertTick_between ascending left right

theorem cell_insert (ascending : s.toList.IsChain fun t u => t.position < u.position)
    (vacant : s.Vacant j) (i : ℕ) : (s.insert (s.interpolated j)).cell i = s.cell i := by
  obtain ⟨before, t, u, after, here, left, right, old, new⟩ := toList_interpolated ascending vacant
  have start : t.value = (Segment.mk t u).value t.position := (Segment.value_start ⟨t, u⟩).symm
  have stop : u.value = (Segment.mk t u).value u.position :=
    (Segment.value_stop (g := ⟨t, u⟩) (left.trans right)).symm
  have middle : (s.interpolated j).value = (Segment.mk t u).value j := by
    rw [← here]
    rfl
  have refined : Refines t (s.interpolated j) u (s.segment i)
      ((s.insert (s.interpolated j)).segment i) := bracket_insert old new right i
  unfold cell
  rcases refined with same | ⟨whole, first | second⟩
  · rw [same]
  · rw [whole, first]
    exact Segment.cell_of_points left start middle i
  · rw [whole, second]
    exact Segment.cell_of_points right middle stop i

theorem ends_insert (ascending : s.toList.IsChain fun t u => t.position < u.position)
    (vacant : s.Vacant j) :
    (s.insert (s.interpolated j)).first = s.first ∧ (s.insert (s.interpolated j)).last = s.last := by
  obtain ⟨before, t, u, after, _, _, _, old, new⟩ := toList_interpolated ascending vacant
  have heads : (s.insert (s.interpolated j)).toList.head? = s.toList.head? := by
    rw [old, new]
    cases before <;> rfl
  have lasts : (s.insert (s.interpolated j)).toList.getLast? = s.toList.getLast? := by
    rw [old, new]
    simp [List.getLast?_append]
  rw [last_mem, last_mem] at lasts
  exact ⟨Option.some.inj heads, Option.some.inj lasts⟩

theorem samples_insert (ascending : s.toList.IsChain fun t u => t.position < u.position)
    (vacant : s.Vacant j) (count i : ℕ) :
    (s.insert (s.interpolated j)).samples count i = s.samples count i := by
  obtain ⟨first, last⟩ := ends_insert ascending vacant
  have ends : (s.insert (s.interpolated j)).domain = s.domain := by
    simp only [domain, first, last, cell_insert ascending vacant]
  unfold samples
  rw [ends, cell_insert ascending vacant]

end Scale

theorem Stroke.rule_of_cells [Scalar α] {down down' : Scale α}
    (cells : ∀ row, down'.cell row = down.cell row) (s : Stroke) : s.rule down' = s.rule down := by
  cases s with
  | point row => simp only [rule, cells]
  | band run => simp only [rule, outer, cells]
  | line run => simp only [rule, outer, cells]

theorem axis_scale_insert {axis : Axis} {slots : List (Option ℚ)} {s : Scale ℚ}
    (accepted : axis.scale slots = .ok s) {p : ℕ} (empty : slots[p]? = some none) :
    axis.scale (slots.set p (some (s.cell p).center)) = .ok (s.insert (s.interpolated p)) := by
  obtain ⟨ticks, closed, ordered⟩ := (axis_scale_ok_iff axis slots s).mp accepted
  have ascending := (axis_scale_laid accepted).ascending
  have vacant := Scale.vacant_of_empty accepted empty
  refine (axis_scale_ok_iff _ _ _).mpr ⟨?_, closedEnds_set closed p _, ?_⟩
  · rw [ticksFrom_set 0 empty, ← ticks, Nat.zero_add]
    exact Scale.toList_insert s _
  · obtain ⟨before, t, u, after, here, left, right, old, new⟩ :=
      Scale.toList_interpolated ascending vacant
    rw [old] at ordered
    have middle : (Segment.mk t u).value p = (s.interpolated p).value := by
      rw [← here]
      rfl
    obtain ⟨low, high⟩ := inOrder_between (g := ⟨t, u⟩) left right (chain_middle ordered)
    rw [middle] at low high
    rw [new]
    exact chain_insert ordered low high

theorem pairMarks_blank {marks : List Char} {place : ℕ} (empty : marks[place]? = some blank)
    (values : List α) : (pairMarks marks values)[place]? = some none := by
  induction marks generalizing place values with
  | nil => simp at empty
  | cons mark marks ih =>
    cases place with
    | zero =>
      simp only [List.getElem?_cons_zero, Option.some.injEq] at empty
      simp [pairMarks, empty]
    | succ place =>
      have later : marks[place]? = some blank := by simpa using empty
      rw [pairMarks]
      split
      · exact ih later values
      · exact ih later values.tail

theorem pairMarks_set {marks : List Char} {values : List α} {place : ℕ} {glyph : Char}
    (paired : marks.countP (· != blank) = values.length) (empty : marks[place]? = some blank)
    (visible : glyph ≠ blank) (value : α) :
    pairMarks (marks.set place glyph)
        (values.insertIdx ((marks.take place).countP (· != blank)) value) =
      (pairMarks marks values).set place (some value) := by
  induction marks generalizing place values with
  | nil => simp at empty
  | cons mark marks ih =>
    cases place with
    | zero =>
      simp only [List.getElem?_cons_zero, Option.some.injEq] at empty
      simp [pairMarks, empty, visible]
    | succ place =>
      simp only [List.getElem?_cons_succ] at empty
      rw [List.set_cons_succ, List.take_succ_cons]
      by_cases isBlank : mark = blank
      · rw [List.countP_cons_of_neg (by simp [isBlank])] at paired ⊢
        rw [pairMarks, pairMarks, if_pos isBlank, if_pos isBlank, List.set_cons_succ]
        rw [ih paired empty]
      · rw [List.countP_cons_of_pos (by simp [isBlank])] at paired ⊢
        cases values with
        | nil => simp at paired
        | cons first values =>
          rw [pairMarks, pairMarks, if_neg isBlank, if_neg isBlank, List.set_cons_succ,
            List.insertIdx_succ_cons, List.head?_cons, List.head?_cons, List.tail_cons,
            List.tail_cons, ih (by simpa using paired) empty]

def Ruler.mark (r : Ruler α) (place : ℕ) (glyph : Char) (value : α) : Ruler α :=
  ⟨r.marks.set place glyph, r.values.insertIdx ((r.marks.take place).countP (· != blank)) value⟩

theorem Ruler.scale_ok_iff [Scalar α] (r : Ruler α) (across : Scale α) :
    r.scale = .ok across ↔ r.tickCount = r.values.length ∧ Axis.x.scale r.slots = .ok across := by
  unfold Ruler.scale
  split
  · rename_i paired
    simp [paired]
  · rename_i unpaired
    simp [unpaired]

theorem Ruler.scale_mark {r : Ruler ℚ} {across : Scale ℚ} (accepted : r.scale = .ok across)
    {place : ℕ} {glyph : Char} (empty : r.marks[place]? = some blank) (visible : glyph ≠ blank) :
    (r.mark place glyph (across.cell place).center).scale =
      .ok (across.insert (across.interpolated place)) := by
  obtain ⟨paired, slots⟩ := (scale_ok_iff r across).mp accepted
  refine (scale_ok_iff _ _).mpr ⟨?_, ?_⟩
  · obtain ⟨inside, here⟩ := List.getElem?_eq_some_iff.mp empty
    have marks := List.countP_set (p := (· != blank)) (a := glyph) inside
    have fewer := (List.take_sublist place r.marks).countP_le (p := (· != blank))
    unfold tickCount at paired ⊢
    rw [mark, List.length_insertIdx_of_le_length (by omega), marks]
    simp [here, visible, paired]
  · unfold Ruler.slots
    rw [mark, pairMarks_set paired empty visible]
    exact axis_scale_insert slots (pairMarks_blank empty r.values)

namespace Sketch

def label (s : Sketch α) (row : ℕ) (value : α) : Sketch α :=
  { s with rows := s.rows.modify row fun r => { r with label? := some value } }

def mark (s : Sketch α) (place : ℕ) (glyph : Char) (value : α) : Sketch α :=
  { s with ruler := s.ruler.mark place glyph value }

theorem labels_label (s : Sketch α) (row : ℕ) (value : α) :
    (s.label row value).rows.map (·.label?) = (s.rows.map (·.label?)).set row (some value) := by
  refine List.ext_getElem? fun i => ?_
  rw [label, List.getElem?_map, List.getElem?_modify, List.getElem?_set, List.getElem?_map,
    List.length_map]
  by_cases here : row = i
  · subst here
    cases found : s.rows[row]? with
    | none => simp [List.getElem?_eq_none_iff.mp found]
    | some r => simp [(List.getElem?_eq_some_iff.mp found).1]
  · cases s.rows[i]? <;> simp [here]

theorem ofColumns_of_cells [Scalar α] {across across' down down' : Scale α} {count : ℕ}
    (samples : ∀ i, across'.samples count i = across.samples count i)
    (cells : ∀ row, down'.cell row = down.cell row) (i : ℕ) (columns : List Column) :
    Conversion.ofColumns Reading.standard across' down' count i columns =
      Conversion.ofColumns Reading.standard across down count i columns := by
  induction columns generalizing i with
  | nil => rfl
  | cons c rest ih =>
    unfold Conversion.ofColumns
    by_cases readable : Readable c
    · rcases readable with empty | ⟨s, shows⟩
      · rw [interpret_blank empty]
        exact ih (i + 1)
      · rw [interpret_shown shows]
        simp only [Meaning.constraint, Stroke.meaning, samples, Stroke.rule_of_cells cells, ih]
    · rw [interpret_unreadable readable]

theorem convert_of_cells [Scalar α] {s s' : Sketch α} {across across' down down' : Scale α}
    (glyphs : s'.rows.map (·.glyphs) = s.rows.map (·.glyphs))
    (width : s'.ruler.width = s.ruler.width)
    (isAcross : s.across = .ok across) (isAcross' : s'.across = .ok across')
    (isDown : s.down = .ok down) (isDown' : s'.down = .ok down')
    (samples : ∀ count i, across'.samples count i = across.samples count i)
    (cells : ∀ row, down'.cell row = down.cell row) (options : Options) :
    s'.convert options = s.convert options := by
  have columns : s'.columns = s.columns := by
    rw [Sketch.columns, Sketch.columns, glyphs]
  have height : s'.rows.length = s.rows.length := by
    simpa using congrArg List.length glyphs
  have widths : s'.checkWidths = s.checkWidths := by
    have all (s : Sketch α) : (s.rows.all fun row => row.width == s.ruler.width) =
        (s.rows.map (·.glyphs)).all (·.length == s.ruler.width) := by
      rw [List.all_map]
      rfl
    rw [checkWidths, checkWidths, all, all, glyphs, width]
  unfold convert convertWith scales
  rw [widths, isAcross, isAcross', isDown, isDown']
  cases options.validate (α := α) with
  | error fault => rfl
  | ok _ =>
    cases s.checkWidths with
    | error fault => rfl
    | ok _ =>
      change (Conversion.ofColumns _ across' down' _ _ _).summarised _ _ _ =
        (Conversion.ofColumns _ across down _ _ _).summarised _ _ _
      rw [ofColumns_of_cells (samples _) cells, columns, width, height]

section
variable {s : Sketch ℚ} {across down : Scale ℚ} (isAcross : s.across = .ok across)
  (isDown : s.down = .ok down) (options : Options)
include isAcross isDown

theorem interpolated_label {row : ℕ} (unlabeled : s.rows[row]?.map (·.label?) = some none) :
    (s.label row (down.cell row).center).down = .ok (down.insert (down.interpolated row)) ∧
      (s.label row (down.cell row).center).convert options = s.convert options := by
  have empty : (s.rows.map (·.label?))[row]? = some none := by
    rwa [List.getElem?_map]
  have isDown' : (s.label row (down.cell row).center).down =
      .ok (down.insert (down.interpolated row)) := by
    rw [Sketch.down, Sketch.labels_label]
    exact axis_scale_insert isDown empty
  have ascending := (axis_scale_laid isDown).ascending
  have vacant := Scale.vacant_of_empty isDown empty
  have glyphs : (s.label row (down.cell row).center).rows.map (·.glyphs) =
      s.rows.map (·.glyphs) := map_modify_of_same (by intro r; rfl) _ _
  have cells := Scale.cell_insert ascending vacant
  exact ⟨isDown', convert_of_cells glyphs rfl isAcross isAcross isDown isDown' (fun _ _ => rfl)
    cells options⟩

theorem interpolated_mark {place : ℕ} {glyph : Char}
    (empty : s.ruler.marks[place]? = some blank) (visible : glyph ≠ blank) :
    (s.mark place glyph (across.cell place).center).across =
        .ok (across.insert (across.interpolated place)) ∧
      (s.mark place glyph (across.cell place).center).convert options = s.convert options := by
  have isAcross' : (s.mark place glyph (across.cell place).center).across =
      .ok (across.insert (across.interpolated place)) := Ruler.scale_mark isAcross empty visible
  obtain ⟨_, slots⟩ := (Ruler.scale_ok_iff _ _).mp isAcross
  have ascending := (axis_scale_laid slots).ascending
  have vacant := Scale.vacant_of_empty slots (pairMarks_blank empty s.ruler.values)
  have width : (s.mark place glyph (across.cell place).center).ruler.width = s.ruler.width :=
    List.length_set
  have glyphs : (s.mark place glyph (across.cell place).center).rows.map (·.glyphs) =
      s.rows.map (·.glyphs) := rfl
  have samples := Scale.samples_insert ascending vacant
  exact ⟨isAcross', convert_of_cells glyphs width isAcross isAcross' isDown isDown samples
    (fun _ => rfl) options⟩

end

end Sketch

/-- A tick at the value that its position has anyway changes no cell. So a label with the value of
    its row, or a mark with the value of its column, is accepted where the axes were accepted, and
    the sketch is converted as before, faults included. -/
theorem interpolated_ticks_immaterial :
    (∀ (s : Scale ℚ) (j : ℕ), (s.toList.IsChain fun t u => t.position < u.position) →
      s.Vacant j →
        ((s.insert (s.interpolated j)).toList.IsChain fun t u => t.position < u.position) ∧
        ∀ i, (s.insert (s.interpolated j)).cell i = s.cell i) ∧
    ∀ (s : Sketch ℚ) (across down : Scale ℚ), s.across = .ok across → s.down = .ok down →
      ∀ options : Options,
        (∀ row, s.rows[row]?.map (·.label?) = some none →
          (s.label row (down.cell row).center).down =
            .ok (down.insert (down.interpolated row)) ∧
          (s.label row (down.cell row).center).convert options = s.convert options) ∧
        ∀ place glyph, s.ruler.marks[place]? = some blank → glyph ≠ blank →
          (s.mark place glyph (across.cell place).center).across =
            .ok (across.insert (across.interpolated place)) ∧
          (s.mark place glyph (across.cell place).center).convert options =
            s.convert options := by
  refine ⟨?_, ?_⟩
  · intro s j ascending vacant
    refine ⟨?_, Scale.cell_insert ascending vacant⟩
    obtain ⟨before, t, u, after, _, left, right, old, new⟩ :=
      Scale.toList_interpolated ascending vacant
    rw [old] at ascending
    rw [new]
    exact chain_insert ascending left right
  · intro s across down isAcross isDown options
    refine ⟨?_, ?_⟩
    · intro row unlabeled
      exact Sketch.interpolated_label isAcross isDown options unlabeled
    · intro place glyph empty visible
      exact Sketch.interpolated_mark isAcross isDown options empty visible

def slope : Sketch ℚ :=
  ⟨[⟨some 7, "I  X ".toList⟩, ⟨none, "I    ".toList⟩, ⟨none, "I i  ".toList⟩,
      ⟨some 1, "I i  ".toList⟩, ⟨some 0, "    X".toList⟩],
    ⟨"|  ||".toList, [0, 3, 10]⟩⟩

theorem slope_interpolated :
    slope.across = .ok ⟨⟨0, 0⟩, ⟨3, 3⟩, [⟨10, 4⟩]⟩ ∧
      slope.down = .ok ⟨⟨7, 0⟩, ⟨1, 3⟩, [⟨0, 4⟩]⟩ ∧
      (slope.convert ⟨2⟩).result = .ok [⟨[1 / 4], .spanning (1 / 2) 8 2 6⟩,
        ⟨[7 / 4, 9 / 4], .within (1 / 2) 4⟩, ⟨[5 / 4, 19 / 4], .equals 7⟩,
        ⟨[33 / 4], .equals 0⟩] ∧
      (slope.label 1 5).convert ⟨2⟩ = slope.convert ⟨2⟩ ∧
      (slope.mark 1 '+' 1).convert ⟨2⟩ = slope.convert ⟨2⟩ ∧
      ∀ across, slope.across = .ok across →
        (across.insert (across.interpolated 1)).cell 4 = across.cell 4 := by
  have isAcross : slope.across = .ok ⟨⟨0, 0⟩, ⟨3, 3⟩, [⟨10, 4⟩]⟩ := by decide +kernel
  have isDown : slope.down = .ok ⟨⟨7, 0⟩, ⟨1, 3⟩, [⟨0, 4⟩]⟩ := by decide +kernel
  obtain ⟨cells, sketches⟩ := interpolated_ticks_immaterial
  obtain ⟨labels, marks⟩ := sketches slope _ _ isAcross isDown ⟨2⟩
  have row : (Scale.cell ⟨⟨7, 0⟩, ⟨1, 3⟩, [⟨0, 4⟩]⟩ 1).center = (5 : ℚ) := by decide +kernel
  have column : (Scale.cell ⟨⟨0, 0⟩, ⟨3, 3⟩, [⟨10, 4⟩]⟩ 1).center = (1 : ℚ) := by decide +kernel
  have labeled := (labels 1 rfl).2
  have marked := (marks 1 '+' rfl (by decide)).2
  rw [row] at labeled
  rw [column] at marked
  refine ⟨isAcross, isDown, by decide +kernel, labeled, marked, ?_⟩
  intro across isAcross'
  cases isAcross.symm.trans isAcross'
  exact (cells _ 1 (by simp [Scale.toList]) ⟨by decide, by decide, by decide⟩).2 4

end CurveSketch
