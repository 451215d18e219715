import CurveSketch.Proofs.RedundantTicks

/- Steps under guard, and scales made and read by them. A guarded step goes on only where it can be
   taken: a difference of two counts only where it is no less than zero, an entry of a list only
   below its length, an answer only where there is one. No ruler and no rows stop at a guard, and
   neither does a scale whose ticks stand in order of position, whatever its values. -/
namespace CurveSketch

/-- A step that cannot be taken. -/
inductive Misstep where
  | belowZero (count taken : Nat)
  | tooMany (count size : Nat)
  | outside (index size : Nat)
  | missing
  deriving DecidableEq, Repr

/-- Why guarded work ends early: by its own fault or by that of the picture. -/
inductive Stop (α : Type) where
  | fault (fault : Fault α)
  | misstep (misstep : Misstep)
  deriving DecidableEq, Repr

abbrev Guarded (α β : Type) := Except (Stop α) β

variable {α β γ : Type}

namespace Guarded

def ofResult (result : Except (Fault α) β) : Guarded α β := result.mapError .fault

def minus (count taken : Nat) : Guarded α Nat :=
  if taken ≤ count then .ok (count - taken) else .error (.misstep (.belowZero count taken))

def plus (size a b : Nat) : Guarded α Nat :=
  if a + b ≤ size then .ok (a + b) else .error (.misstep (.tooMany (a + b) size))

def place (size i : Nat) : Guarded α Nat :=
  if i < size then .ok i else .error (.misstep (.outside i size))

def entry (items : List β) (i : Nat) : Guarded α β :=
  match items[i]? with
  | some item => .ok item
  | none => .error (.misstep (.outside i items.length))

def present : Option β → Guarded α β
  | some item => .ok item
  | none => .error (.misstep .missing)

theorem minus_of_le {count taken : Nat} (enough : taken ≤ count) :
    (minus count taken : Guarded α Nat) = .ok (count - taken) := if_pos enough

theorem plus_of_le {size a b : Nat} (fits : a + b ≤ size) :
    (plus size a b : Guarded α Nat) = .ok (a + b) := if_pos fits

theorem place_of_lt {size i : Nat} (inside : i < size) :
    (place size i : Guarded α Nat) = .ok i := if_pos inside

theorem entry_of_some {items : List β} {i : Nat} {item : β} (there : items[i]? = some item) :
    (entry items i : Guarded α β) = .ok item := by
  rw [entry, there]

theorem ofResult_ok (v : β) : (ofResult (.ok v) : Guarded α β) = .ok v := rfl

theorem ofResult_error (fault : Fault α) :
    (ofResult (.error fault) : Guarded α β) = .error (.fault fault) := rfl

theorem ok_bind (v : β) (next : β → Guarded α γ) : (Except.ok v >>= next) = next v := rfl

end Guarded

def neighbours (items : List β) : List (β × β) := items.zip items.tail

def firstEnd? (i : Nat) (ticks : List (Tick α)) : Option Nat :=
  (neighbours ticks).findIdx? fun pair => i < pair.2.position

theorem firstEnd_cons (i : Nat) (a b : Tick α) (rest : List (Tick α)) :
    firstEnd? i (a :: b :: rest) =
      if i < b.position then some 0 else (firstEnd? i (b :: rest)).map (· + 1) := by
  simp only [firstEnd?, neighbours, List.tail_cons, List.zip_cons_cons, List.findIdx?_cons,
    decide_eq_true_eq]

theorem firstEnd_bracket (i : Nat) (a b : Tick α) (rest : List (Tick α)) :
    (a :: b :: rest)[(firstEnd? i (a :: b :: rest)).getD rest.length]? =
        some (Scale.bracket a b rest i).start ∧
      (a :: b :: rest)[(firstEnd? i (a :: b :: rest)).getD rest.length + 1]? =
        some (Scale.bracket a b rest i).stop := by
  induction rest generalizing a b with
  | nil =>
    rw [firstEnd_cons]
    split <;> exact ⟨rfl, rfl⟩
  | cons c rest ih =>
    rw [firstEnd_cons, Scale.bracket]
    split
    · exact ⟨rfl, rfl⟩
    · have later := ih b c
      cases found : firstEnd? i (b :: c :: rest) with
      | none =>
        rw [found] at later
        exact later
      | some k =>
        rw [found] at later
        exact later

def markPlaces (start : Nat) (marks : List Char) : List Nat :=
  (marks.zipIdx start).filterMap fun (mark, i) => if mark = blank then none else some i

theorem markPlaces_length (start : Nat) (marks : List Char) :
    (markPlaces start marks).length = marks.countP (· != blank) := by
  induction marks generalizing start with
  | nil => rfl
  | cons mark marks ih =>
    have later := ih (start + 1)
    rw [markPlaces] at later
    by_cases isBlank : mark = blank <;> simp [markPlaces, isBlank, later]

theorem markPlaces_eq {marks : List Char} {values : List α} (start : Nat)
    (paired : marks.countP (· != blank) = values.length) :
    markPlaces start marks = (ticksFrom start (pairMarks marks values)).map (·.position) := by
  induction marks generalizing start values with
  | nil => rfl
  | cons mark marks ih =>
    rw [pairMarks]
    split
    · rename_i isBlank
      rw [List.countP_cons_of_neg (by simp [isBlank])] at paired
      have later := ih (start + 1) paired
      rw [markPlaces] at later
      simp [markPlaces, isBlank, ticksFrom, later]
    · rename_i isTick
      rw [List.countP_cons_of_pos (by simp [isTick])] at paired
      cases values with
      | nil => simp at paired
      | cons value values =>
        have later := @ih values (start + 1) (by simpa using paired)
        rw [markPlaces] at later
        simp [markPlaces, isTick, ticksFrom, later]

theorem ticksFrom_eq_filterMap (i : Nat) (slots : List (Option α)) :
    ticksFrom i slots =
      (slots.zipIdx i).filterMap fun (slot, position) => slot.map fun v => ⟨v, position⟩ := by
  induction slots generalizing i with
  | nil => rfl
  | cons slot rest ih =>
    cases slot with
    | none => simp [ticksFrom, ih]
    | some value => simp [ticksFrom, ih]

theorem find_neighbours (inOrder : α → α → Bool) (values : List α) :
    (neighbours values).find? (fun pair => !inOrder pair.1 pair.2) = disorder? inOrder values := by
  fun_induction disorder? inOrder values with
  | case1 a b rest ordered ih =>
    rw [← ih]
    simp [neighbours, ordered]
  | case2 a b rest broken => simp [neighbours, broken]
  | case3 values short =>
    cases values with
    | nil => rfl
    | cons a rest =>
      cases rest with
      | nil => rfl
      | cons b rest => exact absurd rfl (short a b rest)

theorem first_place_iff (slots : List (Option α)) :
    slots.head?.join.isSome = true ↔ ((ticksFrom 0 slots).map (·.position)).head? = some 0 := by
  constructor
  · intro shown
    match slots, shown with
    | some value :: rest, _ => simp [ticksFrom]
  · intro first
    obtain ⟨t, member, start⟩ := List.mem_map.mp (List.mem_of_head? first)
    obtain ⟨k, shown, place⟩ := (mem_ticksFrom 0 slots t).mp member
    rw [show k = 0 by omega] at shown
    simp [List.head?_eq_getElem?, shown]

theorem last_place_iff (slots : List (Option α)) :
    slots.getLast?.join.isSome = true ↔
      ((ticksFrom 0 slots).map (·.position)).getLast? = some (slots.length - 1) := by
  constructor
  · intro shown
    rcases List.eq_nil_or_concat slots with rfl | ⟨before, slot, rfl⟩
    · simp at shown
    · cases slot with
      | none => simp at shown
      | some value => simp [ticksFrom_append, ticksFrom]
  · intro last
    obtain ⟨t, member, stop⟩ := List.mem_map.mp (List.mem_of_getLast? last)
    obtain ⟨k, shown, place⟩ := (mem_ticksFrom 0 slots t).mp member
    rw [show k = slots.length - 1 by omega] at shown
    simp [List.getLast?_eq_getElem?, shown]

namespace Guarded
variable [Scalar α]

def segment (ticks : List (Tick α)) (i : Nat) : Guarded α (Segment α) := do
  let last ← minus ticks.length 2
  let k := (firstEnd? i ticks).getD last
  let start ← entry ticks k
  let stop ← entry ticks (k + 1)
  return ⟨start, stop⟩

def cell (ticks : List (Tick α)) (size i : Nat) : Guarded α (Cell α) := do
  let here ← place size i
  let g ← segment ticks here
  let span ← minus g.stop.position g.start.position
  let step := (g.stop.value - g.start.value) / (span : α)
  return .around (g.start.value + ((here : α) - (g.start.position : α)) * step) step

def domain (ticks : List (Tick α)) (size : Nat) : Guarded α (α × α) := do
  let first ← present ticks.head?
  let left ← cell ticks size first.position
  let last ← present ticks.getLast?
  let right ← cell ticks size last.position
  return (left.center, right.center)

def samples (ticks : List (Tick α)) (size count i : Nat) : Guarded α (List α) := do
  let here ← cell ticks size i
  let ends ← domain ticks size
  return (here.midpoints count).filter fun x => ends.1 ≤ x ∧ x ≤ ends.2

omit [Scalar α] in
theorem segment_eq (s : Scale α) (i : Nat) : segment s.toList i = .ok (s.segment i) := by
  have some : 2 ≤ s.toList.length := by
    simp [Scale.toList]
  obtain ⟨start, stop⟩ := firstEnd_bracket i s.first s.second s.rest
  have last : s.toList.length - 2 = s.rest.length := rfl
  rw [segment, minus_of_le some, last]
  simp only [ok_bind]
  rw [Scale.toList, entry_of_some start, entry_of_some stop]
  rfl

section
variable {s : Scale α} {inOrder : α → α → Prop} {size : Nat} (laid : s.Laid inOrder size)
include laid

theorem cell_eq {i : Nat} (inside : i < size) : cell s.toList size i = .ok (s.cell i) := by
  have apart := Scale.segment_of_chain laid.ascending i
  rw [cell, place_of_lt inside, ok_bind, segment_eq, ok_bind, minus_of_le apart.le]
  rfl

theorem domain_eq : domain s.toList size = .ok s.domain := by
  have first : s.first.position < size := by
    have last := laid.last
    rw [laid.first]
    omega
  have last : s.last.position < size := by
    rw [← laid.last]
    exact Nat.lt_succ_self _
  rw [domain, Scale.last_mem]
  simp only [Scale.toList, List.head?_cons, present, ok_bind]
  rw [← Scale.toList, cell_eq laid first, cell_eq laid last]
  rfl

theorem samples_eq (count : Nat) {i : Nat} (inside : i < size) :
    samples s.toList size count i = .ok (s.samples count i) := by
  rw [samples, cell_eq laid inside, domain_eq laid]
  rfl

end

-- The guards do stop what is no scale: a tick alone, and ticks in falling order of position.
example : cell [(⟨1, 0⟩ : Tick Rat)] 1 0 = .error (.misstep (.belowZero 1 2)) := rfl
example : cell [(⟨1, 2⟩ : Tick Rat), ⟨0, 0⟩] 3 1 = .error (.misstep (.belowZero 0 2)) := rfl

def ordered (axis : Axis) (values : List α) : Guarded α Unit :=
  match (neighbours values).find? fun pair => !axis.inOrder pair.1 pair.2 with
  | some (a, b) => .error (.fault (.disordered axis a b))
  | none => .ok ()

def across (r : Ruler α) : Guarded α (List (Tick α)) :=
  let places := markPlaces 0 r.marks
  if places.length = r.values.length then
    if 2 ≤ places.length then
      if places.head? = some 0 then do
        let final ← minus r.width 1
        if places.getLast? = some final then do
          ordered .x r.values
          return List.zipWith (fun position value => ⟨value, position⟩) places r.values
        else .error (.fault (.openEnds .x))
      else .error (.fault (.openEnds .x))
    else .error (.fault (.tooFewTicks .x places.length))
  else .error (.fault (.unpairedMarks places.length r.values.length))

def down (rows : List (Row α)) : Guarded α (List (Tick α)) :=
  let labels := rows.filterMap (·.label?)
  let labeled (row? : Option (Row α)) := row?.any (·.label?.isSome)
  if 2 ≤ labels.length then
    if labeled rows.head? && labeled rows.getLast? then do
      ordered .y labels
      return rows.zipIdx.filterMap fun (row, position) =>
        row.label?.map fun value => ⟨value, position⟩
    else .error (.fault (.openEnds .y))
  else .error (.fault (.tooFewTicks .y labels.length))

theorem ordered_eq (axis : Axis) (values : List α) :
    ordered axis values =
      match disorder? axis.inOrder values with
      | some (a, b) => .error (.fault (.disordered axis a b))
      | none => .ok () := by
  rw [ordered, find_neighbours]

theorem ticks_eq {axis : Axis} {slots : List (Option α)} {closed : Bool} {values : List α}
    {ticks : List (Tick α)} (isTicks : ticksFrom 0 slots = ticks)
    (isClosed : closedEnds slots = closed) (isValues : ticks.map (·.value) = values) :
    (if 2 ≤ values.length then
        if closed then do
          ordered axis values
          return ticks
        else .error (.fault (.openEnds axis))
      else .error (.fault (.tooFewTicks axis values.length)) : Guarded α (List (Tick α))) =
      ofResult ((axis.scale slots).map Scale.toList) := by
  subst isClosed isValues
  rw [Axis.scale, isTicks]
  cases ticks with
  | nil => rfl
  | cons first later =>
    cases later with
    | nil => rfl
    | cons second rest =>
      rw [if_pos (by simp)]
      cases closedEnds slots with
      | false => rfl
      | true =>
        simp only [if_true, ordered_eq]
        cases disorder? axis.inOrder ((first :: second :: rest).map (·.value)) with
        | none => rfl
        | some pair => rfl

theorem across_eq (r : Ruler α) : across r = ofResult (r.scale.map Scale.toList) := by
  have count := markPlaces_length 0 r.marks
  unfold across Ruler.scale
  by_cases paired : r.tickCount = r.values.length
  · have places : markPlaces 0 r.marks = (ticksFrom 0 r.slots).map (·.position) :=
      markPlaces_eq 0 paired
    have values : (ticksFrom 0 r.slots).map (·.value) = r.values := by
      rw [ticksFrom_values]
      exact pairMarks_values paired
    have first := first_place_iff r.slots
    have last := last_place_iff r.slots
    have size : r.slots.length = r.width := pairMarks_length _ _
    have ticks : List.zipWith (fun position value => (⟨value, position⟩ : Tick α))
        (markPlaces 0 r.marks) r.values = ticksFrom 0 r.slots := by
      rw [places, ← values, List.zipWith_map]
      simp
    have same : (markPlaces 0 r.marks).length = r.values.length := count.trans paired
    rw [← places] at first last
    rw [if_pos paired, ← ticks_eq rfl rfl values, if_pos same, same, ticks]
    refine if_congr Iff.rfl ?_ rfl
    rw [size] at last
    by_cases start : (markPlaces 0 r.marks).head? = some 0
    · have shown := first.mpr start
      have some : 1 ≤ r.width := by
        rw [← size]
        cases slots : r.slots with
        | nil => simp [slots] at shown
        | cons slot rest => simp
      rw [if_pos start, minus_of_le some, ok_bind, closedEnds, shown, Bool.true_and]
      simp only [last]
    · have hidden : closedEnds r.slots = false := by
        simp [closedEnds, mt first.mp start]
      rw [if_neg start, hidden]
      rfl
  · have unpaired : (markPlaces 0 r.marks).length ≠ r.values.length := by
      rwa [count]
    rw [if_neg paired, if_neg unpaired, count]
    rfl

theorem down_eq (rows : List (Row α)) :
    down rows = ofResult ((Axis.y.scale (rows.map (·.label?))).map Scale.toList) := by
  have values : (ticksFrom 0 (rows.map (·.label?))).map (·.value) = rows.filterMap (·.label?) := by
    rw [ticksFrom_values, List.filterMap_map]
    rfl
  have ticks : ticksFrom 0 (rows.map (·.label?)) = rows.zipIdx.filterMap fun (row, position) =>
      row.label?.map fun value => ⟨value, position⟩ := by
    rw [ticksFrom_eq_filterMap, List.zipIdx_map, List.filterMap_map]
    rfl
  have closed : closedEnds (rows.map (·.label?)) =
      (rows.head?.any (·.label?.isSome) && rows.getLast?.any (·.label?.isSome)) := by
    have labeled (row? : Option (Row α)) :
        (row?.map (·.label?)).join.isSome = row?.any (·.label?.isSome) := by
      cases row? <;> rfl
    rw [closedEnds, List.head?_map, List.getLast?_map, labeled, labeled]
  rw [ticks] at values
  exact ticks_eq ticks closed values

end Guarded
end CurveSketch
