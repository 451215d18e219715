import CurveSketch.Proofs.RedundantTicks

/- Which segment a position is read from. The search along the ticks only asks which segment is the
   first to end right of the position. Where the ticks ascend this is the one segment around it;
   before the first tick it is the first segment, and from the last tick on the last one. Further
   ticks behind the last one have no say in what is read before it. -/
namespace CurveSketch
variable {α : Type}

/-- The segment joins the ticks at places `k` and `k + 1` of a list. -/
structure Segment.Joins (g : Segment α) (ticks : List (Tick α)) (k : Nat) : Prop where
  start : ticks[k]? = some g.start
  stop : ticks[k + 1]? = some g.stop

theorem Segment.Joins.neighbours {g : Segment α} {ticks : List (Tick α)} {k : Nat}
    (joins : g.Joins ticks k) : [g.start, g.stop] <:+: ticks := by
  obtain ⟨inside, start⟩ := List.getElem?_eq_some_iff.mp joins.start
  obtain ⟨inside', stop⟩ := List.getElem?_eq_some_iff.mp joins.stop
  have split := List.take_append_drop k ticks
  rw [List.drop_eq_getElem_cons inside, List.drop_eq_getElem_cons inside', start, stop] at split
  exact ⟨ticks.take k, ticks.drop (k + 1 + 1), by simpa using split⟩

theorem place_unique {ticks : List (Tick α)}
    (ascending : ticks.IsChain fun t u => t.position < u.position) {t : Tick α} {j k : Nat}
    (left : ticks[j]? = some t) (right : ticks[k]? = some t) : j = k := by
  have nodup : ticks.Nodup := by
    refine (List.isChain_iff_pairwise.mp ascending).imp ?_
    rintro t u before rfl
    exact Nat.lt_irrefl _ before
  have inside := (List.getElem?_eq_some_iff.mp left).1
  exact (List.getElem?_inj inside nodup).mp (left.trans right.symm)

namespace Scale
variable {s : Scale α}

theorem segment_joins (s : Scale α) (i : Nat) :
    ∃ k ≤ s.toList.length - 2, (s.segment i).Joins s.toList k := by
  obtain ⟨before, after, split⟩ := bracket_adjacent s.first s.second s.rest i
  change s.toList = before ++ (s.segment i).start :: (s.segment i).stop :: after at split
  refine ⟨before.length, ?_, ?_, ?_⟩
  · rw [split, List.length_append, List.length_cons, List.length_cons]
    omega
  · simp [split]
  · simp [split]

theorem last_place (s : Scale α) : s.toList[s.toList.length - 2 + 1]? = some s.last := by
  have last := s.last_mem
  rw [List.getLast?_eq_getElem?] at last
  exact last

theorem segment_before (ascending : s.toList.IsChain fun t u => t.position < u.position) {i : Nat}
    (before : i < s.first.position) : s.segment i = ⟨s.first, s.second⟩ := by
  have next : s.first.position < s.second.position := (List.isChain_cons_cons.mp ascending).1
  rw [segment]
  cases s.rest with
  | nil => rfl
  | cons c rest => rw [bracket, if_pos (before.trans next)]

theorem bracket_concat (a b : Tick α) (rest : List (Tick α)) (further : Tick α) {i : Nat}
    (before : i < (rest.getLastD b).position) :
    bracket a b (rest ++ [further]) i = bracket a b rest i := by
  induction rest generalizing a b with
  | nil => exact if_pos before
  | cons c rest ih =>
    rw [List.getLastD_cons] at before
    rw [List.cons_append, bracket, bracket, ih b c before]

theorem ofTicks_eq_iff [Scalar α] {ticks : List (Tick α)} (two : 2 ≤ ticks.length) (s : Scale α) :
    ofTicks ticks = s ↔ ticks = s.toList := by
  constructor
  · rintro rfl
    exact (toList_ofTicks two).symm
  · rintro rfl
    rfl

end Scale

variable [Scalar α]

/-- A position is read from the one segment around it if there is one, from the first segment before
    the first tick, and from the last segment from the last tick on. A cell is measured by a
    distance of one position at least, and a tick behind the last one changes nothing before it. -/
theorem segment_chosen (ticks : List (Tick α)) (two : 2 ≤ ticks.length)
    (ascending : ticks.IsChain fun t u => t.position < u.position) (i : Nat) :
    ∃ g k, (Scale.ofTicks ticks).segment i = g ∧ k ≤ ticks.length - 2 ∧ g.Joins ticks k ∧
      (∀ (h : Segment α) (j : Nat), h.Joins ticks j → h.start.position ≤ i →
        i < h.stop.position → j = k) ∧
      (∀ first ∈ ticks.head?, ∀ last ∈ ticks.getLast?,
        (i < first.position → k = 0) ∧ (last.position ≤ i → k = ticks.length - 2) ∧
        (first.position ≤ i → i < last.position → g.start.position ≤ i ∧ i < g.stop.position) ∧
        (i < last.position → ∀ further,
          (Scale.ofTicks (ticks ++ [further])).segment i = g)) ∧
      ∃ distance, 1 ≤ distance ∧ g.start.position + distance = g.stop.position ∧
        g.step = (g.stop.value - g.start.value) / (distance : α) ∧
        (Scale.ofTicks ticks).cell i = .around (g.value i) g.step := by
  obtain ⟨s, scale⟩ : ∃ s, Scale.ofTicks ticks = s := ⟨_, rfl⟩
  cases (Scale.ofTicks_eq_iff two s).mp scale
  obtain ⟨k, inside, joins⟩ := s.segment_joins i
  have apart : (s.segment i).start.position < (s.segment i).stop.position :=
    Scale.segment_of_chain ascending i
  refine ⟨s.segment i, k, by rw [scale], inside, joins, ?_, ?_, ?_⟩
  · intro h j joins' left right
    have same := Scale.segment_between ascending joins'.neighbours left right
    rw [same] at joins
    exact place_unique ascending joins'.start joins.start
  · intro first isFirst last isLast
    cases Option.some.inj isFirst
    cases Option.some.inj (s.last_mem.symm.trans isLast)
    refine ⟨fun before => ?_, fun behind => ?_, Scale.segment_around, fun before further => ?_⟩
    · rw [Scale.segment_before ascending before] at joins
      exact place_unique ascending joins.start rfl
    · have stop := joins.stop
      rw [Scale.segment_behind ascending behind] at stop
      have same := place_unique ascending stop s.last_place
      omega
    · exact Scale.bracket_concat s.first s.second s.rest further before
  · exact ⟨(s.segment i).stop.position - (s.segment i).start.position, by omega, by omega, rfl,
      by rw [scale]; rfl⟩

theorem kinked_segment_chosen :
    (Scale.ofTicks [⟨20, 0⟩, ⟨0, 2⟩, ⟨-4, 6⟩] : Scale ℚ).segment 2 = ⟨⟨0, 2⟩, ⟨-4, 6⟩⟩ ∧
      (Scale.ofTicks [⟨20, 0⟩, ⟨0, 2⟩, ⟨-4, 6⟩, ⟨-5, 7⟩] : Scale ℚ).segment 2 =
        ⟨⟨0, 2⟩, ⟨-4, 6⟩⟩ := by
  obtain ⟨g, k, chosen, _, joins, unique, ends, _⟩ :=
    segment_chosen ([⟨20, 0⟩, ⟨0, 2⟩, ⟨-4, 6⟩] : List (Tick ℚ)) (by decide) (by simp) 2
  have place : 1 = k := unique ⟨⟨0, 2⟩, ⟨-4, 6⟩⟩ 1 ⟨rfl, rfl⟩ (by decide) (by decide)
  cases place
  obtain ⟨_, _, _, added⟩ := ends ⟨20, 0⟩ rfl ⟨-4, 6⟩ rfl
  have more := added (by decide) ⟨-5, 7⟩
  obtain ⟨start, stop⟩ := g
  cases Option.some.inj joins.start
  cases Option.some.inj joins.stop
  exact ⟨chosen, more⟩

end CurveSketch
