import CurveSketch.Proofs.Acceptance

/- The order of the readings. A column has a meaning when one reading at hand understands it, and
   each occurrence in the list counts, so it is the number of readers of a column that decides and
   not the place they have in the list. -/
namespace CurveSketch
variable {α : Type}

def Column.readers (readings : List (Reading α)) (c : Column) : List (Reading α) :=
  readings.filter fun r => (r.read? c).isSome

/-- Nothing about the column stops a conversion. -/
def Column.Settled (readings : List (Reading α)) (c : Column) : Prop :=
  c.isBlank = true ∨ (c.readers readings).length = 1

section
variable {readings : List (Reading α)} {c : Column}

theorem meanings_of_readers (readings : List (Reading α)) (c : Column) :
    readings.filterMap (·.meaning? c) = (c.readers readings).filterMap (·.meaning? c) := by
  induction readings with
  | nil => rfl
  | cons r readings ih =>
    rw [Column.readers, List.filter_cons]
    split
    · rw [List.filterMap_cons, List.filterMap_cons, ih]
      rfl
    · rename_i silent
      have nothing : r.meaning? c = none := by
        rw [Option.not_isSome_iff_eq_none] at silent
        rw [Reading.meaning?, silent, Option.map_none]
      rw [List.filterMap_cons, nothing]
      exact ih

theorem names_of_readers (readings : List (Reading α)) (c : Column) :
    (readings.filterMap (·.meaning? c)).map (·.reading) = (c.readers readings).map (·.id) := by
  induction readings with
  | nil => rfl
  | cons r readings ih =>
    rw [Column.readers, List.filter_cons, List.filterMap_cons]
    cases found : r.read? c with
    | none => simpa [Reading.meaning?, found, Column.readers] using ih
    | some states => simpa [Reading.meaning?, found, Column.readers] using ih

theorem interpret_without_reader (ink : c.isBlank = false) (nobody : c.readers readings = []) :
    c.interpret readings = .error (.unreadable c) := by
  rw [Column.interpret, ink, meanings_of_readers, nobody]
  rfl

theorem interpret_one_reader (ink : c.isBlank = false) {r : Reading α}
    (only : c.readers readings = [r]) :
    ∃ states, r.read? c = some states ∧ c.interpret readings = .ok (some ⟨r.id, states⟩) := by
  have member : r ∈ c.readers readings := by
    rw [only]
    exact List.mem_singleton_self r
  obtain ⟨states, found⟩ := Option.isSome_iff_exists.mp (List.mem_filter.mp member).2
  refine ⟨states, found, ?_⟩
  rw [Column.interpret, ink, meanings_of_readers, only]
  simp [Reading.meaning?, found]

theorem interpret_several_readers (ink : c.isBlank = false)
    (several : 2 ≤ (c.readers readings).length) :
    c.interpret readings = .error (.ambiguous ((c.readers readings).map (·.id)) c) := by
  have names := names_of_readers readings c
  have lengths := congrArg List.length names
  rw [List.length_map, List.length_map] at lengths
  rw [Column.interpret, ink, ← names]
  cases found : readings.filterMap (·.meaning? c) with
  | nil =>
    rw [found, List.length_nil] at lengths
    omega
  | cons m rest =>
    cases rest with
    | nil =>
      rw [found, List.length_singleton] at lengths
      omega
    | cons m' rest => rfl

theorem unsettled_cases (unsettled : ¬ c.Settled readings) :
    c.isBlank = false ∧ (c.readers readings = [] ∨ 2 ≤ (c.readers readings).length) := by
  rw [Column.Settled, not_or, Bool.not_eq_true] at unsettled
  obtain ⟨ink, count⟩ := unsettled
  refine ⟨ink, ?_⟩
  cases found : c.readers readings with
  | nil => exact Or.inl rfl
  | cons r rest =>
    right
    rw [found, List.length_cons] at count
    rw [List.length_cons]
    omega

theorem interpret_unsettled (unsettled : ¬ c.Settled readings) :
    ∃ fault, c.interpret readings = .error fault := by
  obtain ⟨ink, nobody | several⟩ := unsettled_cases unsettled
  · exact ⟨_, interpret_without_reader ink nobody⟩
  · exact ⟨_, interpret_several_readers ink several⟩

theorem interpret_settled (settled : c.Settled readings) :
    ∃ meaning?, c.interpret readings = .ok meaning? := by
  by_cases empty : c.isBlank = true
  · exact ⟨none, interpret_blank empty readings⟩
  · obtain ⟨r, only⟩ := List.length_eq_one_iff.mp (settled.resolve_left empty)
    obtain ⟨states, _, read⟩ := interpret_one_reader (by simpa using empty) only
    exact ⟨_, read⟩

end

section
variable {readings readings' : List (Reading α)} (perm : readings.Perm readings')
include perm

theorem readers_perm (c : Column) : (c.readers readings).Perm (c.readers readings') :=
  perm.filter _

theorem settled_perm (c : Column) : c.Settled readings ↔ c.Settled readings' := by
  rw [Column.Settled, Column.Settled, (readers_perm perm c).length_eq]

theorem interpret_perm {c : Column} (settled : c.Settled readings) :
    c.interpret readings' = c.interpret readings := by
  by_cases empty : c.isBlank = true
  · rw [interpret_blank empty, interpret_blank empty]
  · have ink : c.isBlank = false := by simpa using empty
    obtain ⟨r, only⟩ := List.length_eq_one_iff.mp (settled.resolve_left empty)
    have only' : c.readers readings' = [r] := by
      have same := readers_perm perm c
      rw [only] at same
      exact (List.singleton_perm.mp same).symm
    obtain ⟨states, found, read⟩ := interpret_one_reader ink only
    obtain ⟨states', found', read'⟩ := interpret_one_reader ink only'
    cases found.symm.trans found'
    rw [read, read']

end

variable [Scalar α]

/-- How a conversion by one list of readings and a conversion by another stop: before any column is
    read, or both at the same column, the first that is not settled. -/
inductive StopAlike (s : Sketch α) (options : Options) (readings readings' : List (Reading α)) :
    Fault α → Fault α → Prop where
  | refused {fault : Fault α} (scales : s.scales options = .error fault) :
      StopAlike s options readings readings' fault fault
  | unreadable {before after : List Column} {c : Column} {scales : Scale α × Scale α}
      (accepted : s.scales options = .ok scales) (place : s.columns = before ++ c :: after)
      (earlier : ∀ d ∈ before, d.Settled readings ∧ d.Settled readings')
      (ink : c.isBlank = false) (nobody : c.readers readings = [])
      (nobody' : c.readers readings' = []) :
      StopAlike s options readings readings' (.unreadable c) (.unreadable c)
  | ambiguous {before after : List Column} {c : Column} {scales : Scale α × Scale α}
      (accepted : s.scales options = .ok scales) (place : s.columns = before ++ c :: after)
      (earlier : ∀ d ∈ before, d.Settled readings ∧ d.Settled readings')
      (ink : c.isBlank = false) (several : 2 ≤ (c.readers readings).length)
      (reordered : ((c.readers readings).map (·.id)).Perm ((c.readers readings').map (·.id))) :
      StopAlike s options readings readings' (.ambiguous ((c.readers readings).map (·.id)) c)
        (.ambiguous ((c.readers readings').map (·.id)) c)

section
variable {readings readings' : List (Reading α)} {across down : Scale α} {count : Nat}

theorem ofColumns_settled {columns : List Column} (settled : ∀ c ∈ columns, c.Settled readings)
    (i : Nat) :
    ∃ cs, (Conversion.ofColumns readings across down count i columns).result = .ok cs := by
  induction columns generalizing i with
  | nil => exact ⟨[], rfl⟩
  | cons c rest ih =>
    obtain ⟨here, later⟩ := List.forall_mem_cons.mp settled
    obtain ⟨meaning?, read⟩ := interpret_settled here
    obtain ⟨cs, found⟩ := ih later (i + 1)
    rw [ofColumns_read read, found]
    exact ⟨_, rfl⟩

theorem ofColumns_settled_perm (perm : readings.Perm readings') {columns : List Column}
    (settled : ∀ c ∈ columns, c.Settled readings) (i : Nat) :
    (Conversion.ofColumns readings' across down count i columns).result =
      (Conversion.ofColumns readings across down count i columns).result := by
  induction columns generalizing i with
  | nil => rfl
  | cons c rest ih =>
    obtain ⟨here, later⟩ := List.forall_mem_cons.mp settled
    obtain ⟨meaning?, read⟩ := interpret_settled here
    have read' : c.interpret readings' = .ok meaning? := by rw [interpret_perm perm here, read]
    rw [ofColumns_read read, ofColumns_read read', ih later (i + 1)]

end

namespace Sketch
variable {s : Sketch α} {options : Options} {readings readings' : List (Reading α)}
  {scales : Scale α × Scale α}

theorem convertWith_refused {fault : Fault α} (refused : s.scales options = .error fault) :
    (s.convertWith options readings).result = .error fault := by
  rw [convertWith_result, refused]
  rfl

theorem convertWith_accepted (accepted : s.scales options = .ok scales) :
    (s.convertWith options readings).result =
      (Conversion.ofColumns readings scales.1 scales.2 options.samples 0 s.columns).result := by
  rw [convertWith_result, accepted]
  rfl

theorem converts_perm (perm : readings.Perm readings') {cs : List (Constraint α)}
    (converts : (s.convertWith options readings).result = .ok cs) :
    (s.convertWith options readings').result = .ok cs := by
  cases accepted : s.scales options with
  | error fault =>
    rw [convertWith_refused accepted] at converts
    cases converts
  | ok scales =>
    rw [convertWith_accepted accepted] at converts ⊢
    by_cases settled : ∀ c ∈ s.columns, c.Settled readings
    · rw [ofColumns_settled_perm perm settled, converts]
    · obtain ⟨before, c, after, place, earlier, unsettled⟩ := leftmost_of_not_all settled
      obtain ⟨fault, stops⟩ := interpret_unsettled unsettled
      rw [place, ofColumns_stops (fun d member => interpret_settled (earlier d member)) stops]
        at converts
      cases converts

theorem stops_perm (perm : readings.Perm readings') {fault : Fault α}
    (stops : (s.convertWith options readings).result = .error fault) :
    ∃ fault', (s.convertWith options readings').result = .error fault' ∧
      StopAlike s options readings readings' fault fault' := by
  cases accepted : s.scales options with
  | error refusal =>
    rw [convertWith_refused accepted] at stops
    cases stops
    exact ⟨_, convertWith_refused accepted, .refused accepted⟩
  | ok scales =>
    rw [convertWith_accepted accepted] at stops ⊢
    by_cases settled : ∀ c ∈ s.columns, c.Settled readings
    · obtain ⟨cs, found⟩ := ofColumns_settled settled 0
      rw [found] at stops
      cases stops
    · obtain ⟨before, c, after, place, earlier, unsettled⟩ := leftmost_of_not_all settled
      have both : ∀ d ∈ before, d.Settled readings ∧ d.Settled readings' :=
        fun d member => ⟨earlier d member, (settled_perm perm d).mp (earlier d member)⟩
      have passed : ∀ d ∈ before, ∃ meaning?, d.interpret readings = .ok meaning? :=
        fun d member => interpret_settled (both d member).1
      have passed' : ∀ d ∈ before, ∃ meaning?, d.interpret readings' = .ok meaning? :=
        fun d member => interpret_settled (both d member).2
      have same := readers_perm perm c
      rw [place] at stops ⊢
      obtain ⟨ink, nobody | several⟩ := unsettled_cases unsettled
      · have nobody' : c.readers readings' = [] := by
          rw [nobody] at same
          exact List.nil_perm.mp same
        rw [ofColumns_stops passed (interpret_without_reader ink nobody)] at stops
        cases stops
        exact ⟨_, ofColumns_stops passed' (interpret_without_reader ink nobody') 0,
          .unreadable accepted place both ink nobody nobody'⟩
      · have several' : 2 ≤ (c.readers readings').length := by
          rwa [← same.length_eq]
        rw [ofColumns_stops passed (interpret_several_readers ink several)] at stops
        cases stops
        exact ⟨_, ofColumns_stops passed' (interpret_several_readers ink several') 0,
          .ambiguous accepted place both ink several (same.map _)⟩

end Sketch

/-- Readings may be listed in any order. A sketch that converts by one list converts to the same by
    the other; one that does not stops at the same column for the same reason, and the readings
    that compete for the column are named as they are listed. A column with ink needs exactly
    one reader, each occurrence in the list being one; a blank column needs none and is passed
    over even if it has some. -/
theorem reading_order_immaterial (s : Sketch α) (options : Options)
    (readings readings' : List (Reading α)) (perm : readings.Perm readings') :
    (∀ cs, (s.convertWith options readings).result = .ok cs ↔
        (s.convertWith options readings').result = .ok cs) ∧
      (∀ fault, (s.convertWith options readings).result = .error fault →
        ∃ fault', (s.convertWith options readings').result = .error fault' ∧
          StopAlike s options readings readings' fault fault') ∧
      ∀ c : Column,
        (c.isBlank = true → c.interpret readings = .ok none) ∧
        (c.isBlank = false →
          ((c.readers readings).length = 0 → c.interpret readings = .error (.unreadable c)) ∧
          ((c.readers readings).length = 1 → ∃ r ∈ readings, ∃ states,
            r.read? c = some states ∧ c.interpret readings = .ok (some ⟨r.id, states⟩)) ∧
          (2 ≤ (c.readers readings).length → c.interpret readings =
            .error (.ambiguous ((c.readers readings).map (·.id)) c))) := by
  refine ⟨fun cs => ⟨Sketch.converts_perm perm, Sketch.converts_perm perm.symm⟩,
    fun fault => Sketch.stops_perm perm, fun c => ⟨fun empty => interpret_blank empty readings, ?_⟩⟩
  intro ink
  refine ⟨?_, ?_, interpret_several_readers ink⟩
  · intro nobody
    exact interpret_without_reader ink (List.length_eq_zero_iff.mp nobody)
  · intro one
    obtain ⟨r, only⟩ := List.length_eq_one_iff.mp one
    have member : r ∈ c.readers readings := by
      rw [only]
      exact List.mem_singleton_self r
    exact ⟨r, (List.mem_filter.mp member).1, interpret_one_reader ink only⟩

def answer : Reading Float := ⟨"answer", fun _ => some fun _ => .equals 42⟩

def puzzled : Reading Float := ⟨"puzzled", fun _ => none⟩

def dotted : Sketch Float :=
  ⟨[⟨some 1, "X ".toList⟩, ⟨some 0, "  ".toList⟩], ⟨"||".toList, [0, 1]⟩⟩

theorem dotted_reordered :
    (dotted.convertWith ⟨1⟩ [puzzled, .looseRange, .exactValue]).result =
        .ok [⟨[0], .equals 1⟩] ∧
      (dotted.convertWith ⟨1⟩ [.exactValue, .looseRange, puzzled]).result =
        .ok [⟨[0], .equals 1⟩] ∧
      (∃ fault, (dotted.convertWith ⟨1⟩ [answer, answer, .exactValue]).result = .error fault ∧
        StopAlike dotted ⟨1⟩ [answer, .exactValue, answer] [answer, answer, .exactValue]
          (.ambiguous ["answer", "exact_value", "answer"] ['X', ' ']) fault) ∧
      Column.interpret [answer, .exactValue, answer] [' ', ' '] = .ok none := by
  have converts : (dotted.convertWith ⟨1⟩ [puzzled, .looseRange, .exactValue]).result =
      .ok [⟨[0], .equals 1⟩] := by decide +kernel
  have stops : (dotted.convertWith ⟨1⟩ [answer, .exactValue, answer]).result =
      .error (.ambiguous ["answer", "exact_value", "answer"] ['X', ' ']) := by decide +kernel
  obtain ⟨same, _⟩ := reading_order_immaterial dotted ⟨1⟩ [puzzled, .looseRange, .exactValue]
    [.exactValue, .looseRange, puzzled] (List.reverse_perm _).symm
  obtain ⟨_, alike, columns⟩ := reading_order_immaterial dotted ⟨1⟩ [answer, .exactValue, answer]
    [answer, answer, .exactValue] ((List.Perm.swap _ _ _).cons _)
  exact ⟨converts, (same _).mp converts, alike _ stops, (columns [' ', ' ']).1 rfl⟩

end CurveSketch
