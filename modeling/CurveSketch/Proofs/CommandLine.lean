import CurveSketch.Demo
import CurveSketch.Proofs.CheckForms
import CurveSketch.Proofs.Separation
import CurveSketch.Proofs.SingleLines

/- The command line of the demonstration, for any words on it. A good word sets the samples or the
   level, so a line of good words comes to what its last count and its last flag ask for. The
   leftmost word that is neither ends it before anything is checked. What is printed about the
   sketches takes no notice of the level. -/
namespace CurveSketch.Demo

def flag? (word : String) : Option Level :=
  if word = "-v" then some .debug else if word = "-vv" then some .trace else none

def count? (word : String) : Option Nat := (Numeral.read word.toList).toOption

def bad? (word : String) : Option BadWord :=
  match flag? word, Numeral.read word.toList with
  | none, .error problem => some ⟨word, problem⟩
  | _, _ => none

def counts (words : List String) : List String := words.filter fun word => (flag? word).isNone

/-- The last word that is no flag, as a count; ten if all are flags. -/
def lastCount (words : List String) : Nat := ((counts words).getLast?.bind count?).getD 10

def lastFlag? (words : List String) : Option Level := (words.filterMap flag?).getLast?

def Settings.set (s : Settings) (word : String) : Settings :=
  ⟨(count? word).getD s.samples, (flag? word).or s.level?⟩

theorem read_cons (s : Settings) (word : String) (rest : List String) :
    s.read (word :: rest) =
      match bad? word with
      | some bad => .error bad
      | none => (s.set word).read rest := by
  by_cases debug : word = "-v"
  · subst debug
    rfl
  · by_cases trace : word = "-vv"
    · subst trace
      rfl
    · have unflagged : flag? word = none := by simp [flag?, debug, trace]
      rw [Settings.read]
      · cases count : Numeral.read word.toList with
        | ok n => simp [bad?, Settings.set, count?, unflagged, count, Except.toOption]
        | error problem => simp [bad?, unflagged, count]
      · exact debug
      · exact trace

theorem read_eq (s : Settings) (words : List String) :
    s.read words =
      match words.findSome? bad? with
      | some bad => .error bad
      | none => .ok (words.foldl Settings.set s) := by
  induction words generalizing s with
  | nil => rfl
  | cons word rest ih =>
    rw [read_cons, List.findSome?_cons]
    cases bad? word with
    | some bad => rfl
    | none => exact ih (s.set word)

theorem last_asked {β : Type} (ask : String → Option β) (word : String) (rest : List String) :
    ((word :: rest).filterMap ask).getLast? = ((rest.filterMap ask).getLast?).or (ask word) := by
  rw [List.filterMap_cons]
  cases ask word with
  | none => simp
  | some answer => cases later : (rest.filterMap ask).getLast? <;> simp [List.getLast?_cons, later]

theorem foldl_set (s : Settings) (words : List String) :
    words.foldl Settings.set s =
      ⟨((words.filterMap count?).getLast?).getD s.samples, (lastFlag? words).or s.level?⟩ := by
  induction words generalizing s with
  | nil => rfl
  | cons word rest ih =>
    rw [List.foldl_cons, ih, lastFlag?, lastFlag?, last_asked, last_asked]
    simp only [Settings.set, Option.getD_or, Option.or_assoc]

theorem flag_no_count {word : String} (flagged : (flag? word).isNone = false) :
    count? word = none := by
  simp only [flag?] at flagged
  split at flagged
  · rename_i debug
    subst debug
    rfl
  · split at flagged
    · rename_i trace
      subst trace
      rfl
    · simp at flagged

theorem count_of_good {word : String} (unflagged : (flag? word).isNone = true)
    (good : bad? word = none) : ∃ n, count? word = some n := by
  rw [Option.isNone_iff_eq_none] at unflagged
  cases count : Numeral.read word.toList with
  | ok n => exact ⟨n, by simp [count?, count, Except.toOption]⟩
  | error problem => simp [bad?, unflagged, count] at good

theorem lastCount_eq {words : List String} (good : words.findSome? bad? = none) :
    ((words.filterMap count?).getLast?).getD 10 = lastCount words := by
  have unflagged : words.filterMap count? = (counts words).filterMap count? := by
    rw [counts, List.filterMap_filter]
    refine List.filterMap_congr fun word _ => ?_
    cases flagged : (flag? word).isNone with
    | true => rfl
    | false => exact flag_no_count flagged
  rw [lastCount, unflagged]
  rcases List.eq_nil_or_concat (counts words) with none | ⟨before, word, split⟩
  · rw [none]
    rfl
  · have member : word ∈ counts words := by simp [split]
    obtain ⟨known, isCount⟩ := List.mem_filter.mp member
    obtain ⟨n, count⟩ := count_of_good isCount (List.findSome?_eq_none_iff.mp good word known)
    simp [split, count]

theorem run_eq (words : List String) :
    run words =
      match words.findSome? bad? with
      | some bad => ⟨1, [], bad.lines⟩
      | none => Settings.report ⟨lastCount words, lastFlag? words⟩ := by
  rw [run, read_eq]
  cases good : words.findSome? bad? with
  | some bad => rfl
  | none =>
    have set : words.foldl Settings.set Settings.initial = ⟨lastCount words, lastFlag? words⟩ := by
      rw [foldl_set, ← lastCount_eq good]
      simp [Settings.initial]
    simp only [set]

def written (lines : List String) : String := String.join (lines.map (· ++ "\n"))

theorem splitLines_written (text : List Char) :
    (splitLines text).flatMap (· ++ ['\n']) = text ++ ['\n'] := by
  induction text with
  | nil => rfl
  | cons c rest ih =>
    rw [splitLines]
    split
    · rename_i isBreak
      rw [List.flatMap_cons, ih, isBreak]
      rfl
    · split
      · rename_i none
        simp [none] at ih
      · rename_i first others lines
        rw [lines] at ih
        simpa using ih

theorem bad_written (bad : BadWord) :
    written bad.lines = "Error: samples per character must be an integer, got '" ++ bad.word ++
      "'\n\nCaused by:\n    " ++ bad.problem.message ++ "\n" := by
  rw [← String.toList_inj]
  have lines := splitLines_written ("Error: samples per character must be an integer, got '".toList
    ++ bad.word.toList ++ ['\''])
  rw [written, BadWord.lines, List.map_append, List.map_map, String.toList_join,
    List.flatMap_append, List.flatMap_map]
  have isBreak : "\n".toList = ['\n'] := rfl
  simp only [Function.comp_apply, String.toList_append, String.toList_ofList, isBreak, lines]
  simp

/-- What is printed about a built-in sketch, and when. -/
inductive Verdict (samples : Nat) (c : Case) : String → Prop where
  | conforms (passes : (c.check samples).halt? = none) : Verdict samples c ("ok    " ++ c.name)
  | fails {halt : Halt Float} {message : String} (halts : (c.check samples).halt? = some halt)
      (told : halt.message? = some message) :
      Verdict samples c ("FAIL  " ++ c.name ++ ": " ++ message)

def saysOk (line : String) : Bool := "ok".toList.isPrefixOf line.toList

def verdicts (samples : Nat) : List String := cases.map fun c => c.line (c.check samples).halt?

theorem cases_accepted {c : Case} (member : c ∈ cases) {samples : Nat} (some : 1 ≤ samples) :
    ∃ cs, (c.sketch.convert ⟨samples⟩).result = .ok cs := by
  have accepted : ∀ c ∈ cases, (c.sketch.convert ⟨1⟩).result.isOk = true := by decide +kernel
  have once := accepted c member
  rcases c.sketch.same_outcome (le_refl 1) some with ⟨_, often⟩ | ⟨fault, refused, _⟩
  · exact often
  · simp [refused, Except.isOk, Except.toBool] at once

theorem check_without_samples (c : Case) :
    (c.check 0).halt? = some (.malformed (.tooFewSamples 0)) := rfl

theorem halt_told {c : Case} (member : c ∈ cases) {samples : Nat} {halt : Halt Float}
    (halts : (c.check samples).halt? = some halt) :
    ∃ message, halt.message? = some message ∧ OneLine message := by
  rcases Nat.eq_zero_or_pos samples with none | some
  · subst none
    rw [check_without_samples, Option.some.injEq] at halts
    subst halts
    exact ⟨_, rfl, by decide⟩
  · obtain ⟨cs, accepted⟩ := cases_accepted member some
    have trial := (trial_of_accepted (Subject.catching fun x s => (.value (c.function x), s)) ()
      accepted).1
    obtain ⟨violation, rfl⟩ := Trial.violated_of_intercepted (Subject.catching_intercepts _)
      (trial.symm.trans halts)
    exact ⟨_, rfl, violation.message_oneLine⟩

theorem line_told {c : Case} (member : c ∈ cases) (samples : Nat) :
    Verdict samples c (c.line (c.check samples).halt?) ∧
      OneLine (c.line (c.check samples).halt?) := by
  have names : ∀ c ∈ cases, OneLine c.name := by decide
  cases halts : (c.check samples).halt? with
  | none =>
    refine ⟨.conforms halts, ?_⟩
    rw [Case.line, oneLine_append]
    exact ⟨by decide, names c member⟩
  | some halt =>
    obtain ⟨message, told, single⟩ := halt_told member halts
    rw [Case.line, told, Option.getD_some]
    refine ⟨.fails halts told, ?_⟩
    simp only [oneLine_append]
    exact ⟨⟨⟨by decide, names c member⟩, by decide⟩, single⟩

theorem line_says_ok (c : Case) (halt? : Option (Halt Float)) :
    saysOk (c.line halt?) = halt?.isNone := by
  cases halt? with
  | none => simp [saysOk, Case.line, List.isPrefixOf]
  | some halt => simp [saysOk, Case.line, List.isPrefixOf]

theorem report_out (s : Settings) : s.report.out = verdicts s.samples ++
    [toString ((verdicts s.samples).countP saysOk) ++ " of 3 plot(s) conform"] := by
  have counted : (cases.map fun c => (c, c.check s.samples)).countP (fun p => p.2.halt?.isNone) =
      (verdicts s.samples).countP saysOk := by
    simp only [verdicts, List.countP_map]
    exact List.countP_congr fun c _ => by simp [line_says_ok]
  rw [Settings.report, counted, List.map_map, String.append_assoc, String.append_assoc]
  rfl

theorem report_out_oneLine (s : Settings) : ∀ line ∈ s.report.out, OneLine line := by
  intro line member
  rw [report_out, List.mem_append, List.mem_singleton] at member
  rcases member with verdict | summary
  · obtain ⟨c, known, rfl⟩ := List.mem_map.mp verdict
    exact (line_told known s.samples).2
  · rw [summary, oneLine_append]
    exact ⟨count_oneLine _, by decide⟩

theorem report_without_samples (level? : Option Level) : (Settings.report ⟨0, level?⟩).out =
    (cases.map fun c =>
      "FAIL  " ++ c.name ++ ": Samples per character must be at least 1 (got 0)!") ++
        ["0 of 3 plot(s) conform"] := by
  have message : (Fault.tooFewSamples 0 : Fault Float).message =
      "Samples per character must be at least 1 (got 0)!" := by decide
  have fails : verdicts 0 = cases.map fun c =>
      "FAIL  " ++ c.name ++ ": Samples per character must be at least 1 (got 0)!" := by
    refine List.map_congr_left fun c _ => ?_
    rw [check_without_samples, Case.line, Halt.message?, message, String.append_assoc]
    rfl
  have noneOk : (verdicts 0).countP saysOk = 0 := by
    rw [verdicts, List.countP_map, List.countP_eq_zero]
    intro c _
    simp [line_says_ok, check_without_samples]
  rw [report_out, noneOk, fails]
  rfl

theorem verdicts_told (samples : Nat) :
    List.Forall₂ (Verdict samples) cases (verdicts samples) := by
  rw [verdicts, List.forall₂_map_right_iff, List.forall₂_same]
  exact fun c member => (line_told member samples).1

theorem flagless_lastFlag {words : List String} (flagless : ∀ word ∈ words, flag? word = none) :
    lastFlag? words = none := by
  rw [lastFlag?, List.filterMap_eq_nil_iff.mpr flagless]
  rfl

/-- A line of words with a bad one is refused for the leftmost bad word, named as it stands, and
    nothing is printed. Any other line is answered by a verdict on each built-in sketch, in order,
    and the number of those that say ok, each on a line of its own. What is printed depends on the
    last count only, and what is logged on the last count and the last flag; without a flag nothing
    is. Without samples every sketch fails for just that. -/
theorem command_line_decided (words : List String) :
    (∀ bad, words.findSome? bad? = some bad →
      (run words).exit = 1 ∧ (run words).out = [] ∧
        written (run words).err =
          "Error: samples per character must be an integer, got '" ++ bad.word ++
            "'\n\nCaused by:\n    " ++ bad.problem.message ++ "\n") ∧
    (words.findSome? bad? = none →
      (run words).exit = 0 ∧
      (∃ verdicts, List.Forall₂ (Verdict (lastCount words)) cases verdicts ∧
        (run words).out =
          verdicts ++ [toString (verdicts.countP saysOk) ++ " of 3 plot(s) conform"] ∧
        (run words).out.length = 4 ∧ ∀ line ∈ (run words).out, OneLine line) ∧
      ((∀ word ∈ words, flag? word = none) → (run words).err = []) ∧
      (lastCount words = 0 → (run words).out = (cases.map fun c =>
        "FAIL  " ++ c.name ++ ": Samples per character must be at least 1 (got 0)!") ++
          ["0 of 3 plot(s) conform"]) ∧
      ∀ words', words'.findSome? bad? = none → lastCount words' = lastCount words →
        (run words').out = (run words).out ∧
        (lastFlag? words' = lastFlag? words → (run words').err = (run words).err)) := by
  constructor
  · intro bad found
    have refused : run words = ⟨1, [], bad.lines⟩ := by rw [run_eq, found]
    rw [refused]
    exact ⟨rfl, rfl, bad_written bad⟩
  · intro good
    have answered (line : List String) (fine : line.findSome? bad? = none) :
        run line = Settings.report ⟨lastCount line, lastFlag? line⟩ := by rw [run_eq, fine]
    rw [answered words good]
    refine ⟨rfl, ⟨verdicts (lastCount words), verdicts_told _, report_out _, ?_, ?_⟩, ?_, ?_, ?_⟩
    · rw [report_out, List.length_append, verdicts, List.length_map]
      rfl
    · exact report_out_oneLine _
    · intro flagless
      rw [flagless_lastFlag flagless]
      rfl
    · intro none
      rw [none, report_without_samples]
    · intro words' good' same
      rw [answered words' good', same]
      refine ⟨?_, fun sameFlag => ?_⟩
      · rw [report_out, report_out]
      · rw [sameFlag]

theorem mixed_words_taken :
    (run ["-v", "7x", "", "3"]).exit = 1 ∧ (run ["-v", "7x", "", "3"]).out = [] ∧
      written (run ["-v", "7x", "", "3"]).err =
        "Error: samples per character must be an integer, got '7x'\n\nCaused by:\n" ++
          "    invalid digit found in string\n" ∧
      (run ["0"]).err = [] ∧ (run ["-vv", "5", "+0", "-v"]).out = (run ["0"]).out ∧
      (run ["0"]).out =
        ["FAIL  y = x + 3: Samples per character must be at least 1 (got 0)!",
          "FAIL  y = sin(x): Samples per character must be at least 1 (got 0)!",
          "FAIL  y = sin(x) against a flat line (expected to fail): " ++
            "Samples per character must be at least 1 (got 0)!",
          "0 of 3 plot(s) conform"] := by
  obtain ⟨exit, out, err⟩ :=
    (command_line_decided ["-v", "7x", "", "3"]).1 ⟨"7x", .badDigit⟩ (by decide)
  obtain ⟨_, _, silent, failing, alike⟩ := (command_line_decided ["0"]).2 (by decide)
  obtain ⟨same, _⟩ := alike ["-vv", "5", "+0", "-v"] (by decide) (by decide)
  refine ⟨exit, out, ?_, silent (by decide), same, ?_⟩
  · rw [err]
    decide
  · rw [failing (by decide)]
    decide

end CurveSketch.Demo
