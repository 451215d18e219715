import CurveSketch.Check
import CurveSketch.Text.Numeral

/- The demonstration: three sketches with the functions they are meant for, checked from a command
   line. Each word on the line is a flag or a count, and the last of each kind wins. -/
namespace CurveSketch.Demo

structure Case where
  name : String
  function : Float → Float
  sketch : Sketch Float

def plain (glyphs : String) : Row Float := ⟨none, glyphs.toList⟩
def labeled (label : Float) (glyphs : String) : Row Float := ⟨some label, glyphs.toList⟩

def line : Sketch Float :=
  ⟨[labeled 4 "  i", plain " ii", labeled 2 "ii "], ⟨"| |".toList, [-1, 1]⟩⟩

def period : Ruler Float := ⟨"|                   |".toList, [0, 6.283185307179586]⟩

def wave : Sketch Float :=
  ⟨[labeled 1 "   iiiii             ",
    plain " iii   iii           ",
    labeled 0 "ii       iii       ii",
    plain "           iii   iii ",
    labeled (-1) "             iiiii   "], period⟩

def flat : Sketch Float :=
  ⟨[labeled 1 "                     ",
    labeled 0 "XXXXXXXXXXXXXXXXXXXXX",
    labeled (-1) "                     "], period⟩

def cases : List Case :=
  [⟨"y = x + 3", fun x => x + 3, line⟩,
   ⟨"y = sin(x)", Float.sin, wave⟩,
   ⟨"y = sin(x) against a flat line (expected to fail)", Float.sin, flat⟩]

structure Settings where
  samples : Nat
  level? : Option Level
  deriving DecidableEq, Repr

def Settings.initial : Settings := ⟨10, none⟩

structure BadWord where
  word : String
  problem : Numeral.Problem
  deriving DecidableEq, Repr

def Settings.read (s : Settings) : List String → Except BadWord Settings
  | [] => .ok s
  | "-v" :: rest => { s with level? := some .debug }.read rest
  | "-vv" :: rest => { s with level? := some .trace }.read rest
  | word :: rest =>
    match Numeral.read word.toList with
    | .ok n => { s with samples := n }.read rest
    | .error problem => .error ⟨word, problem⟩

structure Report where
  exit : Nat
  out : List String
  err : List String
  deriving DecidableEq, Repr

def splitLines : List Char → List (List Char)
  | [] => [[]]
  | c :: rest =>
    if c = '\n' then [] :: splitLines rest
    else
      match splitLines rest with
      | [] => [[c]]
      | first :: others => (c :: first) :: others

def BadWord.lines (b : BadWord) : List String :=
  (splitLines ("Error: samples per character must be an integer, got '".toList
      ++ b.word.toList ++ ['\''])).map String.ofList
    ++ ["", "Caused by:", "    " ++ b.problem.message]

def logLine (level : Level) (origin text : String) : String :=
  "[" ++ level.name ++ " " ++ origin ++ "] " ++ text

def Settings.opening (s : Settings) : List String :=
  match s.level? with
  | none => []
  | some _ =>
    [logLine .info "plot_assert_demo"
      ("checking with " ++ toString s.samples ++ " sample(s) per character")]

def Settings.log (s : Settings) (notes : List (Note Float)) : List String :=
  match s.level? with
  | none => []
  | some limit =>
    (notes.filter (·.shownAt limit)).map fun note => logLine note.level note.origin note.text

def Case.check (c : Case) (samples : Nat) : Trial Unit Float :=
  Subject.check (fun x s => (.value (c.function x), s)) samples c.sketch ()

def Case.line (c : Case) (halt? : Option (Halt Float)) : String :=
  match halt? with
  | none => "ok    " ++ c.name
  | some halt => "FAIL  " ++ c.name ++ ": " ++ halt.message?.getD ""

def Settings.report (s : Settings) : Report :=
  let checks := cases.map fun c => (c, c.check s.samples)
  let passed := checks.countP fun p => p.2.halt?.isNone
  { exit := 0
    out := checks.map (fun p => p.1.line p.2.halt?)
      ++ [toString passed ++ " of " ++ toString cases.length ++ " plot(s) conform"]
    err := s.opening ++ checks.flatMap fun p => s.log p.2.notes }

def run (words : List String) : Report :=
  match Settings.initial.read words with
  | .ok settings => settings.report
  | .error bad => ⟨1, [], bad.lines⟩

end CurveSketch.Demo
