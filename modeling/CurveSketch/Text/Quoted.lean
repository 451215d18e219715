import CurveSketch.Text.GraphemeExtend
import CurveSketch.Text.Unprintable

/- Quoted text: between double quotes, with every character that would end the text or could not
   be seen in it written as an escape. -/
namespace CurveSketch.Text

def escapeLetter? (c : Char) : Option Char :=
  if c = '"' then some '"'
  else if c = '\\' then some '\\'
  else if c = '\n' then some 'n'
  else if c = '\r' then some 'r'
  else if c = '\t' then some 't'
  else if c = '\x00' then some '0'
  else none

/-- The halfwidth sound marks. They extend the grapheme before them, yet each is a letter with a
    cell of its own. -/
def soundMarks : Ranges := [(0xFF9E, 0xFF9F)]

def fillers : Ranges := [(0x115F, 0x1160), (0x3164, 0x3164), (0xFFA0, 0xFFA0)]

def combines (c : Char) : Bool :=
  graphemeExtend.covers c.toNat && !soundMarks.covers c.toNat

def invisible (c : Char) : Bool := unprintable.covers c.toNat || fillers.covers c.toNat

def standsAlone (c : Char) : Bool := !combines c && !invisible c

def codePoint (c : Char) : List Char :=
  ['\\', 'u', '\x7b'] ++ Nat.toDigits 16 c.toNat ++ ['\x7d']

def escape (c : Char) : List Char :=
  match escapeLetter? c with
  | some letter => ['\\', letter]
  | none => if standsAlone c then [c] else codePoint c

def quote (text : List Char) : String :=
  String.ofList ('"' :: (text.flatMap escape ++ ['"']))

end CurveSketch.Text
