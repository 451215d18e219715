import CurveSketch.Demo

/- The command line. -/

def main (words : List String) : IO UInt32 := do
  let report := CurveSketch.Demo.run words
  let out ← IO.getStdout
  let err ← IO.getStderr
  report.err.forM err.putStrLn
  report.out.forM out.putStrLn
  return UInt32.ofNat report.exit
