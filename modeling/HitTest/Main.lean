import HitTest.Run.Settings

/-!
# The command line (`main`)

Runs all suites with the default settings and prints what a user wants to know of the log, without
times and colors. The exit code is zero if everything passed.
-/

namespace HitTest

/-- Prints the entries of a log that are shown to users. -/
def printLog (log : Array Entry) : IO Unit := do
  for e in log do
    if e.level.isShown then IO.println e.line

end HitTest

open HitTest in
/-- Runs the default plan (`main`). -/
def main : IO UInt32 := do
  match ({} : Settings).plan.run Draw.period with
  | .error b =>
    IO.eprintln b.message
    return 101
  | .ok outcome =>
    printLog outcome.log
    match outcome.result with
    | .ok _ =>
      IO.println "INFO Successfully passed all tests!"
      return 0
    | .error failure =>
      IO.println s!"ERROR {failure.message}. Abort!"
      return 1
