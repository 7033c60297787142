import Regexp.Report

/-! Command line: shows how a pattern matches the inputs that follow it, or each line of the standard
input where none follow. Without a pattern it prints the showcase. -/
namespace Regexp

def printLines (lines : List (List Char)) : IO Unit := do
  for line in lines do
    IO.println (String.ofList line)

partial def showInputLines (rx : Regex) (stdin : IO.FS.Stream) : IO Unit := do
  match ← stdin.getLine.toBaseIO with
  | .error e => IO.eprintln ("could not read stdin: " ++ toString e)
  | .ok line =>
    if line.isEmpty then return
    printLines (Report.matchLines rx (Report.lineText line.toList))
    showInputLines rx stdin

def runWith (args : List String) : IO (Except PatternError Unit) := do
  match args with
  | [] =>
    match Report.showcase with
    | .error e => return .error e
    | .ok lines => return .ok (← printLines lines)
  | pattern :: inputs =>
    match Regex.ofText pattern.toList with
    | .error e => return .error e
    | .ok rx =>
      printLines (Report.regexLines rx (inputs.map String.toList))
      if inputs.isEmpty then showInputLines rx (← IO.getStdin)
      return .ok ()

end Regexp

def main (args : List String) : IO UInt32 := do
  match ← Regexp.runWith args with
  | .ok () => return 0
  | .error e =>
    IO.eprintln ("error: " ++ e.message)
    return 1
