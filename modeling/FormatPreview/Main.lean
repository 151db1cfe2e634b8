import FormatPreview.Invocation.Description

/-!
The command line. The files and the formatter stay outside: one line of JSON on standard input
describes them, and the report and the log go to standard output and standard error.
-/

def main (words : List String) : IO UInt32 := do
  let description ← (← IO.getStdin).getLine
  let json := FormatPreview.Json.ofBytes? (FormatPreview.Text.encode description)
  let ended := (FormatPreview.Invocation.described words (json.getD .null)).start
  (← IO.getStdout).putStr ended.output
  (← IO.getStderr).putStr ended.errors
  return UInt32.ofNat ended.exitCode
