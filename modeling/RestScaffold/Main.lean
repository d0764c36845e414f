import RestScaffold.Plugin

/-! # The program

Reads a request from standard input, writes the response to standard output and what there is to
say about the run to standard error. -/

namespace RestScaffold.Program

/-- Reads a stream to its end. -/
partial def readAll (stream : IO.FS.Stream) (before : ByteArray) : IO ByteArray := do
  let chunk ← stream.read 65536
  if chunk.isEmpty then return before else readAll stream (before ++ chunk)

end RestScaffold.Program

open RestScaffold in
def main : IO UInt32 := do
  let input ← Program.readAll (← IO.getStdin) .empty
  let outcome := Plugin.run input.data.toList
  (← IO.getStderr).putStr outcome.diagnostics
  (← IO.getStdout).write ⟨outcome.output.toArray⟩
  return outcome.exitCode
