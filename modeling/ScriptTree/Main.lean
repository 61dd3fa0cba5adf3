import ScriptTree.CommandLine

/-!
The program that is run from a shell.
-/

open ScriptTree

def printLines (stream : IO.FS.Stream) (lines : List Text) : IO Unit :=
  for line in lines do stream.putStrLn (line.toString?.getD "")

def main (args : List String) : IO UInt32 := do
  let arguments := args.map Text.ofString
  let bytes ← match CommandLine.file? arguments with
    | some file => IO.FS.readBinFile (file.toString?.getD "")
    | none => pure ByteArray.empty
  let before ← IO.monoMsNow
  let isTerminal ← (← IO.getStdin).isTty
  match CommandLine.run arguments isTerminal fun _ => .ok bytes with
  | .error _ =>
    (← IO.getStderr).putStrLn "The program cannot be processed."
    return 1
  | .ok outcome =>
    printLines (← if outcome.status == 2 then IO.getStderr else IO.getStdout) outcome.lines
    if let .printed _ := outcome then
      let after ← IO.monoMsNow
      IO.println s!"\nParsed everyting in {after - before} milliseconds."
    return outcome.status.toUInt32
