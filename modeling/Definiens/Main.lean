import Definiens.Command

/-!
# The command line

The first argument names the command.  The definition is read from standard input.
-/

open Definiens in
def main (args : List String) : IO UInt32 := do
  match args.head?.bind Command.ofName? with
  | none =>
    (← IO.getStderr).putStrLn "usage: definiens (listing | graph) < definition"
    pure 2
  | some command =>
    let input ← (← IO.getStdin).readBinToEnd
    let printout := command.run input
    (← IO.getStderr).putStr printout.err
    (← IO.getStdout).putStr printout.out
    pure printout.code.toUInt32
