import ArrayCalc.Prompt
/-! The command line. Results go to the standard output, messages to the standard error, and an
error ends the program with status one. -/
namespace ArrayCalc

def usage : String := "usage: eval | parse | tokens SOURCE, or repl"

def report (r : Except Error String) : IO UInt32 :=
  match r with
  | .ok text => do
    IO.print text
    return 0
  | .error e => do
    IO.eprintln ("Error: " ++ e.message)
    return 1

def converse (folding : Bool) : IO UInt32 := do
  IO.print Prompt.banner
  let input ← IO.getStdin
  let mut session : Session := { Session.new with folding := folding }
  repeat
    let line ← input.getLine
    if line.isEmpty then break
    let (next, reply) := Prompt.respond session line
    IO.print reply.out
    IO.eprint reply.err
    match next with
    | some s => session := s
    | none => break
  return 0

def runArguments (args : List String) : IO UInt32 :=
  match Command.ofArguments? args with
  | some (.eval source folding) => report (Command.evalText source folding)
  | some (.parse source folding) => report (Command.parseText source folding)
  | some (.tokens source) => report (Command.tokensText source)
  | some (.prompt folding) => converse folding
  | none => do
    IO.eprintln usage
    return 2

end ArrayCalc

def main (args : List String) : IO UInt32 := ArrayCalc.runArguments args
