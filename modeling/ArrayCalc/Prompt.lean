import ArrayCalc.Command
/-! The prompt: a session that answers line by line. A line that starts with a colon is a command
to the prompt itself. -/
namespace ArrayCalc

structure Reply where
  out : String
  err : String
  deriving DecidableEq, Repr

namespace Reply

def none : Reply := ⟨"", ""⟩

instance : Append Reply where
  append a b := ⟨a.out ++ b.out, a.err ++ b.err⟩

end Reply

namespace Prompt

def banner : String := "vexpr 0.1.0\nType :help for help, :quit to exit.\n\n"

def help : String := String.join (List.map (· ++ "\n") [
  "Commands:",
  "  :help, :h, :?   Show this help",
  "  :quit, :q       Exit",
  "  :vars           List variables",
  "  :reset          Remove all variables",
  "  :optimize       Toggle constant folding",
  "  :clear          Clear the screen",
  "",
  "Examples:",
  "  x = linspace(0, 1, 11)",
  "  y = sin(2 * pi * x) + 0.1 * x",
  "  LowPass(y, 2, 10)",
  "  x > 0.5 ? x : 0",
  "  ans[0]"])

def variableList (s : Session) : String :=
  String.join (s.store.entries.map fun (n, v) => "  " ++ n ++ " = " ++ v.render ++ "\n")

def command (s : Session) (name : String) : Option Session × Reply :=
  match name with
  | ":quit" | ":q" | ":exit" => (none, .none)
  | ":help" | ":h" | ":?" => (some s, ⟨help, ""⟩)
  | ":vars" => (some s, ⟨variableList s, ""⟩)
  | ":reset" => (some s.reset, .none)
  | ":optimize" =>
    let on := !s.folding
    (some { s with folding := on }, ⟨"constant folding " ++ (if on then "on" else "off") ++ "\n", ""⟩)
  | ":clear" => (some s, ⟨"\x1b[2J\x1b[1;1H", ""⟩)
  | _ => (some s, ⟨"Unknown command: " ++ name ++ "\nType :help for help.\n", ""⟩)

def respond (s : Session) (input : String) : Option Session × Reply :=
  let input := Text.trim input
  match input.toList with
  | [] => (some s, .none)
  | ':' :: _ => command s input
  | _ =>
    match s.evaluate input with
    | (.ok v, s) => (some s, ⟨Command.line v.render, ""⟩)
    | (.error e, s) => (some s, ⟨"", "Error: " ++ e.message ++ "\n"⟩)

def converse : Session → List String → Reply
  | _, [] => .none
  | s, l :: ls =>
    match respond s l with
    | (some s, r) => r ++ converse s ls
    | (none, r) => r

end Prompt
end ArrayCalc
