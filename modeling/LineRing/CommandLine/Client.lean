/-
The command line of the client: one request to a server, and the reply on standard output.
-/
import LineRing.CommandLine.Options
import LineRing.Directive

namespace LineRing.CommandLine

/-- What a program leaves behind: its exit code and its two outputs. -/
structure Exit where
  code : Nat
  out : Bytes := []
  err : String := ""
  deriving DecidableEq, Repr

namespace Client

/-- What the client asks of a server. -/
inductive Command where
  /-- To keep a line with this text. -/
  | send (text : String)
  /-- To send the log from a place on. -/
  | seek (d : Directive)
  deriving DecidableEq, Repr

/-- The bytes that ask for it. -/
def Command.request : Command → Bytes
  | .send text => Bytes.ofText text ++ [newline]
  | .seek d => d.encode

/-- A command line that can be followed. -/
structure Invocation where
  server : String := "127.0.0.1:9000"
  command : Command
  deriving DecidableEq, Repr

/-! ## Reading the arguments -/

/-- How far the arguments have been read. -/
inductive Progress where
  /-- No command yet. -/
  | options (server : Option String)
  /-- The command that sends a text. -/
  | send (server : Option String) (text : Option String)
  /-- The command that seeks. -/
  | seek (server : Option String) (numbers : List UInt32)
  /-- Help on a command. -/
  | help (topics : List String)

/-- A number on the command line; a minus sign may stand before zero. -/
def spellNumber : List Char → Except NumeralFault Nat
  | ['-'] => .error .invalidDigit
  | '-' :: digits => Numeral.readDigits 0 0 digits
  | text => Numeral.read (UInt32.size - 1) text

/-- The number that an argument is. -/
def readNumber (text : String) : Except Stop UInt32 :=
  match spellNumber text.toList with
  | .ok n => .ok (UInt32.ofNat n)
  | .error _ => .error .usage

/-- The commands. -/
def commandNames : List String := ["send", "seek", "help"]

def helpOption : OptionSpec := { name := "help", letter := some 'h', takesValue := false }

def serverOption : OptionSpec := { name := "server", letter := some 's' }

/-- A word of the command line. -/
def Progress.word : Progress → String → Except Stop Progress
  | .options server, "send" => .ok (.send server none)
  | .options server, "seek" => .ok (.seek server [])
  | .options _, "help" => .ok (.help [])
  | .options _, _ => .error .usage
  | .send server none, text => .ok (.send server (some text))
  | .send _ (some _), _ => .error .usage
  | .seek server numbers, text =>
    if numbers.length < 2 then do
      let number ← readNumber text
      return .seek server (numbers ++ [number])
    else .error .usage
  | .help topics, topic =>
    if topics.isEmpty ∧ topic ∈ commandNames then .ok (.help [topic]) else .error .usage

/-- The options of the client. -/
def grammar : Grammar Progress where
  specs
    | .options _ => [helpOption, serverOption]
    | .help _ => []
    | _ => [helpOption]
  take
    | .options none, .option "server" value => .ok (.options (some value))
    | _, .option .. => .error .usage
    | _, .flag _ => .error .help
    | .options _, .separator | .help _, .separator => .error .usage
    | p, .separator => .ok p
    | p, .word w => p.word w

/-- What the arguments ask for. -/
def parse (args : List String) : Except Stop Invocation :=
  let invocation (server : Option String) (command : Command) : Invocation :=
    match server with
    | none => { command := command }
    | some server => { server := server, command := command }
  match grammar.read (.options none) args with
  | .error stop => .error stop
  | .ok (.send server (some text)) => .ok (invocation server (.send text))
  | .ok (.seek server [command, byte]) => .ok (invocation server (.seek ⟨command, byte⟩))
  | .ok (.help _) => .error .help
  | .ok _ => .error .usage

/-! ## Running -/

def help : String :=
  "CLI for the seeklog command log\n\nUsage: seeklog-cli [OPTIONS] <COMMAND>\n\nCommands:\n" ++
  "  send  Append a command and print the retained log\n" ++
  "  seek  Print the log starting inside a retained command\n" ++
  "  help  Print this message or the help of the given subcommand(s)\n\nOptions:\n" ++
  "  -s, --server <SERVER>  Server address [default: 127.0.0.1:9000]\n" ++
  "  -h, --help             Print help\n"

/-- The end of the client once its request has been answered, or could not be. -/
def exitWith : Except Fault Bytes → Exit
  | .ok reply => { code := 0, out := reply }
  | .error fault => { code := 1, err := "seeklog-cli: " ++ (Failure.stream fault).message ++ "\n" }

/-- The end of the client where the arguments could not be followed. -/
def exitAt : Stop → Exit
  | .usage => { code := 2 }
  | .help | .version => { code := 0, out := Bytes.ofText help }

end Client

end LineRing.CommandLine
