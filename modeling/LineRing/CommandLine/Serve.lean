/-
The command line of the server: its options give a configuration.
-/
import LineRing.CommandLine.Options
import LineRing.Config
import LineRing.Network
import LineRing.Store

namespace LineRing.CommandLine.Serve

/-- The version of the program. -/
def version : String := "0.1.0"

/-- What the program says of its version. -/
def versionLine : String := "seeklog-server " ++ version

/-- What the program says of itself in its help. -/
def about : String := "Ring-buffered command log served over TCP"

/-- The configuration so far, and the options that have been given. -/
structure Progress where
  config : Config := {}
  given : List String := []

def specs : List OptionSpec :=
  [{ name := "listen", letter := some 'l' }, { name := "capacity", letter := some 'c' },
    { name := "max-connections", letter := some 'm' }, { name := "lock-timeout-ms" },
    { name := "read-timeout-ms" }, { name := "timestamp-interval", letter := some 't' },
    { name := "help", letter := some 'h', takesValue := false },
    { name := "version", letter := some 'V', takesValue := false }]

/-- A number of the command line. -/
def readNumber (text : String) : Except Stop Nat :=
  match Numeral.read (UInt64.size - 1) text.toList with
  | .ok n => .ok n
  | .error _ => .error .usage

/-- A configuration with the value of one option put in. -/
def assign (c : Config) (name value : String) : Except Stop Config := do
  match name with
  | "listen" => return { c with listen := value }
  | "capacity" => return { c with capacity := ← readNumber value }
  | "max-connections" => return { c with maxSessions := ← readNumber value }
  | "lock-timeout-ms" => return { c with lockWait := ← readNumber value }
  | "read-timeout-ms" => return { c with readWait := ← readNumber value }
  | "timestamp-interval" => return { c with stampEvery := ← readNumber value }
  | _ => .error .usage

/-- The options of the server, each of which may be given once. -/
def grammar : Grammar Progress where
  specs _ := specs
  take
    | p, .option name value =>
      if name ∈ p.given then .error .usage
      else do return { config := ← assign p.config name value, given := name :: p.given }
    | _, .flag "version" => .error .version
    | _, .flag _ => .error .help
    | p, .separator => .ok p
    | _, .word _ => .error .usage

/-- The configuration that the arguments ask for. -/
def parse (args : List String) : Except Stop Config :=
  (grammar.read {} args).map (·.config)

/-- How the program begins: it serves, or it ends at once with this exit code. -/
inductive Start where
  | serving (c : Config) (store : Store) (e : Endpoint)
  | ended (code : Nat) (out : Option String)

/-- How the program begins with these arguments, on a network. It ends with code 2 where they are
wrong, with code 1 where no log can be made or no connections taken, and with code 101 where it
breaks off. -/
def start (network : Network) (args : List String) : Start :=
  match parse args with
  | .error .usage => .ended 2 none
  | .error .help => .ended 0 (some about)
  | .error .version => .ended 0 (some versionLine)
  | .ok c =>
    match Store.ofConfig c with
    | .error (.failed _) => .ended 1 none
    | .error .brokenOff => .ended 101 none
    | .ok store =>
      match Endpoint.resolve c.listen with
      | .error _ => .ended 1 none
      | .ok e => if (network.listenFault e.host).isSome then .ended 1 none else .serving c store e

end LineRing.CommandLine.Serve
