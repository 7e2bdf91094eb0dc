/-
Reading a command line from left to right, one option or word at a time. An option has a long name
and perhaps a letter; its value is attached to it or is the next argument, which must not look like
an option itself. Two dashes alone end the options.
-/

namespace LineRing.CommandLine

/-- Why a command line ends the program before it has done anything. -/
inductive Stop where
  /-- The arguments are wrong. -/
  | usage
  /-- Help was asked for. -/
  | help
  /-- The version was asked for. -/
  | version
  deriving DecidableEq, Repr

/-- An option. -/
structure OptionSpec where
  name : String
  letter : Option Char := none
  takesValue : Bool := true
  deriving DecidableEq, Repr

/-- What the next argument, or the next two, are. -/
inductive Token where
  /-- An option, by its long name, with its value. -/
  | option (name value : String)
  /-- An option without a value, by its long name. -/
  | flag (name : String)
  | word (text : String)
  /-- Two dashes alone. -/
  | separator
  deriving DecidableEq, Repr

/-- Whether an argument looks like an option, or like the end of options. -/
def looksLikeOption (arg : String) : Bool :=
  match arg.toList with
  | '-' :: _ :: _ => true
  | _ => false

/-- An option whose value was attached, or is yet to come from the arguments that follow. -/
def withValue (spec : OptionSpec) (attached : Option (List Char)) (rest : List String) :
    Except Stop (Token × List String) :=
  match spec.takesValue, attached, rest with
  | false, none, _ => .ok (.flag spec.name, rest)
  | false, some _, _ => .error .usage
  | true, some value, _ => .ok (.option spec.name (String.ofList value), rest)
  | true, none, value :: rest =>
    if looksLikeOption value then .error .usage else .ok (.option spec.name value, rest)
  | true, none, [] => .error .usage

/-- The text after the first equals sign. -/
def attachedValue (text : List Char) : Option (List Char) :=
  match text.dropWhile (· ≠ '=') with
  | [] => none
  | _ :: value => some value

/-- One argument, with the value that may follow it. -/
def token (specs : List OptionSpec) (arg : String) (rest : List String) :
    Except Stop (Token × List String) :=
  match arg.toList with
  | ['-', '-'] => .ok (.separator, rest)
  | '-' :: '-' :: long =>
    let name := String.ofList (long.takeWhile (· ≠ '='))
    match specs.find? (·.name == name) with
    | none => .error .usage
    | some spec => withValue spec (attachedValue long) rest
  | '-' :: letter :: text =>
    match specs.find? (·.letter == some letter) with
    | none => .error .usage
    | some spec =>
      if spec.takesValue then
        match text with
        | [] => withValue spec none rest
        | '=' :: value => withValue spec (some value) rest
        | value => withValue spec (some value) rest
      else .ok (.flag spec.name, rest)
  | _ => .ok (.word arg, rest)

theorem token_rest_le {specs : List OptionSpec} {arg : String} {rest : List String}
    {found : Token × List String} (h : token specs arg rest = .ok found) :
    found.2.length ≤ rest.length := by
  have hv : ∀ spec attached, withValue spec attached rest = .ok found →
      found.2.length ≤ rest.length := by
    intro spec attached h
    unfold withValue at h
    split at h
    · cases h; exact Nat.le_refl _
    · cases h
    · cases h; exact Nat.le_refl _
    · split at h
      · cases h
      · cases h; exact Nat.le_succ _
    · cases h
  unfold token at h
  split at h
  · cases h; exact Nat.le_refl _
  · dsimp only at h
    split at h
    · cases h
    · exact hv _ _ h
  · split at h
    · cases h
    · split at h
      · split at h
        · exact hv _ _ h
        · exact hv _ _ h
        · exact hv _ _ h
      · cases h; exact Nat.le_refl _
  · cases h; exact Nat.le_refl _

/-- What a program makes of its command line: the options it knows at each point, and what it does
with a token. -/
structure Grammar (σ : Type) where
  specs : σ → List OptionSpec
  take : σ → Token → Except Stop σ

/-- Reads a whole command line. The first fault, or the first option that ends the program, ends
the reading. After two dashes alone, all arguments are words. -/
def Grammar.read {σ : Type} (g : Grammar σ) (s : σ) : List String → Except Stop σ
  | [] => .ok s
  | arg :: rest =>
    match h : token (g.specs s) arg rest with
    | .error stop => .error stop
    | .ok (.separator, rest) =>
      match g.take s .separator with
      | .error stop => .error stop
      | .ok s => rest.foldlM (fun s w => g.take s (.word w)) s
    | .ok (found, rest') =>
      match g.take s found with
      | .error stop => .error stop
      | .ok s =>
        have : rest'.length < rest.length + 1 := Nat.lt_succ_of_le (token_rest_le h)
        g.read s rest'
termination_by args => args.length

end LineRing.CommandLine
