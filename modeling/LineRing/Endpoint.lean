/-
Endpoints: a host and a port, written with a colon between them. A host is an address in one of its
written forms, or a name. The one name that is known without asking others is that of the machine
itself.
-/
import LineRing.Failure
import LineRing.HostAddress

namespace LineRing

/-- A port of a machine. -/
structure Endpoint where
  host : HostAddress
  port : Nat
  deriving DecidableEq, Repr

namespace Endpoint

/-! ## Hosts -/

/-- What a backslash stands for, given the text after it, and the text that follows: the character
of a number of three digits, or the next character as it is. -/
def escaped? : List Char → Option (Char × List Char)
  | [] => none
  | c :: rest =>
    if c.isDigit then
      match rest with
      | d :: e :: rest => (Numeral.ofBase? 10 [c, d, e]).map fun code => (Char.ofNat code, rest)
      | _ => none
    else some (c, rest)

theorem escaped?_rest_lt {text rest : List Char} {c : Char} (h : escaped? text = some (c, rest)) :
    rest.length < text.length := by
  unfold escaped? at h
  split at h
  · cases h
  · split at h
    · split at h
      · obtain ⟨_, _, h⟩ := Option.map_eq_some_iff.1 h
        cases h
        simp only [List.length_cons]
        omega
      · cases h
    · cases h
      exact Nat.lt_succ_self _

/-- A label in front of others, with one more character at its front. -/
def extendFirst (c : Char) : List (List Char) → List (List Char)
  | [] => [[c]]
  | label :: labels => (c :: label) :: labels

/-- The labels of a name, which have points between them. A backslash takes the meaning from the
point after it. -/
def labels? (text : List Char) : Option (List (List Char)) :=
  match text with
  | [] => some [[]]
  | c :: rest =>
    if c = '.' then (labels? rest).map ([] :: ·)
    else if c = '\\' then
      match _ : escaped? rest with
      | none => none
      | some (c, rest) => (labels? rest).map (extendFirst c)
    else (labels? rest).map (extendFirst c)
  termination_by text.length
  decreasing_by
    · simp
    · have := escaped?_rest_lt ‹_›
      simp only [List.length_cons]
      omega
    · simp

/-- Whether a text can be a label in the name of a host. -/
def isLabel (text : List Char) : Bool :=
  text ≠ [] && text.length ≤ 63 && text.all fun c => c.isAlphanum || c == '-' || c == '_'

/-- Whether labels make up the name of a host. -/
def areName (labels : List (List Char)) : Bool :=
  labels ≠ [] && labels.all isLabel && labels.head?.bind List.head? ≠ some '-' &&
    -- each label takes one byte more than its text
    labels.flatten.length + labels.length ≤ 254

/-- Whether a text can be the name of a host. A point may end the name, and alone it names the root
of all names. -/
def isName (text : List Char) : Bool :=
  match labels? text with
  | none => false
  | some labels =>
    labels = [[], []] || areName (if labels.getLast? = some [] then labels.dropLast else labels)

/-- Whether a text is the name that a machine has for itself. -/
def isOwnName (text : List Char) : Bool :=
  String.ofList (text.map Char.toLower) == "localhost"

/-- The fault of a host that is not found, for this reason. -/
def lookupFault (reason : String) : Fault :=
  ⟨.other, some ("failed to lookup address information: " ++ reason)⟩

/-- The address of a host. There is nobody to ask for other names. -/
def lookup (host : List Char) : Except Fault HostAddress :=
  match (HostAddress.v4? host).orElse fun _ => HostAddress.v6? host with
  | some address => .ok address
  | none =>
    if isOwnName host then .ok .loopback
    else if isName host then .error (lookupFault "Temporary failure in name resolution")
    else .error (lookupFault "Name or service not known")

/-! ## Texts -/

/-- The endpoint that a text with an address of 128 bits in brackets names. -/
def ofBracketed? : List Char → Option Endpoint
  | '[' :: text =>
    match splitFirst? ']' text with
    | some (host, ':' :: port) =>
      (HostAddress.numericV6? host).bind fun host =>
        ((Numeral.ofBase? 10 port).filter (· < UInt16.size)).map fun port => ⟨host, port⟩
    | _ => none
  | _ => none

/-- The endpoint that a text names. What follows its last colon is the port. -/
def resolve (text : String) : Except Fault Endpoint :=
  match ofBracketed? text.toList with
  | some e => .ok e
  | none =>
    match splitLast? ':' text.toList with
    | none => .error ⟨.invalidInput, some "invalid socket address"⟩
    | some (host, port) =>
      match Numeral.read (UInt16.size - 1) port with
      | .error _ => .error ⟨.invalidInput, some "invalid port value"⟩
      | .ok port => (lookup host).map fun host => ⟨host, port⟩

end Endpoint

end LineRing
