/-
Seek directives: commands that ask for the log from one byte of one retained command on, written
as a marker and two numbers. A directive is never stored. `Directive.read?` tells a directive from
any other command, and `Directive.encode` writes one.
-/
import LineRing.Log
import LineRing.Text.Blank
import LineRing.Text.Numeral
import LineRing.Text.Parts
import LineRing.Text.Quoted
import LineRing.Text.Utf8

namespace LineRing

/-- A seek directive: the index of a retained command and the offset of a byte within it. -/
structure Directive where
  command : UInt32
  byte : UInt32
  deriving DecidableEq, Repr

/-- The two numbers of a directive. -/
inductive DirectiveField where
  | command
  | byte
  deriving DecidableEq, Repr

/-- What a field is called in messages. -/
def DirectiveField.label : DirectiveField → String
  | command => "command index"
  | byte => "byte offset"

/-- Why a command that begins like a directive is not one. -/
inductive DirectiveFault where
  /-- What follows the marker is no text. -/
  | notText
  /-- The text has no comma. -/
  | noComma (text : List Char)
  /-- A field is no number. -/
  | badField (field : DirectiveField) (text : List Char) (fault : NumeralFault)
  deriving DecidableEq, Repr

/-- The text of the fault. -/
def DirectiveFault.message : DirectiveFault → String
  | notText => "seek directive is not valid UTF-8"
  | noComma text =>
    "seek directive: expected <command>,<offset>, got " ++ String.ofList (quoted text)
  | badField field text fault =>
    "seek directive: invalid " ++ field.label ++ " " ++ String.ofList (quoted text) ++ ": " ++
      fault.message

namespace Directive

/-- The bytes that every directive begins with. -/
def marker : Bytes :=
  Utf8.encode ['A', 'E', 'S', 'D', 'C', 'H', 'A', 'R', '_', 'I', 'O', 'C', 'S', 'E', 'E', 'K', 'T',
    'O', ':']

/-- The place that a directive names. -/
def address (d : Directive) : Address := ⟨d.command.toNat, d.byte.toNat⟩

/-! ## Writing -/

/-- The command that asks for a directive. -/
def encode (d : Directive) : Bytes :=
  marker ++ Utf8.encode (Numeral.digits d.command.toNat) ++ Utf8.encode [','] ++
    Utf8.encode (Numeral.digits d.byte.toNat) ++ [newline]

/-! ## Reading -/

/-- Whether a character ends a line. -/
def isLineEnd (c : Char) : Bool := c == '\r' || c == '\n'

/-- The number in a field; blanks around it do not count. -/
def readField (field : DirectiveField) (text : List Char) : Except DirectiveFault UInt32 :=
  match Numeral.read (UInt32.size - 1) (trim text) with
  | .ok n => .ok (UInt32.ofNat n)
  | .error fault => .error (.badField field text fault)

/-- The directive that a text spells after its marker. Line ends at the end do not count. -/
def ofText (text : List Char) : Except DirectiveFault Directive :=
  let line := dropEndWhile isLineEnd text
  match splitFirst? ',' line with
  | none => .error (.noComma line)
  | some (command, byte) => do
    let command ← readField .command command
    let byte ← readField .byte byte
    return ⟨command, byte⟩

/-- The directive that follows a marker. -/
def ofBody (body : Bytes) : Except DirectiveFault Directive :=
  match Utf8.decode? body with
  | none => .error .notText
  | some text => ofText text

/-- The directive that a command is; none if it does not begin with the marker. -/
def read? (command : Bytes) : Option (Except DirectiveFault Directive) :=
  if marker.isPrefixOf command then some (ofBody (command.drop marker.length)) else none

end Directive

/-- What a command asks for. -/
inductive Request where
  /-- To be sent the log from a place on. -/
  | seek (d : Directive)
  /-- To be kept in the log. -/
  | keep (content : Bytes)
  deriving DecidableEq, Repr

/-- What a command asks for, unless it begins like a directive and is none. -/
def Request.ofCommand (command : Bytes) : Except DirectiveFault Request :=
  match Directive.read? command with
  | some (.ok d) => .ok (.seek d)
  | some (.error fault) => .error fault
  | none => .ok (.keep command)

/-- A bad directive breaks the protocol. -/
def DirectiveFault.failure (fault : DirectiveFault) : Failure := .protocol fault.message

end LineRing
