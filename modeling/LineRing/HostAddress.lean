/-
Addresses of machines, of 32 or of 128 bits, and the texts that stand for them. An address of 32
bits is written as one to four numbers with points between them, one of 128 bits as groups of
hexadecimal digits with colons between them, where two colons stand for groups that are zero.
-/
import LineRing.Text.Numeral
import LineRing.Text.Parts

namespace LineRing

/-- The address of a machine. -/
inductive HostAddress where
  | v4 (bits : BitVec 32)
  /-- An address that holds within a scope need only differ from others of that scope. -/
  | v6 (bits : BitVec 128) (scope : Nat)
  deriving DecidableEq, Repr

namespace HostAddress

/-- The address by which a machine reaches itself. -/
def loopback : HostAddress := .v4 0x7f000001

/-! ## 32 bits -/

/-- One number of an address: hexadecimal after 0x, octal after 0, and decimal otherwise. -/
def numberOf? : List Char → Option Nat
  | '0' :: mark :: digits =>
    if mark = 'x' ∨ mark = 'X' then Numeral.ofBase? 16 digits
    else Numeral.ofBase? 8 (mark :: digits)
  | digits => Numeral.ofBase? 10 digits

/-- The address that one to four numbers make up. Each number is a byte, but the last, which fills
all the bytes that the others leave. -/
def ofNumbers? (numbers : List Nat) : Option HostAddress :=
  match numbers.reverse with
  | [] => none
  | last :: lead =>
    let room := 1 <<< (8 * (4 - lead.length))
    if lead.length < 4 ∧ last < room ∧ ∀ n ∈ lead, n < 256 then
      some (.v4 (.ofNat 32 (lead.foldr (fun n high => 256 * high + n) 0 * room + last)))
    else none

/-- The address of 32 bits that a text stands for. -/
def v4? (text : List Char) : Option HostAddress :=
  ((partsAt '.' text).mapM numberOf?).bind ofNumbers?

/-! ## 128 bits -/

/-- One group of an address: up to four hexadecimal digits. -/
def group? (text : List Char) : Option Nat :=
  if text.length ≤ 4 then Numeral.ofBase? 16 text else none

/-- A decimal byte without leading zeros. -/
def byte? (text : List Char) : Option Nat :=
  if text.length ≤ 3 ∧ (text.head? ≠ some '0' ∨ text.length = 1) then
    (Numeral.ofBase? 10 text).filter (· < 256)
  else none

/-- The two groups that four decimal bytes make up. -/
def bytePairs? (text : List Char) : Option (List Nat) :=
  match (partsAt '.' text).mapM byte? with
  | some [a, b, c, d] => some [256 * a + b, 256 * c + d]
  | _ => none

/-- The groups of a text; none in an empty one. -/
def groups? (text : List Char) : Option (List Nat) :=
  if text = [] then some [] else (partsAt ':' text).mapM group?

/-- The groups of the end of an address, the last two of which may be written as decimal bytes. -/
def lastGroups? (text : List Char) : Option (List Nat) :=
  (groups? text).orElse fun _ =>
    match splitLast? ':' text with
    | none => bytePairs? text
    | some (front, back) =>
      if front = [] then none
      else (groups? front).bind fun groups => (bytePairs? back).map (groups ++ ·)

/-- A text parted at two colons in a row. -/
def splitColons? : List Char → Option (List Char × List Char)
  | ':' :: ':' :: rest => some ([], rest)
  | c :: rest => (splitColons? rest).map fun (front, back) => (c :: front, back)
  | [] => none

/-- The eight groups of an address. -/
def allGroups? (text : List Char) : Option (List Nat) :=
  match splitColons? text with
  | none => (lastGroups? text).filter (·.length = 8)
  | some (front, back) =>
    (groups? front).bind fun front => (lastGroups? back).bind fun back =>
      -- two colons stand for one group at least
      if front.length + back.length < 8 then
        some (front ++ List.replicate (8 - front.length - back.length) 0 ++ back)
      else none

/-- The address of 128 bits that groups make up. -/
def ofGroups (groups : List Nat) (scope : Nat) : HostAddress :=
  .v6 (.ofNat 128 (groups.foldl (fun high group => UInt16.size * high + group) 0)) scope

/-- A scope that is written as a number. -/
def scopeNumber? (text : List Char) : Option Nat := (Numeral.ofBase? 10 text).filter (· < UInt32.size)

/-- The number of the link of this name. The one link that each machine has leads back to itself. A
name is less than 16 bytes long, and what follows a colon in it does not count. -/
def linkNumber? (name : List Char) : Option Nat :=
  if (String.ofList name).utf8ByteSize < 16 ∧ name.takeWhile (· ≠ ':') = ['l', 'o'] then some 1
  else none

/-- Whether an address given by its groups holds on one link only, or stands for all that listens on
one link or within one machine. -/
def isLinkScoped (groups : List Nat) : Bool :=
  match groups.head? with
  | none => false
  | some lead =>
    lead >>> 6 == 0x3fa || lead >>> 8 == 0xff && (lead % 16 == 1 || lead % 16 == 2)

/-- The scope of an address given by its groups: a number, or the name of the link where it holds. -/
def scope? (groups : List Nat) (text : List Char) : Option Nat :=
  if isLinkScoped groups then (linkNumber? text).orElse fun _ => scopeNumber? text
  else scopeNumber? text

/-- The address of 128 bits that a text stands for. Its scope, which is read by `scopeOf?`, follows a
percent sign. -/
def v6With? (scopeOf? : List Nat → List Char → Option Nat) (text : List Char) :
    Option HostAddress :=
  match splitFirst? '%' text with
  | none => (allGroups? text).map fun groups => ofGroups groups 0
  | some (text, scope) =>
    (allGroups? text).bind fun groups => (scopeOf? groups scope).map (ofGroups groups)

/-- The address of 128 bits that a text stands for. Its scope may be the name of a link. -/
def v6? : List Char → Option HostAddress := v6With? scope?

/-- The address of 128 bits that a text stands for without the name of a link. -/
def numericV6? : List Char → Option HostAddress := v6With? fun _ => scopeNumber?

/-! ## Kinds -/

/-- The bits of an address from `i` on, `n` of them, the first bit being the highest. -/
def field (bits : BitVec 128) (i n : Nat) : Nat := (bits.extractLsb' (128 - i - n) n).toNat

/-- The bits of an address of 32 bits, which one of 128 bits may hold. -/
def embedded? : HostAddress → Option (BitVec 32)
  | v4 bits => some bits
  | v6 bits _ => if field bits 0 96 = 0xffff then some (.ofNat 32 (field bits 96 32)) else none

/-- Whether an address of 128 bits stands for many machines. -/
def isMulticast : HostAddress → Bool
  | v4 _ => false
  | v6 bits _ => field bits 0 8 == 0xff

/-- The link that an address holds on, if it holds on one link only; zero where none is said. -/
def link? : HostAddress → Option Nat
  | v4 _ => none
  | v6 bits scope => if field bits 0 10 = 0x3fa then some scope else none

/-- Whether an address of 128 bits is that of no machine in particular. -/
def isUnspecified : HostAddress → Bool
  | v4 _ => false
  | v6 bits _ => bits == 0

end HostAddress

end LineRing
