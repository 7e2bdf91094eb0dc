/-
Networks: what a machine can be reached at and what it can reach, by the address asked for.
-/
import LineRing.Endpoint

namespace LineRing

/-- A network: how listening at an address and connecting to one fail, if they do. -/
structure Network where
  listenFault : HostAddress → Option Fault := fun _ => none
  connectFault : HostAddress → Option Fault := fun _ => none

namespace Network

/-! ## Faults -/

def unreachable : Fault := ⟨.networkUnreachable, some "Network is unreachable (os error 101)"⟩

def notAvailable : Fault :=
  ⟨.addrNotAvailable, some "Cannot assign requested address (os error 99)"⟩

def noDevice : Fault := ⟨.other, some "No such device (os error 19)"⟩

def invalid : Fault := ⟨.invalidInput, some "Invalid argument (os error 22)"⟩

/-- The fault of an endpoint at which nobody listens. -/
def refused : Fault := ⟨.connectionRefused, some "Connection refused (os error 111)"⟩

/-! ## A network that is down -/

/-- The fault of an address that holds on one link only, on the machine whose one link leads back to
itself: which link is meant has to be said, and it has to be that one. -/
def linkFault? (host : HostAddress) : Option Fault :=
  match host.link? with
  | some 0 => some invalid
  | some 1 | none => none
  | some _ => some noDevice

/-- The network of a machine none of whose links is up. Addresses of 32 bits can be listened at, and
none can be reached; the machine has no address of 128 bits. -/
def down : Network where
  listenFault host :=
    if host.embedded?.isSome || host.isUnspecified then none
    else if host.isMulticast then some invalid
    else some ((linkFault? host).getD notAvailable)
  connectFault host :=
    if host.embedded?.isSome || host.isMulticast then some unreachable
    else if host.link? = some 0 then some invalid
    else some notAvailable

end Network

end LineRing
