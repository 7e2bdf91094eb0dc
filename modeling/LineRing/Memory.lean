/-
The sizes that memory allows: a size is a word of 64 bits, and one allocation holds fewer than
half as many bytes as a word can count.
-/

namespace LineRing

/-- The number of values of a word. -/
def wordRange : Nat := UInt64.size

/-- The most bytes that one allocation can hold. -/
def allocationLimit : Nat := UInt64.size / 2 - 1

end LineRing
