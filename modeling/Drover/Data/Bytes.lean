import Mathlib.Data.List.Basic

/-!
# Byte strings

Go strings and JavaScript `Uint8Array` values are both sequences of bytes with
no validity requirement.  They are modelled by lists of `UInt8`; the empty list
is the empty string.
-/

namespace Drover

/-- A Go `string` or a JavaScript `Uint8Array`. -/
abbrev Bytes := List UInt8

instance : LawfulBEq Bytes := inferInstance

/-- The bytes of an ASCII literal of the source. -/
def ascii (literal : String) : Bytes :=
  literal.toList.map fun char => UInt8.ofNat char.toNat

/-- The bytes of any literal of the source. -/
def utf8 (literal : String) : Bytes := literal.toUTF8.toList

end Drover
