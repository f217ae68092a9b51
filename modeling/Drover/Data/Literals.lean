import Drover.Data.Bytes

/-!
# Literals

The bytes of a literal from its characters.  A literal is its list of characters
by definition, so a property of its bytes can be decided on that list.
-/

namespace Drover

theorem toList_loop (b : ByteArray) (i : Nat) (r : List UInt8) :
    ByteArray.toList.loop b i r = r.reverse ++ b.data.toList.drop i := by
  fun_induction ByteArray.toList.loop b i r with
  | case1 i r inside ih =>
      have bound : i < b.data.toList.length := by
        rw [Array.length_toList]
        exact inside
      have byte : b.get! i = b.data.toList[i] := by
        rw [Array.getElem_toList]
        exact getElem!_pos b.data i inside
      rw [ih, List.drop_eq_getElem_cons bound, List.reverse_cons, List.append_assoc, byte]
      rfl
  | case2 i r outside =>
      rw [List.drop_of_length_le (Array.length_toList ▸ Nat.not_lt.mp outside), List.append_nil]

/-- The UTF-8 bytes of a list of characters. -/
theorem utf8_ofList (l : List Char) :
    utf8 (String.ofList l) = l.flatMap String.utf8EncodeChar := by
  have encoded : (String.ofList l).toUTF8 = (l.flatMap String.utf8EncodeChar).toByteArray := rfl
  rw [utf8, encoded, ByteArray.toList, toList_loop, List.toList_data_toByteArray]
  rfl

/-- What holds of the bytes of the characters holds of the literal. -/
theorem of_utf8 {p : Bytes → Prop} {l : List Char} (holds : p (l.flatMap String.utf8EncodeChar)) :
    p (utf8 (String.ofList l)) := by
  rwa [utf8_ofList]

end Drover
