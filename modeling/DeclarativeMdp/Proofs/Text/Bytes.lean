import DeclarativeMdp.Text.Utf8
import Mathlib.Order.Basic
import Mathlib.Tactic.SplitIfs

set_option autoImplicit false

namespace DeclarativeMdp.Text

theorem toBytes_ofList (cs : List Char) :
    toBytes (String.ofList cs) = cs.flatMap String.utf8EncodeChar := by
  unfold toBytes String.toUTF8
  rw [String.toByteArray_ofList]
  simp [List.utf8Encode]

theorem toBytes_append (front back : String) :
    toBytes (front ++ back) = toBytes front ++ toBytes back := by
  simp [toBytes]

theorem toBytes_eq (text : String) :
    toBytes text = text.toList.flatMap String.utf8EncodeChar := by
  rw [← toBytes_ofList, String.ofList_toList]

theorem toBytes_injective {a b : String} (same : toBytes a = toBytes b) : a = b :=
  String.toByteArray_inj.1 (ByteArray.ext (Array.toList_inj.1 same))

-- One case for each number of bytes that either has. Divisions by 64 are all that is left of them.
theorem utf8EncodeChar_append_lt {c d : Char} (below : c < d) (front back : List UInt8) :
    String.utf8EncodeChar c ++ front < String.utf8EncodeChar d ++ back := by
  have less : c.val.toNat < d.val.toNat := below
  have top : d.val.toNat < 0x110000 := by
    have valid := d.valid
    unfold UInt32.isValidChar Nat.isValidChar at valid
    omega
  have second (n : Nat) : n / 4096 = n / 64 / 64 := by omega
  have third (n : Nat) : n / 262144 = n / 64 / 64 / 64 := by omega
  unfold String.utf8EncodeChar
  simp only [second, third]
  generalize c.val.toNat = m at *
  generalize d.val.toNat = n at *
  split_ifs <;>
    simp only [List.cons_append, List.nil_append, List.cons_lt_cons_iff, UInt8.lt_iff_toNat_lt,
      ← UInt8.toNat_inj, UInt8.toNat_ofNat'] <;> omega

theorem flatMap_utf8EncodeChar_lt {cs ds : List Char} (below : cs < ds) :
    cs.flatMap String.utf8EncodeChar < ds.flatMap String.utf8EncodeChar := by
  induction below with
  | nil =>
    rw [List.flatMap_nil, List.flatMap_cons]
    obtain ⟨b, bs, filled⟩ := List.exists_cons_of_ne_nil String.utf8EncodeChar_ne_nil
    rw [filled]
    exact .nil
  | cons _ ih =>
    rw [List.flatMap_cons, List.flatMap_cons]
    exact List.append_left_lt ih
  | rel first =>
    rw [List.flatMap_cons, List.flatMap_cons]
    exact utf8EncodeChar_append_lt first _ _

theorem toBytes_lt_of_compare {a b : String} (below : compare a b = .lt) :
    toBytes a < toBytes b := by
  have less : a < b := compareOfLessAndEq_eq_lt.1 below
  rw [toBytes_eq, toBytes_eq]
  exact flatMap_utf8EncodeChar_lt (String.lt_iff.1 less)

end DeclarativeMdp.Text
