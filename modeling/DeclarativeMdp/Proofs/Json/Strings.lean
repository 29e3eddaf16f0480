import DeclarativeMdp.Json.Decode
import DeclarativeMdp.Json.Writer
import DeclarativeMdp.Proofs.Snapshot.Readers
import DeclarativeMdp.Proofs.Text.Bytes
import Mathlib.Tactic.SplitIfs

set_option autoImplicit false

namespace DeclarativeMdp.Json

def Plain (b : UInt8) : Prop := 0x20 ≤ b ∧ b ≠ 0x22 ∧ b ≠ 0x5C

theorem readString_plain {b : UInt8} (plain : Plain b) (read bs : List UInt8) :
    readString read (b :: bs) = readString (b :: read) bs := by
  obtain ⟨printable, quote, backslash⟩ := plain
  have taken : ¬ (b < 0x20 ∨ b = 0x5C) := by
    rintro (control | same)
    · exact absurd printable (UInt8.not_le.2 control)
    · exact backslash same
  rw [readString, if_neg taken]
  · exact quote
  · exact fun _ _ _ _ _ same _ => backslash same
  · exact fun _ _ same _ => backslash same

theorem unescape_plain {b : UInt8} (plain : Plain b) (read bs : List UInt8) :
    unescape read (b :: bs) = unescape (b :: read) bs := by
  obtain ⟨-, -, backslash⟩ := plain
  rw [unescape]
  · exact fun _ _ _ _ _ same _ => backslash same
  · exact fun _ _ same _ => backslash same

structure UnescapesTo (piece bytes : List UInt8) : Prop where
  read : ∀ read bs, readString read (piece ++ bs) = readString (piece.reverse ++ read) bs
  means : ∀ read bs, unescape read (piece ++ bs) = unescape (bytes.reverse ++ read) bs

theorem UnescapesTo.nil : UnescapesTo [] [] := ⟨fun _ _ => rfl, fun _ _ => rfl⟩

theorem UnescapesTo.append {front back bytes bytes' : List UInt8} (first : UnescapesTo front bytes)
    (second : UnescapesTo back bytes') : UnescapesTo (front ++ back) (bytes ++ bytes') where
  read read bs := by
    rw [List.append_assoc, first.read, second.read, List.reverse_append, List.append_assoc]
  means read bs := by
    rw [List.append_assoc, first.means, second.means, List.reverse_append, List.append_assoc]

theorem UnescapesTo.plain {bytes : List UInt8} (plain : ∀ b ∈ bytes, Plain b) :
    UnescapesTo bytes bytes := by
  induction bytes with
  | nil => exact .nil
  | cons b bs ih =>
    obtain ⟨first, rest⟩ := List.forall_mem_cons.1 plain
    have one : UnescapesTo [b] [b] :=
      ⟨fun read bs => readString_plain first read bs, fun read bs => unescape_plain first read bs⟩
    exact one.append (ih rest)

theorem unescapesTo_letter {b : UInt8} (letter : isEscape b = true) :
    UnescapesTo [0x5C, b] [escapedByte b] := by
  have other : b ≠ 0x75 := by
    rintro rfl
    exact absurd letter (by decide)
  constructor
  · intro read bs
    change readString read (0x5C :: b :: bs) = readString (b :: 0x5C :: read) bs
    rw [readString, if_pos letter]
    exact fun _ _ _ _ _ same _ => other same
  · intro read bs
    change unescape read (0x5C :: b :: bs) = unescape (escapedByte b :: read) bs
    rw [unescape]
    exact fun _ _ _ _ _ same _ => other same

theorem unescapesTo_hex {a b c d : UInt8} (digits : ∀ x ∈ [a, b, c, d], isHexDigit x = true)
    (single : hexValues [a, b, c, d] < 0xD800) :
    UnescapesTo [0x5C, 0x75, a, b, c, d] (charBytes (hexValues [a, b, c, d])) := by
  simp only [List.forall_mem_cons] at digits
  obtain ⟨first, second, third, fourth, -⟩ := digits
  constructor
  · intro read bs
    change readString read (0x5C :: 0x75 :: a :: b :: c :: d :: bs) = _
    rw [readString, first, second, third, fourth]
    rfl
  · intro read bs
    change unescape read (0x5C :: 0x75 :: a :: b :: c :: d :: bs) = _
    rw [unescape.eq_def]
    split
    next none => cases none
    next same =>
      cases same
      rw [if_neg (by omega), if_neg (by omega)]
    next other same =>
      cases same
      exact (other a b c d bs rfl rfl).elim
    next other _ same =>
      cases same
      exact (other a b c d bs rfl rfl).elim

theorem utf8EncodeChar_cases (c : Char) :
    (c.toNat < 0x80 ∧ String.utf8EncodeChar c = [UInt8.ofNat c.toNat]) ∨
      ∀ b ∈ String.utf8EncodeChar c, 0x80 ≤ b := by
  have high {n : Nat} (above : 0x80 ≤ n) (below : n < 0x100) : 0x80 ≤ UInt8.ofNat n := by
    rw [UInt8.le_iff_toNat_le, UInt8.toNat_ofNat_of_lt' below]
    exact above
  unfold String.utf8EncodeChar
  dsimp only
  split
  next ascii => exact .inl ⟨Nat.lt_succ_of_le ascii, rfl⟩
  next =>
    right
    split
    next =>
      simp only [List.forall_mem_cons]
      exact ⟨high (by omega) (by omega), high (by omega) (by omega), nofun⟩
    next =>
      split
      next =>
        simp only [List.forall_mem_cons]
        exact ⟨high (by omega) (by omega), high (by omega) (by omega),
          high (by omega) (by omega), nofun⟩
      next =>
        simp only [List.forall_mem_cons]
        exact ⟨high (by omega) (by omega), high (by omega) (by omega),
          high (by omega) (by omega), high (by omega) (by omega), nofun⟩

theorem plain_of_high {b : UInt8} (high : 0x80 ≤ b) : Plain b := by
  rw [UInt8.le_iff_toNat_le] at high
  refine ⟨?_, ?_, ?_⟩
  · rw [UInt8.le_iff_toNat_le]
    exact Nat.le_trans (by decide) high
  · rintro rfl
    exact absurd high (by decide)
  · rintro rfl
    exact absurd high (by decide)

theorem charBytes_eq (value : Nat) :
    charBytes value = String.utf8EncodeChar (Char.ofNat value) := by
  rw [charBytes, Text.toBytes_eq, String.toList_singleton, List.flatMap_cons, List.flatMap_nil,
    List.append_nil]

theorem unescapesTo_control {n : Nat} (control : n < 0x20) :
    UnescapesTo (['\\', 'u', '0', '0', hexDigit (n / 16), hexDigit n].flatMap String.utf8EncodeChar)
      (String.utf8EncodeChar (Char.ofNat n)) := by
  have written : ∀ n < 0x20, let byte (n : Nat) := UInt8.ofNat (hexDigit n).toNat
      ['\\', 'u', '0', '0', hexDigit (n / 16), hexDigit n].flatMap String.utf8EncodeChar =
          [0x5C, 0x75, 0x30, 0x30, byte (n / 16), byte n] ∧
        (∀ x ∈ [0x30, 0x30, byte (n / 16), byte n], isHexDigit x = true) ∧
        hexValues [0x30, 0x30, byte (n / 16), byte n] = n := by decide +kernel
  obtain ⟨same, digits, value⟩ := written n control
  have unescapesTo := unescapesTo_hex digits (by rw [value]; omega)
  rw [value, charBytes_eq] at unescapesTo
  rw [same]
  exact unescapesTo

theorem unescapesTo_writeChar (c : Char) :
    UnescapesTo ((writeChar c).flatMap String.utf8EncodeChar) (String.utf8EncodeChar c) := by
  have numbered {n : Nat} (same : c.toNat = n) : c = Char.ofNat n := by
    rw [← same, Char.ofNat_toNat]
  unfold writeChar
  split_ifs with quote backslash backspace feed newline ret tab control
  · subst quote
    exact unescapesTo_letter (by decide)
  · subst backslash
    exact unescapesTo_letter (by decide)
  · rw [numbered backspace]
    exact unescapesTo_letter (by decide)
  · rw [numbered feed]
    exact unescapesTo_letter (by decide)
  · subst newline
    exact unescapesTo_letter (by decide)
  · subst ret
    exact unescapesTo_letter (by decide)
  · subst tab
    exact unescapesTo_letter (by decide)
  · have unescapesTo := unescapesTo_control control
    rwa [Char.ofNat_toNat] at unescapesTo
  · rw [List.flatMap_cons, List.flatMap_nil, List.append_nil]
    refine .plain fun b present => ?_
    rcases utf8EncodeChar_cases c with ⟨ascii, one⟩ | high
    · rw [one, List.mem_singleton] at present
      subst present
      have value : (UInt8.ofNat c.toNat).toNat = c.toNat :=
        UInt8.toNat_ofNat_of_lt' (Nat.lt_trans ascii (by decide))
      refine ⟨?_, fun same => ?_, fun same => ?_⟩
      · rw [UInt8.le_iff_toNat_le, value]
        exact Nat.le_of_not_lt control
      · exact quote (numbered (value.symm.trans (congrArg UInt8.toNat same)))
      · exact backslash (numbered (value.symm.trans (congrArg UInt8.toNat same)))
    · exact plain_of_high (high b present)

def content (text : String) : List UInt8 :=
  (text.toList.flatMap writeChar).flatMap String.utf8EncodeChar

theorem toBytes_writeString (text : String) :
    Text.toBytes (writeString text) = 0x22 :: (content text ++ [0x22]) := by
  rw [writeString, Text.toBytes_ofList, List.flatMap_append, List.flatMap_cons]
  rfl

theorem unescapesTo_content (text : String) : UnescapesTo (content text) (Text.toBytes text) := by
  rw [content, Text.toBytes_eq]
  induction text.toList with
  | nil => exact .nil
  | cons c cs ih =>
    rw [List.flatMap_cons, List.flatMap_cons, List.flatMap_append]
    exact (unescapesTo_writeChar c).append ih

theorem readString_content (text : String) (rest : List UInt8) :
    readString [] (content text ++ 0x22 :: rest) = some (content text, rest) := by
  rw [(unescapesTo_content text).read, List.append_nil, readString, List.reverse_reverse]

theorem text?_content (text : String) : text? (content text) = some text := by
  have means := (unescapesTo_content text).means [] []
  rw [List.append_nil, List.append_nil, unescape, List.reverse_reverse] at means
  rw [text?, means]
  exact Text.ofBytes?_eq_some_iff.2 rfl

end DeclarativeMdp.Json
