set_option autoImplicit false

namespace DeclarativeMdp.Text

structure Unfinished where
  value : Nat
  missing : Nat
  low : Nat
  high : Nat
  deriving Repr

def replacement : Char := Char.ofNat 0xFFFD

-- What the first byte of a character gives: characters that are complete, and one that is not. The
-- range of the second byte keeps out overlong forms, surrogates and values above 0x10FFFF.
def start (b : Nat) : List Char × Option Unfinished :=
  if b < 0x80 then ([Char.ofNat b], none)
  else if b < 0xC2 then ([replacement], none)
  else if b < 0xE0 then ([], some ⟨b - 0xC0, 1, 0x80, 0xBF⟩)
  else if b = 0xE0 then ([], some ⟨0, 2, 0xA0, 0xBF⟩)
  else if b = 0xED then ([], some ⟨0xD, 2, 0x80, 0x9F⟩)
  else if b < 0xF0 then ([], some ⟨b - 0xE0, 2, 0x80, 0xBF⟩)
  else if b = 0xF0 then ([], some ⟨0, 3, 0x90, 0xBF⟩)
  else if b < 0xF4 then ([], some ⟨b - 0xF0, 3, 0x80, 0xBF⟩)
  else if b = 0xF4 then ([], some ⟨4, 3, 0x80, 0x8F⟩)
  else ([replacement], none)

def feed : Option Unfinished → Nat → List Char × Option Unfinished
  | none, b => start b
  | some u, b =>
    if u.low ≤ b ∧ b ≤ u.high then
      let value := u.value * 64 + (b - 0x80)
      if u.missing = 1 then ([Char.ofNat value], none)
      else ([], some ⟨value, u.missing - 1, 0x80, 0xBF⟩)
    else
      -- The byte that breaks a character off may itself start one.
      ((replacement :: (start b).1), (start b).2)

def decodeLossy : Option Unfinished → List UInt8 → List Char
  | none, [] => []
  | some _, [] => [replacement]
  | u, b :: bs => (feed u b.toNat).1 ++ decodeLossy (feed u b.toNat).2 bs

def ofBytesLossy (bytes : List UInt8) : String :=
  String.ofList (decodeLossy none bytes)

def ofBytes? (bytes : List UInt8) : Option String :=
  String.fromUTF8? ⟨bytes.toArray⟩

def toBytes (text : String) : List UInt8 :=
  text.toUTF8.data.toList

end DeclarativeMdp.Text
