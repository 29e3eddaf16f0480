set_option autoImplicit false

namespace DeclarativeMdp.ChaCha

abbrev Block := Vector UInt32 16

def rotateLeft (word : UInt32) (places : UInt32) : UInt32 :=
  (word <<< places) ||| (word >>> (32 - places))

def quarterRound (s : Block) (a b c d : Fin 16) : Block :=
  let s := s.set a (s[a] + s[b])
  let s := s.set d (rotateLeft (s[d] ^^^ s[a]) 16)
  let s := s.set c (s[c] + s[d])
  let s := s.set b (rotateLeft (s[b] ^^^ s[c]) 12)
  let s := s.set a (s[a] + s[b])
  let s := s.set d (rotateLeft (s[d] ^^^ s[a]) 8)
  let s := s.set c (s[c] + s[d])
  s.set b (rotateLeft (s[b] ^^^ s[c]) 7)

def doubleRound (s : Block) : Block :=
  let s := quarterRound s 0 4 8 12
  let s := quarterRound s 1 5 9 13
  let s := quarterRound s 2 6 10 14
  let s := quarterRound s 3 7 11 15
  let s := quarterRound s 0 5 10 15
  let s := quarterRound s 1 6 11 12
  let s := quarterRound s 2 7 8 13
  quarterRound s 3 4 9 14

def rounds : Nat := 8

abbrev Key := Vector UInt32 8

-- The text "expand 32-byte k".
def constants : Vector UInt32 4 := #v[0x61707865, 0x3320646E, 0x79622D32, 0x6B206574]

def place (count : UInt64) : Vector UInt32 4 :=
  #v[count.toUInt32, (count >>> 32).toUInt32, 0, 0]

def initial (key : Key) (count : UInt64) : Block := constants ++ key ++ place count

def block (key : Key) (count : UInt64) : Block :=
  let start := initial key count
  Vector.zipWith (· + ·) (Nat.repeat doubleRound (rounds / 2) start) start

end DeclarativeMdp.ChaCha
