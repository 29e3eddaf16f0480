import DeclarativeMdp.Error
import DeclarativeMdp.Random.ChaCha

set_option autoImplicit false

namespace DeclarativeMdp

-- There are sixteen words to a block, and blocks have numbers of 64 bits.
def streamPeriod : Nat := Nat.pow 2 68

structure KeyStream where
  key : ChaCha.Key
  position : Fin streamPeriod
  deriving DecidableEq, Repr

namespace KeyStream

def start (key : ChaCha.Key) : KeyStream := ⟨key, ⟨0, by decide⟩⟩

def next (stream : KeyStream) : UInt32 :=
  (ChaCha.block stream.key (UInt64.ofNat (stream.position / 16))).get
    ⟨stream.position % 16, Nat.mod_lt _ (by decide)⟩

def seek (stream : KeyStream) (position : Nat) : KeyStream :=
  ⟨stream.key, ⟨position % streamPeriod, Nat.mod_lt _ (by decide)⟩⟩

end KeyStream

structure Generator where
  stream : KeyStream
  seed : UInt64
  deriving DecidableEq, Repr

namespace Generator

def spread (state : UInt64) : UInt64 := state * 6364136223846793005 + 11634580027462260723

def rotateRight (word : UInt32) (places : UInt32) : UInt32 :=
  (word >>> places) ||| (word <<< ((32 - places) % 32))

def keyWord (state : UInt64) : UInt32 :=
  rotateRight (((state >>> 18) ^^^ state) >>> 27).toUInt32 (state >>> 59).toUInt32

def key (seed : UInt64) : ChaCha.Key :=
  Vector.ofFn fun i : Fin 8 => keyWord (Nat.repeat spread (i + 1) seed)

def ofSeed (seed : UInt64) : Generator := ⟨.start (key seed), seed⟩

-- The distance between the seeds of two successive episodes. It is odd.
def episodeStride : UInt64 := 0x9E3779B97F4A7C15

def forEpisode (g : Generator) (episode : UInt64) : Generator :=
  .ofSeed (g.seed + episode * episodeStride)

def word (g : Generator) : Nat × Generator :=
  (g.stream.next.toNat, ⟨g.stream.seek (g.stream.position + 1), g.seed⟩)

def doubleWord (g : Generator) : Nat × Generator :=
  let (low, g) := g.word
  let (high, g) := g.word
  (low + UInt32.size * high, g)

/-- Scales a draw of so many bits down to a number below `n`. Refuses the draws that would favour
some of these numbers. -/
def scale (bits n draw : Nat) : Option Nat :=
  let zone := n * Nat.pow 2 (bits - 1 - n.log2) - 1
  if draw * n % Nat.pow 2 bits ≤ zone then some (draw * n / Nat.pow 2 bits) else none

def drawScaled (bits : Nat) (draw : Generator → Nat × Generator) (n : Nat) :
    (attempts : Nat) → Generator → Option (Nat × Generator)
  | 0, _ => none
  | attempts + 1, g =>
    let (value, g) := draw g
    match scale bits n value with
    | some index => some (index, g)
    | none => drawScaled bits draw n attempts g

def index (n : Nat) (g : Generator) : Option (Nat × Generator) :=
  if n < UInt32.size then drawScaled 32 word n streamPeriod g
  else drawScaled 64 doubleWord n streamPeriod g

def choose {α : Type} (items : List α) (g : Generator) : Option α × Generator :=
  if items.isEmpty then (none, g)
  else
    match g.index items.length with
    | some (i, g) => (items[i]?, g)
    | none => (none, g)

def range (low high : UInt64) (g : Generator) : Except Error (UInt64 × Generator) :=
  if low < high then
    match drawScaled 64 doubleWord (high - low).toNat streamPeriod g with
    | some (offset, g) => .ok (low + UInt64.ofNat offset, g)
    | none => .error .undefinedAnswer
  else .error .undefinedAnswer

def bool (probability : Float) (g : Generator) : Except Error (Bool × Generator) :=
  if 0.0 ≤ probability ∧ probability < 1.0 then
    let (value, g) := g.doubleWord
    .ok (value < (probability * 18446744073709551616.0).toUInt64.toNat, g)
  else if probability == 1.0 then .ok (true, g)
  else .error .undefinedAnswer

end Generator

end DeclarativeMdp
