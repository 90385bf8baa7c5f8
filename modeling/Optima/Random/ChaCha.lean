import Optima.Random.Words

/-!
The stream of words of the ChaCha cipher with twelve rounds. The sixteen words of its state are
four rows of four: a round works on all columns at once, and a diagonal round is a column round
between two shifts of the rows.
-/

namespace Optima

namespace ChaCha

structure Row where
  a : UInt32
  b : UInt32
  c : UInt32
  d : UInt32
  deriving DecidableEq

namespace Row

def zipWith (f : UInt32 → UInt32 → UInt32) (x y : Row) : Row :=
  ⟨f x.a y.a, f x.b y.b, f x.c y.c, f x.d y.d⟩

def add : Row → Row → Row := zipWith (· + ·)

def xor : Row → Row → Row := zipWith (· ^^^ ·)

def rotateLeft (n : UInt32) (x : Row) : Row :=
  let f (w : UInt32) := (w <<< n) ||| (w >>> (32 - n))
  ⟨f x.a, f x.b, f x.c, f x.d⟩

def shift (x : Row) : Row := ⟨x.b, x.c, x.d, x.a⟩

def words (x : Row) : List UInt32 := [x.a, x.b, x.c, x.d]

end Row

structure Block where
  r0 : Row
  r1 : Row
  r2 : Row
  r3 : Row
  deriving DecidableEq

namespace Block

def columnRound (s : Block) : Block :=
  let a := s.r0.add s.r1
  let d := (s.r3.xor a).rotateLeft 16
  let c := s.r2.add d
  let b := (s.r1.xor c).rotateLeft 12
  let a := a.add b
  let d := (d.xor a).rotateLeft 8
  let c := c.add d
  let b := (b.xor c).rotateLeft 7
  ⟨a, b, c, d⟩

def diagonalRound (s : Block) : Block :=
  let t := columnRound ⟨s.r0, s.r1.shift, s.r2.shift.shift, s.r3.shift.shift.shift⟩
  ⟨t.r0, t.r1.shift.shift.shift, t.r2.shift.shift, t.r3.shift⟩

def rounds : Nat → Block → Block
  | 0, s => s
  | n + 1, s => rounds n s.columnRound.diagonalRound

def add (s t : Block) : Block :=
  ⟨s.r0.add t.r0, s.r1.add t.r1, s.r2.add t.r2, s.r3.add t.r3⟩

def words (s : Block) : List UInt32 := s.r0.words ++ s.r1.words ++ s.r2.words ++ s.r3.words

end Block

/-- The block of the stream at a counter: the start block added to itself after six column and
six diagonal rounds. -/
def blockAt (k0 k1 : Row) (counter : UInt64) : Block :=
  let start : Block :=
    ⟨⟨0x61707865, 0x3320646e, 0x79622d32, 0x6b206574⟩, k0, k1,
      ⟨counter.toUInt32, (counter >>> 32).toUInt32, 0, 0⟩⟩
  start.add (start.rounds 6)

def spread (s : UInt64) : UInt64 := s * 6364136223846793005 + 11634580027462260723

def spreadWord (s : UInt64) : UInt32 :=
  let x := (((s >>> 18) ^^^ s) >>> 27).toUInt32
  let n := (s >>> 59).toUInt32
  (x >>> n) ||| (x <<< (32 - n))

end ChaCha

structure ChaCha where
  k0 : ChaCha.Row
  k1 : ChaCha.Row
  counter : UInt64
  pending : List UInt32
  deriving DecidableEq

namespace ChaCha

def ofSeed (seed : UInt64) : ChaCha :=
  let s0 := spread seed
  let s1 := spread s0
  let s2 := spread s1
  let s3 := spread s2
  let s4 := spread s3
  let s5 := spread s4
  let s6 := spread s5
  let s7 := spread s6
  ⟨⟨spreadWord s0, spreadWord s1, spreadWord s2, spreadWord s3⟩,
    ⟨spreadWord s4, spreadWord s5, spreadWord s6, spreadWord s7⟩, 0, []⟩

def next32 (g : ChaCha) : UInt32 × ChaCha :=
  match g.pending with
  | w :: ws => (w, { g with pending := ws })
  | [] =>
    let block := blockAt g.k0 g.k1 g.counter
    (block.r0.a, { g with counter := g.counter + 1, pending := block.words.tail })

def next64 (g : ChaCha) : UInt64 × ChaCha :=
  let (low, g) := g.next32
  let (high, g) := g.next32
  ((high.toUInt64 <<< 32) ||| low.toUInt64, g)

instance : WordSource ChaCha := ⟨next32, next64⟩

end ChaCha

end Optima
