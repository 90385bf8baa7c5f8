namespace Optima

class WordSource (γ : Type) where
  next32 : γ → UInt32 × γ
  next64 : γ → UInt64 × γ

abbrev Draw (γ β : Type) := StateM γ β

namespace Draw

variable {γ : Type} [WordSource γ]

def word32 : Draw γ UInt32 := WordSource.next32

def word64 : Draw γ UInt64 := WordSource.next64

def replicate {β : Type} (d : Draw γ β) : Nat → Draw γ (List β)
  | 0 => pure []
  | n + 1 => do
    let b ← d
    let bs ← replicate d n
    pure (b :: bs)

def seeds (n : Nat) : Draw γ (List UInt64) := replicate word64 n

end Draw

end Optima
