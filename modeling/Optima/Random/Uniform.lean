import Optima.Box
import Optima.Random.Words

/-!
Uniform draws: numbers from the unit interval and from a range, and distinct indices. A draw that
falls outside its range is made again, up to `patience` times.
-/

namespace Optima.Draw

variable {γ : Type} [WordSource γ]

/-- More draws than any run makes. -/
def patience : Nat := UInt64.size

/-- A whole number below `n`, for a positive `n` below `2 ^ 32`: the high word of a random word
times `n`, when the low word lies in the zone in which all are equally likely. -/
def indexBelow (n : Nat) : Draw γ Nat := attempt patience
where
  zone : Nat := (n <<< (31 - n.log2)) - 1
  attempt : Nat → Draw γ Nat
    | 0 => pure 0
    | tries + 1 => do
      let w := (← word32).toNat * n
      if w % UInt32.size ≤ zone then pure (w / UInt32.size) else attempt tries

def place (t j : Nat) : List Nat → List Nat
  | [] => [t]
  | x :: xs => if x = t then j :: x :: xs else x :: place t j xs

/-- For every `j` in turn, draws an index up to `j` and places it among those drawn before. -/
def sampleOver : List Nat → List Nat → Draw γ (List Nat)
  | [], drawn => pure drawn
  | j :: js, drawn => do
    let t ← indexBelow (j + 1)
    sampleOver js (place t j drawn)

def sample (length amount : Nat) : Draw γ (List Nat) :=
  sampleOver ((List.range amount).map (length - amount + ·)) []

variable {α : Type} [Scalar α]

def unit : Draw γ α := do
  pure (Scalar.ofNat ((← word64) >>> 11).toNat / 9007199254740992)

def coarseUnit : Draw γ α := do
  pure (Scalar.ofNat ((← word64) >>> 12).toNat / 4503599627370496)

/-- A number from `lower` up to but not including `upper`; `none` when the width is not finite. -/
def range (lower upper : α) : Draw γ (Option α) :=
  let width := upper - lower
  if Scalar.isFinite width then some <$> attempt width patience else pure none
where
  attempt (width : α) : Nat → Draw γ α
    | 0 => pure lower
    | tries + 1 => do
      let a := (← coarseUnit) * width + lower
      if a < upper then pure a else attempt width tries

/-- A number of an interval. An interval with an infinite end is cut down to a window of ten next
to its finite end, or on both sides of zero. -/
def inInterval (i : Interval α) : Draw γ (Option α) :=
  if Scalar.isFinite i.lower then
    if Scalar.isFinite i.upper then
      if i.lower < i.upper then range i.lower i.upper else pure (some i.lower)
    else (fun u : α => some (i.lower + u * 10)) <$> unit
  else if Scalar.isFinite i.upper then (fun u : α => some (i.upper - u * 10)) <$> unit
  else range (-10) 10

def whileSome {β δ : Type} (d : β → Draw γ (Option δ)) : List β → Draw γ (Option (List δ))
  | [] => pure (some [])
  | b :: bs => do
    match ← d b with
    | none => pure none
    | some c =>
      match ← whileSome d bs with
      | none => pure none
      | some cs => pure (some (c :: cs))

def point (box : Box α) : Draw γ (Option (Vec α)) := whileSome inInterval box

def points (box : Box α) (n : Nat) : Draw γ (Option (List (Vec α))) :=
  whileSome (fun _ => point box) (List.range n)

end Optima.Draw
