namespace Optima.Decimal

def digitsBefore : Nat → Nat → List Nat → List Nat
  | 0, _, acc => acc
  | fuel + 1, n, acc => if n = 0 then acc else digitsBefore fuel (n / 10) (n % 10 :: acc)

def digits (n : Nat) : List Nat := digitsBefore (n.log2 + 1) n []

def ofDigits (ds : List Nat) : Nat := ds.foldl (fun n d => 10 * n + d) 0

def digitChar (d : Nat) : Char := Char.ofNat (48 + d)

def text (ds : List Nat) : String := String.ofList (ds.map digitChar)

def natText (n : Nat) : String := if n = 0 then "0" else text (digits n)

def intText : Int → String
  | .ofNat n => natText n
  | .negSucc n => "-" ++ natText (n + 1)

def digit? (c : Char) : Option Nat :=
  if '0' ≤ c && c ≤ '9' then some (c.toNat - 48) else none

@[simp] theorem ofDigits_nil : ofDigits [] = 0 := rfl

theorem ofDigits_concat (ds : List Nat) (d : Nat) :
    ofDigits (ds ++ [d]) = 10 * ofDigits ds + d := by simp [ofDigits]

theorem digitsBefore_eq (fuel n : Nat) (acc : List Nat) :
    digitsBefore fuel n acc = digitsBefore fuel n [] ++ acc := by
  induction fuel generalizing n acc with
  | zero => rfl
  | succ fuel ih =>
    simp only [digitsBefore]
    split
    · rfl
    · rw [ih, ih _ [n % 10]]; simp

theorem ofDigits_digitsBefore {fuel n : Nat} (h : n < Nat.pow 2 fuel) :
    ofDigits (digitsBefore fuel n []) = n := by
  induction fuel generalizing n with
  | zero => simp [digitsBefore, Nat.lt_one_iff.mp h]
  | succ fuel ih =>
    have tenth : n / 10 < Nat.pow 2 fuel := by
      have h : n < Nat.pow 2 fuel * 2 := h
      omega
    simp only [digitsBefore]
    split
    · next hn => simp [hn]
    · rw [digitsBefore_eq, ofDigits_concat, ih tenth]
      omega

@[simp] theorem ofDigits_digits (n : Nat) : ofDigits (digits n) = n :=
  ofDigits_digitsBefore Nat.lt_log2_self

end Optima.Decimal
