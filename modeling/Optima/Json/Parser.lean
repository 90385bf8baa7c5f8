import Optima.Json.Text

namespace Optima.Json

open Decimal (digit?)

def isBlank (c : Char) : Bool := c == ' ' || c == '\t' || c == '\n' || c == '\r'

def skipBlanks (cs : List Char) : List Char := cs.dropWhile isBlank

def takeDigits : List Char → List Nat × List Char
  | [] => ([], [])
  | c :: cs =>
    match digit? c with
    | some d =>
      let (ds, rest) := takeDigits cs
      (d :: ds, rest)
    | none => ([], c :: cs)

def takeDigits? (cs : List Char) : Option (List Nat × List Char) :=
  match takeDigits cs with
  | ([], _) => none
  | (ds, rest) => some (ds, rest)

def takeWhole? (cs : List Char) : Option (List Nat × List Char) := do
  let (ds, rest) ← takeDigits? cs
  if ds.head? == some 0 && 1 < ds.length then none else some (ds, rest)

def takeFraction? : List Char → Option (List Nat × List Char)
  | '.' :: cs => takeDigits? cs
  | cs => some ([], cs)

def takeExponent? : List Char → Option (Option Int × List Char)
  | c :: cs =>
    if c == 'e' || c == 'E' then
      let (sign, cs) : Int × List Char :=
        match cs with
        | '+' :: cs => (1, cs)
        | '-' :: cs => (-1, cs)
        | cs => (1, cs)
      (takeDigits? cs).map fun (ds, rest) => (some (sign * Decimal.ofDigits ds), rest)
    else some (none, c :: cs)
  | [] => some (none, [])

def numeral? (negative : Bool) (cs : List Char) : Option (Json × List Char) := do
  let (whole, cs) ← takeWhole? cs
  let (fraction, cs) ← takeFraction? cs
  let (exponent, cs) ← takeExponent? cs
  pure (.number ⟨negative, whole, fraction, exponent⟩, cs)

mutual

/-- The value at the front and what follows it. Each call takes one unit of fuel, and there are
at most two calls for a character. -/
def value? : Nat → List Char → Option (Json × List Char)
  | 0, _ => none
  | fuel + 1, cs =>
    match skipBlanks cs with
    | 'n' :: 'u' :: 'l' :: 'l' :: rest => some (.null, rest)
    | 't' :: 'r' :: 'u' :: 'e' :: rest => some (.bool true, rest)
    | 'f' :: 'a' :: 'l' :: 's' :: 'e' :: rest => some (.bool false, rest)
    | '"' :: rest => do
      let (pieces, rest) ← scan? rest
      pure (.text (string? pieces), rest)
    | '[' :: rest =>
      match skipBlanks rest with
      | ']' :: rest => some (.array [], rest)
      | rest => do
        let (items, rest) ← items? fuel rest
        pure (.array items, rest)
    | '\x7b' :: rest =>
      match skipBlanks rest with
      | '\x7d' :: rest => some (.object [], rest)
      | rest => do
        let (members, rest) ← members? fuel rest
        pure (.object members, rest)
    | '-' :: rest => numeral? true rest
    | rest => numeral? false rest

def items? : Nat → List Char → Option (List Json × List Char)
  | 0, _ => none
  | fuel + 1, cs => do
    let (item, rest) ← value? fuel cs
    match skipBlanks rest with
    | ']' :: rest => some ([item], rest)
    | ',' :: rest => do
      let (items, rest) ← items? fuel rest
      pure (item :: items, rest)
    | _ => none

def members? : Nat → List Char → Option (List (Option String × Json) × List Char)
  | 0, _ => none
  | fuel + 1, cs => do
    let '"' :: rest := skipBlanks cs | none
    let (pieces, rest) ← scan? rest
    let ':' :: rest := skipBlanks rest | none
    let (value, rest) ← value? fuel rest
    match skipBlanks rest with
    | '\x7d' :: rest => some ([(string? pieces, value)], rest)
    | ',' :: rest => do
      let (members, rest) ← members? fuel rest
      pure ((string? pieces, value) :: members, rest)
    | _ => none

end

def parse? (s : String) : Option Json := do
  let (value, rest) ← value? (2 * s.length + 2) s.toList
  if (skipBlanks rest).isEmpty then some value else none

end Optima.Json
