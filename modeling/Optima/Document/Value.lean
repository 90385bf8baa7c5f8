import Optima.Box
import Optima.Json.Number

/-!
Reading and writing the values of which configurations are made. What is not finite is written as
`null`, and `null` is read back only where a value is optional.
-/

namespace Optima.Document

open Json

class Named (β : Type) where
  all : List β
  name : β → String

def named? {β : Type} [Named β] (s : String) : Option β :=
  Named.all.find? fun b => Named.name b == s

/-- A name is a string, or the only key of an object, with the value `null`. -/
def readNamed {β : Type} [Named β] : Json → Option β
  | .text (some s) => named? s
  | .object [(some s, .null)] => named? s
  | _ => none

def writeNamed {β : Type} [Named β] (b : β) : Json := .text (some (Named.name b))

def readFloat : Json → Option Float
  | .number n => n.float?
  | _ => none

def writeFloat (x : Float) : Json := (Numeral.ofFloat? x).elim .null .number

def readWord : Json → Option Nat
  | .number n => n.word?
  | _ => none

def writeWord (n : Nat) : Json := .number (.ofNat n)

def readOptional {β : Type} (read : Json → Option β) : Json → Option (Option β)
  | .null => some none
  | j => (read j).map some

def writeOptional {β : Type} (write : β → Json) : Option β → Json
  | none => .null
  | some b => write b

def readInterval : Json → Option (Interval Float)
  | .array [lower, upper] => return ⟨← readFloat lower, ← readFloat upper⟩
  | _ => none

def writeInterval (i : Interval Float) : Json := .array [writeFloat i.lower, writeFloat i.upper]

def readBox : Json → Option (Box Float)
  | .array items => items.mapM readInterval
  | _ => none

def writeBox (box : Box Float) : Json := .array (box.map writeInterval)

/-- A longest step; a missing one is infinite. -/
def readStep (j : Json) : Option (Option Float) := (readFloat j).map some

end Optima.Document
