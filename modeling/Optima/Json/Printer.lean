import Optima.Json.Text

namespace Optima

def Numeral.print (n : Numeral) : String :=
  (if n.negative then "-" else "") ++ Decimal.text n.whole
    ++ (if n.fraction.isEmpty then "" else "." ++ Decimal.text n.fraction)
    ++ n.exponent.elim "" fun e => "e" ++ Decimal.intText e

namespace Json

mutual

def print : Json → String
  | .null => "null"
  | .bool b => if b then "true" else "false"
  | .number n => n.print
  | .text s => quoted (s.getD "")
  | .array items => "[" ++ ",".intercalate (printItems items) ++ "]"
  | .object members => "\x7b" ++ ",".intercalate (printMembers members) ++ "\x7d"

def printItems : List Json → List String
  | [] => []
  | j :: js => j.print :: printItems js

def printMembers : List (Option String × Json) → List String
  | [] => []
  | (key, j) :: members => (quoted (key.getD "") ++ ":" ++ j.print) :: printMembers members

end

end Json

end Optima
