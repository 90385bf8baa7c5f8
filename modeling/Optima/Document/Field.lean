import Optima.Error
import Optima.Json.Parser

/-!
Configurations as JSON documents. A configuration is an object of its fields: a key that is
missing keeps the default, a key that is unknown is passed over, and a known key must not repeat.
It may also be an array of its first fields in order.
-/

namespace Optima

/-- A field of a configuration: its key, how it is replaced by what a document holds, and how it
is written. -/
structure Field (κ : Type) where
  key : String
  replace : κ → Json → Option κ
  write : κ → Json

class Document (κ : Type) where
  standard : κ
  fields : List (Field κ)

namespace Field

variable {κ β : Type}

def of (key : String) (read : Json → Option β) (write : β → Json) (get : κ → β)
    (set : κ → β → κ) : Field κ :=
  ⟨key, fun c j => (read j).map (set c), fun c => write (get c)⟩

def repeats (fields : List (Field κ)) (members : List (Option String × Json)) : Bool :=
  fields.any fun f => 1 < members.countP fun m => m.1 == some f.key

def readMember (fields : List (Field κ)) (c : κ) : Option String × Json → Option κ
  | (none, _) => none
  | (some key, j) =>
    match fields.find? fun f => f.key == key with
    | some f => f.replace c j
    | none => some c

def readItems : List (Field κ) → κ → List Json → Option κ
  | _, c, [] => some c
  | [], _, _ :: _ => none
  | f :: fields, c, j :: js => (f.replace c j).bind (readItems fields · js)

def read (fields : List (Field κ)) (c : κ) : Json → Option κ
  | .object members =>
    if repeats fields members then none else members.foldlM (readMember fields) c
  | .array items => readItems fields c items
  | _ => none

end Field

namespace Document

variable {κ α : Type} [Document κ]

def read (j : Json) : Option κ := Field.read fields standard j

def write (c : κ) : Json := .object (fields.map fun f => (some f.key, f.write c))

def parse (s : String) : Except (Error α) κ :=
  match (Json.parse? s).bind read with
  | some c => .ok c
  | none => .error .unreadable

def nested {γ : Type} (key : String) (get : γ → κ) (set : γ → κ → γ) : Field γ :=
  .of key read write get set

end Document

end Optima
