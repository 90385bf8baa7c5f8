import Mathlib.Data.List.Nodup
import Optima.Document.Field
import Optima.Proofs.Json.RoundTrip

namespace Optima

namespace Field

variable {κ : Type} {fields : List (Field κ)}

def member (c : κ) (f : Field κ) : Option String × Json := (some f.key, f.write c)

theorem find?_key (hkeys : (fields.map key).Nodup) {f : Field κ} (hf : f ∈ fields) :
    (fields.find? fun g => g.key == f.key) = some f := by
  cases h : fields.find? fun g => g.key == f.key with
  | none => exact absurd (List.find?_eq_none.1 h f hf) (by simp)
  | some g =>
    have hkey : g.key = f.key := by simpa using List.find?_some h
    rw [List.inj_on_of_nodup_map hkeys (List.mem_of_find?_eq_some h) hf hkey]

theorem repeats_member (hkeys : (fields.map key).Nodup) (c : κ) :
    repeats fields (fields.map (member c)) = false := by
  rw [repeats, List.any_eq_false]
  intro f _
  have hcount : (fields.map (member c)).countP (fun m => m.1 == some f.key) =
      (fields.map key).count f.key := by
    rw [List.countP_map, List.count, List.countP_map]
    rfl
  rw [hcount, decide_eq_true_eq, not_lt]
  exact List.nodup_iff_count_le_one.1 hkeys f.key

theorem foldlM_member (hkeys : (fields.map key).Nodup) (c : κ) {l : List (Field κ)}
    (hl : ∀ f ∈ l, f ∈ fields) (a : κ) :
    (l.map (member c)).foldlM (readMember fields) a =
      l.foldlM (fun a f => f.replace a (f.write c)) a := by
  induction l generalizing a with
  | nil => rfl
  | cons f l ih =>
    rw [List.forall_mem_cons] at hl
    have hread : readMember fields a (member c f) = f.replace a (f.write c) := by
      rw [member, readMember, find?_key hkeys hl.1]
    rw [List.map_cons, List.foldlM_cons, List.foldlM_cons, hread]
    exact congrArg _ (funext fun a => ih hl.2 a)

end Field

namespace Document

structure Faithful {β : Type} (read : Json → Option β) (write : β → Json) (b : β) : Prop where
  proper : (write b).Proper
  reads : read (write b) = some b

inductive Restores {κ : Type} (c : κ) : List (Field κ) → κ → κ → Prop
  | nil {a : κ} : Restores c [] a a
  | cons {β : Type} {key : String} {rd : Json → Option β} {wr : β → Json} {get : κ → β}
      {set : κ → β → κ} {l : List (Field κ)} {a b : κ} (h : Faithful rd wr (get c))
      (hl : Restores c l (set a (get c)) b) : Restores c (Field.of key rd wr get set :: l) a b

namespace Restores

variable {κ : Type} {c a b : κ} {l : List (Field κ)} (h : Restores c l a b)

include h

theorem proper : ∀ f ∈ l, (f.write c).Proper := by
  induction h with
  | nil => exact nofun
  | cons h _ ih => exact List.forall_mem_cons.2 ⟨h.proper, ih⟩

theorem foldlM_eq : l.foldlM (fun a f => f.replace a (f.write c)) a = some b := by
  induction h with
  | nil => rfl
  | @cons β key rd wr get set l a b h _ ih =>
    rw [List.foldlM_cons]
    change ((rd (wr (get c))).map (set a)).bind _ = _
    rw [h.reads]
    exact ih

end Restores

class Keyed (κ : Type) [Document κ] : Prop where
  nodup : ((fields : List (Field κ)).map Field.key).Nodup

variable {κ α : Type} [Document κ]

theorem read_write [Keyed κ] (c : κ) :
    read (write c) =
      (fields : List (Field κ)).foldlM (fun a f => f.replace a (f.write c)) standard := by
  change (if Field.repeats _ (fields.map (Field.member c)) then none else
    (fields.map (Field.member c)).foldlM (Field.readMember fields) standard) = _
  rw [Field.repeats_member Keyed.nodup, if_neg Bool.false_ne_true,
    Field.foldlM_member Keyed.nodup c fun _ h => h]

theorem read_write_none [Keyed κ] {β : Type} {key : String} {rd : Json → Option β} {wr : β → Json}
    {get : κ → β} {set : κ → β → κ} (hf : Field.of key rd wr get set ∈ (fields : List (Field κ)))
    {c : κ} (h : rd (wr (get c)) = none) : read (write c) = (none : Option κ) := by
  rw [read_write]
  generalize (fields : List (Field κ)) = l at hf
  generalize (standard : κ) = a
  induction l generalizing a with
  | nil => exact absurd hf List.not_mem_nil
  | cons g l ih =>
    rw [List.foldlM_cons]
    obtain rfl | hf := List.mem_cons.1 hf
    · change ((rd (wr (get c))).map (set a)).bind _ = none
      rw [h]
      rfl
    · cases hg : g.replace a (g.write c) with
      | none => rfl
      | some a => exact ih hf a

theorem write_proper {c : κ} (h : ∀ f ∈ (fields : List (Field κ)), (f.write c).Proper) :
    (write c).Proper := by
  refine .object ?_ ?_
  · simp
  · simpa using h

theorem Restores.faithful [Keyed κ] {c : κ} (h : Restores c fields standard c) :
    Faithful read write c :=
  ⟨write_proper h.proper, read_write c ▸ h.foldlM_eq⟩

theorem parse_print {c : κ} (h : (write c).Proper) :
    (parse (write c).print : Except (Error α) κ) =
      (read (write c)).elim (.error .unreadable) .ok := by
  rw [parse, h.parse?_print, Option.bind_some]
  cases (read (write c) : Option κ) <;> rfl

end Document

end Optima
