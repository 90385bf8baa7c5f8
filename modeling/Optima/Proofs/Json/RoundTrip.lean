import Mathlib.Tactic.IntervalCases
import Optima.Proofs.Json.Numeral
import Optima.Proofs.Json.Text

namespace Optima.Json

open Decimal

/-- The values whose text stands for them: digits in their places, and no broken strings. -/
inductive Proper : Json → Prop
  | null : Proper .null
  | bool (b : Bool) : Proper (.bool b)
  | number {n : Numeral} (h : n.Proper) : Proper (.number n)
  | text (s : String) : Proper (.text (some s))
  | array {items : List Json} (h : ∀ j ∈ items, Proper j) : Proper (.array items)
  | object {members : List (Option String × Json)} (hkeys : ∀ m ∈ members, m.1.isSome)
      (h : ∀ m ∈ members, Proper m.2) : Proper (.object members)

def printMember (m : Option String × Json) : String := quoted (m.1.getD "") ++ ":" ++ m.2.print

theorem printItems_eq (items : List Json) : printItems items = items.map print := by
  induction items with
  | nil => rfl
  | cons j js ih => rw [printItems, ih, List.map_cons]

theorem printMembers_eq (members : List (Option String × Json)) :
    printMembers members = members.map printMember := by
  induction members with
  | nil => rfl
  | cons m ms ih => rw [printMembers, ih, List.map_cons, printMember]

def joined (texts : List String) : List Char := (",".intercalate texts).toList

theorem joined_singleton (s : String) : joined [s] = s.toList := by simp [joined]

theorem joined_cons_cons {α : Type} (f : α → String) (a b : α) (l : List α) :
    joined ((a :: b :: l).map f) = (f a).toList ++ ',' :: joined ((b :: l).map f) := by
  simp [joined, String.toList_intercalate]

theorem joined_head {α : Type} {f : α → String} {a : α} {c : Char} {cs : List Char}
    (h : (f a).toList = c :: cs) (l : List α) : ∃ cs', joined ((a :: l).map f) = c :: cs' := by
  cases l with
  | nil => exact ⟨cs, by rw [List.map_singleton, joined_singleton, h]⟩
  | cons b l => exact ⟨_, by rw [joined_cons_cons, h, List.cons_append]⟩

theorem toList_array (items : List Json) :
    (array items).print.toList = '[' :: (joined (items.map print) ++ [']']) := by
  simp [print, joined, printItems_eq]

theorem toList_object (members : List (Option String × Json)) :
    (object members).print.toList =
      '\x7b' :: (joined (members.map printMember) ++ ['\x7d']) := by
  simp [print, joined, printMembers_eq]

variable {fuel : Nat} {cs rest : List Char}

theorem skipBlanks_cons {c : Char} (h : isBlank c = false) : skipBlanks (c :: cs) = c :: cs := by
  rw [skipBlanks, List.dropWhile_cons_of_neg (by simp [h])]

theorem isBlank_digitChar : ∀ d < 10, isBlank (digitChar d) = false ∧ digitChar d ≠ ']' := by decide

theorem value?_digit {d : Nat} (h : d < 10) :
    value? (fuel + 1) (digitChar d :: cs) = numeral? false (digitChar d :: cs) := by
  interval_cases d <;> rfl

theorem value?_numeral {n : Numeral} (h : n.Proper) (hrest : Ends rest) :
    value? (fuel + 1) (n.print.toList ++ rest) = some (.number n, rest) := by
  have hread := Numeral.numeral?_chars h hrest
  rw [Numeral.toList_print]
  cases hn : n.negative with
  | true =>
    rw [hn] at hread
    exact hread
  | false =>
    obtain ⟨d, l, hl, hd⟩ := h.unsignedChars_head
    rw [hn, hl] at hread
    rw [← hread, hl]
    exact value?_digit hd

theorem value?_quoted (s : String) (rest : List Char) :
    value? (fuel + 1) ((quoted s).toList ++ rest) = some (.text (some s), rest) := by
  obtain ⟨ps, hscan, hs⟩ := scan?_quoted s rest
  rw [toList_quoted, List.cons_append, List.append_assoc]
  change (scan? (s.toList.flatMap escape ++ '"' :: rest)).bind _ = _
  rw [hscan]
  change some (Json.text (string? ps), rest) = _
  rw [hs]

theorem Proper.print_head {j : Json} (h : j.Proper) :
    ∃ c cs, j.print.toList = c :: cs ∧ isBlank c = false ∧ c ≠ ']' := by
  cases h with
  | null => exact ⟨'n', _, rfl, rfl, by decide⟩
  | bool b =>
    cases b with
    | false => exact ⟨'f', _, rfl, rfl, by decide⟩
    | true => exact ⟨'t', _, rfl, rfl, by decide⟩
  | text s => exact ⟨'"', _, toList_quoted s, rfl, by decide⟩
  | array _ => exact ⟨'[', _, toList_array _, rfl, by decide⟩
  | object _ _ => exact ⟨'\x7b', _, toList_object _, rfl, by decide⟩
  | @number n hn =>
    rw [print, Numeral.toList_print]
    cases n.negative with
    | true => exact ⟨'-', _, rfl, rfl, by decide⟩
    | false =>
      obtain ⟨d, l, hl, hd⟩ := hn.unsignedChars_head
      exact ⟨digitChar d, l, hl, isBlank_digitChar d hd⟩

theorem Proper.exists_fuel {j : Json} (h : j.Proper) (hfuel : 2 * j.print.toList.length ≤ fuel) :
    ∃ f, fuel = f + 1 := by
  obtain ⟨c, cs, hc, -⟩ := h.print_head
  rw [hc, List.length_cons] at hfuel
  exact ⟨fuel - 1, by omega⟩

def Reads (j : Json) : Prop :=
  ∀ {fuel : Nat} {rest : List Char}, Ends rest → 2 * j.print.toList.length ≤ fuel + 1 →
    value? (fuel + 1) (j.print.toList ++ rest) = some (j, rest)

theorem ends_cons {c : Char} (h : c = ',' ∨ c = ']' ∨ c = '\x7d') (cs : List Char) :
    Ends (c :: cs) := by
  intro d hd
  cases hd
  exact h

theorem items?_print {j : Json} {js : List Json} (hproper : ∀ i ∈ j :: js, i.Proper)
    (h : ∀ i ∈ j :: js, i.Reads) (hfuel : 2 * (joined ((j :: js).map print)).length ≤ fuel) :
    items? (fuel + 1) (joined ((j :: js).map print) ++ ']' :: rest) = some (j :: js, rest) := by
  induction js generalizing j fuel with
  | nil =>
    rw [List.map_singleton, joined_singleton] at hfuel ⊢
    obtain ⟨fuel, rfl⟩ := (hproper j List.mem_cons_self).exists_fuel hfuel
    rw [items?, h j List.mem_cons_self (ends_cons (by simp) rest) (by omega)]
    rfl
  | cons k js ih =>
    rw [joined_cons_cons, List.length_append, List.length_cons] at hfuel
    have hfirst : 2 * j.print.toList.length ≤ fuel := by omega
    obtain ⟨fuel, rfl⟩ := (hproper j List.mem_cons_self).exists_fuel hfirst
    have hrest : 2 * (joined ((k :: js).map print)).length ≤ fuel := by omega
    have hitems := ih (fun i hi => hproper i (List.mem_cons_of_mem j hi))
      (fun i hi => h i (List.mem_cons_of_mem j hi)) hrest
    rw [joined_cons_cons]
    rw [List.append_assoc, List.cons_append, items?,
      h j List.mem_cons_self (ends_cons (by simp) _) (by omega)]
    change (items? (fuel + 1) _).bind _ = _
    rw [hitems]
    rfl

theorem toList_printMember (key : String) (j : Json) :
    (printMember (some key, j)).toList =
      '"' :: (key.toList.flatMap escape ++ '"' :: ':' :: j.print.toList) := by
  simp [printMember, toList_quoted]

theorem length_printMember (key : String) (j : Json) :
    j.print.toList.length < (printMember (some key, j)).toList.length := by
  rw [toList_printMember]
  simp only [List.length_cons, List.length_append]
  omega

theorem members?_member (key : String) (j : Json) (cs : List Char) :
    members? (fuel + 1) ((printMember (some key, j)).toList ++ cs) = (do
      let (value, rest) ← value? fuel (j.print.toList ++ cs)
      match skipBlanks rest with
      | '\x7d' :: rest => some ([(some key, value)], rest)
      | ',' :: rest => do
        let (members, rest) ← members? fuel rest
        pure ((some key, value) :: members, rest)
      | _ => none) := by
  obtain ⟨ps, hscan, hs⟩ := scan?_quoted key (':' :: (j.print.toList ++ cs))
  rw [toList_printMember, List.cons_append, List.append_assoc, List.cons_append, List.cons_append,
    members?]
  change (scan? _).bind _ = _
  rw [hscan, ← hs]
  rfl

theorem members?_print {m : Option String × Json} {ms : List (Option String × Json)}
    (hkeys : ∀ i ∈ m :: ms, i.1.isSome) (h : ∀ i ∈ m :: ms, i.2.Reads)
    (hfuel : 2 * (joined ((m :: ms).map printMember)).length ≤ fuel) :
    members? (fuel + 1) (joined ((m :: ms).map printMember) ++ '\x7d' :: rest) =
      some (m :: ms, rest) := by
  induction ms generalizing m fuel with
  | nil =>
    rw [List.map_singleton, joined_singleton] at hfuel ⊢
    obtain ⟨key, j⟩ := m
    obtain ⟨key, rfl⟩ := Option.isSome_iff_exists.1 (hkeys _ List.mem_cons_self)
    have hlen := length_printMember key j
    obtain ⟨fuel, rfl⟩ : ∃ f, fuel = f + 1 := ⟨fuel - 1, by omega⟩
    have hread : j.Reads := h _ List.mem_cons_self
    rw [members?_member, hread (ends_cons (by simp) rest) (by omega)]
    rfl
  | cons n ms ih =>
    rw [joined_cons_cons, List.length_append, List.length_cons] at hfuel
    obtain ⟨key, j⟩ := m
    obtain ⟨key, rfl⟩ := Option.isSome_iff_exists.1 (hkeys _ List.mem_cons_self)
    have hlen := length_printMember key j
    obtain ⟨fuel, rfl⟩ : ∃ f, fuel = f + 1 := ⟨fuel - 1, by omega⟩
    have hread : j.Reads := h _ List.mem_cons_self
    have hrest : 2 * (joined ((n :: ms).map printMember)).length ≤ fuel := by omega
    have hmembers := ih (fun i hi => hkeys i (List.mem_cons_of_mem _ hi))
      (fun i hi => h i (List.mem_cons_of_mem _ hi)) hrest
    rw [joined_cons_cons, List.append_assoc, List.cons_append, members?_member,
      hread (ends_cons (by simp) _) (by omega)]
    change (members? (fuel + 1) _).bind _ = _
    rw [hmembers]
    rfl

theorem value?_bracket {c : Char} (hblank : isBlank c = false) (hc : c ≠ ']') :
    value? (fuel + 1) ('[' :: c :: cs) =
      (items? fuel (c :: cs)).map fun r => (.array r.1, r.2) := by
  have hopen : skipBlanks ('[' :: c :: cs) = '[' :: c :: cs := rfl
  simp only [value?, hopen, skipBlanks_cons hblank]
  split
  · next heq => exact absurd (List.cons.inj heq).1 hc
  · rw [Option.map_eq_bind]
    rfl

theorem value?_brace : value? (fuel + 1) ('\x7b' :: '"' :: cs) =
    (members? fuel ('"' :: cs)).map fun r => (.object r.1, r.2) := by
  rw [Option.map_eq_bind]
  rfl

theorem Proper.reads {j : Json} (h : j.Proper) : j.Reads := by
  induction h with
  | null => exact fun _ _ => rfl
  | bool b => cases b <;> exact fun _ _ => rfl
  | number h => exact fun hrest _ => value?_numeral h hrest
  | text s => exact fun {_ rest} _ _ => value?_quoted s rest
  | @array items h ih =>
    intro fuel rest hrest hfuel
    cases items with
    | nil => rfl
    | cons j js =>
      rw [toList_array, List.length_cons, List.length_append, List.length_singleton] at hfuel
      obtain ⟨fuel, rfl⟩ : ∃ f, fuel = f + 1 := ⟨fuel - 1, by omega⟩
      obtain ⟨c, cs, hc, hblank, hend⟩ := (h j List.mem_cons_self).print_head
      obtain ⟨cs', hcs⟩ := joined_head hc js
      have hitems : items? (fuel + 1) (joined ((j :: js).map print) ++ ']' :: rest) =
          some (j :: js, rest) := items?_print h ih (by omega)
      rw [toList_array, List.cons_append, List.append_assoc]
      rw [hcs, List.cons_append] at hitems ⊢
      rw [value?_bracket hblank hend, List.singleton_append, hitems, Option.map_some]
  | @object members hkeys h ih =>
    intro fuel rest hrest hfuel
    cases members with
    | nil => rfl
    | cons m ms =>
      rw [toList_object, List.length_cons, List.length_append, List.length_singleton] at hfuel
      obtain ⟨fuel, rfl⟩ : ∃ f, fuel = f + 1 := ⟨fuel - 1, by omega⟩
      obtain ⟨key, hkey⟩ := Option.isSome_iff_exists.1 (hkeys m List.mem_cons_self)
      obtain ⟨cs', hcs⟩ := joined_head (toList_printMember key m.2) ms
      have hmembers :
          members? (fuel + 1) (joined ((m :: ms).map printMember) ++ '\x7d' :: rest) =
            some (m :: ms, rest) := members?_print hkeys ih (by omega)
      rw [← hkey] at hcs
      rw [toList_object, List.cons_append, List.append_assoc]
      rw [hcs, List.cons_append] at hmembers ⊢
      rw [value?_brace, List.singleton_append, hmembers, Option.map_some]

theorem Proper.parse?_print {j : Json} (h : j.Proper) : parse? j.print = some j := by
  have hread : value? (2 * j.print.length + 2) (j.print.toList ++ []) = some (j, []) :=
    h.reads nofun (by rw [String.length_toList]; omega)
  rw [List.append_nil] at hread
  rw [parse?, hread]
  rfl

end Optima.Json
