import Mathlib.Algebra.Order.Group.Nat
import Optima.Json.Parser
import Optima.Json.Printer

namespace Optima

open Decimal

namespace Decimal

theorem digit?_digitChar : ∀ d < 10, digit? (digitChar d) = some d := by decide

theorem digitsBefore_lt {fuel n : Nat} {acc : List Nat} (h : ∀ d ∈ acc, d < 10) :
    ∀ d ∈ digitsBefore fuel n acc, d < 10 := by
  induction fuel generalizing n acc with
  | zero => exact h
  | succ fuel ih =>
    unfold digitsBefore
    split
    · exact h
    · apply ih
      rw [List.forall_mem_cons]
      exact ⟨Nat.mod_lt _ (by decide), h⟩

theorem digits_lt (n : Nat) : ∀ d ∈ digits n, d < 10 := digitsBefore_lt nofun

theorem digitsBefore_head {fuel n : Nat} (hn : n ≠ 0) (h : n < 2 ^ fuel) (acc : List Nat) :
    ∃ d ds, digitsBefore fuel n acc = d :: ds ∧ d ≠ 0 := by
  induction fuel generalizing n acc with
  | zero => exact absurd (Nat.lt_one_iff.1 h) hn
  | succ fuel ih =>
    unfold digitsBefore
    rw [if_neg hn]
    by_cases htenth : n / 10 = 0
    · refine ⟨n % 10, acc, ?_, by omega⟩
      rw [htenth]
      cases fuel <;> rfl
    · exact ih htenth (by omega) _

theorem digits_head {n : Nat} (hn : n ≠ 0) : ∃ d ds, digits n = d :: ds ∧ d ≠ 0 :=
  digitsBefore_head hn Nat.lt_log2_self []

theorem toList_text (ds : List Nat) : (text ds).toList = ds.map digitChar := String.toList_ofList

end Decimal

namespace Json

def Ends (cs : List Char) : Prop := ∀ c ∈ cs.head?, c = ',' ∨ c = ']' ∨ c = '\x7d'

def NoDigit (cs : List Char) : Prop := ∀ c ∈ cs.head?, digit? c = none

variable {cs : List Char}

theorem Ends.noDigit (h : Ends cs) : NoDigit cs := by
  intro c hc
  obtain rfl | rfl | rfl := h c hc <;> rfl

theorem takeDigits_map {ds : List Nat} (h : ∀ d ∈ ds, d < 10) (hcs : NoDigit cs) :
    takeDigits (ds.map digitChar ++ cs) = (ds, cs) := by
  induction ds with
  | nil =>
    cases cs with
    | nil => rfl
    | cons c cs =>
      rw [List.map_nil, List.nil_append, takeDigits, hcs c rfl]
  | cons d ds ih =>
    rw [List.forall_mem_cons] at h
    rw [List.map_cons, List.cons_append, takeDigits, digit?_digitChar d h.1, ih h.2]

theorem takeDigits?_map {ds : List Nat} (hne : ds ≠ []) (h : ∀ d ∈ ds, d < 10)
    (hcs : NoDigit cs) : takeDigits? (ds.map digitChar ++ cs) = some (ds, cs) := by
  rw [takeDigits?, takeDigits_map h hcs]
  cases ds with
  | nil => exact absurd rfl hne
  | cons d ds => rfl

end Json

structure Numeral.Proper (n : Numeral) : Prop where
  whole_ne : n.whole ≠ []
  whole_lt : ∀ d ∈ n.whole, d < 10
  whole_zero : n.whole.head? = some 0 → n.whole.length = 1
  fraction_lt : ∀ d ∈ n.fraction, d < 10

namespace Numeral

open Json

variable {n : Numeral} {cs : List Char}

def exponentChars (n : Numeral) : List Char := n.exponent.elim [] fun e => 'e' :: (intText e).toList

def fractionChars (n : Numeral) : List Char :=
  if n.fraction.isEmpty then [] else '.' :: n.fraction.map digitChar

def unsignedChars (n : Numeral) : List Char :=
  n.whole.map digitChar ++ (n.fractionChars ++ n.exponentChars)

theorem toList_print (n : Numeral) :
    n.print.toList = (if n.negative then ['-'] else []) ++ n.unsignedChars := by
  unfold print unsignedChars fractionChars exponentChars
  simp only [String.toList_append, toList_text, List.append_assoc]
  congr 1
  · split <;> rfl
  congr 2
  · split
    · rfl
    · simp [toList_text]
  · cases n.exponent with
    | none => rfl
    | some e => simp

theorem Proper.unsignedChars_head (h : n.Proper) :
    ∃ d l, n.unsignedChars = digitChar d :: l ∧ d < 10 := by
  have hlt := h.whole_lt
  obtain ⟨d, ds, hd⟩ := List.exists_cons_of_ne_nil h.whole_ne
  rw [hd, List.forall_mem_cons] at hlt
  refine ⟨d, ds.map digitChar ++ (n.fractionChars ++ n.exponentChars), ?_, hlt.1⟩
  rw [unsignedChars, hd]
  rfl

theorem takeDigits?_natText (k : Nat) (hcs : NoDigit cs) :
    ∃ ds, takeDigits? ((natText k).toList ++ cs) = some (ds, cs) ∧ ofDigits ds = k := by
  unfold natText
  split
  · next h => exact ⟨[0], takeDigits?_map (List.cons_ne_nil 0 []) (by simp) hcs, h.symm⟩
  · next h =>
    obtain ⟨d, ds, hd, -⟩ := digits_head h
    refine ⟨digits k, ?_, ofDigits_digits k⟩
    rw [toList_text]
    exact takeDigits?_map (by rw [hd]; exact List.cons_ne_nil d ds) (digits_lt k) hcs

theorem natText_head (k : Nat) :
    ∃ d ds, (natText k).toList = digitChar d :: ds ∧ d < 10 := by
  unfold natText
  split
  · exact ⟨0, [], rfl, by decide⟩
  · next h =>
    obtain ⟨d, ds, hd, -⟩ := digits_head h
    have hlt := digits_lt k
    rw [hd, List.forall_mem_cons] at hlt
    exact ⟨d, ds.map digitChar, by rw [toList_text, hd, List.map_cons], hlt.1⟩

theorem takeExponent?_unsigned {c : Char} (hp : c ≠ '+') (hm : c ≠ '-') (cs : List Char) :
    takeExponent? ('e' :: c :: cs) =
      (takeDigits? (c :: cs)).map fun p => (some (ofDigits p.1 : Int), p.2) := by
  have he : ('e' == 'e' || 'e' == 'E') = true := rfl
  unfold takeExponent?
  dsimp only
  rw [if_pos he]
  split
  · next h => exact absurd (List.cons.inj h).1 hp
  · next h => exact absurd (List.cons.inj h).1 hm
  · simp only [Int.one_mul]

theorem takeExponent?_chars (n : Numeral) (hcs : Ends cs) :
    takeExponent? (n.exponentChars ++ cs) = some (n.exponent, cs) := by
  unfold exponentChars
  cases n.exponent with
  | none =>
    cases cs with
    | nil => rfl
    | cons c cs => obtain rfl | rfl | rfl := hcs c rfl <;> rfl
  | some e =>
    cases e with
    | ofNat k =>
      obtain ⟨d, l, hl, hd⟩ := natText_head k
      obtain ⟨ds, htake, hds⟩ := takeDigits?_natText k hcs.noDigit
      have hsign : ∀ d < 10, digitChar d ≠ '+' ∧ digitChar d ≠ '-' := by decide
      change takeExponent? ('e' :: ((natText k).toList ++ cs)) = _
      rw [hl] at htake ⊢
      rw [List.cons_append, takeExponent?_unsigned (hsign d hd).1 (hsign d hd).2,
        ← List.cons_append,
        htake, Option.map_some, hds]
      rfl
    | negSucc k =>
      obtain ⟨ds, htake, hds⟩ := takeDigits?_natText (k + 1) hcs.noDigit
      have htext : (intText (.negSucc k)).toList = '-' :: (natText (k + 1)).toList := by
        simp [intText]
      change takeExponent? ('e' :: ((intText (.negSucc k)).toList ++ cs)) = _
      have hneg : -1 * ((k + 1 : Nat) : Int) = .negSucc k := by omega
      rw [htext, List.cons_append]
      change (takeDigits? _).map _ = _
      rw [htake, Option.map_some]
      dsimp only
      rw [hds, hneg]

theorem noDigit_exponentChars (n : Numeral) (hcs : Ends cs) : NoDigit (n.exponentChars ++ cs) := by
  unfold exponentChars
  cases n.exponent with
  | none => exact hcs.noDigit
  | some e =>
    rintro c hc
    cases hc
    rfl

theorem takeFraction?_chars (h : n.Proper) (hcs : Ends cs) :
    takeFraction? (n.fractionChars ++ (n.exponentChars ++ cs)) =
      some (n.fraction, n.exponentChars ++ cs) := by
  have hno := noDigit_exponentChars n hcs
  unfold fractionChars
  cases hf : n.fraction with
  | nil =>
    change takeFraction? (n.exponentChars ++ cs) = _
    unfold exponentChars
    cases n.exponent with
    | none =>
      cases cs with
      | nil => rfl
      | cons c cs => obtain rfl | rfl | rfl := hcs c rfl <;> rfl
    | some e => rfl
  | cons d ds =>
    have hlt := h.fraction_lt
    rw [hf] at hlt
    exact takeDigits?_map (List.cons_ne_nil d ds) hlt hno

theorem numeral?_chars (h : n.Proper) (hcs : Ends cs) :
    numeral? n.negative (n.unsignedChars ++ cs) = some (.number n, cs) := by
  have hno : NoDigit (n.fractionChars ++ (n.exponentChars ++ cs)) := by
    unfold fractionChars
    split
    · exact noDigit_exponentChars n hcs
    · rintro c hc
      cases hc
      rfl
  have hwhole : takeWhole? (n.unsignedChars ++ cs) =
      some (n.whole, n.fractionChars ++ (n.exponentChars ++ cs)) := by
    unfold unsignedChars takeWhole?
    rw [List.append_assoc, List.append_assoc, takeDigits?_map h.whole_ne h.whole_lt hno]
    change (if n.whole.head? == some 0 && decide (1 < n.whole.length) then none else some _) = _
    rw [if_neg]
    rw [Bool.and_eq_true, beq_iff_eq, decide_eq_true_eq]
    rintro ⟨hz, hlt⟩
    rw [h.whole_zero hz] at hlt
    exact absurd hlt (by decide)
  unfold numeral?
  rw [hwhole, Option.bind_eq_bind, Option.bind_some]
  dsimp only
  rw [takeFraction?_chars h hcs, Option.bind_eq_bind, Option.bind_some]
  dsimp only
  rw [takeExponent?_chars n hcs]
  rfl

theorem ofNat_proper (k : Nat) : (ofNat k).Proper := by
  by_cases hk : k = 0
  · subst hk
    exact ⟨by decide, by decide, fun _ => rfl, nofun⟩
  · obtain ⟨d, ds, hd, hne⟩ := digits_head hk
    have hwhole : (ofNat k).whole = digits k := if_neg hk
    refine ⟨?_, ?_, ?_, nofun⟩
    · rw [hwhole, hd]
      exact List.cons_ne_nil d ds
    · rw [hwhole]
      exact digits_lt k
    · intro hz
      rw [hwhole, hd] at hz
      exact absurd (Option.some.inj hz) hne

end Numeral

end Optima
