import Optima.Json.Text

namespace Optima.Json

theorem chars?_char (c : Char) (ps : List Piece) :
    chars? (.char c :: ps) = (chars? ps).map (c :: ·) := rfl

theorem chars?_unit {n : Nat} (h : n < 0xD800) (ps : List Piece) :
    chars? (.unit n :: ps) = (chars? ps).map (Char.ofNat n :: ·) := by
  have hhigh : isHighSurrogate n = false := by
    rw [isHighSurrogate, Bool.and_eq_false_imp]
    intro hle
    exact absurd (of_decide_eq_true hle) (by omega)
  have hlow : isLowSurrogate n = false := by
    rw [isLowSurrogate, Bool.and_eq_false_imp]
    intro hle
    exact absurd (of_decide_eq_true hle) (by omega)
  cases ps with
  | nil => simp [chars?, hhigh, hlow]
  | cons p ps => cases p <;> simp [chars?, hhigh, hlow]

theorem hexValue?_hexChar : ∀ d < 16, hexValue? (hexChar d) = some d := by decide

theorem hexUnit?_hexChar {n : Nat} (h : n < 256) :
    hexUnit? '0' '0' (hexChar (n / 16)) (hexChar (n % 16)) = some n := by
  have hhigh := hexValue?_hexChar (n / 16) (by omega)
  have hlow := hexValue?_hexChar (n % 16) (by omega)
  have hzero : hexValue? '0' = some 0 := rfl
  simp only [hexUnit?, hhigh, hlow, hzero, Option.bind_eq_bind, Option.bind_some, Option.pure_def]
  congr 1
  omega

theorem scan?_plain {c : Char} (hquote : c ≠ '"') (hslash : c ≠ '\\') (hc : ¬ c < ' ')
    (cs : List Char) : scan? (c :: cs) = (scan? cs).map fun q => (.char c :: q.1, q.2) := by
  have hplain : ¬ (decide (c < ' ') || c == '\\') = true := by simp [hc, hslash]
  rw [scan?.eq_def]
  split
  · next h => exact absurd h (List.cons_ne_nil c cs)
  · next h => exact absurd (List.cons.inj h).1 hquote
  · next h => exact absurd (List.cons.inj h).1 hslash
  · next h => exact absurd (List.cons.inj h).1 hslash
  · next h =>
    obtain ⟨rfl, rfl⟩ := List.cons.inj h
    cases scan? cs <;> simp [hplain]

theorem exists_piece (c : Char) : ∃ p,
    (∀ cs, scan? (escape c ++ cs) = (scan? cs).map fun q => (p :: q.1, q.2)) ∧
      ∀ ps, chars? (p :: ps) = (chars? ps).map (c :: ·) := by
  unfold escape
  split
  iterate 7 exact ⟨.char _, fun cs => by cases h : scan? cs <;> simp [scan?, escaped?, h],
    chars?_char _⟩
  split
  · next h =>
    have hlt : c.toNat < 32 := h
    refine ⟨.unit c.toNat, ?_, ?_⟩
    · intro cs
      have hunit := hexUnit?_hexChar (n := c.toNat) (by omega)
      cases h : scan? cs <;> simp [scan?, hunit, h]
    · intro ps
      rw [chars?_unit (by omega), Char.ofNat_toNat]
  · next hq hb _ _ _ _ _ hc =>
    exact ⟨.char c, scan?_plain hq hb hc, chars?_char c⟩

theorem scan?_escape (cs rest : List Char) :
    ∃ ps, scan? (cs.flatMap escape ++ '"' :: rest) = some (ps, rest) ∧ chars? ps = some cs := by
  induction cs with
  | nil => exact ⟨[], rfl, rfl⟩
  | cons c cs ih =>
    obtain ⟨ps, hscan, hchars⟩ := ih
    obtain ⟨p, hp, hc⟩ := exists_piece c
    refine ⟨p :: ps, ?_, ?_⟩
    · rw [List.flatMap_cons, List.append_assoc, hp, hscan]
      rfl
    · rw [hc, hchars]
      rfl

theorem toList_quoted (s : String) :
    (quoted s).toList = '"' :: (s.toList.flatMap escape ++ ['"']) := by
  simp [quoted, String.toList_append, String.toList_ofList]

theorem scan?_quoted (s : String) (rest : List Char) :
    ∃ ps, scan? (s.toList.flatMap escape ++ '"' :: rest) = some (ps, rest) ∧
      string? ps = some s := by
  obtain ⟨ps, hscan, hchars⟩ := scan?_escape s.toList rest
  refine ⟨ps, hscan, ?_⟩
  rw [string?, hchars, Option.map_some, String.ofList_toList]

end Optima.Json
