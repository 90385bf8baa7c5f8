import Optima.Proofs.Containment
import Optima.Proofs.Scalar.Monotone
import Optima.Proofs.Scalar.Underflow

/-!
Centroids of points of a box. Each coordinate is a sum divided by a count, both of which are
rounded; they grow with the points, so that the centroids of the two extreme corners bound all
others. These two need not lie in the box themselves.
-/

namespace Optima

open Scalar (Lawful)

theorem forall₂_replicate {β γ : Type} {R : β → γ → Prop} {n : ℕ} {b : β} {cs : List γ}
    (hl : cs.length = n) (h : ∀ c ∈ cs, R b c) : List.Forall₂ R (List.replicate n b) cs := by
  subst hl
  rwa [← List.map_const', List.forall₂_map_left_iff, List.forall₂_same]

variable {α : Type} [Scalar α]

abbrev Vec.Below (x y : Vec α) : Prop := List.Forall₂ (· ≤ ·) x y

theorem Vec.Below.trans [Lawful α] {x y z : Vec α} (hxy : Below x y) (hyz : Below y z) :
    Below x z := by
  induction hxy generalizing z with
  | nil => exact hyz
  | cons hab _ ih =>
    cases hyz with
    | cons hbc hyz => exact .cons (Lawful.le_trans hab hbc) (ih hyz)

namespace Box

def lowerCorner (box : Box α) : Vec α := box.map (·.lower)

def upperCorner (box : Box α) : Vec α := box.map (·.upper)

/-- A box that has the centroids of its extreme corners, taken as many times as it has
dimensions. -/
def Steady (box : Box α) : Prop :=
  ∀ corner ∈ [box.lowerCorner, box.upperCorner],
    box.Contains (Vec.centroid box.length (List.replicate box.length corner))

instance decidableContains : (box : Box α) → (x : Vec α) → Decidable (box.Contains x)
  | [], [] => .isTrue trivial
  | [], _ :: _ => .isFalse id
  | _ :: _, [] => .isFalse id
  | i :: box, a :: x =>
    have := decidableContains box x
    inferInstanceAs (Decidable ((i.lower ≤ a ∧ a ≤ i.upper) ∧ Contains box x))

instance (box : Box α) : Decidable box.Steady :=
  inferInstanceAs (Decidable (∀ corner ∈ [box.lowerCorner, box.upperCorner], _))

theorem contains_iff {box : Box α} {x : Vec α} :
    box.Contains x ↔ Vec.Below box.lowerCorner x ∧ Vec.Below x box.upperCorner := by
  induction box generalizing x with
  | nil => cases x <;> simp [Contains, lowerCorner, upperCorner]
  | cons i box ih =>
    cases x with
    | nil => simp [Contains, lowerCorner, upperCorner]
    | cons a x =>
      rw [Contains, ih]
      simp only [Interval.Contains, lowerCorner, upperCorner, List.map_cons, List.forall₂_cons]
      tauto

theorem Contains.between [Lawful α] {box : Box α} {x y z : Vec α} (hx : box.Contains x)
    (hz : box.Contains z) (hxy : Vec.Below x y) (hyz : Vec.Below y z) : box.Contains y := by
  rw [contains_iff] at hx hz ⊢
  exact ⟨hx.1.trans hxy, hyz.trans hz.2⟩

theorem contains_corners [Lawful α] {box : Box α} (h : box.check = .ok ()) :
    box.Contains box.lowerCorner ∧ box.Contains box.upperCorner := by
  have hle : ∀ i ∈ box, i.lower ≤ i.upper := fun i hi => ordered h hi
  have hcorners : Vec.Below box.lowerCorner box.upperCorner := by
    rw [Vec.Below, lowerCorner, upperCorner, List.forall₂_map_left_iff,
      List.forall₂_map_right_iff, List.forall₂_same]
    exact hle
  rw [contains_iff, contains_iff]
  refine ⟨⟨List.forall₂_same.2 ?_, hcorners⟩, hcorners, List.forall₂_same.2 ?_⟩
  · exact List.forall_mem_map.2 fun i hi => Lawful.le_refl (Lawful.isNaN_of_le (hle i hi)).1
  · exact List.forall_mem_map.2 fun i hi => Lawful.le_refl (Lawful.isNaN_of_le (hle i hi)).2

end Box

theorem Interval.clip_of_contains [Lawful α] {i : Interval α} {a : α} (h : i.Contains a) :
    a ≤ i.clip a ∧ i.clip a ≤ a := by
  obtain he | ⟨b, -, he, hle⟩ := clip_eq_or_bound h
  · have hn := (Lawful.isNaN_of_le h.2).1
    rw [he]
    exact ⟨Lawful.le_refl hn, Lawful.le_refl hn⟩
  · rw [he]
    exact hle

theorem Box.clip_of_contains [Lawful α] {box : Box α} {x : Vec α} (h : box.Contains x) :
    Vec.Below x (box.clip x) ∧ Vec.Below (box.clip x) x := by
  induction box generalizing x with
  | nil =>
    cases x with
    | nil => exact ⟨.nil, .nil⟩
    | cons => exact h.elim
  | cons i box ih =>
    cases x with
    | nil => exact h.elim
    | cons a x =>
      obtain ⟨hle, hge⟩ := Interval.clip_of_contains h.1
      obtain ⟨ihle, ihge⟩ := ih h.2
      exact ⟨.cons hle ihle, .cons hge ihge⟩

/-- The multiples up to the `n`-th are numbers of the format. -/
def Binary64.HasMultiples (n : ℕ) (a : Float) : Prop :=
  ∀ k ≤ n, ∃ c : Float, c.isFinite = true ∧ toRat c = k * toRat a

open Binary64 (HasMultiples toRat)

theorem Binary64.hasMultiples_of_whole {n m : ℕ} {a : Float} (hm : n * m < 2 ^ 53)
    (h : |toRat a| = m) : HasMultiples n a := by
  intro k hk
  obtain ⟨c, hc, hvalue⟩ := exists_multiple_float (k := k * m) (e := 0)
    ((Nat.mul_le_mul_right m hk).trans_lt hm) (by norm_num) (by norm_num)
  rw [zpow_zero, mul_one, Nat.cast_mul, ← h] at hvalue
  obtain hsign | hsign := abs_choice (toRat a)
  · exact ⟨c, hc, by rw [hvalue, hsign]⟩
  · refine ⟨-c, (Scalar.Extended.isFinite_neg c).trans hc, ?_⟩
    rw [toRat_neg, hvalue, hsign]
    ring

namespace Vec

def Finite (x : Vec Float) : Prop := ∀ a ∈ x, a.isFinite = true

theorem Below.add {x x' y y' : Vec Float} (h : Below x x') (h' : Below y y') (hy : Finite y)
    (hy' : Finite y') : Below (add x y) (add x' y') := by
  induction h generalizing y y' with
  | nil => exact .nil
  | cons hab _ ih =>
    cases h' with
    | nil => exact .nil
    | cons hcd h' =>
      obtain ⟨hc, hy⟩ := List.forall_mem_cons.1 hy
      obtain ⟨hd, hy'⟩ := List.forall_mem_cons.1 hy'
      exact .cons (Binary64.add_le_add_float hc hd hab hcd) (ih h' hy hy')

theorem Below.foldl_add {xs ys : List (Vec Float)} (h : List.Forall₂ Below xs ys)
    (hxs : ∀ x ∈ xs, Finite x) (hys : ∀ y ∈ ys, Finite y) {a b : Vec Float} (hab : Below a b) :
    Below (xs.foldl Vec.add a) (ys.foldl Vec.add b) := by
  induction h generalizing a b with
  | nil => exact hab
  | cons hxy _ ih =>
    obtain ⟨hx, hxs⟩ := List.forall_mem_cons.1 hxs
    obtain ⟨hy, hys⟩ := List.forall_mem_cons.1 hys
    exact ih hxs hys (hab.add hxy hx hy)

theorem contains_quotient {box : Box Float} {c : Float} (hc : 0 < c) {x y z : Vec Float}
    (hxy : Below x y) (hyz : Below y z) (hx : box.Contains (quotient x c))
    (hz : box.Contains (quotient z c)) : box.Contains (quotient y c) := by
  induction hxy generalizing box z with
  | nil => exact hx
  | cons hab _ ih =>
    cases hyz with
    | cons hbd hyz =>
      cases box with
      | nil => exact hx.elim
      | cons i box =>
        obtain ⟨⟨hlow, -⟩, hx⟩ := hx
        obtain ⟨⟨-, hhigh⟩, hz⟩ := hz
        obtain ⟨hle, hge⟩ := Binary64.div_between hc hab hbd (Lawful.isNaN_of_le hlow).2
          (Lawful.isNaN_of_le hhigh).1
        exact ⟨⟨Lawful.le_trans hlow hle, Lawful.le_trans hge hhigh⟩, ih hyz hx hz⟩

theorem centroid_of_ne_nil {n : Nat} {points : List (Vec α)}
    (h : points ≠ []) : centroid n points =
      quotient (points.foldl Vec.add (zeros n)) (Scalar.ofNat points.length) := by
  rw [centroid, if_neg (by simpa using h)]

theorem contains_centroid {box : Box Float} {n : Nat} {xs ys zs : List (Vec Float)}
    (hxy : List.Forall₂ Below xs ys) (hyz : List.Forall₂ Below ys zs) (hxs : ∀ x ∈ xs, Finite x)
    (hys : ∀ y ∈ ys, Finite y) (hzs : ∀ z ∈ zs, Finite z) (hx : box.Contains (centroid n xs))
    (hz : box.Contains (centroid n zs)) : box.Contains (centroid n ys) := by
  have hzeros : Below (zeros n : Vec Float) (zeros n) :=
    List.forall₂_same.2 fun a ha => by rw [List.eq_of_mem_replicate ha]; decide
  have htotal := Below.foldl_add hxy hxs hys hzeros
  have htotal' := Below.foldl_add hyz hys hzs hzeros
  by_cases hne : ys = []
  · subst hne
    cases hxy
    exact hx
  · have hcount : (0 : Float) < Scalar.ofNat ys.length :=
      Binary64.ofNat_pos (List.length_pos_iff.2 hne)
    have hxne : xs ≠ [] := by
      rintro rfl
      exact hne (List.forall₂_nil_left_iff.1 hxy)
    have hzne : zs ≠ [] := by
      rintro rfl
      exact hne (List.forall₂_nil_right_iff.1 hyz)
    rw [centroid_of_ne_nil hxne, hxy.length_eq] at hx
    rw [centroid_of_ne_nil hzne, ← hyz.length_eq] at hz
    rw [centroid_of_ne_nil hne]
    exact contains_quotient hcount htotal htotal' hx hz

def IsMultiple (k : ℕ) (x y : Vec Float) : Prop :=
  List.Forall₂ (fun a b => b.isFinite = true ∧ toRat b = k * toRat a) x y

theorem IsMultiple.add {n k : ℕ} (hk : k < n) {x y : Vec Float} (hx : Finite x)
    (h : ∀ a ∈ x, HasMultiples n a) (hy : IsMultiple k x y) : IsMultiple (k + 1) x (add y x) := by
  induction hy with
  | nil => exact .nil
  | @cons a b _ _ hb _ ih =>
    obtain ⟨ha, hx⟩ := List.forall_mem_cons.1 hx
    obtain ⟨hmultiples, h⟩ := List.forall_mem_cons.1 h
    obtain ⟨c, hc, hvalue⟩ := hmultiples (k + 1) hk
    have hsum : toRat c = toRat b + toRat a := by
      rw [hvalue, hb.2]
      push_cast
      ring
    obtain ⟨hf, he⟩ := (Binary64.add_rounds hb.1 ha).exact hc hsum
    exact .cons ⟨hf, by rw [he, ← hsum, hvalue]⟩ (ih hx h)

theorem IsMultiple.foldl_add {n : ℕ} {x : Vec Float} (hx : Finite x)
    (h : ∀ a ∈ x, HasMultiples n a) {k m : ℕ} (hkm : k + m ≤ n) {y : Vec Float}
    (hy : IsMultiple k x y) : IsMultiple (k + m) x ((List.replicate m x).foldl Vec.add y) := by
  induction m generalizing k y with
  | zero => exact hy
  | succ m ih =>
    rw [List.replicate_succ, List.foldl_cons, Nat.add_comm m 1, ← Nat.add_assoc]
    exact ih (by omega) (hy.add (by omega) hx h)

theorem isMultiple_zeros {x : Vec Float} : IsMultiple 0 x (zeros x.length) := by
  induction x with
  | nil => exact .nil
  | cons a x ih =>
    refine .cons ⟨by decide, ?_⟩ ih
    rw [Nat.cast_zero, zero_mul]
    exact Binary64.toRat_zero

theorem IsMultiple.quotient {n : ℕ} (hpos : 0 < n) (hn : n < 2 ^ 53) {x y : Vec Float}
    (hx : Finite x) (hy : IsMultiple n x y) :
    Below x (quotient y (Scalar.ofNat n)) ∧ Below (quotient y (Scalar.ofNat n)) x := by
  obtain ⟨hcount, hvalue⟩ := Binary64.toRat_ofNat hn
  induction hy with
  | nil => exact ⟨.nil, .nil⟩
  | @cons a b _ _ hb _ ih =>
    obtain ⟨ha, hx⟩ := List.forall_mem_cons.1 hx
    have hquotient : toRat a = toRat b / toRat (Scalar.ofNat n) := by
      rw [hvalue, hb.2, mul_div_cancel_left₀ _ (by exact_mod_cast hpos.ne')]
    obtain ⟨hf, he⟩ :=
      (Binary64.div_rounds hb.1 hcount (Binary64.ofNat_pos hpos)).exact ha hquotient
    obtain ⟨ihle, ihge⟩ := ih hx
    rw [← hquotient] at he
    exact ⟨.cons ((Binary64.le_iff_toRat_le ha hf).2 he.ge) ihle,
      .cons ((Binary64.le_iff_toRat_le hf ha).2 he.le) ihge⟩

theorem centroid_replicate {n : ℕ} (hpos : 0 < n) (hn : n < 2 ^ 53) {x : Vec Float}
    (hl : x.length = n) (hx : Finite x) (h : ∀ a ∈ x, HasMultiples n a) :
    Below x (centroid n (List.replicate n x)) ∧ Below (centroid n (List.replicate n x)) x := by
  have htotal := isMultiple_zeros.foldl_add hx h (m := n) (by omega)
  rw [Nat.zero_add, hl] at htotal
  rw [centroid_of_ne_nil (by simpa using hpos.ne'), List.length_replicate]
  exact htotal.quotient hpos hn hx

end Vec

namespace Box

variable {box : Box Float}

theorem finite_of_contains (hb : box.check = .ok ()) {x : Vec Float} (hx : box.Contains x) :
    Vec.Finite x := by
  have hfinite : ∀ i ∈ box, i.lower.isFinite = true ∧ i.upper.isFinite = true := by
    intro i hi
    obtain ⟨hl, hu, -⟩ := ((check_eq_ok box).1 hb).2 i hi
    exact ⟨hl, hu⟩
  clear hb
  induction box generalizing x with
  | nil =>
    cases x with
    | nil => exact fun _ ha => nomatch ha
    | cons => exact hx.elim
  | cons i box ih =>
    cases x with
    | nil => exact hx.elim
    | cons a x =>
      obtain ⟨⟨hl, hu⟩, hfinite⟩ := List.forall_mem_cons.1 hfinite
      exact List.forall_mem_cons.2
        ⟨Binary64.isFinite_of_between hx.1.1 hx.1.2 hl hu, ih hx.2 hfinite⟩

theorem Steady.contains_centroid (h : box.Steady) (hb : box.check = .ok ())
    {ys : List (Vec Float)} (hl : ys.length = box.length) (hys : ∀ y ∈ ys, box.Contains y) :
    box.Contains (Vec.centroid box.length ys) := by
  obtain ⟨hlower, hupper⟩ := contains_corners hb
  refine Vec.contains_centroid (forall₂_replicate hl fun y hy => (contains_iff.1 (hys y hy)).1)
    (forall₂_replicate hl fun y hy => (contains_iff.1 (hys y hy)).2).flip ?_ ?_ ?_
    (h _ (by simp)) (h _ (by simp))
  · exact List.forall_mem_replicate.2 (.inr (finite_of_contains hb hlower))
  · exact fun y hy => finite_of_contains hb (hys y hy)
  · exact List.forall_mem_replicate.2 (.inr (finite_of_contains hb hupper))

theorem contains_replicate (hb : box.check = .ok ()) {n : ℕ} {x : Vec Float}
    (hx : box.Contains x)
    (h : box.Contains (Vec.centroid n (List.replicate n (box.clip x)))) :
    box.Contains (Vec.centroid n (List.replicate n x)) := by
  obtain ⟨hle, hge⟩ := clip_of_contains hx
  have hclip := contains_clip (fun i hi => ordered hb hi) hx.length
  have hfinite : ∀ y ∈ List.replicate n (box.clip x), Vec.Finite y :=
    List.forall_mem_replicate.2 (.inr (finite_of_contains hb hclip))
  refine Vec.contains_centroid ?_ ?_ hfinite ?_ hfinite h h
  · exact forall₂_replicate List.length_replicate (List.forall_mem_replicate.2 (.inr hge))
  · exact forall₂_replicate List.length_replicate (List.forall_mem_replicate.2 (.inr hle))
  · exact List.forall_mem_replicate.2 (.inr (finite_of_contains hb hx))

theorem steady_of_multiples (hb : box.check = .ok ()) (hn : box.length < 2 ^ 53)
    (h : ∀ i ∈ box, HasMultiples box.length i.lower ∧ HasMultiples box.length i.upper) :
    box.Steady := by
  have hpos : 0 < box.length := List.length_pos_iff.2 ((check_eq_ok box).1 hb).1
  obtain ⟨hlower, hupper⟩ := contains_corners hb
  have hcorner {x : Vec Float} (hx : box.Contains x) (h : ∀ a ∈ x, HasMultiples box.length a) :
      box.Contains (Vec.centroid box.length (List.replicate box.length x)) := by
    obtain ⟨hle, hge⟩ :=
      Vec.centroid_replicate hpos hn hx.length (finite_of_contains hb hx) h
    exact hx.between hx hle hge
  refine List.forall_mem_cons.2 ⟨?_, List.forall_mem_singleton.2 ?_⟩
  · exact hcorner hlower (List.forall_mem_map.2 fun i hi => (h i hi).1)
  · exact hcorner hupper (List.forall_mem_map.2 fun i hi => (h i hi).2)

example : ¬ Box.Steady (List.replicate 2 ⟨1e308, 1.7e308⟩ : Box Float) := by decide +kernel

end Box

end Optima
