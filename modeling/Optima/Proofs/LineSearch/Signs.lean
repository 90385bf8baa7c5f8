import Optima.LineSearch
import Optima.Proofs.Lanes
import Optima.Proofs.Scalar.Signed

namespace Optima

open Scalar (Alike Signed Unsigned isNaN)

variable {α : Type} [Scalar α]

def Scalar.AlikeAt (a c d : α) : Prop :=
  c = d ∨ Unsigned a ∧ (c == 0) = true ∧ (d == 0) = true

open Scalar (AlikeAt)

theorem Scalar.AlikeAt.of_alike {a c d : α} (h : Alike c d) (ha : Unsigned a) : AlikeAt a c d :=
  h.imp_right fun h => ⟨ha, h⟩

theorem Scalar.AlikeAt.alike {a c d : α} (h : AlikeAt a c d) : Alike c d := h.imp_right And.right

theorem Scalar.AlikeAt.trans {a c d e : α} (h : AlikeAt a c d) (h' : AlikeAt a d e) :
    AlikeAt a c e := by
  obtain rfl | ⟨ha, hc, hd⟩ := h
  · exact h'
  · obtain rfl | ⟨-, -, he⟩ := h'
    · exact .inr ⟨ha, hc, hd⟩
    · exact .inr ⟨ha, hc, he⟩

namespace Vec

/-- Directions that lead from `x` to the same points. -/
inductive AlikeAt : Vec α → Vec α → Vec α → Prop
  | refl (x c : Vec α) : AlikeAt x c c
  | cons {a c d : α} {x cs ds : Vec α} : Scalar.AlikeAt a c d → AlikeAt x cs ds →
      AlikeAt (a :: x) (c :: cs) (d :: ds)

theorem AlikeAt.alike {x c d : Vec α} (h : AlikeAt x c d) : List.Forall₂ Alike c d := by
  induction h with
  | refl => exact List.forall₂_same.2 fun a _ => .refl a
  | cons h _ ih => exact .cons h.alike ih

theorem AlikeAt.trans {x c d e : Vec α} (h : AlikeAt x c d) (h' : AlikeAt x d e) :
    AlikeAt x c e := by
  induction h generalizing e with
  | refl => exact h'
  | cons h hs ih =>
    cases h' with
    | refl => exact .cons h hs
    | cons h' hs' => exact .cons (h.trans h') (ih hs')

end Vec

variable [Signed α]

open Scalar (Lawful Ordered)

theorem Scalar.AlikeAt.add_mul_eq {a c d : α} (h : AlikeAt a c d) (t : α) :
    a + c * t = a + d * t := by
  obtain rfl | ⟨ha, hc, hd⟩ := h
  · rfl
  · obtain he | ⟨hct, hdt⟩ := Alike.mul (.inr ⟨hc, hd⟩) (.refl t)
    · rw [he]
    · rw [Signed.add_zero hct ha, Signed.add_zero hdt ha]

theorem Scalar.AlikeAt.next {a c d : α} (h : AlikeAt a c d) (t : α) :
    AlikeAt (a + c * t) c d := by
  obtain rfl | ⟨ha, hc, hd⟩ := h
  · exact .inl rfl
  · refine .inr ⟨?_, hc, hd⟩
    intro hz
    -- The sum is a zero, so that the step was none, and the number stays where it is.
    have hn := (Lawful.isNaN_of_le (Signed.beq_zero_iff.1 hz).1).1
    have hct := Signed.zero_mul hc (Ordered.isNaN_of_add hn).2
    rw [Signed.add_zero hct ha] at hz ⊢
    exact ha hz

theorem Scalar.AlikeAt.mix {a c d : α} (h : AlikeAt a c d) (m g : α) :
    AlikeAt a (c * m - g) (d * m - g) := by
  obtain rfl | ⟨ha, hc, hd⟩ := h
  · exact .inl rfl
  · exact .of_alike (Alike.sub (.mul (.inr ⟨hc, hd⟩) (.refl m)) (.refl g)) ha

namespace Vec

variable {x c d : Vec α}

theorem AlikeAt.along_eq (h : AlikeAt x c d) (t : α) : along x c t = along x d t := by
  induction h with
  | refl => rfl
  | cons h _ ih => exact congrArg₂ List.cons (h.add_mul_eq t) ih

theorem AlikeAt.next (h : AlikeAt x c d) (t : α) : AlikeAt (along x c t) c d := by
  induction h with
  | refl => exact .refl _ _
  | cons h _ ih => exact .cons (h.next t) ih

theorem AlikeAt.mix (h : AlikeAt x c d) (m : α) (g : Vec α) :
    AlikeAt x (sub (scale c m) g) (sub (scale d m) g) := by
  induction h generalizing g with
  | refl => exact .refl _ _
  | cons h _ ih =>
    cases g with
    | nil => exact .refl _ []
    | cons e g => exact .cons (h.mix m e) (ih g)

omit [Signed α] in
theorem isZero_congr (h : List.Forall₂ Alike c d) : isZero c = isZero d := by
  induction h with
  | nil => rfl
  | cons hcd _ ih => exact congrArg₂ and hcd.beq_zero ih

theorem dot_alike {x y z w : Vec α} (h : List.Forall₂ Alike x z) (h' : List.Forall₂ Alike y w) :
    Alike (dot x y) (dot z w) := by
  refine dot_related Alike.add (.refl 0) ?_
  induction h generalizing y w with
  | nil => exact .nil
  | cons hx _ ih =>
    cases h' with
    | nil => exact .nil
    | cons hy h' => exact .cons (hx.mul hy) (ih h')

theorem norm_congr (h : List.Forall₂ Alike c d) : norm c = norm d := by
  have hsquares : List.zipWith (· * ·) c c = List.zipWith (· * ·) d d := by
    induction h with
    | nil => rfl
    | cons hcd _ ih => exact congrArg₂ List.cons hcd.mul_self ih
  rw [norm, dot, hsquares]
  rfl

theorem norm_neg (g : Vec α) : norm (neg g) = norm g := by
  have hsquares : List.zipWith (· * ·) (neg g) (neg g) = List.zipWith (· * ·) g g := by
    induction g with
    | nil => rfl
    | cons a g ih => exact congrArg₂ List.cons (Signed.neg_mul_neg a) ih
  rw [norm, dot, hsquares]
  rfl

end Vec

namespace LineSearch

open Scalar (Alike)

variable {f : LineFunction α} {x c d : Vec α} {value : α}

theorem backtrack_congr (h : Vec.AlikeAt x c d) {accept accept' : α → α → Bool}
    (ha : ∀ trial step, accept trial step = accept' trial step) (n : Nat) (step : α) :
    backtrack f x c value accept n step = backtrack f x d value accept' n step := by
  induction n generalizing step with
  | zero => rfl
  | succ n ih => simp only [backtrack, h.along_eq, ha, ih]

theorem lowest_congr (h : Vec.AlikeAt x c d) (n : Nat) (step : α) (best : Outcome α) :
    lowest f x c n step best = lowest f x d n step best := by
  induction n generalizing step best with
  | zero => rfl
  | succ n ih => simp only [lowest, h.along_eq, ih]

theorem sufficient_congr (s : LineSearch α) {slope slope' : α} (h : Alike slope slope')
    (trial step : α) : s.sufficient value slope trial step = s.sufficient value slope' trial step :=
  decide_eq_decide.2 (Alike.le_right (.add (.refl value) (.mul (.refl (s.c1 * step)) h)))

theorem flat_congr (s : LineSearch α) (strong : Bool) {slope slope' trialSlope trialSlope' : α}
    (h : Alike slope slope') (ht : Alike trialSlope trialSlope') :
    s.flat strong slope trialSlope = s.flat strong slope' trialSlope' := by
  unfold flat
  rw [h.abs, ht.abs]
  split
  · rfl
  · exact decide_eq_decide.2 (Alike.le_iff (.mul (.refl s.c2) h) ht)

theorem wolfe_congr (s : LineSearch α) (strong : Bool) (h : Vec.AlikeAt x c d) {slope slope' : α}
    (hs : Alike slope slope') (n : Nat) (b : Bracket α) :
    wolfe s strong f x c value slope n b = wolfe s strong f x d value slope' n b := by
  induction n generalizing b with
  | zero => rfl
  | succ n ih =>
    have hdot (g : Vec α) : Alike (Vec.dot g c) (Vec.dot g d) :=
      Vec.dot_alike (List.forall₂_same.2 fun a _ => .refl a) h.alike
    have hpos (g : Vec α) : decide (0 < Vec.dot g c) = decide (0 < Vec.dot g d) :=
      decide_eq_decide.2 (Alike.lt_iff (.refl 0) (hdot g))
    simp only [wolfe, h.along_eq, s.sufficient_congr hs, s.flat_congr strong hs (hdot _), hpos, ih]

theorem search_congr (s : LineSearch α) (h : Vec.AlikeAt x c d) (g : Vec α) :
    s.search f x c value g = s.search f x d value g := by
  have hslope : Alike (Vec.dot g c) (Vec.dot g d) :=
    Vec.dot_alike (List.forall₂_same.2 fun a _ => .refl a) h.alike
  have hneg : Vec.dot g c < 0 ↔ Vec.dot g d < 0 := hslope.lt_iff (.refl 0)
  simp only [search, Vec.isZero_congr h.alike, hneg]
  split
  · rfl
  · cases s.method with
    | naive => exact backtrack_congr h (fun _ _ => rfl) _ _
    | armijo => simp only [backtrack_congr h (s.sufficient_congr hslope)]
    | armijoGoldstein => simp only [wolfe_congr s false h hslope]
    | strongWolfe => simp only [wolfe_congr s true h hslope]
    | lowest => exact lowest_congr h _ _ _

end LineSearch

end Optima
