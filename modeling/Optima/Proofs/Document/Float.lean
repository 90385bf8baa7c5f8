import Optima.Document.Value
import Optima.Proofs.Json.RoundTrip
import Optima.Proofs.Scalar.Binary64

namespace Optima

namespace Binary64

open Float.Model
open UnpackedFloat hiding pack unpack
open Decimal

theorem field_word (s : Sign) (e : BitVec 11) (m : BitVec 52) :
    (word s e m).toNat >>> 52 % 2048 = e.toNat := by
  have he : @unpackExponent Format.binary64 (word s e m) = e := unpackExponent_packComponents
  rw [← congrArg BitVec.toNat he]
  simp [unpackExponent]

theorem isFinite_iff_field (x : Float) :
    x.isFinite = true ↔ x.toBits.toNat >>> 52 % 2048 ≠ 2047 := by
  obtain ⟨⟨⟨b⟩, hb⟩⟩ := x
  obtain ⟨s, e, m, rfl⟩ := exists_word b
  change (UnpackedFloat.unpack Format.binary64 (word s e m)).isFinite = true ↔
    (word s e m).toNat >>> 52 % 2048 ≠ 2047
  rw [unpack_word, field_word]
  have he : e = -1#11 ↔ e.toNat = 2047 := BitVec.toNat_inj.symm
  unfold decoded
  split
  · next h =>
    refine iff_of_false ?_ (not_not.2 (he.1 h))
    split <;> exact Bool.false_ne_true
  · next h =>
    refine iff_of_true ?_ (mt he.2 h)
    split
    · split <;> rfl
    · rfl

theorem isFinite_iff_parts (x : Float) :
    x.isFinite = true ↔ ∃ negative m e, parts x = .finite negative m e := by
  rw [isFinite_iff_field]
  unfold parts
  dsimp only
  split
  · next h =>
    refine iff_of_false (not_not.2 h) ?_
    split <;> rintro ⟨_, _, _, h⟩ <;> exact Decimal.Parts.noConfusion h
  · next h =>
    refine iff_of_true h ?_
    split <;> exact ⟨_, _, _, rfl⟩

end Binary64

namespace Decimal

theorem ofGrid_lt (g : Nat) (unit : Int) : ∀ d ∈ (Scientific.ofGrid g unit).digits, d < 10 := by
  intro d hd
  have hmem : d ∈ (digits g).reverse.dropWhile (· == 0) := List.mem_reverse.1 hd
  exact digits_lt g d (List.mem_reverse.1 ((List.dropWhile_sublist _).mem hmem))

theorem shortestFrom_lt (m : Nat) (e point : Int) (fuel count : Nat) :
    ∀ d ∈ (shortestFrom m e point fuel count).digits, d < 10 := by
  induction fuel generalizing count with
  | zero => exact ofGrid_lt 0 count
  | succ fuel ih =>
    unfold shortestFrom
    dsimp only
    split
    · exact ofGrid_lt _ _
    · exact ih (count + 1)

theorem shortest_lt (m : Nat) (e : Int) : ∀ d ∈ (shortest m e).digits, d < 10 :=
  shortestFrom_lt m e _ 17 1

end Decimal

namespace Document

open Decimal

/-- The number in a document is the number that was written. -/
def Rereads (x : Float) : Prop := readFloat (writeFloat x) = some x

instance (x : Float) : Decidable (Rereads x) := by
  unfold Rereads
  infer_instance

theorem writeFloat_of_infinite {x : Float} (h : ¬ x.isFinite = true) : writeFloat x = .null := by
  rw [Binary64.isFinite_iff_parts] at h
  unfold writeFloat Numeral.ofFloat?
  cases hx : parts x with
  | nan => rfl
  | infinite negative => rfl
  | finite negative m e => exact absurd ⟨negative, m, e, hx⟩ h

theorem readFloat_write_none {x : Float} (h : x.isFinite = false) :
    readFloat (writeFloat x) = none := by
  rw [writeFloat_of_infinite (Bool.eq_false_iff.1 h)]
  rfl

theorem float?_of_nil {n : Numeral} (hwhole : n.whole = []) (hfraction : n.fraction = [0]) :
    n.float? = some (Numeral.withSign n.negative 0) := by
  unfold Numeral.float?
  rw [hwhole, hfraction]
  rfl

theorem parts_zero (negative : Bool) :
    parts (Numeral.withSign negative 0) = .finite negative 0 (-1074) := by
  cases negative <;> decide +kernel

theorem Rereads.proper {x : Float} (h : Rereads x) : (writeFloat x).Proper := by
  unfold Rereads writeFloat Numeral.ofFloat? at h
  unfold writeFloat Numeral.ofFloat?
  cases hx : parts x with
  | nan => exact .null
  | infinite negative => exact .null
  | finite negative m e =>
    rw [hx] at h
    cases m with
    | zero => exact .number ⟨by simp, by simp, fun _ => rfl, by simp⟩
    | succ m =>
      have hlt := shortest_lt (m + 1) e
      change (Json.number ⟨negative, (shortest (m + 1) e).digits.take 1, _, _⟩).Proper
      change readFloat (.number ⟨negative, (shortest (m + 1) e).digits.take 1, _, _⟩) = _ at h
      generalize (shortest (m + 1) e).digits = ds at h hlt
      refine .number ⟨?_, fun d hd => hlt d (List.mem_of_mem_take hd), ?_, ?_⟩
      · intro hnil
        obtain rfl : ds = [] := by simpa using hnil
        rw [readFloat, float?_of_nil rfl rfl, Option.some.injEq] at h
        rw [← h, parts_zero] at hx
        injection hx with _ hm
        exact absurd hm (by omega)
      · intro hzero
        cases ds with
        | nil => exact absurd hzero nofun
        | cons d ds => rfl
      · dsimp only
        split
        · simp
        · exact fun d hd => hlt d (List.mem_of_mem_drop hd)

variable {x : Float} (h : x.isFinite = true → Rereads x)
include h

theorem writeFloat_proper : (writeFloat x).Proper := by
  by_cases hx : x.isFinite = true
  · exact (h hx).proper
  · rw [writeFloat_of_infinite hx]
    exact .null

theorem readFloat_writeFloat : readFloat (writeFloat x) = Scalar.finite? x := by
  by_cases hx : x.isFinite = true
  · exact (h hx).trans (if_pos hx).symm
  · rw [writeFloat_of_infinite hx]
    exact (if_neg hx).symm

end Document

end Optima
