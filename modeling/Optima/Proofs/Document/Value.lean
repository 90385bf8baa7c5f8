import Optima.Document.Configs
import Optima.Proofs.Document.Field
import Optima.Proofs.Document.Float

namespace Optima.Document

variable {β : Type}

theorem faithful_float {x : Float} (hx : x.isFinite = true) (h : x.isFinite = true → Rereads x) :
    Faithful readFloat writeFloat x :=
  ⟨(h hx).proper, h hx⟩

theorem faithful_word {n : Nat} (h : n < UInt64.size) : Faithful readWord writeWord n := by
  refine ⟨.number (Numeral.ofNat_proper n), ?_⟩
  have hdigits : Decimal.ofDigits (Numeral.ofNat n).whole = n := by
    by_cases hn : n = 0
    · subst hn
      rfl
    · exact (congrArg Decimal.ofDigits (if_neg hn)).trans (Decimal.ofDigits_digits n)
  change (if _ then _ else _) = _
  rw [hdigits, if_pos]
  simpa [Numeral.isWhole, Numeral.ofNat] using h

class Named.Lawful (β : Type) [Named β] : Prop where
  named?_name (b : β) : named? (Named.name b) = some b

theorem faithful_named [Named β] [Named.Lawful β] (b : β) : Faithful readNamed writeNamed b :=
  ⟨.text _, Named.Lawful.named?_name b⟩

instance : Named.Lawful Goal where
  named?_name b := by cases b <;> decide

instance : Named.Lawful SearchMethod where
  named?_name b := by cases b <;> decide

instance : Named.Lawful Descent.Method where
  named?_name b := by cases b <;> decide

instance : Named.Lawful Swarm.Update where
  named?_name b := by cases b <;> decide

instance : Named.Lawful Evolution.Update where
  named?_name b := by cases b <;> decide

instance : Named.Lawful Bracketing.Method where
  named?_name b := by cases b <;> decide

section Compound

variable {read : Json → Option β} {write : β → Json}

theorem faithful_optional (hnull : read .null = none) {o : Option β}
    (h : ∀ b ∈ o, Faithful read write b) :
    Faithful (readOptional read) (writeOptional write) o := by
  cases o with
  | none => exact ⟨.null, rfl⟩
  | some b =>
    obtain ⟨hproper, hreads⟩ := h b rfl
    refine ⟨hproper, ?_⟩
    rw [writeOptional]
    unfold readOptional
    split
    · next hw =>
      rw [hw, hnull] at hreads
      cases hreads
    · rw [hreads, Option.map_some]

end Compound

theorem faithful_optionalWord {o : Option Nat} (h : ∀ n ∈ o.toList, n < UInt64.size) :
    Faithful (readOptional readWord) (writeOptional writeWord) o :=
  faithful_optional rfl fun n hn => faithful_word (h n (Option.mem_toList.2 hn))

theorem faithful_optionalFloat {o : Option Float} (hfinite : ∀ x ∈ o, x.isFinite = true)
    (h : ∀ x ∈ o.toList, x.isFinite = true → Rereads x) :
    Faithful (readOptional readFloat) (writeOptional writeFloat) o :=
  faithful_optional rfl fun x hx => faithful_float (hfinite x hx) (h x (Option.mem_toList.2 hx))

theorem readStep_write {o : Option Float} (h : ∀ x ∈ o.toList, x.isFinite = true → Rereads x) :
    (writeOptional writeFloat o).Proper ∧
      readStep (writeOptional writeFloat o) = if o.any Float.isFinite then some o else none := by
  cases o with
  | none => exact ⟨.null, rfl⟩
  | some x =>
    have hx := h x List.mem_cons_self
    refine ⟨writeFloat_proper hx, ?_⟩
    rw [writeOptional, readStep, readFloat_writeFloat hx]
    change (if x.isFinite then some x else none).map some = _
    cases hfinite : x.isFinite <;> simp [hfinite]

theorem faithful_interval {i : Interval Float}
    (hlower : Faithful readFloat writeFloat i.lower)
    (hupper : Faithful readFloat writeFloat i.upper) : Faithful readInterval writeInterval i := by
  refine ⟨.array (by simp [hlower.proper, hupper.proper]), ?_⟩
  simp [writeInterval, readInterval, hlower.reads, hupper.reads]

theorem faithful_box {box : Box Float} (h : ∀ i ∈ box, Faithful readInterval writeInterval i) :
    Faithful readBox writeBox box := by
  refine ⟨.array (by simpa using fun i hi => (h i hi).proper), ?_⟩
  change (box.map writeInterval).mapM readInterval = some box
  induction box with
  | nil => rfl
  | cons i box ih =>
    rw [List.forall_mem_cons] at h
    simp [List.mapM_cons, h.1.reads, ih h.2]

end Optima.Document
