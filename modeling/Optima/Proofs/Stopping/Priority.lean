import Mathlib.Data.Nat.PSub
import Optima.Proofs.Ranking
import Optima.Proofs.Scalar.Monotone
import Optima.Proofs.Scalar.Signed
import Optima.Proofs.Scalar.Underflow

/-!
What a verdict says of a history. Each status that stops a run stands for a condition on the values
as they were recorded, the first one first. The verdict is the status of the first condition that
holds, in a fixed order, and there is none when no condition holds.
-/

namespace Optima

open Scalar (Lawful)

namespace Binary64

theorem sub_le_sub_float {a b c : Float} (ha : a.isFinite = true) (h : b ≤ c) :
    a - c ≤ a - b := by
  have hcomm (x : Float) : a - x = -x + a := by
    rw [float_sub_eq]
    exact Scalar.Signed.add_comm a (-x)
  rw [hcomm, hcomm]
  exact add_le_add_float ha ha (Scalar.Extended.neg_le_neg h)
    (Lawful.le_refl (isNaN_of_isFinite ha))

theorem sub_infinity_le {a b : Float} (ha : a.isFinite = true) (hb : b.isNaN = false) :
    a - Scalar.infinity ≤ b := by
  have hinfinity : (-Scalar.infinity : Float).toModel.unpack = .infinity .negative := by
    rw [unpack_neg]
    rfl
  have hsub : (a - Scalar.infinity).toModel.unpack = .infinity .negative := by
    rw [float_sub_eq, ← unpack_infinity_add hinfinity ha]
    exact congrArg (·.toModel.unpack) (Scalar.Signed.add_comm a _)
  refine float_le_iff.2 ⟨?_, hb, ?_⟩
  · change (a - Scalar.infinity).toModel.unpack.isNaN = false
    rw [hsub]
    rfl
  · rw [hsub]
    exact infinity_rank_le _

theorem sub_least_le_iff {a : Float} (ha : a.isFinite = true) {bs : List Float}
    (hbs : ∀ b ∈ bs, b.isFinite = true) {eps : Float} (heps : eps.isNaN = false) :
    a - least bs ≤ eps ↔ ∀ b ∈ bs, ¬ eps < a - b := by
  cases bs with
  | nil => exact iff_of_true (sub_infinity_le ha heps) (List.forall_mem_nil _)
  | cons b bs =>
    have hnan : ∀ c ∈ b :: bs, Scalar.isNaN c = false := fun c hc => isNaN_of_isFinite (hbs c hc)
    obtain ⟨hmem, hle⟩ := least_spec (List.cons_ne_nil b bs) hnan
    constructor
    · intro h c hc hlt
      have hsub : a - c ≤ eps := Lawful.le_trans (sub_le_sub_float ha (hle c hc)) h
      exact (Lawful.lt_iff.1 hlt).2 hsub
    · intro h
      have hsub := sub_rounds ha (hbs _ hmem)
      exact Lawful.le_of_not_lt hsub.isNaN heps (h _ hmem)

end Binary64

namespace Stopping

variable {α : Type} [Scalar α]

/-- The order in which the tests are made, each by the status that it stops with. -/
def order : List Status :=
  [.diverged, .gradientConvergence, .normal, .stationaryFunction, .iterationExceeded]

/-- What each status that stops a run says of the values so far, the first one first. -/
def Applies (c : Stopping α) (iteration : Nat) (history : List α) (gradientNorm : Option α) :
    Status → Prop
  | .diverged => ∃ past a, history = past ++ [a] ∧ Scalar.isFinite a = false
  | .gradientConvergence =>
    ∃ eps norm, c.gradientTolerance = some eps ∧ gradientNorm = some norm ∧ norm < eps
  | .normal => ∃ eps past a b, c.valueTolerance = some eps ∧ history = past ++ [a, b] ∧
      Scalar.abs (b - a) < eps
  | .stationaryFunction => ∃ window past a later, c.plateau = some window ∧
      history = past ++ a :: later ∧ later.length = window ∧
      ∀ b ∈ later, ¬ c.valueTolerance.getD 0 < a - b
  | .iterationExceeded => ∃ cap, c.maxIterations = some cap ∧ cap ≤ iteration
  | .notRun | .badFunction => False

def asks (c : Stopping α) (iteration : Nat) (recent : List α) (gradientNorm : Option α) :
    Status → Bool
  | .diverged => diverged recent
  | .gradientConvergence => c.gradientSmall gradientNorm
  | .normal => c.valueSettled recent
  | .stationaryFunction => c.onPlateau recent
  | .iterationExceeded => c.capReached iteration
  | .notRun | .badFunction => false

theorem verdict_eq_find? (c : Stopping α) (i : Nat) (recent : List α) (norm : Option α) :
    c.verdict i recent norm = order.find? (c.asks i recent norm) := by
  simp only [verdict, order, List.find?_cons, List.find?_nil, asks]
  cases diverged recent <;> cases c.gradientSmall norm <;> cases c.valueSettled recent <;>
    cases c.onPlateau recent <;> cases c.capReached i <;> rfl

variable (c : Stopping α) (i : Nat) (history : List α) (norm : Option α)

theorem diverged_reverse_iff :
    diverged history.reverse = true ↔ c.Applies i history norm .diverged := by
  obtain ⟨recent, rfl⟩ := List.reverse_surjective history
  simp only [Applies, List.reverse_eq_append_iff, List.reverse_reverse, List.reverse_singleton,
    List.singleton_append]
  cases recent with
  | nil => simp [diverged]
  | cons a past =>
    simp only [diverged, Bool.not_eq_true', List.cons.injEq]
    constructor
    · intro h
      exact ⟨past.reverse, a, ⟨rfl, past.reverse_reverse.symm⟩, h⟩
    · rintro ⟨_, _, ⟨rfl, -⟩, h⟩
      exact h

theorem gradientSmall_iff :
    c.gradientSmall norm = true ↔ c.Applies i history norm .gradientConvergence := by
  cases norm <;> cases h : c.gradientTolerance <;> simp [gradientSmall, Applies, h]

theorem valueSettled_iff :
    c.valueSettled history.reverse = true ↔ c.Applies i history norm .normal := by
  obtain ⟨recent, rfl⟩ := List.reverse_surjective history
  simp only [Applies, List.reverse_eq_append_iff, List.reverse_reverse]
  rcases recent with _ | ⟨b, _ | ⟨a, past⟩⟩
  · simp [valueSettled]
  · simp [valueSettled]
  · simp only [valueSettled, Option.any_eq_true, decide_eq_true_eq]
    constructor
    · rintro ⟨eps, heps, h⟩
      exact ⟨eps, past.reverse, a, b, heps, by simp, h⟩
    · rintro ⟨eps, _, _, _, heps, hpast, h⟩
      cases hpast
      exact ⟨eps, heps, h⟩

omit [Scalar α] in
theorem exists_window {window : Nat} {history : List α} (h : window < history.length) :
    ∃ past a later, history = past ++ a :: later ∧ later.length = window := by
  obtain ⟨k, hk⟩ : ∃ k, k = history.length - window - 1 := ⟨_, rfl⟩
  have hlt : k < history.length := by omega
  refine ⟨history.take k, history[k], history.drop (k + 1), ?_, ?_⟩
  · rw [← List.drop_eq_getElem_cons hlt, List.take_append_drop]
  · rw [List.length_drop]
    omega

theorem onPlateau_of_length_le {window : Nat} (h : c.plateau = some window)
    (hle : history.length ≤ window) : c.onPlateau history.reverse = false := by
  have hdrop : history.reverse.drop window = [] :=
    List.drop_eq_nil_of_le (List.length_reverse.trans_le hle)
  simp [onPlateau, h, hdrop]

theorem onPlateau_append {past later : List α} {a : α} (h : c.plateau = some later.length) :
    c.onPlateau (past ++ a :: later).reverse =
      decide (a - least later.reverse ≤ c.valueTolerance.getD 0) := by
  have hreverse : (past ++ a :: later).reverse = later.reverse ++ a :: past.reverse := by simp
  have hlength : later.reverse.length = later.length := List.length_reverse
  simp only [onPlateau, h, Option.any_some, hreverse]
  rw [List.drop_left' hlength, List.take_left' hlength]

def suffixFrom? (history : List α) (k : Nat) : Option (List α) :=
  if k ≤ history.length then some (history.drop k) else none

/-- The plateau test by positions in the history, `none` where one is out of range. -/
def plateauAt? (c : Stopping α) (history : List α) : Option Bool :=
  match c.plateau with
  | none => some false
  | some window =>
    if history.length ≤ window then some false
    else do
      let size ← history.length.psub window
      let start ← size.psub 1
      let trailing ← suffixFrom? history start
      let a ← trailing[0]?
      let later ← suffixFrom? trailing 1
      pure (a - least later ≤ c.valueTolerance.getD 0)

theorem plateauAt?_append {past later : List α} {a : α} (h : c.plateau = some later.length) :
    c.plateauAt? (past ++ a :: later) =
      some (decide (a - least later ≤ c.valueTolerance.getD 0)) := by
  have hlength : (past ++ a :: later).length = past.length + 1 + later.length := by simp; omega
  have hwindow : (past ++ a :: later).length.psub later.length = some (past.length + 1) :=
    Nat.psub_eq_some.2 hlength.symm
  have hstart : (past.length + 1).psub 1 = some past.length := rfl
  have htrailing : suffixFrom? (past ++ a :: later) past.length = some (a :: later) := by
    simp [suffixFrom?]
  have hlater : suffixFrom? (a :: later) 1 = some later := by simp [suffixFrom?]
  have hgt : ¬ (past ++ a :: later).length ≤ later.length := by omega
  simp only [plateauAt?, h, if_neg hgt, hwindow, hstart, htrailing, hlater, Option.bind_eq_bind,
    Option.bind_some]
  rfl

theorem plateauAt?_isSome : (c.plateauAt? history).isSome = true := by
  cases h : c.plateau with
  | none => simp [plateauAt?, h]
  | some window =>
    by_cases hle : history.length ≤ window
    · simp [plateauAt?, h, hle]
    · obtain ⟨past, a, later, rfl, rfl⟩ := exists_window (Nat.lt_of_not_le hle)
      rw [c.plateauAt?_append h]
      rfl

section

variable {c : Stopping Float} (heps : ∀ eps ∈ c.valueTolerance, eps.isNaN = false)
  {history : List Float} (hfinite : ∀ a ∈ history, a.isFinite = true)

include heps hfinite

theorem sub_least_le_tolerance_iff {past later : List Float} {a : Float}
    (h : history = past ++ a :: later) {bs : List Float} (hbs : ∀ b, b ∈ bs ↔ b ∈ later) :
    a - least bs ≤ c.valueTolerance.getD 0 ↔ ∀ b ∈ later, ¬ c.valueTolerance.getD 0 < a - b := by
  subst h
  have htolerance : (c.valueTolerance.getD 0).isNaN = false := by
    cases h : c.valueTolerance with
    | none => decide
    | some eps => exact heps eps h
  have hlater : ∀ b ∈ bs, b.isFinite = true := by
    intro b hb
    refine hfinite b (List.mem_append_right past (List.mem_cons_of_mem a ?_))
    exact (hbs b).1 hb
  rw [Binary64.sub_least_le_iff (hfinite a (by simp)) hlater htolerance]
  simp only [hbs]

theorem plateauAt?_eq : c.plateauAt? history = some (c.onPlateau history.reverse) := by
  cases h : c.plateau with
  | none => simp [plateauAt?, onPlateau, h]
  | some window =>
    by_cases hle : history.length ≤ window
    · rw [c.onPlateau_of_length_le history h hle]
      simp [plateauAt?, h, hle]
    · obtain ⟨past, a, later, rfl, rfl⟩ := exists_window (Nat.lt_of_not_le hle)
      rw [c.plateauAt?_append h, c.onPlateau_append h, Option.some_inj, decide_eq_decide]
      rw [sub_least_le_tolerance_iff heps hfinite rfl fun _ => .rfl,
        sub_least_le_tolerance_iff heps hfinite rfl fun _ => List.mem_reverse]

theorem onPlateau_iff (i : Nat) (norm : Option Float) :
    c.onPlateau history.reverse = true ↔ c.Applies i history norm .stationaryFunction := by
  constructor
  · intro hp
    cases h : c.plateau with
    | none => simp [onPlateau, h] at hp
    | some window =>
      have hlt : window < history.length := by
        refine Nat.lt_of_not_le fun hle => ?_
        rw [c.onPlateau_of_length_le history h hle] at hp
        cases hp
      obtain ⟨past, a, later, hsplit, rfl⟩ := exists_window hlt
      rw [hsplit, c.onPlateau_append h, decide_eq_true_eq] at hp
      exact ⟨_, past, a, later, h, hsplit, rfl,
        (sub_least_le_tolerance_iff heps hfinite hsplit fun _ => List.mem_reverse).1 hp⟩
  · rintro ⟨_, past, a, later, h, hsplit, rfl, hlater⟩
    rw [hsplit, c.onPlateau_append h, decide_eq_true_eq]
    exact (sub_least_le_tolerance_iff heps hfinite hsplit fun _ => List.mem_reverse).2 hlater

end

theorem forall_isFinite_of_not_diverged {c : Stopping Float} {i : Nat} {history : List Float}
    {norm : Option Float} (hfinite : ∀ a ∈ history.dropLast, a.isFinite = true)
    (hd : ¬ c.Applies i history norm .diverged) : ∀ a ∈ history, a.isFinite = true := by
  intro a ha
  obtain rfl | ⟨past, b, rfl⟩ := List.eq_nil_or_concat' history
  · exact absurd ha List.not_mem_nil
  · rw [List.dropLast_concat] at hfinite
    obtain ha | ha := List.mem_append.1 ha
    · exact hfinite a ha
    · rw [List.mem_singleton.1 ha]
      exact eq_true_of_ne_false fun hb => hd ⟨past, b, rfl, hb⟩

theorem asks_iff {c : Stopping Float} (heps : ∀ eps ∈ c.valueTolerance, eps.isNaN = false)
    (i : Nat) {history : List Float} (norm : Option Float) {status : Status}
    (hfinite : status = .stationaryFunction → ∀ a ∈ history, a.isFinite = true) :
    c.asks i history.reverse norm status = true ↔ c.Applies i history norm status := by
  cases status with
  | diverged => exact c.diverged_reverse_iff i history norm
  | gradientConvergence => exact c.gradientSmall_iff i history norm
  | normal => exact c.valueSettled_iff i history norm
  | stationaryFunction => exact onPlateau_iff heps (hfinite rfl) i norm
  | iterationExceeded => exact c.capReached_iff i
  | notRun => exact iff_of_false Bool.false_ne_true id
  | badFunction => exact iff_of_false Bool.false_ne_true id

open Classical in
theorem classify_eq_find? {c : Stopping Float} (heps : ∀ eps ∈ c.valueTolerance, eps.isNaN = false)
    (i : Nat) {history : List Float} (hfinite : ∀ a ∈ history.dropLast, a.isFinite = true)
    (norm : Option Float) :
    c.classify i history norm = order.find? fun s => decide (c.Applies i history norm s) := by
  rw [classify, verdict_eq_find?]
  by_cases hd : c.Applies i history norm .diverged
  · have hasks : c.asks i history.reverse norm .diverged = true :=
      (c.diverged_reverse_iff i history norm).2 hd
    rw [order, List.find?_cons_of_pos hasks]
    simp [hd]
  · have hall := forall_isFinite_of_not_diverged hfinite hd
    congr 1
    funext s
    rw [Bool.eq_iff_iff, decide_eq_true_iff, asks_iff heps i norm fun _ => hall]

/-- The verdict is the status of the first condition of the order that holds, and there is none when
none holds. No position that the plateau test looks up is out of range. -/
theorem classify_first {c : Stopping Float} (heps : ∀ eps ∈ c.valueTolerance, eps.isNaN = false)
    (i : Nat) {history : List Float} (hfinite : ∀ a ∈ history.dropLast, a.isFinite = true)
    (norm : Option Float) :
    (∀ status, c.classify i history norm = some status ↔ c.Applies i history norm status ∧
      ∃ before after, order = before ++ status :: after ∧
        ∀ s ∈ before, ¬ c.Applies i history norm s) ∧
    (c.classify i history norm = none ↔ ∀ s ∈ order, ¬ c.Applies i history norm s) ∧
    (∀ values, (c.plateauAt? values).isSome = true) ∧
    ((∀ a ∈ history, a.isFinite = true) →
      c.plateauAt? history = some (c.onPlateau history.reverse)) := by
  refine ⟨?_, ?_, c.plateauAt?_isSome, plateauAt?_eq heps⟩
  · intro status
    rw [classify_eq_find? heps i hfinite norm, List.find?_eq_some_iff_append]
    simp
  · rw [classify_eq_find? heps i hfinite norm, List.find?_eq_none]
    simp

def lull : Stopping Float := ⟨some 10, some 3, some 0.05, some 1e-8⟩

theorem lull_stationary : (∀ eps ∈ lull.valueTolerance, eps.isNaN = false) ∧
    (∀ a ∈ [2, 2.5, 1.97, 2.1].dropLast, a.isFinite = true) ∧
    lull.classify 10 [2, 2.5, 1.97, 2.1] none = some .stationaryFunction ∧
    lull.Applies 10 [2, 2.5, 1.97, 2.1] none .stationaryFunction := by
  have heps : ∀ eps ∈ lull.valueTolerance, eps.isNaN = false := by decide +kernel
  have hfinite : ∀ a ∈ [2, 2.5, 1.97, 2.1].dropLast, a.isFinite = true := by decide +kernel
  have hverdict : lull.classify 10 [2, 2.5, 1.97, 2.1] none = some .stationaryFunction := by
    decide +kernel
  obtain ⟨hfirst, -⟩ := classify_first heps 10 hfinite none
  exact ⟨heps, hfinite, hverdict, ((hfirst _).1 hverdict).1⟩

end Stopping

end Optima
