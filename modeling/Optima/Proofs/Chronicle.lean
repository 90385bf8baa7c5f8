import Optima.Proofs.Cap.Descent
import Optima.Proofs.Descent.Route
import Optima.Proofs.Reports
import Optima.Proofs.Root.Bracket
import Optima.Proofs.Scalar.Underflow

namespace Optima

open Scalar (Equated Extended Lawful isNaN)

variable {α ι χ : Type} {same : α → α → Prop} {first next : Nat} {v w : α} {log : List (Entry α)}

structure Chronicle (same : α → α → Prop) (first next : Nat) (v : α) (log : List (Entry α)) :
    Prop where
  length : first + log.length = next
  iterations : log.reverse.map (·.iteration) = List.range' first log.length
  last : ∀ e ∈ log.head?, same e.value v

/-- The log of the report counts the iterations from `first` on, and ends with the value that is
reported. -/
structure Report.Chronicled (same : α → α → Prop) (first : Nat) (r : Report α χ) : Prop where
  status : r.status ≠ .notRun
  iterations : r.convergence.map (·.iteration) = List.range' first (r.iterations + 1 - first)
  last : ∀ e ∈ r.convergence.getLast?, same e.value r.value

def Run.Chronicled (same : α → α → Prop) (first : Nat) (run : Run α ι χ) : Prop :=
  run.Gives fun _ r => r.Chronicled same first

theorem Chronicle.nil (first : Nat) (v : α) : Chronicle same first first v [] := by
  refine ⟨rfl, rfl, ?_⟩
  intro e he
  cases he

theorem Chronicle.cons (h : Chronicle same first next v log) {a : α} (ha : same a w) :
    Chronicle same first (next + 1) w (⟨next, a⟩ :: log) := by
  refine ⟨congrArg Nat.succ h.length, ?_, ?_⟩
  · rw [List.reverse_cons, List.map_append, h.iterations, List.length_cons, List.range'_1_concat,
      h.length]
    rfl
  · intro e he
    cases he
    exact ha

theorem Chronicle.report {r : Report α χ} (h : Chronicle same first (r.iterations + 1) r.value log)
    (hlog : r.convergence = log.reverse) (hs : r.status ≠ .notRun) : r.Chronicled same first := by
  have hlength : log.length = r.iterations + 1 - first := by
    rw [← h.length, Nat.add_sub_cancel_left]
  refine ⟨hs, ?_, ?_⟩
  · rw [hlog, h.iterations, hlength]
  · rw [hlog, List.getLast?_reverse]
    exact h.last

theorem Run.Chronicled.iterate {σ : Type} {step : σ → Traced ι (σ ⊕ Report α χ)} {I : σ → Prop}
    (next : ∀ t u, I t → (step t).value = .inl u → I u)
    (last : ∀ t r, I t → (step t).value = .inr r → r.Chronicled same first)
    {t : Traced ι σ} (ht : I t.value) (n : Nat) :
    (Run.ofIteration (t >>= Traced.iterate step n)).Chronicled same first :=
  Run.Gives.iterate (I := fun _ t => I t) (fun _ => next) (fun _ => last) ht n

variable [Scalar α]

theorem Stopping.verdict_ne_notRun {c : Stopping α} {k : Nat} {recent : List α} {norm : Option α}
    {status : Status} (h : c.verdict k recent norm = some status) : status ≠ .notRun := by
  obtain ⟨-, rfl⟩ | ⟨-, rfl⟩ | ⟨-, rfl⟩ | ⟨-, rfl⟩ | ⟨-, rfl⟩ := verdict_cases h
  all_goals decide

namespace Descent

variable {s : Descent α} {x : Vec α}

theorem Trail.verdict_ne_notRun {c : Config α} {t : Trail α} {status : Status}
    (h : t.verdict c = some status) : status ≠ .notRun := by
  unfold verdict at h
  dsimp only at h
  split at h
  · exact Stopping.verdict_ne_notRun h
  · cases h
    decide

theorem Passes.chronicle {t : Trail α} (ht : s.Passes x t) :
    Chronicle (· = ·) 1 (t.iteration + 1) (s.config.goal.orient (t.values.headD Scalar.nan))
      t.log := by
  induction ht with
  | initial =>
    rw [initial_value]
    exact .nil 1 _
  | moved _ _ _ ih => exact ih.cons rfl

theorem Passes.chronicled {t : Trail α} (ht : s.Passes x t) (u : State α) (evaluations : Nat)
    {status : Status} (hs : status ≠ .notRun) :
    (Trail.report s.config { t with state := u, evaluations } status).Chronicled (· = ·) 1 := by
  have h := ht.chronicle
  have hlength : t.log.length = t.iteration :=
    Nat.add_left_cancel (h.length.trans (Nat.add_comm _ _))
  refine Chronicle.report ?_ rfl hs
  rw [← hlength] at h
  exact h

theorem Ends.chronicled {r : Report α (Vec α)} (h : s.Ends x r) : r.Chronicled (· = ·) 1 := by
  cases h with
  | @stopped t status ht hv =>
    exact ht.chronicled t.state t.evaluations (Trail.verdict_ne_notRun hv)
  | stalled ht _ _ => exact ht.chronicled _ _ (by decide)
  | failed ht _ hu =>
    cases advance_failed hu
    exact ht.chronicled _ _ (by decide)

theorem run_chronicled (s : Descent α) (x : Vec α) : (s.run x).Chronicled (· = ·) 1 := by
  intro r hr
  obtain ⟨-, -, hend⟩ := ends_of_runWithin hr
  exact hend.chronicled

end Descent

namespace Swarm

variable {γ : Type} [WordSource γ] {s : Swarm α}

theorem round_status {t : State α γ} {r : Report α (Vec α)} (h : (s.round t).value = .inr r) :
    r.status ≠ .notRun := by
  unfold round at h
  dsimp only at h
  split at h
  · next status hv =>
    cases h
    exact Stopping.verdict_ne_notRun hv
  · cases h

theorem runFrom_chronicled (s : Swarm α) (g : γ) : (s.runFrom g).Chronicled (· = ·) 1 := by
  refine runFrom_gives fun start hstart n => ?_
  refine Run.Chronicled.iterate (I := fun t => Chronicle (· = ·) 1 (t.iteration + 1)
    (s.config.goal.orient t.best.value) t.log) ?_ ?_ ?_ n
  · intro t u ht hu
    rw [(round_inl hu).1]
    exact ht.cons rfl
  · intro t r ht hr
    have hs := round_status hr
    obtain ⟨-, status, rfl⟩ := round_inr hr
    exact ht.report rfl hs
  · cases hstart with
    | intro hp hc hv =>
      rw [initial_eq]
      exact .nil 1 _

end Swarm

namespace Evolution

variable {γ : Type} [WordSource γ] {s : Evolution α}

theorem round_status {t : State α γ} {r : Report α (Vec α)}
    (h : (s.round t).value = .inr (some r)) : r.status ≠ .notRun := by
  obtain ⟨status, he, hs⟩ | ⟨-, ⟨-, he⟩ | ⟨-, he⟩⟩ := s.round_cases t
  · rw [he] at h
    cases h
    obtain ⟨rfl, -⟩ | ⟨rfl, -⟩ := hs <;> exact nofun
  · rw [he] at h
    cases h
  · rw [he] at h
    cases h

theorem runFrom_chronicled (s : Evolution α) (g : γ) : (s.runFrom g).Chronicled (· = ·) 1 := by
  refine runFrom_gives (I := fun _ t => Chronicle (· = ·) 1 (t.iteration + 1)
    (s.config.goal.orient (bestOf t.population).value) t.log) ?_ ?_ (.nil 1 _)
  · intro _ t u ht hu
    rw [(round_inl hu).1]
    exact ht.cons rfl
  · intro _ t r ht hr
    have hs := round_status hr
    obtain ⟨-, status, rfl, -⟩ := round_inr hr
    exact ht.report rfl hs

end Evolution

namespace Newton

variable {s : Newton α}

theorem round_inr {t : State α} {r : Report α α} (h : (s.round t).value = .inr r) :
    r.value = s.function t.point - s.config.target ∧ r.status ≠ .notRun := by
  refine ⟨(value_round_inr h).2.1, fun hs => ?_⟩
  have hend := ends_of_round h
  rwa [hs] at hend

theorem run_chronicled (s : Newton α) (x : α) : (s.run x).Chronicled (· = ·) 0 := by
  refine run_gives fun n => ?_
  refine Run.Chronicled.iterate
    (I := fun t => ∃ v, Chronicle (· = ·) 0 t.iteration v t.log) ?_ ?_ ⟨Scalar.nan, .nil 0 _⟩ n
  · rintro t u ⟨v, ht⟩ hu
    have hlog := s.round_log t
    rw [hu, Sum.elim_inl, ← List.reverse_cons, List.reverse_inj] at hlog
    rw [hlog, (round_next hu).1]
    exact ⟨_, ht.cons rfl⟩
  · rintro t r ⟨v, ht⟩ hr
    have hlog := s.round_log t
    rw [hr, Sum.elim_inr, ← List.reverse_cons] at hlog
    obtain ⟨hvalue, hs⟩ := round_inr hr
    refine Chronicle.report ?_ hlog hs
    rw [(round_last hr).1, hvalue]
    exact ht.cons rfl

end Newton

namespace Bracketing

variable {s : Bracketing α}

theorem round_status {t : State α} {r : Report α α} (h : (s.round t).value = .inr r) :
    r.status ≠ .notRun := by
  rw [round_eq] at h
  dsimp only at h
  repeat' split at h
  all_goals cases h
  all_goals exact nofun

theorem run_chronicled (s : Bracketing α) (a b : α) : (s.run a b).Chronicled (· = ·) 1 := by
  refine run_gives ?_ fun lower upper n => ?_
  · intro lower upper r hr
    obtain ⟨hiterations, -, hlog, hs⟩ := State.settled?_report hr
    refine Chronicle.report ?_ hlog hs
    rw [hiterations]
    exact .nil 1 _
  · refine Run.Chronicled.iterate
      (I := fun t => ∃ v, Chronicle (· = ·) 1 (t.iteration + 1) v t.log) ?_ ?_
      ⟨Scalar.nan, .nil 1 _⟩ n
    · rintro t u ⟨v, ht⟩ hu
      obtain ⟨-, -, -, rfl⟩ := round_inl hu
      exact ⟨_, ht.cons rfl⟩
    · rintro t r ⟨v, ht⟩ hr
      have hlog := s.round_log t
      rw [hr, Sum.elim_inr, ← List.reverse_cons] at hlog
      refine Chronicle.report ?_ hlog (round_status hr)
      rw [(round_last hr).1, (Bracketing.round_inr hr).2.1]
      exact ht.cons rfl

end Bracketing

/-- Two equal numbers, the two zeros among them, or two that are NaN. -/
def Scalar.Agree (a b : α) : Prop := (a == b) = true ∨ isNaN a = true ∧ isNaN b = true

theorem Goal.agree_orient [Equated α] {a b : α} (g : Goal) (h : Scalar.Agree a b) :
    Scalar.Agree (g.orient a) (g.orient b) := by
  cases g with
  | minimize => exact h
  | maximize =>
    obtain heq | ⟨ha, hb⟩ := h
    · obtain ⟨hle, hge⟩ := Equated.beq_iff.1 heq
      exact .inl (Equated.beq_iff.2 ⟨Extended.neg_le_neg hge, Extended.neg_le_neg hle⟩)
    · exact .inr ⟨by rwa [Goal.orient_maximize, Lawful.isNaN_neg],
        by rwa [Goal.orient_maximize, Lawful.isNaN_neg]⟩

namespace SimplexSearch

variable {s : SimplexSearch α}

theorem round_status {t : State α} {r : Report α (Vec α)} (h : (s.round t).value = .inr r) :
    r.status ≠ .notRun := by
  unfold round at h
  dsimp only at h
  split at h
  · rw [call_bind] at h
    dsimp only at h
    repeat' split at h
    all_goals cases h
    all_goals exact nofun
  · cases h
    exact nofun

variable [Equated α]

theorem State.Sound.agree {t : State α} {xs : List (Vec α)} (ht : t.Sound s xs) :
    Scalar.Agree (Optima.least (t.simplex.vertices.map (·.value))) t.simplex.sort.best.value := by
  obtain ⟨b, hb, hleast, hle⟩ := t.simplex.exists_least ht.notNaN
  obtain ⟨hsorted, hperm⟩ := ht.sort
  rw [← hleast]
  refine .inl (Equated.beq_iff.2 ⟨hle _ (hperm.mem_iff.1 t.simplex.sort.best_mem), ?_⟩)
  obtain rfl | hb' := List.mem_cons.1 (hperm.mem_iff.2 hb)
  · exact Lawful.le_refl (ht.notNaN _ hb)
  · exact hsorted.best_le hb'

theorem Runs.chronicled (hs : s.check = .ok ()) {xs : List (Vec α)}
    {run : Run α (Vec α) (Vec α)} (h : s.Runs xs run) : run.Chronicled Scalar.Agree 1 := by
  have hbox := check_box hs
  refine h.gives hs fun n simplex hv _ hdim => ?_
  -- before a round the simplex need not be sorted: its best vertex is the one that sorting finds
  refine Run.Chronicled.iterate (I := fun t => (∃ ys, t.Sound s ys) ∧
    Chronicle Scalar.Agree 1 (t.iteration + 1)
      (s.config.goal.orient t.simplex.sort.best.value) t.log) ?_ ?_ ?_ n
  · rintro t u ⟨⟨ys, ht⟩, hlog⟩ hu
    have hnext := ht.round hbox hu
    refine ⟨⟨_, hnext⟩, ?_⟩
    rw [(round_next hu).1, (round_inl hu).2.2]
    exact hlog.cons (s.config.goal.agree_orient hnext.agree)
  · rintro t r ⟨-, hlog⟩ hr
    obtain ⟨-, hvalue, hconvergence⟩ := round_inr hr
    refine Chronicle.report ?_ hconvergence (round_status hr)
    rw [(round_last hr).1, hvalue]
    exact hlog
  · exact ⟨⟨_, .initial hbox hdim hv rfl⟩, .nil 1 _⟩

end SimplexSearch

/-- Every report, however its run ended: the run has been made, the log has the iterations from the
first one on, or from the start for Newton's method, each once and in order, and its last value is
the value reported. -/
theorem runs_chronicled {γ : Type} [Equated α] [WordSource γ] :
    (∀ (s : Descent α) (start : Vec α), (s.run start).Chronicled (· = ·) 1) ∧
      (∀ s : SimplexSearch α, s.check = .ok () →
        ∀ xs run, s.Runs xs run → run.Chronicled Scalar.Agree 1) ∧
      (∀ s : Swarm α, s.run.Chronicled (· = ·) 1 ∧
        ∀ g : γ, (s.runFrom g).Chronicled (· = ·) 1) ∧
      (∀ s : Evolution α, s.run.Chronicled (· = ·) 1 ∧
        ∀ g : γ, (s.runFrom g).Chronicled (· = ·) 1) ∧
      (∀ (s : Newton α) (start : α), (s.run start).Chronicled (· = ·) 0) ∧
      ∀ (s : Bracketing α) (a b : α), (s.run a b).Chronicled (· = ·) 1 := by
  refine ⟨Descent.run_chronicled, ?_, ?_, ?_, Newton.run_chronicled, Bracketing.run_chronicled⟩
  · intro s hs xs run h
    exact h.chronicled hs
  · intro s
    exact ⟨s.runFrom_chronicled _, s.runFrom_chronicled⟩
  · intro s
    exact ⟨s.runFrom_chronicled _, s.runFrom_chronicled⟩

theorem gutter_chronicled : SimplexSearch.gutter.check = .ok () ∧
    ∃ r, (SimplexSearch.gutter.runStart [1, 1]).value = .ok r ∧ r.Chronicled Scalar.Agree 1 ∧
      r.convergence.map (·.iteration) = [1, 2, 3, 4] := by
  have hgutter : SimplexSearch.gutter.check = .ok () := by decide +kernel
  obtain ⟨-, hsimplex, -⟩ := runs_chronicled (α := Float) (γ := ChaCha)
  have h := hsimplex _ hgutter _ _ (.start _ [1, 1]) _ SimplexSearch.gutter_run
  exact ⟨hgutter, _, SimplexSearch.gutter_run, h, h.iterations⟩

end Optima
