import Optima.Proofs.Cap.Evolution
import Optima.Proofs.Cap.Root
import Optima.Proofs.Cap.Simplex
import Optima.Proofs.Cap.Swarm

namespace Optima

variable {α ι χ : Type} {P : List ι → Report α χ → Prop}

namespace Run

/-- The report of the run, if there is one, stands in this relation to the calls that were made. -/
def Gives (P : List ι → Report α χ → Prop) (run : Run α ι χ) : Prop :=
  ∀ r, run.value = .ok r → P run.calls r

theorem Gives.of_error (e : Failure α) (xs : List ι) : Gives P ⟨.error e, xs⟩ := by
  intro r hr
  cases hr

theorem Gives.accepting {input : Except (Error α) Unit} {run : Unit → Run α ι χ}
    (h : input = .ok () → (run ()).Gives P) : (Run.accepting input run).Gives P := by
  cases input with
  | ok => exact h rfl
  | error e => exact .of_error (.refused e) []

theorem Gives.iterate {σ : Type} {step : σ → Traced ι (σ ⊕ Report α χ)} {I : List ι → σ → Prop}
    (next : ∀ xs t u, I xs t → (step t).value = .inl u → I (xs ++ (step t).calls) u)
    (last : ∀ xs t r, I xs t → (step t).value = .inr r → P (xs ++ (step t).calls) r)
    {t : Traced ι σ} (ht : I t.calls t.value) (n : Nat) :
    (Run.ofIteration (t >>= Traced.iterate step n)).Gives P := by
  intro r hr
  exact Traced.iterate_invariant next last ht (ofIteration_ok.1 hr)

theorem Gives.join_iterate {σ : Type} {step : σ → Traced ι (σ ⊕ Option (Report α χ))}
    {I : List ι → σ → Prop}
    (next : ∀ xs t u, I xs t → (step t).value = .inl u → I (xs ++ (step t).calls) u)
    (last : ∀ xs t r, I xs t → (step t).value = .inr (some r) → P (xs ++ (step t).calls) r)
    {t : Traced ι σ} (ht : I t.calls t.value) (n : Nat) :
    (Run.ofIteration (Option.join <$> (t >>= Traced.iterate step n))).Gives P := by
  intro r hr
  have hsome := Option.join_eq_some_iff.1 (ofIteration_ok.1 hr)
  have hcalls : (Run.ofIteration (Option.join <$> (t >>= Traced.iterate step n))).calls =
      t.calls ++ (Traced.iterate step n t.value).calls := Traced.calls_map _ _
  rw [hcalls]
  refine Traced.iterate_invariant (P := fun xs o => ∀ r, o = some r → P xs r) next ?_ ht hsome r rfl
  rintro xs u _ hu hr r rfl
  exact last xs u r hu hr

end Run

variable [Scalar α]

namespace SimplexSearch

variable {s : SimplexSearch α} {P : List (Vec α) → Report α (Vec α) → Prop}

theorem Runs.gives {xs : List (Vec α)} {run : Run α (Vec α) (Vec α)} (h : s.Runs xs run)
    (hs : s.check = .ok ()) (hloop : ∀ (n : Nat) (simplex : Simplex α),
      simplex.vertices = xs.map (fun x => ⟨s.box.clip x, s.ranked (s.box.clip x)⟩) →
      simplex.vertices.length = s.box.length + 1 → (∀ x ∈ xs, x.length = s.box.length) →
      (Run.ofIteration ((⟨⟨simplex, 0, xs.length, []⟩, simplex.vertices.map (·.point)⟩ :
        Traced (Vec α) (State α)) >>= Traced.iterate s.round n)).Gives P) :
    run.Gives P := by
  obtain ⟨e, rfl⟩ | ⟨n, hlength, hdim, rfl⟩ := h.starts
  · exact .of_error e []
  have hsize : 2 ≤ xs.length := by
    rw [hlength]
    exact Nat.succ_le_succ (List.length_pos_iff.2 ((Box.check_eq_ok _).1 (check_box hs)).1)
  obtain ⟨simplex, hv, hi⟩ := s.initial_some hsize
  rw [trace_eq_of_initial (congrArg Traced.value hi), hi]
  exact hloop n simplex hv (by rw [hv, List.length_map, hlength]) hdim

end SimplexSearch

namespace Swarm

variable {γ : Type} [WordSource γ] {s : Swarm α} {P : List (Vec α) → Report α (Vec α) → Prop}

theorem runFrom_gives {g : γ} (hloop : ∀ start, s.Starts g start → ∀ n,
    (Run.ofIteration (start >>= Traced.iterate s.round n)).Gives P) : (s.runFrom g).Gives P := by
  unfold runFrom
  obtain ⟨e, he⟩ | ⟨start, hstart, he⟩ := s.runWithin_starts s.config.stopping.budget g
  · rw [he]
    exact .of_error e []
  · rw [he]
    exact hloop start hstart _

end Swarm

namespace Evolution

variable {γ : Type} [WordSource γ] {s : Evolution α} {P : List (Vec α) → Report α (Vec α) → Prop}

theorem runFrom_gives {I : List (Vec α) → State α γ → Prop} {g : γ}
    (next : ∀ xs t u, I xs t → (s.round t).value = .inl u → I (xs ++ (s.round t).calls) u)
    (last : ∀ xs t r, I xs t → (s.round t).value = .inr (some r) → P xs r)
    (initial : I s.population (s.initial g).value) : (s.runFrom g).Gives P := by
  unfold runFrom runWithin
  rw [trace_eq]
  refine Run.Gives.join_iterate next ?_ ?_ _
  · intro xs t r ht hr
    rw [(round_inr hr).1, List.append_nil]
    exact last xs t r ht hr
  · rw [initial_eq] at initial ⊢
    exact initial

end Evolution

namespace Newton

variable {s : Newton α} {P : List α → Report α α → Prop}

theorem run_gives {x : α} (hloop : ∀ n, (Run.ofIteration
    ((pure (.initial x) : Traced α (State α)) >>= Traced.iterate s.round n)).Gives P) :
    (s.run x).Gives P := by
  unfold run runWithin
  exact .accepting fun _ => hloop _

end Newton

namespace Bracketing

variable {s : Bracketing α} {P : List α → Report α α → Prop}

theorem run_gives {a b : α}
    (hsettled : ∀ lower upper r, (s.initial lower upper).value.settled? s.config = some r →
      P [lower, upper] r)
    (hloop : ∀ lower upper n, (Run.ofIteration
      (s.initial lower upper >>= Traced.iterate s.round n)).Gives P) : (s.run a b).Gives P := by
  have htrace (n : Nat) (lower upper : α) : (Run.ofIteration (s.trace n lower upper)).Gives P := by
    rw [trace_eq]
    split
    · next r hr =>
      intro r' hr'
      cases hr'
      exact hsettled lower upper r hr
    · exact hloop lower upper n
  unfold run runWithin
  refine .accepting fun _ => ?_
  split
  · exact htrace _ a b
  · exact htrace _ b a

theorem State.settled?_report {c : Config α} {t : State α} {r : Report α α}
    (h : t.settled? c = some r) : r.iterations = t.iteration ∧ r.evaluations = t.evaluations ∧
      r.convergence = t.log.reverse ∧ r.status ≠ .notRun := by
  unfold settled? at h
  dsimp only at h
  repeat' split at h
  all_goals cases h
  all_goals exact ⟨rfl, rfl, rfl, nofun⟩

end Bracketing

end Optima
