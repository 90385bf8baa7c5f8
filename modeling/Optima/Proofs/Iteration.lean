import Optima.Solver

namespace Optima

namespace Traced

variable {ι σ ρ : Type} {step : σ → Traced ι (σ ⊕ ρ)} {s t u : σ}

theorem bind_eq {β γ : Type} (t : Traced ι β) (k : β → Traced ι γ) :
    t >>= k = ⟨(k t.value).value, t.calls ++ (k t.value).calls⟩ := rfl

theorem call_bind {β γ : Type} (f : ι → β) (x : ι) (k : β → Traced ι γ) :
    call f x >>= k = ⟨(k (f x)).value, x :: (k (f x)).calls⟩ := rfl

theorem length_calls_bind_le {β γ : Type} {t : Traced ι β} {k : β → Traced ι γ} {m n : Nat}
    (ht : t.calls.length ≤ m) (hk : (k t.value).calls.length ≤ n) :
    (t >>= k).calls.length ≤ m + n := by
  rw [calls_bind, List.length_append]
  omega

/-- The step leads from `s` through the states `ts`, one after another, to `t`. -/
inductive Visits (step : σ → Traced ι (σ ⊕ ρ)) (s : σ) : List σ → σ → Prop
  | refl : Visits step s [] s
  | tail {ts : List σ} {t u : σ} : Visits step s ts t → (step t).value = .inl u →
      Visits step s (ts ++ [t]) u

def callsAt (step : σ → Traced ι (σ ⊕ ρ)) (ts : List σ) : List ι :=
  ts.flatMap fun t => (step t).calls

@[simp] theorem callsAt_nil : callsAt step [] = [] := rfl

@[simp] theorem callsAt_cons (t : σ) (ts : List σ) :
    callsAt step (t :: ts) = (step t).calls ++ callsAt step ts := rfl

@[simp] theorem callsAt_append (ts us : List σ) :
    callsAt step (ts ++ us) = callsAt step ts ++ callsAt step us :=
  List.flatMap_append

theorem callsAt_concat (ts : List σ) (t : σ) :
    callsAt step (ts ++ [t]) = callsAt step ts ++ (step t).calls := by
  rw [callsAt_append, callsAt_cons, callsAt_nil, List.append_nil]

theorem Visits.head {ts : List σ} (h : (step s).value = .inl t) (hu : Visits step t ts u) :
    Visits step s (s :: ts) u := by
  induction hu with
  | refl => exact .tail .refl h
  | tail _ hv ih => exact .tail ih hv

/-- An iteration ends at a state it visits, or its budget is spent there. -/
theorem iterate_visits (step : σ → Traced ι (σ ⊕ ρ)) (n : Nat) (s : σ) :
    (∃ ts t r, Visits step s ts t ∧ (step t).value = .inr r ∧
      iterate step n s = ⟨some r, callsAt step (ts ++ [t])⟩) ∨
    ∃ ts t, Visits step s ts t ∧ iterate step n s = ⟨none, callsAt step ts⟩ := by
  induction n generalizing s with
  | zero => exact .inr ⟨[], s, .refl, rfl⟩
  | succ n ih =>
    cases hs : (step s).value with
    | inl s' =>
      rw [iterate_succ_inl hs]
      obtain ⟨ts, t, r, ht, hr, he⟩ | ⟨ts, t, ht, he⟩ := ih s'
      · exact .inl ⟨s :: ts, t, r, ht.head hs, hr, by rw [he]; rfl⟩
      · exact .inr ⟨s :: ts, t, ht.head hs, by rw [he]; rfl⟩
    | inr r =>
      rw [iterate_succ_inr hs]
      exact .inl ⟨[], s, r, .refl, hs, by simp⟩

def path (step : σ → Traced ι (σ ⊕ ρ)) : Nat → σ → List σ
  | 0, _ => []
  | n + 1, s => s :: (step s).value.elim (fun t => path step n t) (fun _ => [])

theorem path_succ_inl (h : (step s).value = .inl t) (n : Nat) :
    path step (n + 1) s = s :: path step n t := by
  rw [path, h]
  rfl

theorem path_succ_inr {r : ρ} (h : (step s).value = .inr r) (n : Nat) :
    path step (n + 1) s = [s] := by
  rw [path, h]
  rfl

theorem iterate_calls (step : σ → Traced ι (σ ⊕ ρ)) (n : Nat) (s : σ) :
    (iterate step n s).calls = callsAt step (path step n s) := by
  induction n generalizing s with
  | zero => rfl
  | succ n ih =>
    cases hs : (step s).value with
    | inl t => rw [iterate_succ_inl hs, path_succ_inl hs, callsAt_cons, ih]
    | inr r => rw [iterate_succ_inr hs, path_succ_inr hs, callsAt_cons, callsAt_nil,
        List.append_nil]

theorem exists_mem_path {n : Nat} {r : ρ} (h : (iterate step n s).value = some r) :
    ∃ t ∈ path step n s, (step t).value = .inr r := by
  induction n generalizing s with
  | zero => cases h
  | succ n ih =>
    cases hs : (step s).value with
    | inl t =>
      rw [iterate_succ_inl hs] at h
      obtain ⟨u, hu, hr⟩ := ih h
      rw [path_succ_inl hs]
      exact ⟨u, List.mem_cons_of_mem s hu, hr⟩
    | inr r' =>
      rw [iterate_succ_inr hs] at h
      cases h
      rw [path_succ_inr hs]
      exact ⟨s, List.mem_singleton_self s, hs⟩

theorem path_invariant {P Q : σ → Prop} (hstep : ∀ t u, P t → Q t → (step t).value = .inl u → P u)
    {n : Nat} (hs : P s) (hq : ∀ t ∈ path step n s, Q t) : ∀ t ∈ path step n s, P t := by
  induction n generalizing s with
  | zero => exact fun t ht => nomatch ht
  | succ n ih =>
    cases h : (step s).value with
    | inl u =>
      rw [path_succ_inl h, List.forall_mem_cons] at hq ⊢
      exact ⟨hs, ih (hstep s u hs hq.1 h) hq.2⟩
    | inr r =>
      rw [path_succ_inr h, List.forall_mem_cons]
      exact ⟨hs, fun t ht => nomatch ht⟩

theorem ofIteration_visits {α χ : Type} (step : σ → Traced ι (σ ⊕ Report α χ)) (n : Nat)
    (t : Traced ι σ) :
    ∃ ts u, Visits step t.value ts u ∧
      ((∃ r, (step u).value = .inr r ∧ Run.ofIteration (t >>= iterate step n) =
        ⟨.ok r, t.calls ++ callsAt step (ts ++ [u])⟩) ∨
      Run.ofIteration (t >>= iterate step n) =
        ⟨.error .unfinished, t.calls ++ callsAt step ts⟩) := by
  obtain ⟨ts, u, r, hu, hr, hi⟩ | ⟨ts, u, hu, hi⟩ := iterate_visits step n t.value
  · refine ⟨ts, u, hu, .inl ⟨r, hr, ?_⟩⟩
    simp only [Run.ofIteration, value_bind, calls_bind, hi]
    rfl
  · refine ⟨ts, u, hu, .inr ?_⟩
    simp only [Run.ofIteration, value_bind, calls_bind, hi]
    rfl

/-- What a step keeps of a state and of all the calls made before it holds at the end. -/
theorem iterate_invariant {I : List ι → σ → Prop} {P : List ι → ρ → Prop}
    (next : ∀ xs t u, I xs t → (step t).value = .inl u → I (xs ++ (step t).calls) u)
    (last : ∀ xs t r, I xs t → (step t).value = .inr r → P (xs ++ (step t).calls) r)
    {xs : List ι} (hs : I xs s) {n : Nat} {r : ρ} (hr : (iterate step n s).value = some r) :
    P (xs ++ (iterate step n s).calls) r := by
  induction n generalizing xs s with
  | zero => cases hr
  | succ n ih =>
    cases ht : (step s).value with
    | inl t =>
      rw [iterate_succ_inl ht] at hr ⊢
      rw [← List.append_assoc]
      exact ih (next xs s t hs ht) hr
    | inr r' =>
      rw [iterate_succ_inr ht] at hr ⊢
      cases hr
      exact last xs s r hs ht

theorem iterate_map {σ σ' ρ ρ' : Type} {step : σ → Traced ι (σ ⊕ ρ)}
    {step' : σ' → Traced ι (σ' ⊕ ρ')} {φ : σ → σ'} {ψ : ρ → ρ'}
    (h : ∀ s, step' (φ s) = Sum.map φ ψ <$> step s) (n : Nat) (s : σ) :
    iterate step' n (φ s) = Option.map ψ <$> iterate step n s := by
  induction n generalizing s with
  | zero => rfl
  | succ n ih =>
    simp only [iterate, h, map_bind, bind_map_left]
    congr 1
    funext r
    cases r with
    | inl s => exact ih s
    | inr r => rfl

theorem iterate_eq_findSome? {u : Nat → σ} {result : Nat → Option ρ}
    (h : ∀ k, (step (u k)).value = (result k).elim (.inl (u (k + 1))) .inr) (n k : Nat) :
    (iterate step n (u k)).value = (List.range' k n).findSome? result := by
  induction n generalizing k with
  | zero => rfl
  | succ n ih =>
    have hk := h k
    rw [List.range'_succ, List.findSome?_cons]
    cases hr : result k with
    | none =>
      rw [hr] at hk
      rw [iterate_succ_inl hk]
      exact ih (k + 1)
    | some r =>
      rw [hr] at hk
      rw [iterate_succ_inr hk]

end Traced

theorem Run.ofIteration_error {α ι χ : Type} {t : Traced ι (Option (Report α χ))}
    {e : Failure α} (h : (Run.ofIteration t).value = .error e) : e = .unfinished := by
  rw [Run.ofIteration] at h
  cases ht : t.value with
  | none =>
    rw [ht] at h
    cases h
    rfl
  | some r =>
    rw [ht] at h
    cases h

theorem findSome?_range_eq_some_iff {β : Type} {f : Nat → Option β} {n : Nat} {b : β} :
    (List.range n).findSome? f = some b ↔
      ∃ t < n, f t = some b ∧ ∀ k < t, f k = none := by
  induction n with
  | zero => simp
  | succ n ih =>
    rw [List.range_succ, List.findSome?_append, Option.or_eq_some_iff, ih,
      List.findSome?_eq_none_iff]
    simp only [List.mem_range, List.findSome?_singleton]
    constructor
    · rintro (⟨t, ht, h⟩ | ⟨hnone, h⟩)
      · exact ⟨t, Nat.lt_succ_of_lt ht, h⟩
      · exact ⟨n, Nat.lt_succ_self n, h, hnone⟩
    · rintro ⟨t, ht, h, hnone⟩
      obtain ht | rfl := Nat.lt_succ_iff_lt_or_eq.1 ht
      · exact .inl ⟨t, ht, h, hnone⟩
      · exact .inr ⟨hnone, h⟩

end Optima
