/-!
Computations that call a function and remember where. `Traced ι β` pairs a result with the points
at which the function was called, in order; a search writes its objective through `Traced.call`
and so cannot evaluate it unseen.
-/

namespace Optima

structure Traced (ι β : Type) where
  value : β
  calls : List ι

namespace Traced

variable {ι β γ : Type}

def call (f : ι → β) (x : ι) : Traced ι β := ⟨f x, [x]⟩

protected def pure (b : β) : Traced ι β := ⟨b, []⟩

protected def bind (t : Traced ι β) (f : β → Traced ι γ) : Traced ι γ :=
  let u := f t.value
  ⟨u.value, t.calls ++ u.calls⟩

instance : Monad (Traced ι) where
  pure := Traced.pure
  bind := Traced.bind

@[simp] theorem value_pure (b : β) : (pure b : Traced ι β).value = b := rfl

@[simp] theorem calls_pure (b : β) : (pure b : Traced ι β).calls = [] := rfl

@[simp] theorem value_bind (t : Traced ι β) (f : β → Traced ι γ) :
    (t >>= f).value = (f t.value).value := rfl

@[simp] theorem calls_bind (t : Traced ι β) (f : β → Traced ι γ) :
    (t >>= f).calls = t.calls ++ (f t.value).calls := rfl

@[simp] theorem value_map (f : β → γ) (t : Traced ι β) : (f <$> t).value = f t.value := rfl

@[simp] theorem calls_map (f : β → γ) (t : Traced ι β) : (f <$> t).calls = t.calls :=
  List.append_nil _

@[simp] theorem value_call (f : ι → β) (x : ι) : (call f x).value = f x := rfl

@[simp] theorem calls_call (f : ι → β) (x : ι) : (call f x).calls = [x] := rfl

@[ext] theorem ext {t u : Traced ι β} (hv : t.value = u.value) (hc : t.calls = u.calls) :
    t = u := by
  cases t; cases u; simp_all

def metered (t : Traced ι β) (count : Nat) : Traced ι (β × Nat) :=
  ⟨(t.value, count + t.calls.length), t.calls⟩

@[simp] theorem value_metered (t : Traced ι β) (count : Nat) :
    (t.metered count).value = (t.value, count + t.calls.length) := rfl

@[simp] theorem calls_metered (t : Traced ι β) (count : Nat) :
    (t.metered count).calls = t.calls := rfl

instance : LawfulMonad (Traced ι) := LawfulMonad.mk' (Traced ι)
  (by intro β t; ext1 <;> simp)
  (by intro β γ b f; ext1 <;> simp)
  (by intro β γ δ t f g; ext1 <;> simp)

def forEach (f : β → Traced ι γ) : List β → Traced ι (List γ)
  | [] => pure []
  | b :: bs => do
    let c ← f b
    let cs ← forEach f bs
    pure (c :: cs)

@[simp] theorem forEach_nil (f : β → Traced ι γ) : forEach f [] = pure [] := rfl

@[simp] theorem value_forEach (f : β → Traced ι γ) (bs : List β) :
    (forEach f bs).value = bs.map fun b => (f b).value := by
  induction bs with
  | nil => rfl
  | cons b bs ih => simp [forEach, ih]

@[simp] theorem calls_forEach (f : β → Traced ι γ) (bs : List β) :
    (forEach f bs).calls = bs.flatMap fun b => (f b).calls := by
  induction bs with
  | nil => rfl
  | cons b bs ih => simp [forEach, ih]

/-- Repeats a step that ends with a result or hands on a state, at most `budget` times; `none`
when the budget is spent first. -/
def iterate {σ ρ : Type} (step : σ → Traced ι (σ ⊕ ρ)) : Nat → σ → Traced ι (Option ρ)
  | 0, _ => pure none
  | budget + 1, s => do
    match ← step s with
    | .inl s => iterate step budget s
    | .inr r => pure (some r)

theorem iterate_succ_inl {σ ρ : Type} {step : σ → Traced ι (σ ⊕ ρ)} {s s' : σ}
    (h : (step s).value = .inl s') (budget : Nat) :
    iterate step (budget + 1) s =
      ⟨(iterate step budget s').value, (step s).calls ++ (iterate step budget s').calls⟩ := by
  ext1 <;> simp [iterate, h]

theorem iterate_succ_inr {σ ρ : Type} {step : σ → Traced ι (σ ⊕ ρ)} {s : σ} {r : ρ}
    (h : (step s).value = .inr r) (budget : Nat) :
    iterate step (budget + 1) s = ⟨some r, (step s).calls⟩ := by
  ext1 <;> simp [iterate, h]

inductive Reaches {σ ρ : Type} (step : σ → Traced ι (σ ⊕ ρ)) (s : σ) : σ → Prop
  | refl : Reaches step s s
  | tail {t u : σ} : Reaches step s t → (step t).value = .inl u → Reaches step s u

theorem Reaches.head {σ ρ : Type} {step : σ → Traced ι (σ ⊕ ρ)} {s t u : σ}
    (h : (step s).value = .inl t) (hu : Reaches step t u) : Reaches step s u := by
  induction hu with
  | refl => exact .tail .refl h
  | tail _ hv ih => exact .tail ih hv

theorem exists_reaches_of_iterate {σ ρ : Type} {step : σ → Traced ι (σ ⊕ ρ)} {n : Nat} {s : σ}
    {r : ρ} (hr : (iterate step n s).value = some r) :
    ∃ t, Reaches step s t ∧ (step t).value = .inr r := by
  induction n generalizing s with
  | zero => simp [iterate] at hr
  | succ n ih =>
    cases hs : (step s).value with
    | inl s' =>
      rw [iterate_succ_inl hs] at hr
      obtain ⟨t, ht, he⟩ := ih hr
      exact ⟨t, ht.head hs, he⟩
    | inr r' =>
      rw [iterate_succ_inr hs] at hr
      cases hr
      exact ⟨s, .refl, hs⟩

end Traced

end Optima
