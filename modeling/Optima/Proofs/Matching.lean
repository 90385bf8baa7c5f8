import Mathlib.Data.List.Forall2
import Optima.Random.Sampled

namespace Optima

variable {ι γ β β' δ δ' : Type} {R : β → β' → Prop} {Q : δ → δ' → Prop}

theorem forall₂_getElem? {bs : List β} {bs' : List β'} (h : List.Forall₂ R bs bs') (i : Nat) :
    Option.Rel R bs[i]? bs'[i]? := by
  induction h generalizing i with
  | nil => exact .none
  | cons hb _ ih =>
    cases i with
    | zero => exact .some hb
    | succ i => exact ih i

theorem forall₂_zipWith {ε ε' : Type} {P : ε → ε' → Prop} {f : β → δ → ε} {f' : β' → δ' → ε'}
    (hf : ∀ {b b' d d'}, R b b' → Q d d' → P (f b d) (f' b' d')) {bs : List β} {bs' : List β'}
    {ds : List δ} {ds' : List δ'} (hb : List.Forall₂ R bs bs') (hd : List.Forall₂ Q ds ds') :
    List.Forall₂ P (List.zipWith f bs ds) (List.zipWith f' bs' ds') := by
  induction hb generalizing ds ds' with
  | nil => exact .nil
  | cons h _ ih =>
    cases hd with
    | nil => exact .nil
    | cons h' hd => exact .cons (hf h h') (ih hd)

namespace Traced

structure Matches (R : β → β' → Prop) (t : Traced ι β) (t' : Traced ι β') : Prop where
  value : R t.value t'.value
  calls : t'.calls = t.calls

namespace Matches

theorem pure {b : β} {b' : β'} (h : R b b') :
    Matches R (Pure.pure b : Traced ι β) (Pure.pure b') :=
  ⟨h, rfl⟩

theorem bind {t : Traced ι β} {t' : Traced ι β'} {f : β → Traced ι δ} {f' : β' → Traced ι δ'}
    (h : Matches R t t') (hf : ∀ b b', R b b' → Matches Q (f b) (f' b')) :
    Matches Q (t >>= f) (t' >>= f') := by
  have hnext := hf _ _ h.value
  refine ⟨hnext.value, ?_⟩
  rw [calls_bind, calls_bind, h.calls, hnext.calls]

theorem bind_self {t : Traced ι β} {f : β → Traced ι δ} {f' : β → Traced ι δ'}
    (h : Matches Q (f t.value) (f' t.value)) : Matches Q (t >>= f) (t >>= f') := by
  refine ⟨h.value, ?_⟩
  rw [calls_bind, calls_bind, h.calls]

theorem map {t : Traced ι β} {t' : Traced ι β'} {f : β → δ} {f' : β' → δ'} (h : Matches R t t')
    (hf : ∀ b b', R b b' → Q (f b) (f' b')) : Matches Q (f <$> t) (f' <$> t') := by
  refine ⟨hf _ _ h.value, ?_⟩
  rw [calls_map, calls_map, h.calls]

theorem call {f : ι → β} {f' : ι → β'} {x : ι} (h : R (f x) (f' x)) :
    Matches R (Traced.call f x) (Traced.call f' x) :=
  ⟨h, rfl⟩

theorem metered {t : Traced ι β} {t' : Traced ι β'} (h : Matches R t t') (count : Nat) :
    Matches (fun p p' => R p.1 p'.1 ∧ p'.2 = p.2) (t.metered count) (t'.metered count) :=
  ⟨⟨h.value, by rw [value_metered, value_metered, h.calls]⟩, h.calls⟩

theorem forEach {P : δ → δ' → Prop} {f : δ → Traced ι β} {f' : δ' → Traced ι β'} {ds : List δ}
    {ds' : List δ'} (hf : ∀ d d', P d d' → Matches R (f d) (f' d')) (h : List.Forall₂ P ds ds') :
    Matches (List.Forall₂ R) (Traced.forEach f ds) (Traced.forEach f' ds') := by
  induction h with
  | nil => exact .pure .nil
  | cons hd _ ih =>
    refine (hf _ _ hd).bind fun b b' hb => ih.bind fun bs bs' hbs => ?_
    exact .pure (.cons hb hbs)

theorem iterate {σ σ' ρ ρ' : Type} {S : σ → σ' → Prop} {P : ρ → ρ' → Prop}
    {step : σ → Traced ι (σ ⊕ ρ)} {step' : σ' → Traced ι (σ' ⊕ ρ')}
    (hstep : ∀ s s', S s s' → Matches (Sum.LiftRel S P) (step s) (step' s')) (n : Nat) {s : σ}
    {s' : σ'} (h : S s s') :
    Matches (Option.Rel P) (Traced.iterate step n s) (Traced.iterate step' n s') := by
  induction n generalizing s s' with
  | zero => exact .pure .none
  | succ n ih =>
    refine (hstep s s' h).bind ?_
    rintro _ _ (hs | hr)
    · exact ih hs
    · exact .pure (.some hr)

theorem iterate_eq_map {σ σ' ρ ρ' : Type} {S : σ → σ' → Prop} {F : ρ → ρ'}
    {step : σ → Traced ι (σ ⊕ ρ)} {step' : σ' → Traced ι (σ' ⊕ ρ')} {t : Traced ι σ}
    {t' : Traced ι σ'} (h : Matches S t t')
    (hstep : ∀ s s', S s s' →
      Matches (Sum.LiftRel S fun r r' => r' = F r) (step s) (step' s')) (n : Nat) :
    t' >>= Traced.iterate step' n = Option.map F <$> (t >>= Traced.iterate step n) := by
  have hrun := h.bind fun s s' hs => iterate hstep n hs
  ext1
  · have hvalue := hrun.value
    rw [value_map]
    generalize (t >>= Traced.iterate step n).value = o at hvalue ⊢
    generalize (t' >>= Traced.iterate step' n).value = o' at hvalue ⊢
    cases hvalue with
    | none => rfl
    | some hr => exact congrArg some hr
  · rw [calls_map]
    exact hrun.calls

end Matches

end Traced

namespace Sampled

def Matches (R : β → β' → Prop) (m : Sampled γ ι β) (m' : Sampled γ ι β') : Prop :=
  ∀ g, Traced.Matches (fun p p' => R p.1 p'.1 ∧ p'.2 = p.2) (m.run g) (m'.run g)

namespace Matches

theorem pure {b : β} {b' : β'} (h : R b b') :
    Matches R (Pure.pure b : Sampled γ ι β) (Pure.pure b') :=
  fun _ => .pure ⟨h, rfl⟩

theorem bind {m : Sampled γ ι β} {m' : Sampled γ ι β'} {f : β → Sampled γ ι δ}
    {f' : β' → Sampled γ ι δ'} (h : Matches R m m')
    (hf : ∀ b b', R b b' → Matches Q (f b) (f' b')) : Matches Q (m >>= f) (m' >>= f') := by
  intro g
  rw [StateT.run_bind, StateT.run_bind]
  refine (h g).bind ?_
  rintro ⟨b, g1⟩ ⟨b', _⟩ ⟨hb, rfl⟩
  exact hf b b' hb _

theorem draw (d : Draw γ β) : Matches Eq (Sampled.draw d : Sampled γ ι β) (Sampled.draw d) :=
  fun _ => .pure ⟨rfl, rfl⟩

theorem call {f : ι → β} {f' : ι → β'} {x : ι} (h : R (f x) (f' x)) :
    Matches R (Sampled.call f x : Sampled γ ι β) (Sampled.call f' x) :=
  fun _ => (Traced.Matches.call h).map fun _ _ hb => ⟨hb, rfl⟩

theorem lift {t : Traced ι β} {t' : Traced ι β'} (h : Traced.Matches R t t') :
    Matches R (StateT.lift t : Sampled γ ι β) (StateT.lift t') :=
  fun _ => h.bind fun _ _ hb => .pure ⟨hb, rfl⟩

theorem isolated {m : Sampled γ ι β} {m' : Sampled γ ι β'} (h : Matches R m m') (g : γ) :
    Traced.Matches R (Sampled.isolated m g) (Sampled.isolated m' g) :=
  (h g).map fun _ _ hp => hp.1

end Matches

end Sampled

end Optima
