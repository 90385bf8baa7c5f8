import Optima.Random.Words
import Optima.Traced

namespace Optima

abbrev Sampled (γ ι β : Type) := StateT γ (Traced ι) β

namespace Sampled

variable {γ ι β : Type}

def draw (d : Draw γ β) : Sampled γ ι β := fun g => pure (d g)

def call (f : ι → β) (x : ι) : Sampled γ ι β := fun g => (·, g) <$> Traced.call f x

def isolated {δ : Type} (s : Sampled δ ι β) (g : δ) : Traced ι β := Prod.fst <$> s g

@[simp] theorem run_draw (d : Draw γ β) (g : γ) :
    (draw d : Sampled γ ι β).run g = pure (d.run g) := rfl

@[simp] theorem run_call (f : ι → β) (x : ι) (g : γ) :
    (call f x : Sampled γ ι β).run g = (·, g) <$> Traced.call f x := rfl

end Sampled

end Optima
