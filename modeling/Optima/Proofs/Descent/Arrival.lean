import Optima.Descent.Step
import Optima.Proofs.LineSearch.Outcome

namespace Optima

open LineSearch (Outcome)

variable {α : Type} [Scalar α]

namespace Descent

@[simp] theorem arrive_point (f : LineFunction α) (box : Option (Box α)) (o : Outcome α) :
    (arrive f box o).value.point = clipTo box o.point := by
  unfold arrive
  cases o.gradient <;> rfl

@[simp] theorem arrive_value (f : LineFunction α) (box : Option (Box α)) (o : Outcome α) :
    (arrive f box o).value.value = o.value := by
  unfold arrive
  cases o.gradient <;> rfl

theorem arrive_gradient (f : LineFunction α) (box : Option (Box α)) (o : Outcome α) :
    (arrive f box o).value.gradient =
      o.gradient.getD (f.gradient (clipTo box o.point) o.value).value := by
  unfold arrive
  cases o.gradient <;> rfl

def Iterate.Faithful (f : LineFunction α) (i : Iterate α) : Prop := i.value = f.value i.point

omit [Scalar α] in
theorem Iterate.Faithful.evaluated {f : LineFunction α} (x g : Vec α) :
    Iterate.Faithful f ⟨x, f.value x, g⟩ := rfl

theorem Iterate.search_found (i : Iterate α) (c : LineSearch α) (f : LineFunction α) (d : Vec α) :
    (i.search c f d).value.Found f i.point d i.value :=
  LineSearch.search_found c i.gradient

theorem Iterate.Faithful.found {f : LineFunction α} {i : Iterate α} (h : i.Faithful f)
    (c : LineSearch α) (d : Vec α) :
    (i.search c f d).value.value = f.value (i.search c f d).value.point := by
  have hf := i.search_found c f d
  generalize (i.search c f d).value = o at hf ⊢
  cases hf with
  | unchanged => exact h
  | tried step g hg => rfl

end Descent

end Optima
