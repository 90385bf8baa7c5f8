import Optima.Proofs.Document.Accepted
import Optima.Proofs.Document.Field
import Optima.Proofs.Document.Value

namespace Optima.Document

instance : Keyed (Stopping Float) := ⟨by decide⟩

instance : Keyed (LineSearch Float) := ⟨by decide⟩

instance : Keyed (Descent.Config Float) := ⟨by decide⟩

instance : Keyed (Simplex.Config Float) := ⟨by decide⟩

instance : Keyed (Swarm.Config Float) := ⟨by decide⟩

instance : Keyed (Evolution.Config Float) := ⟨by decide⟩

instance : Keyed (Newton.Config Float) := ⟨by decide⟩

instance : Keyed (Bracketing.Config Float) := ⟨by decide⟩

class Contents (κ : Type) where
  numbers : κ → List Float
  words : κ → List Nat

export Contents (numbers words)

/-- A configuration that a document can hold: its finite numbers are read back as they are
written, and its counts fit a word. -/
structure Portable {κ : Type} [Contents κ] (c : κ) : Prop where
  rereads : ∀ x ∈ numbers c, x.isFinite = true → Rereads x
  fits : ∀ n ∈ words c, n < UInt64.size

/-- A configuration that is read from its own document when a condition holds; otherwise the
document is refused. -/
structure KeptIf {κ : Type} [Document κ] (p : Bool) (c : κ) : Prop where
  proper : (write c).Proper
  reads : read (write c) = if p then some c else none

section

variable {κ : Type} [Document κ] {c : κ} {p : Bool}

theorem Faithful.parse_eq (h : Faithful read write c) :
    parse (α := Float) (write c).print = .ok c := by
  rw [parse_print h.proper, h.reads]
  rfl

theorem KeptIf.intro (hproper : (write c).Proper) (hkept : p = true → Faithful read write c)
    (hlost : p = false → read (write c) = (none : Option κ)) : KeptIf p c := by
  refine ⟨hproper, ?_⟩
  cases p with
  | false => exact hlost rfl
  | true => exact (hkept rfl).reads

theorem KeptIf.parse_eq (h : KeptIf p c) :
    parse (α := Float) (write c).print = if p then .ok c else .error .unreadable := by
  rw [parse_print h.proper, h.reads]
  cases p <;> rfl

end

instance : Contents (Stopping Float) where
  numbers c := c.valueTolerance.toList ++ c.gradientTolerance.toList
  words c := c.maxIterations.toList ++ c.plateau.toList

theorem stopping_faithful {c : Stopping Float} (h : c.check = .ok ()) (hp : Portable c) :
    Faithful read write c := by
  obtain ⟨hvalue, hgradient⟩ := Stopping.isFinite_of_check h
  obtain ⟨hnumbers, hwords⟩ := hp
  simp only [numbers, words, List.forall_mem_append] at hnumbers hwords
  have hiterations := faithful_optionalWord hwords.1
  have hplateau := faithful_optionalWord hwords.2
  have hvalue := faithful_optionalFloat hvalue hnumbers.1
  have hgradient := faithful_optionalFloat hgradient hnumbers.2
  exact (Restores.cons hiterations (.cons hplateau (.cons hvalue (.cons hgradient .nil)))).faithful

instance : Contents (LineSearch Float) where
  numbers c := c.initialStep :: c.c1 :: c.c2 :: c.maxStep.toList
  words c := [c.maxIterations]

theorem lineSearch_kept {c : LineSearch Float} (h : c.check = .ok ()) (hp : Portable c) :
    KeptIf (c.maxStep.any Float.isFinite) c := by
  obtain ⟨hstep, hone, htwo⟩ := LineSearch.isFinite_of_check h
  obtain ⟨hnumbers, hwords⟩ := hp
  simp only [numbers, words, List.forall_mem_cons] at hnumbers hwords
  have hmethod := faithful_named c.method
  have hstep := faithful_float hstep hnumbers.1
  have hone := faithful_float hone hnumbers.2.1
  have htwo := faithful_float htwo hnumbers.2.2.1
  have hiterations := faithful_word hwords.1
  obtain ⟨hproper, hmax⟩ := readStep_write hnumbers.2.2.2
  refine .intro ?_ ?_ ?_
  · apply write_proper
    simp only [fields, List.forall_mem_cons]
    exact ⟨hmethod.proper, hstep.proper, hproper, hiterations.proper, hone.proper, htwo.proper,
      nofun⟩
  · intro hfinite
    have hmax : Faithful readStep (writeOptional writeFloat) c.maxStep :=
      ⟨hproper, hmax.trans (if_pos hfinite)⟩
    exact (Restores.cons hmethod (.cons hstep (.cons hmax (.cons hiterations (.cons hone
      (.cons htwo .nil)))))).faithful
  · intro hinfinite
    rw [hinfinite] at hmax
    exact read_write_none (List.mem_of_getElem? (i := 2) rfl) hmax

def boxNumbers (box : Box Float) : List Float := box.flatMap fun i => [i.lower, i.upper]

instance : Contents (Descent.Config Float) where
  numbers c := numbers c.lineSearch ++ (numbers c.stopping ++
    (c.bounds.toList.flatMap boxNumbers ++ c.momentum :: c.differenceStep.toList))
  words c := words c.lineSearch ++ words c.stopping

theorem faithful_bounds {o : Option (Box Float)}
    (hfinite : ∀ box ∈ o, ∀ i ∈ box, i.lower.isFinite = true ∧ i.upper.isFinite = true)
    (h : ∀ x ∈ o.toList.flatMap boxNumbers, x.isFinite = true → Rereads x) :
    Faithful (readOptional readBox) (writeOptional writeBox) o := by
  refine faithful_optional rfl fun box hbox => faithful_box fun i hi => ?_
  have hmem {x : Float} (hx : x ∈ [i.lower, i.upper]) : x ∈ o.toList.flatMap boxNumbers :=
    List.mem_flatMap.2 ⟨box, Option.mem_toList.2 hbox, List.mem_flatMap.2 ⟨i, hi, hx⟩⟩
  obtain ⟨hlower, hupper⟩ := hfinite box hbox i hi
  exact faithful_interval (faithful_float hlower (h _ (hmem (by simp))))
    (faithful_float hupper (h _ (hmem (by simp))))

theorem descent_kept {c : Descent.Config Float} (h : c.check = .ok ()) (hp : Portable c) :
    KeptIf (c.lineSearch.maxStep.any Float.isFinite) c := by
  obtain ⟨hmomentum, hstep, hbounds⟩ := Descent.Config.isFinite_of_check h
  obtain ⟨hsearch, hstopping⟩ := Descent.Config.parts_of_check h
  obtain ⟨hsearchNumbers, hnumbers⟩ := List.forall_mem_append.1 hp.rereads
  obtain ⟨hstoppingNumbers, hnumbers⟩ := List.forall_mem_append.1 hnumbers
  obtain ⟨hboundsNumbers, hnumbers⟩ := List.forall_mem_append.1 hnumbers
  obtain ⟨hsearchWords, hstoppingWords⟩ := List.forall_mem_append.1 hp.fits
  rw [List.forall_mem_cons] at hnumbers
  have hmethod := faithful_named c.method
  have hgoal := faithful_named c.goal
  have hmomentum := faithful_float hmomentum hnumbers.1
  have hstep := faithful_optionalFloat hstep hnumbers.2
  have hbounds := faithful_bounds hbounds hboundsNumbers
  have hsearch := lineSearch_kept hsearch ⟨hsearchNumbers, hsearchWords⟩
  have hstopping := stopping_faithful hstopping ⟨hstoppingNumbers, hstoppingWords⟩
  refine .intro ?_ ?_ ?_
  · apply write_proper
    simp only [fields, List.forall_mem_cons]
    exact ⟨hmethod.proper, hgoal.proper, hmomentum.proper, hsearch.proper, hstopping.proper,
      hbounds.proper, hstep.proper, nofun⟩
  · intro hfinite
    have hsearch : Faithful read write c.lineSearch :=
      ⟨hsearch.proper, hsearch.reads.trans (if_pos hfinite)⟩
    exact (Restores.cons hmethod (.cons hgoal (.cons hmomentum (.cons hsearch (.cons hstopping
      (.cons hbounds (.cons hstep .nil))))))).faithful
  · intro hinfinite
    have hlost := hsearch.reads
    rw [hinfinite] at hlost
    exact read_write_none (List.mem_of_getElem? (i := 3) rfl) hlost

instance : Contents (Simplex.Config Float) where
  numbers c := numbers c.stopping ++
    [c.tolerance, c.reflection, c.expansion, c.contraction, c.shrink, c.initialStep]
  words c := words c.stopping

theorem simplex_kept {c : Simplex.Config Float} (h : c.check = .ok ()) (hp : Portable c) :
    KeptIf (c.tolerance.isFinite && c.expansion.isFinite) c := by
  obtain ⟨hreflection, hcontraction, hshrink, hstep, hstopping⟩ :=
    Simplex.Config.isFinite_of_check h
  obtain ⟨hstoppingNumbers, hnumbers⟩ := List.forall_mem_append.1 hp.rereads
  simp only [List.forall_mem_cons] at hnumbers
  obtain ⟨htoleranceN, hreflectionN, hexpansionN, hcontractionN, hshrinkN, hstepN, -⟩ := hnumbers
  have hgoal := faithful_named c.goal
  have hstopping := stopping_faithful hstopping ⟨hstoppingNumbers, hp.fits⟩
  have hcontraction := faithful_float hcontraction hcontractionN
  have hshrink := faithful_float hshrink hshrinkN
  have hstep := faithful_float hstep hstepN
  refine .intro ?_ ?_ ?_
  · apply write_proper
    simp only [fields, List.forall_mem_cons]
    exact ⟨hgoal.proper, writeFloat_proper htoleranceN, hstopping.proper,
      writeFloat_proper hreflectionN, writeFloat_proper hexpansionN, hcontraction.proper,
      hshrink.proper, hstep.proper, nofun⟩
  · intro hfinite
    obtain ⟨htolerance, hexpansion⟩ := Bool.and_eq_true_iff.1 hfinite
    have hreflection := faithful_float (hreflection hexpansion) hreflectionN
    have htolerance := faithful_float htolerance htoleranceN
    have hexpansion := faithful_float hexpansion hexpansionN
    exact (Restores.cons hgoal (.cons htolerance (.cons hstopping (.cons hreflection
      (.cons hexpansion (.cons hcontraction (.cons hshrink (.cons hstep .nil)))))))).faithful
  · intro hinfinite
    obtain htolerance | hexpansion := Bool.and_eq_false_iff.1 hinfinite
    · exact read_write_none (List.mem_of_getElem? (i := 1) rfl) (readFloat_write_none htolerance)
    · exact read_write_none (List.mem_of_getElem? (i := 4) rfl) (readFloat_write_none hexpansion)

instance : Contents (Swarm.Config Float) where
  numbers c := numbers c.stopping ++ [c.inertia, c.cognitive, c.social, c.velocityScale]
  words c := words c.stopping ++ [c.size, c.seed]

theorem swarm_faithful {c : Swarm.Config Float} (h : c.check = .ok ()) (hp : Portable c) :
    Faithful read write c := by
  obtain ⟨hinertia, hcognitive, hsocial, hscale, hstopping⟩ := Swarm.Config.isFinite_of_check h
  obtain ⟨hstoppingNumbers, hnumbers⟩ := List.forall_mem_append.1 hp.rereads
  obtain ⟨hstoppingWords, hwords⟩ := List.forall_mem_append.1 hp.fits
  simp only [List.forall_mem_cons] at hnumbers hwords
  have hgoal := faithful_named c.goal
  have hsize := faithful_word hwords.1
  have hinertia := faithful_float hinertia hnumbers.1
  have hcognitive := faithful_float hcognitive hnumbers.2.1
  have hsocial := faithful_float hsocial hnumbers.2.2.1
  have hscale := faithful_float hscale hnumbers.2.2.2.1
  have hupdate := faithful_named c.update
  have hstopping := stopping_faithful hstopping ⟨hstoppingNumbers, hstoppingWords⟩
  have hseed := faithful_word hwords.2.1
  exact (Restores.cons hgoal (.cons hsize (.cons hinertia (.cons hcognitive (.cons hsocial
    (.cons hscale (.cons hupdate (.cons hstopping (.cons hseed .nil))))))))).faithful

instance : Contents (Evolution.Config Float) where
  numbers c := numbers c.stopping ++ [c.weight, c.crossover]
  words c := words c.stopping ++ c.seed :: c.maxResamples.toList

theorem evolution_faithful {c : Evolution.Config Float} (h : c.check = .ok ())
    (hp : Portable c) : Faithful read write c := by
  obtain ⟨hweight, hcrossover, hstopping⟩ := Evolution.Config.isFinite_of_check h
  obtain ⟨hstoppingNumbers, hnumbers⟩ := List.forall_mem_append.1 hp.rereads
  obtain ⟨hstoppingWords, hwords⟩ := List.forall_mem_append.1 hp.fits
  simp only [List.forall_mem_cons] at hnumbers hwords
  have hgoal := faithful_named c.goal
  have hweight := faithful_float hweight hnumbers.1
  have hcrossover := faithful_float hcrossover hnumbers.2.1
  have hupdate := faithful_named c.update
  have hstopping := stopping_faithful hstopping ⟨hstoppingNumbers, hstoppingWords⟩
  have hresamples := faithful_optionalWord hwords.2
  have hseed := faithful_word hwords.1
  exact (Restores.cons hgoal (.cons hweight (.cons hcrossover (.cons hupdate (.cons hstopping
    (.cons hresamples (.cons hseed .nil))))))).faithful

instance : Contents (Newton.Config Float) where
  numbers c := numbers c.stopping ++
    c.target :: c.tolerance :: c.slopeTolerance :: c.derivativeStep.toList
  words c := words c.stopping

theorem newton_kept {c : Newton.Config Float} (h : c.check = .ok ()) (hp : Portable c) :
    KeptIf (c.tolerance.isFinite && c.slopeTolerance.isFinite) c := by
  obtain ⟨htarget, hstep, hstopping⟩ := Newton.Config.isFinite_of_check h
  obtain ⟨hstoppingNumbers, hnumbers⟩ := List.forall_mem_append.1 hp.rereads
  simp only [List.forall_mem_cons] at hnumbers
  obtain ⟨htargetN, htoleranceN, hslopeN, hstepN⟩ := hnumbers
  have htarget := faithful_float htarget htargetN
  have hstopping := stopping_faithful hstopping ⟨hstoppingNumbers, hp.fits⟩
  have hstep := faithful_optionalFloat hstep hstepN
  refine .intro ?_ ?_ ?_
  · apply write_proper
    simp only [fields, List.forall_mem_cons]
    exact ⟨htarget.proper, writeFloat_proper htoleranceN, writeFloat_proper hslopeN,
      hstopping.proper, hstep.proper, nofun⟩
  · intro hfinite
    obtain ⟨htolerance, hslope⟩ := Bool.and_eq_true_iff.1 hfinite
    have htolerance := faithful_float htolerance htoleranceN
    have hslope := faithful_float hslope hslopeN
    exact (Restores.cons htarget (.cons htolerance (.cons hslope (.cons hstopping
      (.cons hstep .nil))))).faithful
  · intro hinfinite
    obtain htolerance | hslope := Bool.and_eq_false_iff.1 hinfinite
    · exact read_write_none (List.mem_of_getElem? (i := 1) rfl) (readFloat_write_none htolerance)
    · exact read_write_none (List.mem_of_getElem? (i := 2) rfl) (readFloat_write_none hslope)

instance : Contents (Bracketing.Config Float) where
  numbers c := numbers c.stopping ++ [c.target, c.tolerance]
  words c := words c.stopping

theorem bracketing_kept {c : Bracketing.Config Float} (h : c.check = .ok ())
    (hp : Portable c) : KeptIf c.tolerance.isFinite c := by
  obtain ⟨htarget, hstopping⟩ := Bracketing.Config.isFinite_of_check h
  obtain ⟨hstoppingNumbers, hnumbers⟩ := List.forall_mem_append.1 hp.rereads
  simp only [List.forall_mem_cons] at hnumbers
  obtain ⟨htargetN, htoleranceN, -⟩ := hnumbers
  have hmethod := faithful_named c.method
  have htarget := faithful_float htarget htargetN
  have hstopping := stopping_faithful hstopping ⟨hstoppingNumbers, hp.fits⟩
  refine .intro ?_ ?_ ?_
  · apply write_proper
    simp only [fields, List.forall_mem_cons]
    exact ⟨hmethod.proper, htarget.proper, writeFloat_proper htoleranceN, hstopping.proper,
      nofun⟩
  · intro hfinite
    have htolerance := faithful_float hfinite htoleranceN
    exact (Restores.cons hmethod (.cons htarget (.cons htolerance (.cons hstopping .nil)))).faithful
  · intro hinfinite
    exact read_write_none (List.mem_of_getElem? (i := 2) rfl) (readFloat_write_none hinfinite)

end Optima.Document
