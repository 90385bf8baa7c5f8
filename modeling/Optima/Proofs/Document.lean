import Optima.Proofs.Document.Configs

/-!
Configurations are kept as documents. One that is accepted is loaded as it was saved, unless it
holds an infinite number: that is written as `null`, and the document is refused. So the line
search without a limit on its steps, which is the default, cannot be loaded, and neither can
gradient descent with it.
-/

namespace Optima.Document

/-- An accepted configuration that a document can hold is loaded from the document that it is
saved as, as long as its numbers that only have to be positive, or not negative, are finite too.
If they are not, the document is refused. -/
theorem saved_loads (stopping : Stopping Float) (search : LineSearch Float)
    (descent : Descent.Config Float) (simplex : Simplex.Config Float) (swarm : Swarm.Config Float)
    (evolution : Evolution.Config Float) (newton : Newton.Config Float)
    (bracketing : Bracketing.Config Float) :
    (stopping.check = .ok () → Portable stopping →
      parse (α := Float) (write stopping).print = .ok stopping) ∧
    (search.check = .ok () → Portable search →
      parse (α := Float) (write search).print =
        if search.maxStep.any Float.isFinite then .ok search else .error .unreadable) ∧
    (descent.check = .ok () → Portable descent →
      parse (α := Float) (write descent).print =
        if descent.lineSearch.maxStep.any Float.isFinite then .ok descent
        else .error .unreadable) ∧
    (simplex.check = .ok () → Portable simplex →
      parse (α := Float) (write simplex).print =
        if simplex.tolerance.isFinite && simplex.expansion.isFinite then .ok simplex
        else .error .unreadable) ∧
    (swarm.check = .ok () → Portable swarm →
      parse (α := Float) (write swarm).print = .ok swarm) ∧
    (evolution.check = .ok () → Portable evolution →
      parse (α := Float) (write evolution).print = .ok evolution) ∧
    (newton.check = .ok () → Portable newton →
      parse (α := Float) (write newton).print =
        if newton.tolerance.isFinite && newton.slopeTolerance.isFinite then .ok newton
        else .error .unreadable) ∧
    (bracketing.check = .ok () → Portable bracketing →
      parse (α := Float) (write bracketing).print =
        if bracketing.tolerance.isFinite then .ok bracketing else .error .unreadable) := by
  refine ⟨fun h hp => ?_, fun h hp => ?_, fun h hp => ?_, fun h hp => ?_, fun h hp => ?_,
    fun h hp => ?_, fun h hp => ?_, fun h hp => ?_⟩
  · exact (stopping_faithful h hp).parse_eq
  · exact (lineSearch_kept h hp).parse_eq
  · exact (descent_kept h hp).parse_eq
  · exact (simplex_kept h hp).parse_eq
  · exact (swarm_faithful h hp).parse_eq
  · exact (evolution_faithful h hp).parse_eq
  · exact (newton_kept h hp).parse_eq
  · exact (bracketing_kept h hp).parse_eq

def limited : LineSearch Float := { LineSearch.standard with maxStep := some 10 }

def boxed : Descent.Config Float :=
  { (Descent.Config.standard : Descent.Config Float) with
    method := .boxConstrained, lineSearch := limited, bounds := some [⟨-1, 0.5⟩] }

theorem limited_loads :
    parse (α := Float) (write (Stopping.standard (α := Float))).print =
      .ok (Stopping.standard (α := Float)) ∧
    parse (α := Float) (write limited).print = .ok limited ∧
    parse (α := Float) (write boxed).print = .ok boxed ∧
    parse (α := Float) (write (Simplex.Config.standard (α := Float))).print =
      .ok (Simplex.Config.standard (α := Float)) ∧
    parse (α := Float) (write (Swarm.Config.standard (α := Float))).print =
      .ok (Swarm.Config.standard (α := Float)) ∧
    parse (α := Float) (write (Evolution.Config.standard (α := Float))).print =
      .ok (Evolution.Config.standard (α := Float)) ∧
    parse (α := Float) (write (Newton.Config.standard (α := Float))).print =
      .ok (Newton.Config.standard (α := Float)) ∧
    parse (α := Float) (write (Bracketing.Config.standard (α := Float))).print =
      .ok (Bracketing.Config.standard (α := Float)) := by
  obtain ⟨hstopping, hsearch, hdescent, hsimplex, hswarm, hevolution, hnewton, hbracketing⟩ :=
    saved_loads .standard limited boxed .standard .standard .standard .standard .standard
  refine ⟨hstopping ?_ ⟨?_, ?_⟩, hsearch ?_ ⟨?_, ?_⟩, hdescent ?_ ⟨?_, ?_⟩,
    hsimplex ?_ ⟨?_, ?_⟩, hswarm ?_ ⟨?_, ?_⟩, hevolution ?_ ⟨?_, ?_⟩, hnewton ?_ ⟨?_, ?_⟩,
    hbracketing ?_ ⟨?_, ?_⟩⟩
  all_goals decide +kernel

theorem portable_search : Portable (LineSearch.standard (α := Float)) :=
  ⟨by decide +kernel, by decide +kernel⟩

theorem portable_descent : Portable (Descent.Config.standard (α := Float)) :=
  ⟨by decide +kernel, by decide +kernel⟩

/-- The default line search is accepted, and the document that it is saved as is refused; so is
that of gradient descent with its own defaults. -/
theorem unlimited_refused :
    ((LineSearch.standard (α := Float)).check = .ok () ∧
      Portable (LineSearch.standard (α := Float)) ∧
      (parse (write (LineSearch.standard (α := Float))).print :
        Except (Error Float) (LineSearch Float)) = .error .unreadable) ∧
    (Descent.Config.standard (α := Float)).check = .ok () ∧
      Portable (Descent.Config.standard (α := Float)) ∧
      (parse (write (Descent.Config.standard (α := Float))).print :
        Except (Error Float) (Descent.Config Float)) = .error .unreadable := by
  have hsearch : (LineSearch.standard (α := Float)).check = .ok () := by decide +kernel
  have hdescent : (Descent.Config.standard (α := Float)).check = .ok () := by decide +kernel
  exact ⟨⟨hsearch, portable_search, (lineSearch_kept hsearch portable_search).parse_eq⟩,
    hdescent, portable_descent, (descent_kept hdescent portable_descent).parse_eq⟩

end Optima.Document
