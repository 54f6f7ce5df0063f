import Mathlib.Data.List.Infix

namespace transition

section steps

variable {σ ι : Type*} (step : σ → ι → σ → Prop)

/-- The runs of a labelled transition system, with the labels they take. -/
inductive Steps : σ → List ι → σ → Prop where
  | nil (s : σ) : Steps s [] s
  | cons {s s' s'' : σ} {a : ι} {as : List ι} : step s a s' → Steps s' as s'' → Steps s (a :: as) s''

variable {step} {s s' s'' : σ} {a : ι} {as bs : List ι}

theorem Steps.single (h : step s a s') : Steps step s [a] s' := .cons h (.nil s')

theorem Steps.append (h : Steps step s as s') (h' : Steps step s' bs s'') : Steps step s (as ++ bs) s'' := by
  induction h with
  | nil => exact h'
  | cons hstep _ ih => exact .cons hstep (ih h')

/-- A property every step keeps holds at the end of every run that starts with
it. -/
theorem Steps.invariant {Inv : σ → Prop} (hinv : ∀ s a s', Inv s → step s a s' → Inv s')
    (h : Steps step s as s') (hs : Inv s) : Inv s' := by
  induction h with
  | nil => exact hs
  | cons hstep _ ih => exact ih (hinv _ _ _ hs hstep)

/-- A reflexive and transitive relation that every step from a state with the
invariant respects relates the two ends of every such run. -/
theorem Steps.related {Inv : σ → Prop} {R : σ → σ → Prop} (hinv : ∀ s a s', Inv s → step s a s' → Inv s')
    (hrefl : ∀ s, R s s) (htrans : ∀ s s' s'', R s s' → R s' s'' → R s s'')
    (hR : ∀ s a s', Inv s → step s a s' → R s s') (h : Steps step s as s') (hs : Inv s) : R s s' := by
  induction h with
  | nil => exact hrefl _
  | cons hstep _ ih => exact htrans _ _ _ (hR _ _ _ hs hstep) (ih (hinv _ _ _ hs hstep))

end steps

end transition
