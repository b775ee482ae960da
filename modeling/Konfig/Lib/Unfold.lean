import Mathlib.Data.List.Basic

/-!
# Streams that are unfolded

A stream made by a step function from a state: each step yields an item and the next state,
or ends the stream.

* `Unfolds.unique`: a stream that ends yields one list of items.
-/

namespace Lib

variable {σ β : Type}

/-- From the state `s` the stream yields the items and then ends. -/
inductive Unfolds (step : σ → Option (β × σ)) : σ → List β → Prop
  | done {s : σ} : step s = none → Unfolds step s []
  | next {s s' : σ} {b : β} {bs : List β} : step s = some (b, s') → Unfolds step s' bs →
      Unfolds step s (b :: bs)

variable {step : σ → Option (β × σ)}

/-- The last item. -/
theorem Unfolds.last {s s' : σ} {b : β} (h : step s = some (b, s')) (h' : step s' = none) : Unfolds step s [b] :=
  .next h (.done h')

theorem Unfolds.unique {s : σ} {bs : List β} (h : Unfolds step s bs) :
    ∀ {cs}, Unfolds step s cs → bs = cs := by
  induction h with
  | done hstep =>
    intro cs h
    cases h with
    | done _ => rfl
    | next hnext _ =>
      rw [hstep] at hnext
      cases hnext
  | next hstep _ ih =>
    intro cs h
    cases h with
    | done hnone =>
      rw [hstep] at hnone
      cases hnone
    | next hnext hrest =>
      rw [hstep, Option.some.injEq, Prod.mk.injEq] at hnext
      obtain ⟨rfl, rfl⟩ := hnext
      rw [ih hrest]

end Lib
