import Mathlib.Data.List.Basic

/-!
# Partial aggregation

Accumulators that are fed batches of rows, and merged with batches of the states of others. A
`MergeTree` says what was fed and merged where. If the operations of an accumulator are the images
of those of another one then so is the state after every tree: `MergeTree.accumulate_eq`.
-/

/-- An accumulator of rows in `ρ`. A batch of states is given by its first state and the others. -/
structure Accumulator (ρ σ : Type) where
  new : σ
  updateBatch : σ → List ρ → σ
  mergeBatch : σ → σ → List σ → σ

/-- How an accumulator got to its state. -/
inductive MergeTree (ρ : Type) where
  | new
  | update (t : MergeTree ρ) (rows : List ρ)
  | merge (t first : MergeTree ρ) (others : List (MergeTree ρ))

namespace MergeTree

variable {ρ σ τ : Type}

mutual

/-- The state of an accumulator. -/
def accumulate (A : Accumulator ρ σ) : MergeTree ρ → σ
  | .new => A.new
  | .update t rows => A.updateBatch (t.accumulate A) rows
  | .merge t first others =>
    A.mergeBatch (t.accumulate A) (first.accumulate A) (accumulateAll A others)

def accumulateAll (A : Accumulator ρ σ) : List (MergeTree ρ) → List σ
  | [] => []
  | t :: ts => t.accumulate A :: accumulateAll A ts

end

/-- The operations of `B` are the images of those of `A`. -/
structure Image (A : Accumulator ρ σ) (f : σ → τ) (B : Accumulator ρ τ) : Prop where
  new : B.new = f A.new
  update : ∀ s rows, B.updateBatch (f s) rows = f (A.updateBatch s rows)
  merge : ∀ s first others,
    B.mergeBatch (f s) (f first) (others.map f) = f (A.mergeBatch s first others)

variable {A : Accumulator ρ σ} {B : Accumulator ρ τ} {f : σ → τ}

mutual

theorem accumulate_eq (h : Image A f B) (t : MergeTree ρ) :
    t.accumulate B = f (t.accumulate A) := by
  cases t with
  | new => exact h.new
  | update t rows => rw [accumulate, accumulate, accumulate_eq h t, h.update]
  | merge t first others =>
    rw [accumulate, accumulate, accumulate_eq h t, accumulate_eq h first,
      accumulateAll_eq h others, h.merge]

theorem accumulateAll_eq (h : Image A f B) (ts : List (MergeTree ρ)) :
    accumulateAll B ts = (accumulateAll A ts).map f := by
  cases ts with
  | nil => rfl
  | cons t ts => rw [accumulateAll, accumulateAll, accumulate_eq h t, accumulateAll_eq h ts,
      List.map_cons]

end

end MergeTree
