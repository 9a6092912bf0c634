import Mathlib.Data.List.Basic

set_option autoImplicit false

/-!
# Transducers

A transducer reads one symbol after the other and writes some for each. What it writes for a text
is what it writes for the parts, each read from the state that the part before has left.
-/
namespace Ceasy.Transducer

universe u v w

variable {σ : Type u} {α : Type v} {β : Type w}

def transduce (step : σ → α → List β × σ) : σ → List α → List β × σ
  | state, [] => ([], state)
  | state, symbol :: rest =>
    let (first, middle) := step state symbol
    let (second, last) := transduce step middle rest
    (first ++ second, last)

/-- From one state to another, this is read and that is written. -/
def Reads (step : σ → α → List β × σ) (state : σ) (input : List α) (output : List β) (last : σ) : Prop :=
  transduce step state input = (output, last)

instance [DecidableEq σ] [DecidableEq β] (step : σ → α → List β × σ) (state : σ) (input : List α)
    (output : List β) (last : σ) : Decidable (Reads step state input output last) :=
  inferInstanceAs (Decidable (_ = _))

variable {step : σ → α → List β × σ} {state middle last : σ} {symbol : α} {input more : List α}
  {output after : List β}

theorem Reads.nil (step : σ → α → List β × σ) (state : σ) : Reads step state [] [] state := rfl

theorem Reads.cons (hfirst : step state symbol = (output, middle)) (hrest : Reads step middle input after last) :
    Reads step state (symbol :: input) (output ++ after) last := by
  unfold Reads at *
  rw [transduce, hfirst]
  dsimp only
  rw [hrest]

theorem Reads.append (h : Reads step state input output middle) (hmore : Reads step middle more after last) :
    Reads step state (input ++ more) (output ++ after) last := by
  induction input generalizing state output with
  | nil =>
    cases h
    exact hmore
  | cons symbol input ih =>
    unfold Reads at h
    rw [transduce] at h
    cases h
    rw [List.append_assoc]
    exact .cons rfl (ih rfl)

theorem Reads.flatMap {ι : Type*} {items : List ι} {write : ι → List α} {read : ι → List β}
    (h : ∀ item ∈ items, Reads step state (write item) (read item) state) :
    Reads step state (items.flatMap write) (items.flatMap read) state := by
  induction items with
  | nil => exact .nil step state
  | cons item items ih =>
    rw [List.flatMap_cons, List.flatMap_cons]
    exact (h item List.mem_cons_self).append (ih fun other hmem => h other (List.mem_cons_of_mem _ hmem))

end Ceasy.Transducer
