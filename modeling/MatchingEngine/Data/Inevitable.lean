import Mathlib.Tactic.TypeStar

/-!
# What every run comes to

A state leads inevitably to a property if every run of steps from it gets there: the property holds
already, or there is a next step and every next state leads to it. So a run can neither stop before
the property holds nor go on for ever without it.

## Main definitions

* `Inevitable`.

## Main results

* `Inevitable.of_measure`: a measure that every step decreases, and a next step wherever the
  property does not hold, make it inevitable.
* `Inevitable.imp`: consequences, under an invariant of the steps.
-/

section

variable {α β : Type*} {step : α → α → Prop} {P Q Inv : α → Prop}

/-- Every run of steps gets to a state with the property. -/
inductive Inevitable (step : α → α → Prop) (P : α → Prop) : α → Prop
  | now {a : α} (h : P a) : Inevitable step P a
  | later {a : α} (hnext : ∃ b, step a b) (h : ∀ b, step a b → Inevitable step P b) :
      Inevitable step P a

theorem Inevitable.of_measure {r : β → β → Prop} (hwf : WellFounded r) (μ : α → β)
    (hinv : ∀ a b, Inv a → step a b → Inv b) (hlt : ∀ a b, Inv a → step a b → r (μ b) (μ a))
    (hnext : ∀ a, Inv a → ¬ P a → ∃ b, step a b) {a : α} (ha : Inv a) :
    Inevitable step P a := by
  induction hm : μ a using hwf.induction generalizing a with
  | h m ih =>
    by_cases hP : P a
    · exact .now hP
    · exact .later (hnext a ha hP) fun b hb =>
        ih (μ b) (hm ▸ hlt a b ha hb) (hinv a b ha hb) rfl

theorem Inevitable.imp (hinv : ∀ a b, Inv a → step a b → Inv b) (himp : ∀ a, Inv a → P a → Q a)
    {a : α} (ha : Inv a) (h : Inevitable step P a) : Inevitable step Q a := by
  induction h with
  | now hP => exact .now (himp _ ha hP)
  | later hnext _ ih => exact .later hnext fun b hb => ih b hb (hinv _ b ha hb)

end
