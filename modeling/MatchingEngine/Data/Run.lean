import Mathlib.Tactic.TypeStar

/-!
# Running a sequence of commands

A machine applies one command to a state and returns a result with the next state. Running a list
of commands collects the results in order. A machine that may stop without a result simulates a
total one when each of its steps returns and matches a step of the total machine; whole runs then
match as well.

## Main definitions

* `runAll`: the run of a machine whose steps always return.
* `runLog`: the commands of such a run, each with its result.
* `tryRunAll`: the run of a machine whose steps may stop with an error.

## Main results

* `runAll_append`, `length_runAll`, `exists_of_runLog_eq_append`, `exists_of_mem_runLog`.
* `runLog_induction`: what the empty log has and every step adds to, the log of a run has.
* `runAll_invariant`: what every step keeps holds after every run.
* `tryRunAll_filter`: steps that leave the state alone can be left out of a run.
* `tryRunAll_simulates`: simulation of steps gives simulation of runs.
-/

section

variable {σ τ κ ρ ε : Type*}

/-- The results of a sequence of commands, and the state that is left. -/
def runAll (step : σ → κ → ρ × σ) (s : σ) : List κ → List ρ × σ
  | [] => ([], s)
  | k :: ks =>
    let r := runAll step (step s k).2 ks
    ((step s k).1 :: r.1, r.2)

/-- The results of a sequence of commands, if every step returns. -/
def tryRunAll (step : σ → κ → Except ε (ρ × σ)) (s : σ) : List κ → Except ε (List ρ × σ)
  | [] => .ok ([], s)
  | k :: ks =>
    match step s k with
    | .error e => .error e
    | .ok (r, s) => (tryRunAll step s ks).map fun x => (r :: x.1, x.2)

theorem runAll_append (step : σ → κ → ρ × σ) (s : σ) (ks ks' : List κ) :
    runAll step s (ks ++ ks') =
      ((runAll step s ks).1 ++ (runAll step (runAll step s ks).2 ks').1,
        (runAll step (runAll step s ks).2 ks').2) := by
  induction ks generalizing s with
  | nil => rfl
  | cons k ks ih => simp only [List.cons_append, runAll, ih]

theorem length_runAll (step : σ → κ → ρ × σ) (s : σ) (ks : List κ) :
    (runAll step s ks).1.length = ks.length := by
  induction ks generalizing s with
  | nil => rfl
  | cons k ks ih => simp only [runAll, List.length_cons, ih]

/-- The commands of a run, each with its result. -/
def runLog (step : σ → κ → ρ × σ) (s : σ) (ks : List κ) : List (κ × ρ) :=
  ks.zip (runAll step s ks).1

@[simp] theorem runLog_nil (step : σ → κ → ρ × σ) (s : σ) : runLog step s [] = [] := rfl

@[simp] theorem runLog_cons (step : σ → κ → ρ × σ) (s : σ) (k : κ) (ks : List κ) :
    runLog step s (k :: ks) = (k, (step s k).1) :: runLog step (step s k).2 ks := rfl

/-- Induction on a run from a state that satisfies an invariant. -/
theorem runLog_induction {step : σ → κ → ρ × σ} {Inv : σ → Prop}
    {P : σ → List (κ × ρ) → σ → Prop} (hinv : ∀ s k, Inv s → Inv (step s k).2)
    (hnil : ∀ s, Inv s → P s [] s)
    (hcons : ∀ s k log s', Inv s → P (step s k).2 log s' → P s ((k, (step s k).1) :: log) s')
    {s : σ} (hs : Inv s) (ks : List κ) : P s (runLog step s ks) (runAll step s ks).2 := by
  induction ks generalizing s with
  | nil => exact hnil s hs
  | cons k ks ih => exact hcons s k _ _ hs (ih (hinv s k hs))

/-- A log is split where the commands are split. -/
theorem exists_of_runLog_eq_append {step : σ → κ → ρ × σ} {s : σ} {ks : List κ}
    {l₁ l₂ : List (κ × ρ)} (h : runLog step s ks = l₁ ++ l₂) :
    ∃ ks₁ ks₂, ks = ks₁ ++ ks₂ ∧ l₁ = runLog step s ks₁ ∧
      l₂ = runLog step (runAll step s ks₁).2 ks₂ := by
  induction l₁ generalizing s ks with
  | nil => exact ⟨[], ks, rfl, rfl, h.symm⟩
  | cons e l₁ ih =>
    cases ks with
    | nil => cases h
    | cons k ks =>
      rw [runLog_cons, List.cons_append, List.cons.injEq] at h
      obtain ⟨ks₁, ks₂, rfl, rfl, hl₂⟩ := ih h.2
      exact ⟨k :: ks₁, ks₂, rfl, by rw [runLog_cons, h.1], hl₂⟩

/-- Every entry of a log is a step from a state that the run has reached. -/
theorem exists_of_mem_runLog {step : σ → κ → ρ × σ} {s : σ} {ks : List κ} {e : κ × ρ}
    (h : e ∈ runLog step s ks) : ∃ ks₁, e.2 = (step (runAll step s ks₁).2 e.1).1 := by
  obtain ⟨l₁, l₂, hl⟩ := List.append_of_mem h
  obtain ⟨ks₁, ks₂, -, -, hl₂⟩ := exists_of_runLog_eq_append hl
  cases ks₂ with
  | nil => cases hl₂
  | cons k ks₂ =>
    rw [runLog_cons, List.cons.injEq] at hl₂
    exact ⟨ks₁, by rw [hl₂.1]⟩

/-- A property that every step keeps holds after every run. -/
theorem runAll_invariant {step : σ → κ → ρ × σ} {P : σ → Prop}
    (hstep : ∀ s k, P s → P (step s k).2) {s : σ} (h : P s) (ks : List κ) :
    P (runAll step s ks).2 := by
  induction ks generalizing s with
  | nil => exact h
  | cons k ks ih => exact ih (hstep s k h)

/-- Commands whose results say that they have changed nothing can be left out of a run: the others
have the same results, and the run ends in the same state. -/
theorem tryRunAll_filter {step : σ → κ → Except ε (ρ × σ)} {idle : ρ → Bool}
    (hidle : ∀ s k r s', step s k = .ok (r, s') → idle r = true → s' = s) {s s' : σ} {ks : List κ}
    {rs : List ρ} (h : tryRunAll step s ks = .ok (rs, s')) :
    tryRunAll step s (((ks.zip rs).filter fun e => ¬ idle e.2).map Prod.fst) =
      .ok (((ks.zip rs).filter fun e => ¬ idle e.2).map Prod.snd, s') := by
  induction ks generalizing s rs with
  | nil =>
    obtain ⟨rfl, rfl⟩ := Prod.mk.inj (Except.ok.inj h)
    rfl
  | cons k ks ih =>
    rw [tryRunAll] at h
    cases hstep : step s k with
    | error e =>
      rw [hstep] at h
      cases h
    | ok out =>
      obtain ⟨r, s₁⟩ := out
      rw [hstep] at h
      dsimp only at h
      cases hrest : tryRunAll step s₁ ks with
      | error e =>
        rw [hrest] at h
        cases h
      | ok rest =>
        rw [hrest] at h
        obtain ⟨rfl, rfl⟩ := Prod.mk.inj (Except.ok.inj h)
        have ih := ih hrest
        rw [List.zip_cons_cons]
        by_cases hr : idle r = true
        · obtain rfl := hidle s k r s₁ hstep hr
          rwa [List.filter_cons_of_neg (by simpa using hr)]
        · rw [List.filter_cons_of_pos (by simpa using hr), List.map_cons, List.map_cons, tryRunAll,
            hstep]
          dsimp only
          rw [ih]
          rfl

/-- If every step from a state that satisfies `Inv` returns, keeps `Inv`, and does what a step of
the total machine does to the abstract state, then so does every run. -/
theorem tryRunAll_simulates {step : σ → κ → Except ε (ρ × σ)} {step' : τ → κ → ρ × τ}
    {abs : σ → τ} {Inv : σ → Prop}
    (hstep : ∀ s k, Inv s → ∃ s', step s k = .ok ((step' (abs s) k).1, s') ∧ Inv s' ∧
      abs s' = (step' (abs s) k).2) {s : σ} (h : Inv s) (ks : List κ) :
    ∃ s', tryRunAll step s ks = .ok ((runAll step' (abs s) ks).1, s') ∧ Inv s' ∧
      abs s' = (runAll step' (abs s) ks).2 := by
  induction ks generalizing s with
  | nil => exact ⟨s, rfl, h, rfl⟩
  | cons k ks ih =>
    obtain ⟨s₁, h₁, hinv₁, habs₁⟩ := hstep s k h
    obtain ⟨s₂, h₂, hinv₂, habs₂⟩ := ih hinv₁
    refine ⟨s₂, ?_, hinv₂, ?_⟩
    · rw [tryRunAll, h₁]
      dsimp only
      rw [h₂, habs₁]
      rfl
    · rw [habs₂, habs₁]
      rfl

end
