import Mathlib.Data.List.Basic

/-!
# Machines and their histories

A machine takes one input after the other; each changes the state and gives an output, or
fails. `answers` has no state: what it gives for an input depends on the inputs before,
all of them. A machine agrees with it if some relation between the inputs so far and the
state is kept by every step (`outputs_eq`). Then its caches show nothing that its history
does not say, and what it has remembered is said by `firstFor`, the first thing that was
ever seen under a key (`firstFor_concat` is what one more input does to it).

`RunsTo` is about machines that any of several parties may move. A run is any order of
steps, and the steps so far are kept, the latest first. A relation between the steps so
far and the state that every step keeps holds in every run (`RunsTo.invariant`); the
induction over runs is there and nowhere else, so a user of this file proves one fact for
the start and one for each kind of step.

- `outputs_eq`: a machine with state gives what the stateless answers are;
- `answers_getElem`: the answer at a place, from the inputs up to there;
- `RunsTo.invariant`: what every step keeps, every run has.

Machines may fail, and `none` ends the run. No fairness is assumed: what should happen in
the end is proved by showing the steps that make it happen.
-/

namespace SkbTracer.Lib

variable {σ ι ο : Type} {step : σ → ι → Option (σ × ο)} {ans : List ι → ι → Option ο}
  {past is : List ι} {s : σ} {os : List ο}

/-- The outputs for a list of inputs, if no step fails. -/
def outputs (step : σ → ι → Option (σ × ο)) : σ → List ι → Option (σ × List ο)
  | s, [] => some (s, [])
  | s, i :: is =>
    (step s i).bind fun r => (outputs step r.1 is).map fun q => (q.1, r.2 :: q.2)

/-- The answers to a list of inputs, after the inputs `past`. -/
def answers (ans : List ι → ι → Option ο) : List ι → List ι → Option (List ο)
  | _, [] => some []
  | past, i :: is =>
    (ans past i).bind fun o => (answers ans (past ++ [i]) is).map fun os => o :: os

/-- One step of the machine does what the history says, and keeps the relation. -/
def Follows (step : σ → ι → Option (σ × ο)) (ans : List ι → ι → Option ο)
    (R : List ι → σ → Prop) : Prop :=
  ∀ past s i, R past s →
    (step s i).map Prod.snd = ans past i ∧ ∀ r, step s i = some r → R (past ++ [i]) r.1

/-- **The machine shows its history.** -/
theorem outputs_eq {R : List ι → σ → Prop} (hR : Follows step ans R) (h : R past s)
    (is : List ι) : (outputs step s is).map Prod.snd = answers ans past is := by
  induction is generalizing past s with
  | nil => rfl
  | cons i is ih =>
    obtain ⟨hans, hnext⟩ := hR past s i h
    rw [outputs, answers, ← hans]
    rcases hstep : step s i with _ | ⟨s', o⟩
    · rfl
    · rw [Option.bind_some, Option.map_some, Option.bind_some, ← ih (hnext _ hstep),
        Option.map_map, Option.map_map]
      rfl

/-- Every input gets one answer. -/
theorem answers_length (h : answers ans past is = some os) : os.length = is.length := by
  induction is generalizing past os with
  | nil =>
    cases h
    rfl
  | cons i is ih =>
    obtain ⟨o, -, h⟩ := Option.bind_eq_some_iff.mp h
    obtain ⟨os', hos, rfl⟩ := Option.map_eq_some_iff.mp h
    exact congrArg Nat.succ (ih hos)

theorem answers_getElem {k : Nat} {i : ι} (h : answers ans past is = some os)
    (hk : is[k]? = some i) : ∃ o, os[k]? = some o ∧ ans (past ++ is.take k) i = some o := by
  induction is generalizing past os k with
  | nil => cases hk
  | cons j is ih =>
    rw [answers] at h
    obtain ⟨o, ho, h⟩ := Option.bind_eq_some_iff.mp h
    obtain ⟨os', hos, rfl⟩ := Option.map_eq_some_iff.mp h
    cases k with
    | zero =>
      obtain rfl : j = i := Option.some.inj hk
      exact ⟨o, rfl, by rwa [List.take_zero, List.append_nil]⟩
    | succ k =>
      obtain ⟨o', ho', hans⟩ := ih hos hk
      exact ⟨o', ho', by rwa [List.take_succ_cons, List.append_cons]⟩

/-! ## Runs in any order of steps -/

section

variable {α : Type} {next : σ → α → Option σ} {init : σ} {acts : List α}

/-- A state, and the steps that led to it, the last one first. -/
inductive RunsTo (next : σ → α → Option σ) (init : σ) : List α → σ → Prop
  | start : RunsTo next init [] init
  | step {acts : List α} {a : α} {s s' : σ} (h : RunsTo next init acts s)
      (hs : next s a = some s') : RunsTo next init (a :: acts) s'

/-- What holds at the start and is kept by every step holds in every run. -/
theorem RunsTo.invariant {I : List α → σ → Prop} (h : RunsTo next init acts s)
    (hinit : I [] init)
    (hkept : ∀ {acts a s s'}, I acts s → next s a = some s' → I (a :: acts) s') : I acts s := by
  induction h with
  | start => exact hinit
  | step _ hs ih => exact hkept ih hs

end

/-! ## What is remembered -/

section

variable {κ α : Type} [DecidableEq κ]

/-- The first value that an input brought for the key. -/
def firstFor (key : ι → κ) (val : ι → Option α) (past : List ι) (k : κ) : Option α :=
  past.findSome? fun i => if key i = k then val i else none

/-- What was brought first stays. -/
theorem firstFor_concat (key : ι → κ) (val : ι → Option α) (past : List ι) (i : ι) (k : κ) :
    firstFor key val (past ++ [i]) k =
      (firstFor key val past k).or (if key i = k then val i else none) := by
  unfold firstFor
  rw [List.findSome?_append, List.findSome?_singleton]

end

end SkbTracer.Lib
