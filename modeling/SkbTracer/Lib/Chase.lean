import Mathlib.Data.Set.Finite.Basic
import Mathlib.Logic.Relation
import Mathlib.Order.Interval.Set.Infinite

/-!
# Following references until they stop

`next a` is what `a` refers to, if anything. `Ends next a b` says that the references
from `a` on stop at `b`, and `chase` follows them for a number of steps at most.

Where nothing refers to itself in the end and only finitely many things refer at all,
every chain stops. That is the termination argument of every loop of the form "while it is
a reference, take what it refers to", and a program whose loop has no bound of its own
rests on it:

- `Ends.unique`: there is but one end;
- `Ends.chase`: with enough steps `chase` finds it;
- `Acyclic.exists_ends`: where there is no cycle and the references are finitely many,
  there is an end;
- `acyclic_of_lt`: one way to see that there is no cycle, references from numbers to
  smaller ones only.

Chains are of values of any type, and a chain may share its tail with others. `chase`
gives nothing when its steps run out, so a result is the end whatever the bound was.
-/

namespace SkbTracer.Lib

variable {α : Type*} {next : α → Option α} {a b c : α}

/-- Follow the references from `a` on; `none` if they have not stopped in `n` steps. -/
def chase (next : α → Option α) : Nat → α → Option α
  | 0, _ => none
  | n + 1, a =>
    match next a with
    | none => some a
    | some b => chase next n b

/-- The references from `a` on stop at the second. -/
inductive Ends (next : α → Option α) : α → α → Prop
  | stop {a : α} (h : next a = none) : Ends next a a
  | step {a b c : α} (h : next a = some b) (hb : Ends next b c) : Ends next a c

/-- Nothing refers to itself, at any distance. -/
def Acyclic (next : α → Option α) : Prop :=
  ∀ a, ¬ Relation.TransGen (fun a b => next a = some b) a a

/-- References stop at one place only. -/
theorem Ends.unique (h : Ends next a b) (h' : Ends next a c) : b = c := by
  induction h with
  | stop hnone =>
    cases h' with
    | stop _ => rfl
    | step hsome _ =>
      rw [hnone] at hsome
      cases hsome
  | step hsome _ ih =>
    cases h' with
    | stop hnone =>
      rw [hnone] at hsome
      cases hsome
    | step hsome' h' =>
      rw [hsome] at hsome'
      cases hsome'
      exact ih h'

/-- A reference more makes no difference. -/
theorem ends_step_iff (h : next a = some b) : Ends next a c ↔ Ends next b c := by
  constructor
  · intro hends
    cases hends with
    | stop hnone =>
      rw [h] at hnone
      cases hnone
    | step hsome hends =>
      rw [h] at hsome
      cases hsome
      exact hends
  · intro hends
    exact .step h hends

/-- With enough steps the end is found. -/
theorem Ends.chase (h : Ends next a b) : ∃ n, ∀ m, n ≤ m → Lib.chase next m a = some b := by
  induction h with
  | stop hnone =>
    refine ⟨1, fun m hm => ?_⟩
    obtain ⟨k, rfl⟩ : ∃ k, m = k + 1 := ⟨m - 1, by omega⟩
    rw [Lib.chase, hnone]
  | step hsome _ ih =>
    obtain ⟨n, ih⟩ := ih
    refine ⟨n + 1, fun m hm => ?_⟩
    obtain ⟨k, rfl⟩ : ∃ k, m = k + 1 := ⟨m - 1, by omega⟩
    rw [Lib.chase, hsome]
    exact ih k (by omega)

/-- References that go down go nowhere twice. -/
theorem acyclic_of_lt {next : Nat → Option Nat} (h : ∀ a b, next a = some b → b < a) :
    Acyclic next := by
  have hlt : ∀ a b, Relation.TransGen (fun a b => next a = some b) a b → b < a := by
    intro a b hab
    induction hab with
    | single hstep => exact h _ _ hstep
    | tail _ hstep ih => exact Nat.lt_trans (h _ _ hstep) ih
  exact fun a ha => Nat.lt_irrefl a (hlt a a ha)

/-- **Every chain stops**, or else it would never come back and not be finite. -/
theorem Acyclic.exists_ends (h : Acyclic next) (hfin : {a | (next a).isSome = true}.Finite)
    (a : α) : ∃ b, Ends next a b := by
  by_contra hnever
  -- the chain from `a` on: none of its members has an end
  let chain : Nat → α := fun n => Nat.rec a (fun _ x => (next x).getD x) n
  have hstep : ∀ n, (¬ ∃ b, Ends next (chain n) b) → next (chain n) = some (chain (n + 1)) := by
    intro n hn
    rcases hnext : next (chain n) with _ | b
    · exact absurd ⟨_, .stop hnext⟩ hn
    · show some b = some ((next (chain n)).getD (chain n))
      rw [hnext]
      rfl
  have hall : ∀ n, ¬ ∃ b, Ends next (chain n) b := by
    intro n
    induction n with
    | zero => exact hnever
    | succ n ih =>
      intro ⟨b, hb⟩
      exact ih ⟨b, .step (hstep n ih) hb⟩
  have hforward : ∀ m n, m < n →
      Relation.TransGen (fun a b => next a = some b) (chain m) (chain n) := by
    intro m n hmn
    induction n with
    | zero => omega
    | succ n ih =>
      rcases Nat.lt_succ_iff_lt_or_eq.mp hmn with hlt | rfl
      · exact (ih hlt).tail (hstep n (hall n))
      · exact .single (hstep m (hall m))
  have hinj : Function.Injective chain := by
    intro m n hmn
    rcases Nat.lt_trichotomy m n with hlt | heq | hgt
    · exact absurd (hmn ▸ hforward m n hlt) (h _)
    · exact heq
    · exact absurd (hmn ▸ hforward n m hgt) (h _)
  refine Set.infinite_of_injective_forall_mem hinj (fun n => ?_) hfin
  show (next (chain n)).isSome = true
  rw [hstep n (hall n)]
  rfl

end SkbTracer.Lib
