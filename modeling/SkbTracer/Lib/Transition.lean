import Mathlib.Algebra.Ring.Nat

/-!
# Transition systems with an environment

A machine here is a step function `step : ι → σ → Res σ ρ`: in state `s` the
environment answers with a choice `c : ι`, and the machine moves on, stops with
a result, or faults. A deterministic machine takes `ι := Unit`. The choices the
environment may make are those satisfying `adm`.

Two notions carry the proofs that use this file.

* `Until step adm P Q s` — from `s`, whatever the environment answers, the
  machine keeps moving through states satisfying `P` until it stands in a state
  satisfying `Q`. It is built one step at a time, so a straight-line piece of
  code is proved by symbolic execution, and `Until.trans` glues pieces together.
* `UntilPlus` — the same with at least one step.

From them follow the two rules everything else is an instance of:
`invariant_of_cutpoints` (a predicate that holds at cut points and is regained
after every piece of code holds of the states in between) and
`Simulation.outcome` (a target that answers every source step by one or more
steps ends exactly when the source ends, with the matching result).

A run is `run step n ω s`, `n` steps with the answers `ω`: it stands somewhere, has ended,
or has faulted, and longer runs agree with it (`run_done_le`, `run_fault_le`). Divergence
is a run that is at `.next` for every `n`, and `Simulation.next_of_diverges` carries it
over: so a simulation speaks of all three outcomes, and a target that never ends is not
taken for a correct one.
-/

namespace SkbTracer.Lib

/-- What one step of a machine does. -/
inductive Res (σ ρ : Type) where
  | next (s : σ)
  | done (r : ρ)
  | fault
  deriving DecidableEq, Repr

section

variable {ι σ ρ : Type} (step : ι → σ → Res σ ρ) (adm : ι → Prop)

/-- `n` steps from `s`, the environment answering `ω 0, ω 1, …`. A machine that
has stopped or faulted stays so. -/
def run : Nat → (Nat → ι) → σ → Res σ ρ
  | 0, _, s => .next s
  | n + 1, ω, s =>
    match step (ω 0) s with
    | .next s' => run n (fun i => ω (i + 1)) s'
    | .done r => .done r
    | .fault => .fault

/-- The states some run from `s₀` passes through. -/
inductive Reach (s₀ : σ) : σ → Prop
  | refl : Reach s₀ s₀
  | tail {s s' : σ} {c : ι} : Reach s₀ s → adm c → step c s = .next s' → Reach s₀ s'

/-- Every run from here stays in `P` until it stands in `Q`, which it reaches. -/
inductive Until (P Q : σ → Prop) : σ → Prop
  | here {s : σ} : Q s → Until P Q s
  | step {s : σ} (f : ι → σ) : P s → (∀ c, adm c → step c s = .next (f c)) →
      (∀ c, adm c → Until P Q (f c)) → Until P Q s

/-- `Until` with at least one step. -/
def UntilPlus (P Q : σ → Prop) (s : σ) : Prop :=
  P s ∧ ∃ f : ι → σ, (∀ c, adm c → step c s = .next (f c)) ∧
    ∀ c, adm c → Until step adm P Q (f c)

variable {step adm}
variable {P P' Q Q' : σ → Prop} {s : σ}

theorem UntilPlus.until (h : UntilPlus step adm P Q s) : Until step adm P Q s := by
  obtain ⟨hP, f, hf, hu⟩ := h
  exact .step f hP hf hu

theorem Until.mono (h : Until step adm P Q s) (hP : ∀ s, P s → P' s)
    (hQ : ∀ s, Q s → Q' s) : Until step adm P' Q' s := by
  induction h with
  | here hq => exact .here (hQ _ hq)
  | step f hp hf _ ih => exact .step f (hP _ hp) hf ih

/-- Gluing two pieces of code. -/
theorem Until.trans (h : Until step adm P Q s)
    (hQ : ∀ s, Q s → Until step adm P Q' s) : Until step adm P Q' s := by
  induction h with
  | here hq => exact hQ _ hq
  | step f hp hf _ ih => exact .step f hp hf ih

theorem UntilPlus.mono (h : UntilPlus step adm P Q s) (hP : ∀ s, P s → P' s)
    (hQ : ∀ s, Q s → Q' s) : UntilPlus step adm P' Q' s := by
  obtain ⟨hp, f, hf, hu⟩ := h
  exact ⟨hP _ hp, f, hf, fun c hc => (hu c hc).mono hP hQ⟩

/-- A piece of at least one step, and a second piece. -/
theorem UntilPlus.trans (h : UntilPlus step adm P Q s)
    (hQ : ∀ s, Q s → Until step adm P Q' s) : UntilPlus step adm P Q' s := by
  obtain ⟨hp, f, hf, hu⟩ := h
  exact ⟨hp, f, hf, fun c hc => (hu c hc).trans hQ⟩

/-- A first step that the environment has no part in. -/
theorem Reach.head_cases {s₀ s₁ : σ} (h₀ : ∀ c, adm c → step c s₀ = .next s₁)
    (h : Reach step adm s₀ s) : s = s₀ ∨ Reach step adm s₁ s := by
  induction h with
  | refl => exact Or.inl rfl
  | tail _ hc hstep ih =>
    right
    rcases ih with rfl | ih
    · exact Res.next.inj ((h₀ _ hc).symm.trans hstep) ▸ .refl
    · exact ih.tail hc hstep

theorem Reach.eq_of_final {s₀ : σ} (h₀ : ∀ c s', adm c → step c s₀ ≠ .next s')
    (h : Reach step adm s₀ s) : s = s₀ := by
  induction h with
  | refl => rfl
  | tail _ hc hstep ih =>
    subst ih
    exact absurd hstep (h₀ _ _ hc)

/-! ## Cut points -/

/-- If every cut point either is final (no successor) or leads, through states
satisfying `P`, to cut points again, then every reachable state satisfies `P`
and is a cut point or has a successor whatever the environment answers. -/
theorem invariant_of_cutpoints {I : σ → Prop} {s₀ : σ} (h₀ : I s₀)
    (hI : ∀ s, I s → P s ∧ ((∀ c, adm c → ∀ s', step c s ≠ .next s') ∨
      UntilPlus step adm P I s)) {s : σ} (hs : Reach step adm s₀ s) :
    P s ∧ (I s ∨ ∀ c, adm c → ∃ s', step c s = .next s') := by
  have hJ : Until step adm P I s := by
    induction hs with
    | refl => exact .here h₀
    | tail _ hc hstep ih =>
      cases ih with
      | here hi =>
        rcases (hI _ hi).2 with hfin | ⟨_, f, hf, hu⟩
        · exact absurd hstep (hfin _ hc _)
        · have hu := hu _ hc
          rwa [show f _ = _ from Res.next.inj ((hf _ hc).symm.trans hstep)] at hu
      | step f _ hf hu =>
        have hu := hu _ hc
        rwa [show f _ = _ from Res.next.inj ((hf _ hc).symm.trans hstep)] at hu
  cases hJ with
  | here hi => exact ⟨(hI _ hi).1, Or.inl hi⟩
  | step f hp hf _ => exact ⟨hp, Or.inr fun c hc => ⟨f c, hf c hc⟩⟩

/-! ## Runs -/

/-- A run is cut in two; the second part sees the later answers. -/
theorem run_add (m n : Nat) (ω : Nat → ι) (s : σ) {s' : σ}
    (h : run step m ω s = .next s') :
    run step (m + n) ω s = run step n (fun i => ω (i + m)) s' := by
  induction m generalizing ω s with
  | zero =>
    obtain rfl : s = s' := Res.next.inj h
    rw [Nat.zero_add]
    rfl
  | succ m ih =>
    rw [show m + 1 + n = (m + n) + 1 from by omega]
    simp only [run] at h ⊢
    split at h
    next s₁ hs₁ =>
      rw [ih _ _ h]
      congr 1
    next => exact absurd h (by simp)
    next => exact absurd h (by simp)

/-- A machine that has stopped stays stopped. -/
theorem run_done_le {m n : Nat} {ω : Nat → ι} {s : σ} {r : ρ}
    (h : run step m ω s = .done r) (hmn : m ≤ n) : run step n ω s = .done r := by
  induction m generalizing n ω s with
  | zero => exact absurd h (by simp [run])
  | succ m ih =>
    obtain ⟨k, rfl⟩ : ∃ k, n = k + 1 := ⟨n - 1, by omega⟩
    simp only [run] at h ⊢
    split at h
    next => exact ih h (by omega)
    next => exact h
    next => exact absurd h (by simp)

/-- A machine that has faulted stays faulted. -/
theorem run_fault_le {m n : Nat} {ω : Nat → ι} {s : σ}
    (h : run step m ω s = .fault) (hmn : m ≤ n) : run step n ω s = .fault := by
  induction m generalizing n ω s with
  | zero => exact absurd h (by simp [run])
  | succ m ih =>
    obtain ⟨k, rfl⟩ : ∃ k, n = k + 1 := ⟨n - 1, by omega⟩
    simp only [run] at h ⊢
    split at h
    next => exact ih h (by omega)
    next => exact absurd h (by simp)
    next => rfl

/-- A run that stops at step `n + m` after still moving at step `n`. -/
theorem run_of_next {n : Nat} {ω : Nat → ι} {s s' : σ} {m : Nat} {x : Res σ ρ}
    (h : run step n ω s = .next s') (h' : run step m (fun i => ω (i + n)) s' = x) :
    run step (n + m) ω s = x := by
  rw [run_add n m ω s h, h']

/-- Whatever the environment answers, a run gets there. -/
theorem Until.run (h : Until step adm P Q s) :
    ∀ {ω : Nat → ι}, (∀ i, adm (ω i)) →
      ∃ n s', Lib.run step n ω s = .next s' ∧ Q s' := by
  induction h with
  | here hq => exact fun _ => ⟨0, _, rfl, hq⟩
  | step f _ hf _ ih =>
    intro ω hω
    obtain ⟨n, s', hrun, hq⟩ := ih (ω 0) (hω 0) (ω := fun i => ω (i + 1)) (fun i => hω _)
    refine ⟨n + 1, s', ?_, hq⟩
    simp only [Lib.run, hf _ (hω 0)]
    exact hrun

/-- And it takes at least one step to. -/
theorem UntilPlus.run (h : UntilPlus step adm P Q s) {ω : Nat → ι}
    (hω : ∀ i, adm (ω i)) : ∃ n s', Lib.run step (n + 1) ω s = .next s' ∧ Q s' := by
  obtain ⟨_, f, hf, hu⟩ := h
  obtain ⟨n, s', hrun, hq⟩ := (hu (ω 0) (hω 0)).run (ω := fun i => ω (i + 1)) (fun i => hω _)
  refine ⟨n, s', ?_, hq⟩
  simp only [Lib.run, hf _ (hω 0)]
  exact hrun

/-- Every state of an admissible run is reachable. -/
theorem reach_of_run {s₀ : σ} {ω : Nat → ι} (hω : ∀ i, adm (ω i)) {n : Nat} {s' : σ}
    (hs : Reach step adm s₀ s) (h : run step n ω s = .next s') : Reach step adm s₀ s' := by
  induction n generalizing ω s with
  | zero => exact Res.next.inj h ▸ hs
  | succ n ih =>
    simp only [run] at h
    split at h
    next s₁ hs₁ => exact ih (fun i => hω _) (hs.tail (hω 0) hs₁) h
    next => exact absurd h (by simp)
    next => exact absurd h (by simp)

end

/-! ## Simulation -/

section

variable {ι σ τ ρ ρ' : Type}

/-- `n` steps of a deterministic machine. -/
def iter (src : τ → Res τ ρ') (n : Nat) (t : τ) : Res τ ρ' :=
  run (fun _ : Unit => src) n (fun _ => ()) t

theorem iter_succ (src : τ → Res τ ρ') (n : Nat) (t : τ) :
    iter src (n + 1) t =
      match src t with
      | .next t' => iter src n t'
      | .done r => .done r
      | .fault => .fault := rfl

/-- Two machines that take the same step wherever the first one gets end alike. -/
theorem iter_congr {src src' : τ → Res τ ρ'} {t₀ : τ}
    (h : ∀ t, Reach (fun _ : Unit => src) (fun _ => True) t₀ t → src' t = src t) (n : Nat) :
    iter src' n t₀ = iter src n t₀ := by
  suffices hfrom : ∀ t, Reach (fun _ : Unit => src) (fun _ => True) t₀ t →
      iter src' n t = iter src n t from hfrom t₀ .refl
  induction n with
  | zero => exact fun _ _ => rfl
  | succ n ih =>
    intro t ht
    rw [iter_succ, iter_succ, h t ht]
    cases hstep : src t with
    | next t' => exact ih t' (ht.tail (c := ()) trivial hstep)
    | done v => rfl
    | fault => rfl

/-- The target answers every step of the deterministic source by one or more
steps of its own, stops with `f v` when the source stops with `v`, and the
source never faults where the relation holds. -/
structure Simulation (src : τ → Res τ ρ') (step : ι → σ → Res σ ρ) (adm : ι → Prop)
    (f : ρ' → ρ) (R : τ → σ → Prop) : Prop where
  next : ∀ {t s t'}, R t s → src t = .next t' →
    UntilPlus step adm (fun _ => True) (R t') s
  done : ∀ {t s v}, R t s → src t = .done v →
    Until step adm (fun _ => True) (fun s' => ∀ c, adm c → step c s' = .done (f v)) s
  noFault : ∀ {t s}, R t s → src t ≠ .fault

variable {src : τ → Res τ ρ'} {step : ι → σ → Res σ ρ} {adm : ι → Prop} {f : ρ' → ρ}
  {R : τ → σ → Prop}

/-- A source that stops makes the target stop, with the matching result. -/
theorem Simulation.done_of_done (S : Simulation src step adm f R) {m : Nat} {t : τ} {v : ρ'}
    (hm : iter src m t = .done v) :
    ∀ {s : σ} {ω : Nat → ι}, R t s → (∀ i, adm (ω i)) → ∃ n, run step n ω s = .done (f v) := by
  induction m generalizing t with
  | zero => exact absurd hm (by simp [iter, run])
  | succ m ih =>
    intro s ω hR hω
    rw [iter_succ] at hm
    split at hm
    next t' ht' =>
      obtain ⟨n, s', hrun, hR'⟩ := (S.next hR ht').run hω
      obtain ⟨k, hk⟩ := ih hm hR' (ω := fun i => ω (i + (n + 1))) (fun i => hω _)
      exact ⟨n + 1 + k, run_of_next hrun hk⟩
    next v' hv' =>
      obtain rfl : v' = v := Res.done.inj hm
      obtain ⟨n, s', hrun, hlast⟩ := (S.done hR hv').run hω
      refine ⟨n + 1, run_of_next hrun ?_⟩
      simp only [run, hlast _ (hω _)]
    next => exact absurd hm (by simp)

/-- A source that never stops keeps the target moving. -/
theorem Simulation.next_of_diverges (S : Simulation src step adm f R) (k : Nat) :
    ∀ {t : τ} {s : σ} {ω : Nat → ι}, R t s → (∀ i, adm (ω i)) →
      (∀ m v, iter src m t ≠ .done v) → ∃ n s', k ≤ n ∧ run step n ω s = .next s' := by
  induction k with
  | zero => exact fun _ _ _ => ⟨0, _, Nat.le_refl _, rfl⟩
  | succ k ih =>
    intro t s ω hR hω hdiv
    cases ht : src t with
    | next t' =>
      obtain ⟨n, s', hrun, hR'⟩ := (S.next hR ht).run hω
      have hdiv' : ∀ m v, iter src m t' ≠ .done v := by
        intro m v hm
        refine hdiv (m + 1) v ?_
        rw [iter_succ, ht]
        exact hm
      obtain ⟨n', s'', hk, hrun'⟩ := ih hR' (ω := fun i => ω (i + (n + 1))) (fun i => hω _) hdiv'
      exact ⟨n + 1 + n', s'', by omega, run_of_next hrun hrun'⟩
    | done v => exact absurd (show iter src 1 t = .done v by rw [iter_succ, ht]) (hdiv 1 v)
    | fault => exact absurd ht (S.noFault hR)

/-- **Simulation preserves outcomes.** The target stops exactly when the source
does, with the matching result, and never faults. -/
theorem Simulation.outcome (S : Simulation src step adm f R) {t : τ} {s : σ} {ω : Nat → ι}
    (hR : R t s) (hω : ∀ i, adm (ω i)) :
    (∀ r, (∃ n, run step n ω s = .done r) ↔ ∃ m v, iter src m t = .done v ∧ r = f v) ∧
      ∀ n, run step n ω s ≠ .fault := by
  by_cases hterm : ∃ m v, iter src m t = .done v
  · obtain ⟨m, v, hm⟩ := hterm
    obtain ⟨k, hk⟩ := S.done_of_done hm hR hω
    refine ⟨fun r => ⟨fun ⟨n, hn⟩ => ⟨m, v, hm, ?_⟩, fun ⟨m', v', hm', hr⟩ => ?_⟩, fun n hn => ?_⟩
    · have h1 := run_done_le hn (Nat.le_max_left n k)
      have h2 := run_done_le hk (Nat.le_max_right n k)
      exact Res.done.inj (h1.symm.trans h2)
    · rw [hr]
      exact S.done_of_done hm' hR hω
    · have h1 := run_fault_le hn (Nat.le_max_left n k)
      have h2 := run_done_le hk (Nat.le_max_right n k)
      exact absurd (h1.symm.trans h2) (by simp)
  · have hdiv : ∀ m v, iter src m t ≠ .done v := fun m v hm => hterm ⟨m, v, hm⟩
    refine ⟨fun r => ⟨fun ⟨n, hn⟩ => ?_, fun ⟨m', v', hm', _⟩ => absurd hm' (hdiv m' v')⟩,
      fun n hn => ?_⟩
    · obtain ⟨n', s', hle, hrun⟩ := S.next_of_diverges n hR hω hdiv
      exact absurd ((run_done_le hn hle).symm.trans hrun) (by simp)
    · obtain ⟨n', s', hle, hrun⟩ := S.next_of_diverges n hR hω hdiv
      exact absurd ((run_fault_le hn hle).symm.trans hrun) (by simp)

/-- The same from a state that leads to a related one. -/
theorem Simulation.outcome_of_until (S : Simulation src step adm f R) {t : τ} {s : σ}
    {ω : Nat → ι} (hu : Until step adm (fun _ => True) (R t) s) (hω : ∀ i, adm (ω i)) :
    (∀ r, (∃ n, run step n ω s = .done r) ↔ ∃ m v, iter src m t = .done v ∧ r = f v) ∧
      ∀ n, run step n ω s ≠ .fault := by
  obtain ⟨k, s', hrun, hR⟩ := hu.run hω
  obtain ⟨hdone, hfault⟩ := S.outcome hR (ω := fun i => ω (i + k)) fun i => hω _
  refine ⟨fun r => Iff.trans ⟨fun ⟨n, hn⟩ => ⟨n, ?_⟩, fun ⟨n, hn⟩ => ⟨k + n, run_of_next hrun hn⟩⟩
    (hdone r), fun n hn => hfault n ?_⟩
  · rw [← run_add k n ω s hrun]
    exact run_fault_le hn (Nat.le_add_left n k)
  · rw [← run_add k n ω s hrun]
    exact run_done_le hn (Nat.le_add_left n k)

end

end SkbTracer.Lib
