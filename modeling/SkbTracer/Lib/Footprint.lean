import Mathlib.Logic.Function.Basic

/-!
# What a computation depends on

A memory that can be read in part, and a computation `f` over it. Two memories agree
on `own` if they can be read at the same addresses and hold the same at those in
`own`; `f` keeps to `own` at a memory if it gives the same at every memory that
agrees with it. So this is a property of two runs, and it says that the result shows
nothing of what is outside `own`.

- `KeepsTo.mono`: a computation that keeps to its footprint keeps to all that covers it;
- `KeepsTo.at_agree`: it then keeps to it at the memories that agree with this one too;
- `KeepsTo.own_of_shows`: an address at which two values make a difference must be one of
  `own`;
- `agreeOn_update`: a write outside of `own` gives a memory that agrees, the way to build
  the second run.

`own` is fixed here. Where the footprint of a computation depends on what it reads, as
with a pointer that is followed, the two memories must agree on the pointer as well, and
it is for the user to show that the footprints are then the same.

Which addresses can be read is the same in both runs, so a fault shows nothing either.
-/

namespace SkbTracer.Lib

variable {α β γ : Type*} {own own' : α → Prop} {f : (α → Option β) → γ} {m m' : α → Option β}

/-- The memories can be read at the same addresses, and hold the same at those in
`own`. -/
structure AgreeOn (own : α → Prop) (m m' : α → Option β) : Prop where
  support : ∀ a, (m' a).isSome = (m a).isSome
  eq : ∀ a, own a → m' a = m a

/-- What `f` makes of `m` depends on nothing but `own`. -/
def KeepsTo (own : α → Prop) (f : (α → Option β) → γ) (m : α → Option β) : Prop :=
  ∀ m', AgreeOn own m m' → f m' = f m

theorem AgreeOn.refl (own : α → Prop) (m : α → Option β) : AgreeOn own m m :=
  ⟨fun _ => rfl, fun _ _ => rfl⟩

theorem AgreeOn.trans {m'' : α → Option β} (h : AgreeOn own m m') (h' : AgreeOn own m' m'') :
    AgreeOn own m m'' :=
  ⟨fun a => (h'.support a).trans (h.support a), fun a ha => (h'.eq a ha).trans (h.eq a ha)⟩

/-- Memories that agree on more agree on less. -/
theorem AgreeOn.mono (hsub : ∀ a, own a → own' a) (h : AgreeOn own' m m') : AgreeOn own m m' :=
  ⟨h.support, fun a ha => h.eq a (hsub a ha)⟩

/-- A write to an address that can be read, outside of `own` or of what is there. -/
theorem agreeOn_update [DecidableEq α] {a : α} {b : β} (hs : (m a).isSome = true)
    (h : own a → m a = some b) : AgreeOn own m (Function.update m a (some b)) := by
  constructor
  · intro c
    by_cases hc : c = a
    · rw [hc, Function.update_self, hs]
      rfl
    · rw [Function.update_of_ne hc]
  · intro c hown
    by_cases hc : c = a
    · subst hc
      rw [Function.update_self, h hown]
    · rw [Function.update_of_ne hc]

/-- What keeps to a footprint keeps to all that covers it. -/
theorem KeepsTo.mono (hsub : ∀ a, own a → own' a) (h : KeepsTo own f m) : KeepsTo own' f m :=
  fun m' hm' => h m' (hm'.mono hsub)

/-- So it gives the same at any two memories that agree with the one in question. -/
theorem KeepsTo.same {m'' : α → Option β} (h : KeepsTo own f m) (h' : AgreeOn own m m')
    (h'' : AgreeOn own m m'') : f m' = f m'' :=
  (h m' h').trans (h m'' h'').symm

/-- It keeps to `own` at the memories that agree with this one too. -/
theorem KeepsTo.at_agree (h : KeepsTo own f m) (h' : AgreeOn own m m') : KeepsTo own f m' :=
  fun _ h'' => h.same (h'.trans h'') h'

/-- Two values at one address that make a difference. -/
theorem KeepsTo.own_of_shows [DecidableEq α] {a : α} {b b' : β} (h : KeepsTo own f m)
    (hs : (m a).isSome = true)
    (hne : f (Function.update m a (some b)) ≠ f (Function.update m a (some b'))) : own a := by
  by_contra hown
  apply hne
  apply h.same
  · exact agreeOn_update hs fun ha => absurd ha hown
  · exact agreeOn_update hs fun ha => absurd ha hown

end SkbTracer.Lib
