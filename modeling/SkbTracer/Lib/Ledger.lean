import Mathlib.Data.List.Basic

/-!
# A ledger of resources

A log of resources taken and given back, read against the resources held: giving
back what is not held is an error, so a log that can be read to its end never
gives the same resource back twice, and `Balanced` logs give back everything they
take and nothing else.

A proof about a program with several exits goes by pieces:

- `held_append` reads a log in two parts, so a function is proved for its own part;
- `Balanced.append` puts balanced parts together, and `Balanced.bracket` wraps one into a
  resource that is taken before it and given back after it;
- `held_frame` and `Balanced.frame` say that a balanced part leaves alone what is held
  around it;
- `balanced_take_give_iff` is about work that takes a list of resources first and gives a
  list back at the end: it is balanced exactly if one is a permutation of the other.

`held_count` is the conservation law from which the counts follow (`Balanced.count`). A
resource is any value with decidable equality; `held_map` and `Balanced.map` change its
type where two ledgers are put into one.
-/

namespace SkbTracer.Lib

/-- A resource is taken, or given back. -/
inductive Use (α : Type) where
  | take (a : α)
  | give (a : α)
  deriving DecidableEq, Repr

variable {α : Type} [DecidableEq α]

/-- What is held after a log that starts with `l` held, last taken first; `none`
if something is given back that is not held. -/
def held (l : List α) : List (Use α) → Option (List α)
  | [] => some l
  | .take a :: log => held (a :: l) log
  | .give a :: log => if a ∈ l then held (l.erase a) log else none

/-- Everything taken is given back, nothing else is, and nothing twice. -/
def Balanced (log : List (Use α)) : Prop := held [] log = some []

instance (log : List (Use α)) : Decidable (Balanced log) :=
  inferInstanceAs (Decidable (_ = _))

theorem held_append (l : List α) (s t : List (Use α)) :
    held l (s ++ t) = (held l s).bind fun l' => held l' t := by
  induction s generalizing l with
  | nil => rfl
  | cons u s ih =>
    cases u with
    | take a => exact ih (a :: l)
    | give a =>
      simp only [List.cons_append, held]
      split
      next => exact ih (l.erase a)
      next => rfl

/-- One more resource is taken. -/
theorem held_take {l l' : List α} {log : List (Use α)} (h : held l log = some l') (a : α) :
    held l (log ++ [.take a]) = some (a :: l') := by
  rw [held_append, h]
  rfl

/-- One more is given back, if it is held. -/
theorem held_give {l l' : List α} {log : List (Use α)} {a : α} (h : held l log = some l')
    (ha : a ∈ l') : held l (log ++ [.give a]) = some (l'.erase a) := by
  rw [held_append, h]
  exact if_pos ha

/-- Giving back a list of resources one by one leaves nothing exactly if the list is
what was held. -/
theorem held_give_all {l xs : List α} : held l (xs.map .give) = some [] ↔ l.Perm xs := by
  induction xs generalizing l with
  | nil =>
    rw [List.map_nil, List.perm_nil]
    exact Option.some_inj
  | cons x xs ih =>
    rw [List.map_cons, held, List.perm_comm, List.cons_perm_iff_perm_erase]
    by_cases hx : x ∈ l
    · rw [if_pos hx, ih, List.perm_comm]
      exact (and_iff_right hx).symm
    · rw [if_neg hx]
      exact iff_of_false (by simp) fun h => hx h.1

/-- A log reads the same with more held throughout. -/
theorem held_frame {l l' : List α} {log : List (Use α)} (h : held l log = some l') (r : List α) :
    held (l ++ r) log = some (l' ++ r) := by
  induction log generalizing l with
  | nil =>
    obtain rfl := Option.some.inj h
    rfl
  | cons u log ih =>
    cases u with
    | take a => exact ih h
    | give a =>
      simp only [held] at h ⊢
      split at h
      next hmem =>
        rw [if_pos (List.mem_append_left r hmem), List.erase_append_left r hmem]
        exact ih h
      next => cases h

/-- Conservation: what was held and what was taken is given back or still held. -/
theorem held_count {l l' : List α} {log : List (Use α)} (h : held l log = some l') (a : α) :
    l.count a + log.count (.take a) = log.count (.give a) + l'.count a := by
  -- along the log: a use of another value changes neither count of `a`
  induction log generalizing l with
  | nil =>
    obtain rfl := Option.some.inj h
    simp
  | cons u log ih =>
    cases u with
    | take b =>
      have hrest := ih h
      by_cases hb : b = a
      · subst hb
        simp only [List.count_cons_self] at hrest ⊢
        rw [List.count_cons_of_ne (by simp)]
        omega
      · rw [List.count_cons_of_ne hb] at hrest
        rw [List.count_cons_of_ne (by simpa using hb), List.count_cons_of_ne (by simp)]
        exact hrest
    | give b =>
      simp only [held] at h
      split at h
      next hmem =>
        have hrest := ih h
        by_cases hb : b = a
        · subst hb
          have hpos : 0 < l.count b := List.count_pos_iff.mpr hmem
          rw [List.count_erase_self] at hrest
          rw [List.count_cons_self, List.count_cons_of_ne (by simp)]
          omega
        · rw [List.count_erase_of_ne (Ne.symm hb)] at hrest
          rw [List.count_cons_of_ne (by simp), List.count_cons_of_ne (by simpa using hb)]
          exact hrest
      next => cases h

theorem Balanced.nil : Balanced ([] : List (Use α)) := rfl

theorem Balanced.append {s t : List (Use α)} (hs : Balanced s) (ht : Balanced t) :
    Balanced (s ++ t) := by
  unfold Balanced at hs ht ⊢
  rw [held_append, hs]
  exact ht

/-- A balanced log may stand between a taking and the giving back. -/
theorem Balanced.bracket {log : List (Use α)} (h : Balanced log) (a : α) :
    Balanced (.take a :: log ++ [.give a]) := by
  have hin : held [] (.take a :: log) = some [a] := held_frame h [a]
  unfold Balanced
  rw [held_give hin List.mem_cons_self, List.erase_cons_head]

/-- Every resource is given back as often as it is taken. -/
theorem Balanced.count {log : List (Use α)} (h : Balanced log) (a : α) :
    log.count (.give a) = log.count (.take a) := by
  have := held_count h a
  simp only [List.count_nil] at this
  omega

/-- A balanced log leaves alone what was held before. -/
theorem Balanced.frame {log : List (Use α)} (h : Balanced log) (l : List α) :
    held l log = some l := held_frame h l

/-- A balanced log may be put in anywhere. -/
theorem Balanced.insert_iff {mid : List (Use α)} (h : Balanced mid) (s t : List (Use α)) :
    Balanced (s ++ mid ++ t) ↔ Balanced (s ++ t) := by
  have hmid : held [] (s ++ mid) = held [] s := by
    rw [held_append]
    rcases held [] s with _ | l
    · rfl
    · exact h.frame l
  unfold Balanced
  rw [held_append, hmid, held_append]

/-- The resources of a list are taken one after the other, the last one ending on top.
-/
theorem held_take_all (l xs : List α) : held l (xs.map .take) = some (xs.reverse ++ l) := by
  induction xs generalizing l with
  | nil => rfl
  | cons x xs ih =>
    rw [List.map_cons, held, ih, List.reverse_cons, List.append_assoc]
    rfl

/-- All is taken first and given back in any order. -/
theorem balanced_take_give_iff {xs ys : List α} :
    Balanced (xs.map .take ++ ys.map .give) ↔ xs.Perm ys := by
  unfold Balanced
  rw [held_append, held_take_all, List.append_nil, Option.bind_some, held_give_all]
  exact (List.reverse_perm xs).congr_left ys

/-! ## Resources under other names -/

def Use.map {β : Type} (f : α → β) : Use α → Use β
  | .take a => .take (f a)
  | .give a => .give (f a)

/-- A log that is read under other names is held under other names, if no two resources
get one name. -/
theorem held_map {β : Type} [DecidableEq β] {f : α → β} (hf : f.Injective) (l : List α)
    (log : List (Use α)) :
    held (l.map f) (log.map (Use.map f)) = (held l log).map (List.map f) := by
  induction log generalizing l with
  | nil => rfl
  | cons u log ih =>
    cases u with
    | take a => exact ih (a :: l)
    | give a =>
      show (if f a ∈ l.map f then held ((l.map f).erase (f a)) (log.map (Use.map f)) else none) = _
      rw [held]
      by_cases ha : a ∈ l
      · rw [if_pos ha, if_pos (List.mem_map_of_mem ha), ← List.map_erase hf, ih]
      · rw [if_neg ha, if_neg fun hmem => ha ((List.mem_map_of_injective hf).mp hmem)]
        rfl

/-- Renaming keeps a log balanced. -/
theorem Balanced.map {β : Type} [DecidableEq β] {f : α → β} (hf : f.Injective)
    {log : List (Use α)} (h : Balanced log) : Balanced (log.map (Use.map f)) := by
  have hlog : held [] log = some [] := h
  have hmap := held_map hf [] log
  rw [hlog] at hmap
  exact hmap

end SkbTracer.Lib
