import Mathlib.Data.List.Basic

/-!
# Rings of records

Many producers and one consumer. A producer reserves a record, which gives it a place in
the order, and commits it later; the consumer takes records from the front, and waits
there for one that is reserved and not committed, also when records behind it are ready.
The places are counted from the first record ever reserved.

`RingBuffer` is what may be relied on: the operations, what is visible of a ring, and how
each operation changes that. Nothing is said of a commit at a place that is not reserved,
nor of how the records lie in memory. `RecordRing` is the plainest ring there is, two
lists, and an instance.

`Serves log r` says that the ring `r` came of the reservations `log`, which lists what each
producer was going to commit. Every operation keeps it, in whatever order the producers
commit:

- `Serves.reserve`, `Serves.commit`, `Serves.take`: the three operations;
- `Serves.taken_eq`: what the consumer has taken is a beginning of the log, and the rest of
  the log is still in the ring;
- `busy_reserve`, `busy_commit`, `busy_take`: which places are reserved and not committed.

A full ring is not modelled: a reservation that fails is one that is not made.
-/

namespace SkbTracer.Lib

/-- A ring of records. The first four are its operations, the next two what is visible. -/
class RingBuffer (ρ : Type) (α : outParam Type) where
  empty : ρ
  /-- A producer reserves the next record. -/
  reserve : ρ → ρ
  /-- The record at a place gets its content. -/
  commit : ρ → Nat → α → ρ
  /-- The consumer takes the record at the front, if it is committed. -/
  take? : ρ → Option (α × ρ)
  /-- The records that the consumer has taken. -/
  taken : ρ → List α
  /-- The others in their order; those that are not committed are `none`. -/
  pending : ρ → List (Option α)
  taken_empty : taken empty = []
  pending_empty : pending empty = []
  taken_reserve (r : ρ) : taken (reserve r) = taken r
  pending_reserve (r : ρ) : pending (reserve r) = pending r ++ [none]
  /-- A reserved record is committed in its place, and nothing else changes. -/
  commit_busy {r : ρ} {i : Nat} (a : α) (h : (pending r)[i]? = some none) :
    taken (commit r ((taken r).length + i) a) = taken r ∧
      pending (commit r ((taken r).length + i) a) = (pending r).set i (some a)
  /-- The front is taken if it is committed, and no other record is. -/
  take?_eq_some {r r' : ρ} {a : α} (h : take? r = some (a, r')) :
    taken r' = taken r ++ [a] ∧ pending r = some a :: pending r'
  take?_ready {r : ρ} {a : α} {rest : List (Option α)} (h : pending r = some a :: rest) :
    (take? r).isSome = true

/-! ## The plainest ring -/

/-- The records taken, and the others in their order. -/
structure RecordRing (α : Type) where
  taken : List α
  pending : List (Option α)
  deriving DecidableEq, Repr

/-- The record at the front, if it is committed. -/
def RecordRing.take? {α : Type} (r : RecordRing α) : Option (α × RecordRing α) :=
  match r.pending with
  | some a :: pending => some (a, ⟨r.taken ++ [a], pending⟩)
  | _ => none

instance {α : Type} : RingBuffer (RecordRing α) α where
  empty := ⟨[], []⟩
  reserve r := { r with pending := r.pending ++ [none] }
  commit r place a := { r with pending := r.pending.set (place - r.taken.length) (some a) }
  take? := RecordRing.take?
  taken := RecordRing.taken
  pending := RecordRing.pending
  taken_empty := rfl
  pending_empty := rfl
  taken_reserve _ := rfl
  pending_reserve _ := rfl
  commit_busy _ _ := ⟨rfl, by dsimp only; rw [Nat.add_sub_cancel_left]⟩
  take?_eq_some := by
    intro r r' a h
    unfold RecordRing.take? at h
    split at h
    next hpending =>
      cases h
      exact ⟨rfl, hpending⟩
    next => cases h
  take?_ready := by
    intro r a rest h
    unfold RecordRing.take?
    rw [h]
    rfl

/-! ## What a ring came of -/

namespace RingBuffer

variable {ρ α : Type} [RingBuffer ρ α]

/-- The place that the next record gets. -/
def next (r : ρ) : Nat := (taken r).length + (pending r).length

/-- A record was reserved at the place, and not committed yet. -/
def Busy (r : ρ) (place : Nat) : Prop :=
  (taken r).length ≤ place ∧ (pending r)[place - (taken r).length]? = some none

/-- The ring came of these reservations. -/
structure Serves (log : List α) (r : ρ) : Prop where
  next : next r = log.length
  taken : taken r <+: log
  ready : ∀ (i : Nat) a, (pending r)[i]? = some (some a) →
    log[(RingBuffer.taken r).length + i]? = some a

variable {log : List α} {r r' : ρ} {a : α} {place i : Nat}

/-- What a commit at a reserved place does. -/
theorem commit_of_busy (h : Busy r place) (a : α) : taken (commit r place a) = taken r ∧
    pending (commit r place a) = (pending r).set (place - (taken r).length) (some a) := by
  have hcommit := commit_busy a h.2
  rwa [Nat.add_sub_cancel' h.1] at hcommit

theorem Serves.empty : Serves ([] : List α) (RingBuffer.empty : ρ) := by
  refine ⟨?_, ?_, fun i a h => ?_⟩
  · simp [RingBuffer.next, taken_empty, pending_empty]
  · simp [taken_empty]
  · rw [pending_empty] at h
    cases h

/-- The producer that reserves is the next in the log. -/
theorem Serves.reserve (h : Serves log r) (a : α) :
    Serves (log ++ [a]) (RingBuffer.reserve r) := by
  refine ⟨?_, ?_, fun i b hb => ?_⟩
  · have hnext := h.next
    unfold RingBuffer.next at *
    rw [taken_reserve, pending_reserve]
    simp only [List.length_append, List.length_singleton]
    omega
  · rw [taken_reserve]
    exact h.taken.trans (List.prefix_append ..)
  · -- the new record is not ready
    rw [pending_reserve] at hb
    have hold : (pending r)[i]? = some (some b) := by
      rcases Nat.lt_or_ge i (pending r).length with hi | hi
      · rwa [List.getElem?_append_left hi] at hb
      · rw [List.getElem?_append_right hi, List.getElem?_singleton] at hb
        split at hb <;> cases hb
    have hlog := h.ready i b hold
    rw [taken_reserve, List.getElem?_append_left (List.getElem?_eq_some_iff.mp hlog).1]
    exact hlog

/-- A producer that commits what the log has for its place. -/
theorem Serves.commit (h : Serves log r) (hbusy : Busy r place) (ha : log[place]? = some a) :
    Serves log (RingBuffer.commit r place a) := by
  obtain ⟨htaken, hpending⟩ := commit_of_busy hbusy a
  refine ⟨?_, ?_, fun i b hb => ?_⟩
  · have hnext := h.next
    unfold RingBuffer.next at *
    rwa [htaken, hpending, List.length_set]
  · rw [htaken]
    exact h.taken
  · rw [hpending, List.getElem?_set] at hb
    rw [htaken]
    split at hb
    next hi =>
      split at hb
      · cases hb
        subst hi
        rwa [Nat.add_sub_cancel' hbusy.1]
      · cases hb
    next => exact h.ready i b hb

/-- The consumer takes the next record of the log. -/
theorem Serves.take (h : Serves log r) (ht : take? r = some (a, r')) :
    Serves log r' ∧ log[(RingBuffer.taken r).length]? = some a := by
  obtain ⟨htaken, hpending⟩ := take?_eq_some ht
  have ha : log[(RingBuffer.taken r).length]? = some a := h.ready 0 a (by rw [hpending]; rfl)
  refine ⟨⟨?_, ?_, fun i b hb => ?_⟩, ha⟩
  · have hnext := h.next
    unfold RingBuffer.next at *
    rw [hpending, List.length_cons] at hnext
    rw [htaken, List.length_append, List.length_singleton]
    omega
  · obtain ⟨rest, hrest⟩ := h.taken
    rw [← hrest, List.getElem?_append_right (Nat.le_refl _), Nat.sub_self] at ha
    cases rest with
    | nil => cases ha
    | cons b rest =>
      cases ha
      exact ⟨rest, by rw [htaken, List.append_assoc]; exact hrest⟩
  · have hready := h.ready (i + 1) b (by rw [hpending]; exact hb)
    rw [htaken, List.length_append, List.length_singleton, Nat.add_assoc, Nat.add_comm 1]
    exact hready

/-- What was taken is the beginning of the log, and as many records are left as are in the
ring. -/
theorem Serves.taken_eq (h : Serves log r) :
    RingBuffer.taken r = log.take (RingBuffer.taken r).length ∧
      (log.drop (RingBuffer.taken r).length).length = (pending r).length := by
  refine ⟨List.prefix_iff_eq_take.mp h.taken, ?_⟩
  have hnext := h.next
  unfold RingBuffer.next at hnext
  rw [List.length_drop]
  omega

/-! ## Busy places -/

theorem not_busy_empty : ¬ Busy (RingBuffer.empty : ρ) place := by
  intro h
  have h' := h.2
  rw [pending_empty] at h'
  cases h'

/-- A reservation makes its own place busy. -/
theorem busy_reserve : Busy (reserve r) place ↔ Busy r place ∨ place = next r := by
  unfold Busy RingBuffer.next
  rw [taken_reserve, pending_reserve, List.getElem?_append]
  constructor
  · rintro ⟨hle, h⟩
    split at h
    next => exact Or.inl ⟨hle, h⟩
    next hge =>
      have := (List.getElem?_eq_some_iff.mp h).1
      rw [List.length_singleton] at this
      omega
  · rintro (⟨hle, h⟩ | rfl)
    · rw [if_pos (List.getElem?_eq_some_iff.mp h).1]
      exact ⟨hle, h⟩
    · rw [if_neg (by omega)]
      refine ⟨Nat.le_add_right _ _, ?_⟩
      simp

/-- A commit frees its place and no other. -/
theorem busy_commit (hbusy : Busy r i) : Busy (commit r i a) place ↔ Busy r place ∧ place ≠ i := by
  obtain ⟨htaken, hpending⟩ := commit_of_busy hbusy a
  have hi := hbusy.1
  unfold Busy
  rw [htaken, hpending, List.getElem?_set]
  constructor
  · rintro ⟨hle, h⟩
    split at h
    next => split at h <;> cases h
    next hne => exact ⟨⟨hle, h⟩, fun heq => hne (by rw [heq])⟩
  · rintro ⟨⟨hle, h⟩, hne⟩
    rw [if_neg (by omega)]
    exact ⟨hle, h⟩

/-- Taking records does not change which are reserved and not committed. -/
theorem busy_take (ht : take? r = some (a, r')) : Busy r' place ↔ Busy r place := by
  obtain ⟨htaken, hpending⟩ := take?_eq_some ht
  unfold Busy
  rw [htaken, hpending]
  simp only [List.length_append, List.length_singleton]
  constructor
  · rintro ⟨hle, h⟩
    refine ⟨by omega, ?_⟩
    obtain ⟨k, rfl⟩ : ∃ k, place = (taken r).length + 1 + k :=
      ⟨place - ((taken r).length + 1), by omega⟩
    rw [Nat.add_sub_cancel_left] at h
    rw [show (taken r).length + 1 + k - (taken r).length = k + 1 by omega]
    exact h
  · rintro ⟨hle, h⟩
    -- the front was committed
    have hne : place ≠ (taken r).length := by
      rintro rfl
      rw [Nat.sub_self] at h
      cases h
    refine ⟨by omega, ?_⟩
    rw [show place - (taken r).length = place - ((taken r).length + 1) + 1 by omega] at h
    exact h

/-- If nothing is reserved and not committed, the consumer can take the front. -/
theorem exists_take (hidle : ∀ place, ¬ Busy r place) (hne : pending r ≠ []) :
    ∃ a r', take? r = some (a, r') := by
  obtain ⟨slot, rest, hpending⟩ := List.exists_cons_of_ne_nil hne
  cases slot with
  | none =>
    refine absurd ⟨Nat.le_refl _, ?_⟩ (hidle (taken r).length)
    rw [Nat.sub_self, hpending]
    rfl
  | some a =>
    obtain ⟨⟨b, r'⟩, htake⟩ := Option.isSome_iff_exists.mp (take?_ready hpending)
    exact ⟨b, r', htake⟩

end RingBuffer

end SkbTracer.Lib
