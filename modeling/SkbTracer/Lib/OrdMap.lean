import Mathlib.Data.List.Sort
import Mathlib.Order.Defs.LinearOrder

/-!
# Ordered maps

A map as the list of its entries, in the order of the keys. The order is part of the
type, so a walk over the entries meets every key once and the smaller keys first. That is
how `std::map` behaves, and a walk over one is a walk over `entries`.

Each operation has one lemma that says what it does to every lookup:

- `find_set`: an assignment, which puts a value under a key whatever was there;
- `find_emplace`: an insertion that leaves an entry alone that is there already;
- `find_erase`: an erasure.

`find_eq_some_iff` goes from lookups to entries, and `mem_keys_set` and `mem_keys_erase`
say the same of the keys.

Of a whole list of assignments the last one for a key counts: `LastFor` says which one that
is, and `find_setAll_iff` that it is what is found. This is the form in which a loop that
fills a map is described: what it leaves under a key is the last round that assigned it.

Keys are of any linear order. Nothing is said of how the entries lie in memory, nor of
iterators that outlive an erasure.
-/

namespace SkbTracer.Lib

/-! ## The last entry for a key -/

variable {κ α : Type*} {k : κ} {a : α} {es : List (κ × α)}

/-- The last entry for `k` has the value `a`. -/
def LastFor (k : κ) (a : α) (es : List (κ × α)) : Prop :=
  ∃ before later, es = before ++ (k, a) :: later ∧ k ∉ later.map Prod.fst

/-- An entry in front counts only if no later one has its key. -/
theorem lastFor_cons {e : κ × α} : LastFor k a (e :: es) ↔
    LastFor k a es ∨ e = (k, a) ∧ k ∉ es.map Prod.fst := by
  constructor
  · rintro ⟨before, later, hes, hlater⟩
    cases before with
    | nil =>
      cases hes
      exact Or.inr ⟨rfl, hlater⟩
    | cons b before =>
      cases hes
      exact Or.inl ⟨before, later, rfl, hlater⟩
  · rintro (⟨before, later, rfl, hlater⟩ | ⟨rfl, hnot⟩)
    · exact ⟨e :: before, later, rfl, hlater⟩
    · exact ⟨[], es, rfl, hnot⟩

/-- The last entry for a key is one of the entries. -/
theorem LastFor.mem (h : LastFor k a es) : (k, a) ∈ es := by
  obtain ⟨before, later, rfl, -⟩ := h
  exact List.mem_append_right _ List.mem_cons_self

/-! ## The map -/

structure OrdMap (κ α : Type*) [LinearOrder κ] where
  entries : List (κ × α)
  sorted : (entries.map Prod.fst).Pairwise (· < ·)

namespace OrdMap

variable [LinearOrder κ]

/-- The entries with one put in its place, or put for another with the same key. -/
def setEntry (k : κ) (a : α) : List (κ × α) → List (κ × α)
  | [] => [(k, a)]
  | e :: es =>
    if k < e.1 then (k, a) :: e :: es
    else if k = e.1 then (k, a) :: es
    else e :: setEntry k a es

/-- An assignment brings no key but its own. -/
theorem mem_keys_setEntry {k : κ} {a : α} {es : List (κ × α)} {j : κ}
    (h : j ∈ (setEntry k a es).map Prod.fst) : j = k ∨ j ∈ es.map Prod.fst := by
  induction es with
  | nil => exact Or.inl (List.mem_singleton.mp h)
  | cons e es ih =>
    rw [setEntry] at h
    split at h
    · exact List.mem_cons.mp h
    · split at h
      · rcases List.mem_cons.mp h with hj | hj
        · exact Or.inl hj
        · exact Or.inr (List.mem_cons_of_mem _ hj)
      · rcases List.mem_cons.mp h with hj | hj
        · exact Or.inr (List.mem_cons.mpr (Or.inl hj))
        · exact (ih hj).imp_right (List.mem_cons_of_mem _)

/-- The keys stay in order: what a map keeps of itself under assignments. -/
theorem setEntry_sorted {k : κ} {a : α} {es : List (κ × α)}
    (h : (es.map Prod.fst).Pairwise (· < ·)) :
    ((setEntry k a es).map Prod.fst).Pairwise (· < ·) := by
  induction es with
  | nil => exact List.pairwise_singleton _ _
  | cons e es ih =>
    obtain ⟨hhead, htail⟩ := List.pairwise_cons.mp h
    rw [setEntry]
    split
    next hlt =>
      refine List.pairwise_cons.mpr ⟨fun j hj => ?_, h⟩
      rcases List.mem_cons.mp hj with rfl | hj
      · exact hlt
      · exact hlt.trans (hhead j hj)
    next hnlt =>
      split
      next heq =>
        refine List.pairwise_cons.mpr ⟨fun j hj => ?_, htail⟩
        show k < j
        rw [heq]
        exact hhead j hj
      next hne =>
        have hlt : e.1 < k := lt_of_le_of_ne (not_lt.mp hnlt) (Ne.symm hne)
        refine List.pairwise_cons.mpr ⟨fun j hj => ?_, ih htail⟩
        rcases mem_keys_setEntry hj with rfl | hj
        · exact hlt
        · exact hhead j hj

def empty : OrdMap κ α := ⟨[], List.Pairwise.nil⟩

def find (m : OrdMap κ α) (k : κ) : Option α := m.entries.lookup k

/-- The keys, in their order. -/
def keys (m : OrdMap κ α) : List κ := m.entries.map Prod.fst

/-- An assignment. -/
def set (m : OrdMap κ α) (k : κ) (a : α) : OrdMap κ α :=
  ⟨setEntry k a m.entries, setEntry_sorted m.sorted⟩

/-- A value for a key that has none; an entry that is there stays. -/
def emplace (m : OrdMap κ α) (k : κ) (a : α) : OrdMap κ α :=
  match m.find k with
  | none => m.set k a
  | some _ => m

/-- Without the entry for a key. -/
def erase (m : OrdMap κ α) (k : κ) : OrdMap κ α where
  entries := m.entries.filter fun e => e.1 ≠ k
  sorted := m.sorted.sublist (List.filter_sublist.map Prod.fst)

/-- Assignments, the first one first. -/
def setAll (m : OrdMap κ α) (es : List (κ × α)) : OrdMap κ α :=
  es.foldl (fun m e => m.set e.1 e.2) m

variable {m : OrdMap κ α} {j : κ}

@[simp] theorem find_empty : (empty : OrdMap κ α).find k = none := rfl

/-- A walk over a map meets no key twice. -/
theorem keys_nodup (m : OrdMap κ α) : m.keys.Nodup := m.sorted.imp ne_of_lt

/-- In a sorted list looking a key up and having its entry are the same, so proofs can
go from lookups to walks and back. -/
theorem lookup_eq_some_iff (h : (es.map Prod.fst).Pairwise (· < ·)) :
    es.lookup k = some a ↔ (k, a) ∈ es := by
  induction es with
  | nil => simp
  | cons e es ih =>
    obtain ⟨hhead, htail⟩ := List.pairwise_cons.mp h
    rw [List.lookup_cons]
    by_cases hk : k = e.1
    · -- no other entry has the key of the first
      have hnot : (k, a) ∉ es := fun hmem =>
        (hhead k (List.mem_map_of_mem hmem)).ne hk.symm
      subst hk
      simp only [BEq.rfl, Option.some.injEq, List.mem_cons, hnot, or_false]
      exact ⟨fun he => Prod.ext rfl he.symm, fun he => (congrArg Prod.snd he).symm⟩
    · rw [beq_false_of_ne hk, List.mem_cons, ih htail]
      exact ⟨Or.inr, fun hmem => hmem.resolve_left fun he => hk (congrArg Prod.fst he)⟩

/-- The same for a map, which is sorted by its type. -/
theorem find_eq_some_iff : m.find k = some a ↔ (k, a) ∈ m.entries :=
  lookup_eq_some_iff m.sorted

/-- The keys are those under which something is found. -/
theorem mem_keys_iff : k ∈ m.keys ↔ ∃ a, m.find k = some a := by
  unfold keys
  rw [List.mem_map]
  constructor
  · rintro ⟨e, he, rfl⟩
    exact ⟨e.2, find_eq_some_iff.mpr he⟩
  · rintro ⟨a, ha⟩
    exact ⟨_, find_eq_some_iff.mp ha, rfl⟩

theorem find_eq_none_iff : m.find k = none ↔ k ∉ m.keys := by
  rw [mem_keys_iff, Option.eq_none_iff_forall_ne_some, not_exists]

/-- What an assignment does to every lookup, on the list; `find_set` is the same for
maps. -/
theorem lookup_setEntry (k : κ) (a : α) (es : List (κ × α)) (j : κ) :
    (setEntry k a es).lookup j = if j = k then some a else es.lookup j := by
  induction es with
  | nil =>
    rw [setEntry, List.lookup_cons]
    by_cases hj : j = k
    · rw [if_pos hj, hj, BEq.rfl]
    · rw [if_neg hj, beq_false_of_ne hj]
  | cons e es ih =>
    rw [setEntry]
    by_cases hj : j = k
    · subst hj
      rw [if_pos rfl]
      split
      · rw [List.lookup_cons, BEq.rfl]
      · split
        · rw [List.lookup_cons, BEq.rfl]
        next hne =>
          rw [List.lookup_cons, beq_false_of_ne hne, ih, if_pos rfl]
    · rw [if_neg hj] at ih ⊢
      split
      · rw [List.lookup_cons, beq_false_of_ne hj]
      · split
        next heq =>
          rw [List.lookup_cons, List.lookup_cons, beq_false_of_ne hj, ← heq, beq_false_of_ne hj]
        next => rw [List.lookup_cons, List.lookup_cons, ih]

/-- What an assignment does to the lookups. -/
theorem find_set : (m.set k a).find j = if j = k then some a else m.find j :=
  lookup_setEntry k a m.entries j

/-- What a value that is put in, if there is none, does to the lookups. -/
theorem find_emplace : (m.emplace k a).find j =
    if j = k ∧ m.find k = none then some a else m.find j := by
  unfold emplace
  split
  next hnone => simp only [find_set, hnone, and_true]
  next b hsome => rw [if_neg fun h => by cases hsome.symm.trans h.2]

/-- What taking an entry out does to the lookups. -/
theorem find_erase : (m.erase k).find j = if j = k then none else m.find j := by
  apply Option.ext
  intro a
  rw [find_eq_some_iff]
  unfold erase
  rw [List.mem_filter, ← find_eq_some_iff]
  by_cases hj : j = k
  · simp [hj]
  · simp [hj]

theorem setAll_cons (e : κ × α) : m.setAll (e :: es) = (m.set e.1 e.2).setAll es := rfl

/-! ## The last assignment counts -/

/-- What is found after a list of assignments is the last one for the key, or else what
was there before. -/
theorem find_setAll_iff : (m.setAll es).find k = some a ↔
    LastFor k a es ∨ k ∉ es.map Prod.fst ∧ m.find k = some a := by
  induction es generalizing m with
  | nil =>
    constructor
    · intro h
      exact Or.inr ⟨List.not_mem_nil, h⟩
    · rintro (⟨before, later, hes, -⟩ | h)
      · cases before <;> cases hes
      · exact h.2
  | cons e es ih =>
    rw [setAll_cons, ih, find_set, lastFor_cons, List.map_cons, List.mem_cons, not_or]
    by_cases hk : k = e.1
    · subst hk
      rw [if_pos rfl]
      constructor
      · rintro (h | ⟨hnot, ha⟩)
        · exact Or.inl (Or.inl h)
        · exact Or.inl (Or.inr ⟨Prod.ext rfl (Option.some.inj ha), hnot⟩)
      · rintro ((h | ⟨he, hnot⟩) | ⟨⟨hne, -⟩, -⟩)
        · exact Or.inl h
        · exact Or.inr ⟨hnot, congrArg some (congrArg Prod.snd he)⟩
        · exact absurd rfl hne
    · rw [if_neg hk]
      constructor
      · rintro (h | h)
        · exact Or.inl (Or.inl h)
        · exact Or.inr ⟨⟨hk, h.1⟩, h.2⟩
      · rintro ((h | ⟨he, -⟩) | h)
        · exact Or.inl h
        · exact absurd (congrArg Prod.fst he).symm hk
        · exact Or.inr ⟨h.1.2, h.2⟩

/-- After an assignment the map has one key more, or none. -/
theorem mem_keys_set : j ∈ (m.set k a).keys ↔ j = k ∨ j ∈ m.keys := by
  simp only [mem_keys_iff, find_set]
  by_cases hj : j = k
  · simp [hj]
  · simp [hj]

/-- After an erasure it has all other keys. -/
theorem mem_keys_erase : j ∈ (m.erase k).keys ↔ j ≠ k ∧ j ∈ m.keys := by
  simp only [mem_keys_iff, find_erase]
  by_cases hj : j = k
  · simp [hj]
  · simp [hj]

/-- Another value under every key. -/
def mapVal {β : Type*} (f : α → β) (m : OrdMap κ α) : OrdMap κ β where
  entries := m.entries.map fun e => (e.1, f e.2)
  sorted := by
    rw [List.map_map]
    exact m.sorted

theorem mem_mapVal {β : Type*} {f : α → β} {e : κ × β} :
    e ∈ (m.mapVal f).entries ↔ ∃ a, (e.1, a) ∈ m.entries ∧ f a = e.2 := by
  unfold mapVal
  rw [List.mem_map]
  constructor
  · rintro ⟨e, he, rfl⟩
    exact ⟨e.2, he, rfl⟩
  · rintro ⟨a, ha, heq⟩
    exact ⟨_, ha, Prod.ext rfl heq⟩

end OrdMap

end SkbTracer.Lib
