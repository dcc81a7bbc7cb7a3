import Mathlib.Algebra.Ring.Int.Defs

/-!
# Replacing ranges of a sequence

An `Edit` replaces `width` elements from `off` on by a text of any length. A list
of edits that stand in order and do not overlap moves what stands between them:
`newPos es p` is the new index of old position `p`, for a position that is not
inside a replaced range.

Positions, first. `newPos` is monotone on those positions (`newPos_mono`), and strictly
so from a position whose element is kept or whose replacement is not empty
(`newPos_le_lt`, `newPos_lt`). `newPos_snoc` is what one more edit does to a position, and
behind all edits positions keep their distances (`newPos_sub`).

Then sequences. `Spliced R es xs ys` says that `ys` is `xs` with the edits carried out,
the kept elements changed as `R` allows, and `Spliced.snoc` carries one more edit out on
the result of those before it, at the place where they have moved it. So a program that
replaces one range after the other, correcting the rest each time, keeps `Spliced` as its
invariant:

- `Spliced.refl`: with no edits nothing is changed;
- `Spliced.snoc`: one more edit;
- `Spliced.mono`: `R` may be weakened, so what holds at the end is said in terms of the
  original.

Edits that overlap or are out of order are not described; `Ordered` excludes them.
-/

namespace SkbTracer.Lib

variable {α : Type}

/-- Replace the `width` elements at `off` by `text`. -/
structure Edit (α : Type) where
  off : Nat
  width : Nat
  text : List α
  deriving Repr

/-- The change of the length. -/
def Edit.gain (e : Edit α) : Int := e.text.length - e.width

/-- How far the edits before `p` move it. -/
def shift : List (Edit α) → Nat → Int
  | [], _ => 0
  | e :: es, p => (if e.off < p then e.gain else 0) + shift es p

/-- Where old position `p` is after the edits. -/
def newPos (es : List (Edit α)) (p : Nat) : Int := p + shift es p

/-- No edit replaces the element at `p`. -/
def Kept (es : List (Edit α)) (p : Nat) : Prop :=
  ∀ e ∈ es, p < e.off ∨ e.off + e.width ≤ p

instance (es : List (Edit α)) (p : Nat) : Decidable (Kept es p) :=
  inferInstanceAs (Decidable (∀ e ∈ es, _))

/-- `p` is not strictly inside a replaced range. -/
def Boundary (es : List (Edit α)) (p : Nat) : Prop :=
  ∀ e ∈ es, p ≤ e.off ∨ e.off + e.width ≤ p

/-- The edits replace something, stand in order and do not overlap. -/
structure Ordered (es : List (Edit α)) : Prop where
  width : ∀ e ∈ es, 0 < e.width
  apart : es.Pairwise fun e e' => e.off + e.width ≤ e'.off

theorem Kept.boundary {es : List (Edit α)} {p : Nat} (h : Kept es p) : Boundary es p := by
  intro e he
  rcases h e he with h | h
  · exact Or.inl (Nat.le_of_lt h)
  · exact Or.inr h

/-! ## Positions -/

/-- The edits of two lists move a position by the sum. -/
theorem shift_append (es fs : List (Edit α)) (p : Nat) :
    shift (es ++ fs) p = shift es p + shift fs p := by
  induction es with
  | nil => simp [shift]
  | cons e es ih =>
    simp only [List.cons_append, shift, ih]
    omega

/-- Edits at or after `p` do not move it. -/
theorem shift_of_le {es : List (Edit α)} {p : Nat} (h : ∀ e ∈ es, p ≤ e.off) :
    shift es p = 0 := by
  induction es with
  | nil => rfl
  | cons e es ih =>
    have he := h e List.mem_cons_self
    rw [shift, if_neg (by omega), ih fun e' he' => h e' (List.mem_cons_of_mem _ he')]
    rfl

/-- Positions behind all edits move alike. -/
theorem shift_of_lt {es : List (Edit α)} {p q : Nat} (hp : ∀ e ∈ es, e.off < p)
    (hq : ∀ e ∈ es, e.off < q) : shift es p = shift es q := by
  induction es with
  | nil => rfl
  | cons e es ih =>
    rw [shift, shift, if_pos (hp e List.mem_cons_self), if_pos (hq e List.mem_cons_self),
      ih (fun e' he' => hp e' (List.mem_cons_of_mem _ he'))
        fun e' he' => hq e' (List.mem_cons_of_mem _ he')]

theorem Ordered.tail {e : Edit α} {es : List (Edit α)} (h : Ordered (e :: es)) : Ordered es :=
  ⟨fun e' he' => h.width e' (List.mem_cons_of_mem _ he'), (List.pairwise_cons.mp h.apart).2⟩

/-- The first edit ends before the others begin. -/
theorem Ordered.head_le {e e' : Edit α} {es : List (Edit α)} (h : Ordered (e :: es))
    (he' : e' ∈ es) : e.off + e.width ≤ e'.off :=
  (List.pairwise_cons.mp h.apart).1 e' he'

/-- **Order is kept.** Of two positions outside the replaced ranges the smaller
one stays the smaller one; they can meet only where a range becomes empty. -/
theorem newPos_le_lt {es : List (Edit α)} {p q : Nat} (ho : Ordered es) (hp : Boundary es p)
    (hq : Boundary es q) (hpq : p < q) :
    newPos es p ≤ newPos es q ∧
      ((∀ e ∈ es, e.off = p → e.text ≠ []) → newPos es p < newPos es q) := by
  unfold newPos
  induction es generalizing p with
  | nil =>
    simp only [shift]
    exact ⟨by omega, fun _ => by omega⟩
  | cons e es ih =>
    have hbp := hp e List.mem_cons_self
    have hbq := hq e List.mem_cons_self
    have hptail : Boundary es p := fun e' he' => hp e' (List.mem_cons_of_mem _ he')
    have hqtail : Boundary es q := fun e' he' => hq e' (List.mem_cons_of_mem _ he')
    have hwidth := ho.width e List.mem_cons_self
    by_cases hep : e.off < p
    · -- `e` moves both
      obtain ⟨hle, hlt⟩ := ih ho.tail hptail hqtail hpq
      simp only [shift, if_pos hep, if_pos (show e.off < q by omega)]
      refine ⟨by omega, fun hne => ?_⟩
      have := hlt fun e' he' => hne e' (List.mem_cons_of_mem _ he')
      omega
    · have hzero : shift es p = 0 := shift_of_le fun e' he' => by
        have := ho.head_le he'
        omega
      by_cases heq : e.off < q
      · -- `e` moves `q` alone; what comes after `e` is compared with its end
        have hend : (e.off + e.width : Nat) ≤ (q : Int) + shift es q := by
          rcases Nat.lt_or_ge (e.off + e.width) q with hlt | hge
          · have hb : Boundary es (e.off + e.width) := fun e' he' => Or.inl (ho.head_le he')
            have hz : shift es (e.off + e.width) = 0 := shift_of_le fun e' he' => ho.head_le he'
            have := (ih ho.tail hb hqtail hlt).1
            omega
          · have hz : shift es q = 0 := shift_of_le fun e' he' => by
              have := ho.head_le he'
              omega
            omega
        simp only [shift, if_neg hep, if_pos heq, hzero, Edit.gain]
        refine ⟨by omega, fun hne => ?_⟩
        rcases Nat.lt_or_ge p e.off with hlt | hge
        · omega
        · have := List.length_pos_iff.mpr (hne e List.mem_cons_self (by omega))
          omega
      · have hz : shift es q = 0 := shift_of_le fun e' he' => by
          have := ho.head_le he'
          omega
        simp only [shift, if_neg hep, if_neg heq, hzero, hz]
        exact ⟨by omega, fun _ => by omega⟩

theorem newPos_zero (es : List (Edit α)) : newPos es 0 = 0 := by
  rw [newPos, shift_of_le fun e _ => Nat.zero_le _]
  rfl

/-- Positions keep their order. -/
theorem newPos_mono {es : List (Edit α)} {p q : Nat} (ho : Ordered es) (hp : Boundary es p)
    (hq : Boundary es q) (hpq : p ≤ q) : newPos es p ≤ newPos es q := by
  rcases Nat.lt_or_ge p q with hlt | hge
  · exact (newPos_le_lt ho hp hq hlt).1
  · exact Int.le_of_eq (Nat.le_antisymm hpq hge ▸ rfl)

/-- And what was kept stays in front of what was behind it. -/
theorem newPos_lt {es : List (Edit α)} {p q : Nat} (ho : Ordered es) (hp : Kept es p)
    (hq : Boundary es q) (hpq : p < q) : newPos es p < newPos es q := by
  refine (newPos_le_lt ho hp.boundary hq hpq).2 fun e he hoff => ?_
  have := ho.width e he
  rcases hp e he with h | h <;> omega

/-- No position is moved in front of the start. -/
theorem newPos_nonneg {es : List (Edit α)} {p : Nat} (ho : Ordered es) (hp : Boundary es p) :
    0 ≤ newPos es p := by
  have := newPos_mono ho (fun e _ => Or.inl (Nat.zero_le _)) hp (Nat.zero_le p)
  rwa [newPos_zero] at this

/-- The end of a replaced range is inside no other one. -/
theorem Ordered.boundary_end {es : List (Edit α)} {d : Edit α} (ho : Ordered es) (hd : d ∈ es) :
    Boundary es (d.off + d.width) := by
  induction es with
  | nil => cases hd
  | cons e es ih =>
    intro e' he'
    rcases List.mem_cons.mp hd with rfl | hdes
    · rcases List.mem_cons.mp he' with rfl | hes
      · exact Or.inr (Nat.le_refl _)
      · exact Or.inl (ho.head_le hes)
    · rcases List.mem_cons.mp he' with rfl | hes
      · have := ho.head_le hdes
        exact Or.inr (by omega)
      · exact ih ho.tail hdes e' hes

/-- The end of a replaced range is its start and the text further on. -/
theorem newPos_text {es : List (Edit α)} {e : Edit α} (ho : Ordered es) (he : e ∈ es) :
    newPos es (e.off + e.width) = newPos es e.off + e.text.length := by
  unfold newPos
  induction es with
  | nil => cases he
  | cons d es ih =>
    have hwidth := ho.width e he
    rcases List.mem_cons.mp he with rfl | he
    · rw [shift, shift, if_pos (by omega), if_neg (by omega),
        shift_of_le fun e' he' => ho.head_le he', shift_of_le fun e' he' => by
          have := ho.head_le he'
          omega]
      simp only [Edit.gain]
      omega
    · have := ih ho.tail he
      have := ho.head_le he
      have := ho.width d List.mem_cons_self
      rw [shift, shift, if_pos (by omega), if_pos (by omega)]
      omega

/-- Behind all edits, positions keep their distances. -/
theorem newPos_sub {es : List (Edit α)} {p q : Nat} (hp : ∀ e ∈ es, e.off < p)
    (hq : ∀ e ∈ es, e.off < q) : newPos es q - newPos es p = (q : Int) - p := by
  rw [newPos, newPos, shift_of_lt hp hq]
  omega

theorem newPos_snoc (es : List (Edit α)) (e : Edit α) (p : Nat) :
    newPos (es ++ [e]) p = newPos es p + if e.off < p then e.gain else 0 := by
  simp only [newPos, shift_append, shift]
  omega

theorem kept_snoc {es : List (Edit α)} {e : Edit α} {p : Nat} :
    Kept (es ++ [e]) p ↔ Kept es p ∧ (p < e.off ∨ e.off + e.width ≤ p) := by
  simp only [Kept, List.forall_mem_append, List.forall_mem_singleton]

/-- An edit behind the others. -/
structure Ordered.Behind (es : List (Edit α)) (e : Edit α) : Prop where
  width : 0 < e.width
  apart : ∀ d ∈ es, d.off + d.width ≤ e.off
  off_lt : ∀ d ∈ es, d.off < e.off

/-- An edit behind all others keeps the list in order. -/
theorem Ordered.snoc {es : List (Edit α)} {e : Edit α} (h : Ordered es)
    (hb : Ordered.Behind es e) : Ordered (es ++ [e]) where
  width := by
    rw [List.forall_mem_append, List.forall_mem_singleton]
    exact ⟨h.width, hb.width⟩
  apart := by
    refine List.pairwise_append.mpr ⟨h.apart, List.pairwise_singleton _ _, fun d hd d' hd' => ?_⟩
    rw [List.mem_singleton.mp hd']
    exact hb.apart d hd

/-- The place of an edit behind the others is no range of theirs. -/
theorem Ordered.Behind.boundary {es : List (Edit α)} {e : Edit α} (h : Ordered.Behind es e) :
    Boundary es e.off :=
  fun d hd => Or.inr (h.apart d hd)

/-! ## Sequences -/

/-- `ys` is `xs` with the edits carried out. A kept element `x`, of index `i` in
`xs`, stands in `ys` as some `y` with `R i x y`. -/
structure Spliced (R : Nat → α → α → Prop) (es : List (Edit α)) (xs ys : List α) : Prop where
  length : (ys.length : Int) = newPos es xs.length
  text : ∀ e ∈ es, ∀ k, k < e.text.length →
    ∃ q : Nat, (q : Int) = newPos es e.off + k ∧ ys[q]? = e.text[k]?
  kept : ∀ i x, xs[i]? = some x → Kept es i →
    ∃ (q : Nat) (y : α), (q : Int) = newPos es i ∧ ys[q]? = some y ∧ R i x y

theorem Spliced.refl {R : Nat → α → α → Prop} {xs : List α} (hR : ∀ i x, R i x x) :
    Spliced R [] xs xs where
  length := by simp [newPos, shift]
  text := fun e he => by cases he
  kept := fun i x hi _ => ⟨i, x, by simp [newPos, shift], hi, hR i x⟩

theorem Spliced.mono {R R' : Nat → α → α → Prop} {es : List (Edit α)} {xs ys : List α}
    (h : Spliced R es xs ys)
    (hR : ∀ i x y, xs[i]? = some x → Kept es i → R i x y → R' i x y) :
    Spliced R' es xs ys := by
  refine ⟨h.length, h.text, fun i x hi hk => ?_⟩
  obtain ⟨q, y, hq, hy, hr⟩ := h.kept i x hi hk
  exact ⟨q, y, hq, hy, hR i x y hi hk hr⟩

variable {R P : Nat → α → α → Prop} {es : List (Edit α)} {e : Edit α} {xs ys zs : List α}
  {pos : Nat}

/-- A position is where the next edit, made in `ys`, moves its place in `ys`. -/
theorem newPos_place (ho : Ordered es) (hb : Ordered.Behind es e)
    (hpos : (pos : Int) = newPos es e.off) {p u : Nat} (hp : Boundary es p)
    (hu : (u : Int) = newPos es p) :
    newPos (es ++ [e]) p = newPos [⟨pos, e.width, e.text⟩] u := by
  have hside : e.off < p ↔ pos < u := by
    rcases Nat.lt_or_ge e.off p with hlt | hge
    · have := newPos_sub hb.off_lt fun d hd => Nat.lt_trans (hb.off_lt d hd) hlt
      omega
    · have := newPos_mono ho hp hb.boundary hge
      omega
  rw [newPos_snoc]
  simp only [newPos, shift, Edit.gain, hside]
  unfold newPos at hu
  omega

/-- A kept element is kept by the next edit, made in `ys`. -/
theorem kept_place (ho : Ordered es) (hb : Ordered.Behind es e)
    (hpos : (pos : Int) = newPos es e.off) {i q : Nat} (hi : Kept (es ++ [e]) i)
    (hq : (q : Int) = newPos es i) : Kept [⟨pos, e.width, e.text⟩] q := by
  obtain ⟨hi, hie⟩ := kept_snoc.mp hi
  intro f hf
  rw [List.mem_singleton.mp hf]
  rcases hie with hlt | hge
  · have := newPos_lt ho hi hb.boundary hlt
    exact Or.inl (show q < pos by omega)
  · have := newPos_sub hb.off_lt fun d hd =>
      Nat.lt_of_lt_of_le (hb.off_lt d hd) (Nat.le_trans (Nat.le_add_right _ _) hge)
    exact Or.inr (show pos + e.width ≤ q by omega)

/-- **One edit more.** If `ys` is `xs` with the edits `es` carried out and `zs` is
`ys` with `e` carried out where `es` have moved it, then `zs` is `xs` with all of
them carried out. The last edit must leave the texts of the others alone. -/
theorem Spliced.snoc (h : Spliced R es xs ys) (ho : Ordered es) (hb : Ordered.Behind es e)
    (hend : e.off + e.width ≤ xs.length) (hpos : (pos : Int) = newPos es e.off)
    (h' : Spliced P [⟨pos, e.width, e.text⟩] ys zs)
    (htext : ∀ d ∈ es, ∀ q y z, y ∈ d.text → P q y z → z = y) :
    Spliced (fun i x z => ∃ (q : Nat) (y : α), (q : Int) = newPos es i ∧ ys[q]? = some y ∧
      R i x y ∧ P q y z) (es ++ [e]) xs zs where
  length := by
    rw [h'.length]
    have hlast : Boundary es xs.length := fun d hd => Or.inr (by
      have := hb.apart d hd
      omega)
    exact (newPos_place ho hb hpos hlast h.length).symm
  text := by
    intro d hd k hk
    rcases List.mem_append.mp hd with hd | hd
    · -- an earlier text stands before the last edit
      obtain ⟨q, hq, hy⟩ := h.text d hd k hk
      have hend := newPos_text ho hd
      have hle := newPos_mono ho (ho.boundary_end hd) hb.boundary (hb.apart d hd)
      have hy' : ys[q]? = some d.text[k] := by rw [hy, List.getElem?_eq_getElem hk]
      have hkq : Kept [⟨pos, e.width, e.text⟩] q := by
        intro f hf
        rw [List.mem_singleton.mp hf]
        exact Or.inl (show q < pos by omega)
      obtain ⟨r, z, hr, hz, hP⟩ := h'.kept q _ hy' hkq
      have := hb.apart d hd
      have := ho.width d hd
      refine ⟨r, ?_, ?_⟩
      · rw [hr, newPos_snoc, if_neg (by omega)]
        simp only [newPos, shift]
        rw [if_neg (by omega)]
        unfold newPos at hq
        omega
      · rw [hz, htext d hd q _ z (List.getElem_mem hk) hP, List.getElem?_eq_getElem hk]
    · -- the last edit's own text
      obtain rfl := List.mem_singleton.mp hd
      obtain ⟨q, hq, hy⟩ := h'.text _ (List.mem_singleton_self _) k hk
      refine ⟨q, ?_, hy⟩
      rw [newPos_snoc, if_neg (Nat.lt_irrefl _), hq]
      simp only [newPos, shift, if_neg (Nat.lt_irrefl _)]
      unfold newPos at hpos
      omega
  kept := by
    intro i x hi hk
    obtain ⟨q, y, hq, hy, hR⟩ := h.kept i x hi (kept_snoc.mp hk).1
    obtain ⟨r, z, hr, hz, hP⟩ := h'.kept q y hy (kept_place ho hb hpos hk hq)
    have hnew := newPos_place ho hb hpos (kept_snoc.mp hk).1.boundary hq
    exact ⟨r, z, hr.trans hnew.symm, hz, q, y, hq, hy, hR, hP⟩

end SkbTracer.Lib
