import Mathlib.Data.List.Basic
import Mathlib.Data.List.DropRight
import Mathlib.Algebra.Ring.Nat

/-!
# Text in columns

A line of cells with single blanks between them, each cell filled with blanks up to the
width of its column. A cell that is too wide is not cut: it pushes the cells behind it
to the right, as the width of a format does in `printf` and in `fmt`.

So two lines with the same columns have their cells at the same places exactly if every
cell fits its column, the last one apart. The cells are found by cutting the line:

- `drop_start`: where a column begins the line goes on with the cells from there on;
- `aligned_iff`: a line stands under another exactly if its cells fit;
- `row_inj`: of lines whose cells fit, the cells can be read off the line;
- `padded_inj`: and of a padded cell the text, if it does not end in a blank.

`row_append` puts a line together from groups of cells. The last cell of a line may be as
long as it likes, since nothing stands behind it; the statements leave it out where that
matters. Letters are counted, not the columns of a terminal.
-/

namespace SkbTracer.Lib

/-- A text in a column. -/
structure Cell where
  width : Nat
  text : List Char
  deriving DecidableEq, Repr

/-- `{:<width}`. -/
def Cell.padded (c : Cell) : List Char := c.text.rightpad c.width ' '

def Cell.Fits (c : Cell) : Prop := c.text.length ≤ c.width

instance (c : Cell) : Decidable c.Fits := inferInstanceAs (Decidable (_ ≤ _))

/-- The line. -/
def row : List Cell → List Char
  | [] => []
  | [c] => c.padded
  | c :: d :: cells => c.padded ++ ' ' :: row (d :: cells)

/-- Where a cell starts in the line. -/
def start : List Cell → Nat → Nat
  | _, 0 => 0
  | [], _ + 1 => 0
  | c :: cells, k + 1 => c.padded.length + 1 + start cells k

/-- The cells of two lines start at the same places. -/
def Aligned (cells cells' : List Cell) : Prop :=
  ∀ k < cells.length, start cells k = start cells' k

variable {c d : Cell} {cells cells' : List Cell} {k : Nat}

/-- A padded cell is as long as its column or its text, whichever is longer. -/
theorem padded_length (c : Cell) : c.padded.length = max c.width c.text.length :=
  List.length_rightpad

theorem Cell.Fits.padded_length (h : c.Fits) : c.padded.length = c.width := by
  rw [Lib.padded_length]
  exact Nat.max_eq_left h

/-- The first cell, a blank and the rest. -/
theorem row_cons (h : cells ≠ []) : row (c :: cells) = c.padded ++ ' ' :: row cells := by
  cases cells with
  | nil => exact absurd rfl h
  | cons d cells => rfl

/-- A line in two parts. -/
theorem row_append (h : cells ≠ []) (h' : cells' ≠ []) :
    row (cells ++ cells') = row cells ++ ' ' :: row cells' := by
  induction cells with
  | nil => exact absurd rfl h
  | cons c cells ih =>
    cases cells with
    | nil => exact row_cons h'
    | cons d cells =>
      have hrest := ih (List.cons_ne_nil _ _)
      rw [List.cons_append, row_cons (by simp), hrest, row_cons (List.cons_ne_nil _ _),
        List.append_assoc, List.cons_append]

/-- What stands at the start of a cell. -/
theorem drop_start (h : k < cells.length) :
    (row cells).drop (start cells k) = row (cells.drop k) := by
  induction k generalizing cells with
  | zero => cases cells <;> rfl
  | succ k ih =>
    cases cells with
    | nil => cases h
    | cons c cells =>
      have hne : cells ≠ [] := by
        rintro rfl
        simp at h
      rw [row_cons hne, start, Nat.add_assoc, List.drop_append, List.drop_of_length_le (by omega),
        Nat.add_sub_cancel_left, List.nil_append, Nat.add_comm 1, List.drop_succ_cons,
        ih (by simpa using h), List.drop_succ_cons]

/-- **The cells are aligned exactly if those of the second line fit.** -/
theorem aligned_iff (hw : cells.map Cell.width = cells'.map Cell.width)
    (hfit : ∀ c ∈ cells.dropLast, c.Fits) :
    Aligned cells cells' ↔ ∀ c ∈ cells'.dropLast, c.Fits := by
  induction cells generalizing cells' with
  | nil =>
    obtain rfl : cells' = [] := List.map_eq_nil_iff.mp hw.symm
    exact iff_of_true (fun k hk => absurd hk (Nat.not_lt_zero k)) (by simp)
  | cons c cells ih =>
    obtain ⟨d, cells', rfl, hwidth, hw⟩ := List.map_eq_cons_iff.mp hw.symm
    cases cells with
    | nil =>
      obtain rfl : cells' = [] := List.map_eq_nil_iff.mp hw
      refine iff_of_true (fun k hk => ?_) (by simp)
      obtain rfl := Nat.lt_one_iff.mp hk
      rfl
    | cons c' cells =>
      obtain ⟨d', cells', rfl, -, -⟩ := List.map_eq_cons_iff.mp hw
      rw [List.dropLast_cons_cons, List.forall_mem_cons] at hfit ⊢
      rw [← ih hw.symm hfit.2]
      constructor
      · intro h
        -- the second cell shows that the first fits
        have hone := h 1 (by simp)
        simp only [start, hfit.1.padded_length, padded_length] at hone
        have hd : d.Fits := by
          unfold Cell.Fits
          omega
        refine ⟨hd, fun k hk => ?_⟩
        have hk' := h (k + 1) (Nat.succ_lt_succ hk)
        rw [start, start, hfit.1.padded_length, hd.padded_length] at hk'
        omega
      · rintro ⟨hd, h⟩ k hk
        cases k with
        | zero => rfl
        | succ k =>
          rw [start, start, hfit.1.padded_length, hd.padded_length, hwidth,
            h k (Nat.lt_of_succ_lt_succ hk)]

/-- **The cells are read off the line**, with their blanks, if all but the last fit. -/
theorem row_inj (hw : cells.map Cell.width = cells'.map Cell.width)
    (hfit : ∀ c ∈ cells.dropLast, c.Fits) (hfit' : ∀ c ∈ cells'.dropLast, c.Fits)
    (h : row cells = row cells') : cells.map Cell.padded = cells'.map Cell.padded := by
  induction cells generalizing cells' with
  | nil =>
    obtain rfl : cells' = [] := List.map_eq_nil_iff.mp hw.symm
    rfl
  | cons c cells ih =>
    obtain ⟨d, cells', rfl, hwidth, hw⟩ := List.map_eq_cons_iff.mp hw.symm
    cases cells with
    | nil =>
      obtain rfl : cells' = [] := List.map_eq_nil_iff.mp hw
      exact congrArg (fun text => [text]) h
    | cons c' cells =>
      obtain ⟨d', cells', rfl, -, -⟩ := List.map_eq_cons_iff.mp hw
      rw [List.dropLast_cons_cons, List.forall_mem_cons] at hfit hfit'
      rw [row_cons (List.cons_ne_nil _ _), row_cons (List.cons_ne_nil _ _)] at h
      have hlen : c.padded.length = d.padded.length := by
        rw [hfit.1.padded_length, hfit'.1.padded_length, hwidth]
      obtain ⟨hfirst, hrest⟩ := List.append_inj h hlen
      exact congrArg₂ List.cons hfirst (ih hw.symm hfit.2 hfit'.2 (List.cons.inj hrest).2)

/-- The blanks are told from a text that does not end in one. -/
theorem padded_inj {text text' : List Char} {width : Nat} (h : text.getLast? ≠ some ' ')
    (h' : text'.getLast? ≠ some ' ') (heq : text.rightpad width ' ' = text'.rightpad width ' ') :
    text = text' := by
  have hcut : ∀ (t : List Char) n, t.getLast? ≠ some ' ' →
      (t ++ List.replicate n ' ').rdropWhile (· == ' ') = t := by
    intro t n ht
    induction n with
    | zero =>
      rw [List.replicate_zero, List.append_nil, List.rdropWhile_eq_self_iff]
      intro hne hlast
      rw [beq_iff_eq] at hlast
      exact ht (hlast ▸ List.getLast?_eq_getLast_of_ne_nil hne)
    | succ n ih =>
      rw [List.replicate_succ', ← List.append_assoc, List.rdropWhile_concat_pos _ _ _ rfl, ih]
  have hdrop := congrArg (List.rdropWhile (· == ' ')) heq
  unfold List.rightpad at hdrop
  rwa [hcut _ _ h, hcut _ _ h'] at hdrop

end SkbTracer.Lib
