import SkbTracer.Cfg.Netns

/-!
# Which texts `parse_u32` accepts

`strtoul` negates modulo 2^64 when there is a minus sign, and `parse_u32` sees only
the result. A negative literal whose negation is small passes all four checks, and is
stored as another number. `parse_u32_iff` says that no other text goes wrong.

`ParsesU32` is what should be: a text is accepted exactly if it is a literal without a
minus sign of a number below 2^32, that number is stored then, and otherwise nothing is.
`WrapsToU32` are the texts that are left, by their value: a zero with a minus sign, and the
numbers so far below zero that they come out small again.

- `parseU32_of_literal`, `literal_of_parseU32`: what becomes of a literal, and that nothing
  else is accepted;
- `parse_u32_iff`: it is as it should be exactly if the text does not wrap;
- `negative_accepted`: such a text, and the number that is stored.

Literals are those of C for base 0: decimal, octal after `0`, hexadecimal after `0x`. Some
libraries read binary ones too, which is left out; so are locales with blanks or digits of
their own.
-/

namespace SkbTracer.Cfg

open SkbTracer.Libc

/-- `parse_u32(str, out)`: its result, and `out` as it leaves it. -/
def parseU32Out (str : List Char) (out : BitVec 32) : Bool × BitVec 32 :=
  match parseU32 str with
  | none => (false, out)
  | some val => (true, val)

/-- The text is accepted if it is a literal without a minus sign that fits 32 bits. Its
value is stored then, and nothing else. -/
structure ParsesU32 (str : List Char) (out : BitVec 32) : Prop where
  accepts : (parseU32Out str out).1 = true ↔ ∃ v, Literal false str v ∧ v < 2 ^ 32
  stores : ∀ v, Literal false str v → v < 2 ^ 32 → (parseU32Out str out).2.toNat = v
  unchanged : (parseU32Out str out).1 = false → (parseU32Out str out).2 = out

/-- A minus sign, and a value that is small when it is negated in 64 bits. -/
def WrapsToU32 (str : List Char) : Prop :=
  ∃ v, Literal true str v ∧ (v = 0 ∨ 2 ^ 64 - 2 ^ 32 < v ∧ v < 2 ^ 64)

variable {str : List Char} {negative : Bool} {v : Nat} {out x : BitVec 32}

/-- `parse_u32` goes by the number that `strtoul` makes of a literal. -/
theorem parseU32_of_literal (h : Literal negative str v) :
    parseU32 str =
      if v < 2 ^ 64 ∧ signedVal negative v < 2 ^ 32 then
        some (BitVec.ofNat 32 (signedVal negative v))
      else none := by
  have hlen : 0 ≠ str.length := fun h0 => h.ne_nil (List.length_eq_zero_iff.mp h0.symm)
  unfold parseU32
  rw [if_neg h.ne_nil]
  by_cases hlt : v < 2 ^ 64
  · rw [strtoul_of_literal h hlt]
    by_cases hval : signedVal negative v < 2 ^ 32
    · refine (if_neg ?_).trans (if_pos ⟨hlt, hval⟩).symm
      simp only [Bool.false_eq_true, List.length_nil, ne_eq, not_true_eq_false, false_or, not_or]
      exact ⟨hlen, by omega⟩
    · have hbig : signedVal negative v > 2 ^ 32 - 1 := by omega
      exact (if_pos (Or.inr (Or.inr (Or.inr hbig)))).trans (if_neg fun hfits => hval hfits.2).symm
  · have herange := strtoul_of_overflow h (by omega)
    exact (if_pos (Or.inl herange)).trans (if_neg fun hfits => hlt hfits.1).symm

/-- What is accepted is a literal. -/
theorem literal_of_parseU32 (h : parseU32 str = some x) :
    ∃ negative v, Literal negative str v := by
  unfold parseU32 at h
  split at h
  next => cases h
  next hne =>
    dsimp only at h
    split at h
    next => cases h
    next hchecks =>
      simp only [not_or, ne_eq, not_not] at hchecks
      exact literal_of_strtoul hne hchecks.2.2.1

/-- It accepts the literals of 64 bits whose value with its sign, modulo 2^64, is one of
32. -/
theorem accepts_iff :
    (parseU32Out str out).1 = true ↔ ∃ negative v, Literal negative str v ∧ v < 2 ^ 64 ∧
      signedVal negative v < 2 ^ 32 := by
  unfold parseU32Out
  constructor
  · intro h
    cases hparse : parseU32 str with
    | none =>
      rw [hparse] at h
      cases h
    | some x =>
      obtain ⟨negative, v, hlit⟩ := literal_of_parseU32 hparse
      refine ⟨negative, v, hlit, ?_⟩
      rw [parseU32_of_literal hlit] at hparse
      by_contra hfits
      rw [if_neg hfits] at hparse
      cases hparse
  · intro ⟨negative, v, hlit, hfits⟩
    rw [parseU32_of_literal hlit, if_pos hfits]

/-- **`parse_u32` accepts exactly the literals of 32 bits, but for the texts that wrap.**
It fails on every negative literal from `-18446744073709551615` up to
`-18446744069414584321`, and on a zero with a minus sign. -/
theorem parse_u32_iff (str : List Char) (out : BitVec 32) :
    ParsesU32 str out ↔ ¬ WrapsToU32 str := by
  constructor
  · intro hparses ⟨v, hlit, hwraps⟩
    -- it is accepted, so there should be a literal without a minus sign
    have haccepted : (parseU32Out str out).1 = true := by
      refine accepts_iff.mpr ⟨true, v, hlit, ?_, ?_⟩
      · omega
      · show (2 ^ 64 - v) % 2 ^ 64 < 2 ^ 32
        omega
    obtain ⟨v', hlit', -⟩ := hparses.accepts.mp haccepted
    exact absurd (hlit.unique hlit').1 (by decide)
  · intro hwraps
    refine ⟨?_, ?_, ?_⟩
    · rw [accepts_iff]
      constructor
      · intro ⟨negative, v, hlit, hlt, hfits⟩
        cases negative with
        | false => exact ⟨v, hlit, hfits⟩
        | true =>
          have hsmall : (2 ^ 64 - v) % 2 ^ 64 < 2 ^ 32 := hfits
          exact absurd ⟨v, hlit, by omega⟩ hwraps
      · intro ⟨v, hlit, hlt⟩
        exact ⟨false, v, hlit, by omega, hlt⟩
    · intro v hlit hlt
      have hfits : v < 2 ^ 64 ∧ signedVal false v < 2 ^ 32 := ⟨by omega, hlt⟩
      unfold parseU32Out
      rw [parseU32_of_literal hlit, if_pos hfits]
      show (BitVec.ofNat 32 v).toNat = v
      rw [BitVec.toNat_ofNat, Nat.mod_eq_of_lt hlt]
    · intro hrejected
      unfold parseU32Out at hrejected ⊢
      cases hparse : parseU32 str with
      | none => rfl
      | some x =>
        rw [hparse] at hrejected
        cases hrejected

/-- Minus 2^64 - 1 is taken for one. -/
theorem negative_accepted :
    Literal true "-18446744073709551615".toList 18446744073709551615 ∧
      parseU32Out "-18446744073709551615".toList 0 = (true, 1) ∧
      ¬ ParsesU32 "-18446744073709551615".toList 0 := by
  have hlit : Literal true "-18446744073709551615".toList 18446744073709551615 :=
    literal_iff.mpr ⟨"18446744073709551615".toList, by decide, by decide⟩
  have hparse : parseU32Out "-18446744073709551615".toList 0 = (true, 1) := by decide
  refine ⟨hlit, hparse, fun hparses => ?_⟩
  obtain ⟨v, hlit', -⟩ := hparses.accepts.mp (congrArg Prod.fst hparse)
  exact absurd (hlit.unique hlit').1 (by decide)

end SkbTracer.Cfg
