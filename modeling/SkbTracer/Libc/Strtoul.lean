import Mathlib.Algebra.Ring.Nat
import Mathlib.Data.List.TakeWhile

/-!
# C strings and `strtoul`

A `char *` made from a string ends at the first NUL. `strtoul` is called with base
0: blanks, a sign, and then a constant as in C, hexadecimal after `0x`, octal
after `0`, decimal else. A value that does not fit an `unsigned long` is reported,
a minus sign negates modulo 2^64.

`Literal` is the grammar of the texts that are read to their end. The reader follows it
(`literal_iff`), so such a text has one sign and one value (`Literal.unique`). The grammar
has no algorithm in it and is what statements about the program are in terms of:

- `strtoul_of_literal`: a literal that fits gives its value, and nothing is left over;
- `strtoul_of_overflow`: one that does not fit is reported;
- `literal_of_strtoul`: and if nothing is left over the text was a literal.

The pieces are the digits (`readDigits_iff`), the constant behind the sign
(`readConstant_iff`) and the sign (`readSign_sign`). A `0x` that no digit follows is the
constant `0` with an `x` left over, as the standard has it.

`unsigned long` has 64 bits. Blanks are the six of the C locale.
-/

namespace SkbTracer.Libc

/-- The C string that starts where `s` does. -/
def cStr (s : List Char) : List Char := s.takeWhile (· != '\x00')

/-- `isspace`. -/
def isSpace (c : Char) : Bool :=
  c == ' ' || c == '\t' || c == '\n' || c == '\x0b' || c == '\x0c' || c == '\r'

/-- The value of a digit, up to base 16. -/
def digitVal (c : Char) : Option Nat :=
  if '0' ≤ c ∧ c ≤ '9' then some (c.toNat - '0'.toNat)
  else if 'a' ≤ c ∧ c ≤ 'f' then some (c.toNat - 'a'.toNat + 10)
  else if 'A' ≤ c ∧ c ≤ 'F' then some (c.toNat - 'A'.toNat + 10)
  else none

/-- `c` is a digit of the base. -/
def isDigitOf (base : Nat) (c : Char) : Bool := (digitVal c).any (· < base)

/-- The longest run of digits of the base: its value, `v` being the value of the
digits before, and what follows. -/
def readDigits (base v : Nat) : List Char → Nat × List Char
  | [] => (v, [])
  | c :: s =>
    match digitVal c with
    | some d => if d < base then readDigits base (v * base + d) s else (v, c :: s)
    | none => (v, c :: s)

/-- What `strtoul` gives back. -/
structure Strtoul where
  val : Nat
  /-- where `endptr` points -/
  rest : List Char
  /-- `errno == ERANGE` -/
  erange : Bool
  deriving DecidableEq, Repr

/-- A constant as in C; `none` if there is no digit. -/
def readConstant : List Char → Option (Nat × List Char)
  | '0' :: x :: d :: s =>
    if (x = 'x' ∨ x = 'X') ∧ isDigitOf 16 d = true then some (readDigits 16 0 (d :: s))
    else some (readDigits 8 0 ('0' :: x :: d :: s))
  | '0' :: s => some (readDigits 8 0 ('0' :: s))
  | c :: s => if isDigitOf 10 c = true then some (readDigits 10 0 (c :: s)) else none
  | [] => none

/-- The sign: whether it is a minus, and what follows. -/
def readSign : List Char → Bool × List Char
  | '-' :: s => (true, s)
  | '+' :: s => (false, s)
  | s => (false, s)

/-- `strtoul(str, &endptr, 0)`. -/
def strtoul (str : List Char) : Strtoul :=
  let (negative, s) := readSign (str.dropWhile isSpace)
  match readConstant s with
  | none => { val := 0, rest := str, erange := false }
  | some (v, rest) =>
    if v ≥ 2 ^ 64 then { val := 2 ^ 64 - 1, rest, erange := true }
    else { val := if negative then (2 ^ 64 - v) % 2 ^ 64 else v, rest, erange := false }

/-! ## The texts it reads whole -/

/-- The number that the digits `s` stand for behind digits of the value `v`. -/
def digitsVal (base v : Nat) (s : List Char) : Nat :=
  s.foldl (fun v c => v * base + (digitVal c).getD 0) v

/-- A constant as in C, and its value. -/
inductive Constant : List Char → Nat → Prop
  | decimal {c : Char} {s : List Char} : c ≠ '0' → (∀ d ∈ c :: s, isDigitOf 10 d = true) →
      Constant (c :: s) (digitsVal 10 0 (c :: s))
  | octal {s : List Char} : (∀ d ∈ s, isDigitOf 8 d = true) → Constant ('0' :: s) (digitsVal 8 0 s)
  | hex {x d : Char} {s : List Char} : x = 'x' ∨ x = 'X' → (∀ e ∈ d :: s, isDigitOf 16 e = true) →
      Constant ('0' :: x :: d :: s) (digitsVal 16 0 (d :: s))

/-- The signs that may stand in front of a constant. -/
def signs (negative : Bool) : List (List Char) := if negative then [['-']] else [[], ['+']]

/-- Blanks, a sign, and a constant of value `v`. -/
def Literal (negative : Bool) (str : List Char) (v : Nat) : Prop :=
  ∃ blanks sign s, str = blanks ++ (sign ++ s) ∧ (∀ c ∈ blanks, isSpace c = true) ∧
    sign ∈ signs negative ∧ Constant s v

/-- The number `strtoul` gives back for a value with or without a minus sign. -/
def signedVal (negative : Bool) (v : Nat) : Nat := if negative then (2 ^ 64 - v) % 2 ^ 64 else v

variable {base v n : Nat} {s str : List Char} {negative : Bool}

/-- Digits are read to their end, -/
theorem readDigits_of_digits (h : ∀ c ∈ s, isDigitOf base c = true) :
    readDigits base v s = (digitsVal base v s, []) := by
  induction s generalizing v with
  | nil => rfl
  | cons c s ih =>
    have hc := h c List.mem_cons_self
    unfold isDigitOf at hc
    unfold readDigits
    cases hd : digitVal c with
    | none =>
      rw [hd] at hc
      cases hc
    | some d =>
      rw [hd] at hc
      dsimp only
      rw [if_pos (of_decide_eq_true hc), ih fun e he => h e (List.mem_cons_of_mem _ he)]
      unfold digitsVal
      rw [List.foldl_cons, hd]
      rfl

/-- and what is read to its end was digits. -/
theorem digits_of_readDigits (h : (readDigits base v s).2 = []) :
    ∀ c ∈ s, isDigitOf base c = true := by
  induction s generalizing v with
  | nil => exact fun c hc => by cases hc
  | cons c s ih =>
    unfold readDigits at h
    cases hd : digitVal c with
    | none =>
      rw [hd] at h
      cases h
    | some d =>
      rw [hd] at h
      dsimp only at h
      by_cases hlt : d < base
      · rw [if_pos hlt] at h
        intro e he
        rcases List.mem_cons.mp he with rfl | he
        · unfold isDigitOf
          rw [hd]
          exact decide_eq_true hlt
        · exact ih h e he
      · rw [if_neg hlt] at h
        cases h

theorem digitsVal_zero_cons (s : List Char) : digitsVal base 0 ('0' :: s) = digitsVal base 0 s := by
  unfold digitsVal
  rw [List.foldl_cons, Nat.zero_mul]
  rfl

/-- So both come to the same. -/
theorem readDigits_iff : readDigits base v s = (n, []) ↔
    (∀ c ∈ s, isDigitOf base c = true) ∧ n = digitsVal base v s := by
  constructor
  · intro h
    have hdigits := digits_of_readDigits (congrArg Prod.snd h)
    rw [readDigits_of_digits hdigits] at h
    exact ⟨hdigits, (congrArg Prod.fst h).symm⟩
  · intro ⟨hdigits, hn⟩
    rw [readDigits_of_digits hdigits, hn]

/-- Octal digits from a zero on. -/
theorem readDigits_octal_iff :
    readDigits 8 0 ('0' :: s) = (v, []) ↔
      (∀ c ∈ s, isDigitOf 8 c = true) ∧ v = digitsVal 8 0 s := by
  rw [readDigits_iff, digitsVal_zero_cons]
  constructor
  · intro ⟨hdigits, hv⟩
    exact ⟨fun c hc => hdigits c (List.mem_cons_of_mem _ hc), hv⟩
  · intro ⟨hdigits, hv⟩
    refine ⟨fun c hc => ?_, hv⟩
    rcases List.mem_cons.mp hc with rfl | hc
    · decide
    · exact hdigits c hc

/-- Behind a zero there stand octal digits, or an `x` and hexadecimal ones. -/
theorem constant_zero_iff : Constant ('0' :: s) v ↔
    ((∀ c ∈ s, isDigitOf 8 c = true) ∧ v = digitsVal 8 0 s) ∨
      ∃ x d t, s = x :: d :: t ∧ (x = 'x' ∨ x = 'X') ∧
        (∀ c ∈ d :: t, isDigitOf 16 c = true) ∧ v = digitsVal 16 0 (d :: t) := by
  constructor
  · intro h
    cases h with
    | decimal hne _ => exact absurd rfl hne
    | octal hdigits => exact Or.inl ⟨hdigits, rfl⟩
    | hex hx hdigits => exact Or.inr ⟨_, _, _, rfl, hx, hdigits, rfl⟩
  · intro h
    rcases h with ⟨hdigits, rfl⟩ | ⟨x, d, t, rfl, hx, hdigits, rfl⟩
    · exact .octal hdigits
    · exact .hex hx hdigits

theorem not_octal_x {x : Char} (hx : x = 'x' ∨ x = 'X') : isDigitOf 8 x = false := by
  rcases hx with rfl | rfl
  · decide
  · decide

/-- What is read whole is a constant, with its value. -/
theorem readConstant_iff : readConstant s = some (v, []) ↔ Constant s v := by
  unfold readConstant
  split
  next x d t =>
    rw [constant_zero_iff]
    split
    next hx =>
      -- the prefix decides: `x` is no octal digit
      rw [Option.some.injEq, readDigits_iff]
      constructor
      · intro ⟨hdigits, hv⟩
        exact Or.inr ⟨x, d, t, rfl, hx.1, hdigits, hv⟩
      · intro h
        rcases h with ⟨hdigits, -⟩ | ⟨x', d', t', heq, -, hdigits, hv⟩
        · have hoctal := hdigits x List.mem_cons_self
          rw [not_octal_x hx.1] at hoctal
          cases hoctal
        · cases heq
          exact ⟨hdigits, hv⟩
    next hx =>
      rw [Option.some.injEq, readDigits_octal_iff]
      constructor
      · exact Or.inl
      · intro h
        rcases h with h | ⟨x', d', t', heq, hx', hdigits, -⟩
        · exact h
        · cases heq
          exact absurd ⟨hx', hdigits d List.mem_cons_self⟩ hx
  next t hshort =>
    rw [Option.some.injEq, readDigits_octal_iff, constant_zero_iff]
    constructor
    · exact Or.inl
    · intro h
      rcases h with h | ⟨x, d, t', rfl, -⟩
      · exact h
      · exact absurd rfl (hshort x d t')
  next c t hne hzero =>
    constructor
    · intro h
      split at h
      next hc =>
        rw [Option.some.injEq, readDigits_iff] at h
        obtain ⟨hdigits, rfl⟩ := h
        exact .decimal (fun hc0 => hzero hc0) hdigits
      next => cases h
    · intro h
      cases h with
      | decimal _ hdigits =>
        rw [if_pos (hdigits c List.mem_cons_self), Option.some.injEq, readDigits_iff]
        exact ⟨hdigits, rfl⟩
      | octal => exact absurd rfl hzero
      | hex => exact absurd rfl hzero
  next =>
    constructor
    · intro h
      cases h
    · intro h
      cases h

theorem Constant.head (h : Constant s v) : ∃ c t, s = c :: t ∧ isDigitOf 10 c = true := by
  cases h with
  | decimal _ hdigits => exact ⟨_, _, rfl, hdigits _ List.mem_cons_self⟩
  | octal => exact ⟨_, _, rfl, by decide⟩
  | hex => exact ⟨_, _, rfl, by decide⟩

theorem Literal.ne_nil (h : Literal negative str v) : str ≠ [] := by
  obtain ⟨blanks, sign, s, rfl, -, -, hconst⟩ := h
  obtain ⟨c, t, rfl, -⟩ := hconst.head
  simp

theorem not_isSpace_of_digit {c : Char} (h : isDigitOf 10 c = true) : isSpace c = false := by
  cases hc : isSpace c with
  | false => rfl
  | true =>
    unfold isSpace at hc
    simp only [Bool.or_eq_true, beq_iff_eq] at hc
    rcases hc with ((((rfl | rfl) | rfl) | rfl) | rfl) | rfl
    all_goals exact absurd h (by decide)

/-- The sign of a constant is read, and the constant is left. -/
theorem readSign_sign {sign : List Char} (hsign : sign ∈ signs negative) (h : Constant s v) :
    readSign ((sign ++ s).dropWhile isSpace) = (negative, s) := by
  obtain ⟨c, t, rfl, hc⟩ := h.head
  unfold signs at hsign
  cases negative with
  | true =>
    obtain rfl := List.mem_singleton.mp hsign
    rfl
  | false =>
    rcases List.mem_cons.mp hsign with rfl | hsign
    · -- no sign: the constant starts with a digit
      rw [List.nil_append, List.dropWhile_cons_of_neg (by rw [not_isSpace_of_digit hc]; decide)]
      unfold readSign
      split
      next heq =>
        cases heq
        exact absurd hc (by decide)
      next heq =>
        cases heq
        exact absurd hc (by decide)
      next => rfl
    · obtain rfl := List.mem_singleton.mp hsign
      rfl

/-- The sign that was read is there. -/
theorem exists_sign {t : List Char} (h : readSign t = (negative, s)) :
    ∃ sign ∈ signs negative, t = sign ++ s := by
  unfold readSign at h
  split at h
  next =>
    cases h
    exact ⟨['-'], List.mem_singleton_self _, rfl⟩
  next =>
    cases h
    exact ⟨['+'], List.mem_cons_of_mem _ (List.mem_singleton_self _), rfl⟩
  next =>
    cases h
    exact ⟨[], List.mem_cons_self, rfl⟩

/-- A literal is what is read as one. -/
theorem literal_iff : Literal negative str v ↔
    ∃ s, readSign (str.dropWhile isSpace) = (negative, s) ∧ readConstant s = some (v, []) := by
  constructor
  · intro ⟨blanks, sign, s, hstr, hblanks, hsign, hconst⟩
    refine ⟨s, ?_, readConstant_iff.mpr hconst⟩
    rw [hstr, List.dropWhile_append_of_pos hblanks]
    exact readSign_sign hsign hconst
  · intro ⟨s, hread, hconst⟩
    obtain ⟨sign, hsign, hrest⟩ := exists_sign hread
    refine ⟨str.takeWhile isSpace, sign, s, ?_, fun c hc => List.mem_takeWhile_imp hc, hsign,
      readConstant_iff.mp hconst⟩
    rw [← hrest, List.takeWhile_append_dropWhile]

/-- A text is a literal in one way at most. -/
theorem Literal.unique {negative' : Bool} {v' : Nat} (h : Literal negative str v)
    (h' : Literal negative' str v') : negative = negative' ∧ v = v' := by
  obtain ⟨s, hread, hconst⟩ := literal_iff.mp h
  obtain ⟨s', hread', hconst'⟩ := literal_iff.mp h'
  rw [hread] at hread'
  cases hread'
  rw [hconst] at hconst'
  cases hconst'
  exact ⟨rfl, rfl⟩

/-- A literal that fits is read whole, and negated if it has a minus sign. -/
theorem strtoul_of_literal (h : Literal negative str v) (hlt : v < 2 ^ 64) :
    strtoul str = { val := signedVal negative v, rest := [], erange := false } := by
  obtain ⟨s, hread, hconst⟩ := literal_iff.mp h
  unfold strtoul
  rw [hread]
  dsimp only
  rw [hconst]
  exact if_neg (by omega)

/-- One that does not fit is reported. -/
theorem strtoul_of_overflow (h : Literal negative str v) (hge : v ≥ 2 ^ 64) :
    (strtoul str).erange = true := by
  obtain ⟨s, hread, hconst⟩ := literal_iff.mp h
  unfold strtoul
  rw [hread]
  dsimp only
  rw [hconst]
  dsimp only
  rw [if_pos hge]

/-- Only a literal is read to its end. -/
theorem literal_of_strtoul (hne : str ≠ []) (h : (strtoul str).rest = []) :
    ∃ negative v, Literal negative str v := by
  unfold strtoul at h
  rcases hread : readSign (str.dropWhile isSpace) with ⟨negative, s⟩
  rw [hread] at h
  dsimp only at h
  cases hconst : readConstant s with
  | none =>
    rw [hconst] at h
    exact absurd h hne
  | some r =>
    obtain ⟨v, rest⟩ := r
    rw [hconst] at h
    have hrest : rest = [] := by
      dsimp only at h
      split at h
      · exact h
      · exact h
    rw [hrest] at hconst
    exact ⟨negative, v, literal_iff.mpr ⟨s, hread, hconst⟩⟩

end SkbTracer.Libc
