import SkbTracer.Lib.Bytes

/-!
# `inet_ntop`

The text of an address, from its bytes in network order. An IPv4 address is four
decimal numbers. An IPv6 address is eight hexadecimal ones, where the first of the
longest runs of two or more zeros is left out; the last two are written as an IPv4
address if all the others are zero, or are zeros with `ffff` behind them.

`inet_ntop` is not part of the program, and this is written after the C library's own
algorithm: `ZeroRuns.step` is its loop over the words, which keeps the best run so far and
the current one, and `inetWords` the loop that writes the numbers. An address has letters
in lower case and no leading zeros.

Only the text is here. That it fits the buffer of the caller, and that two addresses never
have the same, is proved where it is used.
-/

namespace SkbTracer.Libc

open SkbTracer.Lib (Byte)

/-- `inet_ntop(AF_INET, ..)`. -/
def inetNtop4 (b : Nat → Byte) : List Char :=
  Nat.toDigits 10 (b 0).toNat ++ '.' :: (Nat.toDigits 10 (b 1).toNat ++
    '.' :: (Nat.toDigits 10 (b 2).toNat ++ '.' :: Nat.toDigits 10 (b 3).toNat))

/-- The number at place `i`, of eight. -/
def inetWord (b : Nat → Byte) (i : Nat) : Nat := (b (2 * i)).toNat * 256 + (b (2 * i + 1)).toNat

/-- A run of zeros. -/
structure ZeroRun where
  base : Nat
  len : Nat
  deriving DecidableEq, Repr

/-- The longest run so far, and the one that goes on. -/
structure ZeroRuns where
  best : Option ZeroRun
  cur : Option ZeroRun

/-- The run that goes on has come to its end. -/
def ZeroRuns.close (s : ZeroRuns) : Option ZeroRun :=
  match s.cur, s.best with
  | none, best => best
  | some cur, none => some cur
  | some cur, some best => if cur.len > best.len then some cur else some best

/-- One word: it goes on with a run of zeros, begins one, or ends it. -/
def ZeroRuns.step (b : Nat → Byte) (s : ZeroRuns) (i : Nat) : ZeroRuns :=
  if inetWord b i = 0 then
    match s.cur with
    | none => { s with cur := some { base := i, len := 1 } }
    | some cur => { s with cur := some { cur with len := cur.len + 1 } }
  else { best := s.close, cur := none }

/-- The run that is left out. -/
def zeroRun (b : Nat → Byte) : Option ZeroRun :=
  ((List.range 8).foldl (ZeroRuns.step b) { best := none, cur := none }).close.filter
    fun best => 2 ≤ best.len

/-- The address ends like an IPv4 address. -/
def endsInV4 (b : Nat → Byte) (best : Option ZeroRun) : Bool :=
  best == some { base := 0, len := 6 } ||
    (best == some { base := 0, len := 5 } && inetWord b 5 == 0xffff)

/-- The numbers from the `n`-th but last on. -/
def inetWords (b : Nat → Byte) (best : Option ZeroRun) : Nat → List Char
  | 0 => []
  | n + 1 =>
    let i := 7 - n
    if best.any fun run => run.base ≤ i && i < run.base + run.len then
      (if best.any fun run => run.base == i then [':'] else []) ++ inetWords b best n
    else
      (if i = 0 then [] else [':']) ++
        if i = 6 ∧ endsInV4 b best = true then inetNtop4 fun k => b (12 + k)
        else Nat.toDigits 16 (inetWord b i) ++ inetWords b best n

/-- `inet_ntop(AF_INET6, ..)`. -/
def inetNtop6 (b : Nat → Byte) : List Char :=
  inetWords b (zeroRun b) 8 ++
    if (zeroRun b).any fun run => run.base + run.len == 8 then [':'] else []

/-- An IPv4 text is that of four bytes. -/
theorem inetNtop4_congr {b b' : Nat → Byte} (h : ∀ i < 4, b i = b' i) :
    inetNtop4 b = inetNtop4 b' := by
  unfold inetNtop4
  rw [h 0 (by omega), h 1 (by omega), h 2 (by omega), h 3 (by omega)]

/-- The two texts of an address of zeros. -/
theorem inetNtop4_zero : inetNtop4 (fun _ => 0) = "0.0.0.0".toList := by decide

theorem inetNtop6_zero : inetNtop6 (fun _ => 0) = "::".toList := by decide

example : inetNtop6
    (fun i => [0x20, 1, 0xd, 0xb8, 0, 0, 0, 0, 0, 1, 0, 0, 0, 0, 0, 2].getD i 0) =
      "2001:db8::1:0:0:2".toList := by decide

example : inetNtop6 (fun i => [0, 0, 0, 0, 0, 0, 0, 0, 0, 0, 0xff, 0xff, 10, 0, 0, 1].getD i 0) =
    "::ffff:10.0.0.1".toList := by decide

end SkbTracer.Libc
