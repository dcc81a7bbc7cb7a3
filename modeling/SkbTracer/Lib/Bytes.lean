import Mathlib.Algebra.Ring.Nat

/-!
# Bytes, byte order, and a byte memory read in words

Values in memory are sequences of bytes. `leNat` and `beNat` read the first `n`
bytes of a sequence as a number, least or most significant byte first, and
`byteOf v` is the byte sequence of a number. The facts used elsewhere:

- `leNat_byteOf`: reading back the bytes of `v` gives `v` cut to `n` bytes;
- `byteOf_leNat`: the bytes of a number that was read are those it was read from;
- `beNat_byteOf_leNat`: swapping the bytes of a little-endian read is the big-endian
  read, which is what a byte swap after a load comes to;
- `mod_eq_iff_bytes` and `eq_of_bytes`: numbers are compared byte by byte.

`load` and `store` are word accesses to a memory that grows downwards, indexed
by the depth below its top, as a stack frame addressed from its base pointer.
`load_store` and `load_store_of_disjoint` are its two laws, for a load of what was
stored and for one that has no byte in common with the store. Accesses that overlap in
part are not covered, and code that needs them goes down to `load_storeBytes`.

Sequences of bytes are functions from places, so a length is said where it matters and
nowhere else.
-/

namespace SkbTracer.Lib

abbrev Byte := BitVec 8

/-- The number whose `n` bytes, least significant first, are `f 0, f 1, …`. -/
def leNat (f : Nat → Byte) : Nat → Nat
  | 0 => 0
  | n + 1 => (f 0).toNat + 256 * leNat (fun i => f (i + 1)) n

/-- The number whose `n` bytes, most significant first, are `f 0, f 1, …`. -/
def beNat (f : Nat → Byte) : Nat → Nat
  | 0 => 0
  | n + 1 => beNat f n * 256 + (f n).toNat

/-- Byte `i` of `v`, counted from the least significant. -/
def byteOf (v i : Nat) : Byte := BitVec.ofNat 8 (v / 256 ^ i)

/-- Only the first `n` bytes matter. -/
theorem leNat_congr {f g : Nat → Byte} {n : Nat} (h : ∀ i, i < n → f i = g i) :
    leNat f n = leNat g n := by
  induction n generalizing f g with
  | zero => rfl
  | succ n ih =>
    simp only [leNat]
    rw [h 0 (by omega), ih fun i hi => h (i + 1) (by omega)]

/-- The same for the other order. -/
theorem beNat_congr {f g : Nat → Byte} {n : Nat} (h : ∀ i, i < n → f i = g i) :
    beNat f n = beNat g n := by
  induction n with
  | zero => rfl
  | succ n ih =>
    simp only [beNat]
    rw [h n (by omega), ih fun i hi => h i (by omega)]

/-- `n` bytes make a number below `256 ^ n`. -/
theorem leNat_lt (f : Nat → Byte) (n : Nat) : leNat f n < 256 ^ n := by
  induction n generalizing f with
  | zero => simp [leNat]
  | succ n ih =>
    have h0 := (f 0).isLt
    have h1 := ih fun i => f (i + 1)
    simp only [leNat, Nat.pow_succ]
    omega

theorem leNat_add (f : Nat → Byte) (n k : Nat) :
    leNat f (n + k) = leNat f n + 256 ^ n * leNat (fun i => f (n + i)) k := by
  induction n generalizing f with
  | zero => simp [leNat]
  | succ n ih =>
    have hsucc : (fun i => f (n + 1 + i)) = fun i => f (n + i + 1) := by
      funext i
      rw [Nat.add_right_comm]
    rw [Nat.add_right_comm, leNat, leNat, ih, Nat.pow_succ, hsucc, Nat.mul_add, Nat.add_assoc,
      Nat.mul_comm (256 ^ n) 256, Nat.mul_assoc]

theorem leNat_eq_zero {f : Nat → Byte} {n : Nat} (h : ∀ i < n, f i = 0) : leNat f n = 0 := by
  induction n generalizing f with
  | zero => rfl
  | succ n ih =>
    rw [leNat, h 0 (by omega), ih fun i hi => h (i + 1) (by omega)]
    rfl

theorem beNat_lt (f : Nat → Byte) (n : Nat) : beNat f n < 256 ^ n := by
  induction n with
  | zero => simp [beNat]
  | succ n ih =>
    have h0 := (f n).isLt
    simp only [beNat, Nat.pow_succ]
    omega

theorem byteOf_succ (v i : Nat) : byteOf v (i + 1) = byteOf (v / 256) i := by
  unfold byteOf
  rw [Nat.pow_succ, Nat.mul_comm, Nat.div_div_eq_div_mul]

/-- Reading back the bytes of `v` gives `v`, cut to the bytes read. -/
theorem leNat_byteOf (v n : Nat) : leNat (byteOf v) n = v % 256 ^ n := by
  induction n generalizing v with
  | zero => simp [leNat, Nat.mod_one]
  | succ n ih =>
    simp only [leNat, byteOf_succ]
    rw [ih, Nat.pow_succ, Nat.mul_comm (256 ^ n) 256, Nat.mod_mul]
    simp [byteOf]

/-- The bytes of a little-endian read are the bytes that were read. -/
theorem byteOf_leNat {f : Nat → Byte} {n i : Nat} (hi : i < n) : byteOf (leNat f n) i = f i := by
  induction i generalizing f n with
  | zero =>
    obtain ⟨m, rfl⟩ : ∃ m, n = m + 1 := ⟨n - 1, by omega⟩
    apply BitVec.eq_of_toNat_eq
    have h0 := (f 0).isLt
    simp only [byteOf, leNat, Nat.pow_zero, Nat.div_one, BitVec.toNat_ofNat]
    omega
  | succ i ih =>
    obtain ⟨m, rfl⟩ : ∃ m, n = m + 1 := ⟨n - 1, by omega⟩
    have h0 := (f 0).isLt
    have hdiv : leNat f (m + 1) / 256 = leNat (fun j => f (j + 1)) m := by
      simp only [leNat]
      omega
    rw [byteOf_succ, hdiv, ih (by omega)]

theorem byteOf_zero (i : Nat) : byteOf 0 i = 0 := by
  unfold byteOf
  rw [Nat.zero_div]
  rfl

/-- The first `n` bytes of a number make up what is left of it modulo `256 ^ n`. -/
theorem mod_eq_iff_bytes {v v' n : Nat} :
    v % 256 ^ n = v' % 256 ^ n ↔ ∀ i < n, byteOf v i = byteOf v' i := by
  constructor
  · intro h i hi
    rw [← leNat_byteOf, ← leNat_byteOf] at h
    rw [← byteOf_leNat (f := byteOf v) hi, h, byteOf_leNat hi]
  · intro h
    rw [← leNat_byteOf, leNat_congr h, leNat_byteOf]

/-- Words are equal if all their bytes are. -/
theorem eq_of_bytes {k : Nat} {x y : BitVec (8 * k)}
    (h : ∀ i < k, byteOf x.toNat i = byteOf y.toNat i) : x = y := by
  have hmod := mod_eq_iff_bytes.mpr h
  have hpow : 256 ^ k = 2 ^ (8 * k) := (Nat.pow_mul 2 8 k).symm
  rw [hpow, Nat.mod_eq_of_lt x.isLt, Nat.mod_eq_of_lt y.isLt] at hmod
  exact BitVec.eq_of_toNat_eq hmod

/-- Swapping the bytes of a little-endian read gives the big-endian read. -/
theorem beNat_byteOf_leNat (f : Nat → Byte) (n : Nat) :
    beNat (byteOf (leNat f n)) n = beNat f n :=
  beNat_congr fun _ hi => byteOf_leNat hi

/-! ## A memory indexed by depth -/

/-- The `n`-byte little-endian word that starts `d` bytes below the top. -/
def load (m : Nat → Byte) (d n : Nat) : Nat := leNat (fun i => m (d - i)) n

/-- Overwrite the `n` bytes that start `d` bytes below the top. -/
def storeBytes (m : Nat → Byte) (d n : Nat) (f : Nat → Byte) : Nat → Byte :=
  fun q => if d < q + n ∧ q ≤ d then f (d - q) else m q

/-- Store the low `n` bytes of `v`, `d` bytes below the top. -/
def store (m : Nat → Byte) (d n v : Nat) : Nat → Byte := storeBytes m d n (byteOf v)

theorem load_lt (m : Nat → Byte) (d n : Nat) : load m d n < 256 ^ n := leNat_lt _ n

/-- A load of bytes just overwritten reads them. -/
theorem load_storeBytes {m : Nat → Byte} {d n : Nat} {f : Nat → Byte} (h : n ≤ d) :
    load (storeBytes m d n f) d n = leNat f n := by
  unfold load
  refine leNat_congr fun i hi => ?_
  unfold storeBytes
  rw [if_pos (by omega), show d - (d - i) = i from by omega]

/-- A load disjoint from the bytes overwritten reads what it read before. -/
theorem load_storeBytes_of_disjoint {m : Nat → Byte} {d n d' n' : Nat} {f : Nat → Byte}
    (h : d + n' ≤ d' ∨ d' + n ≤ d) (hd : n ≤ d) :
    load (storeBytes m d' n' f) d n = load m d n := by
  unfold load
  refine leNat_congr fun i hi => ?_
  unfold storeBytes
  rw [if_neg (by omega)]

/-- What was stored is loaded again, cut to the width of the store. -/
theorem load_store {m : Nat → Byte} {d n v : Nat} (h : n ≤ d) :
    load (store m d n v) d n = v % 256 ^ n := by
  unfold store
  rw [load_storeBytes h, leNat_byteOf]

/-- A store changes no load that has no byte in common with it. -/
theorem load_store_of_disjoint {m : Nat → Byte} {d n d' n' v : Nat}
    (h : d + n' ≤ d' ∨ d' + n ≤ d) (hd : n ≤ d) :
    load (store m d' n' v) d n = load m d n :=
  load_storeBytes_of_disjoint h hd

end SkbTracer.Lib
