import SkbTracer.Lib.Bytes

/-!
# A memory that can be read in part

A memory gives a byte for every address that can be read, and nothing for the others.
`Mem.read` reads a range whole or not at all, as a copy from a place that may fault does.
`Mem.word` reads a little-endian word and takes an unreadable one for zero, as a reader
does that clears its destination when the copy fails.

`Mem.Holds m addr bs` says that the text `bs` stands in memory from `addr` on. From it
come the reads of its parts:

- `Mem.Holds.read`: a range of the text reads as that part of the text;
- `Mem.Holds.word`: and as a number, a word of it;
- `Mem.Holds.left`, `Mem.Holds.right`: the two parts of a text in memory.

`Mem.word_congr` is the frame rule: a word depends on its own bytes and on whether they
can be read.

The last two sections build memories to run things on: `wordMem` from a function that
gives its words, where everything can be read, and `Mem.withText`, which puts a text into
a memory (`Mem.withText_holds`) and leaves the words before it alone
(`Mem.withText_word_below`).

Addresses are 64 bits wide and wrap around. Only a text that is put into a memory has to
end before the top.
-/

namespace SkbTracer.Lib

abbrev Mem := BitVec 64 → Option Byte

/-- The `n` bytes from `addr` on can be read. -/
def Mem.Readable (m : Mem) (addr : BitVec 64) (n : Nat) : Prop :=
  ∀ i < n, (m (addr + BitVec.ofNat 64 i)).isSome = true

instance (m : Mem) (addr : BitVec 64) (n : Nat) : Decidable (m.Readable addr n) :=
  inferInstanceAs (Decidable (∀ i < n, _))

/-- The byte at an address, zero where it cannot be read. -/
def Mem.byte (m : Mem) (addr : BitVec 64) : Byte := (m addr).getD 0

/-- The `n` bytes from `addr` on, if they can all be read. -/
def Mem.read (m : Mem) (addr : BitVec 64) (n : Nat) : Option (Nat → Byte) :=
  if m.Readable addr n then some fun i => m.byte (addr + BitVec.ofNat 64 i) else none

/-- The little-endian word of `n` bytes at `addr`, zero if it cannot be read. -/
def Mem.word (m : Mem) (addr : BitVec 64) (n : Nat) : Nat :=
  match m.read addr n with
  | some f => leNat f n
  | none => 0

/-- Whether a range can be read depends on its own bytes. -/
theorem Mem.readable_congr {m m' : Mem} {addr : BitVec 64} {n : Nat}
    (h : ∀ i < n, m (addr + BitVec.ofNat 64 i) = m' (addr + BitVec.ofNat 64 i)) :
    m.Readable addr n ↔ m'.Readable addr n := by
  constructor
  · intro hr i hi
    rw [← h i hi]
    exact hr i hi
  · intro hr i hi
    rw [h i hi]
    exact hr i hi

/-- A word depends on its own bytes. -/
theorem Mem.word_congr {m m' : Mem} {addr : BitVec 64} {n : Nat}
    (h : ∀ i < n, m (addr + BitVec.ofNat 64 i) = m' (addr + BitVec.ofNat 64 i)) :
    m.word addr n = m'.word addr n := by
  unfold Mem.word Mem.read
  by_cases hr : m.Readable addr n
  · rw [if_pos hr, if_pos ((Mem.readable_congr h).mp hr)]
    refine leNat_congr fun i hi => ?_
    rw [Mem.byte, Mem.byte, h i hi]
  · rw [if_neg hr, if_neg fun hr' => hr ((Mem.readable_congr h).mpr hr')]

/-- The bytes `bs` stand in memory from `addr` on. -/
def Mem.Holds (m : Mem) (addr : BitVec 64) (bs : List Byte) : Prop :=
  ∀ i b, bs[i]? = some b → m (addr + BitVec.ofNat 64 i) = some b

variable {m : Mem} {addr : BitVec 64} {bs : List Byte} {k n : Nat}

theorem Mem.Holds.byte (h : m.Holds addr bs) (hk : k < bs.length) :
    m (addr + BitVec.ofNat 64 k) = some (bs.getD k 0) := by
  have hget : bs[k]? = some bs[k] := List.getElem?_eq_getElem hk
  rw [h k _ hget, List.getD_eq_getElem?_getD, hget]
  rfl

/-- A range of a text in memory reads as that part of the text. -/
theorem Mem.Holds.read (h : m.Holds addr bs) (hk : k + n ≤ bs.length) :
    ∃ f, m.read (addr + BitVec.ofNat 64 k) n = some f ∧ ∀ i < n, f i = bs.getD (k + i) 0 := by
  have hat : ∀ i < n, m (addr + BitVec.ofNat 64 k + BitVec.ofNat 64 i) =
      some (bs.getD (k + i) 0) := by
    intro i hi
    rw [BitVec.add_assoc, ← BitVec.ofNat_add]
    exact h.byte (by omega)
  have hread : m.Readable (addr + BitVec.ofNat 64 k) n := by
    intro i hi
    rw [hat i hi]
    rfl
  refine ⟨_, if_pos hread, fun i hi => ?_⟩
  rw [Mem.byte, hat i hi]
  rfl

/-- The same from the start of the text. -/
theorem Mem.Holds.readStart (h : m.Holds addr bs) (hn : n ≤ bs.length) :
    ∃ f, m.read addr n = some f ∧ ∀ i < n, f i = bs.getD i 0 := by
  obtain ⟨f, hf, hbytes⟩ := h.read (show 0 + n ≤ bs.length by omega)
  rw [show addr + BitVec.ofNat 64 0 = addr from BitVec.add_zero addr] at hf
  refine ⟨f, hf, fun i hi => ?_⟩
  rw [hbytes i hi, Nat.zero_add]

theorem Mem.Holds.word (h : m.Holds addr bs) (hk : k + n ≤ bs.length) :
    m.word (addr + BitVec.ofNat 64 k) n = leNat (fun i => bs.getD (k + i) 0) n := by
  obtain ⟨f, hf, hbytes⟩ := h.read hk
  rw [Mem.word, hf]
  exact leNat_congr hbytes

/-- The two parts of a text in memory. -/
theorem Mem.Holds.left {bs' : List Byte} (h : m.Holds addr (bs ++ bs')) : m.Holds addr bs := by
  intro i b hb
  refine h i b ?_
  rw [List.getElem?_append_left (List.getElem?_eq_some_iff.mp hb).1]
  exact hb

/-- The second part stands behind the first. -/
theorem Mem.Holds.right {bs' : List Byte} (h : m.Holds addr (bs ++ bs')) :
    m.Holds (addr + BitVec.ofNat 64 bs.length) bs' := by
  intro i b hb
  rw [BitVec.add_assoc, ← BitVec.ofNat_add]
  refine h (bs.length + i) b ?_
  rw [List.getElem?_append_right (by omega), Nat.add_sub_cancel_left]
  exact hb

/-! ## A memory given by its words -/

/-- The memory whose `k`-th word of eight bytes is `w k`. -/
def wordMem (w : Nat → Nat) : Mem :=
  fun addr => some (byteOf (w (addr.toNat / 8)) (addr.toNat % 8))

/-- In a memory given by its words everything can be read. -/
theorem wordMem_readable (w : Nat → Nat) (addr : BitVec 64) (n : Nat) :
    (wordMem w).Readable addr n := fun _ _ => rfl

/-- A word of the memory, cut to the bytes that are read of it. -/
theorem wordMem_word {w : Nat → Nat} (hk : 8 * k + 8 ≤ 2 ^ 64) (hn : n ≤ 8) :
    (wordMem w).word (BitVec.ofNat 64 (8 * k)) n = w k % 256 ^ n := by
  rw [Mem.word, Mem.read, if_pos (wordMem_readable w _ n), ← leNat_byteOf]
  refine leNat_congr fun i hi => ?_
  have hat : (BitVec.ofNat 64 (8 * k) + BitVec.ofNat 64 i).toNat = 8 * k + i := by
    rw [← BitVec.ofNat_add, BitVec.toNat_ofNat]
    exact Nat.mod_eq_of_lt (by omega)
  simp only [Mem.byte, wordMem, hat, Option.getD_some]
  rw [show (8 * k + i) / 8 = k from by omega, show (8 * k + i) % 8 = i from by omega]

/-! ## A text put into a memory -/

/-- The memory `m` with the bytes `bs` from address `base` on. -/
def Mem.withText (m : Mem) (base : Nat) (bs : List Byte) : Mem := fun addr =>
  if base ≤ addr.toNat ∧ addr.toNat < base + bs.length then bs[addr.toNat - base]? else m addr

theorem Mem.withText_holds (m : Mem) {base : Nat} {bs : List Byte}
    (h : base + bs.length ≤ 2 ^ 64) : (m.withText base bs).Holds (BitVec.ofNat 64 base) bs := by
  intro i b hb
  have hi := (List.getElem?_eq_some_iff.mp hb).1
  have hat : (BitVec.ofNat 64 base + BitVec.ofNat 64 i).toNat = base + i := by
    rw [← BitVec.ofNat_add, BitVec.toNat_ofNat]
    exact Nat.mod_eq_of_lt (by omega)
  rw [Mem.withText, hat, if_pos (by omega), Nat.add_sub_cancel_left, hb]

/-- In front of the text the words are those of before. -/
theorem Mem.withText_word_below {m : Mem} {base a n : Nat} {bs : List Byte}
    (h : a + n ≤ base) (hbase : base < 2 ^ 64) :
    (m.withText base bs).word (BitVec.ofNat 64 a) n = m.word (BitVec.ofNat 64 a) n := by
  refine Mem.word_congr fun i hi => ?_
  have hat : (BitVec.ofNat 64 a + BitVec.ofNat 64 i).toNat = a + i := by
    rw [← BitVec.ofNat_add, BitVec.toNat_ofNat]
    exact Nat.mod_eq_of_lt (by omega)
  rw [Mem.withText, hat, if_neg (by omega)]

end SkbTracer.Lib
