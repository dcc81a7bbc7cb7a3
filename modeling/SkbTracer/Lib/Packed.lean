import SkbTracer.Lib.Bytes

/-!
# Packed records

A record without padding: its fields one behind the other, each in as many bytes as it
is wide, the least significant byte first. `pack` writes the fields, `unpack` cuts bytes
into fields by their widths, and what was packed is read back, whatever stands behind it
(`unpack_pack`). `pack_length` is the size of the record: the sum of the widths.

A reader may get more bytes than the record has, so the law has a rest behind the record.
Fields are numbers. A number too large for its field is cut to it, and the reader gets it
modulo `256 ^ width`; fields that fit are read back as they are. Alignment, other byte
orders and fields of varying length are not covered.
-/

namespace SkbTracer.Lib

/-- The first `n` bytes of a number. -/
def leBytes (n v : Nat) : List Byte := (List.range n).map (byteOf v)

/-- The fields of a record, each with its width. -/
def pack (fields : List (Nat × Nat)) : List Byte := fields.flatMap fun f => leBytes f.1 f.2

/-- The number that the first `n` of the bytes make. -/
def leFront (n : Nat) (bs : List Byte) : Nat := leNat (fun i => bs.getD i 0) n

def unpack : List Nat → List Byte → List Nat
  | [], _ => []
  | n :: ns, bs => leFront n bs :: unpack ns (bs.drop n)

variable {n v : Nat} {fields : List (Nat × Nat)} {bs rest : List Byte}

@[simp] theorem leBytes_length (n v : Nat) : (leBytes n v).length = n := by
  unfold leBytes
  rw [List.length_map, List.length_range]

/-- The bytes in front are read back, whatever stands behind them. -/
theorem leFront_leBytes (n v : Nat) (rest : List Byte) :
    leFront n (leBytes n v ++ rest) = v % 256 ^ n := by
  rw [← leNat_byteOf]
  unfold leFront
  refine leNat_congr fun i hi => ?_
  rw [List.getD_eq_getElem?_getD, List.getElem?_append_left (by rw [leBytes_length]; exact hi)]
  unfold leBytes
  rw [List.getElem?_map, List.getElem?_range hi]
  rfl

/-- The first field, and the others behind it. -/
theorem pack_cons (f : Nat × Nat) (fields : List (Nat × Nat)) :
    pack (f :: fields) = leBytes f.1 f.2 ++ pack fields := List.flatMap_cons

/-- A record has the length of its fields. -/
theorem pack_length (fields : List (Nat × Nat)) :
    (pack fields).length = (fields.map Prod.fst).sum := by
  induction fields with
  | nil => rfl
  | cons f fields ih => rw [pack_cons, List.length_append, leBytes_length, ih]; rfl

/-- **The fields are read back**, each cut to its width. -/
theorem unpack_pack (fields : List (Nat × Nat)) (rest : List Byte) :
    unpack (fields.map Prod.fst) (pack fields ++ rest) = fields.map fun f => f.2 % 256 ^ f.1 := by
  induction fields with
  | nil => rfl
  | cons f fields ih =>
    rw [pack_cons, List.append_assoc, List.map_cons, List.map_cons, unpack, leFront_leBytes,
      List.drop_left' (leBytes_length ..), ih]

end SkbTracer.Lib
