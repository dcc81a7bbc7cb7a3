import SkbTracer.Kprobe.Event
import SkbTracer.Lib.Packed

/-!
# `struct skb_event` as bytes

Both sides of the ring buffer include the same header, so the probe writes and the tracer
reads the same packed record: twenty fields in 94 bytes. The callback in `main` copies the
record out of the buffer, and does nothing with one that is too short.

What the probe wrote is what the callback prints, whatever stands behind the record
(`callback_bytes`). `SkbEvent.fields` lists the fields with their widths in the order of the
structure, and packing and unpacking are those of `Lib.Packed`; so a field that is added
to the structure is added in `fields` and in `ofBytes`, and `ofBytes_bytes` fails until
both agree.

The ring buffer gives whole records, and the length that comes with one is at least that
of the structure. A shorter one, which the callback refuses, would have been written by
somebody else.
-/

namespace SkbTracer.Kprobe

open SkbTracer.Lib (Byte pack unpack pack_length unpack_pack)

/-- The fields of `struct skb_event` in their order: the width in bytes, and the value. -/
def SkbEvent.fields (event : SkbEvent) : List (Nat × Nat) :=
  [(4, event.pid.toNat), (4, event.cpuId.toNat), (8, event.ts.toNat), (8, event.skbAddr.toNat),
    (8, event.addr.toNat),
    (4, event.skbMeta.netns.toNat), (4, event.skbMeta.mark.toNat),
    (4, event.skbMeta.ifindex.toNat), (4, event.skbMeta.mtu.toNat), (4, event.skbMeta.len.toNat),
    (2, event.skbMeta.proto.toNat),
    (8, event.tuple.saddr.d1.toNat), (8, event.tuple.saddr.d2.toNat),
    (8, event.tuple.daddr.d1.toNat), (8, event.tuple.daddr.d2.toNat),
    (2, event.tuple.sport.toNat), (2, event.tuple.dport.toNat), (2, event.tuple.l3Proto.toNat),
    (1, event.tuple.l4Proto.toNat), (1, event.tuple.tcpFlags.toNat)]

def eventWidths : List Nat := [4, 4, 8, 8, 8, 4, 4, 4, 4, 4, 2, 8, 8, 8, 8, 2, 2, 2, 1, 1]

/-- `sizeof(struct skb_event)`. -/
def sizeofSkbEvent : Nat := eventWidths.sum

/-- The record in the ring buffer. -/
def SkbEvent.bytes (event : SkbEvent) : List Byte := pack event.fields

/-- `memcpy(&event, data, sizeof(skb_event))`. -/
def SkbEvent.ofBytes (data : List Byte) : SkbEvent :=
  let w := unpack eventWidths data
  let word (k n : Nat) : BitVec n := BitVec.ofNat n (w.getD k 0)
  { pid := word 0 32
    cpuId := word 1 32
    ts := word 2 64
    skbAddr := word 3 64
    addr := word 4 64
    skbMeta :=
      { netns := word 5 32
        mark := word 6 32
        ifindex := word 7 32
        mtu := word 8 32
        len := word 9 32
        proto := word 10 16 }
    tuple :=
      { saddr := ⟨word 11 64, word 12 64⟩
        daddr := ⟨word 13 64, word 14 64⟩
        sport := word 15 16
        dport := word 16 16
        l3Proto := word 17 16
        l4Proto := word 18 8
        tcpFlags := word 19 8 } }

/-- The callback that `main` registers: the event it prints, if any. -/
def callback (data : List Byte) : Option SkbEvent :=
  if data.length < sizeofSkbEvent then none else some (.ofBytes data)

/-! ## What is read back -/

/-- The widths of the fields. -/
theorem eventWidths_eq (event : SkbEvent) : event.fields.map Prod.fst = eventWidths := rfl

/-- A record has the size of the structure. -/
theorem bytes_length (event : SkbEvent) : event.bytes.length = sizeofSkbEvent := by
  unfold SkbEvent.bytes sizeofSkbEvent
  rw [pack_length, eventWidths_eq]

/-- A field is as wide as its number, so nothing is cut. -/
theorem ofNat_toNat_mod {n k : Nat} (h : 256 ^ k = 2 ^ n) (x : BitVec n) :
    BitVec.ofNat n (x.toNat % 256 ^ k) = x := by
  rw [h, Nat.mod_eq_of_lt x.isLt, BitVec.ofNat_toNat, BitVec.setWidth_eq]

/-- The record is what is read, whatever is behind it. -/
theorem ofBytes_bytes (event : SkbEvent) (rest : List Byte) :
    SkbEvent.ofBytes (event.bytes ++ rest) = event := by
  have hwords := unpack_pack event.fields rest
  rw [eventWidths_eq] at hwords
  unfold SkbEvent.ofBytes SkbEvent.bytes
  rw [hwords]
  obtain ⟨pid, cpuId, ts, skbAddr, addr, skbMeta, tuple⟩ := event
  simp only [SkbEvent.fields, List.map_cons, List.map_nil]
  simp only [List.getD_cons_zero, List.getD_cons_succ]
  have h8 : 256 ^ 1 = 2 ^ 8 := rfl
  have h16 : 256 ^ 2 = 2 ^ 16 := rfl
  have h32 : 256 ^ 4 = 2 ^ 32 := rfl
  have h64 : 256 ^ 8 = 2 ^ 64 := rfl
  simp only [ofNat_toNat_mod h8, ofNat_toNat_mod h16, ofNat_toNat_mod h32, ofNat_toNat_mod h64]

/-- **The callback prints the event that the probe submitted.** -/
theorem callback_bytes (event : SkbEvent) (rest : List Byte) :
    callback (event.bytes ++ rest) = some event := by
  unfold callback
  rw [List.length_append, bytes_length, if_neg (by omega), ofBytes_bytes]

end SkbTracer.Kprobe
