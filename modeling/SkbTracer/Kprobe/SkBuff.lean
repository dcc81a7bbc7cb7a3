import SkbTracer.Lib.Memory

/-!
# Fields of kernel structures

`BPF_CORE_READ(p, a, b)` follows pointers: it reads the pointer at field `a` of
`p` and then field `b` of what that points to, each with a
`bpf_probe_read_kernel` that clears its destination when it fails. So a chain
goes on through a null pointer after a failed read, and its result is zero unless
the last address can be read all the same.

The offsets of the fields are those of the running kernel, filled in when the
program is loaded (`KernelLayout`). Nothing is assumed of them: two fields may overlap, or
lie in the packet, and where that would make a difference a theorem says so.

Each field that the program reads has a definition under its name: `skbHead` to `skbSk` in
the sk_buff itself, `skbDevIfindex`, `skbDevMtu`, `skbDevNetns` behind its device, and
`skNetns` behind its socket. Memory is one snapshot: all reads of one call of the program
see the same bytes.

The last section has a layout with every field in a word of its own and a memory to put
structures into, for the examples of other files.
-/

namespace SkbTracer.Kprobe

open SkbTracer.Lib (Mem Byte wordMem wordMem_word)

/-- The offsets of the fields that are read. -/
structure KernelLayout where
  /-- `sk_buff` -/
  skbHead : BitVec 64
  skbTail : BitVec 64
  skbNetworkHeader : BitVec 64
  skbMacHeader : BitVec 64
  skbMacLen : BitVec 64
  skbProtocol : BitVec 64
  skbMark : BitVec 64
  skbLen : BitVec 64
  skbDev : BitVec 64
  skbSk : BitVec 64
  /-- `net_device` -/
  devIfindex : BitVec 64
  devMtu : BitVec 64
  devNdNet : BitVec 64
  /-- `sock`, `__sk_common.skc_net.net` -/
  skNet : BitVec 64
  /-- `net`, `ns.inum` -/
  netInum : BitVec 64

/-- A field of `n` bits, zero if it cannot be read. -/
def field (m : Mem) (p off : BitVec 64) (n : Nat) : BitVec n :=
  BitVec.ofNat n (m.word (p + off) (n / 8))

variable (K : KernelLayout) (m : Mem) (skb : BitVec 64)

def skbHead : BitVec 64 := field m skb K.skbHead 64
def skbTail : BitVec 32 := field m skb K.skbTail 32
def skbNetworkHeader : BitVec 16 := field m skb K.skbNetworkHeader 16
def skbMacHeader : BitVec 16 := field m skb K.skbMacHeader 16
def skbMacLen : BitVec 16 := field m skb K.skbMacLen 16
def skbProtocol : BitVec 16 := field m skb K.skbProtocol 16
def skbMark : BitVec 32 := field m skb K.skbMark 32
def skbLen : BitVec 32 := field m skb K.skbLen 32
def skbDev : BitVec 64 := field m skb K.skbDev 64
def skbSk : BitVec 64 := field m skb K.skbSk 64

/-- `BPF_CORE_READ(skb, dev, ifindex)`. -/
def skbDevIfindex : BitVec 32 := field m (skbDev K m skb) K.devIfindex 32

/-- `BPF_CORE_READ(skb, dev, mtu)`. -/
def skbDevMtu : BitVec 32 := field m (skbDev K m skb) K.devMtu 32

/-- `BPF_CORE_READ(skb, dev, nd_net.net, ns.inum)`. -/
def skbDevNetns : BitVec 32 := field m (field m (skbDev K m skb) K.devNdNet 64) K.netInum 32

/-- `BPF_CORE_READ(sk, __sk_common.skc_net.net, ns.inum)`. -/
def skNetns (sk : BitVec 64) : BitVec 32 := field m (field m sk K.skNet 64) K.netInum 32

/-! ## Structures in a memory given by its words -/

/-- A layout with every field in a word of its own. -/
def plainLayout : KernelLayout where
  skbHead := 0
  skbTail := 8
  skbNetworkHeader := 16
  skbMacHeader := 24
  skbMacLen := 32
  skbProtocol := 40
  skbMark := 48
  skbLen := 56
  skbDev := 64
  skbSk := 72
  devIfindex := 0
  devMtu := 8
  devNdNet := 16
  skNet := 0
  netInum := 0

/-- A field in a memory given by its words, cut to its width. -/
theorem field_wordMem {w : Nat → Nat} {a off : BitVec 64} {k n : Nat}
    (ha : a + off = BitVec.ofNat 64 (8 * k)) (hk : 8 * k + 8 ≤ 2 ^ 64) (hn : n / 8 ≤ 8) :
    field (wordMem w) a off n = BitVec.ofNat n (w k % 256 ^ (n / 8)) := by
  rw [field, ha, wordMem_word hk hn]

/-- A field in front of a text that was put into the memory. -/
theorem field_withText {m : Mem} {a off : BitVec 64} {k n base : Nat} {bs : List Byte}
    (ha : a + off = BitVec.ofNat 64 k) (hk : k + n / 8 ≤ base) (hbase : base < 2 ^ 64) :
    field (m.withText base bs) a off n = field m a off n := by
  rw [field, field, ha, Mem.withText_word_below hk hbase]

end SkbTracer.Kprobe
