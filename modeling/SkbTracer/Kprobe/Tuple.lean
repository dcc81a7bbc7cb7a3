import SkbTracer.Kprobe.SkBuff

/-!
# `set_tuple`

The tuple of an event is read from the packet in up to five steps: two VLAN tags,
the byte with the IP version, the IP header and the transport header. Every step is
a `bpf_probe_read_kernel` at an offset that the steps before have found, and ends the
decoding where it fails.

The record is the kernel's: `union addr` overlays an IPv4 address on the first four
bytes of an IPv6 address, and addresses and ports are kept in the byte order of the
packet.

- `getL3HeaderOffset`: the offset of the IP header, behind as many as two tags. A tag
  that is announced is skipped whether or not it is there;
- `setIpTuple`: `__set_tuple`, which tells the version by the first byte;
- `setTransport`: its part for TCP and UDP;
- `setTuple`: `set_tuple`, which clears the record first.

`setTuple_eq` is the decoding apart from the record that is overwritten, as a function
`ipTuple` of memory and the address of the IP header: what stood in the record has no part
in the result. The lemmas about `ipTuple`, one for each way through it, are what other
files use. The decoding bounds no read by the end of the packet; what follows from that
is the subject of `Kprobe.OwnBytes`.
-/

namespace SkbTracer.Kprobe

open SkbTracer.Lib (Mem Byte leNat)

/-! ## The record -/

/-- `union addr`. -/
structure Addr where
  d1 : BitVec 64
  d2 : BitVec 64
  deriving DecidableEq, Repr

/-- `addr.v4addr`, the first four bytes. -/
def Addr.v4addr (a : Addr) : BitVec 32 := a.d1.setWidth 32

/-- `addr.v4addr = v`: the other bytes stay. -/
def Addr.setV4addr (a : Addr) (v : BitVec 32) : Addr :=
  { a with d1 := (a.d1 &&& 0xffffffff00000000#64) ||| v.setWidth 64 }

/-- `struct skb_tuple`. -/
structure SkbTuple where
  saddr : Addr
  daddr : Addr
  sport : BitVec 16
  dport : BitVec 16
  l3Proto : BitVec 16
  l4Proto : Byte
  tcpFlags : Byte
  deriving DecidableEq, Repr

/-! ## Constants and words -/

def ethPIp : BitVec 16 := 0x0800
def ethPIpv6 : BitVec 16 := 0x86dd
def ethP8021q : BitVec 16 := 0x8100
def ethP8021ad : BitVec 16 := 0x88a8
def ipprotoTcp : Byte := 6
def ipprotoUdp : Byte := 17

/-- `bpf_htons` and `ntohs`. -/
def htons (x : BitVec 16) : BitVec 16 := x.setWidth 8 ++ x.extractLsb' 8 8

theorem htons_zero : htons 0 = 0 := by decide

/-- The little-endian word of `n` bits at byte `off` of what was read. -/
def wordAt (f : Nat → Byte) (off n : Nat) : BitVec n :=
  BitVec.ofNat n (leNat (fun i => f (off + i)) (n / 8))

/-- `version` and `ihl`, the two halves of the first byte of an IP header. -/
def ipVersion (f : Nat → Byte) : Byte := f 0 >>> 4
def ipIhl (f : Nat → Byte) : Byte := f 0 &&& 0xf

/-! ## `get_l3_header_offset` -/

/-- `is_vlan_proto`. -/
def isVlanProto (proto : BitVec 16) : Bool :=
  proto == htons ethP8021q || proto == htons ethP8021ad

/-- At most `n` rounds of the loop; `h_vlan_encapsulated_proto` is at byte 2. -/
def skipVlan (m : Mem) (head : BitVec 64) : Nat → BitVec 16 → BitVec 16 → BitVec 16
  | 0, l3Off, _ => l3Off
  | n + 1, l3Off, proto =>
    if isVlanProto proto then
      skipVlan m head n (l3Off + 4) (field m (head + l3Off.setWidth 64) 2 16)
    else l3Off

/-- `get_l3_header_offset(skb, head)`. -/
def getL3HeaderOffset (K : KernelLayout) (m : Mem) (skb head : BitVec 64) : BitVec 16 :=
  skipVlan m head 2 (skbNetworkHeader K m skb) (skbProtocol K m skb)

/-! ## `set_tuple` -/

/-- The end of `__set_tuple`: the ports and the flags. -/
def setTransport (m : Mem) (tuple : SkbTuple) (transHdr : BitVec 64) : SkbTuple :=
  if tuple.l4Proto = ipprotoTcp then
    match m.read transHdr 20 with
    | some tcp =>
      { tuple with sport := wordAt tcp 0 16, dport := wordAt tcp 2 16, tcpFlags := tcp 13 }
    | none => tuple
  else if tuple.l4Proto = ipprotoUdp then
    match m.read transHdr 8 with
    | some udp => { tuple with sport := wordAt udp 0 16, dport := wordAt udp 2 16 }
    | none => tuple
  else tuple

/-- `__set_tuple(tuple, head, l3_off, is_ipv4)`; `ipHdrAddr` is `head + l3_off`. -/
def setIpTuple (m : Mem) (tuple : SkbTuple) (ipHdrAddr : BitVec 64) (isIpv4 : Bool) : SkbTuple :=
  if isIpv4 then
    match m.read ipHdrAddr 20 with
    | none => tuple
    | some ip =>
      setTransport m
        { tuple with
          l3Proto := ethPIp
          l4Proto := ip 9
          saddr := tuple.saddr.setV4addr (wordAt ip 12 32)
          daddr := tuple.daddr.setV4addr (wordAt ip 16 32) }
        (ipHdrAddr + (ipIhl ip).setWidth 64 * 4)
  else
    match m.read ipHdrAddr 40 with
    | none => tuple
    | some ip6 =>
      setTransport m
        { tuple with
          l3Proto := ethPIpv6
          l4Proto := ip6 6
          saddr := { d1 := wordAt ip6 8 64, d2 := wordAt ip6 16 64 }
          daddr := { d1 := wordAt ip6 24 64, d2 := wordAt ip6 32 64 } }
        (ipHdrAddr + 40)

/-- The assignments at the start of `set_tuple`. -/
def clearTuple (tuple : SkbTuple) : SkbTuple :=
  { tuple with
    l3Proto := 0
    l4Proto := 0
    tcpFlags := 0
    sport := 0
    dport := 0
    saddr := { tuple.saddr with d1 := 0, d2 := 0 }
    daddr := { tuple.daddr with d1 := 0, d2 := 0 } }

/-- `set_tuple(skb, tuple)`. -/
def setTuple (K : KernelLayout) (m : Mem) (skb : BitVec 64) (tuple : SkbTuple) : SkbTuple :=
  let tuple := clearTuple tuple
  let head := skbHead K m skb
  let l3Off := getL3HeaderOffset K m skb head
  let ipHdrAddr := head + l3Off.setWidth 64
  match m.read ipHdrAddr 20 with
  | none => tuple
  | some l3Hdr =>
    if ipVersion l3Hdr ≠ 4 ∧ ipVersion l3Hdr ≠ 6 then tuple
    else setIpTuple m tuple ipHdrAddr (ipVersion l3Hdr == 4)

/-! ## The decoding, apart from the record -/

/-- The record with nothing in it. -/
def emptyTuple : SkbTuple :=
  { saddr := { d1 := 0, d2 := 0 }, daddr := { d1 := 0, d2 := 0 }, sport := 0, dport := 0,
    l3Proto := 0, l4Proto := 0, tcpFlags := 0 }

/-- What is cleared first is the whole record. -/
theorem clearTuple_eq (tuple : SkbTuple) : clearTuple tuple = emptyTuple := rfl

/-- What is decoded from an IP header at `ipHdrAddr`. -/
def ipTuple (m : Mem) (ipHdrAddr : BitVec 64) : SkbTuple :=
  match m.read ipHdrAddr 20 with
  | none => emptyTuple
  | some l3Hdr =>
    if ipVersion l3Hdr ≠ 4 ∧ ipVersion l3Hdr ≠ 6 then emptyTuple
    else setIpTuple m emptyTuple ipHdrAddr (ipVersion l3Hdr == 4)

/-- The address at which `set_tuple` looks for the IP header. -/
def l3Addr (K : KernelLayout) (m : Mem) (skb : BitVec 64) : BitVec 64 :=
  skbHead K m skb + (getL3HeaderOffset K m skb (skbHead K m skb)).setWidth 64

section

variable {m : Mem} {tuple : SkbTuple} {transHdr : BitVec 64}

/-- TCP: both ports, and the byte of the flags. -/
theorem setTransport_tcp (h : tuple.l4Proto = ipprotoTcp) {tcp : Nat → Byte}
    (hread : m.read transHdr 20 = some tcp) : setTransport m tuple transHdr =
      { tuple with sport := wordAt tcp 0 16, dport := wordAt tcp 2 16, tcpFlags := tcp 13 } := by
  unfold setTransport
  rw [if_pos h, hread]

/-- UDP has no flags. -/
theorem setTransport_udp (h : tuple.l4Proto = ipprotoUdp) {udp : Nat → Byte}
    (hread : m.read transHdr 8 = some udp) : setTransport m tuple transHdr =
      { tuple with sport := wordAt udp 0 16, dport := wordAt udp 2 16 } := by
  unfold setTransport
  rw [if_neg (by rw [h]; decide), if_pos h, hread]

/-- Other protocols leave ports and flags as they are. -/
theorem setTransport_other (htcp : tuple.l4Proto ≠ ipprotoTcp) (hudp : tuple.l4Proto ≠ ipprotoUdp) :
    setTransport m tuple transHdr = tuple := by
  unfold setTransport
  rw [if_neg htcp, if_neg hudp]

/-- What two tuples have from the same IP header. -/
structure SameNetwork (t t' : SkbTuple) : Prop where
  l3Proto : t'.l3Proto = t.l3Proto
  l4Proto : t'.l4Proto = t.l4Proto
  saddr : t'.saddr = t.saddr
  daddr : t'.daddr = t.daddr

/-- The transport header changes nothing of that. -/
theorem setTransport_network (m : Mem) (tuple : SkbTuple) (transHdr : BitVec 64) :
    SameNetwork tuple (setTransport m tuple transHdr) := by
  unfold setTransport
  split
  · split
    · exact ⟨rfl, rfl, rfl, rfl⟩
    · exact ⟨rfl, rfl, rfl, rfl⟩
  · split
    · split
      · exact ⟨rfl, rfl, rfl, rfl⟩
      · exact ⟨rfl, rfl, rfl, rfl⟩
    · exact ⟨rfl, rfl, rfl, rfl⟩

end

section

variable {m : Mem} {addr : BitVec 64} {l3Hdr ip6 : Nat → Byte}

/-- The tuple of an IPv4 header, without ports and flags. -/
def v4Tuple (ip : Nat → Byte) : SkbTuple :=
  { emptyTuple with
    l3Proto := ethPIp
    l4Proto := ip 9
    saddr := emptyTuple.saddr.setV4addr (wordAt ip 12 32)
    daddr := emptyTuple.daddr.setV4addr (wordAt ip 16 32) }

/-- The tuple of an IPv6 header, without ports and flags. -/
def v6Tuple (ip6 : Nat → Byte) : SkbTuple :=
  { emptyTuple with
    l3Proto := ethPIpv6
    l4Proto := ip6 6
    saddr := { d1 := wordAt ip6 8 64, d2 := wordAt ip6 16 64 }
    daddr := { d1 := wordAt ip6 24 64, d2 := wordAt ip6 32 64 } }

/-- Without a header that can be read the record stays clear, -/
theorem ipTuple_unreadable (h : m.read addr 20 = none) : ipTuple m addr = emptyTuple := by
  unfold ipTuple
  rw [h]

/-- and with one of neither version too. -/
theorem ipTuple_version (h : m.read addr 20 = some l3Hdr) (h4 : ipVersion l3Hdr ≠ 4)
    (h6 : ipVersion l3Hdr ≠ 6) : ipTuple m addr = emptyTuple := by
  unfold ipTuple
  rw [h]
  exact if_pos ⟨h4, h6⟩

/-- An IPv4 header, and the transport header where its length says. -/
theorem ipTuple_v4 (h : m.read addr 20 = some l3Hdr) (h4 : ipVersion l3Hdr = 4) :
    ipTuple m addr =
      setTransport m (v4Tuple l3Hdr) (addr + (ipIhl l3Hdr).setWidth 64 * 4) := by
  unfold ipTuple
  rw [h]
  dsimp only
  rw [if_neg fun hv => hv.1 h4, h4]
  unfold setIpTuple
  rw [if_pos (by decide), h]
  rfl

/-- An IPv6 header, and the transport header right behind it. -/
theorem ipTuple_v6 (h : m.read addr 20 = some l3Hdr) (h6 : ipVersion l3Hdr = 6)
    (hread : m.read addr 40 = some ip6) :
    ipTuple m addr = setTransport m (v6Tuple ip6) (addr + 40) := by
  unfold ipTuple
  rw [h]
  dsimp only
  rw [if_neg fun hv => hv.2 h6, h6]
  unfold setIpTuple
  rw [if_neg (by decide), hread]
  rfl

/-- Of an IPv6 header that cannot be read to its end nothing is kept. -/
theorem ipTuple_v6_unreadable (h : m.read addr 20 = some l3Hdr) (h6 : ipVersion l3Hdr = 6)
    (hread : m.read addr 40 = none) : ipTuple m addr = emptyTuple := by
  unfold ipTuple
  rw [h]
  dsimp only
  rw [if_neg fun hv => hv.2 h6, h6]
  unfold setIpTuple
  rw [if_neg (by decide), hread]

end

/-- Nothing of the record that is overwritten is left. -/
theorem setTuple_eq (K : KernelLayout) (m : Mem) (skb : BitVec 64) (tuple : SkbTuple) :
    setTuple K m skb tuple = ipTuple m (l3Addr K m skb) := by
  unfold setTuple ipTuple
  rw [clearTuple_eq]
  unfold l3Addr
  dsimp only

end SkbTracer.Kprobe
