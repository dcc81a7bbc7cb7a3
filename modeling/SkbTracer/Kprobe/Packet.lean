import Mathlib.Data.List.GetD
import SkbTracer.Kprobe.Tuple

/-!
# Packets, and what `set_tuple` makes of them

A packet here is what a sender means: up to two VLAN tags, an IP header, a transport
header. `Packet.bytes` is how it is put on the wire, every EtherType announcing what
comes next, and `Packet.tuple` is the record that belongs to it. The types have their
conditions as fields, so there is no packet with three tags or with a header length
below 5.

`Carries` is an skb whose packet that is, and `setTuple_carries` says that
`set_tuple` then stores that record. The proof goes down the layers of the packet:

- `skipVlan_tags`: the tags are skipped, each by the type the one before announced;
- `ipTuple_v4_carries`, `ipTuple_v6_carries`: the IP header, by its version;
- `setTransport_carries`: the transport header, where the IP header ends.

`Carries` asks that the bytes are in linear memory, that the skb has the type of the
outermost tag, and that the offset of the network header leaves room for two tags; the
sixteen-bit sum would wrap otherwise. Every packet has an skb that carries it
(`carrier_carries`).

Extension headers of IPv6 and fragments are not among these packets: the code takes what
follows the fixed header for the transport header.
-/

namespace SkbTracer.Kprobe

open SkbTracer.Lib (Mem Byte wordMem leNat leNat_congr leNat_add leNat_eq_zero leNat_lt)

/-! ## Addresses as bytes -/

/-- The union with these bytes in it. -/
def Addr.ofBytes (b : Fin 16 → Byte) : Addr where
  d1 := BitVec.ofNat 64 (leNat (fun i => (List.ofFn b).getD i 0) 8)
  d2 := BitVec.ofNat 64 (leNat (fun i => (List.ofFn b).getD (8 + i) 0) 8)

/-- An IPv4 address takes the first four bytes, the others are zero. -/
def v4Bytes (b : Fin 4 → Byte) : Fin 16 → Byte :=
  fun i => if h : i.val < 4 then b ⟨i.val, h⟩ else 0

def Addr.ofV4 (b : Fin 4 → Byte) : Addr := Addr.ofBytes (v4Bytes b)

/-! ## The wire format -/

/-- A VLAN tag, announced by 0x88a8 if `ad` holds and by 0x8100 else. -/
structure VlanTag where
  ad : Bool
  tci : BitVec 16

def VlanTag.tpid (tag : VlanTag) : BitVec 16 := if tag.ad then ethP8021ad else ethP8021q

structure Ipv4Header where
  ihl : BitVec 4
  ihl_ge : 5 ≤ ihl.toNat
  tos : Byte
  totLen : BitVec 16
  id : BitVec 16
  fragOff : BitVec 16
  ttl : Byte
  check : BitVec 16
  saddr : Fin 4 → Byte
  daddr : Fin 4 → Byte
  options : List Byte
  options_length : options.length = 4 * (ihl.toNat - 5)

structure Ipv6Header where
  /-- traffic class and flow label -/
  priority : BitVec 4
  flow : Fin 3 → Byte
  payloadLen : BitVec 16
  hopLimit : Byte
  saddr : Fin 16 → Byte
  daddr : Fin 16 → Byte

inductive IpHeader where
  | v4 (h : Ipv4Header)
  | v6 (h : Ipv6Header)

structure TcpHeader where
  source : BitVec 16
  dest : BitVec 16
  seq : Fin 4 → Byte
  ack : Fin 4 → Byte
  doff : Byte
  flags : Byte
  window : BitVec 16
  check : BitVec 16
  urgPtr : BitVec 16

structure UdpHeader where
  source : BitVec 16
  dest : BitVec 16
  len : BitVec 16
  check : BitVec 16

/-- What follows the IP header; `other` is any other protocol. -/
inductive Transport where
  | tcp (h : TcpHeader)
  | udp (h : UdpHeader)
  | other (proto : Byte) (htcp : proto ≠ ipprotoTcp) (hudp : proto ≠ ipprotoUdp)

structure Packet where
  tags : List VlanTag
  tags_length : tags.length ≤ 2
  ip : IpHeader
  transport : Transport
  payload : List Byte

/-- A 16-bit field in network byte order. -/
def be16 (x : BitVec 16) : List Byte := [x.extractLsb' 8 8, x.setWidth 8]

/-- The EtherType in front of some tags and a packet of type `inner`. -/
def outerType (inner : BitVec 16) : List VlanTag → BitVec 16
  | [] => inner
  | tag :: _ => tag.tpid

/-- The tags, each with the EtherType of what follows. -/
def tagBytes (inner : BitVec 16) : List VlanTag → List Byte
  | [] => []
  | tag :: tags => be16 tag.tci ++ be16 (outerType inner tags) ++ tagBytes inner tags

def Ipv4Header.fixed (h : Ipv4Header) (proto : Byte) : List Byte :=
  [4#4 ++ h.ihl, h.tos] ++ be16 h.totLen ++ be16 h.id ++ be16 h.fragOff ++ [h.ttl, proto] ++
    be16 h.check ++ [h.saddr 0, h.saddr 1, h.saddr 2, h.saddr 3] ++
    [h.daddr 0, h.daddr 1, h.daddr 2, h.daddr 3]

def Ipv6Header.start (h : Ipv6Header) (nexthdr : Byte) : List Byte :=
  [6#4 ++ h.priority, h.flow 0, h.flow 1, h.flow 2] ++ be16 h.payloadLen ++ [nexthdr, h.hopLimit]

def IpHeader.bytes : IpHeader → Byte → List Byte
  | .v4 h, proto => h.fixed proto ++ h.options
  | .v6 h, nexthdr => h.start nexthdr ++ (List.ofFn h.saddr ++ List.ofFn h.daddr)

def IpHeader.etherType : IpHeader → BitVec 16
  | .v4 _ => ethPIp
  | .v6 _ => ethPIpv6

def TcpHeader.bytes (h : TcpHeader) : List Byte :=
  be16 h.source ++ be16 h.dest ++ [h.seq 0, h.seq 1, h.seq 2, h.seq 3] ++
    [h.ack 0, h.ack 1, h.ack 2, h.ack 3] ++ [h.doff, h.flags] ++ be16 h.window ++
    be16 h.check ++ be16 h.urgPtr

def UdpHeader.bytes (h : UdpHeader) : List Byte :=
  be16 h.source ++ be16 h.dest ++ be16 h.len ++ be16 h.check

def Transport.bytes : Transport → List Byte
  | .tcp h => h.bytes
  | .udp h => h.bytes
  | .other .. => []

def Transport.proto : Transport → Byte
  | .tcp _ => ipprotoTcp
  | .udp _ => ipprotoUdp
  | .other proto .. => proto

/-- The packet from its network header on. -/
def Packet.bytes (pkt : Packet) : List Byte :=
  tagBytes pkt.ip.etherType pkt.tags ++
    (pkt.ip.bytes pkt.transport.proto ++ (pkt.transport.bytes ++ pkt.payload))

/-! ## The record of a packet -/

def IpHeader.saddr : IpHeader → Addr
  | .v4 h => Addr.ofV4 h.saddr
  | .v6 h => Addr.ofBytes h.saddr

def IpHeader.daddr : IpHeader → Addr
  | .v4 h => Addr.ofV4 h.daddr
  | .v6 h => Addr.ofBytes h.daddr

/-- Source and destination port, and the flags. -/
def Transport.source : Transport → BitVec 16
  | .tcp h => h.source
  | .udp h => h.source
  | .other .. => 0

def Transport.dest : Transport → BitVec 16
  | .tcp h => h.dest
  | .udp h => h.dest
  | .other .. => 0

def Transport.flags : Transport → Byte
  | .tcp h => h.flags
  | _ => 0

/-- The record: ports in network byte order, `l3_proto` in that of the host. -/
def Packet.tuple (pkt : Packet) : SkbTuple where
  saddr := pkt.ip.saddr
  daddr := pkt.ip.daddr
  sport := htons pkt.transport.source
  dport := htons pkt.transport.dest
  l3Proto := pkt.ip.etherType
  l4Proto := pkt.transport.proto
  tcpFlags := pkt.transport.flags

/-- The skb carries the packet at its network header. -/
structure Carries (K : KernelLayout) (m : Mem) (skb : BitVec 64) (pkt : Packet) : Prop where
  protocol : skbProtocol K m skb = htons (outerType pkt.ip.etherType pkt.tags)
  room : (skbNetworkHeader K m skb).toNat + 8 < 2 ^ 16
  bytes : m.Holds (skbHead K m skb + (skbNetworkHeader K m skb).setWidth 64) pkt.bytes

/-! ## Words -/

variable {m : Mem} {addr : BitVec 64} {f g : Nat → Byte} {bs : List Byte} {x : BitVec 16}

theorem wordAt_congr {off off' n : Nat} (h : ∀ i < n / 8, f (off + i) = g (off' + i)) :
    wordAt f off n = wordAt g off' n := by
  rw [wordAt, wordAt, leNat_congr h]

/-- Two bytes in network byte order, read as a little-endian word. -/
theorem ofNat_be16 (h0 : f 0 = x.extractLsb' 8 8) (h1 : f 1 = x.setWidth 8) :
    BitVec.ofNat 16 (leNat f 2) = htons x := by
  apply BitVec.eq_of_toNat_eq
  have hlt := (x.extractLsb' 8 8).isLt
  rw [htons, BitVec.toNat_append, ← Nat.shiftLeft_add_eq_or_of_lt hlt, Nat.shiftLeft_eq]
  have hlt' := (x.setWidth 8).isLt
  simp only [leNat, h0, h1, BitVec.toNat_ofNat]
  omega

/-- The same anywhere in a header. -/
theorem wordAt_be16 {off : Nat} (h0 : f off = x.extractLsb' 8 8)
    (h1 : f (off + 1) = x.setWidth 8) : wordAt f off 16 = htons x :=
  ofNat_be16 h0 h1

/-! ## The steps of the decoding -/

/-- Both EtherTypes of tags are recognised, -/
theorem isVlanProto_tpid (tag : VlanTag) : isVlanProto (htons tag.tpid) = true := by
  unfold VlanTag.tpid
  cases tag.ad with
  | true => rfl
  | false => rfl

/-- and those of IP are none. -/
theorem isVlanProto_etherType (ip : IpHeader) : isVlanProto (htons ip.etherType) = false := by
  cases ip with
  | v4 h => exact (by decide : isVlanProto (htons ethPIp) = false)
  | v6 h => exact (by decide : isVlanProto (htons ethPIpv6) = false)

theorem tagBytes_length (inner : BitVec 16) (tags : List VlanTag) :
    (tagBytes inner tags).length = 4 * tags.length := by
  induction tags with
  | nil => rfl
  | cons tag tags ih =>
    rw [tagBytes, List.length_append, ih, List.length_cons]
    simp only [be16, List.cons_append, List.nil_append, List.length_cons, List.length_nil]
    omega

/-- The loop skips the tags. Every round reads the EtherType behind one tag. -/
theorem skipVlan_tags {head : BitVec 64} {inner off : BitVec 16} {tags : List VlanTag}
    {rest : List Byte} {n : Nat} (hn : tags.length ≤ n) (hinner : isVlanProto (htons inner) = false)
    (hroom : off.toNat + 4 * tags.length < 2 ^ 16)
    (hb : m.Holds (head + off.setWidth 64) (tagBytes inner tags ++ rest)) :
    skipVlan m head n off (htons (outerType inner tags)) =
      off + BitVec.ofNat 16 (4 * tags.length) := by
  induction tags generalizing n off with
  | nil =>
    cases n with
    | zero => exact (BitVec.add_zero off).symm
    | succ n =>
      rw [skipVlan, outerType, hinner]
      exact (BitVec.add_zero off).symm
  | cons tag tags ih =>
    obtain ⟨n, rfl⟩ : ∃ n', n = n' + 1 := ⟨n - 1, by simp only [List.length_cons] at hn; omega⟩
    simp only [List.length_cons] at hn hroom
    have hproto : field m (head + off.setWidth 64) 2 16 = htons (outerType inner tags) := by
      have hword := hb.word (show 2 + 2 ≤ (tagBytes inner (tag :: tags) ++ rest).length by
        rw [List.length_append, tagBytes_length, List.length_cons]
        omega)
      rw [field, show (2 : BitVec 64) = BitVec.ofNat 64 2 from rfl, hword]
      exact ofNat_be16 rfl rfl
    -- the 16-bit offset does not wrap, so the bytes behind this tag stand at `off + 4`
    have h4 : (off + 4).toNat = off.toNat + 4 := by
      rw [BitVec.toNat_add]
      exact Nat.mod_eq_of_lt (show off.toNat + 4 < 2 ^ 16 by omega)
    have haddr : head + (off + 4).setWidth 64 = head + off.setWidth 64 + BitVec.ofNat 64 4 := by
      rw [BitVec.add_assoc]
      congr 1
      apply BitVec.eq_of_toNat_eq
      simp only [BitVec.toNat_setWidth, BitVec.toNat_add, BitVec.toNat_ofNat, h4]
      omega
    have hrest : m.Holds (head + (off + 4).setWidth 64) (tagBytes inner tags ++ rest) := by
      rw [haddr]
      rw [tagBytes, List.append_assoc] at hb
      exact hb.right
    rw [skipVlan, outerType, isVlanProto_tpid, if_pos rfl, hproto]
    rw [ih (by omega) (by omega) hrest, BitVec.add_assoc, List.length_cons,
      show (4 : BitVec 16) = BitVec.ofNat 16 4 from rfl, ← BitVec.ofNat_add]
    congr 2
    omega

/-- The transport header. -/
theorem setTransport_carries {tuple : SkbTuple} {transport : Transport} {payload : List Byte}
    (hproto : tuple.l4Proto = transport.proto) (hsport : tuple.sport = 0) (hdport : tuple.dport = 0)
    (hflags : tuple.tcpFlags = 0) (hb : m.Holds addr (transport.bytes ++ payload)) :
    setTransport m tuple addr =
      { tuple with
        sport := htons transport.source
        dport := htons transport.dest
        tcpFlags := transport.flags } := by
  cases transport with
  | tcp h =>
    have hlen : 20 ≤ ((Transport.tcp h).bytes ++ payload).length := by
      simp only [Transport.bytes, TcpHeader.bytes, be16, List.length_append, List.length_cons,
        List.length_nil]
      omega
    obtain ⟨f, hf, hbytes⟩ := hb.readStart hlen
    have hs : wordAt f 0 16 = htons h.source :=
      wordAt_be16 (hbytes 0 (by decide)) (hbytes 1 (by decide))
    have hd : wordAt f 2 16 = htons h.dest :=
      wordAt_be16 (hbytes 2 (by decide)) (hbytes 3 (by decide))
    have hfl : f 13 = h.flags := hbytes 13 (by decide)
    rw [setTransport_tcp hproto hf, hs, hd, hfl]
    rfl
  | udp h =>
    have hlen : 8 ≤ ((Transport.udp h).bytes ++ payload).length := by
      simp only [Transport.bytes, UdpHeader.bytes, be16, List.length_append, List.length_cons,
        List.length_nil]
      omega
    obtain ⟨f, hf, hbytes⟩ := hb.readStart hlen
    have hs : wordAt f 0 16 = htons h.source :=
      wordAt_be16 (hbytes 0 (by decide)) (hbytes 1 (by decide))
    have hd : wordAt f 2 16 = htons h.dest :=
      wordAt_be16 (hbytes 2 (by decide)) (hbytes 3 (by decide))
    rw [setTransport_udp hproto hf, hs, hd, hflags]
    rfl
  | other proto htcp hudp =>
    rw [setTransport_other (hproto ▸ htcp) (hproto ▸ hudp)]
    have hs : htons (Transport.other proto htcp hudp).source = tuple.sport :=
      htons_zero.trans hsport.symm
    have hd : htons (Transport.other proto htcp hudp).dest = tuple.dport :=
      htons_zero.trans hdport.symm
    have hfl : (Transport.other proto htcp hudp).flags = tuple.tcpFlags := hflags.symm
    rw [hs, hd, hfl]

/-! ## The IP header -/

theorem version_four (ihl : BitVec 4) : (4#4 ++ ihl : BitVec 8) >>> 4 = 4 := by
  revert ihl
  decide

theorem version_six (priority : BitVec 4) : (6#4 ++ priority : BitVec 8) >>> 4 = 6 := by
  revert priority
  decide

theorem ihl_offset (ihl : BitVec 4) :
    ((4#4 ++ ihl : BitVec 8) &&& 0xf).setWidth 64 * 4 = BitVec.ofNat 64 (4 * ihl.toNat) := by
  revert ihl
  decide

theorem getD_ofFn {n i : Nat} (b : Fin n → Byte) (hi : i < n) :
    (List.ofFn b).getD i 0 = b ⟨i, hi⟩ := by
  rw [List.getD_eq_getElem?_getD, List.getElem?_ofFn, dif_pos hi, Option.getD_some]

/-- An IPv4 address is the first four bytes of the union, -/
theorem v4Bytes_low (b : Fin 4 → Byte) {i : Nat} (hi : i < 4) :
    (List.ofFn (v4Bytes b)).getD i 0 = b ⟨i, hi⟩ := by
  rw [getD_ofFn _ (by omega), v4Bytes, dif_pos hi]

/-- and the others are zero. -/
theorem v4Bytes_high (b : Fin 4 → Byte) {i : Nat} (h4 : 4 ≤ i) (hi : i < 16) :
    (List.ofFn (v4Bytes b)).getD i 0 = 0 := by
  rw [getD_ofFn _ hi, v4Bytes, dif_neg (by simpa using h4)]

theorem setV4addr_ofV4 {off : Nat} {b : Fin 4 → Byte}
    (h : ∀ i (hi : i < 4), f (off + i) = b ⟨i, hi⟩) :
    emptyTuple.saddr.setV4addr (wordAt f off 32) = Addr.ofV4 b := by
  have hlow : leNat (fun i => (List.ofFn (v4Bytes b)).getD i 0) 4 =
      leNat (fun i => f (off + i)) 4 :=
    leNat_congr fun i hi => (v4Bytes_low b hi).trans (h i hi).symm
  have hhigh : ∀ k n, 4 ≤ k → k + n ≤ 16 →
      leNat (fun i => (List.ofFn (v4Bytes b)).getD (k + i) 0) n = 0 := fun k n hk hn =>
    leNat_eq_zero fun i hi => v4Bytes_high b (by omega) (by omega)
  have hd1 : (Addr.ofV4 b).d1 = BitVec.ofNat 64 (leNat (fun i => f (off + i)) 4) := by
    unfold Addr.ofV4 Addr.ofBytes
    dsimp only
    rw [leNat_add _ 4 4, hlow, hhigh 4 4 (by omega) (by omega), Nat.mul_zero, Nat.add_zero]
  have hd2 : (Addr.ofV4 b).d2 = 0 := by
    unfold Addr.ofV4 Addr.ofBytes
    dsimp only
    rw [hhigh 8 8 (by omega) (by omega)]
    rfl
  have hword : (wordAt f off 32).setWidth 64 =
      BitVec.ofNat 64 (leNat (fun i => f (off + i)) 4) := by
    have hlt := leNat_lt (fun i => f (off + i)) 4
    have hword : wordAt f off 32 = BitVec.ofNat 32 (leNat (fun i => f (off + i)) 4) := rfl
    rw [hword]
    apply BitVec.eq_of_toNat_eq
    simp only [BitVec.toNat_setWidth, BitVec.toNat_ofNat]
    omega
  have hset : emptyTuple.saddr.setV4addr (wordAt f off 32) =
      { d1 := (wordAt f off 32).setWidth 64, d2 := 0 } := by
    have hzero : (0 : BitVec 64) &&& 0xffffffff00000000#64 = 0 := by decide
    unfold Addr.setV4addr emptyTuple
    dsimp only
    rw [hzero]
    exact congrArg₂ Addr.mk (BitVec.zero_or) rfl
  exact hset.trans (congrArg₂ Addr.mk (hword.trans hd1.symm) hd2.symm)

theorem wordAt_ofFn {off : Nat} {b : Fin 16 → Byte} (k : Nat) (hk : k + 8 ≤ 16)
    (h : ∀ i (hi : i < 16), f (off + i) = b ⟨i, hi⟩) :
    wordAt f (off + k) 64 = BitVec.ofNat 64 (leNat (fun i => (List.ofFn b).getD (k + i) 0) 8) := by
  have hword : leNat (fun i => f (off + k + i)) 8 =
      leNat (fun i => (List.ofFn b).getD (k + i) 0) 8 := by
    refine leNat_congr fun i hi => ?_
    rw [getD_ofFn _ (by omega), Nat.add_assoc]
    exact h (k + i) (by omega)
  exact congrArg (BitVec.ofNat 64) hword

/-- Sixteen bytes, read as two words. -/
theorem addr_ofBytes {off : Nat} {b : Fin 16 → Byte}
    (h : ∀ i (hi : i < 16), f (off + i) = b ⟨i, hi⟩) :
    Addr.mk (wordAt f off 64) (wordAt f (off + 8) 64) = Addr.ofBytes b := by
  have hd1 := wordAt_ofFn 0 (by omega) h
  simp only [Nat.zero_add, Nat.add_zero] at hd1
  exact congrArg₂ Addr.mk hd1 (wordAt_ofFn 8 (by omega) h)

/-- What the headers come to, apart from ports and flags. -/
theorem v4Tuple_eq {h : Ipv4Header} {proto : Byte} (hproto : f 9 = proto)
    (hsaddr : ∀ i (hi : i < 4), f (12 + i) = h.saddr ⟨i, hi⟩)
    (hdaddr : ∀ i (hi : i < 4), f (16 + i) = h.daddr ⟨i, hi⟩) :
    v4Tuple f = { emptyTuple with
      l3Proto := ethPIp, l4Proto := proto, saddr := Addr.ofV4 h.saddr,
      daddr := Addr.ofV4 h.daddr } := by
  have hempty : emptyTuple.daddr = emptyTuple.saddr := rfl
  unfold v4Tuple
  rw [hproto, hempty, setV4addr_ofV4 hsaddr, setV4addr_ofV4 hdaddr]

/-- What is kept of an IPv6 header. -/
theorem v6Tuple_eq {h : Ipv6Header} {nexthdr : Byte} (hnexthdr : f 6 = nexthdr)
    (hsaddr : ∀ i (hi : i < 16), f (8 + i) = h.saddr ⟨i, hi⟩)
    (hdaddr : ∀ i (hi : i < 16), f (24 + i) = h.daddr ⟨i, hi⟩) :
    v6Tuple f = { emptyTuple with
      l3Proto := ethPIpv6, l4Proto := nexthdr, saddr := Addr.ofBytes h.saddr,
      daddr := Addr.ofBytes h.daddr } := by
  unfold v6Tuple
  rw [hnexthdr, ← addr_ofBytes hsaddr, ← addr_ofBytes hdaddr]

/-- An IPv4 header in memory is decoded, with any options, -/
theorem ipTuple_v4_carries {h : Ipv4Header} {transport : Transport} {payload : List Byte}
    (hb : m.Holds addr ((IpHeader.v4 h).bytes transport.proto ++ (transport.bytes ++ payload))) :
    ipTuple m addr =
      { saddr := Addr.ofV4 h.saddr, daddr := Addr.ofV4 h.daddr, sport := htons transport.source,
        dport := htons transport.dest, l3Proto := ethPIp, l4Proto := transport.proto,
        tcpFlags := transport.flags } := by
  have hfixed : (h.fixed transport.proto).length = 20 := rfl
  have hge := h.ihl_ge
  have hlen : ((IpHeader.v4 h).bytes transport.proto).length = 4 * h.ihl.toNat := by
    rw [IpHeader.bytes, List.length_append, hfixed, h.options_length]
    omega
  obtain ⟨f, hf, hbytes⟩ := hb.readStart (n := 20) (by rw [List.length_append, hlen]; omega)
  have h0 : f 0 = 4#4 ++ h.ihl := hbytes 0 (by decide)
  have hproto : f 9 = transport.proto := hbytes 9 (by decide)
  have hsaddr : ∀ i (hi : i < 4), f (12 + i) = h.saddr ⟨i, hi⟩ := by
    intro i hi
    rw [hbytes (12 + i) (by omega)]
    match i, hi with
    | 0, _ => rfl
    | 1, _ => rfl
    | 2, _ => rfl
    | 3, _ => rfl
  have hdaddr : ∀ i (hi : i < 4), f (16 + i) = h.daddr ⟨i, hi⟩ := by
    intro i hi
    rw [hbytes (16 + i) (by omega)]
    match i, hi with
    | 0, _ => rfl
    | 1, _ => rfl
    | 2, _ => rfl
    | 3, _ => rfl
  have hversion : ipVersion f = 4 := by rw [ipVersion, h0, version_four]
  have hrest : m.Holds (addr + (ipIhl f).setWidth 64 * 4) (transport.bytes ++ payload) := by
    rw [ipIhl, h0, ihl_offset, ← hlen]
    exact hb.right
  rw [ipTuple_v4 hf hversion, v4Tuple_eq hproto hsaddr hdaddr,
    setTransport_carries rfl rfl rfl rfl hrest]

/-- and so is an IPv6 header. -/
theorem ipTuple_v6_carries {h : Ipv6Header} {transport : Transport} {payload : List Byte}
    (hb : m.Holds addr ((IpHeader.v6 h).bytes transport.proto ++ (transport.bytes ++ payload))) :
    ipTuple m addr =
      { saddr := Addr.ofBytes h.saddr, daddr := Addr.ofBytes h.daddr,
        sport := htons transport.source, dport := htons transport.dest, l3Proto := ethPIpv6,
        l4Proto := transport.proto, tcpFlags := transport.flags } := by
  have hstart : (h.start transport.proto).length = 8 := rfl
  have hlen : ((IpHeader.v6 h).bytes transport.proto).length = 40 := by
    rw [IpHeader.bytes, List.length_append, hstart, List.length_append, List.length_ofFn,
      List.length_ofFn]
  obtain ⟨f, hf, hbytes⟩ := hb.readStart (n := 40) (by rw [List.length_append, hlen]; omega)
  obtain ⟨g, hg, hgbytes⟩ := hb.readStart (n := 20) (by rw [List.length_append, hlen]; omega)
  have h0 : g 0 = 6#4 ++ h.priority := hgbytes 0 (by decide)
  have hproto : f 6 = transport.proto := hbytes 6 (by decide)
  have hsaddr : ∀ i (hi : i < 16), f (8 + i) = h.saddr ⟨i, hi⟩ := by
    intro i hi
    rw [hbytes (8 + i) (by omega), IpHeader.bytes, List.append_assoc, List.append_assoc,
      List.getD_append_right _ _ _ _ (by omega), hstart, Nat.add_sub_cancel_left,
      List.getD_append _ _ _ _ (by rw [List.length_ofFn]; omega), getD_ofFn _ hi]
  have hdaddr : ∀ i (hi : i < 16), f (24 + i) = h.daddr ⟨i, hi⟩ := by
    intro i hi
    rw [hbytes (24 + i) (by omega), IpHeader.bytes, List.append_assoc, List.append_assoc,
      List.getD_append_right _ _ _ _ (by omega), hstart,
      List.getD_append_right _ _ _ _ (by rw [List.length_ofFn]; omega), List.length_ofFn,
      List.getD_append _ _ _ _ (by rw [List.length_ofFn]; omega), getD_ofFn _ (by omega)]
    congr 2
    omega
  have hversion : ipVersion g = 6 := by rw [ipVersion, h0, version_six]
  have hrest : m.Holds (addr + 40) (transport.bytes ++ payload) := by
    have := hb.right
    rwa [hlen] at this
  rw [ipTuple_v6 hg hversion hf, v6Tuple_eq hproto hsaddr hdaddr,
    setTransport_carries rfl rfl rfl rfl hrest]

/-! ## The whole -/

/-- The IP header of a carried packet stands where `set_tuple` looks for it. -/
theorem Carries.ip {K : KernelLayout} {skb : BitVec 64} {pkt : Packet}
    (h : Carries K m skb pkt) : m.Holds (l3Addr K m skb)
      (pkt.ip.bytes pkt.transport.proto ++ (pkt.transport.bytes ++ pkt.payload)) := by
  have hfew := pkt.tags_length
  have hroom := h.room
  have hoff : getL3HeaderOffset K m skb (skbHead K m skb) =
      skbNetworkHeader K m skb + BitVec.ofNat 16 (4 * pkt.tags.length) := by
    rw [getL3HeaderOffset, h.protocol]
    exact skipVlan_tags hfew (isVlanProto_etherType pkt.ip) (by omega) h.bytes
  have haddr : l3Addr K m skb =
      skbHead K m skb + (skbNetworkHeader K m skb).setWidth 64 +
        BitVec.ofNat 64 (tagBytes pkt.ip.etherType pkt.tags).length := by
    rw [l3Addr, hoff, tagBytes_length, BitVec.add_assoc]
    congr 1
    apply BitVec.eq_of_toNat_eq
    simp only [BitVec.toNat_setWidth, BitVec.toNat_add, BitVec.toNat_ofNat]
    omega
  rw [haddr]
  exact h.bytes.right

/-- `set_tuple` stores the record of the packet that an skb carries. -/
theorem setTuple_carries {K : KernelLayout} {skb : BitVec 64} {pkt : Packet}
    (h : Carries K m skb pkt) (tuple : SkbTuple) : setTuple K m skb tuple = pkt.tuple := by
  have hip := h.ip
  rw [setTuple_eq]
  unfold Packet.tuple
  cases hcase : pkt.ip with
  | v4 hdr =>
    rw [hcase] at hip
    rw [ipTuple_v4_carries hip]
    rfl
  | v6 hdr =>
    rw [hcase] at hip
    rw [ipTuple_v6_carries hip]
    rfl

/-! ## An skb for every packet -/

/-- An skb at 0x1000 with the packet at 0x2000, and nothing in front of that. -/
def carrier (pkt : Packet) : Mem :=
  (wordMem fun k =>
    if k = 512 then 0x2000
    else if k = 517 then (htons (outerType pkt.ip.etherType pkt.tags)).toNat
    else 0).withText 0x2000 pkt.bytes

/-- It carries the packet. -/
theorem carrier_carries (pkt : Packet) (hlen : pkt.bytes.length < 2 ^ 32) :
    Carries plainLayout (carrier pkt) 0x1000 pkt := by
  have hhead : skbHead plainLayout (carrier pkt) 0x1000 = 0x2000 :=
    (field_withText (k := 4096) rfl (by decide) (by decide)).trans
      (field_wordMem (k := 512) rfl (by decide) (by decide))
  have hnet : skbNetworkHeader plainLayout (carrier pkt) 0x1000 = 0 :=
    (field_withText (k := 4112) rfl (by decide) (by decide)).trans
      (field_wordMem (k := 514) rfl (by decide) (by decide))
  constructor
  · refine (field_withText (k := 4136) rfl (by decide) (by decide)).trans
      ((field_wordMem (k := 517) rfl (by decide) (by decide)).trans ?_)
    have hlt : (htons (outerType pkt.ip.etherType pkt.tags)).toNat % 256 ^ (16 / 8) =
        (htons (outerType pkt.ip.etherType pkt.tags)).toNat := Nat.mod_eq_of_lt (BitVec.isLt _)
    apply BitVec.eq_of_toNat_eq
    rw [BitVec.toNat_ofNat]
    exact (congrArg (· % 2 ^ 16) hlt).trans hlt
  · rw [hnet]
    decide
  · rw [hhead, hnet]
    exact Mem.withText_holds _ (by omega)

/-- **What a packet encodes is what is stored**, for every packet with up to two tags,
an IPv4 header with any options or an IPv6 header, and any transport; and what the
record held before has no part in what `set_tuple` stores, for any skb at all. -/
theorem set_tuple_decodes :
    (∀ K m skb pkt tuple, Carries K m skb pkt → setTuple K m skb tuple = pkt.tuple) ∧
      ∀ K m skb tuple tuple', setTuple K m skb tuple = setTuple K m skb tuple' :=
  ⟨fun _ _ _ _ tuple h => setTuple_carries h tuple,
    fun K m skb tuple tuple' => (setTuple_eq K m skb tuple).trans (setTuple_eq K m skb tuple').symm⟩

/-- A UDP packet behind one tag. -/
def taggedUdp : Packet where
  tags := [⟨false, 100⟩]
  tags_length := by decide
  ip := .v4
    { ihl := 5, ihl_ge := by decide, tos := 0, totLen := 28, id := 0, fragOff := 0, ttl := 64,
      check := 0, saddr := fun i => [10, 0, 0, 1].getD i.val 0,
      daddr := fun i => [10, 0, 0, 2].getD i.val 0, options := [],
      options_length := rfl }
  transport := .udp { source := 5353, dest := 53, len := 8, check := 0 }
  payload := []

/-- Its record is stored. -/
theorem set_tuple_decodes_taggedUdp (tuple : SkbTuple) :
    setTuple plainLayout (carrier taggedUdp) 0x1000 tuple = taggedUdp.tuple :=
  set_tuple_decodes.1 _ _ _ _ tuple (carrier_carries taggedUdp (by decide))

end SkbTracer.Kprobe
