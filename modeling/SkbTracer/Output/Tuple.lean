import SkbTracer.Kprobe.OwnBytes
import SkbTracer.Libc.InetNtop

/-!
# The tuple as it is shown

The kernel side says that it has found an IP header by the `l3_proto` of the tuple.
`format_tuple` asks something else: a tuple with `l4_proto` zero is shown as `-`, and an
address that is zero as well. But zero is a protocol (IPv6 hop-by-hop options), and
`0.0.0.0` and `::` are addresses that packets have.

`shownTuple` is the text with both addresses, in the family of the header, and `Shown`
says what is to be shown: a packet with a header by that text, and `-` for one without
and for no other.

- `formatTuple_eq_shownTuple_iff`, `formatTuple_eq_placeholder_iff`: the two clauses, for
  any tuple.
- `Ipv4At.set_iff`, `Ipv6At.set_iff`: which bytes of the packet make the tuple's fields
  zero. Fields of several bytes are zero exactly if all their bytes are
  (`wordAt_ne_zero_iff`).
- `shown_iff`: so a packet is shown as it should be exactly if the protocol and the
  addresses in its header are not zero, `HeaderSet`.
- `hopByHop_hidden`: an IPv6 packet that is recorded with its addresses, and shown as `-`.

The header is looked for where `set_tuple` looks, behind the tags that the skb announces;
that this is its place for a packet as it is on the wire is `setTuple_carries`. The texts
of the addresses are those of `inet_ntop`, modelled in `Libc.InetNtop`.
-/

namespace SkbTracer.Output

open SkbTracer.Lib (Mem Byte byteOf byteOf_zero mod_eq_iff_bytes leNat leNat_eq_zero)
open SkbTracer.Libc (inetNtop4 inetNtop6 inetNtop4_congr inetNtop4_zero inetNtop6_zero)
open SkbTracer.Kprobe

/-! ## `format_tuple` -/

/-- `IPPROTO_ICMP`. -/
def ipprotoIcmp : Byte := 1
/-- `IPPROTO_ICMPV6`. -/
def ipprotoIcmpv6 : Byte := 58

/-- `get_protocol_name(protocol)`. -/
def getProtocolName (protocol : Byte) : List Char :=
  if protocol = ipprotoTcp then "TCP".toList
  else if protocol = ipprotoUdp then "UDP".toList
  else if protocol = ipprotoIcmp then "ICMP".toList
  else if protocol = ipprotoIcmpv6 then "ICMP6".toList
  else "-".toList

/-- `protocol_has_ports(protocol)`. -/
def protocolHasPorts (protocol : Byte) : Bool := protocol == ipprotoTcp || protocol == ipprotoUdp

/-- The bytes of the union, and those of `v4addr`. -/
def addrBytes (a : Addr) (i : Nat) : Byte :=
  if i < 8 then byteOf a.d1.toNat i else byteOf a.d2.toNat (i - 8)

/-- A port, after `ntohs`. -/
def portText (port : BitVec 16) : List Char := Nat.toDigits 10 (htons port).toNat

/-- Two endpoints in a text. -/
def twoEnds (pre mid post sIp dIp : List Char) : List Char := pre ++ (sIp ++ (mid ++ (dIp ++ post)))

/-- `" [{}]"`. -/
def protoTag (tuple : SkbTuple) : List Char :=
  " [".toList ++ getProtocolName tuple.l4Proto ++ "]".toList

/-- `"[{}]:{} -> [{}]:{} [{}]"` or `"{} -> {} [{}]"`. -/
def ipv6Text (tuple : SkbTuple) (sIp dIp : List Char) : List Char :=
  if protocolHasPorts tuple.l4Proto then
    twoEnds "[".toList ("]:".toList ++ portText tuple.sport ++ " -> [".toList)
      ("]:".toList ++ portText tuple.dport ++ protoTag tuple) sIp dIp
  else twoEnds [] " -> ".toList (protoTag tuple) sIp dIp

/-- `"{}:{} -> {}:{} [{}]"` or `"{} -> {} [{}]"`. -/
def ipv4Text (tuple : SkbTuple) (sIp dIp : List Char) : List Char :=
  if protocolHasPorts tuple.l4Proto then
    twoEnds [] (":".toList ++ portText tuple.sport ++ " -> ".toList)
      (":".toList ++ portText tuple.dport ++ protoTag tuple) sIp dIp
  else twoEnds [] " -> ".toList (protoTag tuple) sIp dIp

/-- `format_ipv6_tuple(tuple)`. -/
def formatIpv6Tuple (tuple : SkbTuple) : List Char :=
  ipv6Text tuple
    (if tuple.saddr.d1 ≠ 0 ∨ tuple.saddr.d2 ≠ 0 then inetNtop6 (addrBytes tuple.saddr)
      else "-".toList)
    (if tuple.daddr.d1 ≠ 0 ∨ tuple.daddr.d2 ≠ 0 then inetNtop6 (addrBytes tuple.daddr)
      else "-".toList)

/-- `format_ipv4_tuple(tuple)`. -/
def formatIpv4Tuple (tuple : SkbTuple) : List Char :=
  ipv4Text tuple
    (if tuple.saddr.v4addr ≠ 0 then inetNtop4 (addrBytes tuple.saddr) else "-".toList)
    (if tuple.daddr.v4addr ≠ 0 then inetNtop4 (addrBytes tuple.daddr) else "-".toList)

/-- `TupleOutput::format_tuple(tuple)`. -/
def formatTuple (tuple : SkbTuple) : List Char :=
  if tuple.l4Proto = 0 then "-".toList
  else if tuple.l3Proto = ethPIpv6 then formatIpv6Tuple tuple
  else formatIpv4Tuple tuple

/-! ## What is to be shown -/

/-- An IPv4 or IPv6 header was recognised. -/
def Recognised (tuple : SkbTuple) : Prop := tuple.l3Proto = ethPIp ∨ tuple.l3Proto = ethPIpv6

instance (tuple : SkbTuple) : Decidable (Recognised tuple) := inferInstanceAs (Decidable (_ ∨ _))

/-- Both endpoints and the protocol, in the address family of the header. -/
def shownTuple (tuple : SkbTuple) : List Char :=
  if tuple.l3Proto = ethPIpv6 then
    ipv6Text tuple (inetNtop6 (addrBytes tuple.saddr)) (inetNtop6 (addrBytes tuple.daddr))
  else ipv4Text tuple (inetNtop4 (addrBytes tuple.saddr)) (inetNtop4 (addrBytes tuple.daddr))

/-- A packet is shown with its addresses, and `-` stands for no packet and nothing else. -/
structure Shown (tuple : SkbTuple) : Prop where
  addresses : Recognised tuple → formatTuple tuple = shownTuple tuple
  placeholder : formatTuple tuple = "-".toList ↔ ¬ Recognised tuple

/-! ## The texts -/

variable {tuple : SkbTuple} {a : Addr} {m : Mem} {addr : BitVec 64}

theorem twoEnds_ne_placeholder {pre mid post sIp dIp : List Char} (hmid : 2 ≤ mid.length) :
    twoEnds pre mid post sIp dIp ≠ "-".toList := by
  intro h
  have hlen := congrArg List.length h
  have hone : "-".toList.length = 1 := by decide
  unfold twoEnds at hlen
  rw [List.length_append, List.length_append, List.length_append, hone] at hlen
  omega

theorem arrow_length (port : List Char) :
    2 ≤ (":".toList ++ port ++ " -> ".toList).length ∧
      2 ≤ ("]:".toList ++ port ++ " -> [".toList).length ∧ 2 ≤ " -> ".toList.length := by
  have h4 : " -> ".toList.length = 4 := by decide
  have h5 : " -> [".toList.length = 5 := by decide
  refine ⟨?_, ?_, ?_⟩
  · rw [List.length_append, h4]
    omega
  · rw [List.length_append, h5]
    omega
  · rw [h4]
    omega

theorem ipv6Text_ne_placeholder (sIp dIp : List Char) : ipv6Text tuple sIp dIp ≠ "-".toList := by
  unfold ipv6Text
  split
  · exact twoEnds_ne_placeholder (arrow_length _).2.1
  · exact twoEnds_ne_placeholder (arrow_length []).2.2

theorem ipv4Text_ne_placeholder (sIp dIp : List Char) : ipv4Text tuple sIp dIp ≠ "-".toList := by
  unfold ipv4Text
  split
  · exact twoEnds_ne_placeholder (arrow_length _).1
  · exact twoEnds_ne_placeholder (arrow_length []).2.2

/-- No text with two endpoints is `-`. -/
theorem shownTuple_ne_placeholder (tuple : SkbTuple) : shownTuple tuple ≠ "-".toList := by
  unfold shownTuple
  split
  · exact ipv6Text_ne_placeholder _ _
  · exact ipv4Text_ne_placeholder _ _

/-- A text that has `-` for an endpoint where it should have an address can be told, when
no such address starts with `-`. -/
theorem twoEnds_eq_iff {pre mid post s d : List Char} {P Q : Prop} [Decidable P] [Decidable Q]
    (hs : ¬ P → ∃ c s', s = c :: s' ∧ c ≠ '-') (hd : ¬ Q → d ≠ "-".toList) :
    twoEnds pre mid post (if P then s else "-".toList) (if Q then d else "-".toList) =
      twoEnds pre mid post s d ↔ P ∧ Q := by
  constructor
  · intro h
    have h := List.append_cancel_left h
    -- the first endpoint is told by its first letter, the second by what is left then
    by_cases hP : P
    · rw [if_pos hP] at h
      have h := List.append_cancel_left (List.append_cancel_left h)
      by_cases hQ : Q
      · exact ⟨hP, hQ⟩
      · rw [if_neg hQ] at h
        exact absurd (List.append_cancel_right h).symm (hd hQ)
    · obtain ⟨c, s', rfl, hc⟩ := hs hP
      rw [if_neg hP] at h
      exact absurd (List.head_eq_of_cons_eq h).symm hc
  · intro ⟨hP, hQ⟩
    rw [if_pos hP, if_pos hQ]

/-! ## Zero addresses -/

/-- `v4addr` overlays the first four bytes of the union. -/
theorem v4addr_eq_iff_bytes {a a' : Addr} :
    a.v4addr = a'.v4addr ↔ ∀ i < 4, addrBytes a i = addrBytes a' i := by
  have hmod : a.v4addr = a'.v4addr ↔ a.d1.toNat % 256 ^ 4 = a'.d1.toNat % 256 ^ 4 := by
    unfold Addr.v4addr
    rw [← BitVec.toNat_inj, BitVec.toNat_setWidth, BitVec.toNat_setWidth]
    exact Iff.rfl
  have hbyte : ∀ (a : Addr) i, i < 4 → addrBytes a i = byteOf a.d1.toNat i := fun a i hi =>
    if_pos (by omega)
  rw [hmod, mod_eq_iff_bytes]
  constructor
  · intro h i hi
    rw [hbyte a i hi, hbyte a' i hi]
    exact h i hi
  · intro h i hi
    rw [← hbyte a i hi, ← hbyte a' i hi]
    exact h i hi

theorem addrBytes_zero : addrBytes { d1 := 0, d2 := 0 } = fun _ => 0 := by
  funext i
  unfold addrBytes
  split
  · exact byteOf_zero i
  · exact byteOf_zero (i - 8)

theorem addrBytes_v4_zero (h : a.v4addr = 0) : inetNtop4 (addrBytes a) = "0.0.0.0".toList := by
  have hbytes := v4addr_eq_iff_bytes.mp (show a.v4addr = Addr.v4addr { d1 := 0, d2 := 0 } from h)
  rw [inetNtop4_congr hbytes, addrBytes_zero, inetNtop4_zero]

theorem addrBytes_v6_zero (h : ¬ (a.d1 ≠ 0 ∨ a.d2 ≠ 0)) :
    inetNtop6 (addrBytes a) = "::".toList := by
  obtain ⟨h1, h2⟩ := not_or.mp h
  have hzero : a = { d1 := 0, d2 := 0 } := congrArg₂ Addr.mk (not_not.mp h1) (not_not.mp h2)
  rw [hzero, addrBytes_zero, inetNtop6_zero]

/-- Both addresses of an IPv4 tuple are shown exactly if neither is zero. -/
theorem formatIpv4Tuple_eq_iff : formatIpv4Tuple tuple =
      ipv4Text tuple (inetNtop4 (addrBytes tuple.saddr)) (inetNtop4 (addrBytes tuple.daddr)) ↔
    tuple.saddr.v4addr ≠ 0 ∧ tuple.daddr.v4addr ≠ 0 := by
  have hs : ¬ tuple.saddr.v4addr ≠ 0 →
      ∃ c s, inetNtop4 (addrBytes tuple.saddr) = c :: s ∧ c ≠ '-' := by
    intro h
    exact ⟨'0', ".0.0.0".toList, addrBytes_v4_zero (not_not.mp h), by decide⟩
  have hd : ¬ tuple.daddr.v4addr ≠ 0 → inetNtop4 (addrBytes tuple.daddr) ≠ "-".toList := by
    intro h
    rw [addrBytes_v4_zero (not_not.mp h)]
    decide
  unfold formatIpv4Tuple ipv4Text
  split
  · exact twoEnds_eq_iff hs hd
  · exact twoEnds_eq_iff hs hd

theorem formatIpv6Tuple_eq_iff : formatIpv6Tuple tuple =
      ipv6Text tuple (inetNtop6 (addrBytes tuple.saddr)) (inetNtop6 (addrBytes tuple.daddr)) ↔
    (tuple.saddr.d1 ≠ 0 ∨ tuple.saddr.d2 ≠ 0) ∧ (tuple.daddr.d1 ≠ 0 ∨ tuple.daddr.d2 ≠ 0) := by
  have hs : ¬ (tuple.saddr.d1 ≠ 0 ∨ tuple.saddr.d2 ≠ 0) →
      ∃ c s, inetNtop6 (addrBytes tuple.saddr) = c :: s ∧ c ≠ '-' := by
    intro h
    exact ⟨':', ":".toList, addrBytes_v6_zero h, by decide⟩
  have hd : ¬ (tuple.daddr.d1 ≠ 0 ∨ tuple.daddr.d2 ≠ 0) →
      inetNtop6 (addrBytes tuple.daddr) ≠ "-".toList := by
    intro h
    rw [addrBytes_v6_zero h]
    decide
  unfold formatIpv6Tuple ipv6Text
  split
  · exact twoEnds_eq_iff hs hd
  · exact twoEnds_eq_iff hs hd

/-- Which tuples are shown as they should be, without the protocol. -/
def AddressesSet (tuple : SkbTuple) : Prop :=
  if tuple.l3Proto = ethPIpv6 then
    (tuple.saddr.d1 ≠ 0 ∨ tuple.saddr.d2 ≠ 0) ∧ (tuple.daddr.d1 ≠ 0 ∨ tuple.daddr.d2 ≠ 0)
  else tuple.saddr.v4addr ≠ 0 ∧ tuple.daddr.v4addr ≠ 0

/-- The text is the one with both addresses exactly if none of the three is zero. -/
theorem formatTuple_eq_shownTuple_iff :
    formatTuple tuple = shownTuple tuple ↔ tuple.l4Proto ≠ 0 ∧ AddressesSet tuple := by
  unfold formatTuple AddressesSet
  by_cases hl4 : tuple.l4Proto = 0
  · -- `-` has no arrow in it, as the text of any packet has
    rw [if_pos hl4]
    constructor
    · intro h
      exact absurd h.symm (shownTuple_ne_placeholder tuple)
    · intro h
      exact absurd hl4 h.1
  · rw [if_neg hl4, and_iff_right hl4]
    unfold shownTuple
    split
    · exact formatIpv6Tuple_eq_iff
    · exact formatIpv4Tuple_eq_iff

/-- The placeholder is shown for a protocol that is zero, and for no other. -/
theorem formatTuple_eq_placeholder_iff :
    formatTuple tuple = "-".toList ↔ tuple.l4Proto = 0 := by
  unfold formatTuple
  by_cases hl4 : tuple.l4Proto = 0
  · rw [if_pos hl4]
    exact iff_of_true rfl hl4
  · rw [if_neg hl4]
    refine iff_of_false ?_ hl4
    split
    · exact ipv6Text_ne_placeholder _ _
    · exact ipv4Text_ne_placeholder _ _

/-! ## The headers -/

/-- There is an IPv4 header to be read at `addr`. -/
structure Ipv4At (m : Mem) (addr : BitVec 64) : Prop where
  readable : m.Readable addr 20
  version : ipVersion (bytesAt m addr) = 4

/-- An IPv6 header can be read at `addr`. -/
structure Ipv6At (m : Mem) (addr : BitVec 64) : Prop where
  readable : m.Readable addr 40
  version : ipVersion (bytesAt m addr) = 6

/-- One of the `n` bytes at `off` is not zero. -/
def SomeByte (f : Nat → Byte) (off n : Nat) : Prop := ∃ i < n, f (off + i) ≠ 0

/-- The protocol of the header at `addr` is not zero. -/
def ProtocolSet (m : Mem) (addr : BitVec 64) : Prop :=
  (Ipv4At m addr → bytesAt m addr 9 ≠ 0) ∧ (Ipv6At m addr → bytesAt m addr 6 ≠ 0)

/-- Neither is one of its addresses. -/
structure HeaderSet (m : Mem) (addr : BitVec 64) : Prop where
  protocol : ProtocolSet m addr
  v4 : Ipv4At m addr → SomeByte (bytesAt m addr) 12 4 ∧ SomeByte (bytesAt m addr) 16 4
  v6 : Ipv6At m addr → SomeByte (bytesAt m addr) 8 16 ∧ SomeByte (bytesAt m addr) 24 16

/-- The network part of what is recorded is that of the header. -/
theorem Ipv4At.network (h : Ipv4At m addr) :
    SameNetwork (v4Tuple (bytesAt m addr)) (ipTuple m addr) := by
  rw [ipTuple_v4 (read_of_readable h.readable) h.version]
  exact setTransport_network _ _ _

theorem Ipv6At.network (h : Ipv6At m addr) :
    SameNetwork (v6Tuple (bytesAt m addr)) (ipTuple m addr) := by
  rw [ipTuple_v6 (read_of_readable (readable_le h.readable (by omega))) h.version
    (read_of_readable h.readable)]
  exact setTransport_network _ _ _

/-- With no header there is nothing in the tuple. -/
theorem ipTuple_no_header (h4 : ¬ Ipv4At m addr) (h6 : ¬ Ipv6At m addr) :
    ipTuple m addr = emptyTuple := by
  by_cases hr : m.Readable addr 20
  · by_cases hv6 : ipVersion (bytesAt m addr) = 6
    · exact ipTuple_v6_unreadable (read_of_readable hr) hv6
        (read_of_not_readable fun h40 => h6 ⟨h40, hv6⟩)
    · exact ipTuple_version (read_of_readable hr) (fun hv4 => h4 ⟨hr, hv4⟩) hv6
  · exact ipTuple_unreadable (read_of_not_readable hr)

theorem Ipv4At.not_v6 (h : Ipv4At m addr) : ¬ Ipv6At m addr := by
  intro h6
  have hversion := h6.version
  rw [h.version] at hversion
  exact absurd hversion (by decide)

/-- A word is zero if its bytes are. -/
theorem wordAt_ne_zero_iff {f : Nat → Byte} {off k : Nat} :
    wordAt f off (8 * k) ≠ 0 ↔ SomeByte f off k := by
  have hzero : wordAt (fun _ => 0) 0 (8 * k) = 0 := by
    unfold wordAt
    rw [leNat_eq_zero fun _ _ => rfl]
    rfl
  constructor
  · intro h
    by_contra hnone
    apply h
    rw [← hzero]
    apply wordAt_congr
    intro i hi
    rw [Nat.mul_div_cancel_left k (by omega)] at hi
    by_contra hne
    exact hnone ⟨i, hi, hne⟩
  · intro ⟨i, hi, hne⟩ h
    rw [← hzero] at h
    exact hne (wordAt_bytes h i hi)

theorem someByte_add {f : Nat → Byte} {off n k : Nat} :
    SomeByte f off (n + k) ↔ SomeByte f off n ∨ SomeByte f (off + n) k := by
  constructor
  · intro ⟨i, hi, hne⟩
    by_cases hlt : i < n
    · exact Or.inl ⟨i, hlt, hne⟩
    · refine Or.inr ⟨i - n, by omega, ?_⟩
      rwa [show off + n + (i - n) = off + i by omega]
  · intro h
    rcases h with ⟨i, hi, hne⟩ | ⟨i, hi, hne⟩
    · exact ⟨i, by omega, hne⟩
    · exact ⟨n + i, by omega, by rwa [← Nat.add_assoc]⟩

/-- What the tuple says of the header. -/
theorem Ipv4At.set_iff (h : Ipv4At m addr) :
    ((ipTuple m addr).l4Proto ≠ 0 ↔ bytesAt m addr 9 ≠ 0) ∧
      (AddressesSet (ipTuple m addr) ↔
        SomeByte (bytesAt m addr) 12 4 ∧ SomeByte (bytesAt m addr) 16 4) := by
  have hnet := h.network
  have hl3 : (ipTuple m addr).l3Proto ≠ ethPIpv6 := by
    rw [hnet.l3Proto]
    exact (by decide : ethPIp ≠ ethPIpv6)
  have hs : (ipTuple m addr).saddr.v4addr = wordAt (bytesAt m addr) 12 (8 * 4) := by
    rw [hnet.saddr]
    exact v4addr_setV4addr _ _
  have hd : (ipTuple m addr).daddr.v4addr = wordAt (bytesAt m addr) 16 (8 * 4) := by
    rw [hnet.daddr]
    exact v4addr_setV4addr _ _
  constructor
  · rw [hnet.l4Proto]
    rfl
  · unfold AddressesSet
    rw [if_neg hl3, hs, hd]
    exact and_congr wordAt_ne_zero_iff wordAt_ne_zero_iff

/-- The same for an IPv6 header. -/
theorem Ipv6At.set_iff (h : Ipv6At m addr) :
    ((ipTuple m addr).l4Proto ≠ 0 ↔ bytesAt m addr 6 ≠ 0) ∧
      (AddressesSet (ipTuple m addr) ↔
        SomeByte (bytesAt m addr) 8 16 ∧ SomeByte (bytesAt m addr) 24 16) := by
  have hnet := h.network
  have hl3 : (ipTuple m addr).l3Proto = ethPIpv6 := hnet.l3Proto
  have hword : ∀ off, (wordAt (bytesAt m addr) off 64 ≠ 0 ∨
      wordAt (bytesAt m addr) (off + 8) 64 ≠ 0) ↔ SomeByte (bytesAt m addr) off 16 := by
    intro off
    rw [someByte_add (n := 8) (k := 8)]
    exact or_congr (wordAt_ne_zero_iff (k := 8)) (wordAt_ne_zero_iff (k := 8))
  constructor
  · rw [hnet.l4Proto]
    rfl
  · unfold AddressesSet
    rw [if_pos hl3, hnet.saddr, hnet.daddr]
    exact and_congr (hword 8) (hword 24)

/-- A tuple is recognised exactly if there is a header of either version. -/
theorem recognised_iff : Recognised (ipTuple m addr) ↔ Ipv4At m addr ∨ Ipv6At m addr := by
  constructor
  · intro h
    by_contra hnone
    obtain ⟨h4, h6⟩ := not_or.mp hnone
    rw [ipTuple_no_header h4 h6] at h
    exact absurd h (by decide)
  · intro h
    rcases h with h4 | h6
    · exact Or.inl h4.network.l3Proto
    · exact Or.inr h6.network.l3Proto

/-! ## What is shown of a packet -/

/-- The two clauses together, for a tuple that is recognised. -/
theorem shown_iff_of_recognised (h : Recognised tuple) :
    Shown tuple ↔ tuple.l4Proto ≠ 0 ∧ AddressesSet tuple := by
  constructor
  · intro hshown
    exact formatTuple_eq_shownTuple_iff.mp (hshown.addresses h)
  · intro hset
    constructor
    · intro _
      exact formatTuple_eq_shownTuple_iff.mpr hset
    · exact iff_of_false (fun hplace => hset.1 (formatTuple_eq_placeholder_iff.mp hplace))
        (not_not.mpr h)

theorem placeholder_iff_of_recognised (h : Recognised tuple) :
    (formatTuple tuple = "-".toList ↔ ¬ Recognised tuple) ↔ tuple.l4Proto ≠ 0 := by
  rw [formatTuple_eq_placeholder_iff, iff_false_right (not_not.mpr h)]

/-- What is shown of the header at an address. -/
theorem shown_ipTuple_iff : Shown (ipTuple m addr) ↔ HeaderSet m addr := by
  by_cases h4 : Ipv4At m addr
  · rw [shown_iff_of_recognised (recognised_iff.mpr (Or.inl h4)), h4.set_iff.1, h4.set_iff.2]
    constructor
    · intro ⟨hproto, haddr⟩
      exact ⟨⟨fun _ => hproto, fun h6 => absurd h6 h4.not_v6⟩, fun _ => haddr,
        fun h6 => absurd h6 h4.not_v6⟩
    · intro hset
      exact ⟨hset.protocol.1 h4, hset.v4 h4⟩
  · by_cases h6 : Ipv6At m addr
    · rw [shown_iff_of_recognised (recognised_iff.mpr (Or.inr h6)), h6.set_iff.1, h6.set_iff.2]
      constructor
      · intro ⟨hproto, haddr⟩
        exact ⟨⟨fun h => absurd h h4, fun _ => hproto⟩, fun h => absurd h h4, fun _ => haddr⟩
      · intro hset
        exact ⟨hset.protocol.2 h6, hset.v6 h6⟩
    · -- no header: the tuple is empty, and so is what is asked
      have hnone : ¬ Recognised (ipTuple m addr) := fun h =>
        (recognised_iff.mp h).elim h4 h6
      have hempty : formatTuple (ipTuple m addr) = "-".toList := by
        rw [formatTuple_eq_placeholder_iff, ipTuple_no_header h4 h6]
        rfl
      exact iff_of_true ⟨fun h => absurd h hnone, iff_of_true hempty hnone⟩
        ⟨⟨fun h => absurd h h4, fun h => absurd h h6⟩, fun h => absurd h h4, fun h => absurd h h6⟩

theorem placeholder_ipTuple_iff :
    (formatTuple (ipTuple m addr) = "-".toList ↔ ¬ Recognised (ipTuple m addr)) ↔
      ProtocolSet m addr := by
  by_cases h4 : Ipv4At m addr
  · rw [placeholder_iff_of_recognised (recognised_iff.mpr (Or.inl h4)), h4.set_iff.1]
    constructor
    · intro hproto
      exact ⟨fun _ => hproto, fun h6 => absurd h6 h4.not_v6⟩
    · intro hset
      exact hset.1 h4
  · by_cases h6 : Ipv6At m addr
    · rw [placeholder_iff_of_recognised (recognised_iff.mpr (Or.inr h6)), h6.set_iff.1]
      constructor
      · intro hproto
        exact ⟨fun h => absurd h h4, fun _ => hproto⟩
      · intro hset
        exact hset.2 h6
    · have hnone : ¬ Recognised (ipTuple m addr) := fun h =>
        (recognised_iff.mp h).elim h4 h6
      have hempty : formatTuple (ipTuple m addr) = "-".toList := by
        rw [formatTuple_eq_placeholder_iff, ipTuple_no_header h4 h6]
        rfl
      exact iff_of_true (iff_of_true hempty hnone)
        ⟨fun h => absurd h h4, fun h => absurd h h6⟩

/-- **A packet is shown with its addresses exactly if neither its protocol nor one of its
addresses is zero.** That `-` stands for no packet alone is a matter of the protocol. -/
theorem shown_iff (K : KernelLayout) (m : Mem) (skb : BitVec 64) (tuple : SkbTuple) :
    (Shown (setTuple K m skb tuple) ↔ HeaderSet m (l3Addr K m skb)) ∧
      ((formatTuple (setTuple K m skb tuple) = "-".toList ↔
          ¬ Recognised (setTuple K m skb tuple)) ↔
        ProtocolSet m (l3Addr K m skb)) := by
  rw [setTuple_eq]
  exact ⟨shown_ipTuple_iff, placeholder_ipTuple_iff⟩

example : formatTuple taggedUdp.tuple = "10.0.0.1:5353 -> 10.0.0.2:53 [UDP]".toList := by decide

/-- An IPv6 packet with hop-by-hop options, from 2001:db8::1 to 2001:db8::2. -/
def hopByHop : Packet where
  tags := []
  tags_length := by decide
  ip := .v6
    { priority := 0, flow := fun _ => 0, payloadLen := 8, hopLimit := 1,
      saddr := fun i => [0x20, 1, 0xd, 0xb8, 0, 0, 0, 0, 0, 0, 0, 0, 0, 0, 0, 1].getD i.val 0,
      daddr := fun i => [0x20, 1, 0xd, 0xb8, 0, 0, 0, 0, 0, 0, 0, 0, 0, 0, 0, 2].getD i.val 0 }
  transport := .other 0 (by decide) (by decide)
  payload := [58, 0, 5, 2, 0, 0, 1, 0]

/-- It is stored with its addresses, and shown as `-`. -/
theorem hopByHop_hidden :
    Recognised (setTuple plainLayout (carrier hopByHop) 0x1000 emptyTuple) ∧
      formatTuple (setTuple plainLayout (carrier hopByHop) 0x1000 emptyTuple) = "-".toList ∧
      shownTuple (setTuple plainLayout (carrier hopByHop) 0x1000 emptyTuple) =
        "2001:db8::1 -> 2001:db8::2 [-]".toList ∧
      ¬ Shown (setTuple plainLayout (carrier hopByHop) 0x1000 emptyTuple) := by
  have hstored : setTuple plainLayout (carrier hopByHop) 0x1000 emptyTuple = hopByHop.tuple :=
    setTuple_carries (carrier_carries hopByHop (by decide)) emptyTuple
  rw [hstored]
  refine ⟨Or.inr rfl, rfl, by decide, fun h => ?_⟩
  have hset := (shown_iff_of_recognised (Or.inr rfl)).mp h
  exact hset.1 rfl

end SkbTracer.Output
