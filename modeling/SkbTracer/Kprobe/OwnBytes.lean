import SkbTracer.Kprobe.Packet
import SkbTracer.Lib.Footprint

/-!
# Whose bytes the tuple is made of

`set_tuple` bounds no read by the end of the packet: `bpf_probe_read_kernel` fails
where memory cannot be read, and that is not where the packet ends. So what stands
behind the tail of a short packet can come out as its ports or addresses.

Here is exactly when. `ipUses` lists the bytes that the decoding of an IP header
depends on, no more and no less (`keepsTo_ipTuple_iff`): the headers are read whole,
but of most bytes nothing is kept. The type behind a VLAN tag is one more thing that is
used, though only if both of its readings lead somewhere (`TagDecides`). The tuple
keeps to the packet's own bytes exactly if these all are.

`Own` is what belongs to the skb: its fields, and the bytes between the network header
and the tail. `OwnBytes` is a property of two runs, with memories that agree on these
bytes (`Lib.Footprint`), and has nothing in it of what the code reads.

- `ipTuple_keepsTo`, `ipTuple_shows`: the two halves for the IP header; the first by
  following the decoding in both memories, the second by a change of one byte that shows;
- `l3Addr_agree`, `exists_vlan`, `exists_not_vlan`: the same for the tags, where the change
  moves the place of the header;
- `own_bytes_iff`: the whole, for every layout, memory and skb;
- `stale_port_shows`: a packet cut behind its IP header, and a port that is not its own.

For the second half the fields of the skb must be apart from the places where tags are
looked for (`Apart`), as they are in any kernel: else a byte of a tag might be the skb's
own after all.
-/

namespace SkbTracer.Kprobe

open SkbTracer.Lib (Mem Byte leNat leNat_lt byteOf byteOf_leNat AgreeOn KeepsTo agreeOn_update
  wordMem)

/-! ## The packet's own bytes -/

/-- The fields of an `sk_buff`, by offset and length. -/
def skbFields (K : KernelLayout) : List (BitVec 64 × Nat) :=
  [(K.skbHead, 8), (K.skbTail, 4), (K.skbNetworkHeader, 2), (K.skbMacHeader, 2), (K.skbMacLen, 2),
    (K.skbProtocol, 2), (K.skbMark, 4), (K.skbLen, 4), (K.skbDev, 8), (K.skbSk, 8)]

/-- A byte of one of these. -/
def IsField (K : KernelLayout) (skb a : BitVec 64) : Prop :=
  ∃ fld ∈ skbFields K, ∃ i < fld.2, a = skb + fld.1 + BitVec.ofNat 64 i

/-- A linear byte of the packet, from `head + network_header` up to `head + tail`. -/
def InLinear (K : KernelLayout) (m : Mem) (skb a : BitVec 64) : Prop :=
  ∃ j, (skbNetworkHeader K m skb).toNat ≤ j ∧ j < (skbTail K m skb).toNat ∧
    a = skbHead K m skb + BitVec.ofNat 64 j

/-- What belongs to the skb. -/
def Own (K : KernelLayout) (m : Mem) (skb a : BitVec 64) : Prop :=
  IsField K skb a ∨ InLinear K m skb a

/-- The tuple that `set_tuple` stores depends on nothing else. -/
def OwnBytes (K : KernelLayout) (m : Mem) (skb : BitVec 64) : Prop :=
  ∀ m', AgreeOn (Own K m skb) m m' →
    ∀ tuple tuple', setTuple K m' skb tuple' = setTuple K m skb tuple

/-! ## The bytes that are used -/

/-- The addresses at some offsets. -/
def offsets (addr : BitVec 64) (l : List Nat) : List (BitVec 64) :=
  l.map fun i => addr + BitVec.ofNat 64 i

/-- Of a transport header: the ports, and the flags of TCP. -/
def transportUses (m : Mem) (proto : Byte) (transHdr : BitVec 64) : List (BitVec 64) :=
  if proto = ipprotoTcp then
    if m.Readable transHdr 20 then offsets transHdr [0, 1, 2, 3, 13] else []
  else if proto = ipprotoUdp then
    if m.Readable transHdr 8 then offsets transHdr [0, 1, 2, 3] else []
  else []

/-- Of an IP header and what follows: the byte with the version, the protocol, the
addresses. -/
def ipUses (m : Mem) (addr : BitVec 64) : List (BitVec 64) :=
  match m.read addr 20 with
  | none => []
  | some ip =>
    if ipVersion ip = 4 then
      offsets addr (0 :: 9 :: List.range' 12 8) ++
        transportUses m (ip 9) (addr + (ipIhl ip).setWidth 64 * 4)
    else if ipVersion ip = 6 then
      match m.read addr 40 with
      | none => offsets addr [0]
      | some ip6 =>
        offsets addr (0 :: 6 :: List.range' 8 32) ++ transportUses m (ip6 6) (addr + 40)
    else offsets addr [0]

/-! ## Reads -/

variable {m m' : Mem} {addr transHdr a : BitVec 64} {n off off' : Nat} {f g : Nat → Byte}
  {own : BitVec 64 → Prop} {t t' : SkbTuple}

theorem mem_offsets {l : List Nat} :
    a ∈ offsets addr l ↔ ∃ i ∈ l, a = addr + BitVec.ofNat 64 i := by
  unfold offsets
  rw [List.mem_map]
  constructor
  · intro ⟨i, hi, ha⟩
    exact ⟨i, hi, ha.symm⟩
  · intro ⟨i, hi, ha⟩
    exact ⟨i, hi, ha.symm⟩

/-- What is read at an address where all can be read. -/
def bytesAt (m : Mem) (addr : BitVec 64) : Nat → Byte := fun i => m.byte (addr + BitVec.ofNat 64 i)

/-- A range that can be read gives its bytes, -/
theorem read_of_readable (h : m.Readable addr n) : m.read addr n = some (bytesAt m addr) := if_pos h

/-- and one that cannot be gives nothing. -/
theorem read_of_not_readable (h : ¬ m.Readable addr n) : m.read addr n = none := if_neg h

theorem readable_le {k : Nat} (h : m.Readable addr n) (hk : k ≤ n) : m.Readable addr k :=
  fun i hi => h i (by omega)

/-- What can be read is the same in memories that agree. -/
theorem readable_agree (h : AgreeOn own m m') (addr : BitVec 64) (n : Nat) :
    m'.Readable addr n ↔ m.Readable addr n := by
  unfold Mem.Readable
  constructor
  · intro hr i hi
    rw [← h.support]
    exact hr i hi
  · intro hr i hi
    rw [h.support]
    exact hr i hi

theorem byte_agree (h : m' a = m a) : m'.byte a = m.byte a := by
  unfold Mem.byte
  rw [h]

theorem byte_update {b : Byte} : Mem.byte (Function.update m a (some b)) a = b := by
  unfold Mem.byte
  rw [Function.update_self]
  rfl

theorem byte_update_of_ne {c : BitVec 64} {b : Byte} (h : c ≠ a) :
    Mem.byte (Function.update m a (some b)) c = m.byte c :=
  byte_agree (Function.update_of_ne h _ _)

theorem byteOf_wordAt {k i : Nat} (hi : i < k) :
    byteOf (wordAt f off (8 * k)).toNat i = f (off + i) := by
  have hlt := leNat_lt (fun i => f (off + i)) k
  have hword : (wordAt f off (8 * k)).toNat = leNat (fun i => f (off + i)) k := by
    unfold wordAt
    rw [Nat.mul_div_cancel_left k (by omega), BitVec.toNat_ofNat, Nat.pow_mul]
    exact Nat.mod_eq_of_lt hlt
  rw [hword, byteOf_leNat hi]

theorem wordAt_bytes {k : Nat} (h : wordAt f off (8 * k) = wordAt g off' (8 * k)) :
    ∀ i < k, f (off + i) = g (off' + i) := by
  intro i hi
  rw [← byteOf_wordAt (f := f) hi, h, byteOf_wordAt hi]

/-! ## The transport header -/

theorem ports_congr (h : ∀ i < 4, f i = g i) :
    wordAt f 0 16 = wordAt g 0 16 ∧ wordAt f 2 16 = wordAt g 2 16 :=
  ⟨wordAt_congr fun i hi => h (0 + i) (by omega), wordAt_congr fun i hi => h (2 + i) (by omega)⟩

theorem ports_bytes (hs : wordAt f 0 16 = wordAt g 0 16) (hd : wordAt f 2 16 = wordAt g 2 16) :
    ∀ i < 4, f i = g i := by
  intro i hi
  by_cases h2 : i < 2
  · rw [← Nat.zero_add i]
    exact wordAt_bytes (k := 2) hs i h2
  · rw [show i = 2 + (i - 2) by omega]
    exact wordAt_bytes (k := 2) hd (i - 2) (by omega)

/-- The transport header has its part in the tuple through the bytes listed, given
the protocol. -/
theorem setTransport_agree (h : AgreeOn (· ∈ transportUses m t.l4Proto transHdr) m m') :
    setTransport m' t transHdr = setTransport m t transHdr := by
  have hsame : ∀ n, m'.Readable transHdr n ↔ m.Readable transHdr n := readable_agree h transHdr
  by_cases htcp : t.l4Proto = ipprotoTcp
  · by_cases hr : m.Readable transHdr 20
    · -- the header is read whole, but only these five bytes are kept
      have hat : ∀ i ∈ [0, 1, 2, 3, 13], bytesAt m' transHdr i = bytesAt m transHdr i := by
        intro i hi
        apply byte_agree
        apply h.eq
        unfold transportUses
        rw [if_pos htcp, if_pos hr]
        exact mem_offsets.mpr ⟨i, hi, rfl⟩
      obtain ⟨hs, hd⟩ := ports_congr fun i (hi : i < 4) => hat i (by simp; omega)
      rw [setTransport_tcp htcp (read_of_readable hr),
        setTransport_tcp htcp (read_of_readable ((hsame 20).mpr hr)), hs, hd, hat 13 (by simp)]
    · unfold setTransport
      rw [if_pos htcp, if_pos htcp, read_of_not_readable hr,
        read_of_not_readable (mt (hsame 20).mp hr)]
  · by_cases hudp : t.l4Proto = ipprotoUdp
    · by_cases hr : m.Readable transHdr 8
      · have hat : ∀ i < 4, bytesAt m' transHdr i = bytesAt m transHdr i := by
          intro i hi
          apply byte_agree
          apply h.eq
          unfold transportUses
          rw [if_neg htcp, if_pos hudp, if_pos hr]
          exact mem_offsets.mpr ⟨i, by simp; omega, rfl⟩
        obtain ⟨hs, hd⟩ := ports_congr hat
        rw [setTransport_udp hudp (read_of_readable hr),
          setTransport_udp hudp (read_of_readable ((hsame 8).mpr hr)), hs, hd]
      · unfold setTransport
        rw [if_neg htcp, if_neg htcp, if_pos hudp, if_pos hudp, read_of_not_readable hr,
          read_of_not_readable (mt (hsame 8).mp hr)]
    · rw [setTransport_other htcp hudp, setTransport_other htcp hudp]

/-- And each of them can be told from the tuple. -/
theorem setTransport_shows (hsame : ∀ n, m'.Readable transHdr n ↔ m.Readable transHdr n)
    (hproto : t'.l4Proto = t.l4Proto)
    (h : setTransport m' t' transHdr = setTransport m t transHdr) :
    ∀ a ∈ transportUses m t.l4Proto transHdr, m'.byte a = m.byte a := by
  intro a ha
  unfold transportUses at ha
  split at ha
  · next htcp =>
    split at ha
    · next hr =>
      rw [setTransport_tcp (hproto.trans htcp) (read_of_readable ((hsame 20).mpr hr)),
        setTransport_tcp htcp (read_of_readable hr)] at h
      have hports := ports_bytes (congrArg SkbTuple.sport h) (congrArg SkbTuple.dport h)
      have hflags : bytesAt m' transHdr 13 = bytesAt m transHdr 13 := congrArg SkbTuple.tcpFlags h
      obtain ⟨i, hi, rfl⟩ := mem_offsets.mp ha
      -- the flags stand behind the ports, in a byte of their own
      by_cases h13 : i = 13
      · rw [h13]
        exact hflags
      · exact hports i (by simp at hi; omega)
    · cases ha
  · next htcp =>
    split at ha
    · next hudp =>
      split at ha
      · next hr =>
        rw [setTransport_udp (hproto.trans hudp) (read_of_readable ((hsame 8).mpr hr)),
          setTransport_udp hudp (read_of_readable hr)] at h
        have hports := ports_bytes (congrArg SkbTuple.sport h) (congrArg SkbTuple.dport h)
        obtain ⟨i, hi, rfl⟩ := mem_offsets.mp ha
        exact hports i (by simp at hi; omega)
      · cases ha
    · cases ha

/-! ## The IP header -/

theorem v4addr_setV4addr (u : Addr) (v : BitVec 32) : (u.setV4addr v).v4addr = v := by
  have hmask : (0xffffffff00000000#64).setWidth 32 = 0#32 := by decide
  have hv : (v.setWidth 64).setWidth 32 = v := BitVec.setWidth_setWidth_of_le v (by omega)
  unfold Addr.setV4addr Addr.v4addr
  rw [BitVec.setWidth_or, BitVec.setWidth_and, hmask, BitVec.and_zero, BitVec.zero_or, hv]

/-- Of an IPv4 header the protocol and the addresses are kept, -/
theorem v4Tuple_congr (h : ∀ i ∈ 9 :: List.range' 12 8, f i = g i) : v4Tuple f = v4Tuple g := by
  have hat : ∀ i, 12 ≤ i → i < 20 → f i = g i := by
    intro i hlo hhi
    apply h
    simp
    omega
  have hs : wordAt f 12 32 = wordAt g 12 32 :=
    wordAt_congr fun i hi => hat (12 + i) (by omega) (by omega)
  have hd : wordAt f 16 32 = wordAt g 16 32 :=
    wordAt_congr fun i hi => hat (16 + i) (by omega) (by omega)
  unfold v4Tuple
  rw [h 9 (by simp), hs, hd]

/-- and each of their bytes shows. -/
theorem v4Tuple_shows (h : SameNetwork (v4Tuple g) (v4Tuple f)) :
    ∀ i ∈ 9 :: List.range' 12 8, f i = g i := by
  have hs : wordAt f 12 32 = wordAt g 12 32 := by
    have hu := congrArg Addr.v4addr h.saddr
    unfold v4Tuple at hu
    rwa [v4addr_setV4addr, v4addr_setV4addr] at hu
  have hd : wordAt f 16 32 = wordAt g 16 32 := by
    have hu := congrArg Addr.v4addr h.daddr
    unfold v4Tuple at hu
    rwa [v4addr_setV4addr, v4addr_setV4addr] at hu
  intro i hi
  by_cases h9 : i = 9
  · rw [h9]
    exact h.l4Proto
  · have hrange : 12 ≤ i ∧ i < 20 := by
      simp at hi
      omega
    by_cases h16 : i < 16
    · have hword := wordAt_bytes (k := 4) hs (i - 12) (by omega)
      rwa [show 12 + (i - 12) = i by omega] at hword
    · have hword := wordAt_bytes (k := 4) hd (i - 16) (by omega)
      rwa [show 16 + (i - 16) = i by omega] at hword

/-- Of an IPv6 header the next header and the addresses are kept, -/
theorem v6Tuple_congr (h : ∀ i ∈ 6 :: List.range' 8 32, f i = g i) : v6Tuple f = v6Tuple g := by
  have hword : ∀ off, 8 ≤ off → off ≤ 32 → wordAt f off 64 = wordAt g off 64 := by
    intro off hlo hhi
    apply wordAt_congr
    intro i hi
    apply h
    simp
    omega
  unfold v6Tuple
  rw [h 6 (by simp), hword 8 (by omega) (by omega), hword 16 (by omega) (by omega),
    hword 24 (by omega) (by omega), hword 32 (by omega) (by omega)]

/-- and they show too. -/
theorem v6Tuple_shows (h : SameNetwork (v6Tuple g) (v6Tuple f)) :
    ∀ i ∈ 6 :: List.range' 8 32, f i = g i := by
  have hbyte : ∀ off, wordAt f off 64 = wordAt g off 64 →
      ∀ i, off ≤ i → i < off + 8 → f i = g i := by
    intro off hoff i hlo hhi
    have hword := wordAt_bytes (k := 8) hoff (i - off) (by omega)
    rwa [show off + (i - off) = i by omega] at hword
  have hsaddr := h.saddr
  have hdaddr := h.daddr
  have hproto := h.l4Proto
  unfold v6Tuple at hsaddr hdaddr hproto
  obtain ⟨hs1, hs2⟩ := Addr.mk.inj hsaddr
  obtain ⟨hd1, hd2⟩ := Addr.mk.inj hdaddr
  intro i hi
  by_cases h6 : i = 6
  · rw [h6]
    exact hproto
  · have hrange : 8 ≤ i ∧ i < 40 := by
      simp at hi
      omega
    by_cases h16 : i < 16
    · exact hbyte 8 hs1 i (by omega) (by omega)
    · by_cases h24 : i < 24
      · exact hbyte 16 hs2 i (by omega) (by omega)
      · by_cases h32 : i < 32
        · exact hbyte 24 hd1 i (by omega) (by omega)
        · exact hbyte 32 hd2 i (by omega) (by omega)

section

/-- Where nothing can be read nothing is used. -/
theorem ipUses_unreadable (h : ¬ m.Readable addr 20) : ipUses m addr = [] := by
  unfold ipUses
  rw [read_of_not_readable h]

/-- The bytes that are used of an IPv4 packet, -/
theorem ipUses_v4 (h : m.Readable addr 20) (h4 : ipVersion (bytesAt m addr) = 4) :
    ipUses m addr = offsets addr (0 :: 9 :: List.range' 12 8) ++
      transportUses m (bytesAt m addr 9) (addr + (ipIhl (bytesAt m addr)).setWidth 64 * 4) := by
  unfold ipUses
  rw [read_of_readable h]
  exact if_pos h4

/-- and of an IPv6 packet. -/
theorem ipUses_v6 (h : m.Readable addr 40) (h6 : ipVersion (bytesAt m addr) = 6) :
    ipUses m addr = offsets addr (0 :: 6 :: List.range' 8 32) ++
      transportUses m (bytesAt m addr 6) (addr + 40) := by
  unfold ipUses
  rw [read_of_readable (readable_le h (by omega)), read_of_readable h]
  dsimp only
  rw [h6, if_neg (by decide), if_pos rfl]

/-- If the longer header cannot be read, the version alone is used, -/
theorem ipUses_v6_unreadable (h : m.Readable addr 20) (h40 : ¬ m.Readable addr 40)
    (h6 : ipVersion (bytesAt m addr) = 6) : ipUses m addr = offsets addr [0] := by
  unfold ipUses
  rw [read_of_readable h, read_of_not_readable h40]
  dsimp only
  rw [h6, if_neg (by decide), if_pos rfl]

/-- as with a version that is neither. -/
theorem ipUses_version (h : m.Readable addr 20) (h4 : ipVersion (bytesAt m addr) ≠ 4)
    (h6 : ipVersion (bytesAt m addr) ≠ 6) : ipUses m addr = offsets addr [0] := by
  unfold ipUses
  rw [read_of_readable h]
  dsimp only
  rw [if_neg h4, if_neg h6]

end

/-- The byte with the version is always used. -/
theorem first_used (h : m.Readable addr 20) : addr + BitVec.ofNat 64 0 ∈ ipUses m addr := by
  by_cases h4 : ipVersion (bytesAt m addr) = 4
  · rw [ipUses_v4 h h4]
    exact List.mem_append_left _ (mem_offsets.mpr ⟨0, by simp, rfl⟩)
  · by_cases h6 : ipVersion (bytesAt m addr) = 6
    · by_cases h40 : m.Readable addr 40
      · rw [ipUses_v6 h40 h6]
        exact List.mem_append_left _ (mem_offsets.mpr ⟨0, by simp, rfl⟩)
      · rw [ipUses_v6_unreadable h h40 h6]
        exact mem_offsets.mpr ⟨0, by simp, rfl⟩
    · rw [ipUses_version h h4 h6]
      exact mem_offsets.mpr ⟨0, by simp, rfl⟩

/-- What is decoded depends on the bytes listed. -/
theorem ipTuple_keepsTo (m : Mem) (addr : BitVec 64) :
    KeepsTo (· ∈ ipUses m addr) (ipTuple · addr) m := by
  intro (m' : Mem) h
  have hsame : ∀ n, m'.Readable addr n ↔ m.Readable addr n := readable_agree h addr
  by_cases hr : m.Readable addr 20
  · have hr' := (hsame 20).mpr hr
    have hfirst : bytesAt m' addr 0 = bytesAt m addr 0 := byte_agree (h.eq _ (first_used hr))
    have hversion : ipVersion (bytesAt m' addr) = ipVersion (bytesAt m addr) := by
      unfold ipVersion
      rw [hfirst]
    by_cases h4 : ipVersion (bytesAt m addr) = 4
    · -- the first byte has the header's length too, so both look for the transport header
      -- at the same address
      have hihl : ipIhl (bytesAt m' addr) = ipIhl (bytesAt m addr) := by
        unfold ipIhl
        rw [hfirst]
      rw [ipUses_v4 hr h4] at h
      have hnet : v4Tuple (bytesAt m' addr) = v4Tuple (bytesAt m addr) := by
        apply v4Tuple_congr
        intro i hi
        apply byte_agree
        apply h.eq
        exact List.mem_append_left _ (mem_offsets.mpr ⟨i, List.mem_cons_of_mem _ hi, rfl⟩)
      have htrans := setTransport_agree (t := v4Tuple (bytesAt m addr))
        (h.mono fun a ha => List.mem_append_right _ ha)
      show ipTuple m' addr = ipTuple m addr
      rw [ipTuple_v4 (read_of_readable hr') (hversion.trans h4),
        ipTuple_v4 (read_of_readable hr) h4, hnet, hihl, htrans]
    · by_cases h6 : ipVersion (bytesAt m addr) = 6
      · by_cases h40 : m.Readable addr 40
        · rw [ipUses_v6 h40 h6] at h
          have hnet : v6Tuple (bytesAt m' addr) = v6Tuple (bytesAt m addr) := by
            apply v6Tuple_congr
            intro i hi
            apply byte_agree
            apply h.eq
            exact List.mem_append_left _ (mem_offsets.mpr ⟨i, List.mem_cons_of_mem _ hi, rfl⟩)
          have htrans := setTransport_agree (t := v6Tuple (bytesAt m addr))
            (h.mono fun a ha => List.mem_append_right _ ha)
          show ipTuple m' addr = ipTuple m addr
          rw [ipTuple_v6 (read_of_readable hr') (hversion.trans h6)
              (read_of_readable ((hsame 40).mpr h40)),
            ipTuple_v6 (read_of_readable hr) h6 (read_of_readable h40), hnet, htrans]
        · exact (ipTuple_v6_unreadable (read_of_readable hr') (hversion.trans h6)
            (read_of_not_readable (mt (hsame 40).mp h40))).trans
            (ipTuple_v6_unreadable (read_of_readable hr) h6 (read_of_not_readable h40)).symm
      · exact (ipTuple_version (read_of_readable hr') (hversion ▸ h4) (hversion ▸ h6)).trans
          (ipTuple_version (read_of_readable hr) h4 h6).symm
  · exact (ipTuple_unreadable (read_of_not_readable (mt (hsame 20).mp hr))).trans
      (ipTuple_unreadable (read_of_not_readable hr)).symm

/-- The transport header changes no address. -/
theorem network_of_setTransport {transHdr' : BitVec 64}
    (h : setTransport m' t' transHdr' = setTransport m t transHdr) : SameNetwork t t' := by
  have hnet := setTransport_network m t transHdr
  have hnet' := setTransport_network m' t' transHdr'
  rw [h] at hnet'
  constructor
  · rw [← hnet'.l3Proto, hnet.l3Proto]
  · rw [← hnet'.l4Proto, hnet.l4Proto]
  · rw [← hnet'.saddr, hnet.saddr]
  · rw [← hnet'.daddr, hnet.daddr]

/-- Where the version is the same, each of the other bytes can be told from the tuple. -/
theorem ipTuple_shows (hsame : ∀ addr n, m'.Readable addr n ↔ m.Readable addr n)
    (hfirst : bytesAt m' addr 0 = bytesAt m addr 0) (h : ipTuple m' addr = ipTuple m addr) :
    ∀ a ∈ ipUses m addr, m'.byte a = m.byte a := by
  have hversion : ipVersion (bytesAt m' addr) = ipVersion (bytesAt m addr) := by
    unfold ipVersion
    rw [hfirst]
  -- where there is no tuple, this byte is all that is used
  have hzero : ∀ a ∈ offsets addr [0], m'.byte a = m.byte a := by
    intro a ha
    obtain ⟨i, hi, rfl⟩ := mem_offsets.mp ha
    rw [List.mem_singleton.mp hi]
    exact hfirst
  intro a ha
  by_cases hr : m.Readable addr 20
  · have hr' := (hsame addr 20).mpr hr
    by_cases h4 : ipVersion (bytesAt m addr) = 4
    · have hihl : ipIhl (bytesAt m' addr) = ipIhl (bytesAt m addr) := by
        unfold ipIhl
        rw [hfirst]
      rw [ipTuple_v4 (read_of_readable hr') (hversion.trans h4),
        ipTuple_v4 (read_of_readable hr) h4, hihl] at h
      -- the transport header changes neither addresses nor protocol, so these must agree,
      -- and with the protocol the bytes of the transport header that are used
      have hnet := network_of_setTransport h
      rw [ipUses_v4 hr h4] at ha
      rcases List.mem_append.mp ha with hip | htrans
      · obtain ⟨i, hi, rfl⟩ := mem_offsets.mp hip
        rcases List.mem_cons.mp hi with rfl | hi
        · exact hfirst
        · exact v4Tuple_shows hnet i hi
      · exact setTransport_shows (hsame _) hnet.l4Proto h a htrans
    · by_cases h6 : ipVersion (bytesAt m addr) = 6
      · by_cases h40 : m.Readable addr 40
        · rw [ipTuple_v6 (read_of_readable hr') (hversion.trans h6)
              (read_of_readable ((hsame addr 40).mpr h40)),
            ipTuple_v6 (read_of_readable hr) h6 (read_of_readable h40)] at h
          have hnet := network_of_setTransport h
          rw [ipUses_v6 h40 h6] at ha
          rcases List.mem_append.mp ha with hip | htrans
          · obtain ⟨i, hi, rfl⟩ := mem_offsets.mp hip
            rcases List.mem_cons.mp hi with rfl | hi
            · exact hfirst
            · exact v6Tuple_shows hnet i hi
          · exact setTransport_shows (hsame _) hnet.l4Proto h a htrans
        · rw [ipUses_v6_unreadable hr h40 h6] at ha
          exact hzero a ha
      · rw [ipUses_version hr h4 h6] at ha
        exact hzero a ha
  · rw [ipUses_unreadable hr] at ha
    cases ha

/-- The version itself can be told too: with none there is no tuple. -/
theorem version_shows (hr : m.Readable addr 20) :
    ipTuple (Function.update m (addr + BitVec.ofNat 64 0) (some 0)) addr ≠
      ipTuple (Function.update m (addr + BitVec.ofNat 64 0) (some 0x40)) addr := by
  have hread : ∀ b : Byte,
      Mem.Readable (Function.update m (addr + BitVec.ofNat 64 0) (some b)) addr 20 := by
    intro b
    have hagree : AgreeOn (fun _ => False) m
        (Function.update m (addr + BitVec.ofNat 64 0) (some b)) :=
      agreeOn_update (hr 0 (by omega)) False.elim
    exact (readable_agree hagree addr 20).mpr hr
  have hbyte : ∀ b : Byte,
      bytesAt (Function.update m (addr + BitVec.ofNat 64 0) (some b)) addr 0 = b :=
    fun b => byte_update
  have hnone : ipVersion
      (bytesAt (Function.update m (addr + BitVec.ofNat 64 0) (some 0)) addr) = 0 := by
    unfold ipVersion
    rw [hbyte]
    rfl
  have hfour : ipVersion
      (bytesAt (Function.update m (addr + BitVec.ofNat 64 0) (some 0x40)) addr) = 4 := by
    unfold ipVersion
    rw [hbyte]
    rfl
  intro h
  -- one tuple is empty, the other says IPv4
  rw [ipTuple_version (read_of_readable (hread 0)) (by rw [hnone]; decide)
      (by rw [hnone]; decide),
    ipTuple_v4 (read_of_readable (hread 0x40)) hfour] at h
  have hl3 : ethPIp = 0 :=
    (setTransport_network _ _ _).l3Proto.symm.trans (congrArg SkbTuple.l3Proto h).symm
  exact absurd hl3 (by decide)

theorem transportUses_readable {proto : Byte} (ha : a ∈ transportUses m proto transHdr) :
    (m a).isSome = true := by
  unfold transportUses at ha
  split at ha
  · split at ha
    · next hr =>
      obtain ⟨i, hi, rfl⟩ := mem_offsets.mp ha
      exact hr i (by simp at hi; omega)
    · cases ha
  · split at ha
    · split at ha
      · next hr =>
        obtain ⟨i, hi, rfl⟩ := mem_offsets.mp ha
        exact hr i (by simp at hi; omega)
      · cases ha
    · cases ha

/-- What is used can be read. -/
theorem ipUses_readable (ha : a ∈ ipUses m addr) : (m a).isSome = true := by
  by_cases hr : m.Readable addr 20
  · by_cases h4 : ipVersion (bytesAt m addr) = 4
    · rw [ipUses_v4 hr h4] at ha
      rcases List.mem_append.mp ha with hip | htrans
      · obtain ⟨i, hi, rfl⟩ := mem_offsets.mp hip
        exact hr i (by simp at hi; omega)
      · exact transportUses_readable htrans
    · by_cases h6 : ipVersion (bytesAt m addr) = 6
      · by_cases h40 : m.Readable addr 40
        · rw [ipUses_v6 h40 h6] at ha
          rcases List.mem_append.mp ha with hip | htrans
          · obtain ⟨i, hi, rfl⟩ := mem_offsets.mp hip
            exact h40 i (by simp at hi; omega)
          · exact transportUses_readable htrans
        · rw [ipUses_v6_unreadable hr h40 h6] at ha
          obtain ⟨i, hi, rfl⟩ := mem_offsets.mp ha
          exact hr i (by simp at hi; omega)
      · rw [ipUses_version hr h4 h6] at ha
        obtain ⟨i, hi, rfl⟩ := mem_offsets.mp ha
        exact hr i (by simp at hi; omega)
  · rw [ipUses_unreadable hr] at ha
    cases ha

/-- And if anything is used, the first 20 bytes can be. -/
theorem readable_of_used (ha : a ∈ ipUses m addr) : m.Readable addr 20 := by
  by_contra hr
  rw [ipUses_unreadable hr] at ha
  cases ha

/-- **The bytes listed are those that the decoding depends on**, every one of them. -/
theorem keepsTo_ipTuple_iff :
    KeepsTo own (ipTuple · addr) m ↔ ∀ a ∈ ipUses m addr, own a := by
  constructor
  · intro h
    have hzero : m.Readable addr 20 → own (addr + BitVec.ofNat 64 0) := fun hr =>
      h.own_of_shows (hr 0 (by omega)) (version_shows hr)
    intro a ha
    have hs := ipUses_readable ha
    by_contra hown
    -- one more in this byte must go unnoticed, yet it shows
    have hagree : AgreeOn own m (Function.update m a (some (m.byte a + 1))) :=
      agreeOn_update hs fun hown' => absurd hown' hown
    have hne : addr + BitVec.ofNat 64 0 ≠ a := by
      intro heq
      exact hown (heq ▸ hzero (readable_of_used ha))
    have hshown := ipTuple_shows (readable_agree hagree) (byte_update_of_ne hne) (h _ hagree) a ha
    rw [byte_update] at hshown
    simp at hshown
  · intro h
    exact (ipTuple_keepsTo m addr).mono h

/-! ## The tags -/

/-- The address `off` bytes behind `head`. -/
def headAt (K : KernelLayout) (m : Mem) (skb : BitVec 64) (off : BitVec 16) : BitVec 64 :=
  skbHead K m skb + off.setWidth 64

/-- The type behind the first tag, and the two bytes it stands in. -/
def tagType (K : KernelLayout) (m : Mem) (skb : BitVec 64) : BitVec 16 :=
  field m (headAt K m skb (skbNetworkHeader K m skb)) 2 16

def tagAddr (K : KernelLayout) (m : Mem) (skb : BitVec 64) : BitVec 64 :=
  headAt K m skb (skbNetworkHeader K m skb) + 2

/-- Where the IP header is behind one tag, and behind two. -/
def oneTag (K : KernelLayout) (m : Mem) (skb : BitVec 64) : BitVec 64 :=
  headAt K m skb (skbNetworkHeader K m skb + 4)

def twoTags (K : KernelLayout) (m : Mem) (skb : BitVec 64) : BitVec 64 :=
  headAt K m skb (skbNetworkHeader K m skb + 8)

/-- The two bytes of 0x8100, and of 0x88a8. -/
def VlanBytes (b0 b1 : Byte) : Prop := (b0 = 0x81#8 ∧ b1 = 0x00#8) ∨ (b0 = 0x88#8 ∧ b1 = 0xa8#8)

/-- As far as they belong to the skb, the two bytes at `addr` are those of a tag. -/
def CouldBeVlan (own : BitVec 64 → Prop) (m : Mem) (addr : BitVec 64) : Prop :=
  ∃ b0 b1, VlanBytes b0 b1 ∧ (own (addr + BitVec.ofNat 64 0) → bytesAt m addr 0 = b0) ∧
    (own (addr + BitVec.ofNat 64 1) → bytesAt m addr 1 = b1)

/-- The type behind the first tag is read, it may say either, and there is an IP header
to be read in one of the two places. -/
structure TagDecides (K : KernelLayout) (m : Mem) (skb : BitVec 64) : Prop where
  tagged : isVlanProto (skbProtocol K m skb) = true
  readable : m.Readable (tagAddr K m skb) 2
  open_ : CouldBeVlan (Own K m skb) m (tagAddr K m skb)
  header : m.Readable (oneTag K m skb) 20 ∨ m.Readable (twoTags K m skb) 20

/-- All that is used belongs to the skb. -/
structure OnlyOwn (K : KernelLayout) (m : Mem) (skb : BitVec 64) : Prop where
  tag : TagDecides K m skb → ∀ i < 2, Own K m skb (tagAddr K m skb + BitVec.ofNat 64 i)
  ip : ∀ a ∈ ipUses m (l3Addr K m skb), Own K m skb a

/-- The fields of the skb are apart from where the tags are. -/
def Apart (K : KernelLayout) (m : Mem) (skb : BitVec 64) : Prop :=
  ∀ a ∈ [tagAddr K m skb + BitVec.ofNat 64 0, tagAddr K m skb + BitVec.ofNat 64 1,
    oneTag K m skb, twoTags K m skb], ¬ IsField K skb a

section

variable {K : KernelLayout} {skb : BitVec 64}

/-- A field of the skb is its own. -/
theorem field_agree {fieldOff : BitVec 64} (h : AgreeOn (Own K m skb) m m')
    (hmem : (fieldOff, n / 8) ∈ skbFields K) :
    field m' skb fieldOff n = field m skb fieldOff n := by
  have hword : m'.word (skb + fieldOff) (n / 8) = m.word (skb + fieldOff) (n / 8) := by
    apply Mem.word_congr
    intro i hi
    exact h.eq _ (Or.inl ⟨_, hmem, i, hi, rfl⟩)
  unfold field
  rw [hword]

theorem skbHead_agree (h : AgreeOn (Own K m skb) m m') : skbHead K m' skb = skbHead K m skb :=
  field_agree h (List.mem_of_getElem? (i := 0) rfl)

theorem skbNetworkHeader_agree (h : AgreeOn (Own K m skb) m m') :
    skbNetworkHeader K m' skb = skbNetworkHeader K m skb :=
  field_agree h (List.mem_of_getElem? (i := 2) rfl)

theorem skbProtocol_agree (h : AgreeOn (Own K m skb) m m') :
    skbProtocol K m' skb = skbProtocol K m skb :=
  field_agree h (List.mem_of_getElem? (i := 5) rfl)

/-- So the places where headers are looked for are the same in both memories. -/
theorem headAt_agree (h : AgreeOn (Own K m skb) m m') (k : BitVec 16) :
    headAt K m' skb (skbNetworkHeader K m' skb + k) =
      headAt K m skb (skbNetworkHeader K m skb + k) := by
  unfold headAt
  rw [skbHead_agree h, skbNetworkHeader_agree h]

theorem tagAddr_agree (h : AgreeOn (Own K m skb) m m') : tagAddr K m' skb = tagAddr K m skb := by
  unfold tagAddr headAt
  rw [skbHead_agree h, skbNetworkHeader_agree h]

/-! What `get_l3_header_offset` comes to. -/

/-- Without a tag the IP header is at the network header, -/
theorem l3Addr_untagged (h : isVlanProto (skbProtocol K m skb) = false) :
    l3Addr K m skb = headAt K m skb (skbNetworkHeader K m skb) := by
  unfold l3Addr getL3HeaderOffset
  rw [skipVlan, h]
  rfl

/-- behind one tag it comes after this, -/
theorem l3Addr_oneTag (h : isVlanProto (skbProtocol K m skb) = true)
    (htag : isVlanProto (tagType K m skb) = false) : l3Addr K m skb = oneTag K m skb := by
  unfold l3Addr getL3HeaderOffset
  rw [skipVlan, if_pos h, skipVlan]
  unfold tagType headAt at htag
  rw [htag]
  rfl

/-- and behind two after both. -/
theorem l3Addr_twoTags (h : isVlanProto (skbProtocol K m skb) = true)
    (htag : isVlanProto (tagType K m skb) = true) : l3Addr K m skb = twoTags K m skb := by
  unfold l3Addr getL3HeaderOffset
  rw [skipVlan, if_pos h, skipVlan]
  unfold tagType headAt at htag
  rw [if_pos htag, skipVlan, BitVec.add_assoc]
  rfl

/-- There is no fourth place. -/
theorem l3Addr_tagged (h : isVlanProto (skbProtocol K m skb) = true) :
    l3Addr K m skb = oneTag K m skb ∨ l3Addr K m skb = twoTags K m skb := by
  rcases htag : isVlanProto (tagType K m skb) with _ | _
  · exact Or.inl (l3Addr_oneTag h htag)
  · exact Or.inr (l3Addr_twoTags h htag)

/-- Which it is behind a tag, two bytes decide, -/
theorem isVlanProto_tagType_iff (h : m.Readable (tagAddr K m skb) 2) :
    isVlanProto (tagType K m skb) = true ↔
      VlanBytes (bytesAt m (tagAddr K m skb) 0) (bytesAt m (tagAddr K m skb) 1) := by
  have htype : tagType K m skb = BitVec.ofNat 16 (leNat (bytesAt m (tagAddr K m skb)) 2) := by
    unfold tagType field Mem.word
    rw [show headAt K m skb (skbNetworkHeader K m skb) + 2 = tagAddr K m skb from rfl]
    rw [read_of_readable h]
  have h0 := (bytesAt m (tagAddr K m skb) 0).isLt
  have h1 := (bytesAt m (tagAddr K m skb) 1).isLt
  have hq : htons ethP8021q = 0x0081#16 := by decide
  have had : htons ethP8021ad = 0xa888#16 := by decide
  unfold isVlanProto VlanBytes
  rw [htype, hq, had]
  simp only [leNat, Nat.zero_add, Bool.or_eq_true, beq_iff_eq, ← BitVec.toNat_inj,
    BitVec.toNat_ofNat]
  omega

/-- if they can be read. -/
theorem tagType_unreadable (h : ¬ m.Readable (tagAddr K m skb) 2) :
    isVlanProto (tagType K m skb) = false := by
  have htype : tagType K m skb = 0 := by
    unfold tagType field Mem.word
    rw [show headAt K m skb (skbNetworkHeader K m skb) + 2 = tagAddr K m skb from rfl]
    rw [read_of_not_readable h]
    rfl
  rw [htype]
  decide

/-- As long as no foreign byte decides about the tag, the IP header is looked for in one
place, or there is none to be read. -/
theorem l3Addr_agree (h : AgreeOn (Own K m skb) m m')
    (htag : TagDecides K m skb → ∀ i < 2, Own K m skb (tagAddr K m skb + BitVec.ofNat 64 i)) :
    l3Addr K m' skb = l3Addr K m skb ∨
      ¬ m.Readable (l3Addr K m' skb) 20 ∧ ¬ m.Readable (l3Addr K m skb) 20 := by
  have hproto := skbProtocol_agree h
  have haddr := tagAddr_agree h
  have hone : oneTag K m' skb = oneTag K m skb := headAt_agree h 4
  have htwo : twoTags K m' skb = twoTags K m skb := headAt_agree h 8
  rcases htagged : isVlanProto (skbProtocol K m skb) with _ | _
  · left
    rw [l3Addr_untagged htagged, l3Addr_untagged (hproto ▸ htagged)]
    unfold headAt
    rw [skbHead_agree h, skbNetworkHeader_agree h]
  · have htagged' : isVlanProto (skbProtocol K m' skb) = true := hproto ▸ htagged
    -- the tag is read as the same, or else it does not matter
    have hsame : isVlanProto (tagType K m' skb) = isVlanProto (tagType K m skb) →
        l3Addr K m' skb = l3Addr K m skb := by
      intro heq
      rcases htype : isVlanProto (tagType K m skb) with _ | _
      · rw [l3Addr_oneTag htagged htype, l3Addr_oneTag htagged' (heq.trans htype), hone]
      · rw [l3Addr_twoTags htagged htype, l3Addr_twoTags htagged' (heq.trans htype), htwo]
    by_cases hr : m.Readable (tagAddr K m skb) 2
    · have hr' : m'.Readable (tagAddr K m' skb) 2 := by
        rw [haddr]
        exact (readable_agree h _ 2).mpr hr
      by_cases hheader : m.Readable (oneTag K m skb) 20 ∨ m.Readable (twoTags K m skb) 20
      · -- if one of the two memories has a second tag, the bytes of its type are the
        -- packet's own and so are in the other memory
        left
        apply hsame
        rw [Bool.eq_iff_iff, isVlanProto_tagType_iff hr, isVlanProto_tagType_iff hr', haddr]
        have hbyte : ∀ i, Own K m skb (tagAddr K m skb + BitVec.ofNat 64 i) →
            bytesAt m' (tagAddr K m skb) i = bytesAt m (tagAddr K m skb) i :=
          fun i hi => byte_agree (h.eq _ hi)
        constructor
        · intro hvlan
          have hown := htag ⟨htagged, hr, ⟨_, _, hvlan, fun h0 => (hbyte 0 h0).symm,
            fun h1 => (hbyte 1 h1).symm⟩, hheader⟩
          rwa [hbyte 0 (hown 0 (by omega)), hbyte 1 (hown 1 (by omega))] at hvlan
        · intro hvlan
          have hown := htag ⟨htagged, hr, ⟨_, _, hvlan, fun _ => rfl, fun _ => rfl⟩, hheader⟩
          rwa [hbyte 0 (hown 0 (by omega)), hbyte 1 (hown 1 (by omega))]
      · right
        obtain ⟨hnone, hntwo⟩ := not_or.mp hheader
        constructor
        · rcases l3Addr_tagged htagged' with h1 | h2
          · rwa [h1, hone]
          · rwa [h2, htwo]
        · rcases l3Addr_tagged htagged with h1 | h2
          · rwa [h1]
          · rwa [h2]
    · -- a type that cannot be read is zero, and no tag's
      left
      apply hsame
      have hr' : ¬ m'.Readable (tagAddr K m' skb) 2 := by
        rw [haddr]
        exact mt (readable_agree h _ 2).mp hr
      rw [tagType_unreadable hr, tagType_unreadable hr']

/-- If all that is used belongs to the skb, the tuple is made of it. -/
theorem OnlyOwn.ownBytes (h : OnlyOwn K m skb) : OwnBytes K m skb := by
  intro m' hagree tuple tuple'
  rw [setTuple_eq, setTuple_eq]
  rcases l3Addr_agree hagree h.tag with hsame | ⟨hnone', hnone⟩
  · rw [hsame]
    exact keepsTo_ipTuple_iff.mpr h.ip m' hagree
  · rw [ipTuple_unreadable (read_of_not_readable hnone),
      ipTuple_unreadable (read_of_not_readable (mt (readable_agree hagree _ 20).mp hnone'))]

/-! The other direction: a foreign byte that is used can be told. -/

theorem add_ofNat_inj {x : BitVec 64} {i j : Nat} (hi : i < 2 ^ 64) (hj : j < 2 ^ 64)
    (h : x + BitVec.ofNat 64 i = x + BitVec.ofNat 64 j) : i = j := by
  have hnat := congrArg BitVec.toNat ((BitVec.add_right_inj x).mp h)
  rwa [BitVec.toNat_ofNat, BitVec.toNat_ofNat, Nat.mod_eq_of_lt hi, Nat.mod_eq_of_lt hj] at hnat

theorem headAt_eq (off : BitVec 16) :
    headAt K m skb off = skbHead K m skb + BitVec.ofNat 64 off.toNat := by
  unfold headAt
  rw [BitVec.ofNat_toNat]

theorem tagAddr_eq (i : Nat) : tagAddr K m skb + BitVec.ofNat 64 i =
    skbHead K m skb + BitVec.ofNat 64 ((skbNetworkHeader K m skb).toNat + 2 + i) := by
  unfold tagAddr
  rw [headAt_eq, BitVec.ofNat_add, BitVec.ofNat_add, ← BitVec.add_assoc, ← BitVec.add_assoc]
  rfl

/-- No tag is where the IP header is. -/
theorem header_ne_tag {k : BitVec 16} {i : Nat} (hk : 4 ≤ k.toNat) (hk' : k.toNat ≤ 8)
    (hi : i < 2) :
    headAt K m skb (skbNetworkHeader K m skb + k) ≠ tagAddr K m skb + BitVec.ofNat 64 i := by
  intro h
  have hnh := (skbNetworkHeader K m skb).isLt
  rw [headAt_eq, tagAddr_eq, BitVec.toNat_add] at h
  have hnat := add_ofNat_inj (by omega) (by omega) h
  omega

/-- If the IP header starts in the packet, the tags in front of it are in the packet. -/
theorem InLinear.tag {k : BitVec 16} (hk : 4 ≤ k.toNat) (hk' : k.toNat ≤ 8)
    (h : InLinear K m skb (headAt K m skb (skbNetworkHeader K m skb + k))) :
    ∀ i < 2, InLinear K m skb (tagAddr K m skb + BitVec.ofNat 64 i) := by
  obtain ⟨j, hlo, hhi, heq⟩ := h
  have hnh := (skbNetworkHeader K m skb).isLt
  have htail := (skbTail K m skb).isLt
  rw [headAt_eq, BitVec.toNat_add] at heq
  have hj := add_ofNat_inj (by omega) (by omega) heq
  intro i hi
  refine ⟨(skbNetworkHeader K m skb).toNat + 2 + i, by omega, ?_, tagAddr_eq i⟩
  -- an offset that wraps is less than the network header, and so is not `j`
  omega

/-- The memories that agree put the IP header in one of two places, as the tag says. -/
theorem l3Addr_of_vlan (htagged : isVlanProto (skbProtocol K m skb) = true)
    (hr : m.Readable (tagAddr K m skb) 2) (h : AgreeOn (Own K m skb) m m')
    (hvlan : VlanBytes (bytesAt m' (tagAddr K m skb) 0) (bytesAt m' (tagAddr K m skb) 1)) :
    l3Addr K m' skb = twoTags K m skb := by
  have haddr := tagAddr_agree h
  have hr' : m'.Readable (tagAddr K m' skb) 2 := by
    rw [haddr]
    exact (readable_agree h _ 2).mpr hr
  have htwo : twoTags K m' skb = twoTags K m skb := headAt_agree h 8
  rw [← haddr] at hvlan
  rw [l3Addr_twoTags ((skbProtocol_agree h).symm ▸ htagged)
    ((isVlanProto_tagType_iff hr').mpr hvlan), htwo]

/-- With bytes there that announce no tag, the header is expected after the first. -/
theorem l3Addr_of_not_vlan (htagged : isVlanProto (skbProtocol K m skb) = true)
    (hr : m.Readable (tagAddr K m skb) 2) (h : AgreeOn (Own K m skb) m m')
    (hvlan : ¬ VlanBytes (bytesAt m' (tagAddr K m skb) 0) (bytesAt m' (tagAddr K m skb) 1)) :
    l3Addr K m' skb = oneTag K m skb := by
  have haddr := tagAddr_agree h
  have hr' : m'.Readable (tagAddr K m' skb) 2 := by
    rw [haddr]
    exact (readable_agree h _ 2).mpr hr
  have hone : oneTag K m' skb = oneTag K m skb := headAt_agree h 4
  rw [← haddr] at hvlan
  rw [l3Addr_oneTag ((skbProtocol_agree h).symm ▸ htagged)
    (Bool.eq_false_iff.mpr (mt (isVlanProto_tagType_iff hr').mp hvlan)), hone]

/-- With a foreign byte that is in no VLAN type, there is one tag. -/
theorem exists_not_vlan (hr : m.Readable addr 2)
    (hnot : ¬ ∀ i < 2, own (addr + BitVec.ofNat 64 i)) :
    ∃ m' : Mem, AgreeOn own m m' ∧ ¬ VlanBytes (bytesAt m' addr 0) (bytesAt m' addr 1) := by
  obtain ⟨i, hi, hforeign⟩ : ∃ i, i < 2 ∧ ¬ own (addr + BitVec.ofNat 64 i) := by
    by_contra hall
    exact hnot fun i hi => by_contra fun hforeign => hall ⟨i, hi, hforeign⟩
  refine ⟨Function.update m (addr + BitVec.ofNat 64 i) (some 1),
    agreeOn_update (hr i hi) fun hown => absurd hown hforeign, fun hvlan => ?_⟩
  have hbyte : bytesAt (Function.update m (addr + BitVec.ofNat 64 i) (some 1)) addr i = 1 :=
    byte_update
  have hcases : i = 0 ∨ i = 1 := by omega
  rcases hcases with rfl | rfl
  · rw [hbyte] at hvlan
    rcases hvlan with ⟨h0, -⟩ | ⟨h0, -⟩
    · exact absurd h0 (by decide)
    · exact absurd h0 (by decide)
  · rw [hbyte] at hvlan
    rcases hvlan with ⟨-, h1⟩ | ⟨-, h1⟩
    · exact absurd h1 (by decide)
    · exact absurd h1 (by decide)

theorem some_of_byte {b : Byte} (hs : (m a).isSome = true) (hb : m.byte a = b) : m a = some b := by
  obtain ⟨c, hc⟩ := Option.isSome_iff_exists.mp hs
  unfold Mem.byte at hb
  rw [hc] at hb
  rw [hc, ← hb]
  rfl

/-- With the foreign bytes of a VLAN type, there are two. -/
theorem exists_vlan (hr : m.Readable addr 2) (h : CouldBeVlan own m addr) :
    ∃ m' : Mem, AgreeOn own m m' ∧ VlanBytes (bytesAt m' addr 0) (bytesAt m' addr 1) := by
  obtain ⟨b0, b1, hvlan, hb0, hb1⟩ := h
  have hne : addr + BitVec.ofNat 64 1 ≠ addr + BitVec.ofNat 64 0 :=
    fun heq => absurd (add_ofNat_inj (by omega) (by omega) heq) (by omega)
  have hagree0 : AgreeOn own m (Function.update m (addr + BitVec.ofNat 64 0) (some b0)) :=
    agreeOn_update (hr 0 (by omega)) fun hown => some_of_byte (hr 0 (by omega)) (hb0 hown)
  have hagree : AgreeOn own m (Function.update (Function.update m (addr + BitVec.ofNat 64 0)
      (some b0)) (addr + BitVec.ofNat 64 1) (some b1)) := by
    apply hagree0.trans
    apply agreeOn_update
    · exact (readable_agree hagree0 _ 2).mpr hr 1 (by omega)
    · intro hown
      rw [Function.update_of_ne hne]
      exact some_of_byte (hr 1 (by omega)) (hb1 hown)
  refine ⟨_, hagree, ?_⟩
  unfold bytesAt
  rw [byte_update_of_ne hne.symm, byte_update, byte_update]
  exact hvlan

/-- Where some memory that agrees has its IP header, and keeps it when the first byte of
that is written, this byte belongs to the skb. -/
theorem OwnBytes.first {m₁ : Mem} (h : OwnBytes K m skb) (hagree : AgreeOn (Own K m skb) m m₁)
    (hr : m.Readable addr 20)
    (hl3 : ∀ m₂ : Mem, AgreeOn (Own K m skb) m m₂ →
      (∀ c, c ≠ addr + BitVec.ofNat 64 0 → m₂ c = m₁ c) → l3Addr K m₂ skb = addr) :
    Own K m skb (addr + BitVec.ofNat 64 0) := by
  by_contra hforeign
  have hr₁ := (readable_agree hagree addr 20).mpr hr
  have hl3 : ∀ b : Byte,
      l3Addr K (Function.update m₁ (addr + BitVec.ofNat 64 0) (some b)) skb = addr := by
    intro b
    apply hl3
    · exact hagree.trans (agreeOn_update (hr₁ 0 (by omega)) fun hown => absurd hown hforeign)
    · intro c hc
      exact Function.update_of_ne hc _ _
  have hkeeps : KeepsTo (Own K m skb) (setTuple K · skb emptyTuple) m :=
    fun m' hm' => h m' hm' emptyTuple emptyTuple
  apply hforeign
  apply (hkeeps.at_agree hagree).own_of_shows (hr₁ 0 (by omega))
  show setTuple K (Function.update m₁ (addr + BitVec.ofNat 64 0) (some 0)) skb emptyTuple ≠
    setTuple K (Function.update m₁ (addr + BitVec.ofNat 64 0) (some 0x40)) skb emptyTuple
  rw [setTuple_eq, setTuple_eq, hl3, hl3]
  exact version_shows hr₁

/-- A tag that decides is in the packet. -/
theorem OwnBytes.tag (hapart : Apart K m skb) (h : OwnBytes K m skb) (hd : TagDecides K m skb) :
    ∀ i < 2, Own K m skb (tagAddr K m skb + BitVec.ofNat 64 i) := by
  by_contra hnot
  -- then neither place of the IP header is the packet's own
  have hforeign : ∀ k : BitVec 16, 4 ≤ k.toNat → k.toNat ≤ 8 →
      ¬ IsField K skb (headAt K m skb (skbNetworkHeader K m skb + k)) →
      ¬ Own K m skb (headAt K m skb (skbNetworkHeader K m skb + k) + BitVec.ofNat 64 0) := by
    intro k hk hk' hfield hown
    rw [BitVec.add_zero] at hown
    rcases hown with hown | hlinear
    · exact hfield hown
    · exact hnot fun i hi => Or.inr (hlinear.tag hk hk' i hi)
  -- and a write there leaves the tag as it is
  have hkept : ∀ (k : BitVec 16) (m₁ m₂ : Mem), 4 ≤ k.toNat → k.toNat ≤ 8 →
      (∀ c, c ≠ headAt K m skb (skbNetworkHeader K m skb + k) + BitVec.ofNat 64 0 →
        m₂ c = m₁ c) →
      ∀ i < 2, bytesAt m₂ (tagAddr K m skb) i = bytesAt m₁ (tagAddr K m skb) i := by
    intro k m₁ m₂ hk hk' hsame i hi
    apply byte_agree
    apply hsame
    rw [BitVec.add_zero]
    exact (header_ne_tag hk hk' hi).symm
  rcases hd.header with hr | hr
  · obtain ⟨m₁, hagree, hvlan⟩ := exists_not_vlan hd.readable hnot
    refine hforeign 4 (by decide) (by decide) (hapart _ (List.mem_of_getElem? (i := 2) rfl))
      (h.first hagree hr fun m₂ hm₂ hsame => ?_)
    have hbyte := hkept 4 m₁ m₂ (by decide) (by decide) hsame
    apply l3Addr_of_not_vlan hd.tagged hd.readable hm₂
    rwa [hbyte 0 (by omega), hbyte 1 (by omega)]
  · obtain ⟨m₁, hagree, hvlan⟩ := exists_vlan hd.readable hd.open_
    refine hforeign 8 (by decide) (by decide) (hapart _ (List.mem_of_getElem? (i := 3) rfl))
      (h.first hagree hr fun m₂ hm₂ hsame => ?_)
    have hbyte := hkept 8 m₁ m₂ (by decide) (by decide) hsame
    apply l3Addr_of_vlan hd.tagged hd.readable hm₂
    rwa [hbyte 0 (by omega), hbyte 1 (by omega)]

/-- If the tuple is made of the packet's own bytes, all that is used is among them: a
foreign byte could be changed, and would show. -/
theorem OwnBytes.onlyOwn (hapart : Apart K m skb) (h : OwnBytes K m skb) : OnlyOwn K m skb := by
  have htag := h.tag hapart
  have hip : KeepsTo (Own K m skb) (ipTuple · (l3Addr K m skb)) m := by
    intro m' hagree
    rcases l3Addr_agree hagree htag with hsame | ⟨-, hnone⟩
    · have hset := h m' hagree emptyTuple emptyTuple
      rwa [setTuple_eq, setTuple_eq, hsame] at hset
    · have hnone' := mt (readable_agree hagree _ 20).mp hnone
      exact (ipTuple_unreadable (read_of_not_readable hnone')).trans
        (ipTuple_unreadable (read_of_not_readable hnone)).symm
  exact ⟨htag, keepsTo_ipTuple_iff.mp hip⟩

end

/-- **The tuple is made of the packet's own bytes exactly if all the bytes used are.**
Where the fields of the skb are apart from the tags there is no other case, and that
they are the packet's own is enough in any. -/
theorem own_bytes_iff (K : KernelLayout) (m : Mem) (skb : BitVec 64) :
    (OnlyOwn K m skb → OwnBytes K m skb) ∧
      (Apart K m skb → (OwnBytes K m skb ↔ OnlyOwn K m skb)) :=
  ⟨fun h => h.ownBytes, fun hapart => ⟨fun h => h.onlyOwn hapart, fun h => h.ownBytes⟩⟩

/-! ## A packet that is cut -/

/-- An IPv4 header and a UDP header. -/
def cutPacket : List Byte :=
  [0x45, 0, 0, 28, 0, 0, 0, 0, 64, 17, 0, 0, 10, 0, 0, 1, 10, 0, 0, 2,
    0x14, 0xe9, 0, 53, 0, 8, 0, 0]

/-- They are in memory at 0x2000, and the skb at 0x1000 has its tail after `tail` bytes of
them. -/
def cutSkb (tail : Nat) : Mem :=
  (wordMem fun k =>
    if k = 512 then 0x2000
    else if k = 513 then tail
    else if k = 517 then (htons ethPIp).toNat
    else 0).withText 0x2000 cutPacket

theorem cutSkb_head (tail : Nat) : skbHead plainLayout (cutSkb tail) 0x1000 = 0x2000 :=
  (field_withText (k := 4096) rfl (by decide) (by decide)).trans
    (field_wordMem (k := 512) rfl (by decide) (by decide))

theorem cutSkb_networkHeader (tail : Nat) :
    skbNetworkHeader plainLayout (cutSkb tail) 0x1000 = 0 :=
  (field_withText (k := 4112) rfl (by decide) (by decide)).trans
    (field_wordMem (k := 514) rfl (by decide) (by decide))

theorem cutSkb_tail {tail : Nat} (h : tail < 2 ^ 32) :
    (skbTail plainLayout (cutSkb tail) 0x1000).toNat = tail := by
  have hfield : skbTail plainLayout (cutSkb tail) 0x1000 = BitVec.ofNat 32 (tail % 256 ^ 4) :=
    (field_withText (k := 4104) rfl (by decide) (by decide)).trans
      (field_wordMem (k := 513) rfl (by decide) (by decide))
  rw [hfield, BitVec.toNat_ofNat]
  omega

/-- The fields of the skb lie in front of the packet, -/
theorem cutSkb_isField {a : BitVec 64} (h : IsField plainLayout 0x1000 a) :
    a.toNat < 0x2000 := by
  have hoff : ∀ fld ∈ skbFields plainLayout, fld.1.toNat < 80 ∧ fld.2 ≤ 8 := by decide
  obtain ⟨fld, hfld, i, hi, rfl⟩ := h
  obtain ⟨hlo, hlen⟩ := hoff fld hfld
  have hskb : (0x1000 : BitVec 64).toNat = 4096 := rfl
  simp only [BitVec.toNat_add, BitVec.toNat_ofNat, hskb]
  omega

/-- and of the packet its own are the bytes up to the tail. -/
theorem cutSkb_own_iff {tail i : Nat} (htail : tail < 2 ^ 32) (hi : i < 2 ^ 32) :
    Own plainLayout (cutSkb tail) 0x1000 (0x2000 + BitVec.ofNat 64 i) ↔ i < tail := by
  constructor
  · intro h
    rcases h with hfield | ⟨j, -, hj, heq⟩
    · have hlt := cutSkb_isField hfield
      have hhead : (0x2000 : BitVec 64).toNat = 8192 := rfl
      simp only [BitVec.toNat_add, BitVec.toNat_ofNat, hhead] at hlt
      omega
    · rw [cutSkb_tail htail] at hj
      rw [cutSkb_head] at heq
      have hij := add_ofNat_inj (by omega) (by omega) heq
      omega
  · intro h
    refine Or.inr ⟨i, ?_, ?_, ?_⟩
    · rw [cutSkb_networkHeader]
      exact Nat.zero_le i
    · rw [cutSkb_tail htail]
      exact h
    · rw [cutSkb_head]

/-- With the tail behind the IP header, the byte that follows is the first of the port. -/
theorem stale_port_shows :
    ∃ m', AgreeOn (Own plainLayout (cutSkb 20) 0x1000) (cutSkb 20) m' ∧
      setTuple plainLayout m' 0x1000 emptyTuple ≠
        setTuple plainLayout (cutSkb 20) 0x1000 emptyTuple := by
  refine ⟨Function.update (cutSkb 20) (0x2000 + BitVec.ofNat 64 20) (some 0x99),
    agreeOn_update (by decide) fun hown => ?_, by decide⟩
  exact absurd ((cutSkb_own_iff (by omega) (by omega)).mp hown) (by omega)

theorem cutSkb_apart (tail : Nat) : Apart plainLayout (cutSkb tail) 0x1000 := by
  intro a ha hfield
  have hlt := cutSkb_isField hfield
  unfold tagAddr oneTag twoTags headAt at ha
  rw [cutSkb_head, cutSkb_networkHeader] at ha
  simp only [List.mem_cons, List.not_mem_nil, or_false] at ha
  rcases ha with rfl | rfl | rfl | rfl
  · exact absurd hlt (by decide)
  · exact absurd hlt (by decide)
  · exact absurd hlt (by decide)
  · exact absurd hlt (by decide)

theorem cutSkb_l3Addr (tail : Nat) : l3Addr plainLayout (cutSkb tail) 0x1000 = 0x2000 := by
  have hproto : isVlanProto (skbProtocol plainLayout (cutSkb tail) 0x1000) = false := by
    have hfield : skbProtocol plainLayout (cutSkb tail) 0x1000 =
        BitVec.ofNat 16 ((htons ethPIp).toNat % 256 ^ 2) :=
      (field_withText (k := 4136) rfl (by decide) (by decide)).trans
        (field_wordMem (k := 517) rfl (by decide) (by decide))
    rw [hfield]
    decide
  rw [l3Addr_untagged hproto]
  unfold headAt
  rw [cutSkb_head, cutSkb_networkHeader]
  rfl

/-- All that is used of the whole packet is in it. -/
theorem cutSkb_onlyOwn : OnlyOwn plainLayout (cutSkb 28) 0x1000 := by
  have huses : ipUses (cutSkb 28) 0x2000 =
      offsets 0x2000 (0 :: 9 :: List.range' 12 8 ++ [20, 21, 22, 23]) := by decide +kernel
  constructor
  · intro hd
    have htagged : isVlanProto (skbProtocol plainLayout (cutSkb 28) 0x1000) = false := by decide
    exact absurd (hd.tagged.symm.trans htagged) (by decide)
  · intro a ha
    rw [cutSkb_l3Addr, huses] at ha
    obtain ⟨i, hi, rfl⟩ := mem_offsets.mp ha
    exact (cutSkb_own_iff (by omega) (by simp at hi; omega)).mpr (by simp at hi; omega)

/-- With 28 bytes the tuple is the packet's own, with 20 it is not. -/
theorem own_bytes_iff_cut :
    OwnBytes plainLayout (cutSkb 28) 0x1000 ∧ ¬ OwnBytes plainLayout (cutSkb 20) 0x1000 := by
  constructor
  · exact ((own_bytes_iff plainLayout (cutSkb 28) 0x1000).2 (cutSkb_apart 28)).mpr cutSkb_onlyOwn
  · intro h
    have honly := ((own_bytes_iff plainLayout (cutSkb 20) 0x1000).2 (cutSkb_apart 20)).mp h
    have hused : 0x2000 + BitVec.ofNat 64 20 ∈ ipUses (cutSkb 20) 0x2000 := by decide +kernel
    rw [← cutSkb_l3Addr 20] at hused
    exact absurd ((cutSkb_own_iff (by omega) (by omega)).mp (honly.ip _ hused)) (by omega)

end SkbTracer.Kprobe
