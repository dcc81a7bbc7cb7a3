import SkbTracer.Libc.InetPton
import SkbTracer.Output.Tuple

/-!
# What the text of a tuple tells

`--output-tuple` promises addresses, ports, the protocol and the TCP flags. Addresses and
ports can be read off the text of a tuple: the texts of the addresses end at a bracket or
a colon, which they do not have in them, the ports end at a blank, and `-` is the text of
no address but zero. The protocol stands last.

The flags are collected, but `format_tuple` does not print them. So the text tells all the
rest, and two TCP tuples that differ in the flags alone look alike.

- `v6Text_inj`, `v4Text_inj`, `portText_inj`: the parts of a text tell what they show. For
  the addresses this rests on the injectivity of `inet_ntop` (`Libc.InetNtop`).
- `portsText_inj`, `v6_ne_v4`: the parts can be cut out of the text, and the families are
  not mixed up.
- `formatTuple_eq_iff`: two TCP or UDP tuples have one text exactly if they are the same
  but for the flags.
- `lossless_iff`: so the promise is kept for two tuples exactly if they are not two of TCP
  that differ in the flags alone; `flags_not_shown` has two such tuples.

The theorems are about tuples with ports. Those of other protocols are not all told apart,
since the protocols that have no name are shown as `-`. Of an IPv4 tuple only the four
bytes of each address are shown, and only these are told (`SameAddress`).
-/

namespace SkbTracer.Output

open SkbTracer.Lib (Byte eq_of_bytes)
open SkbTracer.Libc
open SkbTracer.Kprobe

/-! ## What is to be told -/

/-- The addresses are one, in the family. -/
def SameAddress (l3Proto : BitVec 16) (a a' : Addr) : Prop :=
  if l3Proto = ethPIpv6 then a = a' else a.v4addr = a'.v4addr

/-- The tuples are the same but for the flags. -/
structure SameEnds (tuple tuple' : SkbTuple) : Prop where
  l3Proto : tuple.l3Proto = tuple'.l3Proto
  saddr : SameAddress tuple.l3Proto tuple.saddr tuple'.saddr
  daddr : SameAddress tuple.l3Proto tuple.daddr tuple'.daddr
  sport : tuple.sport = tuple'.sport
  dport : tuple.dport = tuple'.dport
  l4Proto : tuple.l4Proto = tuple'.l4Proto

/-- If the texts are the same, so are the tuples, for TCP with the flags. -/
def Lossless (tuple tuple' : SkbTuple) : Prop :=
  formatTuple tuple = formatTuple tuple' →
    SameEnds tuple tuple' ∧ (tuple.l4Proto = ipprotoTcp → tuple.tcpFlags = tuple'.tcpFlags)

/-- TCP or UDP in an IPv4 or IPv6 packet. -/
structure HasPorts (tuple : SkbTuple) : Prop where
  l3 : Recognised tuple
  l4 : tuple.l4Proto = ipprotoTcp ∨ tuple.l4Proto = ipprotoUdp

/-! ## Addresses -/

/-- The text of an address, by family. -/
def v6Text (a : Addr) : List Char :=
  if a.d1 ≠ 0 ∨ a.d2 ≠ 0 then inetNtop6 (addrBytes a) else "-".toList

/-- That of an IPv4 address. -/
def v4Text (a : Addr) : List Char :=
  if a.v4addr ≠ 0 then inetNtop4 (addrBytes a) else "-".toList

variable {a a' : Addr} {c : Char}

/-- The letters of an IPv6 address. -/
theorem mem_v6Text (hc : c ∈ v6Text a) : c = '-' ∨ c = ':' ∨ c = '.' ∨ isDigitOf 16 c = true := by
  unfold v6Text at hc
  split at hc
  next => exact Or.inr (mem_inetNtop6 hc)
  next => exact Or.inl (List.mem_singleton.mp hc)

/-- Those of an IPv4 address. -/
theorem mem_v4Text (hc : c ∈ v4Text a) : c = '-' ∨ c = '.' ∨ isDigitOf 10 c = true := by
  unfold v4Text at hc
  split at hc
  next => exact Or.inr (mem_inetNtop4 hc)
  next => exact Or.inl (List.mem_singleton.mp hc)

theorem addr_eq_of_bytes (h : ∀ i < 16, addrBytes a i = addrBytes a' i) : a = a' := by
  have hd1 : a.d1 = a'.d1 := by
    apply eq_of_bytes (k := 8)
    intro i hi
    have hbyte := h i (by omega)
    unfold addrBytes at hbyte
    rwa [if_pos hi, if_pos hi] at hbyte
  have hd2 : a.d2 = a'.d2 := by
    apply eq_of_bytes (k := 8)
    intro i hi
    have hbyte := h (8 + i) (by omega)
    unfold addrBytes at hbyte
    rwa [if_neg (by omega), if_neg (by omega), Nat.add_sub_cancel_left] at hbyte
  cases a
  cases a'
  exact congrArg₂ Addr.mk hd1 hd2

/-- `-` stands for no address that has a text of its own. -/
theorem placeholder_inj {P P' : Prop} [Decidable P] [Decidable P'] {s s' : List Char}
    (hs : '-' ∉ s) (hs' : '-' ∉ s')
    (h : (if P then s else "-".toList) = if P' then s' else "-".toList) :
    P ∧ P' ∧ s = s' ∨ ¬ P ∧ ¬ P' := by
  by_cases hP : P
  · rw [if_pos hP] at h
    by_cases hP' : P'
    · rw [if_pos hP'] at h
      exact Or.inl ⟨hP, hP', h⟩
    · rw [if_neg hP'] at h
      exact absurd (h ▸ List.mem_singleton_self '-') hs
  · rw [if_neg hP] at h
    by_cases hP' : P'
    · rw [if_pos hP'] at h
      exact absurd (h ▸ List.mem_singleton_self '-') hs'
    · exact Or.inr ⟨hP, hP'⟩

/-- The text tells the address. -/
theorem v6Text_inj (h : v6Text a = v6Text a') : a = a' := by
  have hdash : ∀ a, '-' ∉ inetNtop6 (addrBytes a) := fun a hmem => by
    rcases mem_inetNtop6 hmem with hc | hc | hc
    all_goals exact absurd hc (by decide)
  rcases placeholder_inj (hdash a) (hdash a') h with ⟨-, -, htext⟩ | ⟨hz, hz'⟩
  · exact addr_eq_of_bytes (inetNtop6_bytes htext)
  · obtain ⟨h1, h2⟩ := not_or.mp hz
    obtain ⟨h1', h2'⟩ := not_or.mp hz'
    cases a
    cases a'
    exact congrArg₂ Addr.mk ((not_not.mp h1).trans (not_not.mp h1').symm)
      ((not_not.mp h2).trans (not_not.mp h2').symm)

/-- And the four bytes of an IPv4 address. -/
theorem v4Text_inj (h : v4Text a = v4Text a') : a.v4addr = a'.v4addr := by
  have hdash : ∀ a, '-' ∉ inetNtop4 (addrBytes a) := fun a hmem => by
    rcases mem_inetNtop4 hmem with hc | hc
    all_goals exact absurd hc (by decide)
  rcases placeholder_inj (hdash a) (hdash a') h with ⟨-, -, htext⟩ | ⟨hz, hz'⟩
  · exact v4addr_eq_iff_bytes.mpr (inetNtop4_bytes htext)
  · exact (not_not.mp hz).trans (not_not.mp hz').symm

/-- The text of an IPv4 address shows its four bytes and no others. -/
theorem v4Text_congr (h : a.v4addr = a'.v4addr) : v4Text a = v4Text a' := by
  unfold v4Text
  rw [h, inetNtop4_congr (v4addr_eq_iff_bytes.mp h)]

/-! ## Ports and protocols -/

theorem htons_inj {x y : BitVec 16} (h : htons x = htons y) : x = y := by
  have hnat : ∀ x : BitVec 16, (htons x).toNat = x.toNat % 256 * 256 + x.toNat / 256 := by
    intro x
    have hlt := (x.extractLsb' 8 8).isLt
    have hx := x.isLt
    unfold htons
    rw [BitVec.toNat_append, ← Nat.shiftLeft_add_eq_or_of_lt hlt, Nat.shiftLeft_eq,
      BitVec.toNat_setWidth, BitVec.extractLsb'_toNat, Nat.shiftRight_eq_div_pow]
    omega
  have heq := congrArg BitVec.toNat h
  rw [hnat, hnat] at heq
  have hx := x.isLt
  have hy := y.isLt
  apply BitVec.eq_of_toNat_eq
  omega

/-- A port is told by its decimal digits. -/
theorem portText_inj {x y : BitVec 16} (h : portText x = portText y) : x = y := by
  have hread : ∀ n, digitsVal 10 0 (Nat.toDigits 10 n) = n :=
    digitsVal_toDigits (by decide) (by decide)
  unfold portText at h
  have heq : (htons x).toNat = (htons y).toNat := by
    rw [← hread (htons x).toNat, h, hread]
  exact htons_inj (BitVec.eq_of_toNat_eq heq)

theorem not_blank_portText (port : BitVec 16) : ' ' ∉ portText port :=
  not_mem_toDigits (by decide) (by decide) (by decide)

/-! ## The text of a tuple -/

variable {tuple tuple' : SkbTuple} {z : Char} {s s' d d' x x' : List Char}

/-- There is one way to cut a text at the first `z`. -/
theorem cut_at (hs : z ∉ s) (hs' : z ∉ s') (h : s ++ z :: x = s' ++ z :: x') :
    s = s' ∧ x = x' := by
  have hsplit := congrArg (List.splitOn z) h
  rw [List.splitOn_append_cons_self_of_not_mem hs,
    List.splitOn_append_cons_self_of_not_mem hs'] at hsplit
  have hhead := List.head_eq_of_cons_eq hsplit
  rw [hhead] at h
  exact ⟨hhead, List.tail_eq_of_cons_eq (List.append_cancel_left h)⟩

/-- Two endpoints with their ports, and a protocol. -/
def portsText (pre behind between : List Char) (z : Char) (s d : List Char) (tuple : SkbTuple) :
    List Char :=
  twoEnds pre (z :: behind ++ portText tuple.sport ++ ' ' :: between)
    (z :: behind ++ portText tuple.dport ++ protoTag tuple) s d

/-- **A text with ports is read from the left.** The separators are not in the
addresses, so these are cut off where they end, and then the ports and the protocol. -/
theorem portsText_inj {pre behind between : List Char} (hs : z ∉ s) (hs' : z ∉ s') (hd : z ∉ d)
    (hd' : z ∉ d')
    (h : portsText pre behind between z s d tuple = portsText pre behind between z s' d' tuple') :
    s = s' ∧ d = d' ∧ tuple.sport = tuple'.sport ∧ tuple.dport = tuple'.dport ∧
      getProtocolName tuple.l4Proto = getProtocolName tuple'.l4Proto := by
  have htag : ∀ tuple, protoTag tuple =
      ' ' :: ('[' :: (getProtocolName tuple.l4Proto ++ "]".toList)) := fun _ => rfl
  unfold portsText twoEnds at h
  rw [htag, htag] at h
  simp only [List.append_assoc, List.cons_append] at h
  -- from the left: an address up to `z`, a port up to the blank, and the same again
  obtain ⟨hsaddr, h⟩ := cut_at hs hs' (List.append_cancel_left h)
  obtain ⟨hsport, h⟩ := cut_at (not_blank_portText _) (not_blank_portText _)
    (List.append_cancel_left h)
  obtain ⟨hdaddr, h⟩ := cut_at hd hd' (List.append_cancel_left h)
  obtain ⟨hdport, h⟩ := cut_at (not_blank_portText _) (not_blank_portText _)
    (List.append_cancel_left h)
  exact ⟨hsaddr, hdaddr, portText_inj hsport, portText_inj hdport,
    List.append_cancel_right (List.tail_eq_of_cons_eq h)⟩

/-- TCP and UDP are shown with their ports. -/
theorem HasPorts.shown (h : HasPorts tuple) : protocolHasPorts tuple.l4Proto = true := by
  unfold protocolHasPorts
  rcases h.l4 with h4 | h4
  · rw [h4]
    decide
  · rw [h4]
    decide

theorem HasPorts.l4_ne_zero (h : HasPorts tuple) : tuple.l4Proto ≠ 0 := by
  rcases h.l4 with h4 | h4
  · rw [h4]
    decide
  · rw [h4]
    decide

/-- Of the two the name tells which. -/
theorem HasPorts.name_inj (h : HasPorts tuple) (h' : HasPorts tuple')
    (hname : getProtocolName tuple.l4Proto = getProtocolName tuple'.l4Proto) :
    tuple.l4Proto = tuple'.l4Proto := by
  rcases h.l4 with h4 | h4
  · rcases h'.l4 with h4' | h4'
    · exact h4.trans h4'.symm
    · rw [h4, h4'] at hname
      exact absurd hname (by decide)
  · rcases h'.l4 with h4' | h4'
    · rw [h4, h4'] at hname
      exact absurd hname (by decide)
    · exact h4.trans h4'.symm

theorem HasPorts.l3_v4 (h : HasPorts tuple) (h6 : tuple.l3Proto ≠ ethPIpv6) :
    tuple.l3Proto = ethPIp := h.l3.resolve_right h6

/-- The text of an IPv6 tuple, in its parts. -/
theorem formatTuple_v6 (h : HasPorts tuple) (h6 : tuple.l3Proto = ethPIpv6) :
    formatTuple tuple =
      portsText "[".toList ":".toList "-> [".toList ']' (v6Text tuple.saddr) (v6Text tuple.daddr)
        tuple := by
  unfold formatTuple formatIpv6Tuple ipv6Text
  rw [if_neg h.l4_ne_zero, if_pos h6, if_pos h.shown]
  rfl

/-- That of an IPv4 tuple. -/
theorem formatTuple_v4 (h : HasPorts tuple) (h6 : tuple.l3Proto ≠ ethPIpv6) :
    formatTuple tuple =
      portsText [] [] "-> ".toList ':' (v4Text tuple.saddr) (v4Text tuple.daddr) tuple := by
  unfold formatTuple formatIpv4Tuple ipv4Text
  rw [if_neg h.l4_ne_zero, if_neg h6, if_pos h.shown]
  rfl

/-- An IPv6 address ends at the first bracket. -/
theorem not_bracket_v6Text (a : Addr) : ']' ∉ v6Text a := by
  intro hc
  rcases mem_v6Text hc with hc | hc | hc | hc
  all_goals exact absurd hc (by decide)

/-- An IPv4 address ends at the first colon. -/
theorem not_colon_v4Text (a : Addr) : ':' ∉ v4Text a := by
  intro hc
  rcases mem_v4Text hc with hc | hc | hc
  all_goals exact absurd hc (by decide)

/-- Only the text of an IPv6 tuple starts with a bracket. -/
theorem v6_ne_v4 (h : HasPorts tuple) (h' : HasPorts tuple') (h6 : tuple.l3Proto = ethPIpv6)
    (h6' : tuple'.l3Proto ≠ ethPIpv6) : formatTuple tuple ≠ formatTuple tuple' := by
  intro heq
  rw [formatTuple_v6 h h6, formatTuple_v4 h' h6'] at heq
  have hne : v4Text tuple'.saddr ≠ [] := by
    unfold v4Text inetNtop4
    split
    next => simp
    next => decide
  obtain ⟨c, s, hs⟩ := List.exists_cons_of_ne_nil hne
  rw [hs] at heq
  have hc : '[' = c := List.head_eq_of_cons_eq heq
  rcases mem_v4Text (hs ▸ List.mem_cons_self) with hc' | hc' | hc'
  all_goals exact absurd (hc ▸ hc') (by decide)

theorem portsText_congr {pre behind between : List Char} (hsport : tuple.sport = tuple'.sport)
    (hdport : tuple.dport = tuple'.dport) (hproto : tuple.l4Proto = tuple'.l4Proto) :
    portsText pre behind between z s d tuple = portsText pre behind between z s d tuple' := by
  unfold portsText protoTag
  rw [hsport, hdport, hproto]

/-- **The text tells all but the flags.** -/
theorem formatTuple_eq_iff (h : HasPorts tuple) (h' : HasPorts tuple') :
    formatTuple tuple = formatTuple tuple' ↔ SameEnds tuple tuple' := by
  by_cases h6 : tuple.l3Proto = ethPIpv6
  · by_cases h6' : tuple'.l3Proto = ethPIpv6
    · rw [formatTuple_v6 h h6, formatTuple_v6 h' h6']
      constructor
      · intro htext
        obtain ⟨hs, hd, hsport, hdport, hname⟩ := portsText_inj (not_bracket_v6Text _)
          (not_bracket_v6Text _) (not_bracket_v6Text _) (not_bracket_v6Text _) htext
        exact ⟨h6.trans h6'.symm, (if_pos h6).mpr (v6Text_inj hs), (if_pos h6).mpr (v6Text_inj hd),
          hsport, hdport, h.name_inj h' hname⟩
      · intro hsame
        have hs : tuple.saddr = tuple'.saddr := (if_pos h6).mp hsame.saddr
        have hd : tuple.daddr = tuple'.daddr := (if_pos h6).mp hsame.daddr
        rw [hs, hd]
        exact portsText_congr hsame.sport hsame.dport hsame.l4Proto
    · exact iff_of_false (v6_ne_v4 h h' h6 h6') fun hsame => h6' (hsame.l3Proto ▸ h6)
  · by_cases h6' : tuple'.l3Proto = ethPIpv6
    · exact iff_of_false (v6_ne_v4 h' h h6' h6).symm fun hsame => h6 (hsame.l3Proto.trans h6')
    · rw [formatTuple_v4 h h6, formatTuple_v4 h' h6']
      constructor
      · intro htext
        obtain ⟨hs, hd, hsport, hdport, hname⟩ := portsText_inj (not_colon_v4Text _)
          (not_colon_v4Text _) (not_colon_v4Text _) (not_colon_v4Text _) htext
        exact ⟨h.l3_v4 h6 ▸ (h'.l3_v4 h6').symm, (if_neg h6).mpr (v4Text_inj hs),
          (if_neg h6).mpr (v4Text_inj hd), hsport, hdport, h.name_inj h' hname⟩
      · intro hsame
        have hs : tuple.saddr.v4addr = tuple'.saddr.v4addr := (if_neg h6).mp hsame.saddr
        have hd : tuple.daddr.v4addr = tuple'.daddr.v4addr := (if_neg h6).mp hsame.daddr
        rw [v4Text_congr hs, v4Text_congr hd]
        exact portsText_congr hsame.sport hsame.dport hsame.l4Proto

/-- **The text of a tuple loses the TCP flags and nothing else.** -/
theorem lossless_iff (tuple tuple' : SkbTuple) (h : HasPorts tuple) (h' : HasPorts tuple') :
    Lossless tuple tuple' ↔
      ¬ (SameEnds tuple tuple' ∧ tuple.l4Proto = ipprotoTcp ∧
        tuple.tcpFlags ≠ tuple'.tcpFlags) := by
  unfold Lossless
  rw [formatTuple_eq_iff h h']
  constructor
  · intro hlossless ⟨hsame, htcp, hflags⟩
    exact hflags ((hlossless hsame).2 htcp)
  · intro hflags hsame
    refine ⟨hsame, fun htcp => ?_⟩
    by_contra hne
    exact hflags ⟨hsame, htcp, hne⟩

/-- A TCP packet from 10.0.0.1 port 443 to 10.0.0.2 port 40000. -/
def tcpTuple (flags : Byte) : SkbTuple where
  saddr := { d1 := 0x0100000a, d2 := 0 }
  daddr := { d1 := 0x0200000a, d2 := 0 }
  sport := htons 443
  dport := htons 40000
  l3Proto := ethPIp
  l4Proto := ipprotoTcp
  tcpFlags := flags

theorem tcpTuple_hasPorts (flags : Byte) : HasPorts (tcpTuple flags) :=
  ⟨Or.inl rfl, Or.inl rfl⟩

/-- Two tuples that differ in a port are told apart, and two that differ in the flags only
are not. -/
theorem lossless_iff_tcp :
    Lossless (tcpTuple 2) { tcpTuple 2 with dport := htons 40001 } ∧
      ¬ Lossless (tcpTuple 16) (tcpTuple 17) := by
  constructor
  · rw [lossless_iff _ _ (tcpTuple_hasPorts 2) ⟨Or.inl rfl, Or.inl rfl⟩]
    rintro ⟨hsame, -⟩
    exact absurd hsame.dport (by decide)
  · rw [lossless_iff _ _ (tcpTuple_hasPorts 16) (tcpTuple_hasPorts 17), not_not]
    exact ⟨⟨rfl, rfl, rfl, rfl, rfl, rfl⟩, rfl, by decide⟩

/-- A SYN and a RST. -/
theorem flags_not_shown :
    HasPorts (tcpTuple 2) ∧ HasPorts (tcpTuple 4) ∧
      formatTuple (tcpTuple 2) = "10.0.0.1:443 -> 10.0.0.2:40000 [TCP]".toList ∧
      formatTuple (tcpTuple 4) = formatTuple (tcpTuple 2) ∧
      (tcpTuple 2).tcpFlags ≠ (tcpTuple 4).tcpFlags ∧ ¬ Lossless (tcpTuple 2) (tcpTuple 4) := by
  have htext : formatTuple (tcpTuple 2) = "10.0.0.1:443 -> 10.0.0.2:40000 [TCP]".toList := by
    decide
  refine ⟨tcpTuple_hasPorts 2, tcpTuple_hasPorts 4, htext, rfl, by decide, fun hlossless => ?_⟩
  exact absurd ((hlossless rfl).2 rfl) (by decide)

end SkbTracer.Output
