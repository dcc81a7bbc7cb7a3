import SkbTracer.Kprobe.SkBuff
import SkbTracer.Pcap2Bpf.Simulation
import SkbTracer.Trace.PcapFilters

/-!
# From the expression to the verdict of `filter_pcap`

`filter_pcap` calls the stub for the packet's outermost header: the L3 stub with
the bounds from the network header on if the packet has no link-layer header, the
L2 stub with those from the link-layer header on otherwise. The bodies of the
stubs have been replaced by the filters that `prepare_pcap_filters` stored, so a
call runs the filter that `stubFilter` selects by the stub's name.

What it is for is said without any of this. `ExprAccepts` and `ExprRejects` are about the
expression: libpcap's program for the link type accepts the packet, or rejects it, or
there is no such program. `FilterVerdict` puts the cases together, the empty expression
and the two kinds of packets.

- `storedFilter_runs`: one stored filter on one packet, either the converted program or
  the constant one; the compiler's theorem is used here and nowhere else;
- `callStub_verdict`: the call of a stub, which turns the result into a `bool`;
- `filter_pcap_verdict`: the whole way, for every pair of outcomes of the two
  compilations.

libpcap is a parameter. Its programs are as it promises (`PcapValid`), and no longer than
65535 instructions. Helpers read memory as it is, the packet can be read and is shorter
than 2^31 bytes; where a range cannot be read the helper may answer anything. That
a stub has the stored filter in its place is the subject of `Trace.PrepareLoad`.

At the end is `ip`, with the programs libpcap has for it, on a packet of either kind.
-/

namespace SkbTracer.Kprobe

open SkbTracer.Bpf
open SkbTracer.Pcap2Bpf
open SkbTracer.Trace
open SkbTracer.Lib (Mem Res Byte run wordMem wordMem_readable)

/-! ## `filter_pcap` -/

/-- The state a stub is entered in: `skb` three times and the bounds in `R1` to
`R5`, the frame pointer in `R10`; frame and other registers as `s` has them. -/
def enterStub (skb data dataEnd : BitVec 64) (s : EbpfState) : EbpfState :=
  { s with
    pc := 0
    regs := fun r =>
      if r = 1 ∨ r = 2 ∨ r = 3 then skb
      else if r = 4 then data
      else if r = 5 then dataEnd
      else if r = 10 then s.fp
      else s.regs r }

/-- `n` steps of a call of the stub `name`; its result is a `bool`. -/
def callStub (p : Filters) (name : String) (skb data dataEnd : BitVec 64) (n : Nat)
    (ω : Nat → Helper) (s : EbpfState) : Res EbpfState Bool :=
  match run (ebpfStep (stubFilter p name.toList)) n ω (enterStub skb data dataEnd s) with
  | .next s => .next s
  | .done r => .done (r != 0)
  | .fault => .fault

section

variable (K : KernelLayout) (m : Mem) (p : Filters) (skb : BitVec 64) (n : Nat)
  (ω : Nat → Helper) (s : EbpfState)

/-- `skb_head + network_header`. -/
def networkData : BitVec 64 := skbHead K m skb + (skbNetworkHeader K m skb).setWidth 64

/-- `skb_head + mac_header`. -/
def macData : BitVec 64 := skbHead K m skb + (skbMacHeader K m skb).setWidth 64

/-- `skb_head + tail`. -/
def tailEnd : BitVec 64 := skbHead K m skb + (skbTail K m skb).setWidth 64

/-- `filter_pcap_l3`. -/
def filterPcapL3 : Res EbpfState Bool :=
  callStub p "filter_pcap_ebpf_l3" skb (networkData K m skb) (tailEnd K m skb) n ω s

/-- `filter_pcap_l2`. -/
def filterPcapL2 : Res EbpfState Bool :=
  callStub p "filter_pcap_ebpf_l2" skb (macData K m skb) (tailEnd K m skb) n ω s

/-- `filter_pcap`. -/
def filterPcap : Res EbpfState Bool :=
  if skbMacLen K m skb = 0 then filterPcapL3 K m p skb n ω s else filterPcapL2 K m p skb n ω s

end

/-! ## What it is for -/

/-- The expression fails to compile for the link type. -/
def CompileFails (pcap : Libpcap) (alloc : Bool → Bool) (expression : String) (l3 : Bool) : Prop :=
  ∃ ret insns, compileEbpfFilter pcap (alloc l3) expression l3 = .ok (ret, insns) ∧ ret ≠ 0

/-- The expression compiles for the link type, and `prog` is libpcap's program. -/
def Compiled (pcap : Libpcap) (alloc : Bool → Bool) (expression : String) (l3 : Bool)
    (prog : List SockFilter) : Prop :=
  pcap expression l3 = .program prog ∧
    ∃ insns, compileEbpfFilter pcap (alloc l3) expression l3 = .ok (0, insns)

/-- The expression compiles for the link type and accepts the packet. -/
def ExprAccepts (pcap : Libpcap) (alloc : Bool → Bool) (expression : String) (l3 : Bool)
    (pkt : List Byte) : Prop :=
  ∃ prog, Compiled pcap alloc expression l3 prog ∧ CbpfAccepts prog pkt

/-- The expression does not compile for the link type, or it rejects the packet. -/
def ExprRejects (pcap : Libpcap) (alloc : Bool → Bool) (expression : String) (l3 : Bool)
    (pkt : List Byte) : Prop :=
  ∀ prog, Compiled pcap alloc expression l3 prog → CbpfReturns prog pkt 0

/-- A helper that answers from memory; where the range cannot be read, in any way. -/
def HelperReads (m : Mem) (h : Helper) : Prop :=
  ∀ c : HelperCall, m.Readable c.src c.size.toNat →
    (h c).r0 = 0 ∧ ∀ i < c.size.toNat, (h c).bytes i = m.byte (c.src + BitVec.ofNat 64 i)

/-- The packet at `[data, dataEnd)` can be read and is shorter than 2^31 bytes. -/
structure PacketReadable (m : Mem) (data dataEnd : BitVec 64) : Prop where
  length : dataEnd.toNat - data.toNat < 2 ^ 31
  readable : m.Readable data (dataEnd.toNat - data.toNat)

/-- Such a helper copies what it is asked for inside the packet. -/
theorem HelperReads.helperOk {m : Mem} {data dataEnd : BitVec 64} {h : Helper}
    (hh : HelperReads m h) (hp : PacketReadable m data dataEnd) :
    HelperOk m.byte data dataEnd h := by
  intro c hlow hhigh
  refine hh c fun i hi => ?_
  have hat : c.src + BitVec.ofNat 64 i =
      data + BitVec.ofNat 64 (c.src.toNat - data.toNat + i) := by
    apply BitVec.eq_of_toNat_eq
    have hend := dataEnd.isLt
    rw [BitVec.toNat_add, BitVec.toNat_add, BitVec.toNat_ofNat, BitVec.toNat_ofNat]
    omega
  rw [hat]
  exact hp.readable _ (by omega)

/-! ## One stored filter -/

variable {pcap : Libpcap} {alloc : Bool → Bool} {expression : String} {l3 : Bool}
  {m : Mem} {data dataEnd : BitVec 64} {s : EbpfState} {ω : Nat → Helper}

/-- A constant filter returns its constant after two steps, whatever it is run on. -/
theorem constantFilter_done (condition : Bool) (h : s.pc = 0) (n : Nat) :
    run (ebpfStep (constantFilter condition)) (n + 2) ω s =
      .done (if condition then 1 else 0) := by
  obtain ⟨pc, regs, fp, stack⟩ := s
  cases h
  cases condition with
  | false => rfl
  | true => rfl

theorem constantFilter_next (condition : Bool) (h : s.pc = 0) :
    ∃ s', run (ebpfStep (constantFilter condition)) 1 ω s = .next s' := by
  obtain ⟨pc, regs, fp, stack⟩ := s
  cases h
  cases condition with
  | false => exact ⟨_, rfl⟩
  | true => exact ⟨_, rfl⟩

/-- The outcome of a constant filter. -/
theorem constantFilter_runs (condition : Bool) (h : s.pc = 0) :
    (∀ r, (∃ n, run (ebpfStep (constantFilter condition)) n ω s = .done r) ↔
      r = if condition then 1 else 0) ∧
      ∀ n, run (ebpfStep (constantFilter condition)) n ω s ≠ .fault := by
  obtain ⟨s', hs'⟩ := constantFilter_next (ω := ω) condition h
  constructor
  · intro r
    constructor
    · rintro ⟨n, hn⟩
      match n, hn with
      | 0, hn => cases hn
      | 1, hn => cases hs'.symm.trans hn
      | n + 2, hn => exact (Res.done.inj ((constantFilter_done condition h n).symm.trans hn)).symm
    · rintro rfl
      exact ⟨2, constantFilter_done condition h 0⟩
  · intro n hn
    match n, hn with
    | 0, hn => cases hn
    | 1, hn => cases hs'.symm.trans hn
    | n + 2, hn => cases (constantFilter_done condition h n).symm.trans hn

/-- What libpcap promises of its programs for the expression. -/
def PcapValid (pcap : Libpcap) (expression : String) : Prop :=
  ∀ l3 prog, pcap expression l3 = .program prog → CbpfValid prog ∧ prog.length ≤ 65535

/-- The two ways one compilation of a non-empty expression goes. -/
theorem compile_cases (alloc : Bool → Bool) (hne : expression ≠ "")
    (hvalid : PcapValid pcap expression) (l3 : Bool) :
    (∃ prog out, compileEbpfFilter pcap (alloc l3) expression l3 = .ok (0, out) ∧
      pcap expression l3 = .program prog ∧ CbpfValid prog ∧ Accepted prog out) ∨
    ∃ ret, compileEbpfFilter pcap (alloc l3) expression l3 = .ok (ret, []) ∧ ret ≠ 0 := by
  by_cases hp : ∃ prog, pcap expression l3 = .program prog
  · obtain ⟨prog, hp⟩ := hp
    obtain ⟨hv, hlen⟩ := hvalid l3 prog hp
    rcases compileEbpfFilter_program (alloc l3) hne hp (by omega) with ⟨out, hout, hacc⟩ | h
    · exact Or.inl ⟨prog, out, hout, hp, hv, hacc⟩
    · exact Or.inr h
  · exact Or.inr (compileEbpfFilter_failed hne fun prog h => hp ⟨prog, h⟩)

/-- One stored filter on one packet. -/
theorem storedFilter_runs (hne : expression ≠ "") (hvalid : PcapValid pcap expression)
    {c : Int × List BpfInsn} (hc : compileEbpfFilter pcap (alloc l3) expression l3 = .ok c)
    (hp : PacketReadable m data dataEnd) (hω : ∀ i, HelperReads m (ω i))
    (h₀ : EntryState data dataEnd s) :
    ((∃ n r, run (ebpfStep (storedFilter c)) n ω s = .done r ∧ r ≠ 0) ↔
      ExprAccepts pcap alloc expression l3 (packet m.byte data dataEnd)) ∧
    ((∃ n, run (ebpfStep (storedFilter c)) n ω s = .done 0) ↔
      ExprRejects pcap alloc expression l3 (packet m.byte data dataEnd)) ∧
    ∀ n, run (ebpfStep (storedFilter c)) n ω s ≠ .fault := by
  rcases compile_cases alloc hne hvalid l3 with
    ⟨prog, out, hout, hprog, hv, hacc⟩ | ⟨ret, hret, hret0⟩
  · -- the converted program
    obtain rfl := Except.ok.inj (hc.symm.trans hout)
    have hcomp : Compiled pcap alloc expression l3 prog := ⟨hprog, out, hout⟩
    have hlen : (packet m.byte data dataEnd).length < 2 ^ 31 := by
      rw [packet_length]
      exact hp.length
    obtain ⟨hdone, hfault⟩ := convert_outcome hacc hv hlen h₀ fun i => (hω i).helperOk hp
    rw [storedFilter_ok]
    refine ⟨⟨?_, ?_⟩, ⟨?_, ?_⟩, hfault⟩
    · rintro ⟨n, r, hn, hr⟩
      obtain ⟨v, hret, rfl⟩ := (hdone r).mp ⟨n, hn⟩
      exact ⟨prog, hcomp, v, hret, fun h0 => hr (verdict_eq_zero.mpr h0)⟩
    · rintro ⟨prog', ⟨hprog', -⟩, v, hret, hv0⟩
      obtain rfl := PcapOutcome.program.inj (hprog.symm.trans hprog')
      obtain ⟨n, hn⟩ := (hdone (verdict v)).mpr ⟨v, hret, rfl⟩
      exact ⟨n, _, hn, fun h0 => hv0 (verdict_eq_zero.mp h0)⟩
    · -- the result 0 is the verdict of the one program there is
      rintro hn prog' ⟨hprog', -⟩
      obtain rfl := PcapOutcome.program.inj (hprog.symm.trans hprog')
      obtain ⟨v, hret, h0⟩ := (hdone 0).mp hn
      exact verdict_eq_zero.mp h0.symm ▸ hret
    · intro hrej
      exact (hdone 0).mpr ⟨0, hrej prog hcomp, rfl⟩
  · -- the constant filter
    obtain rfl := Except.ok.inj (hc.symm.trans hret)
    have hnot : ∀ prog, ¬ Compiled pcap alloc expression l3 prog := by
      rintro prog ⟨-, insns, hinsns⟩
      exact hret0 (Prod.mk.inj (Except.ok.inj (hret.symm.trans hinsns))).1
    obtain ⟨hdone, hfault⟩ := constantFilter_runs (ω := ω) false h₀.pc
    rw [storedFilter_failed hret0]
    refine ⟨⟨?_, ?_⟩, ⟨?_, ?_⟩, hfault⟩
    · rintro ⟨n, r, hn, hr⟩
      exact absurd ((hdone r).mp ⟨n, hn⟩) hr
    · rintro ⟨prog, hcomp, -⟩
      exact absurd hcomp (hnot prog)
    · intro _ prog hcomp
      exact absurd hcomp (hnot prog)
    · intro _
      exact (hdone 0).mpr rfl

/-! ## `filter_pcap` -/

section

variable {p : Filters} {name : String} {skb : BitVec 64}

/-- A stub is entered as the converted filters expect. -/
theorem enterStub_entry : EntryState data dataEnd (enterStub skb data dataEnd s) :=
  ⟨rfl, rfl, rfl, rfl⟩

/-- A call of a stub returns `true` where its body returns something. -/
theorem callStub_true :
    (∃ n, callStub p name skb data dataEnd n ω s = .done true) ↔
      ∃ n r, run (ebpfStep (stubFilter p name.toList)) n ω (enterStub skb data dataEnd s) =
        .done r ∧ r ≠ 0 := by
  unfold callStub
  constructor
  · rintro ⟨n, hn⟩
    split at hn
    next => cases hn
    next r hr => exact ⟨n, r, hr, by simpa using Res.done.inj hn⟩
    next => cases hn
  · rintro ⟨n, r, hr, hr0⟩
    refine ⟨n, ?_⟩
    rw [hr]
    simpa using hr0

/-- And `false` where it returns 0. -/
theorem callStub_false :
    (∃ n, callStub p name skb data dataEnd n ω s = .done false) ↔
      ∃ n, run (ebpfStep (stubFilter p name.toList)) n ω (enterStub skb data dataEnd s) =
        .done 0 := by
  unfold callStub
  constructor
  · rintro ⟨n, hn⟩
    split at hn
    next => cases hn
    next r hr =>
      have h0 : r = 0 := by simpa using Res.done.inj hn
      exact ⟨n, h0 ▸ hr⟩
    next => cases hn
  · rintro ⟨n, hn⟩
    refine ⟨n, ?_⟩
    rw [hn]
    rfl

/-- It faults where its body does. -/
theorem callStub_fault {n : Nat}
    (h : run (ebpfStep (stubFilter p name.toList)) n ω (enterStub skb data dataEnd s) ≠ .fault) :
    callStub p name skb data dataEnd n ω s ≠ .fault := by
  unfold callStub
  split
  next => exact fun h => by cases h
  next => exact fun h => by cases h
  next hf => exact absurd hf h

end

/-- What a call of a stub on a packet must come to. -/
structure StubVerdict (pcap : Libpcap) (alloc : Bool → Bool) (expression : String) (l3 : Bool)
    (pkt : List Byte) (call : Nat → Res EbpfState Bool) : Prop where
  accepts : (∃ n, call n = .done true) ↔ ExprAccepts pcap alloc expression l3 pkt
  rejects : (∃ n, call n = .done false) ↔ ExprRejects pcap alloc expression l3 pkt
  noFault : ∀ n, call n ≠ .fault

/-- So the call of a stub that has a stored filter comes to what the filter says. -/
theorem callStub_verdict (p : Filters) (name : String) (skb : BitVec 64) (s : EbpfState)
    {c : Int × List BpfInsn} (hne : expression ≠ "") (hvalid : PcapValid pcap expression)
    (hc : compileEbpfFilter pcap (alloc l3) expression l3 = .ok c)
    (hname : stubFilter p name.toList = storedFilter c)
    (hp : PacketReadable m data dataEnd) (hω : ∀ i, HelperReads m (ω i)) :
    StubVerdict pcap alloc expression l3 (packet m.byte data dataEnd)
      (fun n => callStub p name skb data dataEnd n ω s) := by
  obtain ⟨haccepts, hrejects, hfault⟩ :=
    storedFilter_runs hne hvalid hc hp hω (s := enterStub skb data dataEnd s) enterStub_entry
  rw [← hname] at haccepts hrejects hfault
  exact ⟨callStub_true.trans haccepts, callStub_false.trans hrejects,
    fun n => callStub_fault (hfault n)⟩

/-- What `filter_pcap` must come to on an skb, once the filters `p` are in place. -/
structure FilterVerdict (pcap : Libpcap) (alloc : Bool → Bool) (expression : String)
    (K : KernelLayout) (m : Mem) (p : Filters) (skb : BitVec 64) (ω : Nat → Helper)
    (s : EbpfState) : Prop where
  empty : expression = "" → (∃ n, filterPcap K m p skb n ω s = .done true) ∧
    (∀ n, filterPcap K m p skb n ω s ≠ .done false) ∧ ∀ n, filterPcap K m p skb n ω s ≠ .fault
  raw : expression ≠ "" → skbMacLen K m skb = 0 → (∀ i, HelperReads m (ω i)) →
    PacketReadable m (networkData K m skb) (tailEnd K m skb) →
    StubVerdict pcap alloc expression true
      (packet m.byte (networkData K m skb) (tailEnd K m skb)) fun n => filterPcap K m p skb n ω s
  ethernet : expression ≠ "" → skbMacLen K m skb ≠ 0 → (∀ i, HelperReads m (ω i)) →
    PacketReadable m (macData K m skb) (tailEnd K m skb) →
    StubVerdict pcap alloc expression false
      (packet m.byte (macData K m skb) (tailEnd K m skb)) fun n => filterPcap K m p skb n ω s

/-- A compilation comes to a result. -/
theorem compile_total (alloc : Bool → Bool) (hvalid : PcapValid pcap expression) (l3 : Bool) :
    ∃ c, compileEbpfFilter pcap (alloc l3) expression l3 = .ok c := by
  by_cases hne : expression = ""
  · rw [hne]
    exact ⟨_, compileEbpfFilter_empty⟩
  · rcases compile_cases alloc hne hvalid l3 with ⟨prog, out, hout, -⟩ | ⟨ret, hret, -⟩
    · exact ⟨_, hout⟩
    · exact ⟨_, hret⟩

/-- To fail is to return an error code. -/
theorem compileFails_iff (alloc : Bool → Bool) {c : Int × List BpfInsn}
    (hc : compileEbpfFilter pcap (alloc l3) expression l3 = .ok c) :
    CompileFails pcap alloc expression l3 ↔ c.1 ≠ 0 := by
  constructor
  · rintro ⟨ret, insns, hret, h0⟩
    rwa [Except.ok.inj (hc.symm.trans hret)]
  · intro h0
    exact ⟨c.1, c.2, hc, h0⟩

/-- With the constant filter in the place of both stubs everything is accepted. -/
theorem filterPcap_constant {K : KernelLayout} {p : Filters} {skb : BitVec 64}
    (h2 : p.filterPcapL2 = constantFilter true) (h3 : p.filterPcapL3 = constantFilter true) :
    (∃ n, filterPcap K m p skb n ω s = .done true) ∧
      (∀ n, filterPcap K m p skb n ω s ≠ .done false) ∧
      ∀ n, filterPcap K m p skb n ω s ≠ .fault := by
  have hcall : ∀ name data dataEnd, stubFilter p (String.toList name) = constantFilter true →
      (∃ n, callStub p name skb data dataEnd n ω s = .done true) ∧
        (∀ n, callStub p name skb data dataEnd n ω s ≠ .done false) ∧
        ∀ n, callStub p name skb data dataEnd n ω s ≠ .fault := by
    intro name data dataEnd hname
    obtain ⟨hdone, hfault⟩ := constantFilter_runs (s := enterStub skb data dataEnd s) (ω := ω)
      true rfl
    rw [← hname] at hdone hfault
    refine ⟨callStub_true.mpr ?_, fun n hn => ?_, fun n => callStub_fault (hfault n)⟩
    · obtain ⟨n, hn⟩ := (hdone 1).mpr rfl
      exact ⟨n, 1, hn, by decide⟩
    · exact absurd ((hdone 0).mp (callStub_false.mp ⟨n, hn⟩)) (by decide)
  unfold filterPcap filterPcapL3 filterPcapL2
  split
  next => exact hcall _ _ _ h3
  next => exact hcall _ _ _ h2

/-- The two compilations, once at least one of them has succeeded. -/
theorem filterVerdict_stored (alloc : Bool → Bool) {l2 l3 : Int × List BpfInsn}
    (hvalid : PcapValid pcap expression)
    (h2 : compileEbpfFilter pcap (alloc false) expression false = .ok l2)
    (h3 : compileEbpfFilter pcap (alloc true) expression true = .ok l3) (K : KernelLayout)
    (m : Mem) (skb : BitVec 64) (ω : Nat → Helper) (s : EbpfState) :
    FilterVerdict pcap alloc expression K m
      { filterPcapL2 := storedFilter l2, filterPcapL3 := storedFilter l3 } skb ω s := by
  refine ⟨fun hempty => ?_, ?_, ?_⟩
  · subst hempty
    obtain rfl := Except.ok.inj (h2.symm.trans compileEbpfFilter_empty)
    obtain rfl := Except.ok.inj (h3.symm.trans compileEbpfFilter_empty)
    exact filterPcap_constant rfl rfl
  · intro hne hmac hω hp
    have hcall := callStub_verdict ⟨storedFilter l2, storedFilter l3⟩ "filter_pcap_ebpf_l3" skb s
      hne hvalid h3 rfl hp hω
    simpa only [filterPcap, if_pos hmac, filterPcapL3] using hcall
  · intro hne hmac hω hp
    have hcall := callStub_verdict ⟨storedFilter l2, storedFilter l3⟩ "filter_pcap_ebpf_l2" skb s
      hne hvalid h2 rfl hp hω
    simpa only [filterPcap, if_neg hmac, filterPcapL2] using hcall

/-- **The verdict, end to end.** `prepare_pcap_filters` fails exactly when the
expression compiles for neither link type, and leaves the filters alone then.
Otherwise `filter_pcap` accepts every packet if the expression is empty; an skb
without link-layer header exactly when the program for raw IP accepts the bytes
from its network header on; any other exactly when the program for Ethernet
accepts the bytes from its link-layer header on. -/
theorem filter_pcap_verdict (alloc : Bool → Bool) (hvalid : PcapValid pcap expression)
    (p : Filters) :
    ∃ ret p', preparePcapFilters pcap alloc p expression = .ok (ret, p') ∧
      (ret ≠ 0 ↔ CompileFails pcap alloc expression false ∧
        CompileFails pcap alloc expression true) ∧
      (ret ≠ 0 → p' = p) ∧
      (ret = 0 → ∀ K m skb ω s, FilterVerdict pcap alloc expression K m p' skb ω s) := by
  obtain ⟨l2, h2⟩ := compile_total alloc hvalid false
  obtain ⟨l3, h3⟩ := compile_total alloc hvalid true
  rw [preparePcapFilters_eq h2 h3, compileFails_iff alloc h2, compileFails_iff alloc h3]
  by_cases hfail : l2.1 ≠ 0 ∧ l3.1 ≠ 0
  · rw [if_pos hfail]
    exact ⟨l2.1, p, rfl, ⟨fun _ => hfail, fun h => h.1⟩, fun _ => rfl,
      fun h => absurd h hfail.1⟩
  · rw [if_neg hfail]
    exact ⟨0, _, rfl, ⟨fun h => absurd rfl h, fun h => absurd h hfail⟩,
      fun h => absurd rfl h, fun _ => filterVerdict_stored alloc hvalid h2 h3⟩

/-! ## The expression `ip` -/

/-- `ip` as libpcap compiles it for raw IP: the version in the first byte is 4. -/
def ipRaw : List SockFilter :=
  [⟨0x30, 0, 0, 0⟩, ⟨0x54, 0, 0, 0xf0⟩, ⟨0x15, 0, 1, 0x40⟩, ⟨0x06, 0, 0, 262144⟩, ⟨0x06, 0, 0, 0⟩]

/-- `ip` as libpcap compiles it for Ethernet: the type of the frame is 0x800. -/
def ipEthernet : List SockFilter :=
  [⟨0x28, 0, 0, 12⟩, ⟨0x15, 0, 1, 0x800⟩, ⟨0x06, 0, 0, 262144⟩, ⟨0x06, 0, 0, 0⟩]

/-- libpcap, as far as the expression `ip` goes. -/
def ipPcap : Libpcap := fun _ l3 => .program (if l3 then ipRaw else ipEthernet)

/-- Both are as libpcap promises. -/
theorem ipRaw_valid : CbpfValid ipRaw where
  scratch := by decide
  divisor := by
    intro fp hfp op _ hop
    have hcases : ∀ fp ∈ ipRaw, fp.k ≠ 0 ∨ fp.op = some (.ldAbs .b) ∨ fp.op = some .retK := by
      decide
    rcases hcases fp hfp with h | h | h
    · exact h
    · cases h.symm.trans hop
    · cases h.symm.trans hop
  shift := by decide
  ret := ⟨_, rfl, Or.inr rfl⟩
  init := scratchInitialised_of_unused (by decide)

theorem ipEthernet_valid : CbpfValid ipEthernet where
  scratch := by decide
  divisor := by
    intro fp hfp op _ hop
    have hcases : ∀ fp ∈ ipEthernet, fp.k ≠ 0 ∨ fp.op = some .retK := by decide
    rcases hcases fp hfp with h | h
    · exact h
    · cases h.symm.trans hop
  shift := by decide
  ret := ⟨_, rfl, Or.inr rfl⟩
  init := scratchInitialised_of_unused (by decide)

theorem ipPcap_valid (expression : String) : PcapValid ipPcap expression := by
  intro l3 prog h
  obtain rfl := PcapOutcome.program.inj h
  cases l3 with
  | false => exact ⟨ipEthernet_valid, by decide⟩
  | true => exact ⟨ipRaw_valid, by decide⟩

theorem ipRaw_compiled : Compiled ipPcap (fun _ => true) "ip" true ipRaw := ⟨rfl, _, rfl⟩

theorem ipEthernet_compiled : Compiled ipPcap (fun _ => true) "ip" false ipEthernet :=
  ⟨rfl, _, rfl⟩

/-- The filters of `ip` are made. -/
theorem ipPcap_prepared (p : Filters) :
    ∃ p', preparePcapFilters ipPcap (fun _ => true) p "ip" = .ok (0, p') := by
  obtain ⟨-, _, h2⟩ := ipEthernet_compiled
  obtain ⟨-, _, h3⟩ := ipRaw_compiled
  exact ⟨_, (preparePcapFilters_eq h2 h3).trans (if_neg fun h => h.1 rfl)⟩

/-- `w` has an skb at 0x1000 whose packet is the 20 bytes at 0x2000, without a
link-layer header. -/
structure RawSkb (w : Nat → Nat) : Prop where
  head : w 512 = 0x2000
  tail : w 513 = 20
  networkHeader : w 514 = 0
  macLen : w 516 = 0

section

variable {w : Nat → Nat}

theorem RawSkb.noMac (h : RawSkb w) : skbMacLen plainLayout (wordMem w) 0x1000 = 0 := by
  rw [skbMacLen, field_wordMem (k := 516) rfl (by decide) (by decide), h.macLen]
  rfl

theorem RawSkb.start (h : RawSkb w) : networkData plainLayout (wordMem w) 0x1000 = 0x2000 := by
  rw [networkData, skbHead, skbNetworkHeader,
    field_wordMem (k := 512) rfl (by decide) (by decide),
    field_wordMem (k := 514) rfl (by decide) (by decide), h.head, h.networkHeader]
  rfl

theorem RawSkb.stop (h : RawSkb w) : tailEnd plainLayout (wordMem w) 0x1000 = 0x2014 := by
  rw [tailEnd, skbHead, skbTail, field_wordMem (k := 512) rfl (by decide) (by decide),
    field_wordMem (k := 513) rfl (by decide) (by decide), h.head, h.tail]
  rfl

/-- So its packet can be read. -/
theorem RawSkb.readable (h : RawSkb w) : PacketReadable (wordMem w)
    (networkData plainLayout (wordMem w) 0x1000) (tailEnd plainLayout (wordMem w) 0x1000) := by
  rw [h.start, h.stop]
  exact ⟨by decide, wordMem_readable _ _ _⟩

end

/-- The helper answers from memory. -/
theorem helperReads_copying (m : Mem) : HelperReads m (Helper.copying m.byte fun _ => 0) :=
  fun _ _ => ⟨rfl, fun _ _ => rfl⟩

/-- The 20 bytes are an IPv4 header. -/
def rawWords : Nat → Nat := fun k =>
  if k = 512 then 0x2000 else if k = 513 then 20 else if k = 1024 then 0x45 else 0

theorem rawWords_rawSkb : RawSkb rawWords := ⟨rfl, rfl, rfl, rfl⟩

/-- The program for raw IP accepts them. -/
theorem ipRaw_accepts : ExprAccepts ipPcap (fun _ => true) "ip" true
    (packet (wordMem rawWords).byte (networkData plainLayout (wordMem rawWords) 0x1000)
      (tailEnd plainLayout (wordMem rawWords) 0x1000)) := by
  rw [rawWords_rawSkb.start, rawWords_rawSkb.stop]
  exact ⟨ipRaw, ipRaw_compiled, 262144, ⟨5, rfl⟩, by decide⟩

/-- An skb at 0x1000 whose packet is the frame of 42 bytes at 0x2000, an ARP request. -/
def arpWords : Nat → Nat := fun k =>
  if k = 512 then 0x2000
  else if k = 513 then 42
  else if k = 514 then 14
  else if k = 516 then 14
  else if k = 1025 then 0x060800000000
  else 0

theorem arpWords_start : macData plainLayout (wordMem arpWords) 0x1000 = 0x2000 := by
  rw [macData, skbHead, skbMacHeader, field_wordMem (k := 512) rfl (by decide) (by decide),
    field_wordMem (k := 515) rfl (by decide) (by decide)]
  rfl

theorem arpWords_stop : tailEnd plainLayout (wordMem arpWords) 0x1000 = 0x202a := by
  rw [tailEnd, skbHead, skbTail, field_wordMem (k := 512) rfl (by decide) (by decide),
    field_wordMem (k := 513) rfl (by decide) (by decide)]
  rfl

theorem arpWords_mac : skbMacLen plainLayout (wordMem arpWords) 0x1000 = 14 := by
  rw [skbMacLen, field_wordMem (k := 516) rfl (by decide) (by decide)]
  rfl

/-- With the expression `ip` an IPv4 packet without a link-layer header is accepted, by
the program for raw IP, and an ARP request behind one is rejected, by that for Ethernet. -/
theorem filter_pcap_verdict_ip :
    ∃ p', preparePcapFilters ipPcap (fun _ => true) ⟨[], []⟩ "ip" = .ok (0, p') ∧
      ∀ s, (∃ n, filterPcap plainLayout (wordMem rawWords) p' 0x1000 n
        (fun _ => Helper.copying (wordMem rawWords).byte fun _ => 0) s = .done true) ∧
      ∃ n, filterPcap plainLayout (wordMem arpWords) p' 0x1000 n
        (fun _ => Helper.copying (wordMem arpWords).byte fun _ => 0) s = .done false := by
  obtain ⟨ret, p', hrun, hfail, -, hverdict⟩ :=
    filter_pcap_verdict (fun _ => true) (ipPcap_valid "ip") ⟨[], []⟩
  obtain ⟨-, code, hraw⟩ := ipRaw_compiled
  have hret : ret = 0 := Decidable.byContradiction fun h =>
    (compileFails_iff (fun _ => true) hraw).mp (hfail.mp h).2 rfl
  subst hret
  refine ⟨p', hrun, fun s => ⟨?_, ?_⟩⟩
  · exact ((hverdict rfl _ _ _ _ s).raw (by decide) rawWords_rawSkb.noMac
      (fun _ => helperReads_copying _) rawWords_rawSkb.readable).accepts.mpr ipRaw_accepts
  · have hreadable : PacketReadable (wordMem arpWords)
        (macData plainLayout (wordMem arpWords) 0x1000)
        (tailEnd plainLayout (wordMem arpWords) 0x1000) := by
      rw [arpWords_start, arpWords_stop]
      exact ⟨by decide, wordMem_readable _ _ _⟩
    refine ((hverdict rfl _ _ _ _ s).ethernet (by decide) (by rw [arpWords_mac]; decide)
      (fun _ => helperReads_copying _) hreadable).rejects.mpr ?_
    rw [arpWords_start, arpWords_stop]
    rintro prog ⟨hprog, -⟩
    obtain rfl := PcapOutcome.program.inj hprog
    exact ⟨4, rfl⟩

end SkbTracer.Kprobe
