import SkbTracer.Trace.Init
import SkbTracer.Trace.Run

/-!
# The packets that are traced

`TraceMgr::init` compiles the filter expression and puts it into the programs. They are hit
on any processor, and what passes goes through the ring buffer to the printer.

`Accepts` is what the expression says of a packet: the verdict of libpcap's own program,
as classic BPF defines it, for the outermost header that the sk_buff has; the empty
expression accepts all. `Readable` is when this can be compared: the helpers read what is
there, and the packet is where the sk_buff says.

- `hit_event_iff`: what the event of a hit has to do with the sk_buff it looked at.
- `filterPcap_iff`: the filter in the programs passes what the expression accepts.
- `init_verdict`: that the filters after `init` are those of the expression. This rests on
  `filterVerdict_stored`, and below it on the conversion from classic BPF.
- `traced_packets`: both ends, for every run after a start without error. Whatever is
  printed is of an sk_buff whose packet the expression accepts; and an sk_buff with such a
  packet that passes the configuration gets its record, if there is room, and keeps its
  place in the order.

libpcap is a parameter, and its programs are assumed to be ones that it may return
(`PcapValid`). `ipPcap` has the two programs that it does return for the expression `ip`.
-/

namespace SkbTracer.App

open SkbTracer.Bpf (EbpfState Helper)
open SkbTracer.Cfg (Args initArgs)
open SkbTracer.Kprobe
open SkbTracer.Lib (Byte Mem Res RingBuffer RecordRing run_done_le wordMem)
open SkbTracer.Pcap2Bpf
open SkbTracer.Trace

/-! ## What a hit is about -/

/-- The register that each program takes its sk_buff from. -/
def progRegs : List (String × (PtRegs → BitVec 64)) :=
  [("kprobe_skb_1", PtRegs.parm1), ("kprobe_skb_2", PtRegs.parm2), ("kprobe_skb_3", PtRegs.parm3),
    ("kprobe_skb_4", PtRegs.parm4), ("kprobe_skb_5", PtRegs.parm5)]

/-- The sk_buff that the program of a hit looks at. -/
def hitSkb (hit : Hit) : Option (BitVec 64) :=
  (progRegs.lookup hit.link.prog).map fun parm => parm hit.call.ctx

/-- Where the bytes start that the filter is given: at the outermost header. -/
def filterStart (K : KernelLayout) (m : Mem) (skb : BitVec 64) : BitVec 64 :=
  if skbMacLen K m skb = 0 then networkData K m skb else macData K m skb

/-- The packet can be read, and the helpers read. -/
structure Readable (K : KernelLayout) (hit : Hit) (skb : BitVec 64) : Prop where
  helpers : ∀ i, HelperReads hit.mem (hit.ω i)
  packet : PacketReadable hit.mem (filterStart K hit.mem skb) (tailEnd K hit.mem skb)

/-- The expression accepts the packet, as one with or without a link-layer header. -/
def Accepts (pcap : Libpcap) (alloc : Bool → Bool) (expression : String) (K : KernelLayout)
    (m : Mem) (skb : BitVec 64) : Prop :=
  expression = "" ∨ ExprAccepts pcap alloc expression (skbMacLen K m skb = 0)
    (packet m.byte (filterStart K m skb) (tailEnd K m skb))

variable {ρ : Type} [RingBuffer ρ (List Byte)] {K : KernelLayout} {cfg : SkbConfig} {p : Filters}
  {past : List Act} {t : Tracer ρ} {hit : Hit} {reserved : Option SkbEvent} {event : SkbEvent}
  {skb : BitVec 64} {pcap : Libpcap} {alloc : Bool → Bool} {expression : String}

theorem skelProgs_lookup (K : KernelLayout) (m : Mem) (cfg : SkbConfig) (p : Filters)
    (prog : String) : (skelProgs K m cfg p).lookup prog =
      (progRegs.lookup prog).map (addKprobe K m cfg p) := by
  have hprogs : skelProgs K m cfg p =
      progRegs.map fun e => (e.1, addKprobe K m cfg p e.2) := rfl
  rw [hprogs]
  generalize progRegs = regs
  induction regs with
  | nil => rfl
  | cons e regs ih =>
    rw [List.map_cons, List.lookup_cons, List.lookup_cons, ih]
    split <;> rfl

/-- A hit has an event if `kprobe_skb` submits one for its sk_buff. -/
theorem hit_event_iff : hit.event K cfg p reserved = some event ↔ ∃ skb r,
    hitSkb hit = some skb ∧
      kprobeSkb K hit.mem cfg p skb hit.env reserved hit.n hit.ω hit.s = .done (r, some event) := by
  unfold Hit.event hitSkb
  rw [skelProgs_lookup]
  rcases progRegs.lookup hit.link.prog with _ | parm
  · exact ⟨fun h => (by cases h), fun ⟨_, _, h, _⟩ => (by cases h)⟩
  · rw [Option.map_some, Option.map_some]
    dsimp only
    rw [show addKprobe K hit.mem cfg p parm hit.call.ctx =
      kprobeSkb K hit.mem cfg p (parm hit.call.ctx) from rfl]
    constructor
    · intro h
      split at h
      next r e hdone =>
        cases h
        exact ⟨_, r, rfl, hdone⟩
      next => cases h
    · rintro ⟨skb, r, hskb, hdone⟩
      cases hskb
      rw [hdone]

/-! ## The filter -/

/-- What `filter_pcap` comes to, in the words of the expression. -/
theorem filterPcap_iff (hv : FilterVerdict pcap alloc expression K hit.mem p skb hit.ω hit.s)
    (hread : Readable K hit skb) :
    (∃ n, filterPcap K hit.mem p skb n hit.ω hit.s = .done true) ↔
      Accepts pcap alloc expression K hit.mem skb := by
  unfold Accepts
  by_cases hempty : expression = ""
  · exact iff_of_true (hv.empty hempty).1 (Or.inl hempty)
  have hpacket := hread.packet
  rw [or_iff_right hempty]
  unfold filterStart at hpacket ⊢
  by_cases hmac : skbMacLen K hit.mem skb = 0
  · rw [if_pos hmac] at hpacket
    rw [if_pos hmac, decide_eq_true hmac]
    exact (hv.raw hempty hmac hread.helpers hpacket).accepts
  · rw [if_neg hmac] at hpacket
    rw [if_neg hmac, decide_eq_false hmac]
    exact (hv.ethernet hempty hmac hread.helpers hpacket).accepts

theorem filterPcap_le {m : Mem} {n n' : Nat} {ω : Nat → Helper} {s : EbpfState} {b : Bool}
    (h : filterPcap K m p skb n ω s = .done b) (hn : n ≤ n') :
    filterPcap K m p skb n' ω s = .done b := by
  have hcall : ∀ name data dataEnd, callStub p name skb data dataEnd n ω s = .done b →
      callStub p name skb data dataEnd n' ω s = .done b := by
    intro name data dataEnd h
    unfold callStub at h ⊢
    split at h
    next => cases h
    next r hrun =>
      rw [run_done_le hrun hn]
      exact h
    next => cases h
  unfold filterPcap filterPcapL3 filterPcapL2 at h ⊢
  split
  next hmac =>
    rw [if_pos hmac] at h
    exact hcall _ _ _ h
  next hmac =>
    rw [if_neg hmac] at h
    exact hcall _ _ _ h

/-- After a start without error the filter of the programs is the expression. -/
theorem init_verdict {load attach : Int} {p₀ : Filters} {cfg₀ : SkbConfig} {args : Args}
    (hvalid : PcapValid pcap args.filterPcap)
    (h : init pcap alloc load attach p₀ cfg₀ args = .ok (0, p, cfg)) (m : Mem) (skb : BitVec 64)
    (ω : Nat → Helper) (s : EbpfState) :
    FilterVerdict pcap alloc args.filterPcap K m p skb ω s := by
  obtain ⟨hprep, -⟩ := init_ok.mp h
  obtain ⟨l2, h2⟩ := compile_total alloc hvalid false
  obtain ⟨l3, h3⟩ := compile_total alloc hvalid true
  rw [preparePcapFilters_eq h2 h3] at hprep
  split at hprep
  next hfail =>
    -- both compilations failed, and the error is not 0
    exact absurd (congrArg Prod.fst (Except.ok.inj hprep)) hfail.1
  next =>
    cases hprep
    exact filterVerdict_stored alloc hvalid h2 h3 K m skb ω s

/-! ## Every run -/

/-- **The packets that are traced.** Take a start of the tracer without error and any run
from it. Every event printed is that of a hit, and tells of the sk_buff that its program
looked at: if the packet could be read, the expression accepts it; it passed the
comparisons of `filter_meta`, and the metadata and the tuple are its own. Conversely an
sk_buff that is accepted and passes gets a record whenever there is room for one, at the
end of the order in which the events are printed. -/
theorem traced_packets {load attach : Int} {p₀ : Filters} {cfg₀ : SkbConfig} {args : Args}
    (hvalid : PcapValid pcap args.filterPcap)
    (hinit : init pcap alloc load attach p₀ cfg₀ args = .ok (0, p, cfg))
    (hreach : Reaches K cfg p past t) :
    (∀ event ∈ t.printed, ∃ hit reserved skb prior, .hit hit reserved ∈ past ∧
      hitSkb hit = some skb ∧ event.skbAddr = skb ∧ event = setOutput K hit.mem skb prior ∧
      filterMeta K hit.mem cfg skb = true ∧
      (Readable K hit skb → Accepts pcap alloc args.filterPcap K hit.mem skb)) ∧
    ∀ hit prior skb, hitSkb hit = some skb → Readable K hit skb →
      Accepts pcap alloc args.filterPcap K hit.mem skb → filterMeta K hit.mem cfg skb = true →
      ∃ n, ∀ n' ≥ n, ∃ event, event.skbAddr = skb ∧
        reservations K cfg p (.hit { hit with n := n' } (some prior) :: past) =
          reservations K cfg p past ++ [event] := by
  constructor
  · intro event hmem
    obtain ⟨hit, reserved, hhit, hevent⟩ := printed_of_hit hreach hmem
    obtain ⟨skb, r, hskb, hdone⟩ := hit_event_iff.mp hevent
    obtain ⟨prior, -, hpcap, hmeta, -, rfl⟩ := kprobeSkb_submits.mp hdone
    exact ⟨hit, reserved, skb, _, hhit, hskb, rfl, rfl, hmeta, fun hread =>
      (filterPcap_iff (init_verdict hvalid hinit _ _ _ _) hread).mp ⟨_, hpcap⟩⟩
  · intro hit prior skb hskb hread haccepts hmeta
    obtain ⟨n, hn⟩ := (filterPcap_iff (init_verdict hvalid hinit _ _ _ _) hread).mpr haccepts
    refine ⟨n, fun n' hle => ?_⟩
    obtain ⟨event, hdone, -⟩ := kprobeSkb_passes hit.env prior (filterPcap_le hn hle) hmeta
    have hevent : Hit.event K cfg p { hit with n := n' } (some prior) = some event :=
      hit_event_iff.mpr ⟨skb, 0, hskb, hdone⟩
    obtain ⟨_, -, -, -, -, heq⟩ := kprobeSkb_submits.mp hdone
    refine ⟨event, by rw [heq]; rfl, ?_⟩
    rw [reservations, hevent]
    rfl

/-- A call of `kfree_skb` whose sk_buff, at 0x1000, holds an IPv4 packet. -/
def ipHit : Hit where
  link := ⟨"kfree_skb", "kprobe_skb_1", 0⟩
  call := kfreeCall 0x1000
  mem := wordMem rawWords
  env := ⟨0, 0, 0, 0⟩
  n := 0
  ω := fun _ => Helper.copying (wordMem rawWords).byte fun _ => 0
  s := { pc := 0, regs := fun _ => 0, fp := 0, stack := fun _ => 0 }

/-- The packet can be read, and so the program can be run on it. -/
theorem ipHit_readable : Readable plainLayout ipHit 0x1000 := by
  have hmac : skbMacLen plainLayout ipHit.mem 0x1000 = 0 := rawWords_rawSkb.noMac
  refine ⟨fun _ => helperReads_copying _, ?_⟩
  rw [filterStart, if_pos hmac]
  exact rawWords_rawSkb.readable

/-- It is an IPv4 packet, which `ip` accepts. -/
theorem ipHit_accepts :
    Accepts ipPcap (fun _ => true) "ip" plainLayout ipHit.mem 0x1000 := by
  have hmac : skbMacLen plainLayout ipHit.mem 0x1000 = 0 := rawWords_rawSkb.noMac
  refine Or.inr ?_
  rw [filterStart, if_pos hmac, decide_eq_true hmac]
  exact ipRaw_accepts

/-- With the expression `ip` the IPv4 packet gets the first record, and it is printed. -/
theorem traced_packets_ip : ∃ (filters : Filters) (cfg : SkbConfig) (past : List Act)
    (t : Tracer (RecordRing (List Byte))) (event : SkbEvent),
    init ipPcap (fun _ => true) 0 0 ⟨[], []⟩ cfg { initArgs with filterPcap := "ip" } =
        .ok (0, filters, cfg) ∧
      Reaches plainLayout cfg filters past t ∧ t.printed = [event] ∧ event.skbAddr = 0x1000 ∧
      Readable plainLayout ipHit 0x1000 ∧
      Accepts ipPcap (fun _ => true) "ip" plainLayout ipHit.mem 0x1000 := by
  obtain ⟨filters, hprep⟩ := ipPcap_prepared ⟨[], []⟩
  let cfg := passCfg ⟨0, 0, 0, false, false, false⟩ { initArgs with filterPcap := "ip" }
  have hinit : init ipPcap (fun _ => true) 0 0 ⟨[], []⟩ cfg
      { initArgs with filterPcap := "ip" } = .ok (0, filters, cfg) :=
    init_ok.mpr ⟨hprep, rfl, rfl, rfl⟩
  have hmeta : filterMeta plainLayout ipHit.mem cfg 0x1000 = true :=
    filterMeta_eq_true.mpr ⟨fun h => absurd rfl h, fun h => absurd rfl h, fun h => absurd rfl h⟩
  have hstart : Reaches plainLayout cfg filters []
      (Tracer.start : Tracer (RecordRing (List Byte))) := .start
  obtain ⟨-, hrecord⟩ := traced_packets (ipPcap_valid "ip") hinit hstart
  obtain ⟨n, hn⟩ := hrecord ipHit emptyEvent 0x1000 rfl ipHit_readable ipHit_accepts hmeta
  obtain ⟨event, haddr, hres⟩ := hn n (Nat.le_refl n)
  have hevent : Hit.event plainLayout cfg filters { ipHit with n := n } (some emptyEvent) =
      some event := by
    simpa [reservations] using hres
  obtain ⟨past, t, hreach, hprinted, -⟩ := exists_printed hevent
  exact ⟨filters, cfg, past, t, event, hinit, hreach, hprinted, haddr, ipHit_readable,
    ipHit_accepts⟩

end SkbTracer.App
