import SkbTracer.Kprobe.FilterPcap
import SkbTracer.Kprobe.Tuple

/-!
# `kprobe_skb`

What a probe does with an skb: the two filters, then an event in the ring buffer.
The configuration compares three fields with values that the user gave; a value of
zero there means that none was given.

- `getNetns`: the namespace of the device, or else that of the socket;
- `filterMeta`, `filter`: the comparisons, and the two filters together;
- `setMeta`, `setOutput`: what is put into the event;
- `kprobeSkb`: the program, with the record that the ring buffer gave it, if any;
- `kprobeSkb1` to `kprobeSkb5`: the five entry points, which differ in the register they
  take the skb from.

`filterMeta_eq_true` says what an skb that passes `filter_meta` has in its fields,
and `kprobeSkb_submits` that the event has the same in its own, since both are read from
the same memory.

The helpers that tell of the moment, its process, processor, time and address, are
`ProbeEnv`. A program whose filter has not come to an end after `n` steps has no outcome
yet, so every statement about an event is one about a run that ended.
-/

namespace SkbTracer.Kprobe

open SkbTracer.Bpf
open SkbTracer.Trace (Filters)
open SkbTracer.Lib (Mem Res)

/-- `struct skb_config`, without the field that nothing sets. -/
structure SkbConfig where
  netns : BitVec 32
  mark : BitVec 32
  ifindex : BitVec 32
  outputMeta : Bool
  outputTuple : Bool
  outputStack : Bool
  deriving DecidableEq, Repr

/-- `struct skb_meta`. -/
structure SkbMeta where
  netns : BitVec 32
  mark : BitVec 32
  ifindex : BitVec 32
  mtu : BitVec 32
  len : BitVec 32
  proto : BitVec 16
  deriving DecidableEq, Repr

/-- `struct skb_event`. -/
structure SkbEvent where
  pid : BitVec 32
  cpuId : BitVec 32
  ts : BitVec 64
  skbAddr : BitVec 64
  addr : BitVec 64
  skbMeta : SkbMeta
  tuple : SkbTuple
  deriving DecidableEq, Repr

/-- What the helpers that `kprobe_skb` calls return. -/
structure ProbeEnv where
  pidTgid : BitVec 64
  processorId : BitVec 32
  ktime : BitVec 64
  funcIp : BitVec 64

section

variable (K : KernelLayout) (m : Mem) (cfg : SkbConfig) (p : Filters) (skb : BitVec 64)

/-- `get_netns`. -/
def getNetns : BitVec 32 :=
  let netns := skbDevNetns K m skb
  if netns = 0 then
    let sk := skbSk K m skb
    if sk ≠ 0 then skNetns K m sk else netns
  else netns

/-- `filter_meta`. -/
def filterMeta : Bool :=
  if cfg.netns ≠ 0 ∧ getNetns K m skb ≠ cfg.netns then false
  else if cfg.mark ≠ 0 ∧ skbMark K m skb ≠ cfg.mark then false
  else if cfg.ifindex ≠ 0 ∧ skbDevIfindex K m skb ≠ cfg.ifindex then false
  else true

/-- `filter`: `filter_pcap(skb) && filter_meta(skb)`. -/
def filter (n : Nat) (ω : Nat → Helper) (s : EbpfState) : Res EbpfState Bool :=
  match filterPcap K m p skb n ω s with
  | .done true => .done (filterMeta K m cfg skb)
  | r => r

/-- `set_meta`. -/
def setMeta (skbMeta : SkbMeta) : SkbMeta :=
  { skbMeta with
    netns := getNetns K m skb
    mark := skbMark K m skb
    ifindex := skbDevIfindex K m skb
    len := skbLen K m skb
    mtu := skbDevMtu K m skb
    proto := skbProtocol K m skb }

/-- `set_output`. -/
def setOutput (event : SkbEvent) : SkbEvent :=
  { event with skbMeta := setMeta K m skb event.skbMeta, tuple := setTuple K m skb event.tuple }

/-- `kprobe_skb`: its result, and the event it submits. `reserved` is the record that
`bpf_ringbuf_reserve` gives, with what it held before. -/
def kprobeSkb (env : ProbeEnv) (reserved : Option SkbEvent) (n : Nat) (ω : Nat → Helper)
    (s : EbpfState) : Res EbpfState (Int × Option SkbEvent) :=
  match filter K m cfg p skb n ω s with
  | .next s => .next s
  | .fault => .fault
  | .done false => .done (0, none)
  | .done true =>
    match reserved with
    | none => .done (0, none)
    | some event =>
      let event :=
        { event with
          pid := (env.pidTgid >>> 32).setWidth 32
          cpuId := env.processorId
          ts := env.ktime
          skbAddr := skb
          addr := env.funcIp }
      .done (0, some (setOutput K m skb event))

end

/-! ## The programs -/

/-- `PT_REGS_PARM1(ctx)` to `PT_REGS_PARM5(ctx)`. -/
structure PtRegs where
  parm1 : BitVec 64
  parm2 : BitVec 64
  parm3 : BitVec 64
  parm4 : BitVec 64
  parm5 : BitVec 64

section

variable (K : KernelLayout) (m : Mem) (cfg : SkbConfig) (p : Filters)

/-- `SKBTRACER_ADD_KPROBE`. -/
def addKprobe (parm : PtRegs → BitVec 64) (ctx : PtRegs) (env : ProbeEnv)
    (reserved : Option SkbEvent) (n : Nat) (ω : Nat → Helper) (s : EbpfState) :
    Res EbpfState (Int × Option SkbEvent) :=
  kprobeSkb K m cfg p (parm ctx) env reserved n ω s

def kprobeSkb1 := addKprobe K m cfg p PtRegs.parm1
def kprobeSkb2 := addKprobe K m cfg p PtRegs.parm2
def kprobeSkb3 := addKprobe K m cfg p PtRegs.parm3
def kprobeSkb4 := addKprobe K m cfg p PtRegs.parm4
def kprobeSkb5 := addKprobe K m cfg p PtRegs.parm5

end

/-! ## What passes -/

variable {K : KernelLayout} {m : Mem} {cfg : SkbConfig} {p : Filters} {skb : BitVec 64}
  {env : ProbeEnv} {reserved : Option SkbEvent} {n : Nat} {ω : Nat → Helper} {s : EbpfState}

/-- The fields of an skb that passes, as far as values to compare them with were given. -/
theorem filterMeta_eq_true : filterMeta K m cfg skb = true ↔
    (cfg.netns ≠ 0 → getNetns K m skb = cfg.netns) ∧
      (cfg.mark ≠ 0 → skbMark K m skb = cfg.mark) ∧
      (cfg.ifindex ≠ 0 → skbDevIfindex K m skb = cfg.ifindex) := by
  unfold filterMeta
  by_cases hnetns : cfg.netns ≠ 0 ∧ getNetns K m skb ≠ cfg.netns
  · rw [if_pos hnetns]
    exact ⟨fun h => (by cases h), fun h => absurd (h.1 hnetns.1) hnetns.2⟩
  rw [if_neg hnetns]
  by_cases hmark : cfg.mark ≠ 0 ∧ skbMark K m skb ≠ cfg.mark
  · rw [if_pos hmark]
    exact ⟨fun h => (by cases h), fun h => absurd (h.2.1 hmark.1) hmark.2⟩
  rw [if_neg hmark]
  by_cases hifindex : cfg.ifindex ≠ 0 ∧ skbDevIfindex K m skb ≠ cfg.ifindex
  · rw [if_pos hifindex]
    exact ⟨fun h => (by cases h), fun h => absurd (h.2.2 hifindex.1) hifindex.2⟩
  rw [if_neg hifindex]
  refine ⟨fun _ => ⟨?_, ?_, ?_⟩, fun _ => rfl⟩
  · exact fun h => Decidable.byContradiction fun hne => hnetns ⟨h, hne⟩
  · exact fun h => Decidable.byContradiction fun hne => hmark ⟨h, hne⟩
  · exact fun h => Decidable.byContradiction fun hne => hifindex ⟨h, hne⟩

/-- An skb passes if it passes both filters. -/
theorem filter_eq_true : filter K m cfg p skb n ω s = .done true ↔
    filterPcap K m p skb n ω s = .done true ∧ filterMeta K m cfg skb = true := by
  unfold filter
  split
  next h =>
    rw [h]
    exact ⟨fun hm => ⟨rfl, Res.done.inj hm⟩, fun hm => congrArg Res.done hm.2⟩
  next hne =>
    exact ⟨fun h => absurd h (hne ·), fun h => absurd h.1 (hne ·)⟩

/-- A submitted event: both filters pass, and its fields are those of the skb. -/
theorem kprobeSkb_submits {r : Int} {event : SkbEvent} :
    kprobeSkb K m cfg p skb env reserved n ω s = .done (r, some event) ↔
      ∃ prior, reserved = some prior ∧ filterPcap K m p skb n ω s = .done true ∧
        filterMeta K m cfg skb = true ∧ r = 0 ∧
        event = setOutput K m skb
          { prior with
            pid := (env.pidTgid >>> 32).setWidth 32
            cpuId := env.processorId
            ts := env.ktime
            skbAddr := skb
            addr := env.funcIp } := by
  unfold kprobeSkb
  constructor
  · intro h
    split at h
    next => cases h
    next => cases h
    next => cases h
    next hfilter =>
      obtain ⟨hpcap, hmeta⟩ := filter_eq_true.mp hfilter
      cases reserved with
      | none => cases h
      | some prior =>
        cases h
        exact ⟨prior, rfl, hpcap, hmeta, rfl, rfl⟩
  · rintro ⟨prior, rfl, hpcap, hmeta, rfl, rfl⟩
    rw [filter_eq_true.mpr ⟨hpcap, hmeta⟩]

/-- An skb that passes both filters is submitted if there is room. -/
theorem kprobeSkb_passes (env : ProbeEnv) (prior : SkbEvent)
    (hpcap : filterPcap K m p skb n ω s = .done true) (hmeta : filterMeta K m cfg skb = true) :
    ∃ event, kprobeSkb K m cfg p skb env (some prior) n ω s = .done (0, some event) ∧
      event.skbMeta = setMeta K m skb prior.skbMeta ∧
      event.tuple = setTuple K m skb prior.tuple :=
  ⟨_, kprobeSkb_submits.mpr ⟨prior, rfl, hpcap, hmeta, rfl, rfl⟩, rfl, rfl⟩

end SkbTracer.Kprobe
