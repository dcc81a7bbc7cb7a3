import SkbTracer.Trace.Init

/-!
# What the user asked for

`Matches` says that an event has what the last `--filter-mark`, `--filter-netns` and
`--filter-ifname` of the command line ask for, in terms of the command line and the
system alone. An event comes out of a `Setting`: a start of the tool, and a call of
`kprobe_skb` on some skb in some memory.

The configuration takes zero to mean that nothing was asked for. So events match
whenever no value asked for is zero (`Nonzero`), and otherwise there is a setting
in which one does not.

- `Setting.Submits.passed`: what the configuration makes sure of in every event.
- `parseArgs_request`: what the parsed arguments have to do with the command line; the
  options that were not given leave a zero.
- `exists_submits`: for every mark, index and namespace that pass the configuration there
  is a setting that submits an event with them. `tracedWords` is the memory of such an
  skb.
- `events_match_iff`: every event of every setting matches exactly if no value asked for is
  zero.
- `markZero_mismatch`: with `--filter-mark 0` an skb with mark 1 is traced.

The filter expression plays no part in this: it is any that libpcap knows, with any program
that libpcap may return for it (`PcapValid`). For the direction that needs an event
libpcap may return `acceptAll`.
-/

namespace SkbTracer.Trace

open SkbTracer.Libc
open SkbTracer.Bpf
open SkbTracer.Pcap2Bpf
open SkbTracer.Cfg
open SkbTracer.Kprobe
open SkbTracer.Lib (Mem wordMem wordMem_readable)

/-! ## Requests and events -/

/-- The event has what the options ask for. -/
structure Matches (W : World) (p : Proc) (opts : List Opt) (event : SkbEvent) : Prop where
  mark : ∀ a M, lastArg opts 'm' = some a → parseU32 a.toList = some M → event.skbMeta.mark = M
  netns : ∀ spec id, lastArg opts 'n' = some spec → specNetns W p spec = some id →
    event.skbMeta.netns = id
  ifname : ∀ name ns, lastArg opts 'i' = some name →
    specFile W p ((lastArg opts 'n').getD "") = some ns →
    event.skbMeta.ifindex = W.index ns (cStr name.toList) ∧
      event.skbMeta.netns = ns.ino.setWidth 32

/-- No value that the options ask for is zero. -/
structure Nonzero (W : World) (p : Proc) (opts : List Opt) : Prop where
  mark : ∀ a, lastArg opts 'm' = some a → parseU32 a.toList ≠ some 0
  netns : (lastArg opts 'n').isSome ∨ (lastArg opts 'i').isSome →
    specNetns W p ((lastArg opts 'n').getD "") ≠ some 0

/-- A start of the tool and a call of `kprobe_skb`. -/
structure Setting where
  pcap : Libpcap
  alloc : Bool → Bool
  filters : Filters
  cfg : SkbConfig
  K : KernelLayout
  m : Mem
  skb : BitVec 64
  env : ProbeEnv
  reserved : Option SkbEvent
  steps : Nat
  helpers : Nat → Helper
  state : EbpfState

/-- The tool, started with `args`, submits the event. -/
def Setting.Submits (S : Setting) (args : Args) (event : SkbEvent) : Prop :=
  PcapValid S.pcap args.filterPcap ∧ (∀ i, HelperReads S.m (S.helpers i)) ∧
    ∃ filters cfg r, init S.pcap S.alloc 0 0 S.filters S.cfg args = .ok (0, filters, cfg) ∧
      kprobeSkb S.K S.m cfg filters S.skb S.env S.reserved S.steps S.helpers S.state =
        .done (r, some event)

/-- The configuration of the arguments. -/
theorem Setting.Submits.passed {S : Setting} {args : Args} {event : SkbEvent}
    (h : S.Submits args event) :
    (args.filterNetnsId ≠ 0 → event.skbMeta.netns = args.filterNetnsId) ∧
      (args.filterMark ≠ 0 → event.skbMeta.mark = args.filterMark) ∧
      (args.filterIfindex ≠ 0 → event.skbMeta.ifindex = args.filterIfindex) := by
  obtain ⟨-, -, filters, cfg, r, hinit, hrun⟩ := h
  obtain ⟨-, -, -, rfl⟩ := init_ok.mp hinit
  obtain ⟨prior, -, -, hmeta, -, rfl⟩ := kprobeSkb_submits.mp hrun
  exact filterMeta_eq_true.mp hmeta

/-! ## An skb with given fields -/

/-- A program that accepts every packet. -/
def acceptAll : List SockFilter := [⟨0x06, 0, 0, 1⟩]

/-- libpcap with this program for every expression. -/
def acceptAllPcap : Libpcap := fun _ _ => .program acceptAll

/-- It is one that libpcap may return. -/
theorem acceptAll_valid : CbpfValid acceptAll where
  scratch := by decide
  divisor := by
    intro fp hfp op k hop
    rw [List.mem_singleton.mp hfp] at hop
    cases hop
  shift := by decide
  ret := ⟨_, rfl, Or.inr rfl⟩
  init := scratchInitialised_of_unused (by decide)

theorem acceptAllPcap_valid (expression : String) : PcapValid acceptAllPcap expression := by
  intro l3 prog h
  obtain rfl := PcapOutcome.program.inj h
  exact ⟨acceptAll_valid, by decide⟩

/-- What `acceptAll` is converted to. -/
def acceptAllCode : List BpfInsn := prologue ++ convertRetK ⟨0x06, 0, 0, 1⟩

theorem acceptAll_compiles (expression : String) (l3 : Bool) :
    ∃ code, compileEbpfFilter acceptAllPcap true expression l3 = .ok (0, code) := by
  by_cases hempty : expression = ""
  · rw [hempty]
    exact ⟨_, compileEbpfFilter_empty⟩
  · refine ⟨acceptAllCode, ?_⟩
    rw [compileEbpfFilter, if_neg hempty]
    rfl

/-- Whatever the expression, the filters that come of it accept every packet. -/
theorem acceptAll_filters (expression : String) (p : Filters) :
    ∃ filters, preparePcapFilters acceptAllPcap (fun _ => true) p expression = .ok (0, filters) ∧
      ∀ K m skb ω s, skbMacLen K m skb = 0 → (∀ i, HelperReads m (ω i)) →
        PacketReadable m (networkData K m skb) (tailEnd K m skb) →
        ∃ n, filterPcap K m filters skb n ω s = .done true := by
  obtain ⟨code2, h2⟩ := acceptAll_compiles expression false
  obtain ⟨code3, h3⟩ := acceptAll_compiles expression true
  refine ⟨⟨storedFilter (0, code2), storedFilter (0, code3)⟩, ?_, ?_⟩
  · have hprep : preparePcapFilters acceptAllPcap (fun _ => true) p expression = _ :=
      preparePcapFilters_eq h2 h3
    rw [hprep, if_neg fun h => h.1 rfl]
  · intro K m skb ω s hmac hω hp
    have hverdict := filterVerdict_stored (fun _ => true) (acceptAllPcap_valid expression) h2 h3 K
      m skb ω s
    by_cases hempty : expression = ""
    · exact (hverdict.empty hempty).1
    · refine (hverdict.raw hempty hmac hω hp).accepts.mpr ⟨acceptAll, ⟨rfl, code3, h3⟩, 1, ?_, ?_⟩
      · exact ⟨1, rfl⟩
      · decide

/-- An skb at 0x1000 with the packet of `rawWords`, its device at 0x1400 and the namespace
of that at 0x1800. -/
def tracedWords (netns mark ifindex : BitVec 32) : Nat → Nat := fun k =>
  if k = 518 then mark.toNat
  else if k = 520 then 0x1400
  else if k = 640 then ifindex.toNat
  else if k = 642 then 0x1800
  else if k = 768 then netns.toNat
  else rawWords k

section

variable {netns mark ifindex : BitVec 32}

theorem ofNat_mod_toNat (x : BitVec 32) : BitVec.ofNat 32 (x.toNat % 256 ^ (32 / 8)) = x := by
  have hlt : x.toNat % 256 ^ (32 / 8) = x.toNat := Nat.mod_eq_of_lt x.isLt
  rw [hlt]
  exact BitVec.eq_of_toNat_eq (by rw [BitVec.toNat_ofNat]; exact hlt)

theorem traced_mark :
    skbMark plainLayout (wordMem (tracedWords netns mark ifindex)) 0x1000 = mark :=
  (field_wordMem (k := 518) rfl (by decide) (by decide)).trans (ofNat_mod_toNat mark)

theorem traced_dev :
    skbDev plainLayout (wordMem (tracedWords netns mark ifindex)) 0x1000 = 0x1400 :=
  field_wordMem (k := 520) rfl (by decide) (by decide)

theorem traced_ifindex :
    skbDevIfindex plainLayout (wordMem (tracedWords netns mark ifindex)) 0x1000 = ifindex := by
  rw [skbDevIfindex, traced_dev]
  exact (field_wordMem (k := 640) rfl (by decide) (by decide)).trans (ofNat_mod_toNat ifindex)

theorem traced_devNetns :
    skbDevNetns plainLayout (wordMem (tracedWords netns mark ifindex)) 0x1000 = netns := by
  have hnet : field (wordMem (tracedWords netns mark ifindex)) 0x1400 plainLayout.devNdNet 64 =
      0x1800 := field_wordMem (k := 642) rfl (by decide) (by decide)
  rw [skbDevNetns, traced_dev, hnet]
  exact (field_wordMem (k := 768) rfl (by decide) (by decide)).trans (ofNat_mod_toNat netns)

theorem traced_netns :
    getNetns plainLayout (wordMem (tracedWords netns mark ifindex)) 0x1000 = netns := by
  have hsk : skbSk plainLayout (wordMem (tracedWords netns mark ifindex)) 0x1000 = 0 :=
    field_wordMem (k := 521) rfl (by decide) (by decide)
  unfold getNetns
  rw [traced_devNetns, hsk]
  by_cases h : netns = 0
  · rw [if_pos h]
    exact if_neg (not_not.mpr rfl)
  · rw [if_neg h]

theorem traced_rawSkb : RawSkb (tracedWords netns mark ifindex) := ⟨rfl, rfl, rfl, rfl⟩

end

/-- A reserved record, before anything is put into it. -/
def emptyEvent : SkbEvent where
  pid := 0
  cpuId := 0
  ts := 0
  skbAddr := 0
  addr := 0
  skbMeta := { netns := 0, mark := 0, ifindex := 0, mtu := 0, len := 0, proto := 0 }
  tuple := emptyTuple

/-- Every skb that the configuration lets through is traced in some setting. -/
theorem exists_submits (args : Args) (netns mark ifindex : BitVec 32)
    (hnetns : args.filterNetnsId ≠ 0 → netns = args.filterNetnsId)
    (hmark : args.filterMark ≠ 0 → mark = args.filterMark)
    (hifindex : args.filterIfindex ≠ 0 → ifindex = args.filterIfindex) :
    ∃ S event, Setting.Submits S args event ∧ event.skbMeta.netns = netns ∧
      event.skbMeta.mark = mark ∧ event.skbMeta.ifindex = ifindex := by
  let m := wordMem (tracedWords netns mark ifindex)
  let helper := Helper.copying m.byte fun _ => 0
  let s : EbpfState := { pc := 0, regs := fun _ => 0, fp := 0, stack := fun _ => 0 }
  let cfg : SkbConfig :=
    { netns := 0, mark := 0, ifindex := 0, outputMeta := false, outputTuple := false,
      outputStack := false }
  obtain ⟨filters, hprep, haccept⟩ := acceptAll_filters args.filterPcap ⟨[], []⟩
  have hhelper : HelperReads m helper := helperReads_copying m
  obtain ⟨n, hn⟩ := haccept plainLayout m 0x1000 (fun _ => helper) s traced_rawSkb.noMac
    (fun _ => hhelper) traced_rawSkb.readable
  have hmeta : filterMeta plainLayout m (passCfg cfg args) 0x1000 = true :=
    filterMeta_eq_true.mpr ⟨fun h => traced_netns.trans (hnetns h),
      fun h => traced_mark.trans (hmark h), fun h => traced_ifindex.trans (hifindex h)⟩
  obtain ⟨event, hrun, hmetaEq, -⟩ := kprobeSkb_passes ⟨0, 0, 0, 0⟩ emptyEvent hn hmeta
  let S : Setting :=
    { pcap := acceptAllPcap, alloc := fun _ => true, filters := ⟨[], []⟩, cfg := cfg,
      K := plainLayout, m := m, skb := 0x1000, env := ⟨0, 0, 0, 0⟩, reserved := some emptyEvent,
      steps := n, helpers := fun _ => helper, state := s }
  have hinit : init S.pcap S.alloc 0 0 S.filters S.cfg args = .ok (0, filters, passCfg cfg args) :=
    init_ok.mpr ⟨hprep, rfl, rfl, rfl⟩
  refine ⟨S, event, ⟨acceptAllPcap_valid _, fun _ => hhelper, filters, _, 0, hinit, hrun⟩, ?_⟩
  rw [hmetaEq]
  exact ⟨traced_netns, traced_mark, traced_ifindex⟩

/-! ## When events match -/

variable {W : World} {posixly : Bool} {argv : List String} {p p' : Proc} {args : Args}

/-- The arguments in terms of the command line. -/
theorem parseArgs_request (h : parseArgs W posixly argv p = (.ok args, p')) :
    let opts := (options posixly argv).1
    (lastArg opts 'm' = none → args.filterMark = 0) ∧
      (∀ a, lastArg opts 'm' = some a → parseU32 a.toList = some args.filterMark) ∧
      ((lastArg opts 'n').isSome ∨ (lastArg opts 'i').isSome →
        specNetns W p ((lastArg opts 'n').getD "") = some args.filterNetnsId) ∧
      (lastArg opts 'n' = none → lastArg opts 'i' = none → args.filterNetnsId = 0) ∧
      (lastArg opts 'i' = none → args.filterIfindex = 0) ∧
      (∀ name, lastArg opts 'i' = some name →
        ∃ ns, specFile W p ((lastArg opts 'n').getD "") = some ns ∧
          args.filterIfindex = W.index ns (cStr name.toList) ∧ args.filterIfindex ≠ 0) := by
  intro opts
  obtain ⟨args₀, args₁, hp, hres, rfl⟩ := parseArgs_ok h
  -- the arguments before the resolution are the last ones given
  have hnetns : args₀.filterNetns = (lastArg opts 'n').getD "" := by
    cases hn : lastArg opts 'n' with
    | none => exact hp.noNetns hn
    | some spec => exact (hp.netns spec hn).1
  have hmark : args₁.filterMark = args₀.filterMark := by rw [hres.frame]
  rw [← hnetns]
  refine ⟨fun hm => hmark.trans (hp.noMark hm), ?_, ?_, ?_, ?_, ?_⟩
  · intro a ha
    rw [hp.mark a ha]
    exact congrArg some hmark.symm
  · intro hgiven
    refine hres.netnsId ?_
    rcases hgiven with hn | hi
    · obtain ⟨spec, hspec⟩ := Option.isSome_iff_exists.mp hn
      obtain ⟨heq, hne⟩ := hp.netns spec hspec
      exact Or.inr (heq ▸ hne)
    · obtain ⟨name, hname⟩ := Option.isSome_iff_exists.mp hi
      obtain ⟨heq, hne⟩ := hp.ifname name hname
      exact Or.inl (heq ▸ hne)
  · exact fun hn hi => hres.noFilter (hp.noIfname hi) (hp.noNetns hn)
  · exact fun hi => hres.noIfname (hp.noIfname hi)
  · intro name hname
    obtain ⟨heq, hne⟩ := hp.ifname name hname
    obtain ⟨ns, hns, hidx, h0⟩ := hres.ifindex (heq ▸ hne)
    rw [heq] at hidx
    exact ⟨ns, hns, hidx, h0⟩

/-- **Events are what was asked for**, if and only if no value asked for is zero: for
every command line that is accepted, whatever its filter expression, every event of
every setting matches the options exactly if the mark, the namespace of
`--filter-netns` and the namespace in which `--filter-ifname` is resolved are not
zero as far as they were given. -/
theorem events_match_iff (h : parseArgs W posixly argv p = (.ok args, p')) :
    (∀ S event, Setting.Submits S args event → Matches W p (options posixly argv).1 event) ↔
      Nonzero W p (options posixly argv).1 := by
  obtain ⟨hnoMark, hmark, hnetns, hnoNetns, hnoIfname, hifname⟩ := parseArgs_request h
  constructor
  · intro hall
    constructor
    · -- a mark of zero: any other mark is let through
      intro a ha hzero
      have hz : args.filterMark = 0 := Option.some.inj ((hmark a ha).symm.trans hzero)
      obtain ⟨S, event, hsub, -, hev, -⟩ := exists_submits args args.filterNetnsId 1
        args.filterIfindex (fun _ => rfl) (fun hne => absurd hz hne) (fun _ => rfl)
      have hbad := (hall S event hsub).mark a 0 ha hzero
      rw [hev] at hbad
      cases hbad
    · -- a namespace of zero: any other namespace is let through
      intro hgiven hzero
      have hz : args.filterNetnsId = 0 := Option.some.inj ((hnetns hgiven).symm.trans hzero)
      obtain ⟨S, event, hsub, hev, -, -⟩ := exists_submits args 1 args.filterMark
        args.filterIfindex (fun hne => absurd hz hne) (fun _ => rfl) (fun _ => rfl)
      have hmatch := hall S event hsub
      cases hn : lastArg (options posixly argv).1 'n' with
      | some spec =>
        rw [hn] at hzero
        have hbad := hmatch.netns spec 0 hn hzero
        rw [hev] at hbad
        cases hbad
      | none =>
        rw [hn] at hgiven
        obtain ⟨name, hname⟩ := Option.isSome_iff_exists.mp (hgiven.resolve_left (by decide))
        obtain ⟨ns, hns, -, -⟩ := hifname name hname
        have hbad := (hmatch.ifname name ns hname hns).2
        have hid := Option.some.inj ((specNetns_of_file hns).symm.trans hzero)
        rw [hev, hid] at hbad
        cases hbad
  · intro hne S event hsub
    obtain ⟨hevNetns, hevMark, hevIfindex⟩ := hsub.passed
    have hnetnsNe : (lastArg (options posixly argv).1 'n').isSome ∨
        (lastArg (options posixly argv).1 'i').isSome → args.filterNetnsId ≠ 0 := by
      intro hgiven hz
      exact hne.netns hgiven ((hnetns hgiven).trans (congrArg some hz))
    constructor
    · intro a M ha hM
      have hM' : args.filterMark = M := Option.some.inj ((hmark a ha).symm.trans hM)
      rw [← hM']
      refine hevMark fun hz => hne.mark a ha ?_
      rw [hM, ← hM', hz]
    · intro spec id hspec hid
      have hgiven := Or.inl (b := (lastArg (options posixly argv).1 'i').isSome = true)
        (Option.isSome_iff_exists.mpr ⟨spec, hspec⟩)
      have hid' := hnetns hgiven
      rw [hspec, Option.getD_some, hid] at hid'
      rw [hevNetns (hnetnsNe hgiven), Option.some.inj hid']
    · intro name ns hname hns
      have hgiven := Or.inr (a := (lastArg (options posixly argv).1 'n').isSome = true)
        (Option.isSome_iff_exists.mpr ⟨name, hname⟩)
      obtain ⟨ns', hns', hidx, h0⟩ := hifname name hname
      obtain rfl := Option.some.inj (hns'.symm.trans hns)
      have hid := (specNetns_of_file hns).symm.trans (hnetns hgiven)
      exact ⟨(hevIfindex h0).trans hidx,
        (hevNetns (hnetnsNe hgiven)).trans (Option.some.inj hid).symm⟩

/-- A world in which no call fails, with one interface. -/
def plainWorld : World where
  error _ := none
  file _ _ := ⟨4, 0x100⟩
  index _ name := if name = "lo".toList then 1 else 0
  strerror _ := "error"

/-- A process with three open descriptors. -/
def plainProc : Proc where
  files fd := if 0 ≤ fd ∧ fd < 3 then some ⟨1, 1⟩ else none
  limit := 16
  netns := ⟨4, 0xf0000000⟩
  errno := 0
  calls := 0
  fdLog := []
  netnsLog := []

/-- With `--filter-mark 5` some event is submitted, and it matches. -/
theorem events_match_iff_markFive :
    ∃ S event, Setting.Submits S { initArgs with filterMark := 5 } event ∧
      Matches plainWorld plainProc (options false ["skbtracer", "--filter-mark", "5"]).1 event := by
  have hopts : (options false ["skbtracer", "--filter-mark", "5"]).1 = [⟨'m', some "5"⟩] := by
    decide
  have hparse : parseArgs plainWorld false ["skbtracer", "--filter-mark", "5"] plainProc =
      (.ok { initArgs with filterMark := 5 }, plainProc) := rfl
  obtain ⟨S, event, hsub, -⟩ := exists_submits { initArgs with filterMark := 5 } 0 5 0
    (fun h => absurd rfl h) (fun _ => rfl) (fun h => absurd rfl h)
  refine ⟨S, event, hsub, (events_match_iff hparse).mpr ?_ S event hsub⟩
  rw [hopts]
  constructor
  · intro a ha
    obtain rfl := Option.some.inj ha
    decide
  · intro hgiven
    exact absurd hgiven (by decide)

/-- With `--filter-mark 0` an event with another mark is submitted. -/
theorem markZero_mismatch :
    ∃ args, parseArgs plainWorld false ["skbtracer", "--filter-mark", "0"] plainProc =
        (.ok args, plainProc) ∧
      ∃ S event, Setting.Submits S args event ∧ event.skbMeta.mark = 1 ∧
        ¬ Matches plainWorld plainProc
          (options false ["skbtracer", "--filter-mark", "0"]).1 event := by
  refine ⟨initArgs, rfl, ?_⟩
  obtain ⟨S, event, hsub, -, hmark, -⟩ := exists_submits initArgs 0 1 0
    (fun h => absurd rfl h) (fun h => absurd rfl h) (fun h => absurd rfl h)
  refine ⟨S, event, hsub, hmark, fun hmatch => ?_⟩
  have hbad := hmatch.mark "0" 0 (by decide) (by decide)
  rw [hmark] at hbad
  cases hbad

end SkbTracer.Trace
