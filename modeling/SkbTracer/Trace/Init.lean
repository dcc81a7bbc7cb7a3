import SkbTracer.Cfg.Options
import SkbTracer.Kprobe.Event

/-!
# `TraceMgr::init`

The filter expression becomes the two stored filters, and the options become the
configuration that the probes read. What libbpf answers when it loads and attaches
the programs is given by `load` and `attach`; an error ends the call.

`init_ok` says what a start without error has done: the expression was compiled, the
configuration is that of the arguments (`passCfg`), and libbpf refused nothing. The
theorems about whole runs begin there.

The other errors are those of `prepare_pcap_filters`. Where the conversion of a filter has
no result at all there is none here either; for the programs that libpcap can return that
does not happen (`compile_total`).
-/

namespace SkbTracer.Trace

open SkbTracer.Pcap2Bpf (Libpcap ConvErr)
open SkbTracer.Cfg (Args)
open SkbTracer.Kprobe (SkbConfig)

/-- The assignments to `skel->rodata->cfg`. -/
def passCfg (cfg : SkbConfig) (args : Args) : SkbConfig :=
  { cfg with
    outputMeta := args.outputMeta
    outputTuple := args.outputTuple
    outputStack := args.outputStack
    mark := args.filterMark
    ifindex := args.filterIfindex
    netns := args.filterNetnsId }

/-- `TraceMgr::init(args)`: its result, and the filters and the configuration as it
leaves them. -/
def init (pcap : Libpcap) (alloc : Bool → Bool) (load attach : Int) (p : Filters)
    (cfg : SkbConfig) (args : Args) : Except ConvErr (Int × Filters × SkbConfig) := do
  let (err, p) ← preparePcapFilters pcap alloc p args.filterPcap
  if err ≠ 0 then .ok (err, p, cfg)
  else
    let cfg := passCfg cfg args
    if load ≠ 0 then .ok (load, p, cfg)
    else if attach ≠ 0 then .ok (attach, p, cfg)
    else .ok (0, p, cfg)

/-- A start without error. -/
theorem init_ok {pcap : Libpcap} {alloc : Bool → Bool} {load attach : Int} {p p' : Filters}
    {cfg cfg' : SkbConfig} {args : Args} :
    init pcap alloc load attach p cfg args = .ok (0, p', cfg') ↔
      preparePcapFilters pcap alloc p args.filterPcap = .ok (0, p') ∧ load = 0 ∧ attach = 0 ∧
        cfg' = passCfg cfg args := by
  unfold init
  cases hprep : preparePcapFilters pcap alloc p args.filterPcap with
  | error e => exact ⟨fun h => (by cases h), fun h => (by cases h.1)⟩
  | ok r =>
    obtain ⟨err, p₁⟩ := r
    simp only [bind, Except.bind]
    by_cases herr : err = 0
    · subst herr
      rw [if_neg (not_not.mpr rfl)]
      by_cases hload : load = 0
      · rw [if_neg (not_not.mpr hload)]
        by_cases hattach : attach = 0
        · rw [if_neg (not_not.mpr hattach)]
          constructor
          · intro h
            cases h
            exact ⟨rfl, hload, hattach, rfl⟩
          · rintro ⟨h, -, -, rfl⟩
            cases h
            rfl
        · rw [if_pos hattach]
          constructor
          · intro h
            cases h
            exact absurd rfl hattach
          · exact fun h => absurd h.2.2.1 hattach
      · rw [if_pos hload]
        constructor
        · intro h
          cases h
          exact absurd rfl hload
        · exact fun h => absurd h.2.1 hload
    · rw [if_pos herr]
      constructor
      · intro h
        cases h
        exact absurd rfl herr
      · intro h
        cases h.1
        exact absurd rfl herr

end SkbTracer.Trace
