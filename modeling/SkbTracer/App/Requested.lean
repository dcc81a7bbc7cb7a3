import SkbTracer.App.Traced
import SkbTracer.Output.Lines
import SkbTracer.Trace.Request

/-!
# What was asked for is what is printed

The command line goes through the parser into the configuration of the probes and into
the printer. The probes filter by it on whatever processor they are hit, the ring buffer
keeps the events in their order, and the printer shows them.

- `hit_passes`: an event passes the comparisons of the configuration that its program read.
- `printed_passes`: so does every event printed in a run, since all of them are events of
  hits (`printed_of_hit`).
- `matches_of_passed`: what passes the configuration is what the options ask for, if none
  asks for zero.
- `requested_lines`: all the way from the options to the lines, for every interleaving.

The theorem puts together results of every part: `parseArgs_request` for the options,
`exactly_once` and what leads to it for the run, and `printed_lines` for the lines. Of the
interface it says more than that it is the right one: it is shown with the name that the
user gave, whatever the system calls it by then, because `Output::init` registers that name
for the pair that the filter compares.

That no option asks for zero is needed (`events_match_iff`); an option that was not given
asks for nothing.
-/

namespace SkbTracer.App

open SkbTracer.Bpf (EbpfState Helper)
open SkbTracer.Cfg
open SkbTracer.Libc (World Proc lastArg)
open SkbTracer.Kprobe
open SkbTracer.Lib (row Byte Res RingBuffer answers answers_getElem answers_length outputs_eq)
open SkbTracer.Output
open SkbTracer.Trace

variable {ρ : Type} [RingBuffer ρ (List Byte)] {K : KernelLayout} {cfg : SkbConfig} {p : Filters}
  {past : List Act} {t : Tracer ρ}

/-- The three fields that the configuration compares are as it says, where it says anything. -/
structure Passed (cfg : SkbConfig) (event : SkbEvent) : Prop where
  netns : cfg.netns ≠ 0 → event.skbMeta.netns = cfg.netns
  mark : cfg.mark ≠ 0 → event.skbMeta.mark = cfg.mark
  ifindex : cfg.ifindex ≠ 0 → event.skbMeta.ifindex = cfg.ifindex

/-- The metadata of an event are those that passed the filter. -/
theorem hit_passes {h : Hit} {reserved : Option SkbEvent} {event : SkbEvent}
    (hevent : h.event K cfg p reserved = some event) : Passed cfg event := by
  obtain ⟨skb, r, -, hdone⟩ := hit_event_iff.mp hevent
  obtain ⟨prior, -, -, hmeta, -, rfl⟩ := kprobeSkb_submits.mp hdone
  obtain ⟨hnetns, hmark, hifindex⟩ := filterMeta_eq_true.mp hmeta
  exact ⟨hnetns, hmark, hifindex⟩

/-- Every event printed in a run is that of a hit. -/
theorem printed_passes (h : Reaches K cfg p past t) {event : SkbEvent}
    (hmem : event ∈ t.printed) : Passed cfg event := by
  obtain ⟨hit, reserved, -, hevent⟩ := printed_of_hit h hmem
  exact hit_passes hevent

/-! ## From the command line -/

variable {W : World} {posixly : Bool} {argv : List String} {proc proc' : Proc} {args : Args}
  {event : SkbEvent} {nsIno : Option (BitVec 64)} {run : List Arrival} {s : Printer}
  {lines : List (List Char)}

/-- A namespace that was given, or is that of the interface, is in the configuration and
not zero. -/
theorem netnsId_ne_zero (h : parseArgs W posixly argv proc = (.ok args, proc'))
    (hne : Nonzero W proc (options posixly argv).1)
    (hgiven : (lastArg (options posixly argv).1 'n').isSome ∨
      (lastArg (options posixly argv).1 'i').isSome) : args.filterNetnsId ≠ 0 := by
  obtain ⟨-, -, hnetns, -⟩ := parseArgs_request h
  intro hz
  exact hne.netns hgiven ((hnetns hgiven).trans (congrArg some hz))

/-- An event that passed has what the options ask for. -/
theorem matches_of_passed (h : parseArgs W posixly argv proc = (.ok args, proc'))
    (hne : Nonzero W proc (options posixly argv).1) (hev : Passed (passCfg cfg args) event) :
    Matches W proc (options posixly argv).1 event := by
  obtain ⟨-, hmark, hnetns, -, -, hifname⟩ := parseArgs_request h
  constructor
  · intro a M ha hM
    have heq := Option.some.inj ((hmark a ha).symm.trans hM)
    have hM0 : args.filterMark ≠ 0 := fun hz => hne.mark a ha (by rw [hM, ← heq, hz])
    exact (hev.mark hM0).trans heq
  · intro spec id hspec hid
    have hgiven := Or.inl (b := (lastArg (options posixly argv).1 'i').isSome = true)
      (Option.isSome_iff_exists.mpr ⟨spec, hspec⟩)
    have heq := hnetns hgiven
    rw [hspec, Option.getD_some, hid] at heq
    exact (hev.netns (netnsId_ne_zero h hne hgiven)).trans (Option.some.inj heq).symm
  · intro name ns hname hns
    have hgiven := Or.inr (a := (lastArg (options posixly argv).1 'n').isSome = true)
      (Option.isSome_iff_exists.mpr ⟨name, hname⟩)
    obtain ⟨ns', hns', hidx, h0⟩ := hifname name hname
    obtain rfl := Option.some.inj (hns'.symm.trans hns)
    have hid := Option.some.inj ((specNetns_of_file hns').symm.trans (hnetns hgiven))
    exact ⟨(hev.ifindex h0).trans hidx, (hev.netns (netnsId_ne_zero h hne hgiven)).trans hid.symm⟩

/-- What `-i` leaves in the arguments. -/
theorem ifname_parsed (h : parseArgs W posixly argv proc = (.ok args, proc')) {name : String}
    (hname : lastArg (options posixly argv).1 'i' = some name) :
    args.filterIfname = name ∧ name ≠ "" ∧ args.filterIfindex ≠ 0 := by
  obtain ⟨args₀, args₁, hp, hres, rfl⟩ := parseArgs_ok h
  obtain ⟨heq, hne⟩ := hp.ifname name hname
  obtain ⟨-, -, -, h0⟩ := hres.ifindex (heq ▸ hne)
  have hframe : args₁.filterIfname = args₀.filterIfname := by rw [hres.frame]
  exact ⟨hframe.trans heq, hne, h0⟩

/-- **What was asked for is what is printed.** Take a command line that is accepted and asks
for no zero, any interleaving of hits with the tracer that it configures, and the entries
printed for the events of this run, whatever the system answers meanwhile. Then the `i`-th
line is the row of the `i`-th event, this has the mark, the namespace and the interface
that the options ask for, and the interface is shown with the very name that was given. -/
theorem requested_lines (h : parseArgs W posixly argv proc = (.ok args, proc'))
    (hne : Nonzero W proc (options posixly argv).1)
    (hreach : Reaches K (passCfg cfg args) p past t) (hrun : run.map Arrival.event = t.printed)
    (hprint : printEntries (Printer.init args nsIno) run = some (s, lines)) :
    lines.length = t.printed.length ∧ ∀ (i : Nat) event, t.printed[i]? = some event →
      Matches W proc (options posixly argv).1 event ∧
      ∃ x, lines[i]? = some (row (entryCells (Printer.init args nsIno).out event x)) ∧
        ∀ name, lastArg (options posixly argv).1 'i' = some name →
          x.iface = name.toList ++ ':' :: decText event.skbMeta.ifindex := by
  have hlines : answers (shownLine args nsIno) [] run = some lines := by
    rw [← outputs_eq (printEntry_follows args nsIno) (init_remembers args nsIno) run]
    exact congrArg (Option.map Prod.snd) hprint
  refine ⟨?_, fun i event hi => ?_⟩
  · rw [← hrun, List.length_map]
    exact answers_length hlines
  · have hev := printed_passes hreach (List.mem_of_getElem? hi)
    refine ⟨matches_of_passed h hne hev, ?_⟩
    rw [← hrun, List.getElem?_map] at hi
    obtain ⟨a, ha, rfl⟩ := Option.map_eq_some_iff.mp hi
    obtain ⟨line, hline, hshown⟩ := answers_getElem hlines ha
    obtain ⟨x, hx, rfl⟩ := Option.map_eq_some_iff.mp hshown
    refine ⟨x, hline, fun name hname => ?_⟩
    obtain ⟨time, -, rfl⟩ := Option.map_eq_some_iff.mp hx
    -- the pair of the event is the one that `init` registered
    obtain ⟨hgiven, hnil, h0⟩ := ifname_parsed h hname
    have hnetns := netnsId_ne_zero h hne (Or.inr (by rw [hname]; rfl))
    have hpair : (a.event.skbMeta.netns, a.event.skbMeta.ifindex) =
        (args.filterNetnsId, args.filterIfindex) := Prod.ext (hev.netns hnetns) (hev.ifindex h0)
    have hfound : ifnameIn args nsIno ([] ++ run.take i ++ [a])
        (a.event.skbMeta.netns, a.event.skbMeta.ifindex) = name := by
      unfold ifnameIn filterName
      rw [hpair, if_neg h0, if_pos ⟨hgiven ▸ hnil, h0, rfl⟩, hgiven]
      rfl
    dsimp only
    rw [hfound, if_pos hnil]

/-- With `--filter-mark 5` one line is printed in some run, for an event with the mark 5. -/
theorem requested_lines_markFive : ∃ (event : SkbEvent) (line : List Char) (s : Printer),
    printEntries (Printer.init { initArgs with filterMark := 5 } none) [⟨event, quietOutside⟩] =
        some (s, [line]) ∧
      Matches plainWorld plainProc [⟨'m', some "5"⟩] event := by
  have hopts : (options false ["skbtracer", "--filter-mark", "5"]).1 = [⟨'m', some "5"⟩] := by
    decide
  have hparse : parseArgs plainWorld false ["skbtracer", "--filter-mark", "5"] plainProc =
      (.ok { initArgs with filterMark := 5 }, plainProc) := rfl
  have hne : Nonzero plainWorld plainProc
      (options false ["skbtracer", "--filter-mark", "5"]).1 := by
    rw [hopts]
    constructor
    · intro a ha
      obtain rfl := Option.some.inj ha
      decide
    · intro hgiven
      exact absurd hgiven (by decide)
  obtain ⟨S, event, hsub, -⟩ := exists_submits { initArgs with filterMark := 5 } 0 5 0
    (fun h => absurd rfl h) (fun _ => rfl) (fun h => absurd rfl h)
  obtain ⟨filters, cfg, hinit, hevent⟩ := hsub.hit_event
  obtain ⟨-, -, -, rfl⟩ := init_ok.mp hinit
  obtain ⟨past, t, hreach, hprinted, -⟩ := exists_printed hevent
  obtain ⟨s, line, hline⟩ : ∃ s line, printEntries
      (Printer.init { initArgs with filterMark := 5 } none) [⟨event, quietOutside⟩] =
        some (s, [line]) := ⟨_, _, rfl⟩
  have hrun : [(⟨event, quietOutside⟩ : Arrival)].map Arrival.event = t.printed := hprinted.symm
  obtain ⟨-, hall⟩ := requested_lines hparse hne hreach hrun hline
  have hmatches := (hall 0 event (by rw [hprinted]; rfl)).1
  rw [hopts] at hmatches
  exact ⟨event, line, s, hline, hmatches⟩

end SkbTracer.App
