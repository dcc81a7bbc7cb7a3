import SkbTracer.Lib.History
import SkbTracer.Output.Entry

/-!
# The lines of a run

Printing remembers four things: the timestamp that relative times start from, the offset
between the clocks, and the names of processes and of interfaces. Each is found once and
then kept. So a line depends on the whole run before it.

`shownLine` computes it from the events so far, with no state: from the first timestamp
that is not zero, the clocks as they stood at the first entry, the first look at the
process and the first answer for the interface. It is a function of the run, and what it
says can be read without the printer.

- `Remembers`: the printer after the entries `past` has just what `past` gives. It holds
  after `init` (`init_remembers`), and one entry preserves it (`Remembers.next`).
- `stored_run`: what the cache of interfaces has after any run; the law of that cache is
  `resolve_law` in `DevCache`, and this is it for lookups only.
- `printEntry_follows`: one entry prints `shownLine`.
- `printed_lines`: so does a whole run, by the general fact about machines whose answers
  follow their history (`Lib.Follows`).

Every entry comes with its own `Outside`, so the clocks, the files of the processes and the
names of the interfaces may be others at every entry. If one line has an overflow, the
run ends there on both sides.
-/

namespace SkbTracer.Output

open SkbTracer.Kprobe
open SkbTracer.Cfg (Args)
open SkbTracer.Lib (row outputs answers Follows outputs_eq firstFor firstFor_concat)

/-- An event that comes to be printed, and what the system answers meanwhile. -/
structure Arrival where
  event : SkbEvent
  outside : Outside

/-- `print_entry` for one event after the other. -/
def printEntries : Printer → List Arrival → Option (Printer × List (List Char)) :=
  outputs fun s a => printEntry s a.event a.outside

/-! ## What is shown -/

/-- The first timestamp that is not zero. -/
def startOf (run : List Arrival) : BitVec 64 :=
  ((run.map fun a => a.event.ts).find? (· ≠ 0)).getD 0

/-- The offset of the clocks when the first entry was printed. -/
def offsetOf (run : List Arrival) : Option (BitVec 64) :=
  run.head?.map fun a => BitVec.ofInt 64 (a.outside.realTs.ns - a.outside.monoTs.ns)

/-- The name that the first look at a process found. -/
def commOf (run : List Arrival) (pid : BitVec 32) : Option (List Char) :=
  firstFor (fun a => a.event.pid) (fun a => some (nameNow a.event.pid a.outside.comm)) run pid

/-- The name that a process is shown with. -/
def commIn (run : List Arrival) (pid : BitVec 32) : List Char :=
  if pid = 0 then swapper else (commOf run pid).getD []

/-- The namespace of the tracer. -/
def ownNetns (nsIno : Option (BitVec 64)) : BitVec 32 := (nsIno.map (·.setWidth 32)).getD 0

/-- The interface that the filter names. -/
def filterName (args : Args) (p : BitVec 32 × BitVec 32) : Option String :=
  if args.filterIfname ≠ "" ∧ args.filterIfindex ≠ 0 ∧ p = (args.filterNetnsId, args.filterIfindex)
  then some args.filterIfname else none

/-- The first name that the system had for an interface, if it may be asked. -/
def systemName (nsIno : Option (BitVec 64)) (run : List Arrival) (p : BitVec 32 × BitVec 32) :
    Option String :=
  if p.1 = 0 ∨ ownNetns nsIno ≠ 0 ∧ p.1 = ownNetns nsIno then
    firstFor (fun a => (a.event.skbMeta.netns, a.event.skbMeta.ifindex))
      (fun a => a.outside.ifname) run p
  else none

/-- The name that an interface is shown with; empty if there is none. -/
def ifnameIn (args : Args) (nsIno : Option (BitVec 64)) (run : List Arrival)
    (p : BitVec 32 × BitVec 32) : String :=
  if p.2 = 0 then "" else ((filterName args p).or (systemName nsIno run p)).getD ""

/-- What an entry shows, `past` being the entries before it. -/
def shownTexts (args : Args) (nsIno : Option (BitVec 64)) (past : List Arrival) (a : Arrival) :
    Option Texts :=
  let run := past ++ [a]
  (timeText (Printer.init args nsIno).out.timestampMode (offsetOf run) a.outside
    a.event.ts (startOf run)).map fun time =>
      { time
        proc := decText a.event.pid ++ '/' :: commIn run a.event.pid
        func := funcText a.event a.outside
        iface :=
          let name := ifnameIn args nsIno run (a.event.skbMeta.netns, a.event.skbMeta.ifindex)
          if name ≠ "" then name.toList ++ ':' :: decText a.event.skbMeta.ifindex
          else decText a.event.skbMeta.ifindex }

/-- The line of an entry, from the entries before it. -/
def shownLine (args : Args) (nsIno : Option (BitVec 64)) (past : List Arrival) (a : Arrival) :
    Option (List Char) :=
  (shownTexts args nsIno past a).map fun x =>
    row (entryCells (Printer.init args nsIno).out a.event x)

/-! ## What is remembered -/

variable {args : Args} {nsIno : Option (BitVec 64)} {past : List Arrival} {a : Arrival}
  {s s' : Printer} {line : List Char}

/-- The first timestamp stays, once it is not zero. -/
theorem startOf_concat (past : List Arrival) (a : Arrival) :
    startOf (past ++ [a]) = if startOf past = 0 then a.event.ts else startOf past := by
  unfold startOf
  rw [List.map_append, List.find?_append]
  cases hfind : (past.map fun a => a.event.ts).find? fun ts => decide (ts ≠ 0) with
  | none =>
    by_cases hts : a.event.ts = 0 <;> simp only [List.map_cons, List.map_nil, hts, Option.none_or,
      List.find?_cons, List.find?_nil, ne_eq, not_true_eq_false, not_false_eq_true, decide_true,
      decide_false, Option.getD_none, Option.getD_some, if_true]
  | some ts =>
    have hts := List.find?_some hfind
    rw [Option.some_or, Option.getD_some, if_neg (of_decide_eq_true hts)]

/-- The offset is computed at the first entry and stays. -/
theorem offsetOf_concat (past : List Arrival) (a : Arrival) : offsetOf (past ++ [a]) =
    (getBootRealtimeNs (offsetOf past) a.outside.realTs a.outside.monoTs).2 := by
  cases past <;> rfl

theorem commOf_concat (past : List Arrival) (a : Arrival) (pid : BitVec 32) :
    commOf (past ++ [a]) pid = (commOf past pid).or
      (if a.event.pid = pid then some (nameNow a.event.pid a.outside.comm) else none) :=
  firstFor_concat ..

/-- The mode shows the time of the day. -/
def UsesClock (mode : TimestampMode) : Prop := mode = .current ∨ mode = .absolute

/-- The lookups of interfaces, the last one first. -/
def lookups (run : List Arrival) : List Op :=
  (run.map fun a =>
    .resolve a.event.skbMeta.netns a.event.skbMeta.ifindex a.outside.ifname).reverse

/-- What `init` does to the cache of interfaces. -/
def initOps (args : Args) (nsIno : Option (BitVec 64)) : List Op :=
  (if args.filterIfname ≠ "" ∧ args.filterIfindex ≠ 0 then
    [.register args.filterNetnsId args.filterIfindex args.filterIfname] else []) ++
  match nsIno with
  | some ino => [.setCurrent (ino.setWidth 32)]
  | none => []

/-- The printer after the entries `past`. -/
structure Remembers (args : Args) (nsIno : Option (BitVec 64)) (past : List Arrival)
    (s : Printer) : Prop where
  out : s.out = { (Printer.init args nsIno).out with startTs := startOf past }
  boot : UsesClock s.out.timestampMode → s.boot = offsetOf past
  comms : ∀ pid ≠ 0, s.comms pid = commOf past pid
  ifnames : s.out.outputMeta → s.ifnames = after (lookups past ++ initOps args nsIno)

theorem init_ifnames (args : Args) (nsIno : Option (BitVec 64)) :
    (Printer.init args nsIno).ifnames = after (initOps args nsIno) := by
  unfold Printer.init initOps
  dsimp only
  rcases nsIno with _ | ino <;> split <;> rfl

/-- Before the first entry nothing is remembered but what `init` put there. -/
theorem init_remembers (args : Args) (nsIno : Option (BitVec 64)) :
    Remembers args nsIno [] (Printer.init args nsIno) where
  out := rfl
  boot _ := rfl
  comms _ _ := rfl
  ifnames _ := init_ifnames args nsIno

theorem Remembers.start (h : Remembers args nsIno past s) :
    startFor s.out a.event = startOf (past ++ [a]) := by
  unfold startFor
  rw [startOf_concat, h.out]

/-- **One entry.** -/
theorem Remembers.next (h : Remembers args nsIno past s) (a : Arrival) :
    Remembers args nsIno (past ++ [a]) (s.next a.event a.outside) where
  out := by
    show { s.out with startTs := startFor s.out a.event } = _
    rw [h.start, h.out]
  boot hclock := by
    have hclock : UsesClock s.out.timestampMode := hclock
    have hboot : bootAfter s.out.timestampMode s.boot a.outside = offsetOf (past ++ [a]) := by
      rw [offsetOf_concat, ← h.boot hclock]
      rcases hclock with hmode | hmode <;> rw [hmode] <;> rfl
    have hmode : s.out.timestampMode ≠ .none := by
      rcases hclock with hmode | hmode <;> rw [hmode] <;> decide
    show (if s.out.timestampMode ≠ .none then _ else _) = _
    rw [if_pos hmode, hboot]
  comms pid hpid := by
    show (resolveComm s.comms a.event.pid a.outside.comm).1 pid = _
    rw [commOf_concat, ← h.comms pid hpid]
    by_cases hzero : a.event.pid = 0
    · have hne : a.event.pid ≠ pid := fun heq => hpid (heq ▸ hzero)
      rw [hzero, resolveComm_zero, if_neg (hzero ▸ hne), Option.or_none]
    · rw [resolveComm_eq hzero]
      by_cases heq : a.event.pid = pid
      · subst heq
        rw [if_pos rfl]
        rcases hc : s.comms a.event.pid with _ | name
        · exact Function.update_self ..
        · exact hc
      · rw [if_neg heq, Option.or_none]
        rcases s.comms a.event.pid with _ | name
        · exact Function.update_of_ne (Ne.symm heq) ..
        · rfl
  ifnames hmeta := by
    have hmeta : s.out.outputMeta = true := hmeta
    show (if s.out.outputMeta then _ else _) = _
    unfold lookups formatIface
    rw [if_pos hmeta, List.map_append, List.reverse_append, h.ifnames hmeta]
    dsimp only
    split <;> rfl

/-! ## Interfaces -/

theorem lookups_concat (past : List Arrival) (a : Arrival) : lookups (past ++ [a]) =
    .resolve a.event.skbMeta.netns a.event.skbMeta.ifindex a.outside.ifname :: lookups past := by
  unfold lookups
  rw [List.map_append, List.reverse_append]
  rfl

/-- No lookup changes the namespace of the tracer. -/
theorem current_run (past : List Arrival) :
    current (lookups past ++ initOps args nsIno) = ownNetns nsIno := by
  induction past using List.reverseRecOn with
  | nil =>
    unfold initOps
    rcases nsIno with _ | ino <;> split <;> rfl
  | append_singleton past a ih =>
    rw [lookups_concat]
    exact ih

/-- So the system is asked about the namespace of the tracer, from the first entry to
the last. -/
theorem mayAsk_run (past : List Arrival) (netns : BitVec 32) :
    MayAsk (lookups past ++ initOps args nsIno) netns ↔
      netns = 0 ∨ ownNetns nsIno ≠ 0 ∧ netns = ownNetns nsIno := by
  unfold MayAsk
  rw [current_run]

/-- At the start there is the interface of the filter, if it has a name. -/
theorem stored_init (args : Args) (nsIno : Option (BitVec 64)) (p : BitVec 32 × BitVec 32) :
    stored (initOps args nsIno) p = filterName args p := by
  unfold initOps filterName
  by_cases h : args.filterIfname ≠ "" ∧ args.filterIfindex ≠ 0
  · by_cases hp : p = (args.filterNetnsId, args.filterIfindex)
    · rw [if_pos h, if_pos ⟨h.1, h.2, hp⟩, List.cons_append, stored, if_pos hp]
    · rw [if_pos h, if_neg fun hall => hp hall.2.2, List.cons_append, stored, if_neg hp]
      rcases nsIno with _ | ino <;> rfl
  · rw [if_neg h, if_neg fun hall => h ⟨hall.1, hall.2.1⟩]
    rcases nsIno with _ | ino <;> rfl

/-- What the cache has for an interface after the entries `past`. -/
theorem stored_run (past : List Arrival) {p : BitVec 32 × BitVec 32} (hp : p.2 ≠ 0) :
    stored (lookups past ++ initOps args nsIno) p =
      (filterName args p).or (systemName nsIno past p) := by
  induction past using List.reverseRecOn with
  | nil =>
    have hnone : systemName nsIno [] p = none := ite_self _
    rw [hnone, Option.or_none]
    exact stored_init args nsIno p
  | append_singleton past a ih =>
    rw [lookups_concat, List.cons_append, stored, ih]
    unfold systemName
    rw [firstFor_concat]
    by_cases hask : p.1 = 0 ∨ ownNetns nsIno ≠ 0 ∧ p.1 = ownNetns nsIno
    · rw [if_pos hask, if_pos hask]
      by_cases heq : p = (a.event.skbMeta.netns, a.event.skbMeta.ifindex)
      · subst heq
        rw [if_pos rfl, ← Option.or_assoc]
        split
        next h => rw [h.2.2.1, Option.none_or]
        next h =>
          rcases hfirst : (filterName args _).or (firstFor _ _ past _) with _ | name
          · exact absurd ⟨rfl, hp, hfirst, (mayAsk_run past _).mpr hask⟩ h
          · rfl
      · rw [if_neg fun h => heq h.1, if_neg (Ne.symm heq), Option.or_none]
    · rw [if_neg hask, if_neg hask, if_neg]
      rintro ⟨rfl, -, -, h⟩
      exact hask ((mayAsk_run past _).mp h)

/-- The name that a lookup finds. -/
theorem answer_run (past : List Arrival) (a : Arrival) :
    answer (lookups past ++ initOps args nsIno)
        (a.event.skbMeta.netns, a.event.skbMeta.ifindex) a.outside.ifname =
      ifnameIn args nsIno (past ++ [a]) (a.event.skbMeta.netns, a.event.skbMeta.ifindex) := by
  unfold ifnameIn
  by_cases hi : a.event.skbMeta.ifindex = 0
  · rw [if_pos hi, hi]
    exact answer_zero ..
  · rw [if_neg hi, answer_eq _ _ _ hi, stored_run past hi]
    unfold systemName
    rw [firstFor_concat, if_pos rfl]
    by_cases hask : a.event.skbMeta.netns = 0 ∨
        ownNetns nsIno ≠ 0 ∧ a.event.skbMeta.netns = ownNetns nsIno
    · rw [if_pos hask, if_pos hask, if_pos ((mayAsk_run past _).mpr hask), ← Option.or_assoc]
      rcases (filterName args _).or (firstFor _ _ past _) with _ | name <;> rfl
    · rw [if_neg hask, if_neg hask, if_neg fun h => hask ((mayAsk_run past _).mp h),
        Option.or_none]
      rcases filterName args _ with _ | name <;> rfl

/-! ## The lines -/

/-- What is not asked for is not shown. -/
theorem entryCells_congr {out : Out} {event : SkbEvent} {x x' : Texts} (htime : x.time = x'.time)
    (hproc : x.proc = x'.proc) (hfunc : x.func = x'.func)
    (hiface : out.outputMeta → x.iface = x'.iface) :
    entryCells out event x = entryCells out event x' := by
  unfold entryCells cellsOf
  rw [htime, hproc, hfunc]
  by_cases hmeta : out.outputMeta = true
  · rw [hiface hmeta]
  · rw [if_neg hmeta, if_neg hmeta]

/-- The first reading of the clocks counts. -/
theorem timeText_boot {mode : TimestampMode} {boot boot' : Option (BitVec 64)} (o : Outside)
    (eventTs startTs : BitVec 64)
    (h : UsesClock mode → boot' = (getBootRealtimeNs boot o.realTs o.monoTs).2) :
    timeText mode boot' o eventTs startTs = timeText mode boot o eventTs startTs := by
  unfold timeText
  cases mode with
  | none => rfl
  | relative => rfl
  | current => rw [h (Or.inl rfl), getBootRealtimeNs_again]
  | absolute => rw [h (Or.inr rfl), getBootRealtimeNs_again]

theorem Remembers.comm (h : Remembers args nsIno past s) (a : Arrival) :
    (resolveComm s.comms a.event.pid a.outside.comm).2 = commIn (past ++ [a]) a.event.pid := by
  unfold commIn
  by_cases hpid : a.event.pid = 0
  · rw [if_pos hpid, hpid, resolveComm_zero]
  · rw [if_neg hpid, resolveComm_eq hpid, h.comms _ hpid, commOf_concat, if_pos rfl]
    rcases commOf past a.event.pid with _ | name <;> rfl

theorem Remembers.iface (h : Remembers args nsIno past s) (a : Arrival)
    (hmeta : s.out.outputMeta) :
    (formatIface s.ifnames a.event.skbMeta.netns a.event.skbMeta.ifindex a.outside.ifname).2 =
      let name := ifnameIn args nsIno (past ++ [a])
        (a.event.skbMeta.netns, a.event.skbMeta.ifindex)
      if name ≠ "" then name.toList ++ ':' :: decText a.event.skbMeta.ifindex
      else decText a.event.skbMeta.ifindex := by
  unfold formatIface
  rw [h.ifnames hmeta, ← answer_run]
  unfold answer
  dsimp only
  split <;> rfl

/-- **One entry is the line that the run gives**, and the printer then remembers it too.
-/
theorem printEntry_follows (args : Args) (nsIno : Option (BitVec 64)) :
    Follows (fun s a => printEntry s a.event a.outside) (shownLine args nsIno)
      (Remembers args nsIno) := by
  intro past s a h
  have hmode : s.out.timestampMode = (Printer.init args nsIno).out.timestampMode := by rw [h.out]
  refine ⟨?_, fun r hr => ?_⟩
  · have hboot : UsesClock s.out.timestampMode → offsetOf (past ++ [a]) =
        (getBootRealtimeNs s.boot a.outside.realTs a.outside.monoTs).2 := by
      intro hclock
      rw [offsetOf_concat, h.boot hclock]
    have htime := timeText_boot a.outside a.event.ts (startOf (past ++ [a])) hboot
    dsimp only
    rw [printEntry_row, Option.map_map]
    unfold shownLine shownTexts Printer.texts
    rw [Option.map_map, Option.map_map, ← hmode, htime, h.start]
    refine Option.map_congr fun time _ => ?_
    have hcells : entryCells s.out = entryCells (Printer.init args nsIno).out := by
      rw [h.out]
      rfl
    show row (entryCells s.out a.event _) = row (entryCells (Printer.init args nsIno).out a.event _)
    rw [← hcells]
    refine congrArg row (entryCells_congr rfl ?_ rfl (h.iface a))
    exact congrArg (fun name => decText a.event.pid ++ '/' :: name) (h.comm a)
  · obtain ⟨x, -, hx⟩ := Option.map_eq_some_iff.mp ((printEntry_row ..).symm.trans hr)
    rw [← hx]
    exact h.next a

/-- **The lines of a run.** Whatever comes to be printed, and whatever the system answers
each time, every line shows what the entries so far found first: times count from the
first timestamp, or by the clocks as they stood at the first entry, a process has the name
that the first look at it found, an interface the name in the filter, else the first one
that the system had for it. -/
theorem printed_lines (args : Args) (nsIno : Option (BitVec 64)) (run : List Arrival) :
    (printEntries (Printer.init args nsIno) run).map Prod.snd =
      answers (shownLine args nsIno) [] run :=
  outputs_eq (printEntry_follows args nsIno) (init_remembers args nsIno) run

end SkbTracer.Output
