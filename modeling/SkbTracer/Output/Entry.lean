import SkbTracer.Cfg.Options
import SkbTracer.Kprobe.Event
import SkbTracer.Lib.Columns
import SkbTracer.Output.Comm
import SkbTracer.Output.DevCache
import SkbTracer.Output.Time
import SkbTracer.Output.Tuple

/-!
# The lines that are printed

`Output::init` takes the options that say what is shown, `print_header` prints the line
with the titles and `print_entry` one line for every event. What an entry shows comes
from the event, from the three caches and, where these have nothing, from the system;
`Outside` is what the calls to the system find during one entry.

Title line and entries are written with formats of their own, one for each combination of
the options. Here both are brought into one form: `cellsOf` has the cells of a line, with
their widths, and `Lib.row` writes them with a blank between them.

- `printHeader_row`: the title line is the row of `headerCells`.
- `printEntry_row`: an entry is the row of `entryCells`, and `Printer.next` is the printer
  after it.
- `formatTime_eq`, `formatMeta_eq`, `commonBase_eq`: the same for the parts of an entry.

The theorems on the table, on the lines of a run and on what a line tells start from these
two and do not look into the formats again.

A `Printer` has the fields of `Output` and the static variables that printing uses. The
text of a number of seconds is a parameter: it is made from a `double`, and nothing here
depends on its digits. There is no line if the sum of a timestamp and the offset of the
clocks overflows, which is undefined in the source.
-/

namespace SkbTracer.Output

open SkbTracer.Kprobe
open SkbTracer.Cfg (Args)
open SkbTracer.Lib (Cell row row_cons row_append)

/-! ## Timestamps -/

/-- `TimestampMode`. -/
inductive TimestampMode where
  | none | relative | current | absolute
  deriving DecidableEq, Repr

/-- `TimeOutput::parse_mode(mode_str, ok)`; `none` if it is not `ok`. -/
def parseMode (modeStr : String) : Option TimestampMode :=
  if modeStr = "" ∨ modeStr = "none" then some .none
  else if modeStr = "current" then some .current
  else if modeStr = "relative" then some .relative
  else if modeStr = "absolute" then some .absolute
  else .none

/-- `{:<width}`. -/
def pad (width : Nat) (text : List Char) : List Char := text.rightpad width ' '

/-- `TimeOutput::format_header(mode)`. -/
def formatTimeHeader : TimestampMode → List Char
  | .relative => pad 10 "TIME(s)".toList
  | .current => pad 12 "TIME".toList
  | .absolute => pad 23 "TIME".toList
  | .none => []

/-- What the system answers while an entry is printed. -/
structure Outside where
  /-- the symbol at the event's address, from `get_func_by_addr` -/
  func : Option (List Char)
  /-- the text of `/proc/<pid>/comm` -/
  comm : Option (List Char)
  /-- what `if_indextoname` says -/
  ifname : Option String
  realTs : Timespec
  monoTs : Timespec
  localtimeR : Int → Tm
  /-- nanoseconds as a `double` in seconds, with six digits behind the point -/
  seconds : Nat → List Char

/-- `TimeOutput::format_time(mode, event_ts, start_ts)`; `boot` is the offset of the clocks,
if it was computed before. There is no text if a sum overflows. -/
def formatTime (mode : TimestampMode) (boot : Option (BitVec 64)) (o : Outside)
    (eventTs startTs : BitVec 64) : Option (Option (BitVec 64) × List Char) :=
  match mode with
  | .relative =>
    let elapsed := if startTs ≤ eventTs then o.seconds (eventTs - startTs).toNat else o.seconds 0
    some (boot, pad 10 elapsed)
  | .current =>
    let (ns, boot) := getBootRealtimeNs boot o.realTs o.monoTs
    (formatCurrentTime o.localtimeR ns eventTs).map fun text => (boot, text)
  | .absolute =>
    let (ns, boot) := getBootRealtimeNs boot o.realTs o.monoTs
    (formatAbsoluteTime o.localtimeR ns eventTs).map fun text => (boot, text)
  | .none => some (boot, [])

/-! ## The other columns -/

/-- `{:x}` of a number with `0x` before it. -/
def hexText (n : Nat) : List Char := '0' :: 'x' :: Nat.toDigits 16 n

/-- `DevCache::format_iface(netns, ifindex)`. -/
def formatIface (c : DevCache) (netns ifindex : BitVec 32) (os : Option String) :
    DevCache × List Char :=
  let (c, name) := resolveDevName c netns ifindex os
  if name ≠ "" then (c, name.toList ++ ':' :: decText ifindex) else (c, decText ifindex)

/-- `"0x{:04x}"` of `ntohs(meta.proto)`. -/
def protoText (proto : BitVec 16) : List Char :=
  '0' :: 'x' :: (Nat.toDigits 16 (htons proto).toNat).leftpad 4 '0'

/-- `MetaOutput::format_header()`. -/
def formatMetaHeader : List Char :=
  pad 11 "NETNS".toList ++ ' ' :: (pad 12 "IFACE".toList ++ ' ' :: (pad 6 "MTU".toList ++
    ' ' :: (pad 7 "LEN".toList ++ ' ' :: (pad 8 "PROTO".toList ++ ' ' :: pad 8 "MARK".toList))))

/-- `MetaOutput::format_meta(meta)`: `"{:<11} {:<12} {:<6} {:<7} {:<8} 0x{:<6x}"`. -/
def formatMeta (c : DevCache) (skbMeta : SkbMeta) (os : Option String) : DevCache × List Char :=
  let (c, ifaceStr) := formatIface c skbMeta.netns skbMeta.ifindex os
  (c, pad 11 (decText skbMeta.netns) ++ ' ' :: (pad 12 ifaceStr ++ ' ' ::
    (pad 6 (decText skbMeta.mtu) ++ ' ' :: (pad 7 (decText skbMeta.len) ++ ' ' ::
      (pad 8 (protoText skbMeta.proto) ++ ' ' :: ('0' :: 'x' ::
        pad 6 (Nat.toDigits 16 skbMeta.mark.toNat)))))))

/-! ## `Output` -/

/-- The fields of `Output`. -/
structure Out where
  outputMeta : Bool
  outputTuple : Bool
  timestampMode : TimestampMode
  startTs : BitVec 64
  deriving DecidableEq, Repr

/-- An `Output`, and the static variables that printing reads and writes. -/
structure Printer where
  out : Out
  ifnames : DevCache
  comms : CommCache
  boot : Option (BitVec 64)

/-- `Output::init(args)`, at the start of the program; `nsIno` is the inode number of
`/proc/self/ns/net`, if `stat` gives one. -/
def Printer.init (args : Args) (nsIno : Option (BitVec 64)) : Printer where
  out :=
    { outputMeta := args.outputMeta
      outputTuple := args.outputTuple
      timestampMode := (parseMode args.timestamp).getD .none
      startTs := 0 }
  ifnames :=
    let c := match nsIno with
      | some ino => setCurrentNetnsId .empty (ino.setWidth 32)
      | none => .empty
    if args.filterIfname ≠ "" ∧ args.filterIfindex ≠ 0 then
      registerIfname c args.filterNetnsId args.filterIfindex args.filterIfname
    else c
  comms _ := none
  boot := none

/-- The columns that are always there: `"{:<4} {:<20} {:<18} {:<32}"`. -/
def commonHeader : List Char :=
  pad 4 "CPU".toList ++ ' ' :: (pad 20 "PROCESS".toList ++ ' ' :: (pad 18 "SKB".toList ++
    ' ' :: pad 32 "FUNC".toList))

/-- `Output::print_header()`. -/
def printHeader (out : Out) : List Char :=
  let base :=
    if out.timestampMode ≠ .none then formatTimeHeader out.timestampMode ++ ' ' :: commonHeader
    else commonHeader
  if out.outputMeta ∧ out.outputTuple then
    base ++ ' ' :: (formatMetaHeader ++ ' ' :: "TUPLE".toList)
  else if out.outputMeta then base ++ ' ' :: formatMetaHeader
  else if out.outputTuple then base ++ ' ' :: "TUPLE".toList
  else base

/-- `func_name` in `print_entry`. -/
def funcText (event : SkbEvent) (o : Outside) : List Char :=
  let funcName := o.func.getD []
  if funcName = [] then hexText event.addr.toNat else funcName

/-- `"{:<4} {:<20} 0x{:<16x} {:<32}"`. -/
def commonBase (event : SkbEvent) (proc funcName : List Char) : List Char :=
  pad 4 (decText event.cpuId) ++ ' ' :: (pad 20 proc ++ ' ' :: ('0' :: 'x' ::
    (pad 16 (Nat.toDigits 16 event.skbAddr.toNat) ++ ' ' :: pad 32 funcName)))

/-- `Output::print_entry(event)`: the line. -/
def printEntry (s : Printer) (event : SkbEvent) (o : Outside) : Option (Printer × List Char) :=
  let startTs := if s.out.startTs = 0 then event.ts else s.out.startTs
  let (comms, proc) := formatProc s.comms event.pid o.comm
  let base := commonBase event proc (funcText event o)
  let timed :=
    if s.out.timestampMode ≠ .none then
      (formatTime s.out.timestampMode s.boot o event.ts startTs).map fun r =>
        (r.1, r.2 ++ ' ' :: base)
    else some (s.boot, base)
  timed.map fun r =>
    let s := { s with out := { s.out with startTs }, comms, boot := r.1 }
    if s.out.outputMeta ∧ s.out.outputTuple then
      let (ifnames, metaStr) := formatMeta s.ifnames event.skbMeta o.ifname
      ({ s with ifnames }, r.2 ++ ' ' :: (metaStr ++ ' ' :: formatTuple event.tuple))
    else if s.out.outputMeta then
      let (ifnames, metaStr) := formatMeta s.ifnames event.skbMeta o.ifname
      ({ s with ifnames }, r.2 ++ ' ' :: metaStr)
    else if s.out.outputTuple then (s, r.2 ++ ' ' :: formatTuple event.tuple)
    else (s, r.2)

/-! ## Cells -/

/-- The width of the column of the time. -/
def timeWidth : TimestampMode → Nat
  | .relative => 10
  | .current => 12
  | .absolute => 23
  | .none => 0

/-- The time of an entry, without the blanks. -/
def timeText (mode : TimestampMode) (boot : Option (BitVec 64)) (o : Outside)
    (eventTs startTs : BitVec 64) : Option (List Char) :=
  let ns := (getBootRealtimeNs boot o.realTs o.monoTs).1
  match mode with
  | .relative => some (o.seconds (eventTs.toNat - startTs.toNat))
  | .current => (eventRealtimeNs ns eventTs).map fun r =>
      inBuffer 32 (clockText (o.localtimeR (wallSec r)) (wallMs r))
  | .absolute => (eventRealtimeNs ns eventTs).map fun r =>
      inBuffer 64 (dateText (o.localtimeR (wallSec r)) ++
        'T' :: clockText (o.localtimeR (wallSec r)) (wallMs r))
  | .none => some []

/-- The texts of an entry that the event alone does not give. -/
structure Texts where
  time : List Char
  proc : List Char
  func : List Char
  iface : List Char

/-- `start_ts` while an entry is printed. -/
def startFor (out : Out) (event : SkbEvent) : BitVec 64 :=
  if out.startTs = 0 then event.ts else out.startTs

/-- The texts of the entry for this event. -/
def Printer.texts (s : Printer) (event : SkbEvent) (o : Outside) : Option Texts :=
  (timeText s.out.timestampMode s.boot o event.ts (startFor s.out event)).map fun time =>
    { time
      proc := (formatProc s.comms event.pid o.comm).2
      func := funcText event o
      iface := (formatIface s.ifnames event.skbMeta.netns event.skbMeta.ifindex o.ifname).2 }

/-- The title of that column, without the blanks. -/
def timeTitle : TimestampMode → List Char
  | .relative => "TIME(s)".toList
  | .current => "TIME".toList
  | .absolute => "TIME".toList
  | .none => []

/-- A line in the columns that the options ask for. -/
def cellsOf (out : Out) (time : List Char) (common metas : List Cell) (tuple : List Char) :
    List Cell :=
  (if out.timestampMode ≠ .none then [⟨timeWidth out.timestampMode, time⟩] else []) ++ common ++
    (if out.outputMeta then metas else []) ++ if out.outputTuple then [⟨0, tuple⟩] else []

/-- The title line. -/
def headerCells (out : Out) : List Cell :=
  cellsOf out (timeTitle out.timestampMode)
    [⟨4, "CPU".toList⟩, ⟨20, "PROCESS".toList⟩, ⟨18, "SKB".toList⟩, ⟨32, "FUNC".toList⟩]
    [⟨11, "NETNS".toList⟩, ⟨12, "IFACE".toList⟩, ⟨6, "MTU".toList⟩, ⟨7, "LEN".toList⟩,
      ⟨8, "PROTO".toList⟩, ⟨8, "MARK".toList⟩]
    "TUPLE".toList

/-- An entry. -/
def entryCells (out : Out) (event : SkbEvent) (x : Texts) : List Cell :=
  cellsOf out x.time
    [⟨4, decText event.cpuId⟩, ⟨20, x.proc⟩, ⟨18, hexText event.skbAddr.toNat⟩, ⟨32, x.func⟩]
    [⟨11, decText event.skbMeta.netns⟩, ⟨12, x.iface⟩, ⟨6, decText event.skbMeta.mtu⟩,
      ⟨7, decText event.skbMeta.len⟩, ⟨8, protoText event.skbMeta.proto⟩,
      ⟨8, hexText event.skbMeta.mark.toNat⟩]
    (formatTuple event.tuple)

/-! ## The lines are rows -/

variable {s s' : Printer} {event : SkbEvent} {o : Outside} {line : List Char}

/-- The blanks behind a number may be counted with its `0x`. -/
theorem pad_hex (width : Nat) (text : List Char) :
    '0' :: 'x' :: pad width text = pad (width + 2) ('0' :: 'x' :: text) := by
  unfold pad List.rightpad
  rw [List.length_cons, List.length_cons, Nat.add_sub_add_right, List.cons_append,
    List.cons_append]

theorem pad_zero (text : List Char) : pad 0 text = text := by
  unfold pad List.rightpad
  rw [Nat.zero_sub, List.replicate_zero, List.append_nil]

/-- The options put a line together of its parts. -/
theorem row_cellsOf (out : Out) (time : List Char) {common metas : List Cell} (tuple : List Char)
    (hcommon : common ≠ []) (hmetas : metas ≠ []) :
    row (cellsOf out time common metas tuple) =
      let base :=
        if out.timestampMode ≠ .none then
          pad (timeWidth out.timestampMode) time ++ ' ' :: row common
        else row common
      if out.outputMeta ∧ out.outputTuple then base ++ ' ' :: (row metas ++ ' ' :: tuple)
      else if out.outputMeta then base ++ ' ' :: row metas
      else if out.outputTuple then base ++ ' ' :: tuple
      else base := by
  have htuple : row [⟨0, tuple⟩] = tuple := pad_zero tuple
  have hbase : row ((if out.timestampMode ≠ .none then [⟨timeWidth out.timestampMode, time⟩]
      else []) ++ common) = if out.timestampMode ≠ .none then
        pad (timeWidth out.timestampMode) time ++ ' ' :: row common else row common := by
    split
    · exact row_cons hcommon
    · rfl
  have hne : (if out.timestampMode ≠ .none then [(⟨timeWidth out.timestampMode, time⟩ : Cell)]
      else []) ++ common ≠ [] := List.append_ne_nil_of_right_ne_nil _ hcommon
  unfold cellsOf
  rcases out.outputMeta with _ | _
  · rcases out.outputTuple with _ | _
    · simp only [Bool.false_eq_true, if_false, false_and, List.append_nil]
      exact hbase
    · simp only [Bool.false_eq_true, if_false, false_and, if_true, List.append_nil]
      rw [row_append hne (List.cons_ne_nil _ _), htuple, hbase]
  · rcases out.outputTuple with _ | _
    · simp only [Bool.false_eq_true, if_false, and_false, if_true, List.append_nil]
      rw [row_append hne hmetas, hbase]
    · simp only [and_self, if_true]
      rw [row_append (List.append_ne_nil_of_left_ne_nil hne _) (List.cons_ne_nil _ _),
        row_append hne hmetas, htuple, hbase, List.append_assoc, List.cons_append]

theorem formatTimeHeader_eq (mode : TimestampMode) :
    formatTimeHeader mode = pad (timeWidth mode) (timeTitle mode) := by
  cases mode <;> rfl

/-- **The title line.** -/
theorem printHeader_row (out : Out) : printHeader out = row (headerCells out) := by
  unfold headerCells
  rw [row_cellsOf _ _ _ (List.cons_ne_nil _ _) (List.cons_ne_nil _ _), ← formatTimeHeader_eq]
  rfl

/-- The offset of the clocks after a time was formatted. -/
def bootAfter (mode : TimestampMode) (boot : Option (BitVec 64)) (o : Outside) :
    Option (BitVec 64) :=
  match mode with
  | .current => (getBootRealtimeNs boot o.realTs o.monoTs).2
  | .absolute => (getBootRealtimeNs boot o.realTs o.monoTs).2
  | _ => boot

/-- The difference of the timestamps, zero for an event before the start. -/
theorem elapsed_eq (o : Outside) (eventTs startTs : BitVec 64) :
    (if startTs ≤ eventTs then o.seconds (eventTs - startTs).toNat else o.seconds 0) =
      o.seconds (eventTs.toNat - startTs.toNat) := by
  split
  next h => rw [BitVec.toNat_sub_of_le h]
  next h =>
    have hlt : eventTs.toNat < startTs.toNat := Nat.lt_of_not_le h
    rw [Nat.sub_eq_zero_of_le hlt.le]

theorem formatTime_eq (mode : TimestampMode) (boot : Option (BitVec 64)) (o : Outside)
    (eventTs startTs : BitVec 64) :
    formatTime mode boot o eventTs startTs = (timeText mode boot o eventTs startTs).map
      fun text => (bootAfter mode boot o, pad (timeWidth mode) text) := by
  unfold formatTime timeText bootAfter
  cases mode with
  | none => rfl
  | relative =>
    dsimp only
    rw [elapsed_eq]
    rfl
  | current =>
    dsimp only
    unfold formatCurrentTime
    rw [Option.map_map, Option.map_map]
    rfl
  | absolute =>
    dsimp only
    unfold formatAbsoluteTime
    rw [Option.map_map, Option.map_map]
    rfl

/-- The metadata are six cells; the mark is padded behind its `0x`, as if it had two
letters more. -/
theorem formatMeta_eq (c : DevCache) (skbMeta : SkbMeta) (os : Option String) :
    formatMeta c skbMeta os = ((formatIface c skbMeta.netns skbMeta.ifindex os).1,
      row [⟨11, decText skbMeta.netns⟩,
        ⟨12, (formatIface c skbMeta.netns skbMeta.ifindex os).2⟩, ⟨6, decText skbMeta.mtu⟩,
        ⟨7, decText skbMeta.len⟩, ⟨8, protoText skbMeta.proto⟩,
        ⟨8, hexText skbMeta.mark.toNat⟩]) := by
  unfold formatMeta
  dsimp only
  rw [pad_hex]
  rfl

theorem commonBase_eq (event : SkbEvent) (proc funcName : List Char) :
    commonBase event proc funcName = row [⟨4, decText event.cpuId⟩, ⟨20, proc⟩,
      ⟨18, hexText event.skbAddr.toNat⟩, ⟨32, funcName⟩] := by
  have hskb : '0' :: 'x' :: (pad 16 (Nat.toDigits 16 event.skbAddr.toNat) ++ ' ' ::
      pad 32 funcName) = pad 18 (hexText event.skbAddr.toNat) ++ ' ' :: pad 32 funcName :=
    congrArg (fun text => text ++ ' ' :: pad 32 funcName) (pad_hex 16 _)
  unfold commonBase
  rw [hskb]
  rfl

/-- The state behind an entry. -/
def Printer.next (s : Printer) (event : SkbEvent) (o : Outside) : Printer where
  out := { s.out with startTs := startFor s.out event }
  ifnames :=
    if s.out.outputMeta then
      (formatIface s.ifnames event.skbMeta.netns event.skbMeta.ifindex o.ifname).1
    else s.ifnames
  comms := (formatProc s.comms event.pid o.comm).1
  boot := if s.out.timestampMode ≠ .none then bootAfter s.out.timestampMode s.boot o else s.boot

/-- **An entry is a row in the columns of the title line**, if there is a time for it. -/
theorem printEntry_row (s : Printer) (event : SkbEvent) (o : Outside) :
    printEntry s event o =
      (s.texts event o).map fun x => (s.next event o, row (entryCells s.out event x)) := by
  unfold printEntry Printer.texts Printer.next entryCells startFor
  simp only [row_cellsOf _ _ _ (List.cons_ne_nil _ _) (List.cons_ne_nil _ _), formatTime_eq,
    formatMeta_eq, commonBase_eq, Option.map_map]
  by_cases hmode : s.out.timestampMode = .none
  · have htime : ∀ startTs, timeText .none s.boot o event.ts startTs = some [] := fun _ => rfl
    simp only [hmode, htime]
    rcases hm : s.out.outputMeta with _ | _ <;> rcases ht : s.out.outputTuple with _ | _ <;>
      simp
  · simp only [ne_eq, hmode, not_false_eq_true, if_true]
    rcases hm : s.out.outputMeta with _ | _ <;> rcases ht : s.out.outputTuple with _ | _ <;>
      simp [Function.comp_def]

/-- What the system answers while an entry is printed without a time. -/
def quietOutside : Outside where
  func := some "kfree_skb".toList
  comm := some "curl\n".toList
  ifname := some "eth0"
  realTs := ⟨0, 0⟩
  monoTs := ⟨0, 0⟩
  localtimeR := firstDay
  seconds _ := []

end SkbTracer.Output
