import Mathlib.Logic.Function.Basic
import SkbTracer.Kprobe.Record
import SkbTracer.Lib.History
import SkbTracer.Lib.RecordRing
import SkbTracer.Trace.Attach
import SkbTracer.Trace.Request

/-!
# The tracer at work

Probes are hit on any processor at any time. A program whose filters pass reserves a
record in the ring buffer, if there is room, and submits it later; `TraceMgr::run` polls
the buffer and hands every record to the callback, until a signal or an error ends the
loop. `Tracer.step` is one step of any of them, so a run is any interleaving.

`reservations` are the events that got a record, in order, and depend on the hits alone.

- `step_consistent`: `Consistent` says what a tracer shows of its past, and every step
  keeps it: what was printed is a beginning of the reservations, so no event is lost in
  between, printed twice or out of order, and what is not printed is still in the buffer.
- `exactly_once`: this for every run. A program that has not submitted yet holds up the
  events behind its own, and if there is none a poll can print everything.
- `run_returns`: how the loop came to its end, by the invariant `Ended`. The loop's
  condition and the call behind it are two steps, so a signal between them is followed by
  one poll more.
- `printed_skb`: every event printed is that of a call of a listed function, with the
  sk_buff that this function takes.

The ring is not part of the source: it is the kernel's, and libbpf's `ring_buffer__poll`
takes from it. So it is a parameter, any type with the operations and laws of
`Lib.RingBuffer`, and the theorems hold over each of them; that the order is kept inside
the ring is such a law. What the source adds is that every record reserved is submitted
once, with the event whose filters passed, and that the loop hands on all it gets. Memory
and helpers are those of the moment of a hit, and may be others at the next.
-/

namespace SkbTracer.Trace

open SkbTracer.Lib (RingBuffer RecordRing RunsTo Byte Mem Res OrdMap Acyclic)
open SkbTracer.Symdb
open SkbTracer.Kprobe
open SkbTracer.Bpf (EbpfState Helper)
open SkbTracer.Cfg (Args initArgs)

/-! ## The code -/

/-- `EFAULT` and `EINTR`. -/
def efault : Int := 14
/-- `EINTR`. -/
def eintr : Int := 4

/-- A probe is hit: by a call of the function that its link is for, with memory and the
helpers as they are then. -/
structure Hit where
  link : Link
  call : Call
  mem : Mem
  env : ProbeEnv
  n : Nat
  ω : Nat → Helper
  s : EbpfState

/-- Where `TraceMgr::run` is: before the loop, at its condition, behind that and about to
call `ring_buffer__poll`, in this call, or behind the loop. -/
inductive Phase where
  | setup | looping | calling | polling
  | returned (ret : Int)
  deriving DecidableEq, Repr

/-- The ring buffer, the programs that have a record in it to submit, and the tracer. The
ring buffer is the kernel's and libbpf's, and may be any that keeps to `RingBuffer`. -/
structure Tracer (ρ : Type) where
  ring : ρ
  running : Nat → Option SkbEvent
  phase : Phase
  exiting : Bool
  /-- the events that `print_entry` was called with -/
  printed : List SkbEvent

/-- The tracer before its first step. -/
def Tracer.start {ρ : Type} [RingBuffer ρ (List Byte)] : Tracer ρ :=
  ⟨RingBuffer.empty, fun _ => none, .setup, false, []⟩

/-- A step of the tracer or of its surroundings. -/
inductive Act where
  /-- `reserved` is what `bpf_ringbuf_reserve` gives if the program calls it -/
  | hit (h : Hit) (reserved : Option SkbEvent)
  | submit (place : Nat)
  /-- a signal comes, and `sig_handler` calls `TraceMgr::stop` -/
  | signal
  /-- `mapFd` is what `bpf_map__fd` returns, `rb` the outcome of `ring_buffer__new` -/
  | setup (mapFd : Int) (rb : Except Int Unit)
  | test
  | poll
  | deliver
  | pollEnd (err : Int)

section

variable {ρ : Type} [RingBuffer ρ (List Byte)] (K : KernelLayout) (cfg : SkbConfig) (p : Filters)

/-- The event that the program submits, if it does. -/
def Hit.event (h : Hit) (reserved : Option SkbEvent) : Option SkbEvent :=
  match (skelProgs K h.mem cfg p).lookup h.link.prog with
  | none => none
  | some run =>
    match run h.call.ctx h.env reserved h.n h.ω h.s with
    | .done (_, event) => event
    | _ => none

/-- A program runs until it has its record. -/
def Tracer.hit (t : Tracer ρ) (h : Hit) (reserved : Option SkbEvent) : Tracer ρ :=
  match h.event K cfg p reserved with
  | none => t
  | some event =>
    { t with
      ring := RingBuffer.reserve t.ring
      running := Function.update t.running (RingBuffer.next t.ring) (some event) }

/-- The program with the record at `place` submits it. -/
def Tracer.submit (t : Tracer ρ) (place : Nat) : Option (Tracer ρ) :=
  (t.running place).map fun event =>
    { t with
      ring := RingBuffer.commit t.ring place event.bytes
      running := Function.update t.running place none }

end

/-- `TraceMgr::run` up to the loop. -/
def runSetup (mapFd : Int) (rb : Except Int Unit) : Phase :=
  if mapFd < 0 then .returned (-efault)
  else
    match rb with
    | .error errno => .returned (-errno)
    | .ok () => .looping

/-- `while (!p->exiting)`. -/
def loopTest (exiting : Bool) : Phase := if exiting then .returned 0 else .calling

/-- The rest of the loop. -/
def pollEnd (err : Int) : Phase :=
  if err < 0 then
    if err = -eintr then .looping else .returned err
  else .looping

/-- Where `run` goes by a step of its own. -/
def Phase.step (exiting : Bool) : Phase → Act → Option Phase
  | .setup, .setup mapFd rb => some (runSetup mapFd rb)
  | .looping, .test => some (loopTest exiting)
  | .calling, .poll => some .polling
  | .polling, .pollEnd err => some (pollEnd err)
  | _, _ => none

section

variable {ρ : Type} [RingBuffer ρ (List Byte)]

/-- `ring_buffer__poll` gives a record to `handle_ringbuf_event`, and that to the
callback. -/
def Tracer.deliver (t : Tracer ρ) : Option (Tracer ρ) :=
  if t.phase = .polling then
    (RingBuffer.take? t.ring).map fun r =>
      { t with ring := r.2, printed := t.printed ++ (callback r.1).toList }
  else none

/-- One step; `none` if it cannot be made. -/
def Tracer.step (K : KernelLayout) (cfg : SkbConfig) (p : Filters) (t : Tracer ρ) :
    Act → Option (Tracer ρ)
  | .hit h reserved => some (t.hit K cfg p h reserved)
  | .submit place => t.submit place
  | .signal => some { t with exiting := true }
  | .deliver => t.deliver
  | act => (t.phase.step t.exiting act).map fun phase => { t with phase }

variable (K : KernelLayout) (cfg : SkbConfig) (p : Filters)

/-- A tracer and the steps that led to it, the last one first. -/
abbrev Reaches : List Act → Tracer ρ → Prop := RunsTo (Tracer.step K cfg p) .start

/-! ## What a past says -/

/-- The events that got a record, the first first. -/
def reservations : List Act → List SkbEvent
  | [] => []
  | .hit h reserved :: past => reservations past ++ (h.event K cfg p reserved).toList
  | _ :: past => reservations past

/-- What a tracer shows of its past. -/
structure Consistent (past : List Act) (t : Tracer ρ) : Prop where
  ring : RingBuffer.Serves ((reservations K cfg p past).map SkbEvent.bytes) t.ring
  running : ∀ place event, t.running place = some event →
    RingBuffer.Busy t.ring place ∧ (reservations K cfg p past)[place]? = some event
  busy : ∀ place, RingBuffer.Busy t.ring place → t.running place ≠ none
  printed : t.printed = (reservations K cfg p past).take (RingBuffer.taken t.ring).length

end

/-! ## Every run -/

variable {ρ : Type} [RingBuffer ρ (List Byte)] {K : KernelLayout} {cfg : SkbConfig} {p : Filters}
  {past : List Act} {act : Act} {t t' : Tracer ρ}

theorem start_consistent : Consistent K cfg p [] (.start : Tracer ρ) := by
  refine ⟨RingBuffer.Serves.empty, fun _ _ h => ?_, fun _ h => ?_, List.take_nil.symm⟩
  · cases h
  · exact absurd h RingBuffer.not_busy_empty

/-- A step that touches neither the ring nor the programs nor the output. -/
theorem Consistent.frame (h : Consistent K cfg p past t)
    (hres : reservations K cfg p (act :: past) = reservations K cfg p past)
    (hring : t'.ring = t.ring) (hrunning : t'.running = t.running)
    (hprinted : t'.printed = t.printed) : Consistent K cfg p (act :: past) t' := by
  refine ⟨?_, ?_, ?_, ?_⟩
  · rw [hres, hring]
    exact h.ring
  · rw [hres, hring, hrunning]
    exact h.running
  · rw [hring, hrunning]
    exact h.busy
  · rw [hres, hring, hprinted]
    exact h.printed

/-- A program that gets a record is the next in the ring. -/
theorem hit_consistent (h : Consistent K cfg p past t) (hit : Hit) (reserved : Option SkbEvent) :
    Consistent K cfg p (.hit hit reserved :: past) (t.hit K cfg p hit reserved) := by
  have hres : reservations K cfg p (.hit hit reserved :: past) =
      reservations K cfg p past ++ (hit.event K cfg p reserved).toList := rfl
  unfold Tracer.hit
  rcases hevent : hit.event K cfg p reserved with _ | event
  · -- a program that gets no record leaves no trace
    rw [hevent, Option.toList_none, List.append_nil] at hres
    exact h.frame hres rfl rfl rfl
  · rw [hevent, Option.toList_some] at hres
    dsimp only
    have hnext : RingBuffer.next t.ring = (reservations K cfg p past).length := by
      rw [h.ring.next, List.length_map]
    constructor
    · rw [hres, List.map_append]
      exact h.ring.reserve _
    · intro place e he
      rw [hres]
      by_cases hp : place = RingBuffer.next t.ring
      · subst hp
        have he' := Function.update_self (RingBuffer.next t.ring) (some event) t.running
        refine ⟨RingBuffer.busy_reserve.mpr (Or.inr rfl), ?_⟩
        rw [hnext, List.getElem?_append_right (Nat.le_refl _), Nat.sub_self]
        exact he'.symm.trans he
      · dsimp only at he
        rw [Function.update_of_ne hp] at he
        obtain ⟨hbusy, hlog⟩ := h.running place e he
        refine ⟨RingBuffer.busy_reserve.mpr (Or.inl hbusy), ?_⟩
        rw [List.getElem?_append_left (List.getElem?_eq_some_iff.mp hlog).1]
        exact hlog
    · intro place hbusy
      dsimp only at hbusy ⊢
      by_cases hp : place = RingBuffer.next t.ring
      · rw [hp, Function.update_self]
        exact Option.some_ne_none _
      · rw [Function.update_of_ne hp]
        exact h.busy place ((RingBuffer.busy_reserve.mp hbusy).resolve_right hp)
    · -- what was taken is no longer than the log was
      have hle : (RingBuffer.taken t.ring).length ≤ (reservations K cfg p past).length := by
        have := h.ring.taken.length_le
        rwa [List.length_map] at this
      show t.printed = _
      rw [hres, RingBuffer.taken_reserve, List.take_append_of_le_length hle]
      exact h.printed

/-- A program submits the event that it has reserved a record for. -/
theorem submit_consistent (h : Consistent K cfg p past t) {place : Nat}
    (hs : t.submit place = some t') : Consistent K cfg p (.submit place :: past) t' := by
  obtain ⟨event, hrun, rfl⟩ := Option.map_eq_some_iff.mp hs
  obtain ⟨hbusy, hlog⟩ := h.running place event hrun
  constructor
  · apply h.ring.commit hbusy
    rw [List.getElem?_map]
    exact congrArg (Option.map SkbEvent.bytes) hlog
  · intro q e he
    dsimp only at he
    by_cases hq : q = place
    · rw [hq, Function.update_self] at he
      cases he
    · rw [Function.update_of_ne hq] at he
      obtain ⟨hbusy', hlog'⟩ := h.running q e he
      exact ⟨(RingBuffer.busy_commit hbusy).mpr ⟨hbusy', hq⟩, hlog'⟩
  · intro q hq
    obtain ⟨hbusy', hne⟩ := (RingBuffer.busy_commit hbusy).mp hq
    dsimp only
    rw [Function.update_of_ne hne]
    exact h.busy q hbusy'
  · show t.printed = _
    rw [(RingBuffer.commit_of_busy hbusy event.bytes).1]
    exact h.printed

/-- What `ring_buffer__poll` finds at the front is what was reserved next. -/
theorem deliver_consistent (h : Consistent K cfg p past t) (hs : t.deliver = some t') :
    Consistent K cfg p (.deliver :: past) t' := by
  unfold Tracer.deliver at hs
  split at hs
  next =>
    obtain ⟨⟨data, ring⟩, htake, rfl⟩ := Option.map_eq_some_iff.mp hs
    obtain ⟨hserves, hdata⟩ := h.ring.take htake
    rw [List.getElem?_map] at hdata
    obtain ⟨event, hevent, rfl⟩ := Option.map_eq_some_iff.mp hdata
    have hcb : callback event.bytes = some event := by
      have := callback_bytes event []
      rwa [List.append_nil] at this
    constructor
    · exact hserves
    · intro q e he
      obtain ⟨hbusy, hlog⟩ := h.running q e he
      exact ⟨(RingBuffer.busy_take htake).mpr hbusy, hlog⟩
    · intro q hq
      exact h.busy q ((RingBuffer.busy_take htake).mp hq)
    · show t.printed ++ (callback event.bytes).toList =
        (reservations K cfg p past).take (RingBuffer.taken ring).length
      rw [hcb, (RingBuffer.take?_eq_some htake).1, List.length_append, List.length_singleton,
        List.take_add_one, hevent, h.printed]
  next => cases hs

/-- **Every step keeps it.** -/
theorem step_consistent (h : Consistent K cfg p past t) (hs : t.step K cfg p act = some t') :
    Consistent K cfg p (act :: past) t' := by
  have hphase : ∀ {act : Act}, reservations K cfg p (act :: past) = reservations K cfg p past →
      ((t.phase.step t.exiting act).map fun phase => { t with phase }) = some t' →
      Consistent K cfg p (act :: past) t' := by
    intro act hres hmap
    obtain ⟨phase, -, rfl⟩ := Option.map_eq_some_iff.mp hmap
    exact h.frame hres rfl rfl rfl
  cases act with
  | hit hit reserved =>
    obtain rfl := Option.some.inj hs
    exact hit_consistent h hit reserved
  | submit place => exact submit_consistent h hs
  | deliver => exact deliver_consistent h hs
  | signal =>
    obtain rfl := Option.some.inj hs
    exact h.frame rfl rfl rfl rfl
  | setup mapFd rb => exact hphase rfl hs
  | test => exact hphase rfl hs
  | poll => exact hphase rfl hs
  | pollEnd err => exact hphase rfl hs

/-- And so every run has it. -/
theorem reaches_consistent (h : Reaches K cfg p past t) : Consistent K cfg p past t :=
  h.invariant start_consistent step_consistent

/-! ## Nothing is lost, doubled or exchanged -/

/-- The reservations are what was printed and then what is in the buffer: every record there
has its event in it, or belongs to a program that is going to submit it. -/
def InOrder (K : KernelLayout) (cfg : SkbConfig) (p : Filters) (past : List Act) (t : Tracer ρ) :
    Prop :=
  ∃ left, reservations K cfg p past = t.printed ++ left ∧
    left.length = (RingBuffer.pending t.ring).length ∧
    ∀ (i : Nat) event, left[i]? = some event →
      (RingBuffer.pending t.ring)[i]? = some (some event.bytes) ∨
        (RingBuffer.pending t.ring)[i]? = some none ∧
          t.running (t.printed.length + i) = some event

theorem Consistent.printed_length (h : Consistent K cfg p past t) :
    t.printed.length = (RingBuffer.taken t.ring).length := by
  have hle := h.ring.taken.length_le
  rw [List.length_map] at hle
  rw [h.printed, List.length_take]
  omega

/-- What is printed is a beginning of what was reserved, and the rest is still in the
buffer. -/
theorem reaches_inOrder (h : Reaches K cfg p past t) : InOrder K cfg p past t := by
  have hc := reaches_consistent h
  have hlen := hc.printed_length
  refine ⟨(reservations K cfg p past).drop (RingBuffer.taken t.ring).length, ?_, ?_,
    fun i event hleft => ?_⟩
  · rw [hc.printed, List.take_append_drop]
  · have hdrop := hc.ring.taken_eq.2
    rw [List.length_drop, List.length_map] at hdrop
    rw [List.length_drop]
    exact hdrop
  · rw [List.getElem?_drop] at hleft
    have hlt := (List.getElem?_eq_some_iff.mp hleft).1
    have hnext := hc.ring.next
    unfold RingBuffer.next at hnext
    rw [List.length_map] at hnext
    have hi : i < (RingBuffer.pending t.ring).length := by omega
    rcases hslot : (RingBuffer.pending t.ring)[i] with _ | data
    · -- reserved and not submitted
      have hnone : (RingBuffer.pending t.ring)[i]? = some none := by
        rw [List.getElem?_eq_getElem hi, hslot]
      have hbusy : RingBuffer.Busy t.ring ((RingBuffer.taken t.ring).length + i) :=
        ⟨Nat.le_add_right _ _, by rw [Nat.add_sub_cancel_left]; exact hnone⟩
      obtain ⟨e, he⟩ := Option.ne_none_iff_exists'.mp (hc.busy _ hbusy)
      have hlog := (hc.running _ e he).2
      rw [hleft] at hlog
      cases hlog
      exact Or.inr ⟨hnone, by rw [hlen]; exact he⟩
    · have hsome : (RingBuffer.pending t.ring)[i]? = some (some data) := by
        rw [List.getElem?_eq_getElem hi, hslot]
      have hready := hc.ring.ready i data hsome
      rw [List.getElem?_map, hleft] at hready
      cases hready
      exact Or.inl hsome

/-- An event that got a record is that of a hit. -/
theorem mem_reservations {event : SkbEvent} (h : event ∈ reservations K cfg p past) :
    ∃ hit reserved, .hit hit reserved ∈ past ∧ hit.event K cfg p reserved = some event := by
  induction past with
  | nil => cases h
  | cons act past ih =>
    have hold : event ∈ reservations K cfg p past → ∃ hit reserved,
        .hit hit reserved ∈ act :: past ∧ hit.event K cfg p reserved = some event := by
      intro hmem
      obtain ⟨hit, reserved, hin, hevent⟩ := ih hmem
      exact ⟨hit, reserved, List.mem_cons_of_mem _ hin, hevent⟩
    cases act with
    | hit hit reserved =>
      rcases List.mem_append.mp h with hmem | hmem
      · exact hold hmem
      · exact ⟨hit, reserved, List.mem_cons_self, Option.mem_toList.mp hmem⟩
    | submit | signal | setup | test | poll | deliver | pollEnd => exact hold h

/-- What is printed is the event of a hit. -/
theorem printed_of_hit (h : Reaches K cfg p past t) {event : SkbEvent} (hmem : event ∈ t.printed) :
    ∃ hit reserved, .hit hit reserved ∈ past ∧ hit.event K cfg p reserved = some event := by
  obtain ⟨left, hleft, -⟩ := reaches_inOrder h
  exact mem_reservations (by rw [hleft]; exact List.mem_append_left _ hmem)

/-! ## A poll can print everything -/

/-- While a poll goes on and no program is about to submit, the next record can be given to
the callback. -/
theorem deliver_ready (h : Consistent K cfg p past t) (hphase : t.phase = .polling)
    (hidle : ∀ place, t.running place = none) (hne : RingBuffer.pending t.ring ≠ []) :
    ∃ t', t.deliver = some t' ∧ t'.phase = .polling ∧ (∀ place, t'.running place = none) ∧
      (RingBuffer.pending t'.ring).length + 1 = (RingBuffer.pending t.ring).length := by
  -- a record that is not submitted has a program
  obtain ⟨data, ring, htake⟩ :=
    RingBuffer.exists_take (fun place hbusy => h.busy place hbusy (hidle place)) hne
  refine ⟨{ t with ring, printed := t.printed ++ (callback data).toList }, ?_, hphase, hidle, ?_⟩
  · unfold Tracer.deliver
    rw [if_pos hphase, htake]
    rfl
  · rw [(RingBuffer.take?_eq_some htake).2, List.length_cons]

/-- If no program is about to submit, a poll can print all that was reserved. -/
theorem poll_drains (h : Reaches K cfg p past t) (hphase : t.phase = .polling)
    (hidle : ∀ place, t.running place = none) :
    ∃ (n : Nat) (t' : Tracer ρ), Reaches K cfg p (List.replicate n .deliver ++ past) t' ∧
      RingBuffer.pending t'.ring = [] ∧ t'.printed = reservations K cfg p past := by
  -- by induction on the number of records in the buffer
  generalize hn : (RingBuffer.pending t.ring).length = n
  induction n generalizing past t with
  | zero =>
    have hnil := List.length_eq_zero_iff.mp hn
    refine ⟨0, t, h, hnil, ?_⟩
    obtain ⟨left, hleft, hlen, -⟩ := reaches_inOrder h
    rw [hn] at hlen
    rw [hleft, List.length_eq_zero_iff.mp hlen, List.append_nil]
  | succ n ih =>
    have hne : RingBuffer.pending t.ring ≠ [] := by
      intro hnil
      rw [hnil] at hn
      cases hn
    obtain ⟨t', ht', hphase', hidle', hlen⟩ := deliver_ready (reaches_consistent h) hphase hidle hne
    have hstep : Reaches K cfg p (.deliver :: past) t' := .step h ht'
    obtain ⟨k, t'', hreach, hnil, hprinted⟩ := ih hstep hphase' hidle' (by omega)
    refine ⟨k + 1, t'', ?_, hnil, hprinted⟩
    rw [List.replicate_succ', List.append_assoc]
    exact hreach

/-- **Every event is printed once, in its place.** However hits, submissions and the loop
interleave, what was printed is a beginning of what was reserved, in that order, and the
rest is in the buffer or with the programs that will submit it. If there is no such program,
a poll can print all of it. -/
theorem exactly_once (h : Reaches K cfg p past t) :
    InOrder K cfg p past t ∧
      (t.phase = .polling → (∀ place, t.running place = none) →
        ∃ (n : Nat) (t' : Tracer ρ), Reaches K cfg p (List.replicate n .deliver ++ past) t' ∧
          RingBuffer.pending t'.ring = [] ∧ t'.printed = reservations K cfg p past) :=
  ⟨reaches_inOrder h, poll_drains h⟩

/-- A call of `kfree_skb`, with the sk_buff as its one argument. -/
def kfreeCall (skb : BitVec 64) : Call where
  args := [skb]
  ctx := ⟨skb, 0, 0, 0, 0⟩
  inRegs := by
    intro k a hk _
    cases k with
    | zero => exact hk
    | succ k => cases hk

/-- `kfree_skb` is called with the skb of a setting. -/
def Setting.hit (S : Setting) : Hit where
  link := ⟨"kfree_skb", "kprobe_skb_1", 0⟩
  call := kfreeCall S.skb
  mem := S.m
  env := S.env
  n := S.steps
  ω := S.helpers
  s := S.state

theorem Setting.Submits.hit_event {S : Setting} {args : Args} {event : SkbEvent}
    (h : S.Submits args event) : ∃ filters cfg,
      init S.pcap S.alloc 0 0 S.filters S.cfg args = .ok (0, filters, cfg) ∧
        S.hit.event S.K cfg filters S.reserved = some event := by
  obtain ⟨-, -, filters, cfg, ret, hinit, hrun⟩ := h
  have hevent : S.hit.event S.K cfg filters S.reserved =
      match kprobeSkb S.K S.m cfg filters S.skb S.env S.reserved S.steps S.helpers S.state with
      | .done (_, event) => event
      | _ => none := rfl
  rw [hrun] at hevent
  exact ⟨filters, cfg, hinit, hevent⟩

/-- The event of a hit is the first record, and its program submits it while a poll is going
on. -/
theorem exists_submitted {hit : Hit} {reserved : Option SkbEvent} {event : SkbEvent}
    (h : hit.event K cfg p reserved = some event) :
    ∃ (past : List Act) (t : Tracer (RecordRing (List Byte))), Reaches K cfg p past t ∧
      reservations K cfg p past = [event] ∧
      (∀ hit' reserved', .hit hit' reserved' ∈ past → hit' = hit) ∧
      t.phase = .polling ∧ t.printed = [] ∧ ∀ place, t.running place = none := by
  have hpoll : Reaches K cfg p [.poll, .test, .setup 3 (.ok ())]
      ({ Tracer.start with phase := .polling } : Tracer (RecordRing (List Byte))) :=
    .step (.step (.step .start rfl) rfl) rfl
  have hhit : Tracer.step K cfg p
      ({ Tracer.start with phase := .polling } : Tracer (RecordRing (List Byte)))
      (.hit hit reserved) =
      some ⟨⟨[], [none]⟩, Function.update (fun _ => none) 0 (some event), .polling, false, []⟩ := by
    show some (Tracer.hit K cfg p _ hit reserved) = _
    unfold Tracer.hit
    rw [h]
    rfl
  refine ⟨[.submit 0, .hit hit reserved, .poll, .test, .setup 3 (.ok ())], _,
    .step (.step hpoll hhit) rfl, ?_, ?_, rfl, rfl, fun place => ?_⟩
  · show [] ++ (hit.event K cfg p reserved).toList = _
    rw [h]
    rfl
  · intro hit' reserved' hmem
    simp only [List.mem_cons, reduceCtorEq, Act.hit.injEq, List.not_mem_nil, or_false,
      false_or] at hmem
    exact hmem.1
  · dsimp only
    rw [Function.update_idem]
    by_cases hp : place = 0
    · rw [hp, Function.update_self]
    · rw [Function.update_of_ne hp]

/-- The event of any hit can be printed. -/
theorem exists_printed {hit : Hit} {reserved : Option SkbEvent} {event : SkbEvent}
    (h : hit.event K cfg p reserved = some event) :
    ∃ (past : List Act) (t : Tracer (RecordRing (List Byte))), Reaches K cfg p past t ∧
      t.printed = [event] ∧
      ∀ hit' reserved', .hit hit' reserved' ∈ past → hit' = hit := by
  obtain ⟨past, t, hreach, hres, honly, hphase, -, hidle⟩ := exists_submitted h
  obtain ⟨n, t', hreach', -, hprinted⟩ := poll_drains hreach hphase hidle
  refine ⟨_, t', hreach', hprinted.trans hres, fun hit' reserved' hmem => ?_⟩
  rcases List.mem_append.mp hmem with hmem | hmem
  · cases List.eq_of_mem_replicate hmem
  · exact honly hit' reserved' hmem

/-- A call of `kfree_skb` has its event reserved and not printed, and a poll prints it. -/
theorem exactly_once_kfree : ∃ K cfg p past event, ∃ t : Tracer (RecordRing (List Byte)),
    reservations K cfg p past = [event] ∧ t.printed = [] ∧ InOrder K cfg p past t ∧
      ∃ (n : Nat) (t' : Tracer (RecordRing (List Byte))),
        Reaches K cfg p (List.replicate n .deliver ++ past) t' ∧ t'.printed = [event] := by
  obtain ⟨S, event, hsub, -⟩ := exists_submits initArgs 0 5 0 (fun h => absurd rfl h)
    (fun h => absurd rfl h) (fun h => absurd rfl h)
  obtain ⟨filters, cfg, -, hevent⟩ := hsub.hit_event
  obtain ⟨past, t, hreach, hres, -, hphase, hprinted, hidle⟩ := exists_submitted hevent
  obtain ⟨horder, hdrain⟩ := exactly_once hreach
  obtain ⟨n, t', hreach', -, hprinted'⟩ := hdrain hphase hidle
  exact ⟨_, _, _, past, event, t, hres, hprinted, horder, n, t', hreach', hprinted'.trans hres⟩

/-! ## How the loop ends -/

/-- How often `ring_buffer__poll` was called. -/
def polls : List Act → Nat
  | [] => 0
  | .poll :: past => polls past + 1
  | _ :: past => polls past

/-- What the phase shows of the past. -/
structure Ended (past : List Act) (t : Tracer ρ) : Prop where
  exiting : t.exiting = true ↔ .signal ∈ past
  returned : ∀ r, t.phase = .returned r →
    r = 0 ∧ .signal ∈ past ∨ (.pollEnd r ∈ past ∧ r < 0 ∧ r ≠ -eintr) ∨
      ∃ mapFd rb, .setup mapFd rb ∈ past ∧ runSetup mapFd rb = .returned r
  errors : ∀ err, .pollEnd err ∈ past → t.phase = .returned err ∨ 0 ≤ err ∨ err = -eintr
  /-- a call that is due after a signal counts as made -/
  polls : ∀ later earlier, past = later ++ .signal :: earlier →
    polls later + (if t.phase = .calling then 1 else 0) ≤ 1

/-- The steps that `run` makes itself. -/
theorem phase_step_cases {exiting : Bool} {phase phase' : Phase}
    (h : phase.step exiting act = some phase') :
    (∃ mapFd rb, act = .setup mapFd rb ∧ phase = .setup ∧ phase' = runSetup mapFd rb) ∨
      (act = .test ∧ phase = .looping ∧ phase' = loopTest exiting) ∨
      (act = .poll ∧ phase = .calling ∧ phase' = .polling) ∨
      ∃ err, act = .pollEnd err ∧ phase = .polling ∧ phase' = pollEnd err := by
  unfold Phase.step at h
  split at h
  next mapFd rb => exact Or.inl ⟨mapFd, rb, rfl, rfl, (Option.some.inj h).symm⟩
  next => exact Or.inr (Or.inl ⟨rfl, rfl, (Option.some.inj h).symm⟩)
  next => exact Or.inr (Or.inr (Or.inl ⟨rfl, rfl, (Option.some.inj h).symm⟩))
  next err => exact Or.inr (Or.inr (Or.inr ⟨err, rfl, rfl, (Option.some.inj h).symm⟩))
  next => cases h

theorem runSetup_cases (mapFd : Int) (rb : Except Int Unit) :
    runSetup mapFd rb = .looping ∨ ∃ r, runSetup mapFd rb = .returned r := by
  unfold runSetup
  split
  · exact Or.inr ⟨_, rfl⟩
  · split
    · exact Or.inr ⟨_, rfl⟩
    · exact Or.inl rfl

theorem pollEnd_cases (err : Int) : pollEnd err = .looping ∧ (0 ≤ err ∨ err = -eintr) ∨
    pollEnd err = .returned err ∧ err < 0 ∧ err ≠ -eintr := by
  unfold pollEnd
  by_cases hneg : err < 0
  · rw [if_pos hneg]
    by_cases hintr : err = -eintr
    · exact Or.inl ⟨if_pos hintr, Or.inr hintr⟩
    · exact Or.inr ⟨if_neg hintr, hneg, hintr⟩
  · exact Or.inl ⟨if_neg hneg, Or.inl (not_lt.mp hneg)⟩

/-- What a step does to the phase and to `exiting`. -/
theorem step_phase_cases (hs : t.step K cfg p act = some t') :
    (t'.phase = t.phase ∧ (t'.exiting = t.exiting ∧ act ≠ .signal ∨
        t'.exiting = true ∧ act = .signal) ∧ (act ≠ .poll ∧ ∀ err, act ≠ .pollEnd err) ∧
        (t'.printed = t.printed ∨ t.phase = .polling)) ∨
      t'.exiting = t.exiting ∧ t'.printed = t.printed ∧
        t.phase.step t.exiting act = some t'.phase := by
  have hphase : ((t.phase.step t.exiting act).map fun phase => { t with phase }) = some t' →
      t'.exiting = t.exiting ∧ t'.printed = t.printed ∧
        t.phase.step t.exiting act = some t'.phase := by
    intro hmap
    obtain ⟨phase, hstep, rfl⟩ := Option.map_eq_some_iff.mp hmap
    exact ⟨rfl, rfl, hstep⟩
  cases act with
  | hit hit reserved =>
    obtain rfl := Option.some.inj hs
    left
    unfold Tracer.hit
    split
    next => exact ⟨rfl, Or.inl ⟨rfl, by simp⟩, by simp, Or.inl rfl⟩
    next => exact ⟨rfl, Or.inl ⟨rfl, by simp⟩, by simp, Or.inl rfl⟩
  | submit place =>
    obtain ⟨event, -, rfl⟩ := Option.map_eq_some_iff.mp hs
    exact Or.inl ⟨rfl, Or.inl ⟨rfl, by simp⟩, by simp, Or.inl rfl⟩
  | deliver =>
    have hd : t.deliver = some t' := hs
    unfold Tracer.deliver at hd
    split at hd
    next hpoll =>
      obtain ⟨r, -, rfl⟩ := Option.map_eq_some_iff.mp hd
      exact Or.inl ⟨rfl, Or.inl ⟨rfl, by simp⟩, by simp, Or.inr hpoll⟩
    next => cases hd
  | signal =>
    obtain rfl := Option.some.inj hs
    exact Or.inl ⟨rfl, Or.inr ⟨rfl, rfl⟩, by simp, Or.inl rfl⟩
  | setup mapFd rb => exact Or.inr (hphase hs)
  | test => exact Or.inr (hphase hs)
  | poll => exact Or.inr (hphase hs)
  | pollEnd err => exact Or.inr (hphase hs)

/-- `run` makes no step of its own by a signal, nor when it has returned. -/
theorem phase_step_from {exiting : Bool} {phase phase' : Phase}
    (h : phase.step exiting act = some phase') :
    act ≠ .signal ∧ ∀ r, phase ≠ .returned r := by
  rcases phase_step_cases h with ⟨mapFd, rb, rfl, rfl, -⟩ | ⟨rfl, rfl, -⟩ | ⟨rfl, rfl, -⟩ |
    ⟨err, rfl, rfl, -⟩ <;> simp

/-- Only the loop's condition leads to a call of `ring_buffer__poll`. -/
theorem phase_step_calling {exiting : Bool} {phase : Phase}
    (h : phase.step exiting act = some .calling) : exiting = false := by
  rcases phase_step_cases h with ⟨mapFd, rb, -, -, hto⟩ | ⟨-, -, hto⟩ | ⟨-, -, hto⟩ |
    ⟨err, -, -, hto⟩
  · rcases runSetup_cases mapFd rb with hrun | ⟨r, hrun⟩ <;> rw [hrun] at hto <;> cases hto
  · cases exiting with
    | false => rfl
    | true => cases hto
  · cases hto
  · rcases pollEnd_cases err with ⟨hend, -⟩ | ⟨hend, -⟩ <;> rw [hend] at hto <;> cases hto

/-- After a signal no step leads from the loop's condition to a call of `ring_buffer__poll`. -/
theorem step_calling (he : t.exiting = true ↔ .signal ∈ past) (hs : t.step K cfg p act = some t')
    (hsig : .signal ∈ past) (hcalling : t'.phase = .calling) :
    t.phase = .calling ∧ act ≠ .poll := by
  rcases step_phase_cases hs with ⟨hphase, -, hne, -⟩ | ⟨-, -, hstep⟩
  · exact ⟨hphase ▸ hcalling, hne.1⟩
  · rw [hcalling] at hstep
    have hno := phase_step_calling hstep
    rw [he.mpr hsig] at hno
    cases hno

/-- A call is made where one is due. -/
theorem step_polls (h : Ended past t) (hs : t.step K cfg p act = some t')
    (later earlier : List Act) (hpast : act :: past = later ++ .signal :: earlier) :
    polls later + (if t'.phase = .calling then 1 else 0) ≤ 1 := by
  cases later with
  | nil =>
    -- the signal is this step
    show 0 + _ ≤ 1
    split <;> omega
  | cons a later =>
    obtain ⟨rfl, rfl⟩ := List.cons.inj hpast
    have hold := h.polls later earlier rfl
    have hsig : Act.signal ∈ later ++ .signal :: earlier := by simp
    by_cases hpoll : act = .poll
    · -- it was due, and no other is
      subst hpoll
      obtain ⟨hfrom, hto⟩ : t.phase = .calling ∧ t'.phase = .polling := by
        rcases step_phase_cases hs with ⟨-, -, hne, -⟩ | ⟨-, -, hstep⟩
        · exact absurd rfl hne.1
        · simpa using phase_step_cases hstep
      rw [if_pos hfrom] at hold
      rw [hto]
      exact hold
    · have hsame : polls (act :: later) = polls later := by
        cases act with
        | poll => exact absurd rfl hpoll
        | hit | submit | signal | setup | test | deliver | pollEnd => rfl
      rw [hsame]
      by_cases hcalling : t'.phase = .calling
      · rw [if_pos (step_calling h.exiting hs hsig hcalling).1] at hold
        rw [if_pos hcalling]
        exact hold
      · rw [if_neg hcalling]
        exact Nat.le_trans (Nat.le_add_right _ _) hold

theorem start_ended : Ended [] (.start : Tracer ρ) where
  exiting := by simp [Tracer.start]
  returned r hr := by cases hr
  errors err herr := by cases herr
  polls later earlier h := by
    cases later <;> cases h

/-- Every step keeps it. -/
theorem step_ended (h : Ended past t) (hs : t.step K cfg p act = some t') :
    Ended (act :: past) t' := by
  have hpolls := step_polls h hs
  rcases step_phase_cases hs with ⟨hphase, hexit, ⟨-, hpoll⟩, -⟩ | ⟨hexit, -, hstep⟩
  · -- the loop is where it was
    refine ⟨?_, fun r hr => ?_, fun err herr => ?_, hpolls⟩
    · rcases hexit with ⟨hexit, hne⟩ | ⟨hexit, rfl⟩
      · rw [hexit, h.exiting, List.mem_cons]
        exact (or_iff_right (Ne.symm hne)).symm
      · exact iff_of_true hexit List.mem_cons_self
    · rw [hphase] at hr
      rcases h.returned r hr with ⟨h0, hsig⟩ | ⟨herr, hneg⟩ | ⟨mapFd, rb, hsetup, hret⟩
      · exact Or.inl ⟨h0, List.mem_cons_of_mem _ hsig⟩
      · exact Or.inr (Or.inl ⟨List.mem_cons_of_mem _ herr, hneg⟩)
      · exact Or.inr (Or.inr ⟨mapFd, rb, List.mem_cons_of_mem _ hsetup, hret⟩)
    · rw [hphase]
      exact h.errors err ((List.mem_cons.mp herr).resolve_left (Ne.symm (hpoll err)))
  · obtain ⟨hsig, hfrom⟩ := phase_step_from hstep
    have hexit' : t'.exiting = true ↔ .signal ∈ act :: past := by
      rw [hexit, h.exiting, List.mem_cons]
      exact (or_iff_right (Ne.symm hsig)).symm
    -- the polls before this step did not end the loop
    have hold : ∀ err, .pollEnd err ∈ past → 0 ≤ err ∨ err = -eintr := fun err herr =>
      (h.errors err herr).resolve_left (hfrom err)
    rcases phase_step_cases hstep with ⟨mapFd, rb, rfl, -, hto⟩ | ⟨rfl, -, hto⟩ |
      ⟨rfl, -, hto⟩ | ⟨e, rfl, -, hto⟩
    · refine ⟨hexit', fun r hr => ?_, fun err herr => ?_, hpolls⟩
      · rw [hto] at hr
        exact Or.inr (Or.inr ⟨mapFd, rb, List.mem_cons_self, hr⟩)
      · exact Or.inr (hold err (List.mem_of_ne_of_mem (by simp) herr))
    · refine ⟨hexit', fun r hr => ?_, fun err herr => ?_, hpolls⟩
      · rw [hto] at hr
        unfold loopTest at hr
        split at hr
        next hexiting =>
          cases hr
          exact Or.inl ⟨rfl, List.mem_cons_of_mem _ (h.exiting.mp hexiting)⟩
        next => cases hr
      · exact Or.inr (hold err (List.mem_of_ne_of_mem (by simp) herr))
    · refine ⟨hexit', fun r hr => ?_, fun err herr => ?_, hpolls⟩
      · rw [hto] at hr
        cases hr
      · exact Or.inr (hold err (List.mem_of_ne_of_mem (by simp) herr))
    · have hcases := pollEnd_cases e
      rw [← hto] at hcases
      refine ⟨hexit', fun r hr => ?_, fun err herr => ?_, hpolls⟩
      · rcases hcases with ⟨hloop, -⟩ | ⟨hret, hneg, hintr⟩
        · rw [hloop] at hr
          cases hr
        · rw [hret] at hr
          cases hr
          exact Or.inr (Or.inl ⟨List.mem_cons_self, hneg, hintr⟩)
      · rcases List.mem_cons.mp herr with heq | herr
        · cases heq
          rcases hcases with ⟨-, hok⟩ | ⟨hret, -⟩
          · exact Or.inr hok
          · exact Or.inl hret
        · exact Or.inr (hold err herr)

/-- And so every run has it. -/
theorem reaches_ended (h : Reaches K cfg p past t) : Ended past t :=
  h.invariant start_ended step_ended

/-- **How `run` ends.** In every run the loop goes on until it finds that a signal came or a
poll failed with an error other than `EINTR`; this error is returned, and no poll begins
after it. After a signal one more poll may begin, if the loop's condition was tested
before, and no other. What has returned prints nothing more. -/
theorem run_returns (h : Reaches K cfg p past t) :
    (∀ r, t.phase = .returned r →
      r = 0 ∧ .signal ∈ past ∨ (.pollEnd r ∈ past ∧ r < 0 ∧ r ≠ -eintr) ∨
        ∃ mapFd rb, .setup mapFd rb ∈ past ∧ runSetup mapFd rb = .returned r) ∧
    (∀ err, .pollEnd err ∈ past → err < 0 → err ≠ -eintr → t.phase = .returned err) ∧
    (∀ later earlier, past = later ++ .signal :: earlier → polls later ≤ 1) ∧
    ∀ act t', t.step K cfg p act = some t' →
      (.signal ∈ past → t'.phase = .calling → t.phase = .calling ∧ act ≠ .poll) ∧
      ∀ r, t.phase = .returned r → t'.phase = .returned r ∧ t'.printed = t.printed := by
  have he := reaches_ended h
  refine ⟨he.returned, fun err herr hneg hintr => ?_, fun later earlier hpast => ?_,
    fun act t' hs => ⟨step_calling he.exiting hs, fun r hr => ?_⟩⟩
  · rcases he.errors err herr with hret | hge | heq
    · exact hret
    · omega
    · exact absurd heq hintr
  · exact Nat.le_trans (Nat.le_add_right _ _) (he.polls later earlier hpast)
  · rcases step_phase_cases hs with ⟨hphase, -, -, hprinted⟩ | ⟨-, hprinted, hstep⟩
    · exact ⟨by rw [hphase, hr], hprinted.resolve_right (by rw [hr]; simp)⟩
    · exact absurd hr ((phase_step_from hstep).2 r)

/-- A signal comes when the loop's condition is tested already: a poll begins, and fails with
`EFAULT`, which `run` returns. -/
theorem run_returns_fault : ∃ t : Tracer (RecordRing (List Byte)),
    Reaches plainLayout ⟨0, 0, 0, false, false, false⟩ ⟨[], []⟩
        [.pollEnd (-efault), .poll, .signal, .test, .setup 3 (.ok ())] t ∧
      t.phase = .returned (-efault) ∧ polls [.pollEnd (-efault), .poll] ≤ 1 := by
  have hreach : Reaches plainLayout ⟨0, 0, 0, false, false, false⟩ ⟨[], []⟩
      [.pollEnd (-efault), .poll, .signal, .test, .setup 3 (.ok ())]
      ({ Tracer.start with phase := .returned (-efault), exiting := true } :
        Tracer (RecordRing (List Byte))) :=
    .step (.step (.step (.step (.step .start rfl) rfl) rfl) rfl) rfl
  obtain ⟨-, herr, hpolls, -⟩ := run_returns hreach
  exact ⟨_, hreach, herr (-efault) List.mem_cons_self (by decide) (by decide),
    hpolls [.pollEnd (-efault), .poll] _ rfl⟩

/-! ## What is printed -/

/-- The program of a link does with the sk_buff what `kprobe_skb` does. -/
theorem Hit.event_eq {h : Hit} {reserved : Option SkbEvent} {event : SkbEvent} {run : Prog}
    {a : BitVec 64} (hprog : (skelProgs K h.mem cfg p).lookup h.link.prog = some run)
    (hrun : run h.call.ctx = kprobeSkb K h.mem cfg p a)
    (hevent : h.event K cfg p reserved = some event) :
    ∃ r, kprobeSkb K h.mem cfg p a h.env reserved h.n h.ω h.s = .done (r, some event) := by
  unfold Hit.event at hevent
  rw [hprog] at hevent
  dsimp only at hevent
  rw [hrun] at hevent
  split at hevent
  next r e hdone =>
    cases hevent
    exact ⟨r, hdone⟩
  next => cases hevent

/-- **A line is printed for an sk_buff that passed the filters.** If programs run through
the links alone that `main` made, every event printed is that of a call of a listed
function, and the sk_buff it tells of is the argument where the function takes its
sk_buff: this passed both filters, and the fields of the event are read from it. -/
theorem printed_skb (lines : List AvailLine) (btfList : OrdMap (List Char) Symdb.Btf)
    (hacyclic : ∀ it ∈ btfList.entries, Acyclic (wrappedBy it.2)) :
    ∃ m, (∃ n, ∀ fuel, n ≤ fuel → getSkbFuncFromBtfs
        (some (textOf (lines.map AvailLine.text))) fuel btfList .empty = some m) ∧
      ∀ regex filter r list libbpf K cfg p past (t : Tracer ρ),
        getSkbFuncList regex m filter = some (r, list) → Reaches K cfg p past t →
        (∀ hit reserved, .hit hit reserved ∈ past →
          hit.link ∈ (attachLoop m libbpf list).1.recorded) →
        ∀ event ∈ t.printed, ∃ (hit : Hit) (reserved : Option SkbEvent) (sf : SkbFunc),
          .hit hit reserved ∈ past ∧
          sf.funcName ∈ list ∧ hit.link.skbFunc = String.ofList sf.funcName ∧
          FoundLast (fun f => f ∈ lines.map AvailLine.name) (places btfList) sf ∧
          ∃ k : Nat, sf.skbPos = k ∧ ∀ a, hit.call.args[k]? = some a →
            filterPcap K hit.mem p a hit.n hit.ω hit.s = .done true ∧
            filterMeta K hit.mem cfg a = true ∧
            ∃ prior : SkbEvent, event = setOutput K hit.mem a
              { prior with
                pid := (hit.env.pidTgid >>> 32).setWidth 32
                cpuId := hit.env.processorId
                ts := hit.env.ktime
                skbAddr := a
                addr := hit.env.funcIp } := by
  obtain ⟨m, hrun, hkeep⟩ := skb_funcs_iff lines btfList hacyclic
  refine ⟨m, hrun, fun regex filter r list libbpf K cfg p past t hlist hreach honly event hmem =>
    ?_⟩
  have hall := attachLoop_attachedAll libbpf hlist
  -- from the event to its hit, and from the link of that to the function
  obtain ⟨hit, reserved, hhit, hevent⟩ := printed_of_hit hreach hmem
  obtain ⟨name, hname⟩ := mem_recorded.mp (honly hit reserved hhit)
  obtain ⟨f, rfl⟩ : ∃ f, name = String.ofList f := ⟨name.toList, String.ofList_toList.symm⟩
  obtain ⟨sf, rfl, hsf, hprog⟩ :=
    hall.prog_of_found hkeep (getSkbFuncList_eq hlist).2.1.subset hname
  obtain ⟨k, run, hk, hlookup, hreads⟩ := @prog_reads K hit.mem cfg p _ _ hprog
  have hlisted := ((hall.names sf.funcName).mp (OrdMap.mem_keys_iff.mpr ⟨_, hname⟩)).1
  refine ⟨hit, reserved, sf, hhit, hlisted, (hall.progs _ _ hname).1, hsf, k, hk, fun a ha => ?_⟩
  obtain ⟨ret, hdone⟩ := Hit.event_eq hlookup (hreads hit.call a ha) hevent
  obtain ⟨prior, -, hpcap, hmeta, -, rfl⟩ := kprobeSkb_submits.mp hdone
  exact ⟨hpcap, hmeta, prior, rfl⟩

/-- An event is printed for a call of `kfree_skb`, and its argument passed the filter. -/
theorem printed_skb_kfree : ∃ (S : Setting) (filters : Filters) (cfg : SkbConfig)
    (past : List Act) (t : Tracer (RecordRing (List Byte))) (event : SkbEvent),
    Reaches S.K cfg filters past t ∧ t.printed = [event] ∧ event.skbAddr = S.skb ∧
      filterPcap S.K S.m filters S.skb S.steps S.helpers S.state = .done true := by
  obtain ⟨S, event, hsub, -⟩ := exists_submits initArgs 0 5 0 (fun h => absurd rfl h)
    (fun h => absurd rfl h) (fun h => absurd rfl h)
  obtain ⟨filters, cfg, -, hevent⟩ := hsub.hit_event
  obtain ⟨past, t, hreach, hprinted, honly⟩ := exists_printed hevent
  obtain ⟨m, ⟨n, hfuncs⟩, hprint⟩ :=
    @printed_skb (RecordRing (List Byte)) _ freeLines freeBtfs freeBtfs_acyclic
  obtain rfl := Option.some.inj ((hfuncs (n + 7) (by omega)).symm.trans (freeFuncs_found n))
  have hlink : S.hit.link ∈ (attachLoop freeFuncs refuseSend
      ["ip_send_skb".toList, "kfree_skb".toList]).1.recorded := List.mem_cons_self
  obtain ⟨hit, reserved, sf, hhit, -, hname, hsf, k, hk, hskb⟩ :=
    hprint (fun _ => none) [] 0 ["ip_send_skb".toList, "kfree_skb".toList] refuseSend S.K cfg
      filters past t rfl hreach (fun hit reserved hmem => honly hit reserved hmem ▸ hlink) event
      (by rw [hprinted]; exact List.mem_cons_self)
  obtain rfl := honly hit reserved hhit
  -- the sk_buff is the first argument
  have hpos := freeFuncs_keeps.getSkbFuncParamPos hsf
  rw [← String.ofList_injective (hname : String.ofList "kfree_skb".toList = _), hk] at hpos
  obtain rfl : 0 = k := Int.ofNat_inj.mp (congrArg Prod.snd hpos)
  obtain ⟨hpcap, -, prior, rfl⟩ := hskb S.skb rfl
  exact ⟨S, filters, cfg, past, t, _, hreach, hprinted, rfl, hpcap⟩

end SkbTracer.Trace
