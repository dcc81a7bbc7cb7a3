import SkbTracer.Pcap2Bpf.BlockSpec

/-!
# Generated code reads only the packet

Every reachable state of the emitted code, for any helper that answers its calls
in any way: a call of `probe_read_kernel` reads inside the packet bounds, the two
slots keep the bounds, nothing the code writes overlaps them, and every stack
access is inside the frame.

The classic program is arbitrary but for its scratch indices. The cut points are
the starts of the expansions and the exits; between two of them the machine stays
guarded (`Accepted.block`), and `invariant_of_cutpoints` does the induction over
the run.

- `FilterSafe` is what is claimed of a state;
- `filterSafe_of_guarded`: a guarded state has it, and the two states in which the
  prologue fills the slots have it as well (`filterSafe_of_slotStore`);
- `cutPoint_next`: from a cut point the machine gets to the next through guarded states;
- `filter_memory_safe`: all of this for every reachable state.

Unlike the theorem about verdicts this one asks nothing of divisors, shifts or the order in
which scratch words are written, nothing of the length of the packet, and nothing of the
helper: it may fail, or lie about what it copied.
-/

namespace SkbTracer.Pcap2Bpf

open SkbTracer.Bpf
open SkbTracer.Lib (Res Reach Until UntilPlus load run reach_of_run invariant_of_cutpoints)

/-- An access to the frame: its first byte's depth, its size, and whether it
writes. A call writes the buffer it is given. -/
structure StackAccess where
  depth : Nat
  size : Nat
  write : Bool

/-- The access to the frame an instruction makes. -/
def stackAccess (s : EbpfState) : EInsn → Option StackAccess
  | .ldx size _ src off => some ⟨s.depth (s.regs src + off.signExtend 64), size.bytes, false⟩
  | .stx size dst _ off => some ⟨s.depth (s.regs dst + off.signExtend 64), size.bytes, true⟩
  | .call _ => some ⟨s.depth (s.regs 1), (s.regs 2).toNat, true⟩
  | _ => none

/-- Some byte of the frame is in both ranges, given by depth and size. -/
def Overlap (d n d' n' : Nat) : Prop := ∃ q, (d < q + n ∧ q ≤ d) ∧ d' < q + n' ∧ q ≤ d'

/-- What holds of every state `s` of the emitted code, entered in `s₀` with the
packet at `[data, dataEnd)`. The first two steps fill the slots. -/
structure FilterSafe (out : List BpfInsn) (data dataEnd : BitVec 64) (s₀ s : EbpfState) :
    Prop where
  fp : s.regs 10 = s₀.fp ∧ s.fp = s₀.fp
  frame : ∀ e acc, fetch out s = some e → stackAccess s e = some acc →
    acc.size ≤ acc.depth ∧ acc.depth ≤ stackSize
  call : ∀ func, fetch out s = some (.call func) → func = bpfFuncProbeReadKernel ∧
    s.regs 1 = s₀.fp - 56 ∧ (s.regs 2 = 1 ∨ s.regs 2 = 2 ∨ s.regs 2 = 4) ∧
    data.toNat ≤ (s.regs 3).toNat ∧ (s.regs 3).toNat + (s.regs 2).toNat ≤ dataEnd.toNat
  slots : s ≠ s₀ → (∀ h, ebpfStep out h s₀ ≠ .next s) →
    load s.stack 40 8 = data.toNat ∧ load s.stack 48 8 = dataEnd.toNat
  writes : s ≠ s₀ → (∀ h, ebpfStep out h s₀ ≠ .next s) →
    ∀ e acc, fetch out s = some e → stackAccess s e = some acc → acc.write = true →
      ¬ Overlap acc.depth acc.size 40 8 ∧ ¬ Overlap acc.depth acc.size 48 8
  buffer : ∀ func acc, fetch out s = some (.call func) → stackAccess s (.call func) = some acc →
    ∀ k, k < bpfMemWords → ¬ Overlap acc.depth acc.size (64 + 4 * k) 4

variable {prog : List SockFilter} {out : List BpfInsn} {data dataEnd : BitVec 64}
  {s s₀ s' : EbpfState} {e : EInsn}

theorem not_overlap_slots {d n : Nat} (h : SlotFree d n) :
    ¬ Overlap d n 40 8 ∧ ¬ Overlap d n 48 8 := by
  unfold SlotFree at h
  constructor
  · rintro ⟨q, h1, h2⟩
    omega
  · rintro ⟨q, h1, h2⟩
    omega

/-! ## The frame pointer -/

/-- No instruction moves the frame, -/
theorem ebpfExec_fp {h : Helper} (hx : ebpfExec h e s = .next s') : s'.fp = s.fp := by
  cases e with
  | alu w op dst src => cases w <;> exact Res.next.inj hx ▸ rfl
  | neg w dst => cases w <;> exact Res.next.inj hx ▸ rfl
  | exit => cases hx
  | ja off =>
    simp only [ebpfExec, EbpfState.jump] at hx
    split at hx
    next => cases hx
    next => exact Res.next.inj hx ▸ rfl
  | jmp w op dst src off =>
    simp only [ebpfExec, EbpfState.jump] at hx
    split at hx
    next =>
      split at hx
      next => cases hx
      next => exact Res.next.inj hx ▸ rfl
    next => exact Res.next.inj hx ▸ rfl
  | _ =>
    simp only [ebpfExec] at hx
    split at hx
    next => exact Res.next.inj hx ▸ rfl
    next => cases hx

/-- so it is where it was on entry. -/
theorem reach_fp {adm : Helper → Prop} (hs : Reach (ebpfStep out) adm s₀ s) : s.fp = s₀.fp := by
  induction hs with
  | refl => rfl
  | tail _ _ hstep ih =>
    rw [← ih]
    unfold ebpfStep at hstep
    split at hstep
    next => cases hstep
    next => exact ebpfExec_fp hstep

/-! ## Guarded states are safe -/

/-- In a guarded state the access that is about to be made stays in the frame and off
the slots. -/
theorem guarded_access {acc : StackAccess} (hg : Guarded out data dataEnd s)
    (he : fetch out s = some e) (hacc : stackAccess s e = some acc) :
    acc.size ≤ acc.depth ∧ acc.depth ≤ stackSize ∧
      (acc.write = true → SlotFree acc.depth acc.size) := by
  have ha := hg.access e he
  cases e with
  | ldx size dst src off =>
    obtain rfl := Option.some.inj hacc
    exact ⟨ha.1, ha.2, fun h => by cases h⟩
  | stx size dst src off =>
    obtain rfl := Option.some.inj hacc
    exact ⟨ha.1.1, ha.1.2, fun _ => ha.2⟩
  | call func =>
    obtain rfl := Option.some.inj hacc
    have hd : s.depth (s.regs 1) = 56 := ha.2.depth_eq
    have hn := ha.2.size_le
    dsimp only
    rw [hd]
    exact ⟨by omega, by decide, fun _ => Or.inr (by omega)⟩
  | _ => cases hacc

/-- The first two steps are the ones that fill the slots. -/
theorem filterSafe_of_slotStore (hfp : s.fp = s₀.fp) (h : AtSlotStore out s)
    (hs : s = s₀ ∨ ∃ c, ebpfStep out c s₀ = .next s) : FilterSafe out data dataEnd s₀ s := by
  obtain ⟨r, o, hstore, hin⟩ := h.store
  have hentry : ¬(s ≠ s₀ ∧ ∀ c, ebpfStep out c s₀ ≠ .next s) := by
    rintro ⟨hne, hstep⟩
    exact hs.elim hne fun ⟨c, hc⟩ => hstep c hc
  refine ⟨⟨h.fp.trans hfp, hfp⟩, fun e acc he hacc => ?_, fun func he => ?_,
    fun h1 h2 => (hentry ⟨h1, h2⟩).elim, fun h1 h2 => (hentry ⟨h1, h2⟩).elim,
    fun func _ he => ?_⟩
  · obtain rfl := Option.some.inj (hstore.symm.trans he)
    obtain rfl := Option.some.inj hacc
    exact hin
  · cases hstore.symm.trans he
  · cases hstore.symm.trans he

/-- All others are guarded. -/
theorem filterSafe_of_guarded (hfp : s.fp = s₀.fp) (hg : Guarded out data dataEnd s) :
    FilterSafe out data dataEnd s₀ s := by
  refine ⟨⟨hg.frame.fp.trans hfp, hfp⟩, fun e acc he hacc => ?_, fun func he => ?_,
    fun _ _ => ⟨hg.frame.data, hg.frame.dataEnd⟩, fun _ _ e acc he hacc hw => ?_,
    fun func acc he hacc k hk => ?_⟩
  · obtain ⟨h1, h2, -⟩ := guarded_access hg he hacc
    exact ⟨h1, h2⟩
  · obtain ⟨hfunc, hsafe⟩ := hg.access _ he
    exact ⟨hfunc, hfp ▸ hsafe.dst, hsafe.size, hsafe.low, hsafe.high⟩
  · exact not_overlap_slots ((guarded_access hg he hacc).2.2 hw)
  · have hsafe := (hg.access _ he).2
    obtain rfl := Option.some.inj hacc
    rintro ⟨q, h1, h2⟩
    have hd : s.depth (s.regs 1) = 56 := hsafe.depth_eq
    dsimp only at h1
    omega

/-! ## Cut points -/

/-- The slots have just been filled, or the machine is at the start of an
expansion, the end of the text, or an exit. -/
def CutPoint (prog : List SockFilter) (out : List BpfInsn) (data dataEnd : BitVec 64)
    (s : EbpfState) : Prop :=
  AfterSlots data dataEnd s ∨
    (∃ i a x mem, i ≤ prog.length ∧ AtInsn data dataEnd (addrOf prog i) a x mem s) ∨
    ∃ v, AtExit out data dataEnd v s

/-- Between two expansions there is a cut point, -/
theorem cutPoint_of_atInsn {i : Nat} {a x : BitVec 32} {mem : Nat → BitVec 32}
    (hi : i ≤ prog.length) (hs : AtInsn data dataEnd (addrOf prog i) a x mem s) :
    CutPoint prog out data dataEnd s := Or.inr (Or.inl ⟨i, a, x, mem, hi, hs⟩)

/-- and at an exit. -/
theorem cutPoint_of_atExit {v : BitVec 64} (hs : AtExit out data dataEnd v s) :
    CutPoint prog out data dataEnd s := Or.inr (Or.inr ⟨v, hs⟩)

/-- A packet load leads to the one or the other. -/
theorem cutPoint_of_loadPost {adm : Helper → Prop} {o n i : Nat} {x : BitVec 32}
    {mem : Nat → BitVec 32} (hi : i < prog.length)
    (h : LoadPost out adm data dataEnd o n (addrOf prog (i + 1)) x mem s) :
    CutPoint prog out data dataEnd s := by
  rcases h with ⟨v, -, hs⟩ | ⟨-, hs⟩
  · exact cutPoint_of_atInsn hi hs
  · exact cutPoint_of_atExit hs

/-- Every expansion ends at a cut point. -/
theorem cutPoint_of_blockPost {adm : Helper → Prop} {i : Nat} {fp : SockFilter} {a x : BitVec 32}
    {mem : Nat → BitVec 32} {op : CbpfOp} (hi : i < prog.length)
    (h : BlockPost prog out adm data dataEnd i fp a x mem op s) :
    CutPoint prog out data dataEnd s := by
  cases op with
  | alu op src =>
    rcases h with ⟨-, hs⟩ | ⟨-, hs⟩
    · exact cutPoint_of_atInsn hi hs
    · exact cutPoint_of_atExit hs
  | ldAbs size => exact cutPoint_of_loadPost hi h
  | ldInd size => exact cutPoint_of_loadPost hi h
  | ja =>
    obtain ⟨t, -, hlt, hs⟩ := h
    exact cutPoint_of_atInsn (Nat.le_of_lt hlt) hs
  | jmp op src =>
    obtain ⟨t, -, hlt, hs⟩ := h
    exact cutPoint_of_atInsn (by omega) hs
  | ldxMsh =>
    rcases h with ⟨v, -, hs⟩ | ⟨-, hs⟩
    · exact cutPoint_of_atInsn hi hs
    · exact cutPoint_of_atExit hs
  | retA => exact cutPoint_of_atExit h
  | retK => exact cutPoint_of_atExit h
  | _ => exact cutPoint_of_atInsn hi h

/-- A cut point is guarded, and it is final or the code goes on to the next one. -/
theorem cutPoint_next (hacc : Accepted prog out) (hk : ScratchBounded prog)
    (h : CutPoint prog out data dataEnd s) :
    Guarded out data dataEnd s ∧
      ((∀ c : Helper, True → ∀ s', ebpfStep out c s ≠ .next s') ∨
        UntilPlus (ebpfStep out) (fun _ => True) (Guarded out data dataEnd)
          (CutPoint prog out data dataEnd) s) := by
  rcases h with h₀ | ⟨i, a, x, mem, hi, hs⟩ | ⟨v, hs⟩
  · have hu : UntilPlus (ebpfStep out) (fun _ => True) (Guarded out data dataEnd) _ s :=
      hacc.prologue_rest h₀
    exact ⟨hu.1, Or.inr (hu.mono (fun _ h => h)
      fun _ hs => hs.elim fun _ hs => cutPoint_of_atInsn (Nat.zero_le _) hs)⟩
  · rcases Nat.lt_or_ge i prog.length with hlt | hge
    · have hi' : prog[i]? = some prog[i] := List.getElem?_eq_getElem hlt
      obtain ⟨op, hop⟩ := hacc.exists_op hi'
      have hu : UntilPlus (ebpfStep out) (fun _ => True) (Guarded out data dataEnd) _ s :=
        hacc.block hi' hop (hk _ (List.getElem_mem hlt)) hs
      exact ⟨hu.1, Or.inr (hu.mono (fun _ h => h)
        fun _ hpost => cutPoint_of_blockPost hlt hpost)⟩
    · -- past the last expansion there is no instruction
      have hnone : fetch out s = none := by
        rw [fetch, hs.pc, show i = prog.length by omega, ← hacc.length_eq,
          List.getElem?_eq_none (Nat.le_refl _)]
        rfl
      refine ⟨⟨hs.frame, fun e he => by cases hnone.symm.trans he⟩, Or.inl fun c _ s' => ?_⟩
      rw [ebpfStep, show (out[s.pc]?).bind BpfInsn.decode = none from hnone]
      intro h
      cases h
  · refine ⟨.of_fetch hs.frame hs.exit trivial, Or.inl fun c _ s' => ?_⟩
    rw [ebpfStep_of_fetch c hs.exit]
    intro h
    cases h

/-- **Bounded memory access.** Every state that the emitted code of an accepted
program reaches from an entry state, whatever the helper does, is safe. -/
theorem filter_memory_safe (hacc : Accepted prog out) (hk : ScratchBounded prog)
    (h₀ : EntryState data dataEnd s₀) (hs : Reach (ebpfStep out) (fun _ => True) s₀ s) :
    FilterSafe out data dataEnd s₀ s := by
  have hfp := reach_fp hs
  obtain ⟨hat, s₁, hstep₁, hat₁, s₂, hstep₂, hs₂⟩ := hacc.entry h₀
  -- the two stores of the prologue; from the state behind them on, the cut points carry the run
  rcases hs.head_cases fun c _ => hstep₁ c with rfl | hs
  · exact filterSafe_of_slotStore rfl hat (Or.inl rfl)
  rcases hs.head_cases fun c _ => hstep₂ c with rfl | hs
  · exact filterSafe_of_slotStore hfp hat₁ (Or.inr ⟨fun _ => ⟨0, fun _ => 0, fun _ => 0⟩, hstep₁ _⟩)
  · exact filterSafe_of_guarded hfp
      (invariant_of_cutpoints (I := CutPoint prog out data dataEnd) (Or.inl hs₂)
        (fun _ h => cutPoint_next hacc hk h) hs).1

/-- Where `ldb [0]` calls the helper over the packet `[1000, 1001)`, the state is safe. -/
theorem filter_memory_safe_firstByte : ∃ s,
    run (ebpfStep firstByteCode) 20 (fun _ => Helper.copying (fun _ => 7) fun _ => 0xdead)
      (entryState 1000 1001 0x4000) = .next s ∧
    fetch firstByteCode s = some (.call bpfFuncProbeReadKernel) ∧
    FilterSafe firstByteCode 1000 1001 (entryState 1000 1001 0x4000) s :=
  ⟨_, rfl, rfl, filter_memory_safe firstByte_accepted firstByte_valid.scratch
    (entryState_entry _ _ _)
    (reach_of_run (n := 20) (ω := fun _ => Helper.copying (fun _ => 7) fun _ => 0xdead)
      (fun _ => trivial) .refl rfl)⟩

end SkbTracer.Pcap2Bpf
