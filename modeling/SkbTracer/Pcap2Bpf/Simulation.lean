import SkbTracer.Pcap2Bpf.BlockSpec

/-!
# The compiler preserves meaning

A classic program as libpcap produces it, converted by an accepted pair of calls,
is simulated by the emitted code: every classic step is answered by the whole
expansion of its instruction. `Related` ties the two machines together between
expansions. It asks of the frame only the scratch words that the classic program
has written, so nothing is assumed of the initial stack.

`blockPost_matches` is one classic step against one expansion, opcode by opcode;
`convertSimulation` packs it up, and `convert_preserves` reads the outcome off it:
the emitted code ends exactly when the classic program does, with 1 for a packet
it accepts and 0 for one it rejects, and never faults.

- `Related`: program counter, `A`, `X` and the written scratch words correspond;
- `cbpfStep_ne_fault`: the classic machine does not fault, which is where the promises of
  libpcap come in;
- `convert_outcome`: the outcome of the emitted code in terms of the classic verdict;
- `convert_preserves`: the same for acceptance and rejection. Both are equivalences, so a
  run goes on for ever exactly if the classic one does.

The packet is the memory between the bounds and shorter than 2^31 bytes. The helper copies
what it is asked for inside the bounds; outside of them, and in what it leaves in the
registers it may clobber, it is arbitrary, and may answer differently at every step.
-/

namespace SkbTracer.Pcap2Bpf

open SkbTracer.Bpf
open SkbTracer.Lib (Res Reach Byte Until UntilPlus Simulation iter run beNat beNat_congr)

/-- The packet at `[data, dataEnd)`; `dataEnd < data` is the empty packet. -/
def packet (mem : BitVec 64 → Byte) (data dataEnd : BitVec 64) : List Byte :=
  (List.range (dataEnd.toNat - data.toNat)).map fun i => mem (data + BitVec.ofNat 64 i)

theorem packet_length (mem : BitVec 64 → Byte) (data dataEnd : BitVec 64) :
    (packet mem data dataEnd).length = dataEnd.toNat - data.toNat := by
  simp [packet]

theorem packet_getD {mem : BitVec 64 → Byte} {data dataEnd : BitVec 64} {i : Nat}
    (hi : i < dataEnd.toNat - data.toNat) :
    (packet mem data dataEnd).getD i 0 = mem (data + BitVec.ofNat 64 i) := by
  simp [packet, List.getD_eq_getElem?_getD, hi]

variable {mem : BitVec 64 → Byte} {data dataEnd : BitVec 64} {o n : Nat}

/-- Being inside the packet, for a packet shorter than 2^31 bytes. -/
theorem inPacket_iff (hlen : (packet mem data dataEnd).length < 2 ^ 31) (hn : 0 < n) :
    InPacket data dataEnd o n ↔ o + n ≤ (packet mem data dataEnd).length := by
  rw [packet_length] at hlen ⊢
  unfold InPacket
  omega

/-- A call for `n` bytes at offset `o` of the packet is inside it. -/
theorem call_inside {c : HelperCall} (hin : InPacket data dataEnd o n) (hn : n < 2 ^ 32)
    (hsize : c.size = BitVec.ofNat 64 n) (hsrc : c.src = data + BitVec.ofNat 64 o) :
    c.size.toNat = n ∧ data.toNat ≤ c.src.toNat ∧
      c.src.toNat + c.size.toNat ≤ dataEnd.toNat := by
  have hend := dataEnd.isLt
  unfold InPacket at hin
  rw [hsize, hsrc, BitVec.toNat_add, BitVec.toNat_ofNat, BitVec.toNat_ofNat]
  omega

/-- With helpers that copy, a load that goes through reads the packet. -/
theorem pktLoad_of_read {v : BitVec 32} (hlen : (packet mem data dataEnd).length < 2 ^ 31)
    (hn : 0 < n) (hn' : n < 2 ^ 32) (h : WordRead (HelperOk mem data dataEnd) data dataEnd o n v) :
    pktLoad (packet mem data dataEnd) o n = some v := by
  have hin := (inPacket_iff hlen hn).mp h.inside
  obtain ⟨g, c, hg, hsize, hsrc, -, rfl⟩ := h.helper
  obtain ⟨hcn, hlow, hhigh⟩ := call_inside h.inside hn' hsize hsrc
  rw [pktLoad, if_pos hin, beNat_congr]
  intro i hi
  rw [packet_length] at hin
  rw [packet_getD (by omega), (hg c hlow hhigh).2 i (by omega), hsrc, BitVec.ofNat_add,
    BitVec.add_assoc]

/-- With helpers that copy, a load is refused only outside the packet. -/
theorem pktLoad_of_refused (hlen : (packet mem data dataEnd).length < 2 ^ 31) (hn : 0 < n)
    (hn' : n < 2 ^ 32) (h : WordRefused (HelperOk mem data dataEnd) data dataEnd o n) :
    pktLoad (packet mem data dataEnd) o n = none := by
  by_cases hin : InPacket data dataEnd o n
  · rcases h with hout | ⟨g, c, hg, hsize, hsrc, hr0⟩
    · exact absurd hin hout
    · obtain ⟨-, hlow, hhigh⟩ := call_inside hin hn' hsize hsrc
      exact absurd (hg c hlow hhigh).1 hr0
  · rw [pktLoad, if_neg fun h => hin ((inPacket_iff hlen hn).mpr h)]

/-! ## The relation -/

/-- The scratch words the classic program has written are in the frame. -/
def Scratch (cmem : Nat → Option (BitVec 32)) (fmem : Nat → BitVec 32) : Prop :=
  ∀ k v, cmem k = some v → fmem k = v

/-- The two machines stand before the same instruction with the same A, X and
scratch words. -/
def Related (prog : List SockFilter) (pkt : List Byte) (data dataEnd : BitVec 64)
    (t : CbpfState) (s : EbpfState) : Prop :=
  CbpfReach prog pkt t ∧ t.pc < prog.length ∧ ∃ fmem, Scratch t.mem fmem ∧
    AtInsn data dataEnd (addrOf prog t.pc) t.a t.x fmem s

/-- What the machine must look like after an expansion, given what the classic
instruction `i` did. -/
def Matches (prog : List SockFilter) (out : List BpfInsn) (data dataEnd : BitVec 64) (i : Nat) :
    Res CbpfState (BitVec 32) → EbpfState → Prop
  | .next t, s => (t.pc < prog.length ∨ t.pc = i + 1) ∧ ∃ fmem, Scratch t.mem fmem ∧
      AtInsn data dataEnd (addrOf prog t.pc) t.a t.x fmem s
  | .done v, s => AtExit out data dataEnd (verdict v) s
  | .fault, _ => True

variable {prog : List SockFilter} {out : List BpfInsn} {fp : SockFilter} {op : CbpfOp}
  {t t' : CbpfState} {s s' : EbpfState} {fmem : Nat → BitVec 32}

theorem Scratch.set (h : Scratch t.mem fmem) (k : Nat) (v : BitVec 32) :
    Scratch (t.setMem k v).mem fun j => if j = k then v else fmem j := by
  intro j w hj
  simp only [CbpfState.setMem] at hj
  split at hj
  next hjk => exact (if_pos hjk).trans (Option.some.inj hj)
  next hjk => exact (if_neg hjk).trans (h j w hj)

/-- A packet load, classic and emitted. -/
theorem loadPost_matches {size : LdSize} (hlen : (packet mem data dataEnd).length < 2 ^ 31)
    (hfm : Scratch t.mem fmem)
    (h : LoadPost out (HelperOk mem data dataEnd) data dataEnd o size.bytes
      (addrOf prog (t.pc + 1)) t.x fmem s) :
    Matches prog out data dataEnd t.pc
      (t.loadA (pktLoad (packet mem data dataEnd) o size.bytes)) s := by
  have hle := size.bytes_le
  rcases h with ⟨v, hv, hs⟩ | ⟨href, hs⟩
  · rw [pktLoad_of_read hlen size.bytes_pos (by omega) hv]
    exact ⟨Or.inr rfl, fmem, hfm, hs⟩
  · rw [pktLoad_of_refused hlen size.bytes_pos (by omega) href]
    exact hs

/-- **One classic step against one expansion.** -/
theorem blockPost_matches (hlen : (packet mem data dataEnd).length < 2 ^ 31)
    (hfm : Scratch t.mem fmem)
    (h : BlockPost prog out (HelperOk mem data dataEnd) data dataEnd t.pc fp t.a t.x fmem op s) :
    Matches prog out data dataEnd t.pc (cbpfExec op fp (packet mem data dataEnd) t) s := by
  -- a fault of the classic machine asks nothing, so the branches that fault are trivial
  unfold cbpfExec
  cases op with
  | alu op src =>
    cases src with
    | k =>
      dsimp only
      split
      next => trivial
      next =>
        rcases h with ⟨-, hs⟩ | ⟨hdiv, -⟩
        · exact ⟨Or.inr rfl, fmem, hfm, hs⟩
        · exact absurd hdiv.2.1 (by decide)
    | x =>
      dsimp only
      split
      next hdiv =>
        rcases h with ⟨hndiv, -⟩ | ⟨-, hs⟩
        · exact absurd ⟨hdiv.1, rfl, hdiv.2⟩ hndiv
        · exact hs
      next hndiv =>
        rcases h with ⟨-, hs⟩ | ⟨hdiv, -⟩
        · exact ⟨Or.inr rfl, fmem, hfm, hs⟩
        · exact absurd ⟨hdiv.1, hdiv.2.2⟩ hndiv
  | neg => exact ⟨Or.inr rfl, fmem, hfm, h⟩
  | ldAbs size => exact loadPost_matches hlen hfm h
  | ldInd size => exact loadPost_matches hlen hfm h
  | ja =>
    obtain ⟨j, hj, hlt, hs⟩ := h
    dsimp only
    rw [← hj, if_neg (by omega)]
    exact ⟨Or.inl hlt, fmem, hfm, hs⟩
  | jmp op src =>
    obtain ⟨j, rfl, hlt, hs⟩ := h
    exact ⟨hlt, fmem, hfm, hs⟩
  | ldxMsh =>
    dsimp only
    rcases h with ⟨v, hv, hs⟩ | ⟨href, hs⟩
    · rw [pktLoad_of_read hlen (by decide) (by decide) hv]
      exact ⟨Or.inr rfl, fmem, hfm, hs⟩
    · rw [pktLoad_of_refused hlen (by decide) (by decide) href]
      exact hs
  | retA => exact h
  | retK => exact h
  | st =>
    dsimp only
    split
    next => exact ⟨Or.inr rfl, _, hfm.set _ _, h⟩
    next => trivial
  | stx =>
    dsimp only
    split
    next => exact ⟨Or.inr rfl, _, hfm.set _ _, h⟩
    next => trivial
  | ldMem =>
    dsimp only
    split
    next v hv => exact ⟨Or.inr rfl, fmem, hfm, hfm _ _ hv ▸ h⟩
    next => trivial
  | ldxMem =>
    dsimp only
    split
    next v hv => exact ⟨Or.inr rfl, fmem, hfm, hfm _ _ hv ▸ h⟩
    next => trivial
  | ldImm => exact ⟨Or.inr rfl, fmem, hfm, h⟩
  | ldxImm => exact ⟨Or.inr rfl, fmem, hfm, h⟩
  | tax => exact ⟨Or.inr rfl, fmem, hfm, h⟩
  | txa => exact ⟨Or.inr rfl, fmem, hfm, h⟩

/-! ## The simulation -/

theorem cbpfStep_eq {pkt : List Byte} (hi : prog[t.pc]? = some fp) (hop : fp.op = some op) :
    cbpfStep prog pkt t = cbpfExec op fp pkt t := by
  simp only [cbpfStep, hi, hop]

/-- The expansion of the instruction both machines stand at. -/
theorem Related.block (hacc : Accepted prog out) (hk : ScratchBounded prog)
    (hlen : (packet mem data dataEnd).length < 2 ^ 31)
    (hR : Related prog (packet mem data dataEnd) data dataEnd t s) :
    UntilPlus (ebpfStep out) (HelperOk mem data dataEnd) (Guarded out data dataEnd)
      (Matches prog out data dataEnd t.pc (cbpfStep prog (packet mem data dataEnd) t)) s := by
  obtain ⟨-, hlt, fmem, hfm, hs⟩ := hR
  have hi : prog[t.pc]? = some prog[t.pc] := List.getElem?_eq_getElem hlt
  obtain ⟨op, hop⟩ := hacc.exists_op hi
  rw [cbpfStep_eq hi hop]
  exact (hacc.block hi hop (hk _ (List.getElem_mem hlt)) hs).mono (fun _ h => h)
    fun _ h => blockPost_matches hlen hfm h

/-- A classic step that goes on does not come from the last instruction. -/
theorem next_pc_lt {pkt : List Byte} (hret : EndsInRet prog) (hlt : t.pc < prog.length)
    (hstep : cbpfStep prog pkt t = .next t') : t.pc + 1 < prog.length := by
  obtain ⟨fp, hlast, hop⟩ := hret
  rw [List.getLast?_eq_getElem?] at hlast
  refine Nat.lt_of_le_of_ne hlt fun heq => ?_
  have hi : prog[t.pc]? = some fp := by rwa [show t.pc = prog.length - 1 by omega]
  rcases hop with hop | hop
  · rw [cbpfStep_eq hi hop] at hstep
    cases hstep
  · rw [cbpfStep_eq hi hop] at hstep
    cases hstep

/-- A load that fails rejects the packet, and is no fault. -/
theorem loadA_ne_fault (t : CbpfState) (w : Option (BitVec 32)) : t.loadA w ≠ .fault := by
  cases w <;> simp [CbpfState.loadA]

/-- A valid program never faults. -/
theorem cbpfStep_ne_fault {pkt : List Byte} (hacc : Accepted prog out) (hv : CbpfValid prog)
    (hreach : CbpfReach prog pkt t) (hlt : t.pc < prog.length) :
    cbpfStep prog pkt t ≠ .fault := by
  have hi : prog[t.pc]? = some prog[t.pc] := List.getElem?_eq_getElem hlt
  generalize prog[t.pc] = fp at hi
  have hmem : fp ∈ prog := List.mem_of_getElem? hi
  obtain ⟨op, hop⟩ := hacc.exists_op hi
  rw [cbpfStep_eq hi hop]
  -- each way to fault is one that validity excludes
  unfold cbpfExec
  cases op with
  | alu op src =>
    cases src with
    | k =>
      dsimp only
      rw [if_neg fun hdiv => hv.divisor fp hmem op hdiv.1 hop hdiv.2]
      simp
    | x => dsimp only; split <;> simp
  | ldAbs size => exact loadA_ne_fault t _
  | ldInd size => exact loadA_ne_fault t _
  | ja =>
    obtain ⟨j, hj, -⟩ := hacc.ja_target hi hop
    dsimp only
    rw [if_neg (by omega)]
    simp
  | ldxMsh => dsimp only; split <;> simp
  | st =>
    dsimp only
    rw [if_pos (hv.scratch fp hmem (Or.inl hop))]
    simp
  | stx =>
    dsimp only
    rw [if_pos (hv.scratch fp hmem (Or.inr (Or.inl hop)))]
    simp
  | ldMem =>
    dsimp only
    split
    next => simp
    next hnone => exact absurd hnone (hv.init pkt t fp hreach hi (Or.inl hop))
  | ldxMem =>
    dsimp only
    split
    next => simp
    next hnone => exact absurd hnone (hv.init pkt t fp hreach hi (Or.inr hop))
  | _ => simp

/-- The emitted code simulates the classic program. -/
theorem convertSimulation (hacc : Accepted prog out) (hv : CbpfValid prog)
    (hlen : (packet mem data dataEnd).length < 2 ^ 31) :
    Simulation (cbpfStep prog (packet mem data dataEnd)) (ebpfStep out)
      (HelperOk mem data dataEnd) verdict
      (Related prog (packet mem data dataEnd) data dataEnd) where
  next {t s t'} hR hstep := by
    refine (hR.block hacc hv.scratch hlen).mono (fun _ _ => trivial) fun s' hm => ?_
    rw [hstep] at hm
    obtain ⟨hpc, fmem, hfm, hs⟩ := hm
    have hlt := next_pc_lt hv.ret hR.2.1 hstep
    exact ⟨hR.1.tail (c := ()) trivial hstep, by omega, fmem, hfm, hs⟩
  done {t s v} hR hstep := by
    refine (hR.block hacc hv.scratch hlen).until.mono (fun _ _ => trivial) fun s' hm c _ => ?_
    rw [hstep] at hm
    rw [ebpfStep_of_fetch c hm.exit, ← hm.value]
    rfl
  noFault {t s} hR := cbpfStep_ne_fault hacc hv hR.1 hR.2.1

/-- The prologue leads to the first expansion. -/
theorem until_related (hacc : Accepted prog out) (h₀ : EntryState data dataEnd s) :
    Until (ebpfStep out) (HelperOk mem data dataEnd) (fun _ => True)
      (Related prog (packet mem data dataEnd) data dataEnd cbpfInit) s := by
  obtain ⟨-, s₁, hstep₁, -, s₂, hstep₂, hs₂⟩ := hacc.entry h₀
  refine .step (fun _ => s₁) trivial (fun c _ => hstep₁ c) fun _ _ => ?_
  refine .step (fun _ => s₂) trivial (fun c _ => hstep₂ c) fun _ _ => ?_
  refine (hacc.prologue_rest hs₂).until.mono (fun _ _ => trivial) fun s' ⟨fmem, hs⟩ => ?_
  exact ⟨.refl, hacc.text.1, fmem, fun _ _ h => (by cases h), hs⟩

/-- The outcome of the emitted code is the verdict on the classic program's. -/
theorem convert_outcome (hacc : Accepted prog out) (hv : CbpfValid prog)
    (hlen : (packet mem data dataEnd).length < 2 ^ 31) (h₀ : EntryState data dataEnd s)
    {ω : Nat → Helper} (hω : ∀ i, HelperOk mem data dataEnd (ω i)) :
    (∀ r, (∃ n, run (ebpfStep out) n ω s = .done r) ↔
        ∃ v, CbpfReturns prog (packet mem data dataEnd) v ∧ r = verdict v) ∧
      ∀ n, run (ebpfStep out) n ω s ≠ .fault := by
  obtain ⟨hdone, hfault⟩ :=
    (convertSimulation hacc hv hlen).outcome_of_until (until_related hacc h₀) hω
  refine ⟨fun r => (hdone r).trans ⟨?_, ?_⟩, hfault⟩
  · rintro ⟨m, v, hm, rfl⟩
    exact ⟨v, ⟨m, hm⟩, rfl⟩
  · rintro ⟨v, ⟨m, hm⟩, rfl⟩
    exact ⟨m, v, hm, rfl⟩

/-- **Semantic preservation.** For every valid classic program that both calls
accept and every packet shorter than 2^31 bytes, a run of the emitted code from
any entry state ends with 1 exactly when the classic program accepts the packet,
with 0 exactly when it rejects it, with nothing else and never in a fault; so the
one diverges when the other does. -/
theorem convert_preserves (hacc : Accepted prog out) (hv : CbpfValid prog)
    (hlen : (packet mem data dataEnd).length < 2 ^ 31) (h₀ : EntryState data dataEnd s)
    {ω : Nat → Helper} (hω : ∀ i, HelperOk mem data dataEnd (ω i)) :
    ((∃ n, run (ebpfStep out) n ω s = .done 1) ↔
      CbpfAccepts prog (packet mem data dataEnd)) ∧
    ((∃ n, run (ebpfStep out) n ω s = .done 0) ↔
      CbpfReturns prog (packet mem data dataEnd) 0) ∧
    (∀ n r, run (ebpfStep out) n ω s = .done r → r = 0 ∨ r = 1) ∧
    ∀ n, run (ebpfStep out) n ω s ≠ .fault := by
  obtain ⟨hdone, hfault⟩ := convert_outcome hacc hv hlen h₀ hω
  refine ⟨(hdone 1).trans ⟨?_, ?_⟩, (hdone 0).trans ⟨?_, ?_⟩, fun n r hr => ?_, hfault⟩
  · rintro ⟨v, hret, hv1⟩
    exact ⟨v, hret, verdict_eq_one.mp hv1.symm⟩
  · rintro ⟨v, hret, hv0⟩
    exact ⟨v, hret, (verdict_eq_one.mpr hv0).symm⟩
  · rintro ⟨v, hret, hv0⟩
    obtain rfl := verdict_eq_zero.mp hv0.symm
    exact hret
  · intro hret
    exact ⟨0, hret, rfl⟩
  · obtain ⟨v, -, rfl⟩ := (hdone r).mp ⟨n, hr⟩
    exact verdict_cases v

/-- A packet of the one byte 7 is accepted by `ldb [0]; ret a`. -/
theorem convert_preserves_firstByte :
    ∃ n, run (ebpfStep firstByteCode) n (fun _ => Helper.copying (fun _ => 7) fun _ => 0xdead)
      (entryState 1000 1001 0x4000) = .done 1 :=
  ((convert_preserves firstByte_accepted firstByte_valid (by decide)
    (entryState_entry 1000 1001 0x4000) fun _ => Helper.copying_ok _ _ _ _).1).mpr
      ⟨7, ⟨2, rfl⟩, by decide⟩

end SkbTracer.Pcap2Bpf
