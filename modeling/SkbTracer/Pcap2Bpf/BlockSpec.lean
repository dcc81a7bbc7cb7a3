import SkbTracer.Pcap2Bpf.Blocks

/-!
# One theorem about every expansion

`BlockPost` says, opcode by opcode, where the machine can be after an expansion,
and `Accepted.block` that it gets there: from the start of the expansion of
instruction `i`, whatever helpers answer, through guarded states only.
`Accepted.entry` and `Accepted.prologue_rest` are the same for the code before the
first expansion. The
simulation and the memory-safety proof both start from these two and never look
at emitted code again.

It is here that the lemmas about single groups of opcodes meet the layout:
`Accepted.codeAt` puts the expansion of instruction `i` at `addrOf prog i` of the output,
and `convertJmp_targets` and `Accepted.ja_target` turn the targets of a jump into such
addresses. An instruction that was accepted has a known opcode (`Accepted.exists_op`), so
the cases of `BlockPost` are all there are.

The prologue is treated in two parts, because the frame is not in place before its two
stores are done: `slotStore` is one of these stores, `Accepted.entry` both of them, and
`Accepted.prologue_rest` the moves that clear the classic registers.
-/

namespace SkbTracer.Pcap2Bpf

open SkbTracer.Bpf
open SkbTracer.Lib (Until UntilPlus load store load_store load_store_of_disjoint)

/-- Where the machine can be after the expansion of instruction `i`, which is
`fp` with opcode `op`. -/
def BlockPost (prog : List SockFilter) (out : List BpfInsn) (adm : Helper → Prop)
    (data dataEnd : BitVec 64) (i : Nat) (fp : SockFilter) (a x : BitVec 32)
    (mem : Nat → BitVec 32) (op : CbpfOp) (s : EbpfState) : Prop :=
  let next := AtInsn data dataEnd (addrOf prog (i + 1))
  let reject := AtExit out data dataEnd 0
  match op with
  | .alu op src =>
    ¬(op.divides ∧ src = .x ∧ x = 0) ∧ next (op.eval a (src.pick fp.k x)) x mem s ∨
      (op.divides ∧ src = .x ∧ x = 0) ∧ reject s
  | .neg => next (-a) x mem s
  | .ldAbs size =>
    LoadPost out adm data dataEnd fp.k.toNat size.bytes (addrOf prog (i + 1)) x mem s
  | .ldInd size =>
    LoadPost out adm data dataEnd (x.toNat + fp.k.toNat) size.bytes (addrOf prog (i + 1)) x mem s
  | .ja => ∃ t : Nat, (t : Int) = i + 1 + fp.k.toInt ∧ t < prog.length ∧
      AtInsn data dataEnd (addrOf prog t) a x mem s
  | .jmp op src =>
    ∃ t, t = i + 1 + (if op.eval a (src.pick fp.k x) then fp.jt.toNat else fp.jf.toNat) ∧
      (t < prog.length ∨ t = i + 1) ∧ AtInsn data dataEnd (addrOf prog t) a x mem s
  | .ldxMsh =>
    (∃ v, WordRead adm data dataEnd fp.k.toNat 1 v ∧ next a ((v &&& 0xf) <<< 2) mem s) ∨
      WordRefused adm data dataEnd fp.k.toNat 1 ∧ reject s
  | .retA => AtExit out data dataEnd (verdict a) s
  | .retK => AtExit out data dataEnd (verdict fp.k) s
  | .st => next a x (fun j => if j = fp.k.toNat then a else mem j) s
  | .stx => next a x (fun j => if j = fp.k.toNat then x else mem j) s
  | .ldMem => next (mem fp.k.toNat) x mem s
  | .ldxMem => next a (mem fp.k.toNat) mem s
  | .ldImm => next fp.k x mem s
  | .ldxImm => next a fp.k mem s
  | .tax => next a a mem s
  | .txa => next x x mem s

variable {prog : List SockFilter} {out : List BpfInsn} {data dataEnd : BitVec 64}
  {adm : Helper → Prop} {s : EbpfState} {fp : SockFilter} {i : Nat} {a x : BitVec 32}
  {mem : Nat → BitVec 32} {op : CbpfOp}

/-- The prologue is at the front of the output, the expansion of every
instruction at its address. -/
theorem Accepted.codeAt (h : Accepted prog out) :
    CodeAt out 0 prologue ∧ ∀ {i fp}, prog[i]? = some fp →
      ∃ xs, convertInsn prog.length (some (layout prog)) i fp = some xs ∧
        CodeAt out (addrOf prog i) xs := by
  obtain ⟨-, body, hbody, rfl⟩ := h.text
  refine ⟨⟨[], body, by simp, rfl⟩, fun {i fp} hi => ?_⟩
  obtain ⟨xs, pre, post, hxs, rfl, hpre⟩ := translate_at hbody hi
  rw [Nat.zero_add] at hxs
  exact ⟨xs, hxs, prologue ++ pre, post, by simp, by simp [hpre, addrOf]⟩

/-- The 32-bit sum the code takes as the target of a `JMP | JA`, if it is an index. -/
theorem jaTarget_eq {t : Nat} (hlen : prog.length ≤ bpfMaxInsns) (hi : i < prog.length)
    (ht : jaTarget i fp = t) (htlt : t < prog.length) : (t : Int) = i + 1 + fp.k.toInt := by
  unfold bpfMaxInsns at hlen
  unfold jaTarget at ht
  have hk := fp.k.isLt
  have hnat : (BitVec.ofNat 32 i + fp.k + 1).toNat = (i + fp.k.toNat + 1) % 2 ^ 32 := by
    rw [BitVec.toNat_add, BitVec.toNat_add, BitVec.toNat_ofNat]
    show ((i % 2 ^ 32 + fp.k.toNat) % 2 ^ 32 + 1) % 2 ^ 32 = _
    omega
  rw [BitVec.toInt_eq_toNat_cond, hnat] at ht
  rw [BitVec.toInt_eq_toNat_cond]
  split at ht <;> split <;> omega

/-- The branches of a conditional jump stay in the program. -/
theorem convertJmp_targets {xs : List BpfInsn} {src : Src} {op : JmpOp}
    (hop : fp.op = some (.jmp op src)) (hi : i < prog.length)
    (h : convertJmp prog.length (some (layout prog)) i fp = some xs) :
    (i + 1 + fp.jt.toNat < prog.length ∨ fp.jt = 0) ∧
      (i + 1 + fp.jf.toNat < prog.length ∨ fp.jf = 0) := by
  rcases convertJmp_eq_some h with ⟨hjf, j, hj, -⟩ | ⟨-, op', j, hinv, hj, -⟩ |
    ⟨-, -, j, ja, hj, hja, -⟩
  · obtain ⟨t, ht, htlt, -⟩ := emitJmp_layout hi hj
    exact ⟨Or.inl (by omega), Or.inr hjf⟩
  · obtain ⟨t, ht, htlt, -⟩ := emitJmp_layout hi hj
    exact ⟨Or.inr (jmpInverted_eq_some hop hinv).1, Or.inl (by omega)⟩
  · obtain ⟨t, ht, htlt, -⟩ := emitJmp_layout hi hj
    obtain ⟨t', ht', htlt', -⟩ := emitJmp_layout hi hja
    exact ⟨Or.inl (by omega), Or.inl (by omega)⟩

/-- The target of a `JMP | JA`, as an unbounded sum, is an instruction. -/
theorem Accepted.ja_target (h : Accepted prog out) (hi : prog[i]? = some fp)
    (hop : fp.op = some .ja) : ∃ t : Nat, (t : Int) = i + 1 + fp.k.toInt ∧ t < prog.length := by
  obtain ⟨xs, hxs, -⟩ := h.codeAt.2 hi
  have hlt : i < prog.length := (List.getElem?_eq_some_iff.mp hi).1
  simp only [convertInsn, hop, convertJa, Option.bind_eq_bind, Option.bind_eq_some_iff] at hxs
  obtain ⟨j, hj, -⟩ := hxs
  obtain ⟨t, ht, htlt, -⟩ := emitJmp_layout hlt hj
  exact ⟨t, jaTarget_eq h.length_le hlt ht htlt, htlt⟩

/-- Every instruction of an accepted program has one of the opcodes. -/
theorem Accepted.exists_op (h : Accepted prog out) (hi : prog[i]? = some fp) :
    ∃ op, fp.op = some op := by
  obtain ⟨xs, hxs, -⟩ := h.codeAt.2 hi
  cases hop : fp.op with
  | none =>
    simp only [convertInsn, hop] at hxs
    cases hxs
  | some op => exact ⟨op, rfl⟩

/-- **Every expansion, one by one.** -/
theorem Accepted.block (h : Accepted prog out) (hi : prog[i]? = some fp) (hop : fp.op = some op)
    (hk : fp.usesScratch → fp.k.toNat < bpfMemWords)
    (hs : AtInsn data dataEnd (addrOf prog i) a x mem s) :
    UntilPlus (ebpfStep out) adm (Guarded out data dataEnd)
      (BlockPost prog out adm data dataEnd i fp a x mem op) s := by
  obtain ⟨xs, hxs, hc⟩ := h.codeAt.2 hi
  have hlt : i < prog.length := (List.getElem?_eq_some_iff.mp hi).1
  have hnext : addrOf prog (i + 1) = addrOf prog i + xs.length := by
    rw [addrOf_succ hi, convertInsn_length hxs]
  -- each opcode has the lemma of its own block; left to say is which text the
  -- expansion is, and for the jumps where the emitted displacements lead
  unfold convertInsn at hxs
  rw [hop] at hxs
  unfold BlockPost
  cases op with
  | alu op src =>
    obtain rfl : convertAlu fp = xs := Option.some.inj hxs
    rw [hnext]
    exact block_alu hop hs hc
  | neg =>
    obtain rfl : convertAlu fp = xs := Option.some.inj hxs
    rw [hnext, convertNeg_eq hop]
    exact block_neg hop hs hc
  | ldAbs size =>
    obtain rfl : emitPacketLoad _ _ = xs := Option.some.inj hxs
    rw [SockFilter.code_of_op hop] at hc hnext
    dsimp only
    rw [hnext]
    exact block_ldAbs hs hc
  | ldInd size =>
    obtain rfl : emitPacketLoad _ _ = xs := Option.some.inj hxs
    rw [SockFilter.code_of_op hop] at hc hnext
    dsimp only
    rw [hnext]
    exact block_ldInd hs hc
  | ja =>
    simp only [convertJa, Option.bind_eq_bind, Option.bind_eq_some_iff, Option.some.injEq] at hxs
    obtain ⟨j, hj, rfl⟩ := hxs
    obtain ⟨t, ht, htlt, -⟩ := emitJmp_layout hlt hj
    rw [ht] at hj
    exact (block_ja hlt hop hj hs hc).mono (fun _ h => h)
      fun _ hs' => ⟨t, jaTarget_eq h.length_le hlt ht htlt, htlt, hs'⟩
  | jmp op src =>
    have htargets := convertJmp_targets hop hlt hxs
    refine (block_jmp hlt hop hxs hnext hs hc).mono (fun _ h => h) fun _ hs' => ⟨_, rfl, ?_, hs'⟩
    split
    · exact htargets.1.imp_right fun h0 => by rw [h0]; rfl
    · exact htargets.2.imp_right fun h0 => by rw [h0]; rfl
  | ldxMsh =>
    obtain rfl : convertMsh fp = xs := Option.some.inj hxs
    rw [hnext]
    exact block_msh hs hc
  | retA =>
    obtain rfl : convertRetA = xs := Option.some.inj hxs
    exact block_retA hs hc
  | retK =>
    obtain rfl : convertRetK fp = xs := Option.some.inj hxs
    exact block_retK hs hc
  | st =>
    obtain rfl : [bpfStxMem bpfW bpfRegFp bpfRegA (scratchOff fp)] = xs := Option.some.inj hxs
    rw [hnext]
    exact block_store (hk (Or.inl hop)) hs hs.a hc
  | stx =>
    obtain rfl : [bpfStxMem bpfW bpfRegFp bpfRegX (scratchOff fp)] = xs := Option.some.inj hxs
    rw [hnext]
    exact block_store (hk (Or.inr (Or.inl hop))) hs hs.x hc
  | ldMem =>
    obtain rfl : [bpfLdxMem bpfW bpfRegA bpfRegFp (scratchOff fp)] = xs := Option.some.inj hxs
    rw [hnext]
    exact block_ldMem (hk (Or.inr (Or.inr (Or.inl hop)))) hs hc
  | ldxMem =>
    obtain rfl : [bpfLdxMem bpfW bpfRegX bpfRegFp (scratchOff fp)] = xs := Option.some.inj hxs
    rw [hnext]
    exact block_ldxMem (hk (Or.inr (Or.inr (Or.inr hop)))) hs hc
  | ldImm =>
    obtain rfl : [bpfMov32Imm bpfRegA fp.k] = xs := Option.some.inj hxs
    rw [hnext]
    exact block_ldImm hs hc
  | ldxImm =>
    obtain rfl : [bpfMov32Imm bpfRegX fp.k] = xs := Option.some.inj hxs
    rw [hnext]
    exact block_ldxImm hs hc
  | tax =>
    obtain rfl : [bpfMov64Reg bpfRegX bpfRegA] = xs := Option.some.inj hxs
    rw [hnext]
    exact block_tax hs hc
  | txa =>
    obtain rfl : [bpfMov64Reg bpfRegA bpfRegX] = xs := Option.some.inj hxs
    rw [hnext]
    exact block_txa hs hc

/-! ## The prologue -/

/-- The machine is about to fill one of the two slots. -/
structure AtSlotStore (out : List BpfInsn) (s : EbpfState) : Prop where
  fp : s.regs 10 = s.fp
  store : ∃ r o, fetch out s = some (.stx .dw 10 r o) ∧ s.inFrame (s.regs 10 + o.signExtend 64) 8

/-- The two slots are filled. -/
structure AfterSlots (data dataEnd : BitVec 64) (s : EbpfState) : Prop where
  frame : Frame data dataEnd s
  pc : s.pc = 2

/-- A store of the prologue, `d` below `FP`. -/
theorem slotStore {r : BitVec 4} {o : BitVec 16} {i : BpfInsn} {rest : List BpfInsn} (d : Nat)
    (hfp : s.regs 10 = s.fp) (hc : CodeAt out s.pc (i :: rest))
    (hi : i.decode = some (.stx .dw 10 r o)) (hd : (-(o.signExtend 64)).toNat = d)
    (hsize : 8 ≤ d) (hfr : d ≤ stackSize) :
    AtSlotStore out s ∧ ∀ c, ebpfStep out c s =
      .next (s.setStack (store s.stack d 8 (s.regs r).toNat)) := by
  have he := hc.fetch hi
  have hdepth : s.depth (s.regs 10 + o.signExtend 64) = d := by
    rw [EbpfState.depth, hfp, ← hd]
    congr 1
    bv_omega
  have hin : s.inFrame (s.regs 10 + o.signExtend 64) 8 := by
    rw [EbpfState.inFrame, hdepth]
    exact ⟨hsize, hfr⟩
  refine ⟨⟨hfp, r, o, he, hin⟩, fun c => ?_⟩
  rw [ebpfStep_of_fetch c he]
  simp only [ebpfExec, MemSize.bytes, if_pos hin, hdepth]

/-- The first two steps fill the slots. -/
theorem Accepted.entry (h : Accepted prog out) (h₀ : EntryState data dataEnd s) :
    AtSlotStore out s ∧ ∃ s₁, (∀ c, ebpfStep out c s = .next s₁) ∧
      AtSlotStore out s₁ ∧ ∃ s₂, (∀ c, ebpfStep out c s₁ = .next s₂) ∧
        AfterSlots data dataEnd s₂ := by
  have hc : CodeAt out s.pc (_ :: _) := h₀.pc ▸ h.codeAt.1
  obtain ⟨hat, hstep⟩ := slotStore 40 h₀.fp hc (decode_stxMem _ _ _ .dw (by decide)) (by decide)
    (by decide) (by decide)
  obtain ⟨hat₁, hstep₁⟩ := slotStore (s := s.setStack _) 48 h₀.fp hc.tail
    (decode_stxMem _ _ _ .dw (by decide)) (by decide) (by decide) (by decide)
  refine ⟨hat, _, hstep, hat₁, _, hstep₁, ⟨h₀.fp, ?_, ?_⟩, congrArg (· + 2) h₀.pc⟩
  · show load (store (store s.stack 40 8 (s.regs 4).toNat) 48 8 (s.regs 5).toNat) 40 8 = _
    rw [load_store_of_disjoint (by omega) (by omega), load_store (by omega), h₀.data]
    exact Nat.mod_eq_of_lt data.isLt
  · show load (store (store s.stack 40 8 (s.regs 4).toNat) 48 8 (s.regs 5).toNat) 48 8 = _
    rw [load_store (by omega), h₀.dataEnd]
    exact Nat.mod_eq_of_lt dataEnd.isLt

/-- **The rest of the prologue** puts the machine in front of the first expansion,
with A and X zero. -/
theorem Accepted.prologue_rest (h : Accepted prog out) (hs : AfterSlots data dataEnd s) :
    UntilPlus (ebpfStep out) adm (Guarded out data dataEnd)
      (fun s' => ∃ mem, AtInsn data dataEnd (addrOf prog 0) 0 0 mem s') s := by
  have hc : CodeAt out s.pc _ := h.codeAt.1.drop 2 (by decide) hs.pc
  refine untilPlus_alu64 6 (s.regs 1) hs.frame hc (decode_mov64Reg _ _) rfl (by decide)
    fun hF hc => ?_
  refine (untilPlus_alu64 0 0 hF hc (decode_mov64Imm _ _) rfl (by decide)
    fun hF hc => ?_).until
  refine (untilPlus_alu64 7 0 hF hc (decode_mov64Imm _ _) rfl (by decide)
    fun hF hc => .here ⟨_, hF, ?_, rfl, rfl, fun _ => rfl⟩).until
  rw [EbpfState.wr_pc, EbpfState.wr_pc, EbpfState.wr_pc, hs.pc]
  rfl

end SkbTracer.Pcap2Bpf
