import SkbTracer.Pcap2Bpf.Convert

/-!
# The expansions, written out

`emit_packet_load` back-patches its failure jumps, and the comparison of a
conditional jump is put together field by field. This file evaluates both once:
`emitPacketLoad_abs` and `emitPacketLoad_ind` give the instructions of a packet
load as a list whose failure jumps have their displacements, and the facts about
`convertJmp` say which of its three shapes an instruction gets: the false branch is next,
the true branch is next and the test is inverted, or neither is and there are two jumps.

Sizes follow. `convertInsn_length` shows that an expansion's size depends on the classic
instruction alone, neither on the address table nor on the position, and `convertSize` is
that size. All that is said of layouts rests on it:

- `convertInsn_length`: the size of an expansion;
- `convertSize_pos`: none is empty, so addresses grow strictly;
- `convertJmp_eq_some`: what a conditional jump becomes, when it becomes anything.

The other files take the expansions from here as lists of macros, and none of them unfolds
`emitPacketLoad` or `convertJmp` again.
-/

namespace SkbTracer.Pcap2Bpf

open SkbTracer.Bpf

/-! ## Packet loads -/

/-- The byte swap after a load of this width. -/
def loadSwap : LdSize → List BpfInsn
  | .b => []
  | .h => [bpfEndian bpfFromBe bpfRegA 16]
  | .w => [bpfEndian bpfFromBe bpfRegA 32]

/-- A packet load from the point where the offset is in R2. -/
def loadTail (size : LdSize) : List BpfInsn :=
  [ bpfJmp32Imm bpfJslt 2 0 16,
    bpfMov32Reg 3 2,
    bpfAlu32Imm bpfAdd 3 (BitVec.ofNat 32 size.bytes),
    bpfJmpReg bpfJlt 3 2 13,
    bpfLdxMem bpfDw 4 bpfRegFp (-40),
    bpfLdxMem bpfDw 5 bpfRegFp (-48),
    bpfJmpReg bpfJlt 5 4 10,
    bpfAlu64Reg bpfSub 5 4,
    bpfJmpReg bpfJgt 3 5 8,
    bpfMov64Reg 1 bpfRegFp,
    bpfAlu64Imm bpfAdd 1 (-56),
    bpfMov64Reg 3 4,
    bpfAlu64Reg bpfAdd 3 2,
    bpfMov64Imm 2 (BitVec.ofNat 32 size.bytes),
    bpfEmitCall bpfFuncProbeReadKernel,
    bpfJmpImm bpfJne 0 0 1,
    bpfJmpImm bpfJa 0 0 2,
    bpfMov64Imm 0 0,
    bpfExitInsn,
    bpfLdxMem size.bits bpfRegA bpfRegFp (-56) ] ++ loadSwap size

/-- The offset of an indirect load, `X + k` with a test for overflow. -/
def indOffset (k : BitVec 32) : List BpfInsn :=
  [ bpfMov32Reg 2 bpfRegX,
    bpfMov32Reg 1 2,
    bpfAlu32Imm bpfAdd 2 k,
    bpfJmpReg bpfJlt 2 1 17 ]

theorem bpfSize_ldAbs (size : LdSize) : bpfSize (CbpfOp.ldAbs size).code = size.bits := by
  cases size <;> rfl

theorem bpfSize_ldInd (size : LdSize) : bpfSize (CbpfOp.ldInd size).code = size.bits := by
  cases size <;> rfl

theorem emitPacketLoad_abs (size : LdSize) (k : BitVec 32) :
    emitPacketLoad (CbpfOp.ldAbs size).code k = bpfMov32Imm 2 k :: loadTail size := by
  have hmode : bpfMode (CbpfOp.ldAbs size).code ≠ bpfInd := by cases size <;> decide
  unfold emitPacketLoad packetLoad
  rw [bpfSize_ldAbs]
  simp only [if_neg hmode, Emitter.start, Emitter.emit, Emitter.emitFail, Emitter.backpatch,
    List.nil_append, List.cons_append, List.length_cons, List.length_nil, List.foldl_cons,
    List.foldl_nil, List.modify_succ_cons, List.modify_zero_cons, Nat.zero_add, Nat.reduceAdd]
  cases size <;> rfl

/-- A load relative to `X`: the sum is checked for overflow first. -/
theorem emitPacketLoad_ind (size : LdSize) (k : BitVec 32) :
    emitPacketLoad (CbpfOp.ldInd size).code k = indOffset k ++ loadTail size := by
  have hmode : bpfMode (CbpfOp.ldInd size).code = bpfInd := by cases size <;> decide
  unfold emitPacketLoad packetLoad
  rw [bpfSize_ldInd]
  simp only [if_pos hmode, Emitter.start, Emitter.emit, Emitter.emitFail, Emitter.backpatch,
    List.nil_append, List.cons_append, List.length_cons, List.length_nil, List.foldl_cons,
    List.foldl_nil, List.modify_succ_cons, List.modify_zero_cons, Nat.zero_add, Nat.reduceAdd]
  cases size <;> rfl

/-- A byte needs no swap, so its load is one instruction shorter. -/
theorem loadTail_length (size : LdSize) :
    (loadTail size).length = if size = .b then 20 else 21 := by
  cases size <;> rfl

/-! ## Conditional jumps -/

/-- The operation field of a conditional jump's opcode. -/
theorem bpfOp_code_jmp {fp : SockFilter} {op : JmpOp} {src : Src}
    (h : fp.op = some (.jmp op src)) : bpfOp (fp.code.setWidth 8) = op.bits := by
  rw [SockFilter.code_of_op h]
  cases op <;> cases src <;> rfl

/-- The source bit of a conditional jump's opcode. -/
theorem bpfSrc_code_jmp {fp : SockFilter} {op : JmpOp} {src : Src}
    (h : fp.op = some (.jmp op src)) : bpfSrc (fp.code.setWidth 8) = src.bits := by
  rw [SockFilter.code_of_op h]
  cases op <;> cases src <;> rfl

/-- An inverted instruction has its true branch next. -/
theorem jmpInverted_eq_some {fp : SockFilter} {op : JmpOp} {src : Src} {op' : BitVec 8}
    (h : fp.op = some (.jmp op src)) (hinv : jmpInverted fp = some op') :
    fp.jt = 0 ∧ invertJmp op.bits = some op' := by
  unfold jmpInverted at hinv
  rw [bpfOp_code_jmp h] at hinv
  split at hinv
  next hjt => exact ⟨hjt, hinv⟩
  next => exact absurd hinv (by simp)

/-- The shapes a conditional jump is translated to: one jump to the true target,
one inverted jump to the false target, or a jump to each. -/
theorem convertJmp_eq_some {len i : Nat} {addrs : Option (List Nat)} {fp : SockFilter}
    {xs : List BpfInsn} (h : convertJmp len addrs i fp = some xs) :
    (fp.jf = 0 ∧ ∃ j, emitJmp len addrs i (jmpPrefix fp).length (i + fp.jt.toNat + 1)
        (jmpInsn (bpfOp (fp.code.setWidth 8)) fp) = some j ∧ xs = jmpPrefix fp ++ [j]) ∨
    (fp.jf ≠ 0 ∧ ∃ op' j, jmpInverted fp = some op' ∧
      emitJmp len addrs i (jmpPrefix fp).length (i + fp.jf.toNat + 1) (jmpInsn op' fp) = some j ∧
      xs = jmpPrefix fp ++ [j]) ∨
    (fp.jf ≠ 0 ∧ jmpInverted fp = none ∧ ∃ j ja,
      emitJmp len addrs i (jmpPrefix fp).length (i + fp.jt.toNat + 1)
        (jmpInsn (bpfOp (fp.code.setWidth 8)) fp) = some j ∧
      emitJmp len addrs i ((jmpPrefix fp).length + 1) (i + fp.jf.toNat + 1)
        (bpfRawInsn (bpfJmp ||| bpfJa) 0 0 0 0) = some ja ∧
      xs = jmpPrefix fp ++ [j, ja]) := by
  unfold convertJmp at h
  split at h
  next hjf =>
    simp only [Option.bind_eq_bind, Option.bind_eq_some_iff, Option.some.injEq] at h
    obtain ⟨j, hj, rfl⟩ := h
    exact Or.inl ⟨hjf, j, hj, rfl⟩
  next hjf =>
    split at h
    next op' hinv =>
      simp only [Option.bind_eq_bind, Option.bind_eq_some_iff, Option.some.injEq] at h
      obtain ⟨j, hj, rfl⟩ := h
      exact Or.inr (Or.inl ⟨hjf, op', j, hinv, hj, rfl⟩)
    next hinv =>
      simp only [Option.bind_eq_bind, Option.bind_eq_some_iff, Option.some.injEq] at h
      obtain ⟨j, hj, ja, hja, rfl⟩ := h
      exact Or.inr (Or.inr ⟨hjf, hinv, j, ja, hj, hja, rfl⟩)

/-! ## Sizes -/

/-- The number of instructions the expansion of `fp` takes. -/
def convertSize (fp : SockFilter) : Nat :=
  match fp.op with
  | some (.alu op src) => if op.divides ∧ src = .x then 5 else 1
  | some (.ldAbs size) => if size = .b then 21 else 22
  | some (.ldInd size) => if size = .b then 24 else 25
  | some (.jmp _ _) => (jmpPrefix fp).length + (if fp.jf = 0 ∨ jmpInverted fp ≠ none then 1 else 2)
  | some .ldxMsh => 27
  | some .retA => 5
  | some .retK => 2
  | some _ => 1
  | none => 0

/-- The ALU instruction itself. -/
def aluInsn (op : AluOp) (src : Src) (k : BitVec 32) : BpfInsn :=
  bpfRawInsn (CbpfOp.alu op src).code bpfRegA (if src = .x then bpfRegX else 0) 0 k

/-- The test of X before a division or modulus by it. -/
def divGuard : List BpfInsn :=
  [bpfMov32Reg bpfRegX bpfRegX, bpfJmpImm bpfJne bpfRegX 0 2] ++ emitEpilogueFail

/-- Arithmetic, with a guard before a division by `X`. -/
theorem convertAlu_eq {fp : SockFilter} {op : AluOp} {src : Src}
    (hop : fp.op = some (.alu op src)) :
    convertAlu fp =
      (if op.divides ∧ src = .x then divGuard else []) ++ [aluInsn op src fp.k] := by
  unfold convertAlu
  rw [SockFilter.code_of_op hop]
  cases op <;> cases src <;> rfl

/-- Its two sizes. -/
theorem convertAlu_length {fp : SockFilter} {op : AluOp} {src : Src}
    (hop : fp.op = some (.alu op src)) :
    (convertAlu fp).length = if op.divides ∧ src = .x then 5 else 1 := by
  rw [convertAlu_eq hop]
  split <;> rfl

theorem convertNeg_eq {fp : SockFilter} (hop : fp.op = some .neg) :
    convertAlu fp = [bpfRawInsn (bpfAlu ||| bpfNeg) bpfRegA 0 0 fp.k] := by
  unfold convertAlu
  rw [SockFilter.code_of_op hop]
  rfl

/-- The load of a header length: `A` is kept in `X` meanwhile, and both change places at
the end. -/
theorem convertMsh_eq (fp : SockFilter) :
    convertMsh fp = bpfMov64Reg bpfRegX bpfRegA :: bpfMov32Imm 2 fp.k :: (loadTail .b ++
      [ bpfAlu32Imm bpfAnd bpfRegA 0xf, bpfAlu32Imm bpfLsh bpfRegA 2,
        bpfMov64Reg bpfRegTmp bpfRegX, bpfMov64Reg bpfRegX bpfRegA,
        bpfMov64Reg bpfRegA bpfRegTmp ]) := by
  unfold convertMsh
  rw [show bpfLd ||| bpfAbs ||| bpfB = (CbpfOp.ldAbs .b).code from rfl, emitPacketLoad_abs]
  rfl

/-- The size of an expansion does not depend on the table, the position or the
pass. -/
theorem convertInsn_length {len i : Nat} {addrs : Option (List Nat)} {fp : SockFilter}
    {xs : List BpfInsn} (h : convertInsn len addrs i fp = some xs) :
    xs.length = convertSize fp := by
  unfold convertInsn at h
  unfold convertSize
  cases hop : fp.op with
  | none => simp [hop] at h
  | some op =>
    cases op with
    | alu op src =>
      simp only [hop, Option.some.injEq] at h
      rw [← h]
      exact convertAlu_length hop
    | neg =>
      simp only [hop, Option.some.injEq] at h
      rw [← h, convertNeg_eq hop]
      rfl
    | ldAbs size =>
      simp only [hop, Option.some.injEq] at h
      rw [← h, SockFilter.code_of_op hop, emitPacketLoad_abs, List.length_cons, loadTail_length]
      cases size <;> rfl
    | ldInd size =>
      simp only [hop, Option.some.injEq] at h
      rw [← h, SockFilter.code_of_op hop, emitPacketLoad_ind, List.length_append, loadTail_length]
      cases size <;> rfl
    | ja =>
      simp only [hop, convertJa, Option.bind_eq_bind, Option.bind_eq_some_iff,
        Option.some.injEq] at h
      obtain ⟨j, _, rfl⟩ := h
      rfl
    | jmp op src =>
      simp only [hop] at h
      rcases convertJmp_eq_some h with ⟨hjf, j, _, rfl⟩ | ⟨_, op', j, hinv, _, rfl⟩ |
        ⟨hjf, hinv, j, ja, _, _, rfl⟩
      · rw [if_pos (Or.inl hjf), List.length_append]
        rfl
      · rw [if_pos (Or.inr (by rw [hinv]; simp)), List.length_append]
        rfl
      · rw [if_neg (not_or.mpr ⟨hjf, fun hne => hne hinv⟩), List.length_append]
        rfl
    | ldxMsh =>
      simp only [hop, Option.some.injEq] at h
      rw [← h, convertMsh_eq]
      simp [loadTail_length]
    | _ =>
      simp only [hop, Option.some.injEq] at h
      rw [← h]
      rfl

theorem convertSize_pos {fp : SockFilter} {op : CbpfOp} (hop : fp.op = some op) :
    0 < convertSize fp := by
  unfold convertSize
  rw [hop]
  cases op with
  | jmp op src => dsimp only; split <;> omega
  | alu op src => dsimp only; split <;> omega
  | ldAbs size => dsimp only; split <;> omega
  | ldInd size => dsimp only; split <;> omega
  | _ => simp

end SkbTracer.Pcap2Bpf
