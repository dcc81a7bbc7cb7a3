import SkbTracer.Bpf.Verifier
import SkbTracer.Pcap2Bpf.BlockSpec

/-!
# Emitted code passes the structural checks of the verifier

Everything here is about the text, not about runs: unreachable instructions and
paths no execution takes are included.

`BlockValid` is what holds of one expansion: its instructions are well formed,
the registers `base` suffice to enter it at its start and at the targets of its
own jumps (`innerStarts`), and each of its jumps either stays inside or leads to
the expansion of a target of the classic instruction. `convertInsn_valid` proves
it opcode by opcode; `Accepted.locate` finds the expansion an index of the output
belongs to, and the theorems about the whole output follow.

- `BlockValid.of_local` and `BlockValid.single`: expansions without jumps to elsewhere,
  checked by evaluating `flowOk` on their shapes;
- `JumpOk.of_emitJmp`: the jumps that `BPF_EMIT_JMP` builds;
- `Accepted.jump`: what a jump of the output does, with the expansion it belongs to;
- `Accepted.flow_entry`, `Accepted.covers`: the two hypotheses of `flow_sound`;
- `filter_valid`: all the checks, for the whole output.

A program may have a constant in a field it does not use; the converter copies it, and the
verifier would refuse it. So it is a hypothesis that such fields are zero (`UnusedKZero`),
as libpcap leaves them, and another that the program ends in a `RET`.
-/

namespace SkbTracer.Pcap2Bpf

open SkbTracer.Bpf

/-- The registers every expansion can rely on: A, the context, X and the frame
pointer. -/
def base : List (BitVec 4) := [0, 6, 7, 10]

/-- The positions in an expansion that its own jumps lead to. -/
def innerStarts (fp : SockFilter) : List Nat :=
  match fp.op with
  | some (.alu op src) => if op.divides ∧ src = .x then [4] else []
  | some (.ldAbs _) => [18, 20]
  | some (.ldInd _) => [21, 23]
  | some .ldxMsh => [19, 21]
  | some .retA => [3, 4]
  | _ => []

/-- Instruction `t` is the classic target of a jump with opcode `oc` in the
expansion of `fp`, instruction `i`: a comparison with the classic operation goes
to the true target, an inverted one and a `JA` to the false target. -/
def IsTarget (i : Nat) (fp : SockFilter) (oc : Opcode) (t : Nat) : Prop :=
  match fp.op, oc with
  | some .ja, .ja => (t : Int) = i + 1 + fp.k.toInt
  | some (.jmp op _), .jmp _ eop _ =>
    t = i + 1 + (if eop = eJmpOp op then fp.jt.toNat else fp.jf.toNat)
  | some (.jmp _ _), .ja => t = i + 1 + fp.jf.toNat
  | _, _ => False

/-- Classic targets are ahead, but for a `JA` that goes back. -/
theorem IsTarget.succ_le {i t : Nat} {fp : SockFilter} {oc : Opcode} (h : IsTarget i fp oc t)
    (hfwd : fp.op = some .ja → 0 ≤ fp.k.toInt) : i + 1 ≤ t := by
  unfold IsTarget at h
  split at h
  next hop =>
    have := hfwd hop
    omega
  next => omega
  next => omega
  next => exact h.elim

/-- A jump at position `m` of the expansion of `fp`, instruction `i`: it goes
forward inside the expansion, or to the expansion of its classic target. -/
def JumpOk (prog : List SockFilter) (i : Nat) (fp : SockFilter) (oc : Opcode) (m : Nat)
    (off : Int) : Prop :=
  (0 ≤ off ∧ ∃ k ∈ innerStarts fp, (m : Int) + 1 + off = k) ∨
    ∃ t, t < prog.length ∧ IsTarget i fp oc t ∧
      (addrOf prog i : Int) + m + 1 + off = addrOf prog t

/-- A text can be entered at its start and at `starts` with the registers of
`base` written. -/
def FlowChecks (starts : List Nat) (xs : List BpfInsn) : Prop :=
  ∀ k ∈ 0 :: starts, k < xs.length ∧
    flowOk base starts k base ((xs.map BpfInsn.shape).drop k) = true

instance (starts : List Nat) (xs : List BpfInsn) : Decidable (FlowChecks starts xs) :=
  inferInstanceAs (Decidable (∀ k ∈ 0 :: starts, _))

/-- If the instruction at `m` is a jump, it goes forward to one of `starts`. -/
def LocalJump (starts : List Nat) (m : Nat) (c : BitVec 8 × BitVec 16) : Prop :=
  ∀ oc ∈ Opcode.ofCode c.1, oc.jumps = true →
    0 ≤ c.2.toInt ∧ ∃ k ∈ starts, (m : Int) + 1 + c.2.toInt = k

instance (starts : List Nat) (m : Nat) : DecidablePred (LocalJump starts m) := fun c =>
  inferInstanceAs (Decidable (∀ oc ∈ Opcode.ofCode c.1, _))

/-- Every jump of a text goes forward to one of `starts`. -/
def LocalJumps (starts : List Nat) (xs : List (BitVec 8 × BitVec 16)) : Prop :=
  ∀ m < xs.length, ∀ c ∈ xs[m]?, LocalJump starts m c

instance (starts : List Nat) (xs : List (BitVec 8 × BitVec 16)) :
    Decidable (LocalJumps starts xs) :=
  @Nat.decidableBallLT xs.length (fun m _ => ∀ c ∈ xs[m]?, LocalJump starts m c)
    fun m _ => Option.decidableForallMem xs[m]?

/-- The opcode and the displacement. -/
def codeOff (i : BpfInsn) : BitVec 8 × BitVec 16 := (i.code, i.off)

/-- What holds of the expansion of instruction `i`. -/
structure BlockValid (prog : List SockFilter) (i : Nat) (fp : SockFilter) (xs : List BpfInsn) :
    Prop where
  wf : ∀ j ∈ xs, j.WellFormed
  flow : FlowChecks (innerStarts fp) xs
  jumps : ∀ {m j oc}, xs[m]? = some j → Opcode.ofCode j.code = some oc → oc.jumps = true →
    JumpOk prog i fp oc m j.off.toInt

variable {prog : List SockFilter} {out xs : List BpfInsn} {i : Nat} {fp : SockFilter}

/-! ## Expansions without jumps to elsewhere -/

/-- An expansion whose jumps all stay inside. -/
theorem BlockValid.of_local (hwf : ∀ j ∈ xs, j.WellFormed) (hflow : FlowChecks (innerStarts fp) xs)
    (hjumps : LocalJumps (innerStarts fp) (xs.map codeOff)) : BlockValid prog i fp xs := by
  refine ⟨hwf, hflow, fun {m j oc} hj hoc hjmp => Or.inl ?_⟩
  have hm : m < (xs.map codeOff).length := by
    rw [List.length_map]
    exact (List.getElem?_eq_some_iff.mp hj).1
  exact hjumps m hm (codeOff j) (by rw [List.getElem?_map, hj]; rfl) oc hoc hjmp

theorem BlockValid.single {j : BpfInsn} {oc : Opcode} (hin : innerStarts fp = [])
    (hwf : j.WellFormed) (hoc : Opcode.ofCode j.code = some oc) (hjmp : oc.jumps = false)
    (hflow : FlowChecks [] [j]) : BlockValid prog i fp [j] := by
  refine .of_local (fun _ h => List.mem_singleton.mp h ▸ hwf) (hin ▸ hflow) ?_
  intro m hm c hc oc' hoc' hjmp'
  obtain rfl : m = 0 := by simpa using hm
  obtain rfl : codeOff j = c := by simpa using hc
  obtain rfl := Option.some.inj (hoc.symm.trans hoc')
  exact absurd hjmp' (by rw [hjmp]; simp)

theorem wf_loadTail (size : LdSize) : ∀ j ∈ loadTail size, j.WellFormed := by
  unfold loadTail
  simp only [List.forall_mem_append, List.forall_mem_cons, List.not_mem_nil, false_implies,
    implies_true, and_true]
  refine ⟨⟨wf_jmp32Imm _ _ .jslt (by decide), wf_mov32Reg _ (by decide),
    wf_alu32Imm _ .add (by decide) (by decide), wf_jmpReg _ _ .jlt (by decide),
    wf_ldxMem _ _ .dw (by decide) (by decide), wf_ldxMem _ _ .dw (by decide) (by decide),
    wf_jmpReg _ _ .jlt (by decide), wf_alu64Reg _ .sub (by decide) (by decide),
    wf_jmpReg _ _ .jgt (by decide), wf_mov64Reg _ (by decide),
    wf_alu64Imm _ .add (by decide) (by decide), wf_mov64Reg _ (by decide),
    wf_alu64Reg _ .add (by decide) (by decide), wf_mov64Imm _ (by decide), wf_call _,
    wf_jmpImm _ _ .jne (by decide), wf_ja _, wf_mov64Imm _ (by decide), wf_exit,
    wf_ldxMem _ _ (memSize size) (by decide) (by cases size <;> decide)⟩, ?_⟩
  cases size with
  | b => exact fun _ h => by cases h
  | h => exact fun _ h => List.mem_singleton.mp h ▸ wf_endian _ (by decide)
  | w => exact fun _ h => List.mem_singleton.mp h ▸ wf_endian _ (by decide)

/-- A packet load jumps to its own failure epilogue only. -/
theorem blockValid_ldAbs {size : LdSize} (hop : fp.op = some (.ldAbs size)) (k : BitVec 32) :
    BlockValid prog i fp (bpfMov32Imm 2 k :: loadTail size) := by
  have hin : innerStarts fp = [18, 20] := by rw [innerStarts, hop]
  refine .of_local (List.forall_mem_cons.mpr ⟨wf_mov32Imm _ (by decide), wf_loadTail size⟩) ?_ ?_
  · rw [hin]
    cases size with
    | w => exact (by decide : FlowChecks [18, 20] (bpfMov32Imm 2 0 :: loadTail .w))
    | h => exact (by decide : FlowChecks [18, 20] (bpfMov32Imm 2 0 :: loadTail .h))
    | b => exact (by decide : FlowChecks [18, 20] (bpfMov32Imm 2 0 :: loadTail .b))
  · rw [hin]
    cases size with
    | w => exact (by decide : LocalJumps [18, 20] ((bpfMov32Imm 2 0 :: loadTail .w).map codeOff))
    | h => exact (by decide : LocalJumps [18, 20] ((bpfMov32Imm 2 0 :: loadTail .h).map codeOff))
    | b => exact (by decide : LocalJumps [18, 20] ((bpfMov32Imm 2 0 :: loadTail .b).map codeOff))

/-- So does one relative to `X`. -/
theorem blockValid_ldInd {size : LdSize} (hop : fp.op = some (.ldInd size)) (k : BitVec 32) :
    BlockValid prog i fp (indOffset k ++ loadTail size) := by
  have hin : innerStarts fp = [21, 23] := by rw [innerStarts, hop]
  refine .of_local (List.forall_mem_append.mpr ⟨?_, wf_loadTail size⟩) ?_ ?_
  · unfold indOffset
    simp only [List.forall_mem_cons, List.not_mem_nil, false_implies, implies_true, and_true]
    exact ⟨wf_mov32Reg _ (by decide), wf_mov32Reg _ (by decide),
      wf_alu32Imm _ .add (by decide) (by decide), wf_jmpReg _ _ .jlt (by decide)⟩
  · rw [hin]
    cases size with
    | w => exact (by decide : FlowChecks [21, 23] (indOffset 0 ++ loadTail .w))
    | h => exact (by decide : FlowChecks [21, 23] (indOffset 0 ++ loadTail .h))
    | b => exact (by decide : FlowChecks [21, 23] (indOffset 0 ++ loadTail .b))
  · rw [hin]
    cases size with
    | w => exact (by decide : LocalJumps [21, 23] ((indOffset 0 ++ loadTail .w).map codeOff))
    | h => exact (by decide : LocalJumps [21, 23] ((indOffset 0 ++ loadTail .h).map codeOff))
    | b => exact (by decide : LocalJumps [21, 23] ((indOffset 0 ++ loadTail .b).map codeOff))

/-- The instructions of `convertMsh`, with the constant set apart. -/
def mshInsns (k : BitVec 32) : List BpfInsn :=
  bpfMov64Reg bpfRegX bpfRegA :: bpfMov32Imm 2 k :: (loadTail .b ++
    [ bpfAlu32Imm bpfAnd bpfRegA 0xf, bpfAlu32Imm bpfLsh bpfRegA 2,
      bpfMov64Reg bpfRegTmp bpfRegX, bpfMov64Reg bpfRegX bpfRegA,
      bpfMov64Reg bpfRegA bpfRegTmp ])

/-- And so does that of a header length. -/
theorem blockValid_msh (hop : fp.op = some .ldxMsh) : BlockValid prog i fp (convertMsh fp) := by
  have hin : innerStarts fp = [19, 21] := by rw [innerStarts, hop]
  rw [convertMsh_eq, ← mshInsns]
  refine .of_local ?_ ?_ ?_
  · unfold mshInsns
    simp only [List.forall_mem_cons, List.forall_mem_append, List.not_mem_nil, false_implies,
      implies_true, and_true]
    exact ⟨wf_mov64Reg _ (by decide), wf_mov32Imm _ (by decide), wf_loadTail .b,
      wf_alu32Imm _ .and (by decide) (by decide), wf_alu32Imm _ .lsh (by decide) (by decide),
      wf_mov64Reg _ (by decide), wf_mov64Reg _ (by decide), wf_mov64Reg _ (by decide)⟩
  · rw [hin]
    exact (by decide : FlowChecks [19, 21] (mshInsns 0))
  · rw [hin]
    exact (by decide : LocalJumps [19, 21] ((mshInsns 0).map codeOff))

/-- Returns end the run; both branches of the test are inside. -/
theorem blockValid_retA (hop : fp.op = some .retA) : BlockValid prog i fp convertRetA := by
  have hin : innerStarts fp = [3, 4] := by rw [innerStarts, hop]
  refine .of_local ?_ (hin ▸ by decide) (hin ▸ by decide)
  unfold convertRetA
  simp only [List.forall_mem_cons, List.not_mem_nil, false_implies, implies_true, and_true]
  exact ⟨wf_jmpImm _ _ .jeq (by decide), wf_mov32Imm _ (by decide), wf_ja _,
    wf_mov32Imm _ (by decide), wf_exit⟩

/-- A constant needs no test. -/
theorem blockValid_retK (hop : fp.op = some .retK) : BlockValid prog i fp (convertRetK fp) := by
  have hin : innerStarts fp = [] := by rw [innerStarts, hop]
  refine .of_local ?_ ?_ ?_
  · unfold convertRetK
    simp only [List.forall_mem_cons, List.not_mem_nil, false_implies, implies_true, and_true]
    exact ⟨wf_mov32Imm _ (by decide), wf_exit⟩
  · rw [hin]
    exact (by decide : FlowChecks [] [bpfMov32Imm 0 0, bpfExitInsn])
  · rw [hin]
    exact (by decide : LocalJumps [] ([bpfMov32Imm 0 0, bpfExitInsn].map codeOff))

/-- An operation is well formed if its unused constant is zero. -/
theorem wf_aluInsn {op : AluOp} {src : Src} {k : BitVec 32} (hk : src = .x → k = 0) :
    (aluInsn op src k).WellFormed := by
  refine ⟨.alu .w32 (eAluOp op) (src == .x), ofCode_alu op src, ?_, fun h => ?_⟩
  · cases src with
    | k => exact ⟨rfl, rfl⟩
    | x => exact ⟨rfl, hk rfl⟩
  · exact absurd (List.mem_singleton.mp h) (by decide : (10 : BitVec 4) ≠ 0)

/-- The check on one operation, for all of them. -/
theorem flowChecks_aluInsn (op : AluOp) (src : Src) : FlowChecks [] [aluInsn op src 0] := by
  cases op <;> cases src <;> decide

/-- The ALU group but for the negation. -/
theorem blockValid_alu {op : AluOp} {src : Src} (hop : fp.op = some (.alu op src))
    (hk : src = .x → fp.k = 0) : BlockValid prog i fp (convertAlu fp) := by
  rw [convertAlu_eq hop]
  have hwf : (aluInsn op src fp.k).WellFormed := wf_aluInsn hk
  by_cases hdiv : op.divides ∧ src = .x
  · have hin : innerStarts fp = [4] := by
      rw [innerStarts, hop]
      exact if_pos hdiv
    -- a division by X has the guard of four instructions in front
    obtain ⟨hdiv, rfl⟩ := hdiv
    rw [if_pos ⟨hdiv, rfl⟩, hk rfl] at *
    refine .of_local ?_ ?_ ?_
    · unfold divGuard emitEpilogueFail
      simp only [List.forall_mem_cons, List.forall_mem_append, List.not_mem_nil, false_implies,
        implies_true, and_true]
      exact ⟨⟨⟨wf_mov32Reg _ (by decide), wf_jmpImm _ _ .jne (by decide)⟩,
        wf_mov64Imm _ (by decide), wf_exit⟩, hwf⟩
    · rw [hin]
      cases op with
      | div => decide
      | mod => decide
      | _ => cases hdiv
    · rw [hin]
      cases op with
      | div => decide
      | mod => decide
      | _ => cases hdiv
  · -- no guard: one instruction
    have hin : innerStarts fp = [] := by
      rw [innerStarts, hop]
      exact if_neg hdiv
    rw [if_neg hdiv, List.nil_append]
    refine .single hin hwf (ofCode_alu op src) rfl ?_
    exact flowChecks_aluInsn op src

theorem blockValid_neg (hop : fp.op = some .neg) (hk : fp.k = 0) :
    BlockValid prog i fp (convertAlu fp) := by
  rw [convertNeg_eq hop, hk]
  have hoc : Opcode.ofCode (bpfAlu ||| bpfNeg) = some (.neg .w32) := by decide
  exact .single (by rw [innerStarts, hop]) ⟨_, hoc, ⟨rfl, rfl, rfl⟩, by decide⟩ hoc rfl (by decide)

/-! ## Jumps -/

/-- A jump of an expansion, to the expansion of a classic target. -/
theorem JumpOk.of_emitJmp {pos : Nat} {target : Int} {insn j : BpfInsn} {oc : Opcode}
    (hi : i < prog.length)
    (hj : emitJmp prog.length (some (layout prog)) i pos target insn = some j)
    (htarget : ∀ t : Nat, target = t → t < prog.length → IsTarget i fp oc t) :
    JumpOk prog i fp oc pos j.off.toInt := by
  obtain ⟨t, ht, hlt, o, rfl, ho⟩ := emitJmp_layout hi hj
  exact Or.inr ⟨t, hlt, htarget t ht hlt, ho⟩

/-- An unconditional jump leads to the expansion of its target. -/
theorem blockValid_ja (hlen : prog.length ≤ bpfMaxInsns) (hi : i < prog.length)
    (hop : fp.op = some .ja) {j : BpfInsn}
    (hj : emitJmp prog.length (some (layout prog)) i 0 (jaTarget i fp)
      (bpfRawInsn (fp.code.setWidth 8) 0 0 0 0) = some j) : BlockValid prog i fp [j] := by
  have hjump : JumpOk prog i fp .ja 0 j.off.toInt := by
    refine .of_emitJmp hi hj fun t ht hlt => ?_
    unfold IsTarget
    rw [hop]
    exact jaTarget_eq hlen hi ht hlt
  obtain ⟨t, -, -, o, rfl, -⟩ := emitJmp_layout hi hj
  rw [SockFilter.code_of_op hop] at *
  have hoc : Opcode.ofCode CbpfOp.ja.code = some .ja := by decide
  refine ⟨fun _ h => ?_, ?_, fun {m j oc} hm hoc' _ => ?_⟩
  · obtain rfl := List.mem_singleton.mp h
    exact ⟨_, hoc, ⟨rfl, rfl, rfl⟩, List.not_mem_nil⟩
  · rw [innerStarts, hop]
    exact (by decide : FlowChecks [] [bpfRawInsn CbpfOp.ja.code 0 0 0 0])
  · obtain ⟨rfl, rfl⟩ : m = 0 ∧ _ = j := by
      cases m with
      | zero => exact ⟨rfl, Option.some.inj hm⟩
      | succ m => cases hm
    obtain rfl := Option.some.inj (hoc.symm.trans hoc')
    exact hjump

/-- The operation bits of the comparisons that are emitted. -/
def emittedJmps : List (BitVec 8) :=
  [bpfJeq, bpfJset, bpfJgt, bpfJge, bpfJne, bpfJle, bpfJlt]

/-- The comparison with the prefix it may have is one of three. -/
theorem jmpInsn_form {op : JmpOp} {src : Src} (hop : fp.op = some (.jmp op src)) (b : BitVec 8)
    (o : BitVec 16) :
    (jmpPrefix fp = [bpfMov32Imm 2 fp.k] ∧
      { jmpInsn b fp with off := o } = bpfRawInsn (bpfJmp ||| b ||| Src.x.bits) 0 2 o 0) ∨
    (jmpPrefix fp = [] ∧ { jmpInsn b fp with off := o } =
      bpfRawInsn (bpfJmp ||| b ||| src.bits) 0 (if src = .x then 7 else 0) o fp.k) := by
  unfold jmpPrefix jmpInsn
  rw [bpfSrc_code_jmp hop]
  by_cases hv : jmpViaTmp fp
  · rw [if_pos hv, if_pos hv]
    exact Or.inl ⟨rfl, rfl⟩
  · rw [if_neg hv, if_neg hv]
    cases src <;> exact Or.inr ⟨rfl, rfl⟩

theorem jmpPrefix_jumps {j : BpfInsn} {oc : Opcode} (hj : j ∈ jmpPrefix fp)
    (hoc : Opcode.ofCode j.code = some oc) : oc.jumps = false := by
  unfold jmpPrefix at hj
  split at hj
  next =>
    obtain rfl := List.mem_singleton.mp hj
    obtain rfl := Option.some.inj
      ((by decide : Opcode.ofCode 0xb4 = some (.alu .w32 .mov false)).symm.trans hoc)
    rfl
  next => cases hj

/-- The check on every shape of a conditional jump. -/
theorem flowChecks_cond : ∀ b ∈ emittedJmps,
    ∀ post ∈ [[], [bpfRawInsn (bpfJmp ||| bpfJa) 0 0 0 0]],
      FlowChecks [] (bpfMov32Imm 2 0 :: bpfRawInsn (bpfJmp ||| b ||| Src.x.bits) 0 2 0 0 :: post) ∧
      FlowChecks [] (bpfRawInsn (bpfJmp ||| b ||| Src.k.bits) 0 0 0 0 :: post) ∧
      FlowChecks [] (bpfRawInsn (bpfJmp ||| b ||| Src.x.bits) 0 7 0 0 :: post) := by
  decide

/-- A comparison that goes to a classic target, and after it nothing or a jump to
another one. -/
theorem blockValid_cond {op : JmpOp} {src : Src} {b : BitVec 8} {eop : EJmpOp} {o : BitVec 16}
    {post : List BpfInsn} (hop : fp.op = some (.jmp op src)) (hk : src = .x → fp.k = 0)
    (hb : b ∈ emittedJmps) (hbits : JmpBits b eop)
    (ho : ∀ reg, JumpOk prog i fp (.jmp .w64 eop reg) (jmpPrefix fp).length o.toInt)
    (hpost : post = [] ∨ ∃ o' : BitVec 16,
      post = [{ bpfRawInsn (bpfJmp ||| bpfJa) 0 0 0 0 with off := o' }] ∧
      JumpOk prog i fp .ja ((jmpPrefix fp).length + 1) o'.toInt) :
    BlockValid prog i fp (jmpPrefix fp ++ { jmpInsn b fp with off := o } :: post) := by
  have hja : Opcode.ofCode (bpfJmp ||| bpfJa) = some .ja := by decide
  -- the fields, the flow of registers, and where the jumps go
  refine ⟨?_, ?_, fun {m j oc} hm hoc hjmp => ?_⟩
  · have hwfpost : ∀ j ∈ post, j.WellFormed := by
      rcases hpost with rfl | ⟨o', rfl, -⟩
      · exact fun _ h => by cases h
      · exact fun _ h => List.mem_singleton.mp h ▸ ⟨_, hja, ⟨rfl, rfl, rfl⟩, List.not_mem_nil⟩
    rcases jmpInsn_form hop b o with ⟨hpre, hj⟩ | ⟨hpre, hj⟩
    · rw [hpre, hj]
      exact List.forall_mem_cons.mpr ⟨wf_mov32Imm _ (by decide),
        List.forall_mem_cons.mpr ⟨⟨_, hbits .x, rfl, List.not_mem_nil⟩, hwfpost⟩⟩
    · rw [hpre, hj]
      refine List.forall_mem_cons.mpr ⟨⟨_, hbits src, ?_, List.not_mem_nil⟩, hwfpost⟩
      cases src with
      | k => exact rfl
      | x => exact hk rfl
  · rw [innerStarts, hop]
    -- the check does not look at displacements and constants
    have hone := flowChecks_cond b hb [] (by simp)
    have htwo := flowChecks_cond b hb [bpfRawInsn (bpfJmp ||| bpfJa) 0 0 0 0] (by simp)
    rcases jmpInsn_form hop b o with ⟨hpre, hj⟩ | ⟨hpre, hj⟩
    · rw [hpre, hj]
      rcases hpost with rfl | ⟨o', rfl, -⟩
      · exact hone.1
      · exact htwo.1
    · rw [hpre, hj]
      rcases hpost with rfl | ⟨o', rfl, -⟩
      · cases src with
        | k => exact hone.2.1
        | x => exact hone.2.2
      · cases src with
        | k => exact htwo.2.1
        | x => exact htwo.2.2
  · rcases Nat.lt_or_ge m (jmpPrefix fp).length with hlt | hge
    · rw [List.getElem?_append_left hlt] at hm
      exact absurd hjmp (by rw [jmpPrefix_jumps (List.mem_of_getElem? hm) hoc]; simp)
    · rw [List.getElem?_append_right hge] at hm
      obtain ⟨d, rfl⟩ : ∃ d, m = (jmpPrefix fp).length + d := ⟨m - (jmpPrefix fp).length, by omega⟩
      rw [Nat.add_sub_cancel_left] at hm
      -- instruction `d` behind the prefix: the comparison, then the second jump if there is one
      cases d with
      | zero =>
        obtain rfl := Option.some.inj hm
        obtain ⟨reg, rfl⟩ : ∃ reg, oc = .jmp .w64 eop reg := by
          rcases jmpInsn_form hop b o with ⟨-, hj⟩ | ⟨-, hj⟩
          · rw [hj] at hoc
            exact ⟨_, Option.some.inj (hoc.symm.trans (hbits .x))⟩
          · rw [hj] at hoc
            exact ⟨_, Option.some.inj (hoc.symm.trans (hbits src))⟩
        exact ho reg
      | succ d =>
        rcases hpost with rfl | ⟨o', rfl, ho'⟩
        · cases hm
        · cases d with
          | zero =>
            obtain rfl := Option.some.inj hm
            obtain rfl := Option.some.inj (hja.symm.trans hoc)
            exact ho'
          | succ d => cases hm

theorem jmpBits_emitted (op : JmpOp) : op.bits ∈ emittedJmps := by cases op <;> decide

theorem invertJmp_emitted {op : JmpOp} {b : BitVec 8} (h : invertJmp op.bits = some b) :
    b ∈ emittedJmps := by
  cases op with
  | jset => cases h
  | _ =>
    obtain rfl := Option.some.inj h
    decide

/-- A conditional jump, of any of its three shapes. -/
theorem blockValid_jmp {op : JmpOp} {src : Src} (hi : i < prog.length)
    (hop : fp.op = some (.jmp op src)) (hk : src = .x → fp.k = 0)
    (hxs : convertJmp prog.length (some (layout prog)) i fp = some xs) :
    BlockValid prog i fp xs := by
  have htrue : ∀ reg (t : Nat), (i : Int) + fp.jt.toNat + 1 = t → t < prog.length →
      IsTarget i fp (.jmp .w64 (eJmpOp op) reg) t := by
    intro reg t ht _
    unfold IsTarget
    rw [hop]
    dsimp only
    rw [if_pos rfl]
    omega
  have hfalse : ∀ eop reg, eop ≠ eJmpOp op → ∀ t : Nat, (i : Int) + fp.jf.toNat + 1 = t →
      t < prog.length → IsTarget i fp (.jmp .w64 eop reg) t := by
    intro eop reg hne t ht _
    unfold IsTarget
    rw [hop]
    dsimp only
    rw [if_neg hne]
    omega
  have hjump : ∀ t : Nat, (i : Int) + fp.jf.toNat + 1 = t → t < prog.length →
      IsTarget i fp .ja t := by
    intro t ht _
    unfold IsTarget
    rw [hop]
    dsimp only
    omega
  rcases convertJmp_eq_some hxs with ⟨-, j, hj, rfl⟩ | ⟨-, op', j, hinv, hj, rfl⟩ |
    ⟨-, -, j, ja, hj, hja, rfl⟩
  · have ho := fun reg => JumpOk.of_emitJmp hi hj (htrue reg)
    obtain ⟨t, -, -, o, rfl, -⟩ := emitJmp_layout hi hj
    rw [bpfOp_code_jmp hop]
    exact blockValid_cond hop hk (jmpBits_emitted op) (jmpBits_bits op) ho (Or.inl rfl)
  · have hinv := (jmpInverted_eq_some hop hinv).2
    obtain ⟨eop, hbits, heval⟩ := invertJmp_eval hinv
    have hne : eop ≠ eJmpOp op := by
      rintro rfl
      have := heval 0 0
      rw [eJmpOp_eval] at this
      exact absurd this (by cases op.eval 0 0 <;> decide)
    have ho := fun reg => JumpOk.of_emitJmp hi hj (hfalse eop reg hne)
    obtain ⟨t, -, -, o, rfl, -⟩ := emitJmp_layout hi hj
    exact blockValid_cond hop hk (invertJmp_emitted hinv) hbits ho (Or.inl rfl)
  · have ho := fun reg => JumpOk.of_emitJmp hi hj (htrue reg)
    have ho' := JumpOk.of_emitJmp hi hja hjump
    obtain ⟨t, -, -, o, rfl, -⟩ := emitJmp_layout hi hj
    obtain ⟨t', -, -, o', rfl, -⟩ := emitJmp_layout hi hja
    rw [bpfOp_code_jmp hop]
    exact blockValid_cond hop hk (jmpBits_emitted op) (jmpBits_bits op) ho (Or.inr ⟨o', rfl, ho'⟩)

/-! ## Every expansion -/

/-- **Every expansion is valid.** -/
theorem convertInsn_valid (hlen : prog.length ≤ bpfMaxInsns) (hkz : UnusedKZero prog)
    (hi : prog[i]? = some fp)
    (hxs : convertInsn prog.length (some (layout prog)) i fp = some xs) :
    BlockValid prog i fp xs := by
  have hlt : i < prog.length := (List.getElem?_eq_some_iff.mp hi).1
  have hmem : fp ∈ prog := List.mem_of_getElem? hi
  cases hop : fp.op with
  | none => rw [convertInsn, hop] at hxs; cases hxs
  | some op =>
    rw [convertInsn, hop] at hxs
    cases op with
    | alu op src =>
      obtain rfl := Option.some.inj hxs
      exact blockValid_alu hop fun hx => hkz fp hmem (Or.inr (Or.inl ⟨op, hx ▸ hop⟩))
    | neg =>
      obtain rfl := Option.some.inj hxs
      exact blockValid_neg hop (hkz fp hmem (Or.inl hop))
    | ldAbs size =>
      obtain rfl := Option.some.inj hxs
      rw [SockFilter.code_of_op hop, emitPacketLoad_abs]
      exact blockValid_ldAbs hop fp.k
    | ldInd size =>
      obtain rfl := Option.some.inj hxs
      rw [SockFilter.code_of_op hop, emitPacketLoad_ind]
      exact blockValid_ldInd hop fp.k
    | ja =>
      simp only [convertJa, Option.bind_eq_bind, Option.bind_eq_some_iff, Option.some.injEq] at hxs
      obtain ⟨j, hj, rfl⟩ := hxs
      exact blockValid_ja hlen hlt hop hj
    | jmp op src =>
      exact blockValid_jmp hlt hop (fun hx => hkz fp hmem (Or.inr (Or.inr ⟨op, hx ▸ hop⟩))) hxs
    | ldxMsh =>
      obtain rfl := Option.some.inj hxs
      exact blockValid_msh hop
    | retA =>
      obtain rfl := Option.some.inj hxs
      exact blockValid_retA hop
    | retK =>
      obtain rfl := Option.some.inj hxs
      exact blockValid_retK hop
    | st =>
      obtain rfl := Option.some.inj hxs
      exact .single (by rw [innerStarts, hop]) (wf_stxMem _ _ .w (by decide))
        (by decide : Opcode.ofCode 0x63 = some (.stx .w)) rfl
        (by decide : FlowChecks [] [bpfStxMem bpfW bpfRegFp bpfRegA 0])
    | stx =>
      obtain rfl := Option.some.inj hxs
      exact .single (by rw [innerStarts, hop]) (wf_stxMem _ _ .w (by decide))
        (by decide : Opcode.ofCode 0x63 = some (.stx .w)) rfl
        (by decide : FlowChecks [] [bpfStxMem bpfW bpfRegFp bpfRegX 0])
    | ldMem =>
      obtain rfl := Option.some.inj hxs
      exact .single (by rw [innerStarts, hop]) (wf_ldxMem _ _ .w (by decide) (by decide))
        (by decide : Opcode.ofCode 0x61 = some (.ldx .w)) rfl
        (by decide : FlowChecks [] [bpfLdxMem bpfW bpfRegA bpfRegFp 0])
    | ldxMem =>
      obtain rfl := Option.some.inj hxs
      exact .single (by rw [innerStarts, hop]) (wf_ldxMem _ _ .w (by decide) (by decide))
        (by decide : Opcode.ofCode 0x61 = some (.ldx .w)) rfl
        (by decide : FlowChecks [] [bpfLdxMem bpfW bpfRegX bpfRegFp 0])
    | ldImm =>
      obtain rfl := Option.some.inj hxs
      exact .single (by rw [innerStarts, hop]) (wf_mov32Imm _ (by decide))
        (by decide : Opcode.ofCode 0xb4 = some (.alu .w32 .mov false)) rfl
        (by decide : FlowChecks [] [bpfMov32Imm bpfRegA 0])
    | ldxImm =>
      obtain rfl := Option.some.inj hxs
      exact .single (by rw [innerStarts, hop]) (wf_mov32Imm _ (by decide))
        (by decide : Opcode.ofCode 0xb4 = some (.alu .w32 .mov false)) rfl
        (by decide : FlowChecks [] [bpfMov32Imm bpfRegX 0])
    | tax =>
      obtain rfl := Option.some.inj hxs
      exact .single (by rw [innerStarts, hop]) (wf_mov64Reg _ (by decide))
        (by decide : Opcode.ofCode 0xbf = some (.alu .w64 .mov true)) rfl
        (by decide : FlowChecks [] [bpfMov64Reg bpfRegX bpfRegA])
    | txa =>
      obtain rfl := Option.some.inj hxs
      exact .single (by rw [innerStarts, hop]) (wf_mov64Reg _ (by decide))
        (by decide : Opcode.ofCode 0xbf = some (.alu .w64 .mov true)) rfl
        (by decide : FlowChecks [] [bpfMov64Reg bpfRegA bpfRegX])

/-! ## The whole output -/

/-- Every index of the output belongs to the prologue or to an expansion. -/
theorem Accepted.locate (h : Accepted prog out) {p : Nat} (hp : p < out.length) :
    p < prologue.length ∨ ∃ i fp xs m, prog[i]? = some fp ∧
      convertInsn prog.length (some (layout prog)) i fp = some xs ∧
      CodeAt out (addrOf prog i) xs ∧ m < xs.length ∧ p = addrOf prog i + m := by
  have hall : ∀ n, n ≤ prog.length → p < addrOf prog n → p < prologue.length ∨
      ∃ i fp xs m, prog[i]? = some fp ∧
        convertInsn prog.length (some (layout prog)) i fp = some xs ∧
        CodeAt out (addrOf prog i) xs ∧ m < xs.length ∧ p = addrOf prog i + m := by
    intro n
    induction n with
    | zero => exact fun _ hlt => Or.inl hlt
    | succ n ih =>
      intro hn hlt
      rcases Nat.lt_or_ge p (addrOf prog n) with hlt' | hge
      · exact ih (by omega) hlt'
      · have hi : prog[n]? = some prog[n] := List.getElem?_eq_getElem hn
        obtain ⟨xs, hxs, hc⟩ := h.codeAt.2 hi
        rw [addrOf_succ hi, ← convertInsn_length hxs] at hlt
        exact Or.inr ⟨n, _, xs, p - addrOf prog n, hi, hxs, hc, by omega, by omega⟩
  exact hall prog.length (Nat.le_refl _) (h.length_eq ▸ hp)

theorem addrOf_next (hi : prog[i]? = some fp)
    (hxs : convertInsn prog.length (some (layout prog)) i fp = some xs) :
    addrOf prog (i + 1) = addrOf prog i + xs.length := by
  rw [addrOf_succ hi, convertInsn_length hxs]

theorem prologue_jumps : ∀ j ∈ prologue, ∀ oc ∈ Opcode.ofCode j.code, oc.jumps = false := by
  decide

/-- What a jump of the output does, with the expansion it belongs to. -/
theorem Accepted.jump (h : Accepted prog out) (hkz : UnusedKZero prog) {p : Nat} {j : BpfInsn}
    {oc : Opcode} (hj : out[p]? = some j) (hoc : Opcode.ofCode j.code = some oc)
    (hjmp : oc.jumps = true) :
    ∃ i fp xs m, prog[i]? = some fp ∧
      convertInsn prog.length (some (layout prog)) i fp = some xs ∧ m < xs.length ∧
      p = addrOf prog i + m ∧ (∀ k ∈ innerStarts fp, k < xs.length) ∧
      JumpOk prog i fp oc m j.off.toInt := by
  have hp : p < out.length := (List.getElem?_eq_some_iff.mp hj).1
  rcases h.locate hp with hlt | ⟨i, fp, xs, m, hi, hxs, hc, hm, rfl⟩
  · have hget := h.codeAt.1.get hlt
    rw [Nat.zero_add, hj] at hget
    exact absurd hjmp (by rw [prologue_jumps j (List.mem_of_getElem? hget.symm) oc hoc]; simp)
  · have hv := convertInsn_valid h.length_le hkz hi hxs
    rw [hc.get hm] at hj
    exact ⟨i, fp, xs, m, hi, hxs, hm, rfl,
      fun k hk => (hv.flow k (List.mem_cons_of_mem _ hk)).1, hv.jumps hj hoc hjmp⟩

/-- Where control enters an expansion, or the end of the text. -/
def FlowStart (prog : List SockFilter) (p : Nat) : Prop :=
  p = addrOf prog prog.length ∨
    ∃ i fp, prog[i]? = some fp ∧ ∃ k ∈ 0 :: innerStarts fp, p = addrOf prog i + k

/-- Where an expansion begins control may enter. -/
theorem flowStart_addrOf {t : Nat} (ht : t ≤ prog.length) : FlowStart prog (addrOf prog t) := by
  rcases Nat.lt_or_ge t prog.length with hlt | hge
  · exact Or.inr ⟨t, _, List.getElem?_eq_getElem hlt, 0, List.mem_cons_self, rfl⟩
  · rw [Nat.le_antisymm ht hge]
    exact Or.inl rfl

/-- An expansion as a block of the control-flow graph. -/
theorem Accepted.flowBlock (h : Accepted prog out) (hkz : UnusedKZero prog)
    (hi : prog[i]? = some fp)
    (hxs : convertInsn prog.length (some (layout prog)) i fp = some xs)
    (hc : CodeAt out (addrOf prog i) xs) :
    FlowBlock out (FlowStart prog) (addrOf prog i) xs (innerStarts fp) := by
  have hv := convertInsn_valid h.length_le hkz hi hxs
  have hlt : i < prog.length := (List.getElem?_eq_some_iff.mp hi).1
  refine ⟨hc, fun {m j oc} hm hoc hjmp {q} hq => ?_, fun k hk => ?_, ?_⟩
  · rcases hv.jumps hm hoc hjmp with ⟨-, k, hk, hkm⟩ | ⟨t, ht, -, hkt⟩
    · exact Or.inr ⟨i, fp, hi, k, List.mem_cons_of_mem _ hk, by omega⟩
    · obtain rfl : q = addrOf prog t := by omega
      exact flowStart_addrOf (Nat.le_of_lt ht)
  · exact Or.inr ⟨i, fp, hi, k, List.mem_cons_of_mem _ hk, rfl⟩
  · rw [← addrOf_next hi hxs]
    exact flowStart_addrOf hlt

/-- From everywhere control may enter, the check goes through. -/
theorem Accepted.covers (h : Accepted prog out) (hkz : UnusedKZero prog) :
    Covers out base (FlowStart prog) := by
  rintro s (hend | ⟨i, fp, hi, k, hk, hpc⟩) hbase
  · exact Or.inl (hend.trans h.length_eq.symm)
  · obtain ⟨xs, hxs, hc⟩ := h.codeAt.2 hi
    have hflow := (convertInsn_valid h.length_le hkz hi hxs).flow k hk
    exact Or.inr ⟨_, xs, _, k, base, h.flowBlock hkz hi hxs hc, hflow.1, hpc, hflow.2, hbase⟩

/-- The prologue writes the registers of `base`. -/
theorem Accepted.flow_entry (h : Accepted prog out) :
    InBlock out base (FlowStart prog) flowEntry := by
  refine ⟨0, prologue, [], 0, [1, 2, 3, 4, 5, 10],
    ⟨h.codeAt.1, fun {m j oc} hm hoc hjmp => ?_, fun _ hk => (by cases hk), ?_⟩, by decide, rfl,
    by decide, by decide⟩
  · exact absurd hjmp (by rw [prologue_jumps j (List.mem_of_getElem? hm) oc hoc]; simp)
  · exact flowStart_addrOf (Nat.zero_le _)

theorem wf_prologue : ∀ j ∈ prologue, j.WellFormed := by
  unfold prologue
  simp only [List.forall_mem_cons, List.not_mem_nil, false_implies, implies_true, and_true]
  exact ⟨wf_stxMem _ _ .dw (by decide), wf_stxMem _ _ .dw (by decide), wf_mov64Reg _ (by decide),
    wf_mov64Imm _ (by decide), wf_mov64Imm _ (by decide)⟩

/-- The structural checks, for the whole output. -/
structure FilterValid (prog : List SockFilter) (out : List BpfInsn) : Prop where
  /-- Every jump lands in the program. -/
  jumps : ∀ {p : Nat} {j : BpfInsn} {oc : Opcode},
    out[p]? = some j → Opcode.ofCode j.code = some oc → oc.jumps = true →
    0 ≤ (p : Int) + 1 + j.off.toInt ∧ (p : Int) + 1 + j.off.toInt < out.length
  /-- The last instruction is an exit. -/
  last : out.getLast? = some bpfExitInsn
  /-- A jump out of the expansion of `fp`, instruction `i`, leads to the start of
  the expansion of its classic target. -/
  targets : ∀ {i p : Nat} {fp : SockFilter} {j : BpfInsn} {oc : Opcode},
    prog[i]? = some fp → addrOf prog i ≤ p → p < addrOf prog (i + 1) →
    out[p]? = some j → Opcode.ofCode j.code = some oc → oc.jumps = true →
    ¬((addrOf prog i : Int) ≤ p + 1 + j.off.toInt ∧
      (p : Int) + 1 + j.off.toInt < addrOf prog (i + 1)) →
    ∃ t, t < prog.length ∧ IsTarget i fp oc t ∧ (p : Int) + 1 + j.off.toInt = addrOf prog t
  /-- Unused fields are zero and `R10` is never written. -/
  wf : ∀ j ∈ out, j.WellFormed
  /-- No path of the graph reads a register before writing it. -/
  reads : ∀ {s}, FlowReach out s → ReadsWritten out s
  /-- If the classic jumps are forward, control only goes forward. -/
  forward : (∀ fp ∈ prog, fp.op = some .ja → 0 ≤ fp.k.toInt) → ∀ {p q}, Edge out p q → p < q

/-- The last expansion is a return, and a return ends in an exit. -/
theorem Accepted.last_exit (h : Accepted prog out) (hret : EndsInRet prog) :
    out.getLast? = some bpfExitInsn := by
  obtain ⟨fp, hlast, hop⟩ := hret
  have hpos := h.text.1
  rw [List.getLast?_eq_getElem?] at hlast
  obtain ⟨xs, hxs, hc⟩ := h.codeAt.2 hlast
  have hnext := addrOf_next hlast hxs
  rw [show prog.length - 1 + 1 = prog.length by omega, ← h.length_eq] at hnext
  have hexit : xs[xs.length - 1]? = some bpfExitInsn ∧ 0 < xs.length := by
    unfold convertInsn at hxs
    rcases hop with hop | hop
    · rw [hop] at hxs
      obtain rfl := Option.some.inj hxs
      exact ⟨rfl, by decide⟩
    · rw [hop] at hxs
      obtain rfl := Option.some.inj hxs
      exact ⟨rfl, Nat.zero_lt_succ _⟩
  rw [List.getLast?_eq_getElem?, hnext,
    show addrOf prog (prog.length - 1) + xs.length - 1 =
      addrOf prog (prog.length - 1) + (xs.length - 1) by omega, hc.get (by omega)]
  exact hexit.1

theorem addrOf_unique {i j m : Nat} (hi : addrOf prog i ≤ addrOf prog j + m)
    (hi' : addrOf prog j + m < addrOf prog (i + 1)) (hm : addrOf prog j + m < addrOf prog (j + 1)) :
    i = j := by
  rcases Nat.lt_trichotomy i j with hlt | heq | hgt
  · have := addrOf_mono prog (show i + 1 ≤ j by omega)
    omega
  · exact heq
  · have := addrOf_mono prog (show j + 1 ≤ i by omega)
    omega

/-- **Structural validity.** The output of an accepted conversion passes the
structural checks of the verifier. -/
theorem filter_valid (h : Accepted prog out) (hkz : UnusedKZero prog) (hret : EndsInRet prog) :
    FilterValid prog out where
  jumps {p j oc} hj hoc hjmp := by
    obtain ⟨i, fp, xs, m, hi, hxs, hm, rfl, hin, hok⟩ := h.jump hkz hj hoc hjmp
    have hlt : i < prog.length := (List.getElem?_eq_some_iff.mp hi).1
    have hnext := addrOf_next hi hxs
    have hend := addrOf_mono prog (show i + 1 ≤ prog.length from hlt)
    rw [h.length_eq]
    rcases hok with ⟨hoff, k, hk, hkm⟩ | ⟨t, ht, -, hkt⟩
    · have := hin k hk
      omega
    · have hpos : addrOf prog t < addrOf prog (t + 1) := by
        have hit : prog[t]? = some prog[t] := List.getElem?_eq_getElem ht
        obtain ⟨op, hop⟩ := h.exists_op hit
        rw [addrOf_succ hit]
        have := convertSize_pos hop
        omega
      have := addrOf_mono prog (show t + 1 ≤ prog.length from ht)
      omega
  last := h.last_exit hret
  targets {i p fp j oc} hi hle hlt hj hoc hjmp hout := by
    obtain ⟨i', fp', xs, m, hi', hxs, hm, rfl, hin, hok⟩ := h.jump hkz hj hoc hjmp
    have hnext := addrOf_next hi' hxs
    obtain rfl := addrOf_unique hle hlt (by omega)
    obtain rfl := Option.some.inj (hi.symm.trans hi')
    rcases hok with ⟨hoff, k, hk, hkm⟩ | ⟨t, ht, htarget, hkt⟩
    · have := hin k hk
      exact absurd ⟨by omega, by omega⟩ hout
    · exact ⟨t, ht, htarget, by omega⟩
  wf j hj := by
    obtain ⟨p, hp, rfl⟩ := List.getElem_of_mem hj
    rcases h.locate hp with hlt | ⟨i, fp, xs, m, hi, hxs, hc, hm, rfl⟩
    · have hget := h.codeAt.1.get hlt
      rw [Nat.zero_add, List.getElem?_eq_getElem hp] at hget
      exact wf_prologue _ (List.mem_of_getElem? hget.symm)
    · have hget := hc.get hm
      rw [List.getElem?_eq_getElem hp] at hget
      exact (convertInsn_valid h.length_le hkz hi hxs).wf _ (List.mem_of_getElem? hget.symm)
  reads hs := flow_sound (h.covers hkz) h.flow_entry hs
  forward hfwd {p q} hedge := by
    obtain ⟨j, oc, hj, hoc, ⟨-, rfl⟩ | ⟨hjmp, hq⟩⟩ := hedge
    · exact Nat.lt_succ_self p
    · obtain ⟨i, fp, xs, m, hi, hxs, hm, rfl, hin, hok⟩ := h.jump hkz hj hoc hjmp
      have hnext := addrOf_next hi hxs
      rcases hok with ⟨hoff, k, hk, hkm⟩ | ⟨t, ht, htarget, hkt⟩
      · omega
      · have := addrOf_mono prog (htarget.succ_le (hfwd fp (List.mem_of_getElem? hi)))
        omega

/-- The filter `icmp` becomes is valid, and its classic jumps lead forward only: so does
every step of the output. -/
theorem filter_valid_icmp : ∃ out, Accepted icmpProgram out ∧ FilterValid icmpProgram out ∧
    ∀ {p q}, Edge out p q → p < q := by
  obtain ⟨out, hacc⟩ := icmpProgram_accepted
  have hops : ∀ fp ∈ icmpProgram, fp.op = some (.ldAbs .h) ∨ fp.op = some (.ldAbs .b) ∨
      fp.op = some (.jmp .jeq .k) ∨ fp.op = some .retK := by decide
  have hkz : UnusedKZero icmpProgram := by
    intro fp hfp hunused
    exfalso
    rcases hops fp hfp with h | h | h | h <;> rw [h] at hunused <;> simp at hunused
  have hvalid := filter_valid hacc hkz ⟨_, rfl, Or.inr rfl⟩
  exact ⟨out, hacc, hvalid, hvalid.forward (by decide)⟩

end SkbTracer.Pcap2Bpf
