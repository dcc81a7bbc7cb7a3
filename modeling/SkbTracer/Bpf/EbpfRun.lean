import SkbTracer.Bpf.Ebpf

/-!
# Symbolic execution of eBPF code

`CodeAt out pc xs` says that the text `xs` sits in the program at `pc`. The rules
below take a machine standing at such a text over its first instruction, one rule
per kind of instruction, and hand the rest of the text to the rest of the proof;
they all conclude `UntilPlus`, so a block of code is proved by applying them in
sequence.

`Frame data dataEnd` is what generated code relies on from the prologue on: `R10`
is the frame pointer and the two slots at `FP-40` and `FP-48` hold the packet
bounds. `Guarded` adds what must hold of the memory access the machine is about to
make: loads and stores are inside the frame, stores stay away from the slots, and
a call reads at most four bytes, all of them between the bounds, into `FP-56`. The
rules keep track of both, so the proof that a block does the right thing is also the
proof that it accesses nothing it should not.

- `untilPlus_step` is the general rule; the others are instances of it.
- `untilPlus_alu32`, `untilPlus_alu64`: an operation, with the value it leaves named by
  the caller, who shows that it is that value.
- `untilPlus_ldx`, `untilPlus_stx`: a load from the frame and a store to it.
- `untilPlus_jmp_taken`, `untilPlus_jmp_fall`, `untilPlus_ja`: control.
- `untilPlus_call`: the helper, with whatever it may leave.

The `decode_` lemmas say what the macros of the source are as instructions, and
`Frame.storeBytes` that a store keeps the slots.
-/

namespace SkbTracer.Bpf

open SkbTracer.Lib (Res Byte Until UntilPlus leNat load store storeBytes load_store
  load_storeBytes load_store_of_disjoint load_storeBytes_of_disjoint)

/-! ## Decoding of the macros

The opcode of a macro is closed, so its fields are evaluated once here; where the
macro takes an operation, the caller evaluates it. -/

section

variable {op : BitVec 8} (d r : BitVec 4) (k : BitVec 32) (o : BitVec 16)

theorem decode_mov64Reg : (bpfMov64Reg d r).decode = some (.alu .w64 .mov d (.reg r)) :=
  BpfInsn.decode_eq (.alu .w64 .mov true) (by decide : Opcode.ofCode 0xbf = _)

theorem decode_mov64Imm : (bpfMov64Imm d k).decode = some (.alu .w64 .mov d (.imm k)) :=
  BpfInsn.decode_eq (.alu .w64 .mov false) (by decide : Opcode.ofCode 0xb7 = _)

theorem decode_mov32Reg : (bpfMov32Reg d r).decode = some (.alu .w32 .mov d (.reg r)) :=
  BpfInsn.decode_eq (.alu .w32 .mov true) (by decide : Opcode.ofCode 0xbc = _)

theorem decode_mov32Imm : (bpfMov32Imm d k).decode = some (.alu .w32 .mov d (.imm k)) :=
  BpfInsn.decode_eq (.alu .w32 .mov false) (by decide : Opcode.ofCode 0xb4 = _)

theorem decode_exit : bpfExitInsn.decode = some .exit :=
  BpfInsn.decode_eq .exit (by decide : Opcode.ofCode 0x95 = _)

theorem decode_ja : (bpfJmpImm bpfJa d k o).decode = some (.ja o) :=
  BpfInsn.decode_eq .ja (by decide : Opcode.ofCode 0x05 = _)

theorem decode_call : (bpfEmitCall k).decode = some (.call k) :=
  BpfInsn.decode_eq .call (by decide : Opcode.ofCode 0x85 = _)

/-- `BPF_END` with `BPF_TO_BE`, the byte swap after a load. -/
theorem decode_endian : (bpfEndian bpfFromBe d k).decode = some (.fromBe d k) :=
  BpfInsn.decode_eq .fromBe (by decide : Opcode.ofCode 0xdc = _)

/-- Arithmetic on 32 bits with a constant; the operation is the caller's. -/
theorem decode_alu32Imm (eop : EAluOp)
    (h : Opcode.ofCode (bpfAlu ||| bpfOp op ||| bpfK) = some (.alu .w32 eop false)) :
    (bpfAlu32Imm op d k).decode = some (.alu .w32 eop d (.imm k)) :=
  BpfInsn.decode_eq (.alu .w32 eop false) h

/-- The same on 64 bits, -/
theorem decode_alu64Imm (eop : EAluOp)
    (h : Opcode.ofCode (bpfAlu64 ||| bpfOp op ||| bpfK) = some (.alu .w64 eop false)) :
    (bpfAlu64Imm op d k).decode = some (.alu .w64 eop d (.imm k)) :=
  BpfInsn.decode_eq (.alu .w64 eop false) h

/-- and with a register. -/
theorem decode_alu64Reg (eop : EAluOp)
    (h : Opcode.ofCode (bpfAlu64 ||| bpfOp op ||| bpfX) = some (.alu .w64 eop true)) :
    (bpfAlu64Reg op d r).decode = some (.alu .w64 eop d (.reg r)) :=
  BpfInsn.decode_eq (.alu .w64 eop true) h

/-- A comparison with a register, -/
theorem decode_jmpReg (eop : EJmpOp)
    (h : Opcode.ofCode (bpfJmp ||| bpfOp op ||| bpfX) = some (.jmp .w64 eop true)) :
    (bpfJmpReg op d r o).decode = some (.jmp .w64 eop d (.reg r) o) :=
  BpfInsn.decode_eq (.jmp .w64 eop true) h

/-- with a constant, -/
theorem decode_jmpImm (eop : EJmpOp)
    (h : Opcode.ofCode (bpfJmp ||| bpfOp op ||| bpfK) = some (.jmp .w64 eop false)) :
    (bpfJmpImm op d k o).decode = some (.jmp .w64 eop d (.imm k) o) :=
  BpfInsn.decode_eq (.jmp .w64 eop false) h

/-- and with a constant, of the low halves. -/
theorem decode_jmp32Imm (eop : EJmpOp)
    (h : Opcode.ofCode (bpfJmp32 ||| bpfOp op ||| bpfK) = some (.jmp .w32 eop false)) :
    (bpfJmp32Imm op d k o).decode = some (.jmp .w32 eop d (.imm k) o) :=
  BpfInsn.decode_eq (.jmp .w32 eop false) h

/-- A load from memory, of any size. -/
theorem decode_ldxMem (size : MemSize)
    (h : Opcode.ofCode (bpfLdx ||| bpfSize op ||| bpfMem) = some (.ldx size)) :
    (bpfLdxMem op d r o).decode = some (.ldx size d r o) :=
  BpfInsn.decode_eq (.ldx size) h

/-- A store of a register. -/
theorem decode_stxMem (size : MemSize)
    (h : Opcode.ofCode (bpfStx ||| bpfSize op ||| bpfMem) = some (.stx size)) :
    (bpfStxMem op d r o).decode = some (.stx size d r o) :=
  BpfInsn.decode_eq (.stx size) h

end

/-! ## Text -/

/-- The text `xs` sits in the program `out` at `pc`. -/
def CodeAt (out : List BpfInsn) (pc : Nat) (xs : List BpfInsn) : Prop :=
  ∃ pre post, out = pre ++ xs ++ post ∧ pre.length = pc

/-- What stands at a place of the text. -/
theorem CodeAt.get {out xs : List BpfInsn} {pc j : Nat} (h : CodeAt out pc xs)
    (hj : j < xs.length) : out[pc + j]? = xs[j]? := by
  obtain ⟨pre, post, rfl, rfl⟩ := h
  rw [List.append_assoc, List.getElem?_append_right (by omega), Nat.add_sub_cancel_left,
    List.getElem?_append_left hj]

/-- Texts are cut in two: the second part, -/
theorem CodeAt.right {out xs ys : List BpfInsn} {pc pc' : Nat} (h : CodeAt out pc (xs ++ ys))
    (hpc : pc' = pc + xs.length) : CodeAt out pc' ys := by
  obtain ⟨pre, post, rfl, rfl⟩ := h
  exact ⟨pre ++ xs, post, by simp, by simp [hpc]⟩

/-- and the first. -/
theorem CodeAt.left {out xs ys : List BpfInsn} {pc : Nat} (h : CodeAt out pc (xs ++ ys)) :
    CodeAt out pc xs := by
  obtain ⟨pre, post, rfl, rfl⟩ := h
  exact ⟨pre, ys ++ post, by simp, rfl⟩

theorem CodeAt.tail {out xs : List BpfInsn} {i : BpfInsn} {pc : Nat}
    (h : CodeAt out pc (i :: xs)) : CodeAt out (pc + 1) xs := by
  rw [← List.singleton_append] at h
  exact h.right rfl

/-- The text left after skipping `n` instructions. -/
theorem CodeAt.drop {out xs : List BpfInsn} {pc pc' : Nat} (n : Nat) (h : CodeAt out pc xs)
    (hn : n ≤ xs.length) (hpc : pc' = pc + n) : CodeAt out pc' (xs.drop n) := by
  rw [← List.take_append_drop n xs] at h
  exact h.right (by rw [List.length_take, Nat.min_eq_left hn, hpc])

/-- The decoded instruction the machine stands at. -/
def fetch (out : List BpfInsn) (s : EbpfState) : Option EInsn :=
  (out[s.pc]?).bind BpfInsn.decode

/-- The machine at the start of a text is over its first instruction. -/
theorem CodeAt.fetch {out xs : List BpfInsn} {i : BpfInsn} {e : EInsn} {s : EbpfState}
    (h : CodeAt out s.pc (i :: xs)) (he : i.decode = some e) : fetch out s = some e := by
  have hget := h.get (j := 0) (by simp)
  rw [Nat.add_zero] at hget
  rw [Bpf.fetch, hget]
  exact he

/-- A step does what the instruction does. -/
theorem ebpfStep_of_fetch {out : List BpfInsn} {s : EbpfState} {e : EInsn} (h : Helper)
    (he : fetch out s = some e) : ebpfStep out h s = ebpfExec h e s := by
  unfold ebpfStep
  rw [show (out[s.pc]?).bind BpfInsn.decode = some e from he]

/-! ## The frame -/

/-- The slots the prologue fills keep the packet bounds, and `R10` is the frame
pointer. -/
structure Frame (data dataEnd : BitVec 64) (s : EbpfState) : Prop where
  fp : s.regs 10 = s.fp
  data : load s.stack 40 8 = data.toNat
  dataEnd : load s.stack 48 8 = dataEnd.toNat

/-- What holds when the machine is about to call `probe_read_kernel`: the buffer
is `FP-56`, and the source range lies between the bounds as unbounded integers. -/
structure CallSafe (data dataEnd : BitVec 64) (s : EbpfState) : Prop where
  dst : s.regs 1 = s.fp - 56
  size : s.regs 2 = 1 ∨ s.regs 2 = 2 ∨ s.regs 2 = 4
  low : data.toNat ≤ (s.regs 3).toNat
  high : (s.regs 3).toNat + (s.regs 2).toNat ≤ dataEnd.toNat

/-- The buffer of a safe call is 56 bytes below the top of the frame, -/
theorem CallSafe.depth_eq {data dataEnd : BitVec 64} {s : EbpfState}
    (h : CallSafe data dataEnd s) : s.depth (s.regs 1) = 56 := by
  rw [EbpfState.depth, h.dst, show s.fp - (s.fp - 56) = 56 from by bv_omega]
  rfl

/-- and has room for the four bytes that are read at most. -/
theorem CallSafe.size_le {data dataEnd : BitVec 64} {s : EbpfState}
    (h : CallSafe data dataEnd s) : (s.regs 2).toNat ≤ 4 := by
  rcases h.size with h | h | h <;> rw [h] <;> decide

/-- The `n` bytes from depth `d` up are no part of the two slots, which take the
depths 33 to 48. -/
def SlotFree (d n : Nat) : Prop := d ≤ 32 ∨ 48 + n ≤ d

/-- What holds of the memory access of an instruction about to be executed. -/
def AccessSafe (data dataEnd : BitVec 64) (s : EbpfState) : EInsn → Prop
  | .ldx size _ src off => s.inFrame (s.regs src + off.signExtend 64) size.bytes
  | .stx size dst _ off =>
    s.inFrame (s.regs dst + off.signExtend 64) size.bytes ∧
      SlotFree (s.depth (s.regs dst + off.signExtend 64)) size.bytes
  | .call func => func = bpfFuncProbeReadKernel ∧ CallSafe data dataEnd s
  | _ => True

/-- The frame is in place, and the access the machine is about to make is safe. -/
structure Guarded (out : List BpfInsn) (data dataEnd : BitVec 64) (s : EbpfState) : Prop where
  frame : Frame data dataEnd s
  access : ∀ e, fetch out s = some e → AccessSafe data dataEnd s e

variable {out : List BpfInsn} {data dataEnd : BitVec 64} {adm : Helper → Prop}
  {Q : EbpfState → Prop} {s s' : EbpfState} {i : BpfInsn} {e : EInsn} {rest : List BpfInsn}

/-- Writes to other registers than `R10` keep the frame. -/
theorem Frame.wr (hF : Frame data dataEnd s) {r : BitVec 4} (hr : r ≠ 10) (v : BitVec 64) :
    Frame data dataEnd (s.wr r v) :=
  ⟨by rw [EbpfState.wr_regs, if_neg (Ne.symm hr)]; exact hF.fp, hF.data, hF.dataEnd⟩

theorem Frame.goto (hF : Frame data dataEnd s) (pc : Nat) : Frame data dataEnd (s.goto pc) :=
  ⟨hF.fp, hF.data, hF.dataEnd⟩

/-- Bytes written to the frame away from the slots leave the frame in place. -/
theorem Frame.storeBytes (hF : Frame data dataEnd s) (hs : s'.regs 10 = s.regs 10)
    (hfp : s'.fp = s.fp) {d n : Nat} {f : Nat → Byte}
    (hst : s'.stack = Lib.storeBytes s.stack d n f) (hd : SlotFree d n) :
    Frame data dataEnd s' := by
  unfold SlotFree at hd
  refine ⟨by rw [hs, hfp, hF.fp], ?_, ?_⟩
  · rw [hst, load_storeBytes_of_disjoint (by omega) (by omega), hF.data]
  · rw [hst, load_storeBytes_of_disjoint (by omega) (by omega), hF.dataEnd]

/-- With the instruction known, one access is left to look at. -/
theorem Guarded.of_fetch (hF : Frame data dataEnd s) (he : fetch out s = some e)
    (ha : AccessSafe data dataEnd s e) : Guarded out data dataEnd s :=
  ⟨hF, fun _ hf => Option.some.inj (he.symm.trans hf) ▸ ha⟩

/-- An address `FP + o` lies `-o` below `FP`. -/
theorem Frame.depth_eq (hF : Frame data dataEnd s) (o : BitVec 64) :
    s.depth (s.regs 10 + o) = (-o).toNat := by
  rw [EbpfState.depth, hF.fp]
  congr 1
  bv_omega

/-! ## Rules -/

/-- The machine at an instruction whose result depends on the environment only
through the helper it is given. -/
theorem untilPlus_step (hF : Frame data dataEnd s) (hc : CodeAt out s.pc (i :: rest))
    (hi : i.decode = some e) (ha : AccessSafe data dataEnd s e) (f : Helper → EbpfState)
    (hx : ∀ h, ebpfExec h e s = .next (f h))
    (hu : ∀ h, adm h → Until (ebpfStep out) adm (Guarded out data dataEnd) Q (f h)) :
    UntilPlus (ebpfStep out) adm (Guarded out data dataEnd) Q s := by
  have he := hc.fetch hi
  exact ⟨.of_fetch hF he ha, f, fun h _ => by rw [ebpfStep_of_fetch h he, hx h], hu⟩

/-- An instruction that writes a register from registers and constants. -/
theorem untilPlus_wr (r : BitVec 4) (v : BitVec 64) (hF : Frame data dataEnd s)
    (hc : CodeAt out s.pc (i :: rest)) (hi : i.decode = some e)
    (hx : ∀ h, ebpfExec h e s = .next (s.wr r v)) (ha : AccessSafe data dataEnd s e)
    (hr : r ≠ 10)
    (hu : Frame data dataEnd (s.wr r v) → CodeAt out (s.wr r v).pc rest →
      Until (ebpfStep out) adm (Guarded out data dataEnd) Q (s.wr r v)) :
    UntilPlus (ebpfStep out) adm (Guarded out data dataEnd) Q s :=
  untilPlus_step hF hc hi ha (fun _ => s.wr r v) hx fun _ _ => hu (hF.wr hr v) hc.tail

/-- A 32-bit operation, with the value it leaves. -/
theorem untilPlus_alu32 {op : EAluOp} {src : Operand} (r : BitVec 4) (v : BitVec 32)
    (hF : Frame data dataEnd s) (hc : CodeAt out s.pc (i :: rest))
    (hi : i.decode = some (.alu .w32 op r src))
    (hv : op.eval (lo32 (s.regs r)) (s.val32 src) = v) (hr : r ≠ 10)
    (hu : Frame data dataEnd (s.wr r (zext v)) → CodeAt out (s.wr r (zext v)).pc rest →
      Until (ebpfStep out) adm (Guarded out data dataEnd) Q (s.wr r (zext v))) :
    UntilPlus (ebpfStep out) adm (Guarded out data dataEnd) Q s :=
  untilPlus_wr r (zext v) hF hc hi (fun _ => by rw [← hv]; rfl) trivial hr hu

/-- A 64-bit operation, with the value it leaves. -/
theorem untilPlus_alu64 {op : EAluOp} {src : Operand} (r : BitVec 4) (v : BitVec 64)
    (hF : Frame data dataEnd s) (hc : CodeAt out s.pc (i :: rest))
    (hi : i.decode = some (.alu .w64 op r src))
    (hv : op.eval (s.regs r) (s.val64 src) = v) (hr : r ≠ 10)
    (hu : Frame data dataEnd (s.wr r v) → CodeAt out (s.wr r v).pc rest →
      Until (ebpfStep out) adm (Guarded out data dataEnd) Q (s.wr r v)) :
    UntilPlus (ebpfStep out) adm (Guarded out data dataEnd) Q s :=
  untilPlus_wr r v hF hc hi (fun _ => by rw [← hv]; rfl) trivial hr hu

/-- A load from the frame, `d` below `FP`, with the value it finds. -/
theorem untilPlus_ldx {size : MemSize} {o : BitVec 16} (r : BitVec 4) (d : Nat) (v : BitVec 64)
    (hF : Frame data dataEnd s) (hc : CodeAt out s.pc (i :: rest))
    (hi : i.decode = some (.ldx size r 10 o)) (hd : (-(o.signExtend 64)).toNat = d)
    (hsize : size.bytes ≤ d) (hfr : d ≤ stackSize)
    (hv : BitVec.ofNat 64 (load s.stack d size.bytes) = v) (hr : r ≠ 10)
    (hu : Frame data dataEnd (s.wr r v) → CodeAt out (s.wr r v).pc rest →
      Until (ebpfStep out) adm (Guarded out data dataEnd) Q (s.wr r v)) :
    UntilPlus (ebpfStep out) adm (Guarded out data dataEnd) Q s := by
  have hdepth : s.depth (s.regs 10 + o.signExtend 64) = d := by rw [hF.depth_eq, hd]
  have hin : s.inFrame (s.regs 10 + o.signExtend 64) size.bytes := by
    rw [EbpfState.inFrame, hdepth]
    exact ⟨hsize, hfr⟩
  refine untilPlus_wr r v hF hc hi (fun h => ?_) hin hr hu
  simp only [ebpfExec, if_pos hin, hdepth, hv]

/-- A store to the frame, `d` below `FP`, away from the slots. -/
theorem untilPlus_stx {size : MemSize} {r : BitVec 4} {o : BitVec 16} (d : Nat)
    (hF : Frame data dataEnd s) (hc : CodeAt out s.pc (i :: rest))
    (hi : i.decode = some (.stx size 10 r o)) (hd : (-(o.signExtend 64)).toNat = d)
    (hsize : size.bytes ≤ d) (hfr : d ≤ stackSize) (hfree : SlotFree d size.bytes)
    (hu : Frame data dataEnd (s.setStack (store s.stack d size.bytes (s.regs r).toNat)) →
      Until (ebpfStep out) adm (Guarded out data dataEnd) Q
        (s.setStack (store s.stack d size.bytes (s.regs r).toNat))) :
    UntilPlus (ebpfStep out) adm (Guarded out data dataEnd) Q s := by
  have hdepth : s.depth (s.regs 10 + o.signExtend 64) = d := by rw [hF.depth_eq, hd]
  have hin : s.inFrame (s.regs 10 + o.signExtend 64) size.bytes := by
    rw [EbpfState.inFrame, hdepth]
    exact ⟨hsize, hfr⟩
  refine untilPlus_step hF hc hi ⟨hin, by rwa [hdepth]⟩ (fun _ => _) (fun h => ?_)
    fun _ _ => hu (hF.storeBytes rfl rfl rfl hfree)
  simp only [ebpfExec, if_pos hin, hdepth]

/-- A jump that is taken, to `pc`. -/
theorem untilPlus_jmp_taken {w : Width} {op : EJmpOp} {dst : BitVec 4} {src : Operand}
    {o : BitVec 16} (pc : Nat) (hF : Frame data dataEnd s) (hc : CodeAt out s.pc (i :: rest))
    (hi : i.decode = some (.jmp w op dst src o)) (ht : s.taken w op dst src = true)
    (hpc : (s.pc : Int) + 1 + o.toInt = pc)
    (hu : Frame data dataEnd (s.goto pc) →
      Until (ebpfStep out) adm (Guarded out data dataEnd) Q (s.goto pc)) :
    UntilPlus (ebpfStep out) adm (Guarded out data dataEnd) Q s := by
  refine untilPlus_step hF hc hi trivial (fun _ => s.goto pc) (fun h => ?_)
    fun _ _ => hu (hF.goto pc)
  simp only [ebpfExec, if_pos ht, EbpfState.jump, hpc]
  rw [if_neg (by omega), Int.toNat_natCast]

/-- A jump that is not taken. -/
theorem untilPlus_jmp_fall {w : Width} {op : EJmpOp} {dst : BitVec 4} {src : Operand}
    {o : BitVec 16} (hF : Frame data dataEnd s) (hc : CodeAt out s.pc (i :: rest))
    (hi : i.decode = some (.jmp w op dst src o)) (ht : s.taken w op dst src = false)
    (hu : Frame data dataEnd (s.goto (s.pc + 1)) → CodeAt out (s.goto (s.pc + 1)).pc rest →
      Until (ebpfStep out) adm (Guarded out data dataEnd) Q (s.goto (s.pc + 1))) :
    UntilPlus (ebpfStep out) adm (Guarded out data dataEnd) Q s := by
  refine untilPlus_step hF hc hi trivial (fun _ => s.goto (s.pc + 1)) (fun h => ?_)
    fun _ _ => hu (hF.goto _) hc.tail
  simp only [ebpfExec, ht, Bool.false_eq_true, if_false]

/-- An unconditional jump, to `pc`. -/
theorem untilPlus_ja {o : BitVec 16} (pc : Nat) (hF : Frame data dataEnd s)
    (hc : CodeAt out s.pc (i :: rest)) (hi : i.decode = some (.ja o))
    (hpc : (s.pc : Int) + 1 + o.toInt = pc)
    (hu : Frame data dataEnd (s.goto pc) →
      Until (ebpfStep out) adm (Guarded out data dataEnd) Q (s.goto pc)) :
    UntilPlus (ebpfStep out) adm (Guarded out data dataEnd) Q s := by
  refine untilPlus_step hF hc hi trivial (fun _ => s.goto pc) (fun h => ?_)
    fun _ _ => hu (hF.goto pc)
  simp only [ebpfExec, EbpfState.jump, hpc]
  rw [if_neg (by omega), Int.toNat_natCast]

/-- A call with safe arguments. -/
theorem untilPlus_call (n : Nat) (hF : Frame data dataEnd s) (hc : CodeAt out s.pc (i :: rest))
    (hi : i.decode = some (.call bpfFuncProbeReadKernel)) (hsafe : CallSafe data dataEnd s)
    (hn : (s.regs 2).toNat = n)
    (hu : ∀ h, adm h → Frame data dataEnd (s.afterCall (h s.helperCall) 56 n) →
      CodeAt out (s.pc + 1) rest →
      Until (ebpfStep out) adm (Guarded out data dataEnd) Q
        (s.afterCall (h s.helperCall) 56 n)) :
    UntilPlus (ebpfStep out) adm (Guarded out data dataEnd) Q s := by
  have hdepth : s.depth (s.regs 1) = 56 := hsafe.depth_eq
  have hsize : n ≤ 4 := hn ▸ hsafe.size_le
  have hin : s.inFrame (s.regs 1) n := by
    rw [EbpfState.inFrame, hdepth, stackSize]
    omega
  refine untilPlus_step hF hc hi ⟨rfl, hsafe⟩ (fun h => s.afterCall (h s.helperCall) 56 n)
    (fun h => ?_) fun h hh => hu h hh (hF.storeBytes rfl rfl rfl (Or.inr (by omega))) hc.tail
  simp only [ebpfExec, true_and, hn, if_pos hin, hdepth]

end SkbTracer.Bpf
