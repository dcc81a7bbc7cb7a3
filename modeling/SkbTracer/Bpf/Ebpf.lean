import SkbTracer.Bpf.Insn
import SkbTracer.Lib.Transition
import SkbTracer.Lib.Bytes

/-!
# eBPF

The part of eBPF that generated filter code uses. `BpfInsn.decode` splits the
opcode byte into its fields; `ebpfExec` is what a decoded instruction does:
sixty-four bit registers, 32-bit operations that zero-extend their result,
64-bit comparisons against a sign-extended immediate, shift amounts masked to
the width of the operation. `ebpfStep` is one step of a program, and its runs are
those of `Lib.Transition`.

The only memory instructions reach is the stack frame, the 512 bytes below `fp`,
kept by depth: `stack d` is the byte at address `fp - d`. An access outside the
frame is a fault, as is an instruction outside the subset, a jump in front of the
program, or a step behind its end. So to prove that a run does not fault is to prove
that it stays in the frame and in the program.

The helper `probe_read_kernel` belongs to the environment. A `Helper` answers
every call with a return value, the bytes it leaves in the destination buffer and
the values it leaves in `R1` to `R5`; `HelperOk mem data dataEnd` are the helpers
that copy what they are asked for inside `[data, dataEnd)` and return 0 then. A
run is driven by one helper per step, so a theorem about all runs covers every
content the clobbered registers may have.

`EntryState` is how a filter is entered: the bounds of the packet in `R4` and `R5`, the
frame pointer in `R10`, everything else arbitrary. Subprogram calls, atomic operations,
maps and wide immediates are not in the subset: no filter has them.
-/

namespace SkbTracer.Bpf

open SkbTracer.Lib (Res Byte leNat beNat byteOf load store storeBytes)

/-! ## Decoding -/

inductive Width where
  | w32 | w64
  deriving DecidableEq, Repr

inductive EAluOp where
  | add | sub | mul | div | or | and | lsh | rsh | mod | xor | mov
  deriving DecidableEq, Repr

inductive EJmpOp where
  | jeq | jgt | jge | jset | jne | jlt | jle | jslt
  deriving DecidableEq, Repr

inductive MemSize where
  | w | h | b | dw
  deriving DecidableEq, Repr

inductive Operand where
  | imm (v : BitVec 32)
  | reg (r : BitVec 4)
  deriving DecidableEq, Repr

inductive EInsn where
  | alu (w : Width) (op : EAluOp) (dst : BitVec 4) (src : Operand)
  | neg (w : Width) (dst : BitVec 4)
  | fromBe (dst : BitVec 4) (bits : BitVec 32)
  | ldx (size : MemSize) (dst src : BitVec 4) (off : BitVec 16)
  | stx (size : MemSize) (dst src : BitVec 4) (off : BitVec 16)
  | ja (off : BitVec 16)
  | jmp (w : Width) (op : EJmpOp) (dst : BitVec 4) (src : Operand) (off : BitVec 16)
  | call (func : BitVec 32)
  | exit
  deriving DecidableEq, Repr

def MemSize.bytes : MemSize → Nat
  | .w => 4
  | .h => 2
  | .b => 1
  | .dw => 8

def MemSize.ofBits (bits : BitVec 8) : MemSize :=
  if bits = bpfW then .w else if bits = bpfH then .h else if bits = bpfB then .b else .dw

def EAluOp.ofBits (bits : BitVec 8) : Option EAluOp :=
  if bits = bpfAdd then some .add
  else if bits = bpfSub then some .sub
  else if bits = bpfMul then some .mul
  else if bits = bpfDiv then some .div
  else if bits = bpfOr then some .or
  else if bits = bpfAnd then some .and
  else if bits = bpfLsh then some .lsh
  else if bits = bpfRsh then some .rsh
  else if bits = bpfMod then some .mod
  else if bits = bpfXor then some .xor
  else if bits = bpfMov then some .mov
  else none

def EJmpOp.ofBits (bits : BitVec 8) : Option EJmpOp :=
  if bits = bpfJeq then some .jeq
  else if bits = bpfJgt then some .jgt
  else if bits = bpfJge then some .jge
  else if bits = bpfJset then some .jset
  else if bits = bpfJne then some .jne
  else if bits = bpfJlt then some .jlt
  else if bits = bpfJle then some .jle
  else if bits = bpfJslt then some .jslt
  else none

/-- What an opcode byte selects: the operation, and whether the right operand is
a register. -/
inductive Opcode where
  | alu (w : Width) (op : EAluOp) (reg : Bool)
  | neg (w : Width)
  | fromBe
  | ldx (size : MemSize)
  | stx (size : MemSize)
  | ja
  | jmp (w : Width) (op : EJmpOp) (reg : Bool)
  | call
  | exit
  deriving DecidableEq, Repr

/-- The opcodes of the two ALU classes. -/
def Opcode.ofAlu (w : Width) (code : BitVec 8) : Option Opcode :=
  if bpfOp code = bpfNeg then some (.neg w)
  else if bpfOp code = bpfEnd then
    if w = .w32 ∧ bpfSrc code = bpfFromBe then some .fromBe else none
  else (EAluOp.ofBits (bpfOp code)).map fun op => .alu w op (bpfSrc code == bpfX)

/-- The opcodes of the two jump classes. -/
def Opcode.ofJmp (w : Width) (code : BitVec 8) : Option Opcode :=
  if w = .w64 ∧ bpfOp code = bpfJa then some .ja
  else if w = .w64 ∧ bpfOp code = bpfExit then some .exit
  else if w = .w64 ∧ bpfOp code = bpfCall then some .call
  else (EJmpOp.ofBits (bpfOp code)).map fun op => .jmp w op (bpfSrc code == bpfX)

/-- What an opcode byte selects, by its class first. -/
def Opcode.ofCode (code : BitVec 8) : Option Opcode :=
  if bpfClass code = bpfAlu then Opcode.ofAlu .w32 code
  else if bpfClass code = bpfAlu64 then Opcode.ofAlu .w64 code
  else if bpfClass code = bpfJmp then Opcode.ofJmp .w64 code
  else if bpfClass code = bpfJmp32 then Opcode.ofJmp .w32 code
  else if bpfClass code = bpfLdx ∧ bpfMode code = bpfMem then
    some (.ldx (MemSize.ofBits (bpfSize code)))
  else if bpfClass code = bpfStx ∧ bpfMode code = bpfMem then
    some (.stx (MemSize.ofBits (bpfSize code)))
  else none

/-- The right operand of an ALU or jump instruction. -/
def BpfInsn.operand (i : BpfInsn) (reg : Bool) : Operand :=
  if reg then .reg i.srcReg else .imm i.imm

/-- The instruction an instruction word denotes, given what its opcode selects. -/
def BpfInsn.decodeAs (i : BpfInsn) : Opcode → Option EInsn
  | .alu w op reg => some (.alu w op i.dstReg (i.operand reg))
  | .neg w => some (.neg w i.dstReg)
  | .fromBe => some (.fromBe i.dstReg i.imm)
  | .ldx size => some (.ldx size i.dstReg i.srcReg i.off)
  | .stx size => some (.stx size i.dstReg i.srcReg i.off)
  | .ja => some (.ja i.off)
  | .jmp w op reg => some (.jmp w op i.dstReg (i.operand reg) i.off)
  | .call => if i.srcReg = 0 then some (.call i.imm) else none
  | .exit => some .exit

/-- The instruction an instruction word denotes. -/
def BpfInsn.decode (i : BpfInsn) : Option EInsn := (Opcode.ofCode i.code).bind i.decodeAs

/-- Decoding a word whose opcode is known. -/
theorem BpfInsn.decode_eq {i : BpfInsn} (oc : Opcode) (h : Opcode.ofCode i.code = some oc) :
    i.decode = i.decodeAs oc := by
  rw [BpfInsn.decode, h]
  rfl

/-! ## Machine state -/

/-- A state of the machine. -/
structure EbpfState where
  pc : Nat
  regs : BitVec 4 → BitVec 64
  /-- The frame pointer; `R10` starts out with this value. -/
  fp : BitVec 64
  /-- The frame, by depth below `fp`. -/
  stack : Nat → Byte

/-- The size of a stack frame. -/
def stackSize : Nat := 512

/-- Write a register and move to the next instruction. -/
def EbpfState.wr (s : EbpfState) (r : BitVec 4) (v : BitVec 64) : EbpfState :=
  { s with pc := s.pc + 1, regs := fun q => if q = r then v else s.regs q }

/-- Go on at instruction `pc`. -/
def EbpfState.goto (s : EbpfState) (pc : Nat) : EbpfState := { s with pc := pc }

/-- Change the frame and move to the next instruction. -/
def EbpfState.setStack (s : EbpfState) (stack : Nat → Byte) : EbpfState :=
  { s with pc := s.pc + 1, stack := stack }

/-- How far below the frame pointer an address lies. -/
def EbpfState.depth (s : EbpfState) (addr : BitVec 64) : Nat := (s.fp - addr).toNat

/-- The `n` bytes from `addr` on lie in the frame. -/
def EbpfState.inFrame (s : EbpfState) (addr : BitVec 64) (n : Nat) : Prop :=
  n ≤ s.depth addr ∧ s.depth addr ≤ stackSize

instance (s : EbpfState) (addr : BitVec 64) (n : Nat) : Decidable (s.inFrame addr n) :=
  inferInstanceAs (Decidable (_ ∧ _))

/-- The low half of a register. -/
def lo32 (v : BitVec 64) : BitVec 32 := v.setWidth 32

/-- What a 32-bit operation leaves in a register: the high half is cleared. -/
def zext (v : BitVec 32) : BitVec 64 := v.setWidth 64

/-- The low half of a result of 32 bits is the result. -/
@[simp] theorem lo32_zext (v : BitVec 32) : lo32 (zext v) = v := by
  rw [lo32, zext, BitVec.setWidth_setWidth_of_le _ (by omega), BitVec.setWidth_eq]

/-- The same for a register that holds one. -/
theorem lo32_of_eq {w : BitVec 64} {v : BitVec 32} (h : w = zext v) : lo32 w = v := by
  rw [h, lo32_zext]

/-- Zero extension keeps the number. -/
@[simp] theorem zext_toNat (v : BitVec 32) : (zext v).toNat = v.toNat := by
  rw [zext, BitVec.toNat_setWidth_of_le (by omega)]

/-- So the register holds the number in 64 bits. -/
theorem zext_eq_ofNat (v : BitVec 32) : zext v = BitVec.ofNat 64 v.toNat := by
  rw [← zext_toNat, BitVec.ofNat_toNat, BitVec.setWidth_eq]

/-- The right operand of a 64-bit operation: constants are sign-extended. -/
def EbpfState.val64 (s : EbpfState) : Operand → BitVec 64
  | .imm v => v.signExtend 64
  | .reg r => s.regs r

/-- That of a 32-bit one: registers are cut. -/
def EbpfState.val32 (s : EbpfState) : Operand → BitVec 32
  | .imm v => v
  | .reg r => lo32 (s.regs r)

section

variable (s : EbpfState) (r q : BitVec 4) (v : BitVec 64) (pc : Nat) (m : Nat → Byte)

/-- Writing a register goes on to the next instruction, -/
@[simp] theorem EbpfState.wr_pc : (s.wr r v).pc = s.pc + 1 := rfl
@[simp] theorem EbpfState.wr_fp : (s.wr r v).fp = s.fp := rfl
@[simp] theorem EbpfState.wr_stack : (s.wr r v).stack = s.stack := rfl
/-- and the register reads as what was written. -/
@[simp] theorem EbpfState.wr_regs : (s.wr r v).regs q = if q = r then v else s.regs q := rfl
@[simp] theorem EbpfState.goto_pc : (s.goto pc).pc = pc := rfl
@[simp] theorem EbpfState.goto_fp : (s.goto pc).fp = s.fp := rfl
@[simp] theorem EbpfState.goto_stack : (s.goto pc).stack = s.stack := rfl
/-- A jump changes no register, -/
@[simp] theorem EbpfState.goto_regs : (s.goto pc).regs = s.regs := rfl
@[simp] theorem EbpfState.setStack_pc : (s.setStack m).pc = s.pc + 1 := rfl
@[simp] theorem EbpfState.setStack_fp : (s.setStack m).fp = s.fp := rfl
@[simp] theorem EbpfState.setStack_stack : (s.setStack m).stack = m := rfl
/-- and a store none either. -/
@[simp] theorem EbpfState.setStack_regs : (s.setStack m).regs = s.regs := rfl

end

/-! ## Helpers -/

/-- The arguments of a `probe_read_kernel` call. -/
structure HelperCall where
  dst : BitVec 64
  size : BitVec 64
  src : BitVec 64

/-- What a helper leaves behind. -/
structure HelperRet where
  r0 : BitVec 64
  bytes : Nat → Byte
  clobber : BitVec 4 → BitVec 64

/-- A helper answers every call, and may answer calls outside the packet in any way. -/
abbrev Helper := HelperCall → HelperRet

/-- Helpers that read `[data, dataEnd)` as `mem` has it: a call for a range inside
copies the bytes and returns 0. -/
def HelperOk (mem : BitVec 64 → Byte) (data dataEnd : BitVec 64) (h : Helper) : Prop :=
  ∀ c : HelperCall, data.toNat ≤ c.src.toNat → c.src.toNat + c.size.toNat ≤ dataEnd.toNat →
    (h c).r0 = 0 ∧ ∀ i, i < c.size.toNat → (h c).bytes i = mem (c.src + BitVec.ofNat 64 i)

/-- The helper that copies the bytes of `mem` and leaves `clobber` in the registers. -/
def Helper.copying (mem : BitVec 64 → Byte) (clobber : BitVec 4 → BitVec 64) : Helper :=
  fun c => { r0 := 0, bytes := fun i => mem (c.src + BitVec.ofNat 64 i), clobber := clobber }

/-- The copying helper is one of those. -/
theorem Helper.copying_ok (mem : BitVec 64 → Byte) (clobber : BitVec 4 → BitVec 64)
    (data dataEnd : BitVec 64) : HelperOk mem data dataEnd (Helper.copying mem clobber) :=
  fun _ _ _ => ⟨rfl, fun _ _ => rfl⟩

/-- The registers a helper call overwrites with values of its own. -/
def clobbered (r : BitVec 4) : Bool := decide (1 ≤ r.toNat ∧ r.toNat ≤ 5)

/-- The state after a helper that answered `ret` to a call with `n` bytes at
depth `d`. -/
def EbpfState.afterCall (s : EbpfState) (ret : HelperRet) (d n : Nat) : EbpfState :=
  { s with
    pc := s.pc + 1
    regs := fun q => if q = 0 then ret.r0 else if clobbered q then ret.clobber q else s.regs q
    stack := storeBytes s.stack d n ret.bytes }

/-- The arguments of the call the machine stands at. -/
def EbpfState.helperCall (s : EbpfState) : HelperCall :=
  { dst := s.regs 1, size := s.regs 2, src := s.regs 3 }

/-! ## Execution -/

/-- The value of an ALU operation, at either width. A division by zero gives
zero, a modulus by zero the left operand, a shift masks its amount. -/
def EAluOp.eval {n : Nat} : EAluOp → BitVec n → BitVec n → BitVec n
  | .add, a, b => a + b
  | .sub, a, b => a - b
  | .mul, a, b => a * b
  | .div, a, b => a / b
  | .or, a, b => a ||| b
  | .and, a, b => a &&& b
  | .lsh, a, b => a <<< (b.toNat % n)
  | .rsh, a, b => a >>> (b.toNat % n)
  | .mod, a, b => a % b
  | .xor, a, b => a ^^^ b
  | .mov, _, b => b

/-- The comparisons, those with an `s` on signed numbers. -/
def EJmpOp.eval {n : Nat} : EJmpOp → BitVec n → BitVec n → Bool
  | .jeq, a, b => a == b
  | .jgt, a, b => decide (b.toNat < a.toNat)
  | .jge, a, b => decide (b.toNat ≤ a.toNat)
  | .jset, a, b => a &&& b != 0
  | .jne, a, b => a != b
  | .jlt, a, b => decide (a.toNat < b.toNat)
  | .jle, a, b => decide (a.toNat ≤ b.toNat)
  | .jslt, a, b => decide (a.toInt < b.toInt)

/-- Go `off` instructions past the next one. -/
def EbpfState.jump (s : EbpfState) (off : BitVec 16) : Res EbpfState (BitVec 64) :=
  let target : Int := s.pc + 1 + off.toInt
  if target < 0 then .fault else .next (s.goto target.toNat)

/-- Whether a conditional jump is taken. -/
def EbpfState.taken (s : EbpfState) (w : Width) (op : EJmpOp) (dst : BitVec 4)
    (src : Operand) : Bool :=
  match w with
  | .w64 => op.eval (s.regs dst) (s.val64 src)
  | .w32 => op.eval (lo32 (s.regs dst)) (s.val32 src)

/-- One decoded instruction. A result is the value of `R0` at the exit. -/
def ebpfExec (h : Helper) (e : EInsn) (s : EbpfState) : Res EbpfState (BitVec 64) :=
  match e with
  | .alu .w64 op dst src => .next (s.wr dst (op.eval (s.regs dst) (s.val64 src)))
  | .alu .w32 op dst src =>
    .next (s.wr dst (zext (op.eval (lo32 (s.regs dst)) (s.val32 src))))
  | .neg .w64 dst => .next (s.wr dst (-s.regs dst))
  | .neg .w32 dst => .next (s.wr dst (zext (-lo32 (s.regs dst))))
  | .fromBe dst bits =>
    if bits = 16 ∨ bits = 32 ∨ bits = 64 then
      .next (s.wr dst (BitVec.ofNat 64 (beNat (byteOf (s.regs dst).toNat) (bits.toNat / 8))))
    else .fault
  | .ldx size dst src off =>
    let addr := s.regs src + off.signExtend 64
    if s.inFrame addr size.bytes then
      .next (s.wr dst (BitVec.ofNat 64 (load s.stack (s.depth addr) size.bytes)))
    else .fault
  | .stx size dst src off =>
    let addr := s.regs dst + off.signExtend 64
    if s.inFrame addr size.bytes then
      .next (s.setStack (store s.stack (s.depth addr) size.bytes (s.regs src).toNat))
    else .fault
  | .ja off => s.jump off
  | .jmp w op dst src off =>
    if s.taken w op dst src then s.jump off else .next (s.goto (s.pc + 1))
  | .call func =>
    if func = bpfFuncProbeReadKernel ∧ s.inFrame (s.regs 1) (s.regs 2).toNat then
      .next (s.afterCall (h s.helperCall) (s.depth (s.regs 1)) (s.regs 2).toNat)
    else .fault
  | .exit => .done (s.regs 0)

/-- One step of an eBPF program. -/
def ebpfStep (prog : List BpfInsn) (h : Helper) (s : EbpfState) : Res EbpfState (BitVec 64) :=
  match (prog[s.pc]?).bind BpfInsn.decode with
  | none => .fault
  | some e => ebpfExec h e s

/-- A state in which a filter function is entered with the packet at
`[data, dataEnd)`: `R4` and `R5` hold the bounds, `R10` the frame pointer, the
other registers and the frame anything. -/
structure EntryState (data dataEnd : BitVec 64) (s : EbpfState) : Prop where
  pc : s.pc = 0
  data : s.regs 4 = data
  dataEnd : s.regs 5 = dataEnd
  fp : s.regs 10 = s.fp

/-- The entry state with frame pointer `fp` over a frame of zeros. -/
def entryState (data dataEnd fp : BitVec 64) : EbpfState where
  pc := 0
  regs := fun r => if r = 4 then data else if r = 5 then dataEnd else if r = 10 then fp else 0
  fp := fp
  stack := fun _ => 0

/-- It is an entry state. -/
theorem entryState_entry (data dataEnd fp : BitVec 64) :
    EntryState data dataEnd (entryState data dataEnd fp) :=
  ⟨rfl, rfl, rfl, rfl⟩

end SkbTracer.Bpf
