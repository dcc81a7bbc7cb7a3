import Mathlib.Algebra.Ring.Nat

/-!
# Instruction words of the two BPF dialects

`SockFilter` and `BpfInsn` are the records `struct sock_filter` and
`struct bpf_insn`; the constants are those of the kernel headers, as bit
patterns of an eight-bit opcode; the constructors below them are the macros that
`bpf_convert.c` writes its output with, its own ones and those of the header
`filter.h` it includes.

The fields of an opcode are taken with the masks of the headers (`bpfClass`, `bpfSize`,
`bpfMode`, `bpfOp`, `bpfSrc`), also where the code takes a field of one dialect from an
opcode of the other, which the converter does on purpose: the two dialects have most of
their bits in common.

Only the constants that the converter or the meaning of its output mentions are here.
Nothing here interprets an instruction: `Bpf.Cbpf` and `Bpf.Ebpf` do, and
`Pcap2Bpf.Convert` writes them.
-/

namespace SkbTracer.Bpf

/-- `struct sock_filter`: one classic BPF instruction. -/
structure SockFilter where
  code : BitVec 16
  jt : BitVec 8
  jf : BitVec 8
  k : BitVec 32
  deriving DecidableEq, Repr

/-- `struct bpf_insn`: one eBPF instruction. -/
structure BpfInsn where
  code : BitVec 8
  dstReg : BitVec 4
  srcReg : BitVec 4
  off : BitVec 16
  imm : BitVec 32
  deriving DecidableEq, Repr

/-! ## Opcode fields -/

def bpfLd : BitVec 8 := 0x00
def bpfLdx : BitVec 8 := 0x01
def bpfSt : BitVec 8 := 0x02
def bpfStx : BitVec 8 := 0x03
def bpfAlu : BitVec 8 := 0x04
def bpfJmp : BitVec 8 := 0x05
def bpfRet : BitVec 8 := 0x06
def bpfMisc : BitVec 8 := 0x07
def bpfJmp32 : BitVec 8 := 0x06
def bpfAlu64 : BitVec 8 := 0x07

def bpfW : BitVec 8 := 0x00
def bpfH : BitVec 8 := 0x08
def bpfB : BitVec 8 := 0x10
def bpfDw : BitVec 8 := 0x18

def bpfImm : BitVec 8 := 0x00
def bpfAbs : BitVec 8 := 0x20
def bpfInd : BitVec 8 := 0x40
def bpfMem : BitVec 8 := 0x60
def bpfMsh : BitVec 8 := 0xa0

def bpfAdd : BitVec 8 := 0x00
def bpfSub : BitVec 8 := 0x10
def bpfMul : BitVec 8 := 0x20
def bpfDiv : BitVec 8 := 0x30
def bpfOr : BitVec 8 := 0x40
def bpfAnd : BitVec 8 := 0x50
def bpfLsh : BitVec 8 := 0x60
def bpfRsh : BitVec 8 := 0x70
def bpfNeg : BitVec 8 := 0x80
def bpfMod : BitVec 8 := 0x90
def bpfXor : BitVec 8 := 0xa0
def bpfMov : BitVec 8 := 0xb0
def bpfEnd : BitVec 8 := 0xd0

def bpfJa : BitVec 8 := 0x00
def bpfJeq : BitVec 8 := 0x10
def bpfJgt : BitVec 8 := 0x20
def bpfJge : BitVec 8 := 0x30
def bpfJset : BitVec 8 := 0x40
def bpfJne : BitVec 8 := 0x50
def bpfCall : BitVec 8 := 0x80
def bpfExit : BitVec 8 := 0x90
def bpfJlt : BitVec 8 := 0xa0
def bpfJle : BitVec 8 := 0xb0
def bpfJslt : BitVec 8 := 0xc0

def bpfK : BitVec 8 := 0x00
def bpfX : BitVec 8 := 0x08
/-- The value field of `BPF_RET | BPF_A`. -/
def bpfA : BitVec 8 := 0x10
def bpfTax : BitVec 8 := 0x00
def bpfTxa : BitVec 8 := 0x80
/-- `BPF_FROM_BE`, the direction bit of `BPF_END`. -/
def bpfFromBe : BitVec 8 := 0x08

/-- `BPF_CLASS`. -/
def bpfClass (code : BitVec 8) : BitVec 8 := code &&& 0x07
/-- `BPF_SIZE`. -/
def bpfSize (code : BitVec 8) : BitVec 8 := code &&& 0x18
/-- `BPF_MODE`. -/
def bpfMode (code : BitVec 8) : BitVec 8 := code &&& 0xe0
/-- `BPF_OP`. -/
def bpfOp (code : BitVec 8) : BitVec 8 := code &&& 0xf0
/-- `BPF_SRC`. -/
def bpfSrc (code : BitVec 8) : BitVec 8 := code &&& 0x08

/-- `BPF_MAXINSNS`, the longest classic program. -/
def bpfMaxInsns : Nat := 4096

/-- `BPF_FUNC_probe_read_kernel - BPF_FUNC_unspec`. -/
def bpfFuncProbeReadKernel : BitVec 32 := 113

/-- `BPF_PSEUDO_CALL`: the `src_reg` of a call to a subprogram. -/
def bpfPseudoCall : BitVec 4 := 1

/-! ## Registers -/

def bpfRegTmp : BitVec 4 := 2
def bpfRegCtx : BitVec 4 := 6
def bpfRegArg1 : BitVec 4 := 1
def bpfRegFp : BitVec 4 := 10
def bpfRegA : BitVec 4 := 0
def bpfRegX : BitVec 4 := 7

/-! ## The macros instructions are written with -/

/-- `BPF_RAW_INSN`. -/
def bpfRawInsn (code : BitVec 8) (dst src : BitVec 4) (off : BitVec 16) (imm : BitVec 32) :
    BpfInsn :=
  { code := code, dstReg := dst, srcReg := src, off := off, imm := imm }

/-- `BPF_ALU32_IMM`. -/
def bpfAlu32Imm (op : BitVec 8) (dst : BitVec 4) (imm : BitVec 32) : BpfInsn :=
  bpfRawInsn (bpfAlu ||| bpfOp op ||| bpfK) dst 0 0 imm

/-- `BPF_ALU64_IMM`. -/
def bpfAlu64Imm (op : BitVec 8) (dst : BitVec 4) (imm : BitVec 32) : BpfInsn :=
  bpfRawInsn (bpfAlu64 ||| bpfOp op ||| bpfK) dst 0 0 imm

/-- `BPF_ALU64_REG`. -/
def bpfAlu64Reg (op : BitVec 8) (dst src : BitVec 4) : BpfInsn :=
  bpfRawInsn (bpfAlu64 ||| bpfOp op ||| bpfX) dst src 0 0

/-- `BPF_MOV64_REG`. -/
def bpfMov64Reg (dst src : BitVec 4) : BpfInsn :=
  bpfRawInsn (bpfAlu64 ||| bpfMov ||| bpfX) dst src 0 0

/-- `BPF_MOV64_IMM`. -/
def bpfMov64Imm (dst : BitVec 4) (imm : BitVec 32) : BpfInsn :=
  bpfRawInsn (bpfAlu64 ||| bpfMov ||| bpfK) dst 0 0 imm

/-- `BPF_MOV32_REG`. -/
def bpfMov32Reg (dst src : BitVec 4) : BpfInsn :=
  bpfRawInsn (bpfAlu ||| bpfMov ||| bpfX) dst src 0 0

/-- `BPF_MOV32_IMM`. -/
def bpfMov32Imm (dst : BitVec 4) (imm : BitVec 32) : BpfInsn :=
  bpfRawInsn (bpfAlu ||| bpfMov ||| bpfK) dst 0 0 imm

/-- `BPF_ENDIAN`. -/
def bpfEndian (type : BitVec 8) (dst : BitVec 4) (len : BitVec 32) : BpfInsn :=
  bpfRawInsn (bpfAlu ||| bpfEnd ||| bpfSrc type) dst 0 0 len

/-- `BPF_LDX_MEM`. -/
def bpfLdxMem (size : BitVec 8) (dst src : BitVec 4) (off : BitVec 16) : BpfInsn :=
  bpfRawInsn (bpfLdx ||| bpfSize size ||| bpfMem) dst src off 0

/-- `BPF_STX_MEM`. -/
def bpfStxMem (size : BitVec 8) (dst src : BitVec 4) (off : BitVec 16) : BpfInsn :=
  bpfRawInsn (bpfStx ||| bpfSize size ||| bpfMem) dst src off 0

/-- `BPF_JMP_REG`. -/
def bpfJmpReg (op : BitVec 8) (dst src : BitVec 4) (off : BitVec 16) : BpfInsn :=
  bpfRawInsn (bpfJmp ||| bpfOp op ||| bpfX) dst src off 0

/-- `BPF_JMP_IMM`. -/
def bpfJmpImm (op : BitVec 8) (dst : BitVec 4) (imm : BitVec 32) (off : BitVec 16) : BpfInsn :=
  bpfRawInsn (bpfJmp ||| bpfOp op ||| bpfK) dst 0 off imm

/-- `BPF_JMP32_IMM`. -/
def bpfJmp32Imm (op : BitVec 8) (dst : BitVec 4) (imm : BitVec 32) (off : BitVec 16) : BpfInsn :=
  bpfRawInsn (bpfJmp32 ||| bpfOp op ||| bpfK) dst 0 off imm

/-- `BPF_EMIT_CALL`. -/
def bpfEmitCall (func : BitVec 32) : BpfInsn :=
  bpfRawInsn (bpfJmp ||| bpfCall) 0 0 0 func

/-- `BPF_EXIT_INSN`. -/
def bpfExitInsn : BpfInsn := bpfRawInsn (bpfJmp ||| bpfExit) 0 0 0 0

/-- A zeroed instruction, as in a fresh buffer. -/
def bpfZeroInsn : BpfInsn := bpfRawInsn 0 0 0 0 0

end SkbTracer.Bpf
