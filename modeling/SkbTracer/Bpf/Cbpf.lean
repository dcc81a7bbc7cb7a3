import SkbTracer.Bpf.Insn
import SkbTracer.Lib.Transition
import SkbTracer.Lib.Bytes

/-!
# Classic BPF

`CbpfOp` lists the classic opcodes that `bpf_convert_filter` translates, one
constructor per group of `case` labels, and `CbpfOp.ofCode` recognises them in
the sixteen-bit opcode field of an instruction. Recognition is exact:
`CbpfOp.code_of_ofCode` and `CbpfOp.ofCode_code` go both ways, so a proof may split on
`CbpfOp` where the code switches on numbers.

`cbpfStep` is what such an instruction means: a machine with two 32-bit registers
`A` and `X` and sixteen scratch words, run over a packet that is a list of bytes.
Loads are big-endian and a load that is not wholly inside the packet rejects it,
as does a division or modulus by an `X` that is zero; a shift by `X` uses the
amount modulo 32. A scratch word is `none` until it is written, and reading it
then is a fault, like running off the program: neither happens in a program that
satisfies `CbpfValid`, which collects what libpcap promises of its output.

`CbpfReturns prog pkt v` is the verdict: some number of steps ends with `v`. A program
may also never return, and then it neither accepts nor rejects; that libpcap's jumps go
forward is not among the promises, and no theorem here needs it.

`CbpfValid` is an assumption about libpcap, which is not part of the program. It asks no
more than is used: scratch indices below 16, constant divisors that are not zero, constant
shift amounts below 32, a `RET` at the end, and no scratch word read before it is written.
-/

namespace SkbTracer.Bpf

open SkbTracer.Lib (Res Reach Byte beNat iter)

/-! ## Opcodes -/

/-- Operand selector of an ALU instruction or a conditional jump. -/
inductive Src where
  | k | x
  deriving DecidableEq, Repr

/-- Width of a packet load. -/
inductive LdSize where
  | w | h | b
  deriving DecidableEq, Repr

inductive AluOp where
  | add | sub | and | or | lsh | rsh | xor | mul | div | mod
  deriving DecidableEq, Repr

inductive JmpOp where
  | jeq | jset | jgt | jge
  deriving DecidableEq, Repr

/-- The opcodes of the `switch` in `bpf_convert_filter`. -/
inductive CbpfOp where
  | alu (op : AluOp) (src : Src)
  | neg
  | ldAbs (size : LdSize)
  | ldInd (size : LdSize)
  | ja
  | jmp (op : JmpOp) (src : Src)
  | ldxMsh
  | retA
  | retK
  | st
  | stx
  | ldMem
  | ldxMem
  | ldImm
  | ldxImm
  | tax
  | txa
  deriving DecidableEq, Repr

def Src.bits : Src → BitVec 8
  | .k => bpfK
  | .x => bpfX

def LdSize.bits : LdSize → BitVec 8
  | .w => bpfW
  | .h => bpfH
  | .b => bpfB

/-- The number of bytes a load of this width reads. -/
def LdSize.bytes : LdSize → Nat
  | .w => 4
  | .h => 2
  | .b => 1

/-- A load has at least one byte -/
theorem LdSize.bytes_pos (size : LdSize) : 1 ≤ size.bytes := by cases size <;> decide

/-- and at most four. -/
theorem LdSize.bytes_le (size : LdSize) : size.bytes ≤ 4 := by cases size <;> decide

def AluOp.bits : AluOp → BitVec 8
  | .add => bpfAdd
  | .sub => bpfSub
  | .and => bpfAnd
  | .or => bpfOr
  | .lsh => bpfLsh
  | .rsh => bpfRsh
  | .xor => bpfXor
  | .mul => bpfMul
  | .div => bpfDiv
  | .mod => bpfMod

def JmpOp.bits : JmpOp → BitVec 8
  | .jeq => bpfJeq
  | .jset => bpfJset
  | .jgt => bpfJgt
  | .jge => bpfJge

/-- The opcode byte, written as the `case` label writes it. -/
def CbpfOp.code : CbpfOp → BitVec 8
  | .alu op src => bpfAlu ||| op.bits ||| src.bits
  | .neg => bpfAlu ||| bpfNeg
  | .ldAbs size => bpfLd ||| bpfAbs ||| size.bits
  | .ldInd size => bpfLd ||| bpfInd ||| size.bits
  | .ja => bpfJmp ||| bpfJa
  | .jmp op src => bpfJmp ||| op.bits ||| src.bits
  | .ldxMsh => bpfLdx ||| bpfMsh ||| bpfB
  | .retA => bpfRet ||| bpfA
  | .retK => bpfRet ||| bpfK
  | .st => bpfSt
  | .stx => bpfStx
  | .ldMem => bpfLd ||| bpfMem
  | .ldxMem => bpfLdx ||| bpfMem
  | .ldImm => bpfLd ||| bpfImm
  | .ldxImm => bpfLdx ||| bpfImm
  | .tax => bpfMisc ||| bpfTax
  | .txa => bpfMisc ||| bpfTxa

/-- The cases of the `switch`, in its order. -/
def CbpfOp.all : List CbpfOp :=
  [ .alu .add .x, .alu .add .k, .alu .sub .x, .alu .sub .k, .alu .and .x, .alu .and .k,
    .alu .or .x, .alu .or .k, .alu .lsh .x, .alu .lsh .k, .alu .rsh .x, .alu .rsh .k,
    .alu .xor .x, .alu .xor .k, .alu .mul .x, .alu .mul .k, .alu .div .x, .alu .div .k,
    .alu .mod .x, .alu .mod .k, .neg,
    .ldAbs .w, .ldAbs .h, .ldAbs .b, .ldInd .w, .ldInd .h, .ldInd .b,
    .ja,
    .jmp .jeq .k, .jmp .jeq .x, .jmp .jset .k, .jmp .jset .x,
    .jmp .jgt .k, .jmp .jgt .x, .jmp .jge .k, .jmp .jge .x,
    .ldxMsh, .retA, .retK, .st, .stx, .ldMem, .ldxMem, .ldImm, .ldxImm, .tax, .txa ]

/-- The case an opcode field selects; `none` is the `default`. -/
def CbpfOp.ofCode (code : BitVec 16) : Option CbpfOp :=
  CbpfOp.all.find? fun op => op.code.setWidth 16 == code

/-- A selected case carries its own opcode. -/
theorem CbpfOp.code_of_ofCode {code : BitVec 16} {op : CbpfOp}
    (h : CbpfOp.ofCode code = some op) : code = op.code.setWidth 16 := by
  have := List.find?_some h
  exact (beq_iff_eq.mp this).symm

/-- The case labels are pairwise different, so each selects itself. -/
theorem CbpfOp.ofCode_code (op : CbpfOp) : CbpfOp.ofCode (op.code.setWidth 16) = some op := by
  cases op with
  | alu op src => cases op <;> cases src <;> rfl
  | ldAbs size => cases size <;> rfl
  | ldInd size => cases size <;> rfl
  | jmp op src => cases op <;> cases src <;> rfl
  | _ => rfl

/-- The opcode of an instruction. -/
def SockFilter.op (fp : SockFilter) : Option CbpfOp := CbpfOp.ofCode fp.code

/-- The opcode byte `bpf_convert_filter` hands on, `fp->code` cut to eight bits. -/
theorem SockFilter.code_of_op {fp : SockFilter} {op : CbpfOp} (h : fp.op = some op) :
    fp.code.setWidth 8 = op.code := by
  rw [CbpfOp.code_of_ofCode h, BitVec.setWidth_setWidth_of_le _ (by omega), BitVec.setWidth_eq]

/-! ## Meaning -/

/-- The value of an ALU operation. Division and modulus are only asked for with
a non-zero divisor. -/
def AluOp.eval : AluOp → BitVec 32 → BitVec 32 → BitVec 32
  | .add, a, b => a + b
  | .sub, a, b => a - b
  | .and, a, b => a &&& b
  | .or, a, b => a ||| b
  | .lsh, a, b => a <<< (b.toNat % 32)
  | .rsh, a, b => a >>> (b.toNat % 32)
  | .xor, a, b => a ^^^ b
  | .mul, a, b => a * b
  | .div, a, b => a / b
  | .mod, a, b => a % b

/-- Operations that need a non-zero right operand. -/
def AluOp.divides : AluOp → Bool
  | .div | .mod => true
  | _ => false

def JmpOp.eval : JmpOp → BitVec 32 → BitVec 32 → Bool
  | .jeq, a, b => a == b
  | .jset, a, b => a &&& b != 0
  | .jgt, a, b => decide (b.toNat < a.toNat)
  | .jge, a, b => decide (b.toNat ≤ a.toNat)

/-- The right operand of an ALU instruction or a conditional jump. -/
def Src.pick (src : Src) (k x : BitVec 32) : BitVec 32 :=
  match src with
  | .k => k
  | .x => x

/-- The big-endian word of `n` bytes at offset `off`, if the packet has it whole. -/
def pktLoad (pkt : List Byte) (off n : Nat) : Option (BitVec 32) :=
  if off + n ≤ pkt.length then
    some (BitVec.ofNat 32 (beNat (fun i => pkt.getD (off + i) 0) n))
  else none

/-- The number of scratch words, `BPF_MEMWORDS`. -/
def bpfMemWords : Nat := 16

structure CbpfState where
  pc : Nat
  a : BitVec 32
  x : BitVec 32
  mem : Nat → Option (BitVec 32)

/-- A and X start at zero, no scratch word is written. -/
def cbpfInit : CbpfState := { pc := 0, a := 0, x := 0, mem := fun _ => none }

/-- Write scratch word `k`. -/
def CbpfState.setMem (s : CbpfState) (k : Nat) (v : BitVec 32) : CbpfState :=
  { s with pc := s.pc + 1, mem := fun j => if j = k then some v else s.mem j }

/-- Put a loaded word in A, or reject the packet. -/
def CbpfState.loadA (s : CbpfState) : Option (BitVec 32) → Res CbpfState (BitVec 32)
  | some v => .next { s with pc := s.pc + 1, a := v }
  | none => .done 0

/-- One classic instruction. A result is the value of `RET`, zero on rejection. -/
def cbpfExec (op : CbpfOp) (fp : SockFilter) (pkt : List Byte) (s : CbpfState) :
    Res CbpfState (BitVec 32) :=
  match op with
  | .alu op .k =>
    if op.divides ∧ fp.k = 0 then .fault
    else .next { s with pc := s.pc + 1, a := op.eval s.a fp.k }
  | .alu op .x =>
    if op.divides ∧ s.x = 0 then .done 0
    else .next { s with pc := s.pc + 1, a := op.eval s.a s.x }
  | .neg => .next { s with pc := s.pc + 1, a := -s.a }
  | .ldAbs size => s.loadA (pktLoad pkt fp.k.toNat size.bytes)
  | .ldInd size => s.loadA (pktLoad pkt (s.x.toNat + fp.k.toNat) size.bytes)
  | .ja =>
    let target : Int := s.pc + 1 + fp.k.toInt
    if target < 0 then .fault else .next { s with pc := target.toNat }
  | .jmp op src =>
    .next { s with
      pc := s.pc + 1 + (if op.eval s.a (src.pick fp.k s.x) then fp.jt.toNat else fp.jf.toNat) }
  | .ldxMsh =>
    match pktLoad pkt fp.k.toNat 1 with
    | some v => .next { s with pc := s.pc + 1, x := (v &&& 0xf) <<< 2 }
    | none => .done 0
  | .retA => .done s.a
  | .retK => .done fp.k
  | .st => if fp.k.toNat < bpfMemWords then .next (s.setMem fp.k.toNat s.a) else .fault
  | .stx => if fp.k.toNat < bpfMemWords then .next (s.setMem fp.k.toNat s.x) else .fault
  | .ldMem =>
    match s.mem fp.k.toNat with
    | some v => .next { s with pc := s.pc + 1, a := v }
    | none => .fault
  | .ldxMem =>
    match s.mem fp.k.toNat with
    | some v => .next { s with pc := s.pc + 1, x := v }
    | none => .fault
  | .ldImm => .next { s with pc := s.pc + 1, a := fp.k }
  | .ldxImm => .next { s with pc := s.pc + 1, x := fp.k }
  | .tax => .next { s with pc := s.pc + 1, x := s.a }
  | .txa => .next { s with pc := s.pc + 1, a := s.x }

/-- One step of a classic program over a packet. -/
def cbpfStep (prog : List SockFilter) (pkt : List Byte) (s : CbpfState) :
    Res CbpfState (BitVec 32) :=
  match prog[s.pc]? with
  | none => .fault
  | some fp =>
    match fp.op with
    | none => .fault
    | some op => cbpfExec op fp pkt s

/-- The program ends on the packet with `RET` value `v` (zero on rejection). -/
def CbpfReturns (prog : List SockFilter) (pkt : List Byte) (v : BitVec 32) : Prop :=
  ∃ n, iter (cbpfStep prog pkt) n cbpfInit = .done v

/-- The program accepts the packet. -/
def CbpfAccepts (prog : List SockFilter) (pkt : List Byte) : Prop :=
  ∃ v, CbpfReturns prog pkt v ∧ v ≠ 0

/-- The states a program passes through on a packet. -/
def CbpfReach (prog : List SockFilter) (pkt : List Byte) : CbpfState → Prop :=
  Reach (fun _ : Unit => cbpfStep prog pkt) (fun _ => True) cbpfInit

/-! ## What libpcap promises -/

/-- The instruction accesses scratch word `fp.k`. -/
def SockFilter.usesScratch (fp : SockFilter) : Prop :=
  fp.op = some .st ∨ fp.op = some .stx ∨ fp.op = some .ldMem ∨ fp.op = some .ldxMem

instance (fp : SockFilter) : Decidable fp.usesScratch :=
  inferInstanceAs (Decidable (_ ∨ _ ∨ _ ∨ _))

/-- Every scratch index is below 16. -/
def ScratchBounded (prog : List SockFilter) : Prop :=
  ∀ fp ∈ prog, fp.usesScratch → fp.k.toNat < bpfMemWords

instance (prog : List SockFilter) : Decidable (ScratchBounded prog) :=
  inferInstanceAs (Decidable (∀ fp ∈ prog, _ → _))

/-- Constant divisors and moduli are not zero. -/
def DivisorsNonzero (prog : List SockFilter) : Prop :=
  ∀ fp ∈ prog, ∀ op : AluOp, op.divides = true → fp.op = some (.alu op .k) → fp.k ≠ 0

/-- Constant shift amounts are below 32. -/
def ShiftsBounded (prog : List SockFilter) : Prop :=
  ∀ fp ∈ prog, (fp.op = some (.alu .lsh .k) ∨ fp.op = some (.alu .rsh .k)) → fp.k.toNat < 32

instance (prog : List SockFilter) : Decidable (ShiftsBounded prog) :=
  inferInstanceAs (Decidable (∀ fp ∈ prog, _ → _))

/-- The last instruction is a `RET`. -/
def EndsInRet (prog : List SockFilter) : Prop :=
  ∃ fp, prog.getLast? = some fp ∧ (fp.op = some .retA ∨ fp.op = some .retK)

/-- No run reads a scratch word that it has not written before. -/
def ScratchInitialised (prog : List SockFilter) : Prop :=
  ∀ pkt s fp, CbpfReach prog pkt s → prog[s.pc]? = some fp →
    (fp.op = some .ldMem ∨ fp.op = some .ldxMem) → s.mem fp.k.toNat ≠ none

/-- A program without scratch instructions reads no scratch word. -/
theorem scratchInitialised_of_unused {prog : List SockFilter}
    (h : ∀ fp ∈ prog, ¬ fp.usesScratch) : ScratchInitialised prog := by
  intro pkt s fp _ hi hop
  refine absurd ?_ (h fp (List.mem_of_getElem? hi))
  exact Or.inr (Or.inr hop)

/-- Instructions that do not use `k` have it zero. -/
def UnusedKZero (prog : List SockFilter) : Prop :=
  ∀ fp ∈ prog, (fp.op = some .neg ∨ (∃ op, fp.op = some (.alu op .x)) ∨
    ∃ op, fp.op = some (.jmp op .x)) → fp.k = 0

/-- A classic program as libpcap produces it. -/
structure CbpfValid (prog : List SockFilter) : Prop where
  scratch : ScratchBounded prog
  divisor : DivisorsNonzero prog
  shift : ShiftsBounded prog
  ret : EndsInRet prog
  init : ScratchInitialised prog

end SkbTracer.Bpf
