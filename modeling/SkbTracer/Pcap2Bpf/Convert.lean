import SkbTracer.Bpf.Cbpf

/-!
# `bpf_convert.c`

The translation of classic BPF into eBPF, as `bpf_convert_filter` performs it.

One call runs in one of two modes. The sizing call (`new_prog == NULL`) has no
buffer and no address table and only counts. The converting call makes passes
over the program until the length is stable: each pass writes every expansion
into the buffer and records in `addrs` where it starts, and takes jump
displacements from the table as it stands, so the first pass still sees zeros for
the instructions ahead. `PassState.dest` is the table and the buffer of a
converting call.

The parts stand in the order of the file:

- `emitPacketLoad`, with the failure jumps that wait for their target in `fail_jmps`;
- `emitJmp`, the macro `BPF_EMIT_JMP`, which goes to `err` for a target outside the
  program or a displacement that does not fit 16 bits;
- `convertAlu`, `convertJmp` and the other groups of `case` labels, and `convertInsn`, the
  switch over them;
- `convertLoop`, `convertPass` and `doPass`: one instruction after the other, one pass,
  and the passes;
- `bpfConvertFilter`, the function.

What the C code cannot do safely shows as an error of its own: `overrun` is a
write past the end of the buffer, `assertFailed` the final assertion. That neither occurs
is proved elsewhere; the model does not assume it.
-/

namespace SkbTracer.Pcap2Bpf

open SkbTracer.Bpf

/-- How a call fails. -/
inductive ConvErr where
  | einval
  | enomem
  | overrun
  | assertFailed
  deriving DecidableEq, Repr

/-- `emit_epilogue_fail`. -/
def emitEpilogueFail : List BpfInsn := [bpfMov64Imm 0 0, bpfExitInsn]

/-! ## Packet loads -/

/-- The instructions `emit_packet_load` has written and the positions in
`fail_jmps`. -/
structure Emitter where
  insns : List BpfInsn
  failJmps : List Nat

/-- Nothing is written. -/
def Emitter.start : Emitter := { insns := [], failJmps := [] }

/-- `*insn++ = i`. -/
def Emitter.emit (e : Emitter) (i : BpfInsn) : Emitter :=
  { e with insns := e.insns ++ [i] }

/-- `fail_jmps[fail_cnt++] = *insn; *(*insn)++ = i`. -/
def Emitter.emitFail (e : Emitter) (i : BpfInsn) : Emitter :=
  { insns := e.insns ++ [i], failJmps := e.failJmps ++ [e.insns.length] }

/-- Point every jump of `fail_jmps` at the next instruction to be written. -/
def Emitter.backpatch (e : Emitter) : List BpfInsn :=
  e.failJmps.foldl
    (fun l j => l.modify j fun i =>
      { i with off := BitVec.ofInt 16 ((e.insns.length : Int) - (j + 1)) })
    e.insns

/-- `emit_packet_load` up to the point where it back-patches. -/
def packetLoad (code : BitVec 8) (imm : BitVec 32) : Emitter :=
  let size : BitVec 32 :=
    if bpfSize code = bpfB then 1 else if bpfSize code = bpfH then 2 else 4
  -- 1. offset into R2, checking the addition for overflow
  let e := Emitter.start
  let e :=
    if bpfMode code = bpfInd then
      (((e.emit (bpfMov32Reg 2 bpfRegX)).emit (bpfMov32Reg 1 2)).emit
        (bpfAlu32Imm bpfAdd 2 imm)).emitFail (bpfJmpReg bpfJlt 2 1 0)
    else e.emit (bpfMov32Imm 2 imm)
  -- negative or >= 2GB offsets
  let e := e.emitFail (bpfJmp32Imm bpfJslt 2 0 0)
  -- 2. end offset into R3
  let e := e.emit (bpfMov32Reg 3 2)
  let e := e.emit (bpfAlu32Imm bpfAdd 3 size)
  let e := e.emitFail (bpfJmpReg bpfJlt 3 2 0)
  -- 3. end offset against data_end - data
  let e := e.emit (bpfLdxMem bpfDw 4 bpfRegFp (-40))
  let e := e.emit (bpfLdxMem bpfDw 5 bpfRegFp (-48))
  let e := e.emitFail (bpfJmpReg bpfJlt 5 4 0)
  let e := e.emit (bpfAlu64Reg bpfSub 5 4)
  let e := e.emitFail (bpfJmpReg bpfJgt 3 5 0)
  -- 4. bounded probe read
  let e := e.emit (bpfMov64Reg 1 bpfRegFp)
  let e := e.emit (bpfAlu64Imm bpfAdd 1 (-56))
  let e := e.emit (bpfMov64Reg 3 4)
  let e := e.emit (bpfAlu64Reg bpfAdd 3 2)
  let e := e.emit (bpfMov64Imm 2 size)
  let e := e.emit (bpfEmitCall bpfFuncProbeReadKernel)
  let e := e.emitFail (bpfJmpImm bpfJne 0 0 0)
  -- skip the failure epilogue on success
  e.emit (bpfJmpImm bpfJa 0 0 2)

/-- `emit_packet_load`. -/
def emitPacketLoad (code : BitVec 8) (imm : BitVec 32) : List BpfInsn :=
  (packetLoad code imm).backpatch ++ emitEpilogueFail ++
    [bpfLdxMem (bpfSize code) bpfRegA bpfRegFp (-56)] ++
    (if bpfSize code = bpfH then [bpfEndian bpfFromBe bpfRegA 16]
     else if bpfSize code = bpfW then [bpfEndian bpfFromBe bpfRegA 32]
     else [])

/-! ## Jumps -/

/-- `BPF_EMIT_JMP` for the instruction at position `pos` of the expansion of
classic instruction `i`. -/
def emitJmp (len : Nat) (addrs : Option (List Nat)) (i pos : Nat) (target : Int)
    (insn : BpfInsn) : Option BpfInsn :=
  if target ≥ len ∨ target < 0 then none
  else
    let off : Int :=
      match addrs with
      | some a => (a.getD target.toNat 0 : Int) - (a.getD i 0 : Int) - 1
      | none => 0
    let off := off - pos
    if off < -32768 ∨ off > 32767 then none
    else some { insn with off := BitVec.ofInt 16 off }

/-- The target of an unconditional jump: `i + fp->k + 1` is computed in 32 bits
and stored in an `int`. -/
def jaTarget (i : Nat) (fp : SockFilter) : Int := (BitVec.ofNat 32 i + fp.k + 1).toInt

/-- `BPF_JMP | BPF_JA`. -/
def convertJa (len : Nat) (addrs : Option (List Nat)) (i : Nat) (fp : SockFilter) :
    Option (List BpfInsn) := do
  let j ← emitJmp len addrs i 0 (jaTarget i fp) (bpfRawInsn (fp.code.setWidth 8) 0 0 0 0)
  some [j]

/-- The comparison whose taken branch is the false branch of `op`, for the three
operations that the `switch` on `BPF_OP` inverts. -/
def invertJmp (op : BitVec 8) : Option (BitVec 8) :=
  if op = bpfJeq then some bpfJne
  else if op = bpfJgt then some bpfJle
  else if op = bpfJge then some bpfJlt
  else none

/-- The constant of a comparison is negative as an `int`. -/
def jmpViaTmp (fp : SockFilter) : Prop :=
  bpfSrc (fp.code.setWidth 8) = bpfK ∧ fp.k.toInt < 0

instance (fp : SockFilter) : Decidable (jmpViaTmp fp) := inferInstanceAs (Decidable (_ ∧ _))

/-- The load of the constant that precedes the comparison in that case. -/
def jmpPrefix (fp : SockFilter) : List BpfInsn :=
  if jmpViaTmp fp then [bpfMov32Imm bpfRegTmp fp.k] else []

/-- The comparison with operation `op`, its displacement not yet set. -/
def jmpInsn (op : BitVec 8) (fp : SockFilter) : BpfInsn :=
  let src := bpfSrc (fp.code.setWidth 8)
  if jmpViaTmp fp then bpfRawInsn (bpfJmp ||| op ||| bpfX) bpfRegA bpfRegTmp 0 0
  else bpfRawInsn (bpfJmp ||| op ||| src) bpfRegA (if src = bpfX then bpfRegX else 0) 0 fp.k

/-- The comparison to invert to, where the true branch is the next instruction. -/
def jmpInverted (fp : SockFilter) : Option (BitVec 8) :=
  if fp.jt = 0 then invertJmp (bpfOp (fp.code.setWidth 8)) else none

/-- The conditional jumps. -/
def convertJmp (len : Nat) (addrs : Option (List Nat)) (i : Nat) (fp : SockFilter) :
    Option (List BpfInsn) :=
  let op := bpfOp (fp.code.setWidth 8)
  let pos := (jmpPrefix fp).length
  let trueTarget : Int := i + fp.jt.toNat + 1
  let falseTarget : Int := i + fp.jf.toNat + 1
  if fp.jf = 0 then do
    let j ← emitJmp len addrs i pos trueTarget (jmpInsn op fp)
    some (jmpPrefix fp ++ [j])
  else
    match jmpInverted fp with
    | some op' => do
      let j ← emitJmp len addrs i pos falseTarget (jmpInsn op' fp)
      some (jmpPrefix fp ++ [j])
    | none => do
      let j ← emitJmp len addrs i pos trueTarget (jmpInsn op fp)
      let ja ← emitJmp len addrs i (pos + 1) falseTarget
        (bpfRawInsn (bpfJmp ||| bpfJa) 0 0 0 0)
      some (jmpPrefix fp ++ [j, ja])

/-! ## The other groups -/

/-- The ALU group. A division or modulus by X is preceded by a test of X. -/
def convertAlu (fp : SockFilter) : List BpfInsn :=
  let code : BitVec 8 := fp.code.setWidth 8
  (if code = bpfAlu ||| bpfDiv ||| bpfX ∨ code = bpfAlu ||| bpfMod ||| bpfX then
    [bpfMov32Reg bpfRegX bpfRegX, bpfJmpImm bpfJne bpfRegX 0 2] ++ emitEpilogueFail
   else []) ++
  [bpfRawInsn code bpfRegA (if bpfSrc code = bpfX then bpfRegX else 0) 0 fp.k]

/-- `BPF_LDX | BPF_MSH | BPF_B`: A is kept in X while the byte is loaded. -/
def convertMsh (fp : SockFilter) : List BpfInsn :=
  [bpfMov64Reg bpfRegX bpfRegA] ++ emitPacketLoad (bpfLd ||| bpfAbs ||| bpfB) fp.k ++
  [ bpfAlu32Imm bpfAnd bpfRegA 0xf,
    bpfAlu32Imm bpfLsh bpfRegA 2,
    bpfMov64Reg bpfRegTmp bpfRegX,
    bpfMov64Reg bpfRegX bpfRegA,
    bpfMov64Reg bpfRegA bpfRegTmp ]

/-- `BPF_RET | BPF_K`. -/
def convertRetK (fp : SockFilter) : List BpfInsn :=
  [bpfMov32Imm 0 (if fp.k ≠ 0 then 1 else 0), bpfExitInsn]

/-- `BPF_RET | BPF_A`. -/
def convertRetA : List BpfInsn :=
  [ bpfJmpImm bpfJeq bpfRegA 0 2,
    bpfMov32Imm 0 1,
    bpfJmpImm bpfJa 0 0 1,
    bpfMov32Imm 0 0,
    bpfExitInsn ]

/-- `-stack_off` as the 16-bit displacement of scratch word `fp->k`. -/
def scratchOff (fp : SockFilter) : BitVec 16 := (-(fp.k * 4 + 64)).setWidth 16

/-- The expansion of classic instruction `i`; `none` is `goto err`. -/
def convertInsn (len : Nat) (addrs : Option (List Nat)) (i : Nat) (fp : SockFilter) :
    Option (List BpfInsn) :=
  match fp.op with
  | some (.alu _ _) | some .neg => some (convertAlu fp)
  | some (.ldAbs _) | some (.ldInd _) => some (emitPacketLoad (fp.code.setWidth 8) fp.k)
  | some .ja => convertJa len addrs i fp
  | some (.jmp _ _) => convertJmp len addrs i fp
  | some .ldxMsh => some (convertMsh fp)
  | some .retA => some convertRetA
  | some .retK => some (convertRetK fp)
  | some .st => some [bpfStxMem bpfW bpfRegFp bpfRegA (scratchOff fp)]
  | some .stx => some [bpfStxMem bpfW bpfRegFp bpfRegX (scratchOff fp)]
  | some .ldMem => some [bpfLdxMem bpfW bpfRegA bpfRegFp (scratchOff fp)]
  | some .ldxMem => some [bpfLdxMem bpfW bpfRegX bpfRegFp (scratchOff fp)]
  | some .ldImm => some [bpfMov32Imm bpfRegA fp.k]
  | some .ldxImm => some [bpfMov32Imm bpfRegX fp.k]
  | some .tax => some [bpfMov64Reg bpfRegX bpfRegA]
  | some .txa => some [bpfMov64Reg bpfRegA bpfRegX]
  | none => none

/-! ## Passes -/

/-- The address table and the output buffer of a converting call. -/
structure Dest where
  addrs : List Nat
  buf : List BpfInsn

/-- A pass in progress: `new_insn - first_insn`, and where it writes. -/
structure PassState where
  pos : Nat
  dest : Option Dest

/-- `memcpy` of `xs` to index `pos` of the buffer. -/
def blit (buf : List BpfInsn) (pos : Nat) (xs : List BpfInsn) :
    Except ConvErr (List BpfInsn) :=
  if pos + xs.length ≤ buf.length then
    .ok (buf.take pos ++ xs ++ buf.drop (pos + xs.length))
  else .error .overrun

/-- `addrs[i] = new_insn - first_insn`. -/
def PassState.record (st : PassState) (i : Nat) : PassState :=
  { st with dest := st.dest.map fun d => { d with addrs := d.addrs.set i st.pos } }

/-- Write an expansion, or only count it, and advance `new_insn`. -/
def PassState.append (st : PassState) (xs : List BpfInsn) : Except ConvErr PassState :=
  match st.dest with
  | none => .ok { pos := st.pos + xs.length, dest := none }
  | some d => do
    let buf ← blit d.buf st.pos xs
    .ok { pos := st.pos + xs.length, dest := some { d with buf := buf } }

/-- The instructions that save the packet bounds and clear A and X. -/
def prologue : List BpfInsn :=
  [ bpfStxMem bpfDw bpfRegFp 4 (-40),
    bpfStxMem bpfDw bpfRegFp 5 (-48),
    bpfMov64Reg bpfRegCtx bpfRegArg1,
    bpfMov64Imm bpfRegA 0,
    bpfMov64Imm bpfRegX 0 ]

/-- The instruction loop, from instruction `i` on. -/
def convertLoop (len : Nat) : Nat → List SockFilter → PassState → Except ConvErr PassState
  | _, [], st => .ok st
  | i, fp :: rest, st => do
    let st := st.record i
    match convertInsn len (st.dest.map Dest.addrs) i fp with
    | none => .error .einval
    | some tmp => do
      let st ← st.append tmp
      convertLoop len (i + 1) rest st

/-- One pass: the prologue and the loop. -/
def convertPass (prog : List SockFilter) (dest : Option Dest) : Except ConvErr PassState := do
  let st ← PassState.append { pos := 0, dest := dest } prologue
  convertLoop prog.length 0 prog st

/-- `do_pass`: repeat until the length is that of the pass before. The third
pass already fails, so three are all the first argument needs to allow. -/
def doPass (prog : List SockFilter) : Nat → Nat → Nat → Dest → Except ConvErr (Nat × Dest)
  | 0, _, _, _ => .error .einval
  | fuel + 1, pass, newFlen, d => do
    let st ← convertPass prog (some d)
    let d := st.dest.getD d
    if newFlen ≠ st.pos then
      if pass + 1 > 2 then .error .einval else doPass prog fuel (pass + 1) st.pos d
    else .ok (newFlen, d)

/-- `bpf_convert_filter(prog, len, new_prog, new_len)`, with the contents of the
buffer and of `*new_len` when it returns 0. `alloc` says whether `calloc`
succeeds. -/
def bpfConvertFilter (alloc : Bool) (prog : List SockFilter) (newProg : Option (List BpfInsn))
    (newLen : Nat) : Except ConvErr (Option (List BpfInsn) × Nat) :=
  if prog.length = 0 ∨ prog.length > bpfMaxInsns then .error .einval
  else
    match newProg with
    | none => do
      let st ← convertPass prog none
      .ok (none, st.pos)
    | some buf =>
      if alloc = false then .error .enomem
      else do
        let (newFlen, d) ← doPass prog 3 0 0 { addrs := List.replicate prog.length 0, buf := buf }
        if newLen = newFlen then .ok (some d.buf, newLen) else .error .assertFailed

/-! ## Constant filters -/

/-- `get_insns_for_constant_filter(result, data, len)`: the contents of `data`
and of `*len` when it returns 0. A `none` is a null pointer. -/
def getInsnsForConstantFilter (result : Bool) (data : Option (List BpfInsn))
    (len : Option Nat) : Except ConvErr (Option (List BpfInsn) × Nat) :=
  let insns := [bpfMov64Imm 0 (if result then 1 else 0), bpfExitInsn]
  match len, data with
  | none, _ => .error .einval
  | some _, none => .ok (none, insns.length)
  | some n, some buf =>
    if n < insns.length then .error .einval
    else do
      let buf ← blit buf 0 insns
      .ok (some buf, insns.length)

end SkbTracer.Pcap2Bpf
