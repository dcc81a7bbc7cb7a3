import SkbTracer.Bpf.Ebpf
import SkbTracer.Bpf.EbpfRun

/-!
# What the kernel's verifier asks of a program's shape

The structural part of eBPF verification, in terms of instruction words: which
registers an instruction reads and writes, where control can go next (`Edge`),
which fields must be zero (`BpfInsn.Reserved`), and the walk over the control-flow
graph that remembers which registers are written (`flowStep`): on entry `R1` to
`R5` and `R10`, and a helper call unwrites `R1` to `R5`.

The graph has every edge that an instruction allows, whether or not a run takes it, as
the verifier follows both branches of a comparison. `flowStep_edge` says that the walk
goes along its edges, and `ebpfStep_edge` that the machine does, so what holds on every
path holds in every run.

`flowOk` is the check that makes the walk safe, for code that control enters only
at some marked positions: there nothing but the registers of `base` is known to be
written, and everything else follows by going through the text once. It runs on the
`Shape` of the instructions, opcode and registers without constants and offsets, so it is
evaluated once for each block of generated code and not for each instance.

- `InBlock` is the invariant: the walk is in a block, and the check goes through from
  there with registers that are written.
- `InBlock.step` is its step lemma, and `flow_sound` the same for whole walks.
- `Covers` is what the blocks of a program have to do together.

The `wf_` lemmas say of each macro that it has its unused fields zero and leaves `R10`
alone. The verifier's tracking of values and of the stack is not described here; what
accesses a run makes is a matter of `Guarded`.
-/

namespace SkbTracer.Bpf

open SkbTracer.Lib (Res Reach)

/-! ## Registers and control -/

/-- The registers an instruction with these fields reads. `probe_read_kernel`
takes three arguments. -/
def Opcode.reads (dst src : BitVec 4) : Opcode → List (BitVec 4)
  | .alu _ .mov reg => if reg then [src] else []
  | .alu _ _ reg => if reg then [dst, src] else [dst]
  | .neg _ => [dst]
  | .fromBe => [dst]
  | .ldx _ => [src]
  | .stx _ => [dst, src]
  | .ja => []
  | .jmp _ _ reg => if reg then [dst, src] else [dst]
  | .call => [1, 2, 3]
  | .exit => [0]

/-- The registers an instruction writes. -/
def Opcode.writes (dst : BitVec 4) : Opcode → List (BitVec 4)
  | .alu _ _ _ => [dst]
  | .neg _ => [dst]
  | .fromBe => [dst]
  | .ldx _ => [dst]
  | .call => [0]
  | _ => []

/-- The instruction has a displacement. -/
def Opcode.jumps : Opcode → Bool
  | .ja => true
  | .jmp _ _ _ => true
  | _ => false

/-- The instruction can go on to the next one. -/
def Opcode.falls : Opcode → Bool
  | .ja => false
  | .exit => false
  | _ => true

/-- Whether a register counts as written after an instruction. -/
def Opcode.after (dst : BitVec 4) (oc : Opcode) (w : BitVec 4 → Bool) : BitVec 4 → Bool := fun r =>
  (oc.writes dst).contains r || (w r && !(oc == .call && clobbered r))

/-- Control can go from instruction `p` to instruction `q`. -/
def Edge (out : List BpfInsn) (p q : Nat) : Prop :=
  ∃ i oc, out[p]? = some i ∧ Opcode.ofCode i.code = some oc ∧
    (oc.falls = true ∧ q = p + 1 ∨ oc.jumps = true ∧ (q : Int) = p + 1 + i.off.toInt)

/-- The fields an instruction does not use are zero. -/
def BpfInsn.Reserved (i : BpfInsn) : Opcode → Prop
  | .alu _ _ false => i.srcReg = 0 ∧ i.off = 0
  | .alu _ _ true => i.off = 0 ∧ i.imm = 0
  | .neg _ => i.srcReg = 0 ∧ i.off = 0 ∧ i.imm = 0
  | .fromBe => i.srcReg = 0 ∧ i.off = 0
  | .ldx _ => i.imm = 0
  | .stx _ => i.imm = 0
  | .ja => i.dstReg = 0 ∧ i.srcReg = 0 ∧ i.imm = 0
  | .jmp _ _ false => i.srcReg = 0
  | .jmp _ _ true => i.imm = 0
  | .call => i.dstReg = 0 ∧ i.srcReg = 0 ∧ i.off = 0
  | .exit => i.dstReg = 0 ∧ i.srcReg = 0 ∧ i.off = 0 ∧ i.imm = 0

/-! ## The walk over the control-flow graph -/

structure FlowState where
  pc : Nat
  written : BitVec 4 → Bool

/-- On entry the argument registers and the frame pointer are written. -/
def flowEntry : FlowState := { pc := 0, written := fun r => clobbered r || r == 10 }

/-- One edge of the graph; `jump` chooses at a conditional jump. -/
def flowStep (out : List BpfInsn) (jump : Bool) (s : FlowState) : Res FlowState Unit :=
  match out[s.pc]? with
  | none => .fault
  | some i =>
    match Opcode.ofCode i.code with
    | none => .fault
    | some oc =>
      let written := oc.after i.dstReg s.written
      let target : Int := s.pc + 1 + i.off.toInt
      if oc.falls = true ∧ (oc.jumps = true → jump = false) then
        .next { pc := s.pc + 1, written := written }
      else if oc.jumps = true then
        if target < 0 then .fault else .next { pc := target.toNat, written := written }
      else .done ()

/-- A point of some path from the entry, with what is written there on that path. -/
def FlowReach (out : List BpfInsn) : FlowState → Prop :=
  Reach (flowStep out) (fun _ => True) flowEntry

/-- Every register the instruction at `s.pc` reads is written. -/
def ReadsWritten (out : List BpfInsn) (s : FlowState) : Prop :=
  ∀ i oc, out[s.pc]? = some i → Opcode.ofCode i.code = some oc →
    ∀ r ∈ oc.reads i.dstReg i.srcReg, s.written r = true

/-- The walk follows the edges of the graph. -/
theorem flowStep_edge {out : List BpfInsn} {jump : Bool} {s s' : FlowState}
    (h : flowStep out jump s = .next s') : Edge out s.pc s'.pc ∧
      ∃ i oc, out[s.pc]? = some i ∧ Opcode.ofCode i.code = some oc ∧
        s'.written = oc.after i.dstReg s.written := by
  unfold flowStep at h
  split at h
  next => cases h
  next i hi =>
    split at h
    next => cases h
    next oc hoc =>
      dsimp only at h
      split at h
      next hfalls =>
        obtain rfl := Res.next.inj h
        exact ⟨⟨i, oc, hi, hoc, Or.inl ⟨hfalls.1, rfl⟩⟩, i, oc, hi, hoc, rfl⟩
      next =>
        split at h
        next hjumps =>
          split at h
          next => cases h
          next hnn =>
            obtain rfl := Res.next.inj h
            exact ⟨⟨i, oc, hi, hoc, Or.inr ⟨hjumps, by dsimp only; omega⟩⟩, i, oc, hi, hoc, rfl⟩
        next => cases h

/-- Where an instruction can leave the program counter. -/
theorem ebpfExec_pc {h : Helper} {e : EInsn} {s s' : EbpfState} (hx : ebpfExec h e s = .next s') :
    match e with
    | .ja off => (s'.pc : Int) = s.pc + 1 + off.toInt
    | .jmp _ _ _ _ off => s'.pc = s.pc + 1 ∨ (s'.pc : Int) = s.pc + 1 + off.toInt
    | _ => s'.pc = s.pc + 1 := by
  -- a jump in front of the program is a fault, so the sum is not negative here
  have hjump : ∀ {off : BitVec 16}, s.jump off = .next s' →
      (s'.pc : Int) = s.pc + 1 + off.toInt := by
    intro off h
    unfold EbpfState.jump at h
    dsimp only at h
    split at h
    next => cases h
    next =>
      obtain rfl := Res.next.inj h
      rw [EbpfState.goto_pc]
      omega
  cases e with
  | alu w op dst src => cases w <;> exact Res.next.inj hx ▸ rfl
  | neg w dst => cases w <;> exact Res.next.inj hx ▸ rfl
  | ja off => exact hjump hx
  | jmp w op dst src off =>
    simp only [ebpfExec] at hx
    split at hx
    next => exact Or.inr (hjump hx)
    next => exact Or.inl (Res.next.inj hx ▸ rfl)
  | exit => cases hx
  | _ =>
    simp only [ebpfExec] at hx
    split at hx
    next => exact Res.next.inj hx ▸ rfl
    next => cases hx

/-- The machine moves along the edges of the graph. -/
theorem ebpfStep_edge {out : List BpfInsn} {h : Helper} {s s' : EbpfState}
    (hstep : ebpfStep out h s = .next s') : Edge out s.pc s'.pc := by
  unfold ebpfStep at hstep
  split at hstep
  next => cases hstep
  next e he =>
    obtain ⟨i, hi, hd⟩ := Option.bind_eq_some_iff.mp he
    obtain ⟨oc, hoc, hda⟩ := Option.bind_eq_some_iff.mp hd
    have hpc := ebpfExec_pc hstep
    refine ⟨i, oc, hi, hoc, ?_⟩
    cases oc with
    | ja =>
      obtain rfl := Option.some.inj hda
      exact Or.inr ⟨rfl, hpc⟩
    | jmp w op reg =>
      obtain rfl := Option.some.inj hda
      exact hpc.imp (fun h => ⟨rfl, h⟩) fun h => ⟨rfl, h⟩
    | exit =>
      obtain rfl := Option.some.inj hda
      cases hstep
    | call =>
      simp only [BpfInsn.decodeAs] at hda
      split at hda
      next =>
        obtain rfl := Option.some.inj hda
        exact Or.inl ⟨rfl, hpc⟩
      next => cases hda
    | _ =>
      obtain rfl := Option.some.inj hda
      exact Or.inl ⟨rfl, hpc⟩

/-! ## Well-formed instructions -/

/-- The instruction has an opcode, its unused fields are zero, and it does not
write the frame pointer. -/
def BpfInsn.WellFormed (i : BpfInsn) : Prop :=
  ∃ oc, Opcode.ofCode i.code = some oc ∧ i.Reserved oc ∧ (10 : BitVec 4) ∉ oc.writes i.dstReg

section

variable {op : BitVec 8} {d : BitVec 4} (r : BitVec 4) (k : BitVec 32) (o : BitVec 16)

/-- The moves write their target. -/
theorem wf_mov64Reg (hd : d ≠ 10) : (bpfMov64Reg d r).WellFormed :=
  ⟨.alu .w64 .mov true, (by decide : Opcode.ofCode 0xbf = _), ⟨rfl, rfl⟩,
    fun h => hd (List.mem_singleton.mp h).symm⟩

theorem wf_mov64Imm (hd : d ≠ 10) : (bpfMov64Imm d k).WellFormed :=
  ⟨.alu .w64 .mov false, (by decide : Opcode.ofCode 0xb7 = _), ⟨rfl, rfl⟩,
    fun h => hd (List.mem_singleton.mp h).symm⟩

theorem wf_mov32Reg (hd : d ≠ 10) : (bpfMov32Reg d r).WellFormed :=
  ⟨.alu .w32 .mov true, (by decide : Opcode.ofCode 0xbc = _), ⟨rfl, rfl⟩,
    fun h => hd (List.mem_singleton.mp h).symm⟩

theorem wf_mov32Imm (hd : d ≠ 10) : (bpfMov32Imm d k).WellFormed :=
  ⟨.alu .w32 .mov false, (by decide : Opcode.ofCode 0xb4 = _), ⟨rfl, rfl⟩,
    fun h => hd (List.mem_singleton.mp h).symm⟩

theorem wf_exit : bpfExitInsn.WellFormed :=
  ⟨.exit, (by decide : Opcode.ofCode 0x95 = _), ⟨rfl, rfl, rfl, rfl⟩, List.not_mem_nil⟩

theorem wf_ja : (bpfJmpImm bpfJa 0 0 o).WellFormed :=
  ⟨.ja, (by decide : Opcode.ofCode 0x05 = _), ⟨rfl, rfl, rfl⟩, List.not_mem_nil⟩

theorem wf_call : (bpfEmitCall k).WellFormed :=
  ⟨.call, (by decide : Opcode.ofCode 0x85 = _), ⟨rfl, rfl, rfl⟩, by simp [Opcode.writes]⟩

/-- The byte swap has its width in the immediate. -/
theorem wf_endian (hd : d ≠ 10) : (bpfEndian bpfFromBe d k).WellFormed :=
  ⟨.fromBe, (by decide : Opcode.ofCode 0xdc = _), ⟨rfl, rfl⟩,
    fun h => hd (List.mem_singleton.mp h).symm⟩

/-- Arithmetic with a constant, on 32 bits, -/
theorem wf_alu32Imm (eop : EAluOp) (hd : d ≠ 10)
    (h : Opcode.ofCode (bpfAlu ||| bpfOp op ||| bpfK) = some (.alu .w32 eop false)) :
    (bpfAlu32Imm op d k).WellFormed :=
  ⟨.alu .w32 eop false, h, ⟨rfl, rfl⟩, fun h => hd (List.mem_singleton.mp h).symm⟩

/-- on 64, -/
theorem wf_alu64Imm (eop : EAluOp) (hd : d ≠ 10)
    (h : Opcode.ofCode (bpfAlu64 ||| bpfOp op ||| bpfK) = some (.alu .w64 eop false)) :
    (bpfAlu64Imm op d k).WellFormed :=
  ⟨.alu .w64 eop false, h, ⟨rfl, rfl⟩, fun h => hd (List.mem_singleton.mp h).symm⟩

/-- and with a register. -/
theorem wf_alu64Reg (eop : EAluOp) (hd : d ≠ 10)
    (h : Opcode.ofCode (bpfAlu64 ||| bpfOp op ||| bpfX) = some (.alu .w64 eop true)) :
    (bpfAlu64Reg op d r).WellFormed :=
  ⟨.alu .w64 eop true, h, ⟨rfl, rfl⟩, fun h => hd (List.mem_singleton.mp h).symm⟩

/-- Comparisons write nothing, so any register may be the left one. -/
theorem wf_jmpReg (eop : EJmpOp)
    (h : Opcode.ofCode (bpfJmp ||| bpfOp op ||| bpfX) = some (.jmp .w64 eop true)) :
    (bpfJmpReg op d r o).WellFormed :=
  ⟨.jmp .w64 eop true, h, rfl, List.not_mem_nil⟩

theorem wf_jmpImm (eop : EJmpOp)
    (h : Opcode.ofCode (bpfJmp ||| bpfOp op ||| bpfK) = some (.jmp .w64 eop false)) :
    (bpfJmpImm op d k o).WellFormed :=
  ⟨.jmp .w64 eop false, h, rfl, List.not_mem_nil⟩

theorem wf_jmp32Imm (eop : EJmpOp)
    (h : Opcode.ofCode (bpfJmp32 ||| bpfOp op ||| bpfK) = some (.jmp .w32 eop false)) :
    (bpfJmp32Imm op d k o).WellFormed :=
  ⟨.jmp .w32 eop false, h, rfl, List.not_mem_nil⟩

/-- A load writes its target. -/
theorem wf_ldxMem (size : MemSize) (hd : d ≠ 10)
    (h : Opcode.ofCode (bpfLdx ||| bpfSize op ||| bpfMem) = some (.ldx size)) :
    (bpfLdxMem op d r o).WellFormed :=
  ⟨.ldx size, h, rfl, fun h => hd (List.mem_singleton.mp h).symm⟩

/-- A store writes no register; its left one is the address. -/
theorem wf_stxMem (size : MemSize)
    (h : Opcode.ofCode (bpfStx ||| bpfSize op ||| bpfMem) = some (.stx size)) :
    (bpfStxMem op d r o).WellFormed :=
  ⟨.stx size, h, rfl, List.not_mem_nil⟩

end

/-! ## The check -/

/-- What the check looks at. -/
structure Shape where
  code : BitVec 8
  dst : BitVec 4
  src : BitVec 4
  deriving DecidableEq

/-- The shape of an instruction. -/
def BpfInsn.shape (i : BpfInsn) : Shape := { code := i.code, dst := i.dstReg, src := i.srcReg }

/-- The written registers after an instruction, as a list. -/
def Opcode.afterList (dst : BitVec 4) (oc : Opcode) (w : List (BitVec 4)) : List (BitVec 4) :=
  oc.writes dst ++ w.filter fun r => !(oc == .call && clobbered r)

/-- Goes through the text of a block from position `pos` up to its end or the next
position in `starts`, with the registers `w` written: every read is of a written
register, and wherever control leaves, the registers of `base` are written. -/
def flowOk (base : List (BitVec 4)) (starts : List Nat) :
    Nat → List (BitVec 4) → List Shape → Bool
  | _, w, [] => base.all w.contains
  | pos, w, sh :: rest =>
    match Opcode.ofCode sh.code with
    | none => false
    | some oc =>
      let w' := oc.afterList sh.dst w
      (oc.reads sh.dst sh.src).all w.contains &&
      (!oc.jumps || base.all w'.contains) &&
      (!oc.falls || if starts.contains (pos + 1) then base.all w'.contains
        else flowOk base starts (pos + 1) w' rest)

/-- A block of code at `b` that control enters at its start and the positions in
`starts`, and leaves only to places that satisfy `Start`. -/
structure FlowBlock (out : List BpfInsn) (Start : Nat → Prop) (b : Nat) (xs : List BpfInsn)
    (starts : List Nat) : Prop where
  code : CodeAt out b xs
  jumps : ∀ {m : Nat} {i : BpfInsn} {oc : Opcode}, xs[m]? = some i →
    Opcode.ofCode i.code = some oc → oc.jumps = true →
    ∀ {q : Nat}, (q : Int) = (b + m : Nat) + 1 + i.off.toInt → Start q
  inner : ∀ k ∈ starts, Start (b + k)
  next : Start (b + xs.length)

/-- The walk is inside a block, and the check goes through from there with
registers that are written. -/
def InBlock (out : List BpfInsn) (base : List (BitVec 4)) (Start : Nat → Prop)
    (s : FlowState) : Prop :=
  ∃ b xs starts m w, FlowBlock out Start b xs starts ∧ m < xs.length ∧ s.pc = b + m ∧
    flowOk base starts m w ((xs.map BpfInsn.shape).drop m) = true ∧ ∀ r ∈ w, s.written r = true

variable {out : List BpfInsn} {base : List (BitVec 4)} {Start : Nat → Prop} {s s' : FlowState}

/-- A place control can enter has the registers of `base` written, and the check
goes through from there; or it is the end of the text. -/
def Covers (out : List BpfInsn) (base : List (BitVec 4)) (Start : Nat → Prop) : Prop :=
  ∀ s : FlowState, Start s.pc → (∀ r ∈ base, s.written r = true) →
    s.pc = out.length ∨ InBlock out base Start s

/-- What the list says is written is written. -/
theorem after_of_afterList {oc : Opcode} {dst : BitVec 4} {w : List (BitVec 4)}
    {written : BitVec 4 → Bool} (hw : ∀ r ∈ w, written r = true) :
    ∀ r ∈ oc.afterList dst w, oc.after dst written r = true := by
  intro r hr
  unfold Opcode.after
  rcases List.mem_append.mp hr with hr | hr
  · rw [List.contains_iff_mem.mpr hr, Bool.true_or]
  · rw [List.mem_filter] at hr
    rw [hw r hr.1, hr.2, Bool.true_and, Bool.or_true]

/-- All of the one list are in the other. -/
theorem all_contains {l w : List (BitVec 4)} : l.all w.contains = true ↔ ∀ r ∈ l, r ∈ w := by
  simp

/-- What the check says of the instruction the walk stands at. -/
theorem InBlock.here (h : InBlock out base Start s) :
    ∃ b xs starts m w i oc, FlowBlock out Start b xs starts ∧ s.pc = b + m ∧
      (∀ r ∈ w, s.written r = true) ∧ xs[m]? = some i ∧ out[s.pc]? = some i ∧
      Opcode.ofCode i.code = some oc ∧ (∀ r ∈ oc.reads i.dstReg i.srcReg, r ∈ w) ∧
      (oc.jumps = true → ∀ r ∈ base, r ∈ oc.afterList i.dstReg w) ∧
      (oc.falls = true → (starts.contains (m + 1) = true ∧
          ∀ r ∈ base, r ∈ oc.afterList i.dstReg w) ∨
        starts.contains (m + 1) = false ∧ flowOk base starts (m + 1) (oc.afterList i.dstReg w)
          ((xs.map BpfInsn.shape).drop (m + 1)) = true) := by
  obtain ⟨b, xs, starts, m, w, hb, hm, hpc, hflow, hw⟩ := h
  have hi : xs[m]? = some xs[m] := List.getElem?_eq_getElem hm
  rw [List.drop_eq_getElem_cons (by simpa using hm), List.getElem_map] at hflow
  generalize xs[m] = i at hi hflow
  rw [flowOk] at hflow
  split at hflow
  next => cases hflow
  next oc hoc =>
    simp only [Bool.and_eq_true, Bool.or_eq_true, Bool.not_eq_true'] at hflow
    obtain ⟨⟨hreads, hjumps⟩, hfalls⟩ := hflow
    refine ⟨b, xs, starts, m, w, i, oc, hb, hpc, hw, hi, ?_, hoc, all_contains.mp hreads,
      fun hj => ?_, fun hf => ?_⟩
    · rw [hpc, hb.code.get hm, hi]
    · exact all_contains.mp (hjumps.resolve_left (by rw [hj]; simp))
    · have hrest := hfalls.resolve_left (by rw [hf]; simp)
      split at hrest
      next hmem => exact Or.inl ⟨hmem, all_contains.mp hrest⟩
      next hmem => exact Or.inr ⟨eq_false_of_ne_true hmem, hrest⟩

/-- Inside a block the check has seen to the reads. -/
theorem InBlock.readsWritten (h : InBlock out base Start s) : ReadsWritten out s := by
  obtain ⟨b, xs, starts, m, w, i, oc, -, -, hw, -, hi, hoc, hreads, -, -⟩ := h.here
  intro i' oc' hi' hoc' r hr
  obtain rfl := Option.some.inj (hi.symm.trans hi')
  obtain rfl := Option.some.inj (hoc.symm.trans hoc')
  exact hw r (hreads r hr)

/-- **One edge of the walk.** From inside a block the walk goes on inside a block,
or to the end of the text. -/
theorem InBlock.step (hcover : Covers out base Start) {jump : Bool}
    (h : InBlock out base Start s) (hstep : flowStep out jump s = .next s') :
    s'.pc = out.length ∨ InBlock out base Start s' := by
  obtain ⟨b, xs, starts, m, w, i, oc, hb, hpc, hw, hxi, hi, hoc, -, hjumps, hfalls⟩ := h.here
  obtain ⟨⟨i', oc', hi', hoc', hedge⟩, i'', oc'', hi'', hoc'', hwritten⟩ := flowStep_edge hstep
  obtain rfl := Option.some.inj (hi.symm.trans hi')
  obtain rfl := Option.some.inj (hoc.symm.trans hoc')
  obtain rfl := Option.some.inj (hi.symm.trans hi'')
  obtain rfl := Option.some.inj (hoc.symm.trans hoc'')
  have hw' : ∀ r ∈ oc.afterList i.dstReg w, s'.written r = true := by
    rw [hwritten]
    exact after_of_afterList hw
  rcases hedge with ⟨hf, hq⟩ | ⟨hj, hq⟩
  · have hm : m < xs.length := (List.getElem?_eq_some_iff.mp hxi).1
    rcases hfalls hf with ⟨hmem, hbase⟩ | ⟨-, hflow⟩
    · refine hcover s' ?_ fun r hr => hw' r (hbase r hr)
      rw [hq, hpc]
      exact hb.inner (m + 1) (List.contains_iff_mem.mp hmem)
    · rcases Nat.lt_or_ge (m + 1) xs.length with hlt | hge
      · exact Or.inr ⟨b, xs, starts, m + 1, _, hb, hlt, by omega, hflow, hw'⟩
      · -- the block ends here
        rw [List.drop_eq_nil_of_le (by simpa using hge), flowOk] at hflow
        refine hcover s' ?_ fun r hr => hw' r (all_contains.mp hflow r hr)
        rw [hq, hpc, show b + m + 1 = b + xs.length by omega]
        exact hb.next
  · refine hcover s' (hb.jumps hxi hoc hj ?_) fun r hr => hw' r (hjumps hj r hr)
    rw [hq, hpc]

/-- **The check is sound.** On every path of the control-flow graph from the
entry, no register is read before it was written. -/
theorem flow_sound (hcover : Covers out base Start) (hentry : InBlock out base Start flowEntry)
    (hs : FlowReach out s) : ReadsWritten out s := by
  have hinv : s.pc = out.length ∨ InBlock out base Start s := by
    induction hs with
    | refl => exact Or.inr hentry
    | tail _ _ hstep ih =>
      rcases ih with hend | hin
      · rw [flowStep, hend, List.getElem?_eq_none (Nat.le_refl _)] at hstep
        cases hstep
      · exact hin.step hcover hstep
  rcases hinv with hend | hin
  · intro i oc hi
    rw [hend, List.getElem?_eq_none (Nat.le_refl _)] at hi
    cases hi
  · exact hin.readsWritten

end SkbTracer.Bpf
