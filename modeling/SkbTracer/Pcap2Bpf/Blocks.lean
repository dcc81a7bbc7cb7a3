import SkbTracer.Pcap2Bpf.PacketLoad
import SkbTracer.Pcap2Bpf.Layout

/-!
# What each expansion does

`AtInsn pc a x mem` is the machine between two expansions: it stands at `pc`, the
classic A and X are in `R0` and `R7` with their high halves clear, the scratch
words hold `mem`, and the frame is in place. One lemma per group of opcodes takes
the machine from the start of an expansion to such a state again, or to an exit.
No lemma assumes anything of the classic program: a scratch word need not have
been written, a divisor may be zero, and the helper may fail; what the classic
machine makes of that is the business of the files that use these lemmas.

- Moves: `block_ldImm`, `block_ldxImm`, `block_tax`, `block_txa`.
- Scratch memory: `block_ldMem`, `block_ldxMem`, `block_store`, at the depth that
  `scratchOff_depth` computes.
- Arithmetic: `block_alu` and `block_neg`. A division by an `X` of zero exits with 0, which
  is the guard the converter puts in front of it.
- Returns: `block_retK`, `block_retA`; the result is `verdict`, 1 for any value but zero.
- Packet loads: `block_ldAbs`, `block_ldInd`, `block_msh`.
- Jumps: `block_ja`, and `block_jmp` with its three shapes. `invertJmp_eval` is where the
  inverted test comes in.

Each is an `UntilPlus` through guarded states, so it says at the same time that nothing
outside the packet and the frame is accessed on the way.
-/

namespace SkbTracer.Pcap2Bpf

open SkbTracer.Bpf
open SkbTracer.Lib (Res Byte Until UntilPlus load store leNat beNat load_lt load_store
  load_store_of_disjoint leNat_congr)

/-- Scratch word `j` as the frame holds it. -/
def scratchWord (s : EbpfState) (j : Nat) : BitVec 32 :=
  BitVec.ofNat 32 (load s.stack (64 + 4 * j) 4)

/-- The machine stands at `pc` between two expansions. -/
structure AtInsn (data dataEnd : BitVec 64) (pc : Nat) (a x : BitVec 32) (mem : Nat → BitVec 32)
    (s : EbpfState) : Prop where
  frame : Frame data dataEnd s
  pc : s.pc = pc
  a : s.regs 0 = zext a
  x : s.regs 7 = zext x
  mem : ∀ j, scratchWord s j = mem j

/-- The machine is about to leave the filter with `R0 = v`. -/
structure AtExit (out : List BpfInsn) (data dataEnd : BitVec 64) (v : BitVec 64)
    (s : EbpfState) : Prop where
  frame : Frame data dataEnd s
  exit : fetch out s = some .exit
  value : s.regs 0 = v

variable {out : List BpfInsn} {data dataEnd : BitVec 64} {adm : Helper → Prop}
  {s s₁ : EbpfState} {fp : SockFilter} {pc : Nat} {a x : BitVec 32} {mem : Nat → BitVec 32}

/-- A state that differs in R0 to R5, X and the program counter only. -/
theorem AtInsn.of_eq {pc' : Nat} {a' x' : BitVec 32} (hs : AtInsn data dataEnd pc a x mem s)
    (hF : Frame data dataEnd s₁) (hst : s₁.stack = s.stack) (hpc : s₁.pc = pc')
    (ha : s₁.regs 0 = zext a') (hx : s₁.regs 7 = zext x') :
    AtInsn data dataEnd pc' a' x' mem s₁ :=
  ⟨hF, hpc, ha, hx, fun j => by rw [scratchWord, hst]; exact hs.mem j⟩

/-- A state reached by a packet load. -/
theorem AtInsn.of_kept {pc' : Nat} {a' : BitVec 32} (hs : AtInsn data dataEnd pc a x mem s)
    (hk : Kept data dataEnd s s₁) (hpc : s₁.pc = pc') (ha : s₁.regs 0 = zext a') :
    AtInsn data dataEnd pc' a' x mem s₁ := by
  refine ⟨hk.frame, hpc, ha, hk.x.trans hs.x, fun j => ?_⟩
  rw [← hs.mem j, scratchWord, scratchWord, load, load,
    leNat_congr fun i hi => hk.scratch (64 + 4 * j - i) (by omega)]

/-! ## Moves -/

/-- An expansion of one instruction that computes a 32-bit value into A. -/
theorem block_wrA {i : BpfInsn} {op : EAluOp} {src : Operand} {v : BitVec 32}
    (hs : AtInsn data dataEnd pc a x mem s) (hc : CodeAt out pc [i])
    (hi : i.decode = some (.alu .w32 op 0 src)) (hv : op.eval a (s.val32 src) = v) :
    UntilPlus (ebpfStep out) adm (Guarded out data dataEnd)
      (AtInsn data dataEnd (pc + 1) v x mem) s := by
  refine untilPlus_alu32 0 v hs.frame (hs.pc ▸ hc) hi ?_ (by decide) fun hF _ => .here ?_
  · rw [lo32_of_eq hs.a, hv]
  · exact hs.of_eq hF rfl (congrArg (· + 1) hs.pc) rfl hs.x

theorem block_ldImm (hs : AtInsn data dataEnd pc a x mem s)
    (hc : CodeAt out pc [bpfMov32Imm bpfRegA fp.k]) :
    UntilPlus (ebpfStep out) adm (Guarded out data dataEnd)
      (AtInsn data dataEnd (pc + 1) fp.k x mem) s :=
  block_wrA hs hc (decode_mov32Imm _ _) rfl

theorem block_ldxImm (hs : AtInsn data dataEnd pc a x mem s)
    (hc : CodeAt out pc [bpfMov32Imm bpfRegX fp.k]) :
    UntilPlus (ebpfStep out) adm (Guarded out data dataEnd)
      (AtInsn data dataEnd (pc + 1) a fp.k mem) s :=
  untilPlus_alu32 7 fp.k hs.frame (hs.pc ▸ hc) (decode_mov32Imm _ _) rfl (by decide)
    fun hF _ => .here (hs.of_eq hF rfl (congrArg (· + 1) hs.pc) hs.a rfl)

theorem block_tax (hs : AtInsn data dataEnd pc a x mem s)
    (hc : CodeAt out pc [bpfMov64Reg bpfRegX bpfRegA]) :
    UntilPlus (ebpfStep out) adm (Guarded out data dataEnd)
      (AtInsn data dataEnd (pc + 1) a a mem) s :=
  untilPlus_alu64 7 (zext a) hs.frame (hs.pc ▸ hc) (decode_mov64Reg _ _) hs.a (by decide)
    fun hF _ => .here (hs.of_eq hF rfl (congrArg (· + 1) hs.pc) hs.a rfl)

theorem block_txa (hs : AtInsn data dataEnd pc a x mem s)
    (hc : CodeAt out pc [bpfMov64Reg bpfRegA bpfRegX]) :
    UntilPlus (ebpfStep out) adm (Guarded out data dataEnd)
      (AtInsn data dataEnd (pc + 1) x x mem) s :=
  untilPlus_alu64 0 (zext x) hs.frame (hs.pc ▸ hc) (decode_mov64Reg _ _) hs.x (by decide)
    fun hF _ => .here (hs.of_eq hF rfl (congrArg (· + 1) hs.pc) rfl hs.x)

/-! ## Scratch memory -/

theorem scratchOff_depth (hk : fp.k.toNat < bpfMemWords) :
    (-((scratchOff fp).signExtend 64)).toNat = 64 + 4 * fp.k.toNat := by
  have hall : ∀ n < 16, (-(((-(BitVec.ofNat 32 n * 4 + 64)).setWidth 16).signExtend 64 :
      BitVec 64)).toNat = 64 + 4 * n := by decide
  have := hall fp.k.toNat hk
  rwa [BitVec.ofNat_toNat, BitVec.setWidth_eq] at this

/-- A word of the frame as a register gets it. -/
theorem ofNat_load_word (s : EbpfState) (j : Nat) :
    BitVec.ofNat 64 (load s.stack (64 + 4 * j) 4) = zext (scratchWord s j) :=
  (zext_ofNat (load_lt _ _ _)).symm

theorem block_ldMem (hk : fp.k.toNat < bpfMemWords) (hs : AtInsn data dataEnd pc a x mem s)
    (hc : CodeAt out pc [bpfLdxMem bpfW bpfRegA bpfRegFp (scratchOff fp)]) :
    UntilPlus (ebpfStep out) adm (Guarded out data dataEnd)
      (AtInsn data dataEnd (pc + 1) (mem fp.k.toNat) x mem) s := by
  refine untilPlus_ldx 0 (64 + 4 * fp.k.toNat) (zext (mem fp.k.toNat)) hs.frame (hs.pc ▸ hc)
    (decode_ldxMem _ _ _ .w (by decide)) (scratchOff_depth hk) (by show 4 ≤ _; omega)
    (by unfold bpfMemWords at hk; show _ ≤ 512; omega) ?_ (by decide) fun hF _ => .here ?_
  · rw [← hs.mem]
    exact ofNat_load_word s _
  · exact hs.of_eq hF rfl (congrArg (· + 1) hs.pc) rfl hs.x

theorem block_ldxMem (hk : fp.k.toNat < bpfMemWords) (hs : AtInsn data dataEnd pc a x mem s)
    (hc : CodeAt out pc [bpfLdxMem bpfW bpfRegX bpfRegFp (scratchOff fp)]) :
    UntilPlus (ebpfStep out) adm (Guarded out data dataEnd)
      (AtInsn data dataEnd (pc + 1) a (mem fp.k.toNat) mem) s := by
  refine untilPlus_ldx 7 (64 + 4 * fp.k.toNat) (zext (mem fp.k.toNat)) hs.frame (hs.pc ▸ hc)
    (decode_ldxMem _ _ _ .w (by decide)) (scratchOff_depth hk) (by show 4 ≤ _; omega)
    (by unfold bpfMemWords at hk; show _ ≤ 512; omega) ?_ (by decide) fun hF _ => .here ?_
  · rw [← hs.mem]
    exact ofNat_load_word s _
  · exact hs.of_eq hF rfl (congrArg (· + 1) hs.pc) hs.a rfl

/-- `ST` and `STX`: the register `r` that holds `v` goes to scratch word `fp.k`,
and every other word keeps its value. -/
theorem block_store {r : BitVec 4} {v : BitVec 32} (hk : fp.k.toNat < bpfMemWords)
    (hs : AtInsn data dataEnd pc a x mem s) (hr : s.regs r = zext v)
    (hc : CodeAt out pc [bpfStxMem bpfW bpfRegFp r (scratchOff fp)]) :
    UntilPlus (ebpfStep out) adm (Guarded out data dataEnd)
      (AtInsn data dataEnd (pc + 1) a x fun j => if j = fp.k.toNat then v else mem j) s := by
  refine untilPlus_stx (64 + 4 * fp.k.toNat) hs.frame (hs.pc ▸ hc)
    (decode_stxMem _ _ _ .w (by decide)) (scratchOff_depth hk) (by show 4 ≤ _; omega)
    (by unfold bpfMemWords at hk; show _ ≤ 512; omega)
    (Or.inr (by show 48 + 4 ≤ _; omega)) fun hF => .here ?_
  refine ⟨hF, congrArg (· + 1) hs.pc, hs.a, hs.x, fun j => ?_⟩
  show BitVec.ofNat 32 (load (store s.stack _ 4 (s.regs r).toNat) (64 + 4 * j) 4) = _
  split
  next hj =>
    have hlt : v.toNat < 256 ^ 4 := v.isLt
    rw [hj, load_store (by omega), hr, zext_toNat, Nat.mod_eq_of_lt hlt, BitVec.ofNat_toNat,
      BitVec.setWidth_eq]
  next hj =>
    rw [load_store_of_disjoint (by omega) (by omega), ← hs.mem j]
    rfl

/-! ## Arithmetic -/

/-- The eBPF operation for a classic one. -/
def eAluOp : AluOp → EAluOp
  | .add => .add
  | .sub => .sub
  | .and => .and
  | .or => .or
  | .lsh => .lsh
  | .rsh => .rsh
  | .xor => .xor
  | .mul => .mul
  | .div => .div
  | .mod => .mod

/-- The operations are the same in both dialects, -/
theorem eAluOp_eval (op : AluOp) (a b : BitVec 32) : (eAluOp op).eval a b = op.eval a b := by
  cases op <;> rfl

/-- and so are their opcodes. -/
theorem ofCode_alu (op : AluOp) (src : Src) :
    Opcode.ofCode (CbpfOp.alu op src).code = some (.alu .w32 (eAluOp op) (src == .x)) := by
  cases op <;> cases src <;> decide

theorem decode_aluInsn (op : AluOp) (src : Src) (k : BitVec 32) :
    (aluInsn op src k).decode = some (.alu .w32 (eAluOp op) 0
      (match src with | .k => .imm k | .x => .reg 7)) := by
  rw [BpfInsn.decode_eq _ (ofCode_alu op src)]
  cases src <;> rfl

/-- The ALU instruction itself. -/
theorem block_aluInsn {op : AluOp} {src : Src} {k : BitVec 32}
    (hs : AtInsn data dataEnd pc a x mem s) (hc : CodeAt out pc [aluInsn op src k]) :
    UntilPlus (ebpfStep out) adm (Guarded out data dataEnd)
      (AtInsn data dataEnd (pc + 1) (op.eval a (src.pick k x)) x mem) s := by
  refine block_wrA hs hc (decode_aluInsn op src k) ?_
  cases src with
  | k => exact eAluOp_eval op a k
  | x => rw [← eAluOp_eval]; exact congrArg _ (lo32_of_eq hs.x)

/-- The ALU group: the operation, or a rejection if it divides by an X of zero. -/
theorem block_alu {op : AluOp} {src : Src} (hop : fp.op = some (.alu op src))
    (hs : AtInsn data dataEnd pc a x mem s) (hc : CodeAt out pc (convertAlu fp)) :
    UntilPlus (ebpfStep out) adm (Guarded out data dataEnd)
      (fun s' => (¬(op.divides ∧ src = .x ∧ x = 0) ∧ AtInsn data dataEnd
          (pc + (convertAlu fp).length) (op.eval a (src.pick fp.k x)) x mem s') ∨
        (op.divides ∧ src = .x ∧ x = 0) ∧ AtExit out data dataEnd 0 s') s := by
  rw [convertAlu_eq hop] at hc ⊢
  by_cases hdiv : op.divides ∧ src = .x
  · rw [if_pos hdiv] at hc ⊢
    have hcop : CodeAt out (pc + 4) [aluInsn op src fp.k] := hc.right rfl
    refine untilPlus_alu32 7 x hs.frame (hs.pc ▸ hc) (decode_mov32Reg _ _) (lo32_of_eq hs.x)
      (by decide) fun hF hc => ?_
    have hs₁ : AtInsn data dataEnd (pc + 1) a x mem (s.wr 7 (zext x)) :=
      hs.of_eq hF rfl (congrArg (· + 1) hs.pc) hs.a rfl
    by_cases hx : x = 0
    · refine (untilPlus_jmp_fall hF hc (decode_jmpImm _ _ _ .jne (by decide)) ?_
        fun hF hc => ?_).until
      · subst hx
        rfl
      refine (untilPlus_alu64 0 0 hF hc (decode_mov64Imm _ _) rfl (by decide)
        fun hF hc => ?_).until
      exact .here (Or.inr ⟨⟨hdiv.1, hdiv.2, hx⟩, hF, hc.fetch decode_exit, rfl⟩)
    · refine (untilPlus_jmp_taken (pc + 4) hF hc (decode_jmpImm _ _ _ .jne (by decide)) ?_ ?_
        fun hF => ?_).until
      · show (zext x != 0) = true
        refine bne_iff_ne.mpr fun h => hx ?_
        rw [← lo32_zext x, h]
        rfl
      · rw [hs₁.pc]
        show ((pc + 1 : Nat) : Int) + 1 + 2 = (pc + 4 : Nat)
        omega
      · have hs₂ := hs₁.of_eq hF rfl rfl hs₁.a hs₁.x
        exact (block_aluInsn hs₂ hcop).until.mono (fun _ h => h)
          fun _ h => Or.inl ⟨fun h0 => hx h0.2.2, h⟩
  · rw [if_neg hdiv, List.nil_append] at hc ⊢
    exact (block_aluInsn hs hc).mono (fun _ h => h)
      fun _ h => Or.inl ⟨fun h0 => hdiv ⟨h0.1, h0.2.1⟩, h⟩

theorem block_neg (hop : fp.op = some .neg) (hs : AtInsn data dataEnd pc a x mem s)
    (hc : CodeAt out pc (convertAlu fp)) :
    UntilPlus (ebpfStep out) adm (Guarded out data dataEnd)
      (AtInsn data dataEnd (pc + 1) (-a) x mem) s := by
  rw [convertNeg_eq hop] at hc
  have hi : (bpfRawInsn (bpfAlu ||| bpfNeg) bpfRegA 0 0 fp.k).decode = some (.neg .w32 0) :=
    BpfInsn.decode_eq (.neg .w32) (by decide : Opcode.ofCode 0x84 = _)
  refine untilPlus_wr 0 (zext (-a)) hs.frame (hs.pc ▸ hc) hi (fun _ => ?_) trivial (by decide)
    fun hF _ => .here (hs.of_eq hF rfl (congrArg (· + 1) hs.pc) rfl hs.x)
  exact congrArg (fun v => Res.next (s.wr 0 (zext (-v)))) (lo32_of_eq hs.a)

/-! ## Returns -/

/-- The verdict for a `RET` value. -/
def verdict (v : BitVec 32) : BitVec 64 := if v = 0 then 0 else 1

/-- A verdict is zero exactly if the packet is rejected. -/
theorem verdict_eq_zero {v : BitVec 32} : verdict v = 0 ↔ v = 0 := by
  unfold verdict
  split
  next h => exact ⟨fun _ => h, fun _ => rfl⟩
  next h => exact ⟨fun h1 => absurd h1 (by decide), fun h0 => absurd h0 h⟩

theorem verdict_eq_one {v : BitVec 32} : verdict v = 1 ↔ v ≠ 0 := by
  unfold verdict
  split
  next h => exact ⟨fun h1 => absurd h1 (by decide), fun h0 => absurd h h0⟩
  next h => exact ⟨fun _ => h, fun _ => rfl⟩

theorem verdict_cases (v : BitVec 32) : verdict v = 0 ∨ verdict v = 1 := by
  unfold verdict
  split
  next => exact Or.inl rfl
  next => exact Or.inr rfl

theorem block_retK (hs : AtInsn data dataEnd pc a x mem s) (hc : CodeAt out pc (convertRetK fp)) :
    UntilPlus (ebpfStep out) adm (Guarded out data dataEnd)
      (AtExit out data dataEnd (verdict fp.k)) s := by
  refine untilPlus_alu32 0 _ hs.frame (hs.pc ▸ hc) (decode_mov32Imm _ _) rfl (by decide)
    fun hF hc => .here ⟨hF, hc.fetch decode_exit, ?_⟩
  show zext (if fp.k ≠ 0 then 1 else 0) = verdict fp.k
  by_cases hk : fp.k = 0
  · rw [verdict, if_pos hk, if_neg (not_not_intro hk)]
    rfl
  · rw [verdict, if_neg hk, if_pos hk]
    rfl

theorem block_retA (hs : AtInsn data dataEnd pc a x mem s) (hc : CodeAt out pc convertRetA) :
    UntilPlus (ebpfStep out) adm (Guarded out data dataEnd)
      (AtExit out data dataEnd (verdict a)) s := by
  have hc₀ : CodeAt out s.pc convertRetA := hs.pc ▸ hc
  by_cases ha : a = 0
  · refine untilPlus_jmp_taken (pc + 3) hs.frame hc₀ (decode_jmpImm _ _ _ .jeq (by decide)) ?_ ?_
      fun hF => ?_
    · show (s.regs 0 == 0) = true
      rw [hs.a, ha]
      rfl
    · rw [hs.pc]
      show (pc : Int) + 1 + 2 = (pc + 3 : Nat)
      omega
    have hc₃ : CodeAt out (pc + 3) _ := hc.drop 3 (by decide) rfl
    refine (untilPlus_alu32 0 0 hF hc₃ (decode_mov32Imm _ _) rfl (by decide)
      fun hF hc => .here ⟨hF, hc.fetch decode_exit, ?_⟩).until
    rw [verdict, if_pos ha]
    rfl
  · refine untilPlus_jmp_fall hs.frame hc₀ (decode_jmpImm _ _ _ .jeq (by decide)) ?_
      fun hF hc' => ?_
    · show (s.regs 0 == 0) = false
      refine beq_eq_false_iff_ne.mpr fun h => ha ?_
      rw [← lo32_of_eq hs.a, h]
      rfl
    refine (untilPlus_alu32 0 1 hF hc' (decode_mov32Imm _ _) rfl (by decide)
      fun hF hc' => ?_).until
    refine (untilPlus_ja (pc + 4) hF hc' (decode_ja _ _ _) ?_ fun hF => ?_).until
    · show ((s.pc + 1 + 1 : Nat) : Int) + 1 + 1 = (pc + 4 : Nat)
      rw [hs.pc]
      omega
    have hc₄ : CodeAt out (pc + 4) _ := hc.drop 4 (by decide) rfl
    refine .here ⟨hF, hc₄.fetch decode_exit, ?_⟩
    rw [verdict, if_neg ha]
    rfl

/-! ## Packet loads -/

/-- A load of `n` bytes at offset `o` can give the word `v`: the bytes are inside
the packet and some helper succeeds with them. -/
structure WordRead (adm : Helper → Prop) (data dataEnd : BitVec 64) (o n : Nat)
    (v : BitVec 32) : Prop where
  inside : InPacket data dataEnd o n
  helper : ∃ h c, adm h ∧ c.size = BitVec.ofNat 64 n ∧ c.src = data + BitVec.ofNat 64 o ∧
    (h c).r0 = 0 ∧ v = BitVec.ofNat 32 (beNat (h c).bytes n)

/-- A load of `n` bytes at offset `o` can be refused. -/
def WordRefused (adm : Helper → Prop) (data dataEnd : BitVec 64) (o n : Nat) : Prop :=
  ¬ InPacket data dataEnd o n ∨ ∃ h c, adm h ∧ c.size = BitVec.ofNat 64 n ∧
    c.src = data + BitVec.ofNat 64 o ∧ (h c).r0 ≠ 0

/-- What a packet load into A leaves. -/
def LoadPost (out : List BpfInsn) (adm : Helper → Prop) (data dataEnd : BitVec 64)
    (o n pc : Nat) (x : BitVec 32) (mem : Nat → BitVec 32) (s' : EbpfState) : Prop :=
  (∃ v, WordRead adm data dataEnd o n v ∧ AtInsn data dataEnd pc v x mem s') ∨
    WordRefused adm data dataEnd o n ∧ AtExit out data dataEnd 0 s'

/-- A load that went through or was refused, in terms of the machine between
expansions. -/
theorem loadPost_of_loaded {o : Nat} {size : LdSize} {pc' : Nat}
    (hs : AtInsn data dataEnd pc a x mem s)
    (h : Loaded adm data dataEnd o size s s₁ ∧ s₁.pc = pc' ∨
      Rejected out adm data dataEnd o size s s₁) :
    LoadPost out adm data dataEnd o size.bytes pc' x mem s₁ := by
  rcases h with ⟨hl, hpc⟩ | hr
  · obtain ⟨h, hh, hr0, hv⟩ := hl.value
    exact Or.inl ⟨_, ⟨hl.inside, h, _, hh, rfl, rfl, hr0, rfl⟩, hs.of_kept hl.kept hpc hv⟩
  · refine Or.inr ⟨?_, hr.kept.frame, hr.reject.exit, hr.reject.zero⟩
    rcases hr.cause with hin | ⟨h, hh, hr0⟩
    · exact Or.inl hin
    · exact Or.inr ⟨h, _, hh, rfl, rfl, hr0⟩

theorem block_ldAbs {size : LdSize} {k : BitVec 32} (hs : AtInsn data dataEnd pc a x mem s)
    (hc : CodeAt out pc (emitPacketLoad (CbpfOp.ldAbs size).code k)) :
    UntilPlus (ebpfStep out) adm (Guarded out data dataEnd)
      (LoadPost out adm data dataEnd k.toNat size.bytes
        (pc + (emitPacketLoad (CbpfOp.ldAbs size).code k).length) x mem) s := by
  have hpc := hs.pc
  subst hpc
  exact (packetLoad_abs hc hs.frame).mono (fun _ h => h) fun _ h => loadPost_of_loaded hs h

theorem block_ldInd {size : LdSize} {k : BitVec 32} (hs : AtInsn data dataEnd pc a x mem s)
    (hc : CodeAt out pc (emitPacketLoad (CbpfOp.ldInd size).code k)) :
    UntilPlus (ebpfStep out) adm (Guarded out data dataEnd)
      (LoadPost out adm data dataEnd (x.toNat + k.toNat) size.bytes
        (pc + (emitPacketLoad (CbpfOp.ldInd size).code k).length) x mem) s := by
  have hpc := hs.pc
  subst hpc
  exact (packetLoad_ind hc hs.frame hs.x).mono (fun _ h => h) fun _ h => loadPost_of_loaded hs h

/-- The five instructions after the load of a `LDX | MSH`, which runs with A kept
in X. -/
theorem until_mshTail {v : BitVec 32} (hs : AtInsn data dataEnd pc v a mem s)
    (hc : CodeAt out pc
      [ bpfAlu32Imm bpfAnd bpfRegA 0xf, bpfAlu32Imm bpfLsh bpfRegA 2,
        bpfMov64Reg bpfRegTmp bpfRegX, bpfMov64Reg bpfRegX bpfRegA,
        bpfMov64Reg bpfRegA bpfRegTmp ]) :
    Until (ebpfStep out) adm (Guarded out data dataEnd)
      (AtInsn data dataEnd (pc + 5) a ((v &&& 0xf) <<< 2) mem) s := by
  refine (untilPlus_alu32 0 (v &&& 0xf) hs.frame (hs.pc ▸ hc)
    (decode_alu32Imm _ _ .and (by decide)) (congrArg (· &&& 0xf) (lo32_of_eq hs.a)) (by decide)
    fun hF hc => ?_).until
  refine (untilPlus_alu32 0 ((v &&& 0xf) <<< 2) hF hc
    (decode_alu32Imm _ _ .lsh (by decide)) ?_ (by decide) fun hF hc => ?_).until
  · exact congrArg (fun b : BitVec 32 => b <<< 2) (lo32_zext _)
  refine (untilPlus_alu64 2 (zext a) hF hc (decode_mov64Reg _ _) hs.x (by decide)
    fun hF hc => ?_).until
  refine (untilPlus_alu64 7 (zext ((v &&& 0xf) <<< 2)) hF hc (decode_mov64Reg _ _) rfl (by decide)
    fun hF hc => ?_).until
  refine (untilPlus_alu64 0 (zext a) hF hc (decode_mov64Reg _ _) rfl (by decide)
    fun hF hc => .here ?_).until
  exact hs.of_eq hF rfl (congrArg (· + 5) hs.pc) rfl rfl

theorem block_msh (hs : AtInsn data dataEnd pc a x mem s) (hc : CodeAt out pc (convertMsh fp)) :
    UntilPlus (ebpfStep out) adm (Guarded out data dataEnd)
      (fun s' => (∃ v, WordRead adm data dataEnd fp.k.toNat 1 v ∧
          AtInsn data dataEnd (pc + (convertMsh fp).length) a ((v &&& 0xf) <<< 2) mem s') ∨
        WordRefused adm data dataEnd fp.k.toNat 1 ∧ AtExit out data dataEnd 0 s') s := by
  unfold convertMsh at hc ⊢
  rw [show bpfLd ||| bpfAbs ||| bpfB = (CbpfOp.ldAbs .b).code from rfl] at hc ⊢
  refine untilPlus_alu64 7 (zext a) hs.frame (hs.pc ▸ hc.left.left) (decode_mov64Reg _ _) hs.a
    (by decide) fun hF _ => ?_
  have hs₁ : AtInsn data dataEnd (pc + 1) a a mem (s.wr 7 (zext a)) :=
    hs.of_eq hF rfl (congrArg (· + 1) hs.pc) hs.a rfl
  refine (block_ldAbs hs₁ (hc.left.right rfl)).until.trans ?_
  rintro s₂ (⟨v, hv, hs₂⟩ | ⟨href, hex⟩)
  · refine (until_mshTail hs₂ (hc.right ?_)).mono (fun _ h => h) fun s' hs' => Or.inl ⟨v, hv, ?_⟩
    · rw [List.length_append]
      show pc + 1 + _ = pc + (1 + _)
      omega
    · refine ⟨hs'.frame, ?_, hs'.a, hs'.x, hs'.mem⟩
      rw [hs'.pc, List.length_append, List.length_append]
      show pc + 1 + _ + 5 = pc + (1 + _ + 5)
      omega
  · exact .here (Or.inr ⟨href, hex⟩)

/-! ## Jumps -/

variable {prog : List SockFilter} {i : Nat} {xs : List BpfInsn}

/-- An unconditional jump between expansions. -/
theorem block_jaInsn {j : BpfInsn} {o : BitVec 16} {target : Nat} {rest : List BpfInsn}
    (hs : AtInsn data dataEnd pc a x mem s) (hc : CodeAt out pc (j :: rest))
    (hj : j.decode = some (.ja o)) (ho : (pc : Int) + 1 + o.toInt = target) :
    UntilPlus (ebpfStep out) adm (Guarded out data dataEnd)
      (AtInsn data dataEnd target a x mem) s :=
  untilPlus_ja target hs.frame (hs.pc ▸ hc) hj (by rw [hs.pc, ho])
    fun hF => .here (hs.of_eq hF rfl rfl hs.a hs.x)

theorem decode_jaInsn (o : BitVec 16) :
    ({ bpfRawInsn (bpfJmp ||| bpfJa) 0 0 0 0 with off := o } : BpfInsn).decode = some (.ja o) :=
  BpfInsn.decode_eq .ja (by decide : Opcode.ofCode 0x05 = _)

theorem block_ja {t : Nat} {j : BpfInsn} (hi : i < prog.length) (hop : fp.op = some .ja)
    (hj : emitJmp prog.length (some (layout prog)) i 0 t
      (bpfRawInsn (fp.code.setWidth 8) 0 0 0 0) = some j)
    (hs : AtInsn data dataEnd (addrOf prog i) a x mem s) (hc : CodeAt out (addrOf prog i) [j]) :
    UntilPlus (ebpfStep out) adm (Guarded out data dataEnd)
      (AtInsn data dataEnd (addrOf prog t) a x mem) s := by
  obtain ⟨t', ht, -, o, rfl, ho⟩ := emitJmp_layout hi hj
  obtain rfl : t = t' := by omega
  rw [SockFilter.code_of_op hop] at hc
  exact block_jaInsn hs hc (decode_jaInsn o) (by rw [← ho]; omega)

/-- The operation bits `b` of a jump select `op`. -/
def JmpBits (b : BitVec 8) (op : EJmpOp) : Prop :=
  ∀ src : Src, Opcode.ofCode (bpfJmp ||| b ||| src.bits) = some (.jmp .w64 op (src == .x))

/-- The eBPF comparison for a classic one. -/
def eJmpOp : JmpOp → EJmpOp
  | .jeq => .jeq
  | .jset => .jset
  | .jgt => .jgt
  | .jge => .jge

/-- Each comparison has its own operation bits. -/
theorem jmpBits_bits (op : JmpOp) : JmpBits op.bits (eJmpOp op) := by
  intro src
  cases op <;> cases src <;> decide

theorem zext_inj {a b : BitVec 32} : zext a = zext b ↔ a = b :=
  ⟨fun h => by rw [← lo32_zext a, h, lo32_zext], fun h => by rw [h]⟩

/-- A 64-bit comparison of zero-extended words is the 32-bit one. -/
theorem eJmpOp_eval (op : JmpOp) (a b : BitVec 32) :
    (eJmpOp op).eval (zext a) (zext b) = op.eval a b := by
  cases op with
  | jeq =>
    show decide (zext a = zext b) = decide (a = b)
    rw [decide_eq_decide, zext_inj]
  | jset =>
    show (!decide (zext a &&& zext b = 0)) = !decide (a &&& b = 0)
    rw [show zext a &&& zext b = zext (a &&& b) from BitVec.setWidth_and.symm,
      show (0 : BitVec 64) = zext 0 from rfl, decide_eq_decide.mpr zext_inj]
  | jgt => simp only [eJmpOp, EJmpOp.eval, JmpOp.eval, zext_toNat]
  | jge => simp only [eJmpOp, EJmpOp.eval, JmpOp.eval, zext_toNat]

/-- The inverted comparison is the negation. -/
theorem invertJmp_eval {op : JmpOp} {b : BitVec 8} (h : invertJmp op.bits = some b) :
    ∃ eop, JmpBits b eop ∧ ∀ a c : BitVec 32, eop.eval (zext a) (zext c) = !op.eval a c := by
  cases op with
  | jeq =>
    obtain rfl : bpfJne = b := Option.some.inj h
    refine ⟨.jne, fun src => by cases src <;> decide, fun a c => ?_⟩
    rw [← eJmpOp_eval .jeq]
    rfl
  | jset => cases h
  | jgt =>
    obtain rfl : bpfJle = b := Option.some.inj h
    refine ⟨.jle, fun src => by cases src <;> decide, fun a c => ?_⟩
    simp only [EJmpOp.eval, JmpOp.eval, zext_toNat, ← decide_not, Nat.not_lt]
  | jge =>
    obtain rfl : bpfJlt = b := Option.some.inj h
    refine ⟨.jlt, fun src => by cases src <;> decide, fun a c => ?_⟩
    simp only [EJmpOp.eval, JmpOp.eval, zext_toNat, ← decide_not, Nat.not_le]

/-- The right operand of the emitted comparison. -/
def jmpRight (fp : SockFilter) (src : Src) : Operand :=
  if jmpViaTmp fp then .reg 2
  else match src with
    | .k => .imm fp.k
    | .x => .reg 7

/-- A comparison with `A`, of the operand the classic instruction names. -/
theorem decode_jmpInsn {op : JmpOp} {src : Src} {b : BitVec 8} {eop : EJmpOp}
    (hop : fp.op = some (.jmp op src)) (hb : JmpBits b eop) (o : BitVec 16) :
    ({ jmpInsn b fp with off := o } : BpfInsn).decode =
      some (.jmp .w64 eop 0 (jmpRight fp src) o) := by
  unfold jmpInsn jmpRight
  rw [bpfSrc_code_jmp hop]
  by_cases hv : jmpViaTmp fp
  · simp only [if_pos hv]
    rw [BpfInsn.decode_eq _ (hb .x)]
    rfl
  · simp only [if_neg hv]
    rw [BpfInsn.decode_eq _ (hb src)]
    cases src <;> rfl

/-- The load of a negative constant before the comparison: afterwards the right
operand has the value of the classic one. -/
theorem untilPlus_jmpPrefix {op : JmpOp} {src : Src} {rest : List BpfInsn}
    {Q : EbpfState → Prop} (hop : fp.op = some (.jmp op src))
    (hs : AtInsn data dataEnd pc a x mem s) (hc : CodeAt out pc (jmpPrefix fp ++ rest))
    (hu : ∀ s', AtInsn data dataEnd (pc + (jmpPrefix fp).length) a x mem s' →
      s'.val64 (jmpRight fp src) = zext (src.pick fp.k x) →
      UntilPlus (ebpfStep out) adm (Guarded out data dataEnd) Q s') :
    UntilPlus (ebpfStep out) adm (Guarded out data dataEnd) Q s := by
  unfold jmpPrefix jmpRight at *
  by_cases hv : jmpViaTmp fp
  · simp only [if_pos hv] at hc hu
    have hsrc : src = .k := by
      have := hv.1
      rw [bpfSrc_code_jmp hop] at this
      cases src with
      | k => rfl
      | x => exact absurd this (by decide)
    subst hsrc
    exact untilPlus_alu32 2 fp.k hs.frame (hs.pc ▸ hc) (decode_mov32Imm _ _) rfl (by decide)
      fun hF _ => (hu _ (hs.of_eq hF rfl (congrArg (· + 1) hs.pc) hs.a hs.x) rfl).until
  · simp only [if_neg hv] at hc hu
    refine hu s hs ?_
    cases src with
    | x => exact hs.x
    | k =>
      refine BitVec.signExtend_eq_setWidth_of_msb_false ?_
      have hk : ¬ fp.k.toInt < 0 := fun h => hv ⟨bpfSrc_code_jmp hop, h⟩
      rw [BitVec.msb_eq_toInt]
      exact decide_eq_false hk

/-- A comparison with its constant, if the constant is negative: the machine goes
to the target or past the comparison. -/
theorem block_condJmp {op : JmpOp} {src : Src} {b : BitVec 8} {eop : EJmpOp} {o : BitVec 16}
    {target : Nat} {rest : List BpfInsn} (hop : fp.op = some (.jmp op src)) (hb : JmpBits b eop)
    (hs : AtInsn data dataEnd pc a x mem s)
    (hc : CodeAt out pc (jmpPrefix fp ++ { jmpInsn b fp with off := o } :: rest))
    (ho : (pc : Int) + (jmpPrefix fp).length + 1 + o.toInt = target) :
    UntilPlus (ebpfStep out) adm (Guarded out data dataEnd)
      (AtInsn data dataEnd (if eop.eval (zext a) (zext (src.pick fp.k x)) then target
        else pc + (jmpPrefix fp).length + 1) a x mem) s := by
  refine untilPlus_jmpPrefix hop hs hc fun s₁ hs₁ hright => ?_
  have hc₁ : CodeAt out s₁.pc _ := hs₁.pc ▸ hc.right rfl
  have hd := decode_jmpInsn hop hb o
  have htk : s₁.taken .w64 eop 0 (jmpRight fp src) =
      eop.eval (zext a) (zext (src.pick fp.k x)) := by
    rw [← hright, ← hs₁.a]
    rfl
  split
  next hev =>
    refine untilPlus_jmp_taken target hs₁.frame hc₁ hd (htk.trans hev) ?_
      fun hF => .here (hs₁.of_eq hF rfl rfl hs₁.a hs₁.x)
    rw [hs₁.pc, ← ho]
    omega
  next hev =>
    exact untilPlus_jmp_fall hs₁.frame hc₁ hd (htk.trans (eq_false_of_ne_true hev))
      fun hF _ => .here (hs₁.of_eq hF rfl (congrArg (· + 1) hs₁.pc) hs₁.a hs₁.x)

/-- The conditional jumps. The length of the expansion says where the machine
goes when no jump is taken. -/
theorem block_jmp {op : JmpOp} {src : Src} (hi : i < prog.length)
    (hop : fp.op = some (.jmp op src))
    (hxs : convertJmp prog.length (some (layout prog)) i fp = some xs)
    (hnext : addrOf prog (i + 1) = addrOf prog i + xs.length)
    (hs : AtInsn data dataEnd (addrOf prog i) a x mem s) (hc : CodeAt out (addrOf prog i) xs) :
    UntilPlus (ebpfStep out) adm (Guarded out data dataEnd)
      (AtInsn data dataEnd (addrOf prog (i + 1 +
        if op.eval a (src.pick fp.k x) then fp.jt.toNat else fp.jf.toNat)) a x mem) s := by
  rcases convertJmp_eq_some hxs with ⟨hjf, j, hj, rfl⟩ | ⟨hjf, op', j, hinv, hj, rfl⟩ |
    ⟨hjf, hinv, j, ja, hj, hja, rfl⟩
  · -- one jump, to the true target
    obtain ⟨t, ht, -, o, rfl, ho⟩ := emitJmp_layout hi hj
    obtain rfl : t = i + 1 + fp.jt.toNat := by omega
    rw [bpfOp_code_jmp hop] at hc
    refine (block_condJmp hop (jmpBits_bits op) hs hc ho).mono (fun _ h => h) fun s' hs' => ?_
    rw [eJmpOp_eval] at hs'
    cases hev : op.eval a (src.pick fp.k x) with
    | true => rwa [hev, if_pos rfl] at hs'
    | false =>
      rw [hev, if_neg Bool.false_ne_true] at hs'
      rw [if_neg Bool.false_ne_true, hjf]
      exact (by simpa using hnext : addrOf prog (i + 1) = _) ▸ hs'
  · -- one inverted jump, to the false target
    obtain ⟨t, ht, -, o, rfl, ho⟩ := emitJmp_layout hi hj
    obtain rfl : t = i + 1 + fp.jf.toNat := by omega
    obtain ⟨hjt, hinv⟩ := jmpInverted_eq_some hop hinv
    obtain ⟨eop, hbits, heval⟩ := invertJmp_eval hinv
    refine (block_condJmp hop hbits hs hc ho).mono (fun _ h => h) fun s' hs' => ?_
    rw [heval] at hs'
    cases hev : op.eval a (src.pick fp.k x) with
    | false => rwa [hev, Bool.not_false, if_pos rfl] at hs'
    | true =>
      rw [hev, Bool.not_true, if_neg Bool.false_ne_true] at hs'
      rw [if_pos rfl, hjt]
      exact (by simpa using hnext : addrOf prog (i + 1) = _) ▸ hs'
  · -- a jump to each
    obtain ⟨t, ht, -, o, rfl, ho⟩ := emitJmp_layout hi hj
    obtain rfl : t = i + 1 + fp.jt.toNat := by omega
    obtain ⟨t', ht', -, o', rfl, ho'⟩ := emitJmp_layout hi hja
    obtain rfl : t' = i + 1 + fp.jf.toNat := by omega
    rw [bpfOp_code_jmp hop] at hc
    refine (block_condJmp hop (jmpBits_bits op) hs hc ho).trans fun s' hs' => ?_
    rw [eJmpOp_eval] at hs'
    cases hev : op.eval a (src.pick fp.k x) with
    | true =>
      rw [hev, if_pos rfl] at hs'
      exact .here hs'
    | false =>
      rw [hev, if_neg Bool.false_ne_true] at hs'
      have hc' : CodeAt out (addrOf prog i + (jmpPrefix fp).length + 1) _ :=
        (hc.right rfl).tail
      refine (block_jaInsn hs' hc' (decode_jaInsn o') ?_).until
      rw [if_neg Bool.false_ne_true, ← ho']
      omega

end SkbTracer.Pcap2Bpf
