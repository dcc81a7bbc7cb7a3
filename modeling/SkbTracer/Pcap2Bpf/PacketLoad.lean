import SkbTracer.Pcap2Bpf.Expansion
import SkbTracer.Bpf.EbpfRun

/-!
# What an emitted packet load does

`emit_packet_load` guards its `probe_read_kernel` with five checks, in three
stages, and the proof has one lemma per stage.

* `until_tailOffset`: the offset is below 2^31, so adding the size of the load
  cannot overflow 32 bits; the check after the addition never fires.
* `until_tailBounds`: `data_end` is not below `data` and the end offset is at
  most their distance. This is where the unbounded fact `off + size ≤
  data_end - data` comes from.
* `until_tailCall`: the call, whose arguments are safe by the stage before.

Every stage either passes or goes to the failure epilogue, and the epilogue ends
with `R0 = 0`. `packetLoad_abs` and `packetLoad_ind` put the stages together, for
any helper: the load succeeds only inside the packet and only if the helper
returned 0, and then the big-endian word of the helper's bytes is in `R0`; it
fails only outside the packet or if the helper failed.

`Loaded` and `Rejected` are these two outcomes, and `Kept` is what a load leaves alone: the
slots, the scratch words, and the register with the classic `X`. They survive because the
buffer of the call, at `FP-56`, lies between the scratch words and the slots.

An offset of 2^31 and more rejects the packet even if the packet is that long; this is
why packets are taken to be shorter elsewhere.
-/

namespace SkbTracer.Pcap2Bpf

open SkbTracer.Bpf
open SkbTracer.Lib (Res Byte Until UntilPlus load leNat beNat byteOf leNat_lt beNat_lt
  load_storeBytes beNat_byteOf_leNat)

/-- `n` bytes at offset `o` are inside the packet, and the offset is one the
emitted code accepts. -/
def InPacket (data dataEnd : BitVec 64) (o n : Nat) : Prop :=
  o < 2 ^ 31 ∧ data.toNat + o + n ≤ dataEnd.toNat

/-- `s'` comes from `s` by code that leaves X, the frame pointer and everything
above the probe buffer alone. -/
structure Kept (data dataEnd : BitVec 64) (s s' : EbpfState) : Prop where
  frame : Frame data dataEnd s'
  fp : s'.fp = s.fp
  x : s'.regs 7 = s.regs 7
  scratch : ∀ d, 56 < d → s'.stack d = s.stack d

/-- The machine is about to leave the filter with `R0 = 0`. -/
structure AtReject (out : List BpfInsn) (s : EbpfState) : Prop where
  exit : fetch out s = some .exit
  zero : s.regs 0 = 0

variable {out : List BpfInsn} {data dataEnd : BitVec 64} {adm : Helper → Prop}
  {s s₁ s₂ : EbpfState} {size : LdSize} {p : Nat} {rest : List BpfInsn}

theorem Kept.refl (hF : Frame data dataEnd s) : Kept data dataEnd s s :=
  ⟨hF, rfl, rfl, fun _ _ => rfl⟩

theorem Kept.trans (h₁ : Kept data dataEnd s s₁) (h₂ : Kept data dataEnd s₁ s₂) :
    Kept data dataEnd s s₂ :=
  ⟨h₂.frame, h₂.fp.trans h₁.fp, h₂.x.trans h₁.x,
    fun d hd => (h₂.scratch d hd).trans (h₁.scratch d hd)⟩

/-- States that differ in the registers R0 to R5 and the program counter only. -/
theorem Kept.of_eq (hF : Frame data dataEnd s₁) (hfp : s₁.fp = s.fp)
    (hx : s₁.regs 7 = s.regs 7) (hst : s₁.stack = s.stack) : Kept data dataEnd s s₁ :=
  ⟨hF, hfp, hx, fun _ _ => by rw [hst]⟩

/-- The failure epilogue. -/
theorem until_tailFail (hT : CodeAt out p (loadTail size)) (hF : Frame data dataEnd s)
    (hpc : s.pc = p + 17) :
    Until (ebpfStep out) adm (Guarded out data dataEnd)
      (fun s' => Kept data dataEnd s s' ∧ AtReject out s') s := by
  have hc : CodeAt out s.pc _ := hT.drop 17 (by cases size <;> decide) hpc
  refine (untilPlus_wr 0 0 hF hc (decode_mov64Imm _ _) (fun _ => rfl) trivial (by decide)
    fun hF hc => ?_).until
  exact .here ⟨.of_eq hF rfl rfl rfl, hc.fetch decode_exit, rfl⟩

/-- A failure jump, from instruction `j` of the tail. -/
theorem untilPlus_fail {w : Width} {op : EJmpOp} {dst : BitVec 4} {src : Operand}
    {o : BitVec 16} {i : BpfInsn} {rest : List BpfInsn} {Q : EbpfState → Prop} (p : Nat)
    (hF : Frame data dataEnd s) (hc : CodeAt out s.pc (i :: rest))
    (hi : i.decode = some (.jmp w op dst src o)) (ht : s.taken w op dst src = true)
    (hpc : (s.pc : Int) + 1 + o.toInt = (p + 17 : Nat))
    (hQ : Frame data dataEnd (s.goto (p + 17)) → Q (s.goto (p + 17))) :
    UntilPlus (ebpfStep out) adm (Guarded out data dataEnd) Q s :=
  untilPlus_jmp_taken (p + 17) hF hc hi ht hpc fun hF => .here (hQ hF)

/-- The end offset fits 32 bits, as the offset is below 2^31. -/
theorem toNat_endOffset {o : BitVec 32} (ho : o.toNat < 2 ^ 31) (size : LdSize) :
    (o + BitVec.ofNat 32 size.bytes).toNat = o.toNat + size.bytes := by
  have := size.bytes_le
  rw [BitVec.toNat_add, BitVec.toNat_ofNat]
  omega

/-- Stage 1: the sign of the offset, and the end offset. -/
theorem until_tailOffset {o : BitVec 32} (hT : CodeAt out p (loadTail size))
    (hF : Frame data dataEnd s) (hpc : s.pc = p) (h2 : s.regs 2 = zext o) :
    UntilPlus (ebpfStep out) adm (Guarded out data dataEnd)
      (fun s' => Kept data dataEnd s s' ∧
        (s'.pc = p + 4 ∧ s'.regs 2 = zext o ∧
          s'.regs 3 = zext (o + BitVec.ofNat 32 size.bytes) ∧ o.toNat < 2 ^ 31 ∨
        s'.pc = p + 17 ∧ 2 ^ 31 ≤ o.toNat)) s := by
  subst hpc
  have hslt : s.taken .w32 .jslt 2 (.imm 0) = decide (2 ^ 31 ≤ o.toNat) := by
    show decide ((lo32 (s.regs 2)).toInt < 0) = _
    rw [lo32_of_eq h2, decide_eq_decide, BitVec.toInt_eq_toNat_cond]
    have := o.isLt
    omega
  -- a negative offset goes to the failure exit
  by_cases ho : 2 ^ 31 ≤ o.toNat
  · refine untilPlus_fail s.pc hF hT (decode_jmp32Imm _ _ _ .jslt (by decide))
      (by rw [hslt, decide_eq_true ho]) rfl fun hF => ?_
    exact ⟨.of_eq hF rfl rfl rfl, Or.inr ⟨rfl, ho⟩⟩
  · have hend := toNat_endOffset (Nat.lt_of_not_le ho) size
    refine untilPlus_jmp_fall hF hT (decode_jmp32Imm _ _ _ .jslt (by decide))
      (by rw [hslt, decide_eq_false ho]) fun hF hc => ?_
    refine (untilPlus_alu32 3 o hF hc (decode_mov32Reg _ _) (lo32_of_eq h2) (by decide)
      fun hF hc => ?_).until
    refine (untilPlus_alu32 3 (o + BitVec.ofNat 32 size.bytes) hF hc
      (decode_alu32Imm _ _ .add (by decide)) ?_ (by decide) fun hF hc => ?_).until
    · exact congrArg (· + _) (lo32_zext o)
    refine (untilPlus_jmp_fall hF hc (decode_jmpReg _ _ _ .jlt (by decide)) ?_
      fun hF hc => ?_).until
    · -- the check for a wrap never fires: the offset is below 2^31
      show decide ((zext (o + BitVec.ofNat 32 size.bytes)).toNat < (s.regs 2).toNat) = false
      rw [h2, zext_toNat, zext_toNat, hend]
      exact decide_eq_false (by omega)
    · exact .here ⟨.of_eq hF rfl rfl rfl, Or.inl ⟨rfl, h2, rfl, Nat.lt_of_not_le ho⟩⟩

/-- Stage 2: the end offset against the distance of the bounds. -/
theorem until_tailBounds {e : BitVec 32} (hT : CodeAt out p (loadTail size))
    (hF : Frame data dataEnd s) (hpc : s.pc = p + 4) (h3 : s.regs 3 = zext e) :
    Until (ebpfStep out) adm (Guarded out data dataEnd)
      (fun s' => Kept data dataEnd s s' ∧
        (s'.pc = p + 9 ∧ s'.regs 2 = s.regs 2 ∧ s'.regs 4 = data ∧
          data.toNat + e.toNat ≤ dataEnd.toNat ∨
        s'.pc = p + 17 ∧ ¬ data.toNat + e.toNat ≤ dataEnd.toNat)) s := by
  have hc : CodeAt out s.pc _ := hT.drop 4 (by cases size <;> decide) hpc
  have hdata : BitVec.ofNat 64 (load s.stack 40 8) = data := by
    rw [hF.data, BitVec.ofNat_toNat, BitVec.setWidth_eq]
  have hend : BitVec.ofNat 64 (load s.stack 48 8) = dataEnd := by
    rw [hF.dataEnd, BitVec.ofNat_toNat, BitVec.setWidth_eq]
  refine (untilPlus_ldx 4 40 data hF hc (decode_ldxMem _ _ _ .dw (by decide)) (by decide)
    (by decide) (by decide) hdata (by decide) fun hF hc => ?_).until
  refine (untilPlus_ldx 5 48 dataEnd hF hc (decode_ldxMem _ _ _ .dw (by decide)) (by decide)
    (by decide) (by decide) hend (by decide) fun hF hc => ?_).until
  -- `data_end < data` is the empty packet
  by_cases hlt : dataEnd.toNat < data.toNat
  · refine (untilPlus_fail p hF hc (decode_jmpReg _ _ _ .jlt (by decide)) (decide_eq_true hlt) ?_
      fun hF => ?_).until
    · show ((s.pc + 1 + 1 : Nat) : Int) + 1 + 10 = (p + 17 : Nat)
      omega
    · exact ⟨.of_eq hF rfl rfl rfl, Or.inr ⟨rfl, by omega⟩⟩
  refine (untilPlus_jmp_fall hF hc (decode_jmpReg _ _ _ .jlt (by decide)) (decide_eq_false hlt)
    fun hF hc => ?_).until
  have hsub : (dataEnd - data).toNat = dataEnd.toNat - data.toNat :=
    BitVec.toNat_sub_of_le (Nat.le_of_not_lt hlt)
  refine (untilPlus_alu64 5 (dataEnd - data) hF hc (decode_alu64Reg _ _ .sub (by decide)) rfl
    (by decide) fun hF hc => ?_).until
  by_cases hgt : (dataEnd - data).toNat < (s.regs 3).toNat
  · refine (untilPlus_fail p hF hc (decode_jmpReg _ _ _ .jgt (by decide)) (decide_eq_true hgt) ?_
      fun hF => ?_).until
    · show ((s.pc + 1 + 1 + 1 + 1 : Nat) : Int) + 1 + 8 = (p + 17 : Nat)
      omega
    · refine ⟨.of_eq hF rfl rfl rfl, Or.inr ⟨rfl, ?_⟩⟩
      rw [h3, zext_toNat] at hgt
      omega
  · refine (untilPlus_jmp_fall hF hc (decode_jmpReg _ _ _ .jgt (by decide)) (decide_eq_false hgt)
      fun hF hc => ?_).until
    rw [h3, zext_toNat] at hgt
    exact .here ⟨.of_eq hF rfl rfl rfl,
      Or.inl ⟨congrArg (· + 5) hpc, rfl, rfl, by omega⟩⟩

/-- The call a packet load at offset `o` makes. -/
def probeCall (s : EbpfState) (data : BitVec 64) (o n : Nat) : HelperCall :=
  { dst := s.fp - 56, size := BitVec.ofNat 64 n, src := data + BitVec.ofNat 64 o }

/-- Stage 3: the call. -/
theorem until_tailCall {o : BitVec 32} (hT : CodeAt out p (loadTail size))
    (hF : Frame data dataEnd s) (hpc : s.pc = p + 9) (h2 : s.regs 2 = zext o)
    (h4 : s.regs 4 = data) (hin : data.toNat + (o.toNat + size.bytes) ≤ dataEnd.toNat) :
    Until (ebpfStep out) adm (Guarded out data dataEnd)
      (fun s' => Kept data dataEnd s s' ∧ ∃ h, adm h ∧
        (s'.pc = p + 19 ∧ (h (probeCall s data o.toNat size.bytes)).r0 = 0 ∧
          load s'.stack 56 size.bytes =
            leNat (h (probeCall s data o.toNat size.bytes)).bytes size.bytes ∨
        s'.pc = p + 17 ∧ (h (probeCall s data o.toNat size.bytes)).r0 ≠ 0)) s := by
  have hc : CodeAt out s.pc _ := hT.drop 9 (by cases size <;> decide) hpc
  refine (untilPlus_alu64 1 s.fp hF hc (decode_mov64Reg _ _) hF.fp (by decide)
    fun hF hc => ?_).until
  refine (untilPlus_alu64 1 (s.fp - 56) hF hc (decode_alu64Imm _ _ .add (by decide)) ?_
    (by decide) fun hF hc => ?_).until
  · show s.fp + (-56 : BitVec 32).signExtend 64 = s.fp - 56
    rw [show (-56 : BitVec 32).signExtend 64 = -56 from by decide, BitVec.sub_eq_add_neg]
  refine (untilPlus_alu64 3 data hF hc (decode_mov64Reg _ _) h4 (by decide)
    fun hF hc => ?_).until
  refine (untilPlus_alu64 3 (data + BitVec.ofNat 64 o.toNat) hF hc
    (decode_alu64Reg _ _ .add (by decide)) ?_ (by decide) fun hF hc => ?_).until
  · show data + s.regs 2 = _
    rw [h2, zext_eq_ofNat]
  refine (untilPlus_alu64 2 (BitVec.ofNat 64 size.bytes) hF hc (decode_mov64Imm _ _) ?_
    (by decide) fun hF hc => ?_).until
  · show (BitVec.ofNat 32 size.bytes).signExtend 64 = BitVec.ofNat 64 size.bytes
    cases size <;> decide
  -- the arguments are ready: the buffer at `fp - 56`, the size, the source address
  have hn : (BitVec.ofNat 64 size.bytes).toNat = size.bytes := by cases size <;> rfl
  have hsrc : (data + BitVec.ofNat 64 o.toNat).toNat = data.toNat + o.toNat := by
    have := dataEnd.isLt
    rw [BitVec.toNat_add, BitVec.toNat_ofNat]
    omega
  refine (untilPlus_call size.bytes hF hc (decode_call _) ⟨rfl, ?_, ?_, ?_⟩ hn
    fun h hh hF hc => ?_).until
  · show BitVec.ofNat 64 size.bytes = 1 ∨ BitVec.ofNat 64 size.bytes = 2 ∨
      BitVec.ofNat 64 size.bytes = 4
    cases size <;> decide
  · show data.toNat ≤ (data + BitVec.ofNat 64 o.toNat).toNat
    omega
  · show (data + BitVec.ofNat 64 o.toNat).toNat + (BitVec.ofNat 64 size.bytes).toNat ≤ _
    omega
  -- of the state behind the call only these facts matter; R1 to R5 may hold anything
  generalize hs₁ : EbpfState.afterCall _ _ _ _ = s₁ at hF ⊢
  have hk : Kept data dataEnd s s₁ := by
    subst hs₁
    exact ⟨hF, rfl, rfl, fun d hd => if_neg (by omega)⟩
  have hpc₁ : s₁.pc = p + 15 := by subst hs₁; exact congrArg (· + 6) hpc
  have hr0 : s₁.regs 0 = (h (probeCall s data o.toNat size.bytes)).r0 := by subst hs₁; rfl
  have hbuf : load s₁.stack 56 size.bytes =
      leNat (h (probeCall s data o.toNat size.bytes)).bytes size.bytes := by
    subst hs₁
    exact load_storeBytes (by have := size.bytes_le; omega)
  have hc : CodeAt out s₁.pc _ := hT.drop 15 (by cases size <;> decide) hpc₁
  by_cases hz : s₁.regs 0 = 0
  · refine (untilPlus_jmp_fall hF hc (decode_jmpImm _ _ _ .jne (by decide)) ?_
      fun hF hc => ?_).until
    · show (s₁.regs 0 != 0) = false
      rw [hz]
      rfl
    refine (untilPlus_ja (p + 19) hF hc (decode_ja _ _ _) ?_ fun hF => ?_).until
    · show ((s₁.pc + 1 : Nat) : Int) + 1 + 2 = (p + 19 : Nat)
      omega
    · exact .here ⟨hk.trans (.of_eq hF rfl rfl rfl), h, hh, Or.inl ⟨rfl, hr0 ▸ hz, hbuf⟩⟩
  · refine (untilPlus_fail p hF hc (decode_jmpImm _ _ _ .jne (by decide)) ?_ ?_
      fun hF => ?_).until
    · show (s₁.regs 0 != 0) = true
      exact bne_iff_ne.mpr hz
    · show (s₁.pc : Int) + 1 + 1 = (p + 17 : Nat)
      omega
    · exact ⟨hk.trans (.of_eq hF rfl rfl rfl), h, hh, Or.inr ⟨rfl, hr0 ▸ hz⟩⟩

/-- The size of the eBPF load for a classic one. -/
def memSize : LdSize → MemSize
  | .w => .w
  | .h => .h
  | .b => .b

theorem memSize_bytes (size : LdSize) : (memSize size).bytes = size.bytes := by
  cases size <;> rfl

theorem zext_ofNat {n : Nat} (h : n < 2 ^ 32) : zext (BitVec.ofNat 32 n) = BitVec.ofNat 64 n := by
  rw [zext_eq_ofNat, BitVec.toNat_ofNat, Nat.mod_eq_of_lt h]

theorem beNat_lt_word (f : Nat → Byte) (size : LdSize) : beNat f size.bytes < 2 ^ 32 :=
  Nat.lt_of_lt_of_le (beNat_lt f _) (Nat.pow_le_pow_right (by decide) size.bytes_le)

/-- The byte swap of the word just loaded. -/
theorem until_swap {f : Nat → Byte} (hF : Frame data dataEnd s)
    (hc : CodeAt out s.pc (loadSwap size ++ rest))
    (h0 : s.regs 0 = BitVec.ofNat 64 (leNat f size.bytes)) :
    Until (ebpfStep out) adm (Guarded out data dataEnd)
      (fun s' => Kept data dataEnd s s' ∧ s'.pc = s.pc + (loadSwap size).length ∧
        s'.regs 0 = zext (BitVec.ofNat 32 (beNat f size.bytes))) s := by
  rw [zext_ofNat (beNat_lt_word f size)]
  have hval : (s.regs 0).toNat = leNat f size.bytes := by
    have := Nat.lt_of_lt_of_le (leNat_lt f _) (Nat.pow_le_pow_right (by decide) size.bytes_le)
    rw [h0, BitVec.toNat_ofNat, Nat.mod_eq_of_lt (by omega)]
  have hswap : beNat (byteOf (s.regs 0).toNat) size.bytes = beNat f size.bytes := by
    rw [hval, beNat_byteOf_leNat]
  cases size with
  | b => exact .here ⟨.refl hF, rfl, by rw [h0]; simp [LdSize.bytes, leNat, beNat]⟩
  | h =>
    refine (untilPlus_wr 0 (BitVec.ofNat 64 (beNat f 2)) hF hc (decode_endian _ _) (fun _ => ?_)
      trivial (by decide) fun hF hc => ?_).until
    · exact congrArg (fun n => Res.next (s.wr 0 (BitVec.ofNat 64 n))) hswap
    · exact .here ⟨.of_eq hF rfl rfl rfl, rfl, rfl⟩
  | w =>
    refine (untilPlus_wr 0 (BitVec.ofNat 64 (beNat f 4)) hF hc (decode_endian _ _) (fun _ => ?_)
      trivial (by decide) fun hF hc => ?_).until
    · exact congrArg (fun n => Res.next (s.wr 0 (BitVec.ofNat 64 n))) hswap
    · exact .here ⟨.of_eq hF rfl rfl rfl, rfl, rfl⟩

/-- The load from the probe buffer. -/
theorem until_tailFetch {f : Nat → Byte} (hT : CodeAt out p (loadTail size))
    (hF : Frame data dataEnd s) (hpc : s.pc = p + 19)
    (hbuf : load s.stack 56 size.bytes = leNat f size.bytes) :
    Until (ebpfStep out) adm (Guarded out data dataEnd)
      (fun s' => Kept data dataEnd s s' ∧ s'.pc = p + (loadTail size).length ∧
        s'.regs 0 = zext (BitVec.ofNat 32 (beNat f size.bytes))) s := by
  have hc : CodeAt out s.pc _ := hT.drop 19 (by cases size <;> decide) hpc
  have hle : (memSize size).bytes ≤ 4 := by rw [memSize_bytes]; exact size.bytes_le
  refine (untilPlus_ldx 0 56 (BitVec.ofNat 64 (leNat f size.bytes)) hF hc
    (decode_ldxMem _ _ _ (memSize size) (by cases size <;> decide)) (by decide) (by omega)
    (by decide) ?_ (by decide) fun hF hc => ?_).until
  · rw [memSize_bytes, hbuf]
  refine (until_swap hF (by rw [List.append_nil]; exact hc) rfl).mono (fun _ h => h)
    fun s' ⟨hk, hpc', h0⟩ => ⟨(Kept.of_eq (s := s) hF rfl rfl rfl).trans hk, ?_, h0⟩
  rw [hpc', EbpfState.wr_pc, hpc, loadTail_length]
  cases size <;> rfl

/-! ## Whole loads -/

/-- A packet load at offset `o` that went through: the offset is inside the
packet, the helper returned 0, and `R0` holds the big-endian word of its bytes. -/
structure Loaded (adm : Helper → Prop) (data dataEnd : BitVec 64) (o : Nat) (size : LdSize)
    (s s' : EbpfState) : Prop where
  kept : Kept data dataEnd s s'
  inside : InPacket data dataEnd o size.bytes
  value : ∃ h, adm h ∧ (h (probeCall s data o size.bytes)).r0 = 0 ∧ s'.regs 0 =
    zext (BitVec.ofNat 32 (beNat (h (probeCall s data o size.bytes)).bytes size.bytes))

/-- A packet load at offset `o` that rejects the packet: the offset is outside,
or the helper failed. -/
structure Rejected (out : List BpfInsn) (adm : Helper → Prop) (data dataEnd : BitVec 64)
    (o : Nat) (size : LdSize) (s s' : EbpfState) : Prop where
  kept : Kept data dataEnd s s'
  reject : AtReject out s'
  cause : ¬ InPacket data dataEnd o size.bytes ∨
    ∃ h, adm h ∧ (h (probeCall s data o size.bytes)).r0 ≠ 0

/-- A packet load from the point where the offset is in R2. -/
theorem packetLoad_tail {o : BitVec 32} (hT : CodeAt out p (loadTail size))
    (hF : Frame data dataEnd s) (hpc : s.pc = p) (h2 : s.regs 2 = zext o) :
    UntilPlus (ebpfStep out) adm (Guarded out data dataEnd)
      (fun s' => Loaded adm data dataEnd o.toNat size s s' ∧
          s'.pc = p + (loadTail size).length ∨
        Rejected out adm data dataEnd o.toNat size s s') s := by
  -- the failure exit, shared by the stages
  have hfail : ∀ {s'}, Kept data dataEnd s s' → s'.pc = p + 17 →
      (¬ InPacket data dataEnd o.toNat size.bytes ∨
        ∃ h, adm h ∧ (h (probeCall s data o.toNat size.bytes)).r0 ≠ 0) →
      Until (ebpfStep out) adm (Guarded out data dataEnd)
        (fun s' => Loaded adm data dataEnd o.toNat size s s' ∧
            s'.pc = p + (loadTail size).length ∨
          Rejected out adm data dataEnd o.toNat size s s') s' := fun hk hpc' hcause =>
    (until_tailFail hT hk.frame hpc').mono (fun _ h => h) fun _ ⟨hk', hrej⟩ =>
      Or.inr ⟨hk.trans hk', hrej, hcause⟩
  refine (until_tailOffset hT hF hpc h2).trans ?_
  rintro s₁ ⟨hk₁, ⟨hpc₁, h2₁, h3₁, ho⟩ | ⟨hpc₁, ho⟩⟩
  · refine (until_tailBounds hT hk₁.frame hpc₁ h3₁).trans ?_
    rw [toNat_endOffset ho]
    rintro s₂ ⟨hk₂, ⟨hpc₂, h2₂, h4₂, hle⟩ | ⟨hpc₂, hgt⟩⟩
    · have hcall : probeCall s₂ data o.toNat size.bytes = probeCall s data o.toNat size.bytes := by
        rw [probeCall, probeCall, (hk₁.trans hk₂).fp]
      refine (until_tailCall hT hk₂.frame hpc₂ (h2₂.trans h2₁) h4₂ hle).trans ?_
      rw [hcall]
      rintro s₃ ⟨hk₃, h, hh, ⟨hpc₃, hr0, hbuf⟩ | ⟨hpc₃, hr0⟩⟩
      · refine (until_tailFetch hT hk₃.frame hpc₃ hbuf).mono (fun _ h => h) ?_
        rintro s₄ ⟨hk₄, hpc₄, h0⟩
        exact Or.inl ⟨⟨((hk₁.trans hk₂).trans hk₃).trans hk₄, ⟨ho, by omega⟩, h, hh, hr0, h0⟩,
          hpc₄⟩
      · exact hfail ((hk₁.trans hk₂).trans hk₃) hpc₃ (Or.inr ⟨h, hh, hr0⟩)
    · exact hfail (hk₁.trans hk₂) hpc₂ (Or.inl fun hin => hgt (by have := hin.2; omega))
  · exact hfail hk₁ hpc₁ (Or.inl fun hin => absurd hin.1 (by omega))

/-- A packet load at a constant offset. -/
theorem packetLoad_abs {k : BitVec 32}
    (hc : CodeAt out s.pc (emitPacketLoad (CbpfOp.ldAbs size).code k))
    (hF : Frame data dataEnd s) :
    UntilPlus (ebpfStep out) adm (Guarded out data dataEnd)
      (fun s' => Loaded adm data dataEnd k.toNat size s s' ∧
          s'.pc = s.pc + (emitPacketLoad (CbpfOp.ldAbs size).code k).length ∨
        Rejected out adm data dataEnd k.toNat size s s') s := by
  rw [emitPacketLoad_abs] at hc ⊢
  refine untilPlus_alu32 2 k hF hc (decode_mov32Imm _ _) rfl (by decide) fun hF hT => ?_
  have hk : Kept data dataEnd s (s.wr 2 (zext k)) := .of_eq hF rfl rfl rfl
  refine (packetLoad_tail hT hF rfl rfl).until.mono (fun _ h => h) ?_
  rintro s' (⟨hl, hpc⟩ | hr)
  · refine Or.inl ⟨⟨hk.trans hl.kept, hl.inside, hl.value⟩, ?_⟩
    rw [hpc, List.length_cons, EbpfState.wr_pc]
    omega
  · exact Or.inr ⟨hk.trans hr.kept, hr.reject, hr.cause⟩

/-- A packet load at an offset relative to X. The sum does not wrap: if it does
not fit 32 bits, it is outside the packet anyway. -/
theorem packetLoad_ind {k x : BitVec 32}
    (hc : CodeAt out s.pc (emitPacketLoad (CbpfOp.ldInd size).code k))
    (hF : Frame data dataEnd s) (hx : s.regs 7 = zext x) :
    UntilPlus (ebpfStep out) adm (Guarded out data dataEnd)
      (fun s' => Loaded adm data dataEnd (x.toNat + k.toNat) size s s' ∧
          s'.pc = s.pc + (emitPacketLoad (CbpfOp.ldInd size).code k).length ∨
        Rejected out adm data dataEnd (x.toNat + k.toNat) size s s') s := by
  rw [emitPacketLoad_ind] at hc ⊢
  have hT := hc.right rfl
  refine untilPlus_alu32 2 x hF hc (decode_mov32Reg _ _) (lo32_of_eq hx) (by decide)
    fun hF hc => ?_
  refine (untilPlus_alu32 1 x hF hc (decode_mov32Reg _ _) (lo32_zext x) (by decide)
    fun hF hc => ?_).until
  refine (untilPlus_alu32 2 (x + k) hF hc (decode_alu32Imm _ _ .add (by decide)) ?_ (by decide)
    fun hF hc => ?_).until
  · exact congrArg (· + k) (lo32_zext x)
  generalize hs₁ : EbpfState.wr _ 2 (zext (x + k)) = s₁ at hF hc ⊢
  have hk₁ : Kept data dataEnd s s₁ := by subst hs₁; exact .of_eq hF rfl rfl rfl
  have hpc₁ : s₁.pc = s.pc + 3 := by subst hs₁; rfl
  have h2 : s₁.regs 2 = zext (x + k) := by subst hs₁; rfl
  have hlt : s₁.taken .w64 .jlt 2 (.reg 1) = decide (2 ^ 32 ≤ x.toNat + k.toNat) := by
    have h1 : s₁.regs 1 = zext x := by subst hs₁; rfl
    show decide ((s₁.regs 2).toNat < (s₁.regs 1).toNat) = _
    rw [h1, h2, zext_toNat, zext_toNat, decide_eq_decide, BitVec.toNat_add]
    have := x.isLt
    have := k.isLt
    omega
  -- the sum is compared with X: smaller means that it wrapped
  by_cases hov : 2 ^ 32 ≤ x.toNat + k.toNat
  · refine (untilPlus_jmp_taken (s.pc + 21) hF hc (decode_jmpReg _ _ _ .jlt (by decide))
      (by rw [hlt, decide_eq_true hov]) ?_ fun hF => ?_).until
    · rw [hpc₁]
      show ((s.pc + 3 : Nat) : Int) + 1 + 17 = (s.pc + 21 : Nat)
      omega
    refine (until_tailFail hT hF rfl).mono (fun _ h => h) fun _ ⟨hk, hrej⟩ => Or.inr ?_
    exact ⟨(hk₁.trans (.of_eq hF rfl rfl rfl)).trans hk, hrej,
      Or.inl fun hin => absurd hin.1 (by omega)⟩
  · have hsum : (x + k).toNat = x.toNat + k.toNat := by rw [BitVec.toNat_add]; omega
    refine (untilPlus_jmp_fall hF hc (decode_jmpReg _ _ _ .jlt (by decide))
      (by rw [hlt, decide_eq_false hov]) fun hF hc => ?_).until
    have hk₂ : Kept data dataEnd s (s₁.goto (s₁.pc + 1)) := hk₁.trans (.of_eq hF rfl rfl rfl)
    refine (packetLoad_tail hT hF (congrArg (· + 1) hpc₁) h2).until.mono (fun _ h => h) ?_
    rw [hsum]
    rintro s' (⟨hl, hpc⟩ | hr)
    · refine Or.inl ⟨⟨hk₂.trans hl.kept, hl.inside, ?_⟩, ?_⟩
      · have := hl.value
        rwa [show probeCall (s₁.goto (s₁.pc + 1)) = probeCall s by
          funext; rw [probeCall, probeCall, hk₂.fp]] at this
      · rw [hpc, List.length_append]
        show s.pc + 4 + _ = s.pc + (4 + _)
        omega
    · refine Or.inr ⟨hk₂.trans hr.kept, hr.reject, ?_⟩
      have := hr.cause
      rwa [show probeCall (s₁.goto (s₁.pc + 1)) = probeCall s by
        funext; rw [probeCall, probeCall, hk₂.fp]] at this

end SkbTracer.Pcap2Bpf
