import SkbTracer.Pcap2Bpf.Simulation

/-!
# Shifts by a register

A shift by X keeps its opcode, but not its meaning: libpcap shifts by any amount, and by
32 or more everything is shifted out; the emitted instruction takes the amount modulo
32. The two agree on smaller amounts, and on those operands of which nothing is left
either way (`ShiftAgrees`). No check of X stands in front of the instruction, as it does
in front of a division.

`pcapStep` is libpcap's interpreter. Where its shifts are of the first kind it takes the
steps of the machine of `Bpf.Cbpf` (`pcapStep_eq`), and so `register_shift_iff` carries
the verdict over to the emitted code.

- `eval_eq_shiftValue_iff`: when the emitted shift gives libpcap's value;
- `Accepted.shift_step`: the emitted instruction, in the output of an accepted program;
- `pcapStep_eq`: where the shifts of a run agree, both interpreters take the same steps;
- `register_shift_iff`: one shift is right exactly if it agrees, and a run whose shifts
  all agree has libpcap's verdict;
- `shiftByByte_agree`, `shiftByByte_differs`: a program that shifts by a byte of the
  packet, on a packet where it is right and on one where it is not.

A run may have libpcap's verdict although one of its shifts differs, when the value is not
used; so for whole runs the condition is enough and not more.
-/

namespace SkbTracer.Pcap2Bpf

open SkbTracer.Bpf
open SkbTracer.Lib (Res Reach Byte run iter iter_congr)

/-! ## libpcap's interpreter -/

def IsShift (op : AluOp) : Prop := op = .lsh ∨ op = .rsh

/-- The value of an ALU operation in libpcap. -/
def pcapEval : AluOp → BitVec 32 → BitVec 32 → BitVec 32
  | .lsh, a, x => if x.toNat < 32 then a <<< x.toNat else 0
  | .rsh, a, x => if x.toNat < 32 then a >>> x.toNat else 0
  | op, a, x => op.eval a x

/-- The shift of a number. -/
def shiftValue : AluOp → Nat → Nat → Nat
  | .lsh, a, x => a * 2 ^ x % 2 ^ 32
  | _, a, x => a / 2 ^ x

/-- One instruction; only ALU operations differ from `cbpfExec`. -/
def pcapExec (op : CbpfOp) (fp : SockFilter) (pkt : List Byte) (s : CbpfState) :
    Res CbpfState (BitVec 32) :=
  match op with
  | .alu op .k =>
    if op.divides ∧ fp.k = 0 then .fault
    else .next { s with pc := s.pc + 1, a := pcapEval op s.a fp.k }
  | .alu op .x =>
    if op.divides ∧ s.x = 0 then .done 0
    else .next { s with pc := s.pc + 1, a := pcapEval op s.a s.x }
  | op => cbpfExec op fp pkt s

/-- One step of libpcap's interpreter: that of `Bpf.Cbpf`, but for shifts by a register.
-/
def pcapStep (prog : List SockFilter) (pkt : List Byte) (s : CbpfState) :
    Res CbpfState (BitVec 32) :=
  match prog[s.pc]? with
  | none => .fault
  | some fp =>
    match fp.op with
    | none => .fault
    | some op => pcapExec op fp pkt s

/-- The program ends on the packet with `RET` value `v`, as libpcap runs it. -/
def PcapReturns (prog : List SockFilter) (pkt : List Byte) (v : BitVec 32) : Prop :=
  ∃ n, iter (pcapStep prog pkt) n cbpfInit = .done v

/-- The states libpcap passes through. -/
def PcapReach (prog : List SockFilter) (pkt : List Byte) : CbpfState → Prop :=
  Reach (fun _ : Unit => pcapStep prog pkt) (fun _ => True) cbpfInit

/-! ## Where the two shifts agree -/

/-- The amount is less than 32, or no bit of A is left when it is taken modulo 32. -/
def ShiftAgrees : AluOp → BitVec 32 → BitVec 32 → Prop
  | .lsh, a, x => x.toNat < 32 ∨ 2 ^ (32 - x.toNat % 32) ∣ a.toNat
  | .rsh, a, x => x.toNat < 32 ∨ a.toNat < 2 ^ (x.toNat % 32)
  | _, _, _ => True

/-- Every shift by X of the run is one on which the two agree. -/
def ShiftsAgree (prog : List SockFilter) (pkt : List Byte) : Prop :=
  ∀ t fp op, PcapReach prog pkt t → prog[t.pc]? = some fp → fp.op = some (.alu op .x) →
    ShiftAgrees op t.a t.x

variable {a x : BitVec 32} {op : AluOp}

/-- By 32 or more everything is shifted out to the left, -/
theorem shiftValue_lsh_of_le (h : 32 ≤ x.toNat) : shiftValue .lsh a.toNat x.toNat = 0 := by
  show a.toNat * 2 ^ x.toNat % 2 ^ 32 = 0
  exact Nat.mod_eq_zero_of_dvd (Nat.dvd_mul_left_of_dvd (Nat.pow_dvd_pow 2 h) _)

/-- and to the right. -/
theorem shiftValue_rsh_of_le (h : 32 ≤ x.toNat) : shiftValue .rsh a.toNat x.toNat = 0 := by
  show a.toNat / 2 ^ x.toNat = 0
  exact Nat.div_eq_of_lt (Nat.lt_of_lt_of_le a.isLt (Nat.pow_le_pow_right (by decide) h))

/-- The shift with the amount taken modulo 32. -/
theorem eval_shift (hop : IsShift op) :
    (op.eval a x).toNat = shiftValue op a.toNat (x.toNat % 32) := by
  rcases hop with rfl | rfl
  · show (a <<< (x.toNat % 32)).toNat = _
    rw [BitVec.toNat_shiftLeft, Nat.shiftLeft_eq]
    rfl
  · show (a >>> (x.toNat % 32)).toNat = _
    rw [BitVec.toNat_ushiftRight, Nat.shiftRight_eq_div_pow]
    rfl

/-- libpcap shifts as numbers are shifted. -/
theorem pcapEval_shift (hop : IsShift op) :
    (pcapEval op a x).toNat = shiftValue op a.toNat x.toNat := by
  by_cases hx : x.toNat < 32
  · have hsmall := eval_shift (a := a) (x := x) hop
    rw [Nat.mod_eq_of_lt hx] at hsmall
    rw [← hsmall]
    rcases hop with rfl | rfl
    · show (if x.toNat < 32 then a <<< x.toNat else 0).toNat = (a <<< (x.toNat % 32)).toNat
      rw [if_pos hx, Nat.mod_eq_of_lt hx]
    · show (if x.toNat < 32 then a >>> x.toNat else 0).toNat = (a >>> (x.toNat % 32)).toNat
      rw [if_pos hx, Nat.mod_eq_of_lt hx]
  · rcases hop with rfl | rfl
    · rw [shiftValue_lsh_of_le (Nat.le_of_not_lt hx)]
      exact congrArg BitVec.toNat (if_neg hx)
    · rw [shiftValue_rsh_of_le (Nat.le_of_not_lt hx)]
      exact congrArg BitVec.toNat (if_neg hx)

/-- **One shift.** -/
theorem eval_eq_shiftValue_iff (hop : IsShift op) :
    (op.eval a x).toNat = shiftValue op a.toNat x.toNat ↔ ShiftAgrees op a x := by
  rw [eval_shift hop]
  by_cases hx : x.toNat < 32
  · rw [Nat.mod_eq_of_lt hx]
    rcases hop with rfl | rfl
    · exact iff_of_true rfl (Or.inl hx)
    · exact iff_of_true rfl (Or.inl hx)
  · have hm : x.toNat % 32 ≤ 32 := Nat.le_of_lt (Nat.mod_lt _ (by decide))
    rcases hop with rfl | rfl
    · rw [shiftValue_lsh_of_le (Nat.le_of_not_lt hx)]
      -- both sides say which power of two divides A
      have hpow : 2 ^ 32 = 2 ^ (32 - x.toNat % 32) * 2 ^ (x.toNat % 32) := by
        rw [← Nat.pow_add, Nat.sub_add_cancel hm]
      show a.toNat * 2 ^ (x.toNat % 32) % 2 ^ 32 = 0 ↔ _
      rw [← Nat.dvd_iff_mod_eq_zero, hpow, Nat.mul_dvd_mul_iff_right (Nat.two_pow_pos _)]
      exact (or_iff_right hx).symm
    · rw [shiftValue_rsh_of_le (Nat.le_of_not_lt hx)]
      show a.toNat / 2 ^ (x.toNat % 32) = 0 ↔ _
      rw [Nat.div_eq_zero_iff_lt (Nat.two_pow_pos _)]
      exact (or_iff_right hx).symm

/-- Where the shifts agree the operations do. -/
theorem pcapEval_eq_of_agrees (h : ShiftAgrees op a x) : pcapEval op a x = op.eval a x := by
  by_cases hop : IsShift op
  · apply BitVec.eq_of_toNat_eq
    rw [pcapEval_shift hop, (eval_eq_shiftValue_iff hop).mpr h]
  · cases op with
    | lsh => exact absurd (Or.inl rfl) hop
    | rsh => exact absurd (Or.inr rfl) hop
    | _ => rfl

/-! ## The emitted instruction -/

variable {prog : List SockFilter} {out : List BpfInsn} {pkt : List Byte} {fp : SockFilter}
  {i : Nat} {s : EbpfState} {t : CbpfState}

/-- What it does, for every content of the two registers. -/
theorem Accepted.shift_step (hacc : Accepted prog out) (hi : prog[i]? = some fp)
    (hop : fp.op = some (.alu op .x)) (hshift : IsShift op) (hpc : s.pc = addrOf prog i)
    (h : Helper) :
    ebpfStep out h s = .next (s.wr 0 (zext (op.eval (lo32 (s.regs 0)) (lo32 (s.regs 7))))) ∧
      addrOf prog (i + 1) = addrOf prog i + 1 := by
  have hguard : ¬ (op.divides ∧ Src.x = .x) := by
    rcases hshift with rfl | rfl
    · exact fun hdiv => absurd hdiv.1 (by decide)
    · exact fun hdiv => absurd hdiv.1 (by decide)
  obtain ⟨xs, hxs, hc⟩ := hacc.codeAt.2 hi
  have hlen := convertInsn_length hxs
  unfold convertInsn at hxs
  rw [hop] at hxs
  obtain rfl : convertAlu fp = xs := Option.some.inj hxs
  rw [convertAlu_eq hop, if_neg hguard, List.nil_append] at hc hlen
  have hfetch : fetch out s = some (.alu .w32 (eAluOp op) 0 (.reg 7)) :=
    CodeAt.fetch (hpc.symm ▸ hc) (decode_aluInsn op .x fp.k)
  constructor
  · rw [ebpfStep_of_fetch h hfetch, ← eAluOp_eval]
    rfl
  · rw [addrOf_succ hi, ← hlen]
    rfl

/-! ## Whole runs -/

/-- Where the shifts agree, libpcap's interpreter takes the same step. -/
theorem pcapStep_eq (hb : ShiftsBounded prog)
    (ht : ∀ fp op, prog[t.pc]? = some fp → fp.op = some (.alu op .x) → ShiftAgrees op t.a t.x) :
    cbpfStep prog pkt t = pcapStep prog pkt t := by
  unfold cbpfStep pcapStep
  cases hi : prog[t.pc]? with
  | none => rfl
  | some fp =>
    dsimp only
    cases hop : fp.op with
    | none => rfl
    | some op =>
      cases op with
      | alu op src =>
        cases src with
        | k =>
          -- a constant amount is below 32 in a valid program
          have hk : ShiftAgrees op t.a fp.k := by
            have hlt := hb fp (List.mem_of_getElem? hi)
            cases op with
            | lsh => exact Or.inl (hlt (Or.inl hop))
            | rsh => exact Or.inl (hlt (Or.inr hop))
            | _ => trivial
          simp only [cbpfExec, pcapExec, pcapEval_eq_of_agrees hk]
        | x => simp only [cbpfExec, pcapExec, pcapEval_eq_of_agrees (ht fp op hi hop)]
      | _ => rfl

/-- And where they agree in a whole run, the verdicts do. -/
theorem pcapReturns_iff {v : BitVec 32} (hb : ShiftsBounded prog) (h : ShiftsAgree prog pkt) :
    CbpfReturns prog pkt v ↔ PcapReturns prog pkt v := by
  have hiter : ∀ n, iter (cbpfStep prog pkt) n cbpfInit = iter (pcapStep prog pkt) n cbpfInit :=
    iter_congr fun t ht => pcapStep_eq hb fun fp op hi hop => h t fp op ht hi hop
  unfold CbpfReturns PcapReturns
  simp only [hiter]

/-- **Shifts by a register.** The instruction emitted for one leaves the shifted number in
the accumulator exactly if the amount is less than 32 or the bits of A that a shift modulo
32 keeps are zero anyway. A program whose shifts are all of this kind on a packet has the
verdict there that libpcap gives. -/
theorem register_shift_iff (hacc : Accepted prog out) :
    (∀ {i : Nat} {fp : SockFilter} {op : AluOp} {s : EbpfState}, prog[i]? = some fp →
      fp.op = some (.alu op .x) → IsShift op → s.pc = addrOf prog i → ∀ h : Helper,
      ∃ s', ebpfStep out h s = .next s' ∧ s'.pc = addrOf prog (i + 1) ∧
        ((s'.regs 0).toNat = shiftValue op (lo32 (s.regs 0)).toNat (lo32 (s.regs 7)).toNat ↔
          ShiftAgrees op (lo32 (s.regs 0)) (lo32 (s.regs 7)))) ∧
    ∀ {mem : BitVec 64 → Byte} {data dataEnd : BitVec 64} {s : EbpfState} {ω : Nat → Helper},
      CbpfValid prog → ShiftsAgree prog (packet mem data dataEnd) →
      (packet mem data dataEnd).length < 2 ^ 31 → EntryState data dataEnd s →
      (∀ i, HelperOk mem data dataEnd (ω i)) →
      (∀ r, (∃ n, run (ebpfStep out) n ω s = .done r) ↔
        ∃ v, PcapReturns prog (packet mem data dataEnd) v ∧ r = verdict v) ∧
      ∀ n, run (ebpfStep out) n ω s ≠ .fault := by
  constructor
  · intro i fp op s hi hop hshift hpc h
    obtain ⟨hstep, hnext⟩ := hacc.shift_step hi hop hshift hpc h
    refine ⟨_, hstep, ?_, ?_⟩
    · rw [hnext, ← hpc]
      rfl
    · rw [← eval_eq_shiftValue_iff hshift]
      show (zext _).toNat = _ ↔ _
      rw [zext_toNat]
  · intro mem data dataEnd s ω hv hagree hlen h₀ hω
    obtain ⟨hdone, hfault⟩ := convert_outcome hacc hv hlen h₀ hω
    refine ⟨fun r => (hdone r).trans ?_, hfault⟩
    simp only [pcapReturns_iff hv.shift hagree]

/-! ## A shift by a byte of the packet -/

/-- `ldb [0]; tax; ld #1; lsh x; ret a`. -/
def shiftByByte : List SockFilter :=
  [⟨0x30, 0, 0, 0⟩, ⟨0x07, 0, 0, 0⟩, ⟨0x00, 0, 0, 1⟩, ⟨0x6c, 0, 0, 0⟩, ⟨0x16, 0, 0, 0⟩]

/-- What it is converted to. -/
def shiftByByteCode : List BpfInsn :=
  prologue ++ emitPacketLoad 0x30 0 ++ [bpfMov64Reg bpfRegX bpfRegA, bpfMov32Imm bpfRegA 1] ++
    [aluInsn .lsh .x 0] ++ convertRetA

theorem shiftByByte_accepted : Accepted shiftByByte shiftByByteCode :=
  ⟨34, List.replicate 34 bpfZeroInsn, rfl, rfl, rfl⟩

theorem shiftByByte_valid : CbpfValid shiftByByte where
  scratch := by decide
  divisor := by
    intro fp hfp op hdiv hop
    have hops : ∀ fp ∈ shiftByByte, fp.op ≠ some (.alu .div .k) ∧ fp.op ≠ some (.alu .mod .k) := by
      decide
    cases op with
    | div => exact absurd hop (hops fp hfp).1
    | mod => exact absurd hop (hops fp hfp).2
    | _ => cases hdiv
  shift := by decide
  ret := ⟨_, rfl, Or.inl rfl⟩
  init := scratchInitialised_of_unused (by decide)

/-- What libpcap passes through on a packet of the byte 3: one shift, by 3. -/
theorem shiftByByte_agree : ShiftsAgree shiftByByte (packet (fun _ => 3) 1000 1001) := by
  have h₀ : pcapStep shiftByByte (packet (fun _ => 3) 1000 1001) cbpfInit =
      .next { cbpfInit with pc := 1, a := 3 } := rfl
  have h₁ : pcapStep shiftByByte (packet (fun _ => 3) 1000 1001)
      { cbpfInit with pc := 1, a := 3 } = .next { cbpfInit with pc := 2, a := 3, x := 3 } := rfl
  have h₂ : pcapStep shiftByByte (packet (fun _ => 3) 1000 1001)
      { cbpfInit with pc := 2, a := 3, x := 3 } =
        .next { cbpfInit with pc := 3, a := 1, x := 3 } := rfl
  have h₃ : pcapStep shiftByByte (packet (fun _ => 3) 1000 1001)
      { cbpfInit with pc := 3, a := 1, x := 3 } =
        .next { cbpfInit with pc := 4, a := 8, x := 3 } := rfl
  have h₄ : pcapStep shiftByByte (packet (fun _ => 3) 1000 1001)
      { cbpfInit with pc := 4, a := 8, x := 3 } = .done 8 := rfl
  intro t fp op ht hi hop
  rcases ht.head_cases fun _ _ => h₀ with rfl | ht
  · cases Option.some.inj hi
    cases hop
  rcases ht.head_cases fun _ _ => h₁ with rfl | ht
  · cases Option.some.inj hi
    cases hop
  rcases ht.head_cases fun _ _ => h₂ with rfl | ht
  · cases Option.some.inj hi
    cases hop
  rcases ht.head_cases fun _ _ => h₃ with rfl | ht
  · cases Option.some.inj hi
    cases hop
    exact Or.inl (by decide)
  · obtain rfl := ht.eq_of_final fun _ s' _ hnext => by cases h₄.symm.trans hnext
    cases Option.some.inj hi
    cases hop

/-- By 3, the emitted code shifts as libpcap does. -/
theorem register_shift_iff_byThree :
    (∃ n, run (ebpfStep shiftByByteCode) n (fun _ => Helper.copying (fun _ => 3) fun _ => 0xdead)
      (entryState 1000 1001 0x4000) = .done 1) ∧
    ∃ s', ebpfStep shiftByByteCode (Helper.copying (fun _ => 3) fun _ => 0xdead)
      { entryState 1000 1001 0x4000 with
        pc := 28, regs := fun r => if r = 0 then 1 else if r = 7 then 3 else 0 } = .next s' ∧
      (s'.regs 0).toNat = 8 := by
  have hmain := register_shift_iff shiftByByte_accepted
  constructor
  · exact ((hmain.2 shiftByByte_valid shiftByByte_agree (by decide)
      (entryState_entry 1000 1001 0x4000) fun _ => Helper.copying_ok _ _ _ _).1 1).mpr
      ⟨8, ⟨5, rfl⟩, rfl⟩
  · obtain ⟨s', hstep, -, hval⟩ := hmain.1 (i := 3)
      (s := { entryState 1000 1001 0x4000 with
        pc := 28, regs := fun r => if r = 0 then 1 else if r = 7 then 3 else 0 })
      rfl rfl (Or.inl rfl) rfl (Helper.copying (fun _ => 3) fun _ => 0xdead)
    exact ⟨s', hstep, hval.mpr (Or.inl (by decide))⟩

/-- With the byte 32 the instruction leaves 1 shifted by 0, and everything should have been
shifted out: libpcap rejects the packet, the emitted code accepts it. -/
theorem shiftByByte_differs :
    (∃ s s', run (ebpfStep shiftByByteCode) 26
        (fun _ => Helper.copying (fun _ => 32) fun _ => 0xdead) (entryState 1000 1001 0x4000) =
          .next s ∧
      s.pc = addrOf shiftByByte 3 ∧ s.regs 0 = 1 ∧ s.regs 7 = 32 ∧
      ebpfStep shiftByByteCode (Helper.copying (fun _ => 32) fun _ => 0xdead) s = .next s' ∧
      (s'.regs 0).toNat = 1 ∧ shiftValue .lsh 1 32 = 0) ∧
    PcapReturns shiftByByte (packet (fun _ => 32) 1000 1001) 0 ∧
    ∃ n, run (ebpfStep shiftByByteCode) n
      (fun _ => Helper.copying (fun _ => 32) fun _ => 0xdead) (entryState 1000 1001 0x4000) =
        .done 1 :=
  ⟨⟨_, _, rfl, rfl, rfl, rfl, rfl, rfl, rfl⟩, ⟨5, rfl⟩, ⟨40, rfl⟩⟩

end SkbTracer.Pcap2Bpf
