import SkbTracer.Pcap2Bpf.Layout

/-!
# What the sizing call accepts

`jumpsOf` lists the jumps between instructions in an expansion, whichever of the
shapes of `convertJmp` it takes: at most two, each with its place and target. An
expansion is built exactly if the opcode is a case of the switch and every such
jump passes `BPF_EMIT_JMP` (`convertInsn_isSome`), so a pass is a conjunction
over the instructions of the program.

In the sizing call there is no address table and every displacement is the
jump's own place, at most 2, so only the target checks remain
(`convertInsn_sizing`). A conditional jump is checked at one target only when
its other branch is the next instruction; that one is covered because no jump
goes backwards, and so both always are (`jmp_targets`). `sizing_ok_iff` collects
this: the call returns 0 exactly for `Acceptable` programs. `sizing_exact` adds what
it returns with, the number of instructions that the second call writes.

Programs that `bpf_validate` passes are acceptable unless they load the packet's
length, for which the switch has no case (`sizing_complete_iff`). `bpf_validate` is
libpcap's own check, and `libpcapCodes` are the opcodes that its code generator emits; both
stand here as what is known of libpcap, which is not part of the program. `FromLibpcap`
asks for one of these opcodes and for nothing about operands.

`icmp` is accepted and `greater 100` is not, the two ends of the statement.
-/

namespace SkbTracer.Pcap2Bpf

open SkbTracer.Bpf

/-! ## The jumps of an expansion -/

/-- The jumps between instructions in the expansion of instruction `i`: the place in
the expansion, and the target. -/
def jumpsOf (i : Nat) (fp : SockFilter) : List (Nat × Int) :=
  match fp.op with
  | some .ja => [(0, jaTarget i fp)]
  | some (.jmp _ _) =>
    let pos := (jmpPrefix fp).length
    let trueTarget : Int := i + fp.jt.toNat + 1
    let falseTarget : Int := i + fp.jf.toNat + 1
    if fp.jf = 0 then [(pos, trueTarget)]
    else if jmpInverted fp ≠ none then [(pos, falseTarget)]
    else [(pos, trueTarget), (pos + 1, falseTarget)]
  | _ => []

/-- The displacement `BPF_EMIT_JMP` computes. -/
def jmpOff (addrs : Option (List Nat)) (i pos : Nat) (target : Int) : Int :=
  (match addrs with
    | some a => (a.getD target.toNat 0 : Int) - (a.getD i 0 : Int) - 1
    | none => 0) - pos

/-- A displacement that fits into `insn->off`. -/
def Fits16 (off : Int) : Prop := -32768 ≤ off ∧ off ≤ 32767

instance (off : Int) : Decidable (Fits16 off) := inferInstanceAs (Decidable (_ ∧ _))

/-- A target that is an instruction of the program. -/
def TargetIn (len : Nat) (target : Int) : Prop := 0 ≤ target ∧ target < len

instance (len : Nat) (target : Int) : Decidable (TargetIn len target) :=
  inferInstanceAs (Decidable (_ ∧ _))

/-- `BPF_EMIT_JMP` does not go to `err` exactly if the target is in the program and the
displacement fits. -/
theorem emitJmp_isSome (insn : BpfInsn) {len i pos : Nat} {addrs : Option (List Nat)}
    {target : Int} : (∃ j, emitJmp len addrs i pos target insn = some j) ↔
      TargetIn len target ∧ Fits16 (jmpOff addrs i pos target) := by
  have heq : emitJmp len addrs i pos target insn =
      if target ≥ len ∨ target < 0 then none
      else if jmpOff addrs i pos target < -32768 ∨ jmpOff addrs i pos target > 32767 then none
      else some { insn with off := BitVec.ofInt 16 (jmpOff addrs i pos target) } := rfl
  rw [heq]
  unfold TargetIn Fits16
  by_cases ht : target ≥ len ∨ target < 0
  · rw [if_pos ht]
    refine iff_of_false ?_ (by omega)
    rintro ⟨j, hj⟩
    cases hj
  · rw [if_neg ht]
    by_cases hf : jmpOff addrs i pos target < -32768 ∨ jmpOff addrs i pos target > 32767
    · rw [if_pos hf]
      refine iff_of_false ?_ (by omega)
      rintro ⟨j, hj⟩
      cases hj
    · rw [if_neg hf]
      exact iff_of_true ⟨_, rfl⟩ (by omega)

/-- A conditional jump is built exactly if its jumps are taken. -/
theorem convertJmp_isSome {len i : Nat} {addrs : Option (List Nat)} {fp : SockFilter}
    {op : JmpOp} {src : Src} (hop : fp.op = some (.jmp op src)) :
    (∃ xs, convertJmp len addrs i fp = some xs) ↔
      ∀ p ∈ jumpsOf i fp, TargetIn len p.2 ∧ Fits16 (jmpOff addrs i p.1 p.2) := by
  unfold convertJmp jumpsOf
  simp only [hop]
  -- one jump if the false branch is next, one if the test is inverted, else two
  by_cases hjf : fp.jf = 0
  · simp only [if_pos hjf, Option.bind_eq_bind, List.mem_singleton, forall_eq]
    rw [← emitJmp_isSome (jmpInsn (bpfOp (fp.code.setWidth 8)) fp)]
    constructor
    · rintro ⟨xs, h⟩
      obtain ⟨j, hj, -⟩ := Option.bind_eq_some_iff.mp h
      exact ⟨j, hj⟩
    · rintro ⟨j, hj⟩
      exact ⟨_, Option.bind_eq_some_iff.mpr ⟨j, hj, rfl⟩⟩
  · simp only [if_neg hjf, Option.bind_eq_bind]
    rcases hinv : jmpInverted fp with _ | op'
    · simp only [ne_eq, not_true_eq_false, if_false, List.mem_cons, List.not_mem_nil, or_false,
        forall_eq_or_imp, forall_eq]
      rw [← emitJmp_isSome (jmpInsn (bpfOp (fp.code.setWidth 8)) fp),
        ← emitJmp_isSome (bpfRawInsn (bpfJmp ||| bpfJa) 0 0 0 0)]
      constructor
      · rintro ⟨xs, h⟩
        obtain ⟨j, hj, h⟩ := Option.bind_eq_some_iff.mp h
        obtain ⟨ja, hja, -⟩ := Option.bind_eq_some_iff.mp h
        exact ⟨⟨j, hj⟩, ja, hja⟩
      · rintro ⟨⟨j, hj⟩, ja, hja⟩
        exact ⟨_, Option.bind_eq_some_iff.mpr
          ⟨j, hj, Option.bind_eq_some_iff.mpr ⟨ja, hja, rfl⟩⟩⟩
    · simp only [ne_eq, reduceCtorEq, not_false_eq_true, if_true, List.mem_singleton, forall_eq]
      rw [← emitJmp_isSome (jmpInsn op' fp)]
      constructor
      · rintro ⟨xs, h⟩
        obtain ⟨j, hj, -⟩ := Option.bind_eq_some_iff.mp h
        exact ⟨j, hj⟩
      · rintro ⟨j, hj⟩
        exact ⟨_, Option.bind_eq_some_iff.mpr ⟨j, hj, rfl⟩⟩

/-- An unconditional jump is built exactly if its one jump is taken. -/
theorem convertJa_isSome {len i : Nat} {addrs : Option (List Nat)} {fp : SockFilter}
    (hop : fp.op = some .ja) :
    (∃ xs, convertJa len addrs i fp = some xs) ↔
      ∀ p ∈ jumpsOf i fp, TargetIn len p.2 ∧ Fits16 (jmpOff addrs i p.1 p.2) := by
  unfold convertJa jumpsOf
  simp only [hop, Option.bind_eq_bind, List.mem_singleton, forall_eq]
  rw [← emitJmp_isSome (bpfRawInsn (fp.code.setWidth 8) 0 0 0 0)]
  constructor
  · rintro ⟨xs, h⟩
    obtain ⟨j, hj, -⟩ := Option.bind_eq_some_iff.mp h
    exact ⟨j, hj⟩
  · rintro ⟨j, hj⟩
    exact ⟨_, Option.bind_eq_some_iff.mpr ⟨j, hj, rfl⟩⟩

/-- An expansion is built exactly if the opcode is known and its jumps are taken. -/
theorem convertInsn_isSome {len i : Nat} {addrs : Option (List Nat)} {fp : SockFilter} :
    (∃ xs, convertInsn len addrs i fp = some xs) ↔
      fp.op ≠ none ∧ ∀ p ∈ jumpsOf i fp,
        TargetIn len p.2 ∧ Fits16 (jmpOff addrs i p.1 p.2) := by
  rcases hop : fp.op with _ | op
  · simp [convertInsn, hop]
  · rw [and_iff_right (by simp)]
    cases op with
    | ja =>
      rw [← convertJa_isSome hop]
      simp only [convertInsn, hop]
    | jmp op src =>
      rw [← convertJmp_isSome hop]
      simp only [convertInsn, hop]
    | _ => simp [convertInsn, jumpsOf, hop]

/-! ## Targets -/

theorem jmpPrefix_length_le (fp : SockFilter) : (jmpPrefix fp).length ≤ 1 := by
  unfold jmpPrefix
  split
  next => exact Nat.le_refl 1
  next => exact Nat.zero_le 1

/-- Jumps stand among the first three instructions of an expansion. -/
theorem jumpsOf_pos {i : Nat} {fp : SockFilter} {p : Nat × Int} (hp : p ∈ jumpsOf i fp) :
    p.1 ≤ 2 := by
  have hpre := jmpPrefix_length_le fp
  unfold jumpsOf at hp
  split at hp
  next =>
    rw [List.mem_singleton.mp hp]
    exact Nat.zero_le 2
  next =>
    dsimp only at hp
    split at hp
    next =>
      rw [List.mem_singleton.mp hp]
      dsimp only
      omega
    next =>
      split at hp
      next =>
        rw [List.mem_singleton.mp hp]
        dsimp only
        omega
      next =>
        simp only [List.mem_cons, List.not_mem_nil, or_false] at hp
        rcases hp with rfl | rfl
        · dsimp only; omega
        · dsimp only; omega
  next => cases hp

/-- Both branches of a conditional jump are inside the program if the jumps of its
expansion are: the branch that gets no jump is the next instruction, and the other
one lies no nearer. -/
theorem jmp_targets {len i : Nat} {fp : SockFilter} {op : JmpOp} {src : Src}
    (hop : fp.op = some (.jmp op src)) :
    (∀ p ∈ jumpsOf i fp, TargetIn len p.2) ↔
      i + 1 + fp.jt.toNat < len ∧ i + 1 + fp.jf.toNat < len := by
  unfold jumpsOf TargetIn
  simp only [hop]
  by_cases hjf : fp.jf = 0
  · have h0 : fp.jf.toNat = 0 := by rw [hjf]; rfl
    simp only [if_pos hjf, List.mem_singleton, forall_eq]
    omega
  · simp only [if_neg hjf]
    rcases hinv : jmpInverted fp with _ | op'
    · simp only [ne_eq, not_true_eq_false, if_false, List.mem_cons, List.not_mem_nil, or_false,
        forall_eq_or_imp, forall_eq]
      omega
    · have h0 : fp.jt.toNat = 0 := by
        rw [(jmpInverted_eq_some hop hinv).1]
        rfl
      simp only [ne_eq, reduceCtorEq, not_false_eq_true, if_true, List.mem_singleton, forall_eq]
      omega

/-- The 32-bit target of an unconditional jump is the target, if that is inside the
program. -/
theorem ja_target {len i : Nat} {fp : SockFilter} (hop : fp.op = some .ja) (hi : i < len)
    (hlen : len ≤ bpfMaxInsns) :
    (∀ p ∈ jumpsOf i fp, TargetIn len p.2) ↔ TargetIn len (i + 1 + fp.k.toInt) := by
  have hmax : bpfMaxInsns = 4096 := rfl
  unfold jumpsOf TargetIn jaTarget
  simp only [hop, List.mem_singleton, forall_eq]
  have hk := fp.k.toInt_lt
  have hk' := fp.k.le_toInt
  have hi32 : (BitVec.ofNat 32 i).toInt = i := by
    have hmod : i % 2 ^ 32 = i := Nat.mod_eq_of_lt (by omega)
    rw [BitVec.toInt_eq_toNat_bmod, BitVec.toNat_ofNat, hmod,
      Int.bmod_eq_of_le (by omega) (by omega)]
  have h1 : (1 : BitVec 32).toInt = 1 := rfl
  rw [BitVec.toInt_add, BitVec.toInt_add, hi32, h1, Int.bmod_add_bmod]
  by_cases hin : (i : Int) + fp.k.toInt + 1 < 2 ^ 31
  · rw [Int.bmod_eq_of_le (by omega) (by omega)]
    omega
  · -- the sum passes 2 ^ 31 and comes out negative
    have hbmod : ((i : Int) + fp.k.toInt + 1).bmod (2 ^ 32) = i + fp.k.toInt + 1 - 2 ^ 32 := by
      rw [← Int.sub_bmod_right, Int.bmod_eq_of_le (by omega) (by omega)]
      rfl
    rw [hbmod]
    omega

/-! ## The sizing call -/

/-- Without a table every displacement fits. -/
theorem convertInsn_sizing {len i : Nat} {fp : SockFilter} :
    (∃ xs, convertInsn len none i fp = some xs) ↔
      fp.op ≠ none ∧ ∀ p ∈ jumpsOf i fp, TargetIn len p.2 := by
  rw [convertInsn_isSome]
  apply and_congr_right
  intro _
  constructor
  · intro h p hp
    exact (h p hp).1
  · intro h p hp
    have hpos := jumpsOf_pos hp
    refine ⟨h p hp, ?_⟩
    unfold Fits16 jmpOff
    dsimp only
    omega

/-- The sizing loop gets through exactly if every instruction does. -/
theorem convertLoop_sizing_iff {len : Nat} {rest : List SockFilter} :
    ∀ {i pos : Nat}, (∃ st, convertLoop len i rest { pos := pos, dest := none } = .ok st) ↔
      ∀ j fp, rest[j]? = some fp → ∃ xs, convertInsn len none (i + j) fp = some xs := by
  induction rest with
  | nil =>
    intro i pos
    exact iff_of_true ⟨_, rfl⟩ (by simp)
  | cons fp rest ih =>
    intro i pos
    simp only [convertLoop, PassState.record, Option.map_none]
    rcases hxs : convertInsn len none i fp with _ | xs
    · refine iff_of_false (by simp) fun h => ?_
      obtain ⟨xs, h⟩ := h 0 fp rfl
      rw [Nat.add_zero, hxs] at h
      cases h
    · simp only [PassState.append, bind, Except.bind]
      rw [ih]
      constructor
      · intro h j g hj
        cases j with
        | zero =>
          obtain rfl : fp = g := by simpa using hj
          exact ⟨xs, hxs⟩
        | succ j =>
          rw [show i + (j + 1) = i + 1 + j from by omega]
          exact h j g (by simpa using hj)
      · intro h j g hj
        rw [show i + 1 + j = i + (j + 1) from by omega]
        exact h (j + 1) g (by simpa using hj)

/-- What the sizing call asks of a program. -/
structure Acceptable (prog : List SockFilter) : Prop where
  pos : 1 ≤ prog.length
  le : prog.length ≤ bpfMaxInsns
  known : ∀ fp ∈ prog, fp.op ≠ none
  ja : ∀ (i : Nat) fp, prog[i]? = some fp → fp.op = some .ja →
    0 ≤ (i : Int) + 1 + fp.k.toInt ∧ (i : Int) + 1 + fp.k.toInt < prog.length
  jmp : ∀ (i : Nat) fp op src, prog[i]? = some fp → fp.op = some (.jmp op src) →
    i + 1 + fp.jt.toNat < prog.length ∧ i + 1 + fp.jf.toNat < prog.length

/-- Acceptable programs, by the jumps of their expansions. -/
theorem acceptable_iff {prog : List SockFilter} :
    Acceptable prog ↔ ¬(prog.length = 0 ∨ prog.length > bpfMaxInsns) ∧
      ∀ (i : Nat) fp, prog[i]? = some fp →
        fp.op ≠ none ∧ ∀ p ∈ jumpsOf i fp, TargetIn prog.length p.2 := by
  constructor
  · intro h
    have hpos := h.pos
    have hle := h.le
    refine ⟨by omega, fun i fp hfp => ?_⟩
    obtain ⟨hi, -⟩ := List.getElem?_eq_some_iff.mp hfp
    have hknown := h.known fp (List.mem_of_getElem? hfp)
    refine ⟨hknown, ?_⟩
    rcases hop : fp.op with _ | op
    · exact absurd hop hknown
    · cases op with
      | ja => exact (ja_target hop hi h.le).mpr (h.ja i fp hfp hop)
      | jmp op src => exact (jmp_targets hop).mpr (h.jmp i fp op src hfp hop)
      | _ =>
        -- no other opcode jumps out of its own expansion
        intro p hp
        simp [jumpsOf, hop] at hp
  · rintro ⟨hlen, h⟩
    refine ⟨by omega, by omega, ?_, ?_, ?_⟩
    · intro fp hfp
      obtain ⟨i, hi⟩ := List.mem_iff_getElem?.mp hfp
      exact (h i fp hi).1
    · intro i fp hfp hop
      obtain ⟨hi, -⟩ := List.getElem?_eq_some_iff.mp hfp
      exact (ja_target hop hi (by omega)).mp (h i fp hfp).2
    · intro i fp op src hfp hop
      exact (jmp_targets hop).mp (h i fp hfp).2

/-- The jumps of an acceptable program lead into it. -/
theorem Acceptable.jumps {prog : List SockFilter} (h : Acceptable prog) {i : Nat}
    {fp : SockFilter} (hfp : prog[i]? = some fp) {p : Nat × Int} (hp : p ∈ jumpsOf i fp) :
    TargetIn prog.length p.2 := ((acceptable_iff.mp h).2 i fp hfp).2 p hp

/-- The sizing call returns 0 exactly for acceptable programs. -/
theorem sizing_ok_iff {alloc : Bool} {prog : List SockFilter} {newLen : Nat} :
    (∃ n, bpfConvertFilter alloc prog none newLen = .ok (none, n)) ↔ Acceptable prog := by
  have hloop : (∃ n, bpfConvertFilter alloc prog none newLen = .ok (none, n)) ↔
      ¬(prog.length = 0 ∨ prog.length > bpfMaxInsns) ∧
        ∃ st, convertLoop prog.length 0 prog { pos := 0 + prologue.length, dest := none } =
          .ok st := by
    unfold bpfConvertFilter
    by_cases hlen : prog.length = 0 ∨ prog.length > bpfMaxInsns
    · rw [if_pos hlen]
      exact iff_of_false (by simp) fun h => h.1 hlen
    · rw [if_neg hlen, and_iff_right hlen]
      simp only [convertPass, PassState.append, bind, Except.bind]
      rcases convertLoop prog.length 0 prog { pos := 0 + prologue.length, dest := none } with e | st
      · exact iff_of_false (by simp) (by simp)
      · exact iff_of_true ⟨_, rfl⟩ ⟨_, rfl⟩
  rw [hloop, convertLoop_sizing_iff, acceptable_iff]
  simp only [Nat.zero_add, convertInsn_sizing]

/-- **What the sizing call accepts, and what it returns.** It returns 0 exactly for a
program of at most `BPF_MAXINSNS` instructions, and at least one, whose opcodes are
all cases of the switch and whose jumps, conditional ones with both branches, stay
inside the program. The length it returns is the prologue's and all expansions'. -/
theorem sizing_exact (alloc : Bool) (prog : List SockFilter) (newLen : Nat) :
    ((∃ n, bpfConvertFilter alloc prog none newLen = .ok (none, n)) ↔ Acceptable prog) ∧
      ∀ r n, bpfConvertFilter alloc prog none newLen = .ok (r, n) →
        n = 5 + (prog.mapIdx fun i fp =>
          ((convertInsn prog.length none i fp).getD []).length).sum := by
  refine ⟨sizing_ok_iff, fun r n h => ?_⟩
  obtain rfl := bpfConvertFilter_sizing_none h
  have hacc := sizing_ok_iff.mp ⟨n, h⟩
  have hsizes : (prog.mapIdx fun i fp => ((convertInsn prog.length none i fp).getD []).length) =
      prog.map convertSize := by
    apply List.ext_getElem?
    intro i
    rw [List.getElem?_mapIdx, List.getElem?_map]
    rcases hfp : prog[i]? with _ | fp
    · rfl
    · obtain ⟨xs, hxs⟩ : ∃ xs, convertInsn prog.length none i fp = some xs :=
        convertInsn_sizing.mpr
          ⟨hacc.known fp (List.mem_of_getElem? hfp), fun p hp => hacc.jumps hfp hp⟩
      rw [Option.map_some, Option.map_some, hxs, Option.getD_some, convertInsn_length hxs]
  rw [bpfConvertFilter_sizing h, hsizes, addrOf, List.take_length]
  rfl

/-! ## What libpcap generates -/

/-- `BPF_LEN`, the mode of a load of the packet's length. -/
def bpfLen : BitVec 8 := 0x80

/-- The opcodes of libpcap's code generator. -/
def libpcapCodes : List (BitVec 8) :=
  ([bpfAbs, bpfInd].flatMap fun mode => [bpfW, bpfH, bpfB].map (bpfLd ||| mode ||| ·)) ++
  [bpfImm, bpfMem, bpfLen].map (bpfLd ||| bpfW ||| ·) ++
  [bpfImm, bpfMem, bpfLen].map (bpfLdx ||| bpfW ||| ·) ++
  [bpfLdx ||| bpfMsh ||| bpfB, bpfSt, bpfStx] ++
  ([bpfAdd, bpfSub, bpfMul, bpfDiv, bpfMod, bpfOr, bpfAnd, bpfXor, bpfLsh, bpfRsh].flatMap
    fun op => [bpfK, bpfX].map (bpfAlu ||| op ||| ·)) ++
  [bpfAlu ||| bpfNeg, bpfJmp ||| bpfJa] ++
  ([bpfJeq, bpfJgt, bpfJge, bpfJset].flatMap fun op => [bpfK, bpfX].map (bpfJmp ||| op ||| ·)) ++
  [bpfRet ||| bpfK, bpfRet ||| bpfA, bpfMisc ||| bpfTax, bpfMisc ||| bpfTxa]

/-- The opcode is one of the code generator's. -/
def FromLibpcap (fp : SockFilter) : Prop := ∃ code ∈ libpcapCodes, fp.code = code.setWidth 16

/-- A load of the packet's length, into A or X. -/
def LoadsLen (fp : SockFilter) : Prop :=
  fp.code = (bpfLd ||| bpfW ||| bpfLen).setWidth 16 ∨
    fp.code = (bpfLdx ||| bpfW ||| bpfLen).setWidth 16

instance (fp : SockFilter) : Decidable (LoadsLen fp) := inferInstanceAs (Decidable (_ ∨ _))

/-- What `bpf_validate` checks of instruction `i` of `len`. -/
def validateInsn (len i : Nat) (p : SockFilter) : Bool :=
  let code : BitVec 8 := p.code.setWidth 8
  let start : BitVec 32 := BitVec.ofNat 32 (i + 1)
  if bpfClass code = bpfLd ∨ bpfClass code = bpfLdx then
    if bpfMode code = bpfMem then decide (p.k.toNat < bpfMemWords)
    else decide (bpfMode code ∈ [bpfImm, bpfAbs, bpfInd, bpfMsh, bpfLen])
  else if bpfClass code = bpfSt ∨ bpfClass code = bpfStx then decide (p.k.toNat < bpfMemWords)
  else if bpfClass code = bpfAlu then
    if bpfOp code = bpfDiv ∨ bpfOp code = bpfMod then decide (¬(bpfSrc code = bpfK ∧ p.k = 0))
    else decide (bpfOp code ∈
      [bpfAdd, bpfSub, bpfMul, bpfOr, bpfAnd, bpfXor, bpfLsh, bpfRsh, bpfNeg])
  else if bpfClass code = bpfJmp then
    if bpfOp code = bpfJa then decide ((start + p.k).toNat < len)
    else decide (bpfOp code ∈ [bpfJeq, bpfJgt, bpfJge, bpfJset] ∧
      (start + p.jt.setWidth 32).toNat < len ∧ (start + p.jf.setWidth 32).toNat < len)
  else true

/-- `bpf_validate`: libpcap's check of a classic program. -/
def bpfValidate (prog : List SockFilter) : Bool :=
  decide (prog ≠ []) && (prog.mapIdx (validateInsn prog.length)).all id &&
    prog.getLast?.all fun p => bpfClass (p.code.setWidth 8) = bpfRet

/-- libpcap's opcodes are cases of the switch, and the two loads of the length. -/
theorem libpcapCodes_eq : libpcapCodes =
    [CbpfOp.ldAbs .w, .ldAbs .h, .ldAbs .b, .ldInd .w, .ldInd .h, .ldInd .b, .ldImm,
      .ldMem].map CbpfOp.code ++ [bpfLd ||| bpfW ||| bpfLen] ++
    [CbpfOp.ldxImm, .ldxMem].map CbpfOp.code ++ [bpfLdx ||| bpfW ||| bpfLen] ++
    [CbpfOp.ldxMsh, .st, .stx, .alu .add .k, .alu .add .x, .alu .sub .k, .alu .sub .x,
      .alu .mul .k, .alu .mul .x, .alu .div .k, .alu .div .x, .alu .mod .k, .alu .mod .x,
      .alu .or .k, .alu .or .x, .alu .and .k, .alu .and .x, .alu .xor .k, .alu .xor .x,
      .alu .lsh .k, .alu .lsh .x, .alu .rsh .k, .alu .rsh .x, .neg, .ja,
      .jmp .jeq .k, .jmp .jeq .x, .jmp .jgt .k, .jmp .jgt .x, .jmp .jge .k, .jmp .jge .x,
      .jmp .jset .k, .jmp .jset .x, .retK, .retA, .tax, .txa].map CbpfOp.code := rfl

/-- A load of the length is no case of the switch. -/
theorem loadsLen_unknown {fp : SockFilter} (h : LoadsLen fp) : fp.op = none := by
  unfold SockFilter.op
  rcases h with h | h
  · rw [h]
    rfl
  · rw [h]
    rfl

/-- The switch has a case for every opcode of libpcap's but the two loads of the
length. -/
theorem fromLibpcap_known {fp : SockFilter} (h : FromLibpcap fp) :
    fp.op ≠ none ↔ ¬ LoadsLen fp := by
  refine ⟨fun hknown hlen => hknown (loadsLen_unknown hlen), fun hlen => ?_⟩
  obtain ⟨code, hcode, hfp⟩ := h
  have hcase : ∀ op : CbpfOp, op.code = code → fp.op ≠ none := by
    intro op hop
    rw [SockFilter.op, hfp, ← hop, CbpfOp.ofCode_code]
    simp
  rw [libpcapCodes_eq] at hcode
  simp only [List.mem_append, List.mem_map, List.mem_singleton] at hcode
  rcases hcode with (((⟨op, -, hop⟩ | rfl) | ⟨op, -, hop⟩) | rfl) | ⟨op, -, hop⟩
  · exact hcase op hop
  · exact absurd (Or.inl hfp) hlen
  · exact hcase op hop
  · exact absurd (Or.inr hfp) hlen
  · exact hcase op hop

/-- Every instruction of a program that `bpf_validate` passes is passed. -/
theorem bpfValidate_insn {prog : List SockFilter} (h : bpfValidate prog = true) {i : Nat}
    {fp : SockFilter} (hfp : prog[i]? = some fp) : validateInsn prog.length i fp = true := by
  unfold bpfValidate at h
  rw [Bool.and_eq_true, Bool.and_eq_true, List.all_eq_true] at h
  apply h.1.2
  apply List.mem_of_getElem? (i := i)
  rw [List.getElem?_mapIdx, hfp]
  rfl

/-- For an unconditional jump this is the check of its target, -/
theorem validate_ja {len i : Nat} {fp : SockFilter} (hop : fp.op = some .ja)
    (h : validateInsn len i fp = true) (hi : i < len) (hlen : len ≤ bpfMaxInsns) :
    TargetIn len (i + 1 + fp.k.toInt) := by
  have hmax : bpfMaxInsns = 4096 := rfl
  have hval : validateInsn len i fp = decide ((BitVec.ofNat 32 (i + 1) + fp.k).toNat < len) := by
    simp only [validateInsn, SockFilter.code_of_op hop]
    rfl
  rw [hval] at h
  have hlt := of_decide_eq_true h
  apply (ja_target hop hi hlen).mp
  unfold jumpsOf
  simp only [hop, List.mem_singleton, forall_eq]
  have htarget : BitVec.ofNat 32 i + fp.k + 1 = BitVec.ofNat 32 (i + 1) + fp.k := by
    rw [BitVec.ofNat_add, BitVec.add_assoc, BitVec.add_assoc, BitVec.add_comm fp.k]
    rfl
  unfold TargetIn jaTarget
  rw [htarget, BitVec.toInt_eq_toNat_of_lt (by omega)]
  omega

/-- for a conditional one that of both branches. -/
theorem validate_jmp {len i : Nat} {fp : SockFilter} {op : JmpOp} {src : Src}
    (hop : fp.op = some (.jmp op src)) (h : validateInsn len i fp = true) (hi : i < len)
    (hlen : len ≤ bpfMaxInsns) : i + 1 + fp.jt.toNat < len ∧ i + 1 + fp.jf.toNat < len := by
  have hmax : bpfMaxInsns = 4096 := rfl
  have hval : (BitVec.ofNat 32 (i + 1) + fp.jt.setWidth 32).toNat < len ∧
      (BitVec.ofNat 32 (i + 1) + fp.jf.setWidth 32).toNat < len := by
    simp only [validateInsn, SockFilter.code_of_op hop] at h
    cases op <;> cases src <;> exact (of_decide_eq_true h).2
  have hadd : ∀ b : BitVec 8,
      (BitVec.ofNat 32 (i + 1) + b.setWidth 32).toNat = i + 1 + b.toNat := by
    intro b
    have hb : b.toNat < 256 := b.isLt
    rw [BitVec.toNat_add, BitVec.toNat_ofNat, BitVec.toNat_setWidth]
    omega
  rwa [hadd, hadd] at hval

/-- **The compiler takes libpcap's whole language but the loads of the length.** For
every program of at most `BPF_MAXINSNS` instructions with libpcap's opcodes that
`bpf_validate` passes, the sizing call returns 0 if and only if no instruction loads
the packet's length. -/
theorem sizing_complete_iff (alloc : Bool) {prog : List SockFilter} (newLen : Nat)
    (hlen : prog.length ≤ bpfMaxInsns) (hcodes : ∀ fp ∈ prog, FromLibpcap fp)
    (hval : bpfValidate prog = true) :
    (∃ n, bpfConvertFilter alloc prog none newLen = .ok (none, n)) ↔
      ∀ fp ∈ prog, ¬ LoadsLen fp := by
  rw [sizing_ok_iff]
  constructor
  · intro h fp hfp
    exact (fromLibpcap_known (hcodes fp hfp)).mp (h.known fp hfp)
  · intro h
    refine ⟨?_, hlen, fun fp hfp => (fromLibpcap_known (hcodes fp hfp)).mpr (h fp hfp), ?_, ?_⟩
    · rcases prog with _ | ⟨fp, rest⟩
      · exact absurd hval (by decide)
      · exact Nat.succ_le_succ (Nat.zero_le _)
    · intro i fp hfp hop
      obtain ⟨hi, -⟩ := List.getElem?_eq_some_iff.mp hfp
      exact validate_ja hop (bpfValidate_insn hval hfp) hi hlen
    · intro i fp op src hfp hop
      obtain ⟨hi, -⟩ := List.getElem?_eq_some_iff.mp hfp
      exact validate_jmp hop (bpfValidate_insn hval hfp) hi hlen

theorem sizing_complete_iff_icmp :
    ∃ n, bpfConvertFilter true icmpProgram none 0 = .ok (none, n) := by
  have hcodes : ∀ fp ∈ icmpProgram, FromLibpcap fp := by
    simp only [icmpProgram, List.forall_mem_cons]
    exact ⟨⟨0x28, List.mem_of_getElem? (i := 1) rfl, rfl⟩,
      ⟨0x15, List.mem_of_getElem? (i := 37) rfl, rfl⟩,
      ⟨0x30, List.mem_of_getElem? (i := 2) rfl, rfl⟩,
      ⟨0x15, List.mem_of_getElem? (i := 37) rfl, rfl⟩,
      ⟨0x06, List.mem_of_getElem? (i := 45) rfl, rfl⟩,
      ⟨0x06, List.mem_of_getElem? (i := 45) rfl, rfl⟩, by simp⟩
  exact (sizing_complete_iff true 0 (by decide) hcodes (by decide)).mpr (by decide)

/-- `greater 100` as libpcap compiles it: it loads the length. -/
def greaterProgram : List SockFilter :=
  [⟨0x80, 0, 0, 0⟩, ⟨0x35, 0, 1, 100⟩, ⟨0x06, 0, 0, 262144⟩, ⟨0x06, 0, 0, 0⟩]

/-- The program of `greater 100` is one that libpcap generates and `bpf_validate`
passes, and it is refused. -/
theorem greater_refused : (∀ fp ∈ greaterProgram, FromLibpcap fp) ∧
    bpfValidate greaterProgram = true ∧ greaterProgram.length ≤ bpfMaxInsns ∧
    bpfConvertFilter true greaterProgram none 0 = .error .einval := by
  refine ⟨?_, by decide, by decide, rfl⟩
  simp only [greaterProgram, List.forall_mem_cons]
  exact ⟨⟨0x80, List.mem_of_getElem? (i := 8) rfl, rfl⟩,
    ⟨0x35, List.mem_of_getElem? (i := 41) rfl, rfl⟩,
    ⟨0x06, List.mem_of_getElem? (i := 45) rfl, rfl⟩,
    ⟨0x06, List.mem_of_getElem? (i := 45) rfl, rfl⟩, by simp⟩

end SkbTracer.Pcap2Bpf
