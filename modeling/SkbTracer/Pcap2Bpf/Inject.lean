import SkbTracer.Bpf.Insn
import SkbTracer.Lib.Splice

/-!
# `inject_ebpf_filter`

The function that puts a filter in the place of a range of a loaded program. It
copies the instructions before and behind the range and corrects the
displacement of the subprogram calls among them. Indices are `size_t`, so sums
and comparisons wrap at 64 bits; displacements are 32-bit signed numbers that are
sign-extended before they are added to an index.

Array accesses are checked here and an access outside an array is a fault, since
the C++ code does not check them. `inject_spliced` says that for a range inside
the program there is none, and that the new program is the old one with the range
replaced; `call_moved` is what happens to a call: it keeps its target, unless the
target is index 0 or the index behind the start of the range, the two values the
unsigned comparisons do not see as they are.

The two loops of the source are one definition, `copyLoop`, with the correction as a
parameter: `copyBefore` for the instructions in front of the range, `copyAfter` for those
behind it, which differ in the comparison and in the sign of the correction. `copyLoop_ok`
is the lemma about both, and `newInsns_ok` their use.

The statement is in terms of `Lib.Splice`, so that a second injection can be described on
top of the first. For which programs all calls come out right is the matter of
`Pcap2Bpf.Retarget`.
-/

namespace SkbTracer.Pcap2Bpf

open SkbTracer.Bpf
open SkbTracer.Lib (Edit Kept Spliced newPos shift)

/-- What the C++ code cannot do safely. -/
inductive InjectFault where
  /-- An access outside an instruction array. -/
  | outOfRange
  /-- A vector longer than `max_size()`. -/
  | lengthError
  deriving DecidableEq, Repr

/-- `EINVAL`. -/
def einval : Int := 22

/-- `insn_is_subprog_call`. -/
def insnIsSubprogCall (insn : BpfInsn) : Bool :=
  bpfClass insn.code == bpfJmp && bpfOp insn.code == bpfCall && bpfSrc insn.code == bpfK &&
    insn.srcReg == bpfPseudoCall && insn.dstReg == 0 && insn.off == 0

/-- `i + insn.imm`, a `size_t`. -/
def callSum (i : Nat) (insn : BpfInsn) : BitVec 64 := BitVec.ofNat 64 i + insn.imm.signExtend 64

/-- `insn.imm += d`. -/
def addImm (insn : BpfInsn) (d : BitVec 64) : BpfInsn :=
  { insn with imm := (insn.imm.signExtend 64 + d).setWidth 32 }

/-- The copy of instruction `i` before the range, "updating forward calls". -/
def copyBefore (position delta : BitVec 64) (i : Nat) (insn : BpfInsn) : BpfInsn :=
  if insnIsSubprogCall insn ∧ position < callSum i insn then addImm insn delta else insn

/-- The copy of instruction `i` behind the range, "updating backward calls". -/
def copyAfter (position delta : BitVec 64) (i : Nat) (insn : BpfInsn) : BpfInsn :=
  if insnIsSubprogCall insn ∧ callSum i insn < position then addImm insn (-delta) else insn

/-- An element of a vector of instructions, if it has one there. -/
def readInsn (l : List BpfInsn) (i : Nat) : Except InjectFault BpfInsn :=
  match l[i]? with
  | some insn => .ok insn
  | none => .error .outOfRange

/-- A write to an element. -/
def writeInsn (l : List BpfInsn) (i : Nat) (insn : BpfInsn) :
    Except InjectFault (List BpfInsn) :=
  if i < l.length then .ok (l.set i insn) else .error .outOfRange

/-- A loop that copies `src[i]`, changed by `f`, to `new[dst(i)]`; `n` more
rounds, the next one for `i`. -/
def copyLoop (src : List BpfInsn) (dst : Nat → Nat) (f : Nat → BpfInsn → BpfInsn) :
    Nat → Nat → List BpfInsn → Except InjectFault (List BpfInsn)
  | 0, _, new => .ok new
  | n + 1, i, new => do
    let insn ← readInsn src i
    let new ← writeInsn new (dst i) (f i insn)
    copyLoop src dst f n (i + 1) new

/-- `std::vector<bpf_insn>::max_size()`. -/
def maxInsns : Nat := (2 ^ 63 - 1) / 8

/-- `new_insns`, filled. -/
def newInsns (prog : List BpfInsn) (position origLen : BitVec 64) (insns : List BpfInsn) :
    Except InjectFault (List BpfInsn) := do
  let oldLen := BitVec.ofNat 64 prog.length
  let size := BitVec.ofNat 64 insns.length
  let newLen := oldLen - origLen + size
  if maxInsns < newLen.toNat then .error .lengthError
  else
    let new := List.replicate newLen.toNat bpfZeroInsn
    let delta := size - origLen
    -- 1. before position
    let new ← copyLoop prog id (copyBefore position delta) position.toNat 0 new
    -- 2. the filter
    let new ← copyLoop insns (fun k => position.toNat + k) (fun _ insn => insn) insns.length 0 new
    -- 3. from position + orig_len on
    let start := (position + origLen).toNat
    copyLoop prog (fun i => (BitVec.ofNat 64 i - origLen + size).toNat)
      (copyAfter position delta) (prog.length - start) start new

/-- `inject_ebpf_filter(prog, position, orig_len, insns)`: its result and the
instructions `prog` has afterwards. `setRet` is what `bpf_program__set_insns`
returns; it takes the new instructions if that is 0. -/
def injectEbpfFilter (setRet : Int) (prog : List BpfInsn) (position origLen : BitVec 64)
    (insns : List BpfInsn) : Except InjectFault (Int × List BpfInsn) :=
  if BitVec.ofNat 64 prog.length < position + origLen then .ok (-einval, prog)
  else do
    let new ← newInsns prog position origLen insns
    .ok (setRet, if setRet = 0 then new else prog)

/-! ## Copying -/

/-- A copy to consecutive places inside the new array. -/
theorem copyLoop_ok (src new : List BpfInsn) (dst : Nat → Nat) (f : Nat → BpfInsn → BpfInsn)
    (n i base : Nat) (hsrc : i + n ≤ src.length) (hnew : base + n ≤ new.length)
    (hdst : ∀ k, k < n → dst (i + k) = base + k) :
    ∃ out, copyLoop src dst f n i new = .ok out ∧ out.length = new.length ∧
      (∀ k, k < n → out[base + k]? = src[i + k]?.map (f (i + k))) ∧
      ∀ q, q < base ∨ base + n ≤ q → out[q]? = new[q]? := by
  induction n generalizing i base new with
  | zero =>
    exact ⟨new, rfl, rfl, fun k hk => absurd hk (Nat.not_lt_zero k), fun q _ => rfl⟩
  | succ n ih =>
    have hi : i < src.length := by omega
    have h0 : dst i = base := hdst 0 (by omega)
    have hset : base + 1 + n ≤ (new.set base (f i src[i])).length := by
      rw [List.length_set]
      omega
    -- the first instruction stands at `base`; the rest of the loop does not touch it
    obtain ⟨out, hrun, hlen, hin, hout⟩ := ih _ (i + 1) (base + 1) (by omega) hset
      fun k hk => by
        have := hdst (k + 1) (by omega)
        rw [show i + 1 + k = i + (k + 1) by omega, this]
        omega
    refine ⟨out, ?_, by rw [hlen, List.length_set], fun k hk => ?_, fun q hq => ?_⟩
    · simp only [copyLoop, readInsn, List.getElem?_eq_getElem hi, writeInsn, h0,
        if_pos (show base < new.length by omega), bind, Except.bind]
      exact hrun
    · cases k with
      | zero =>
        rw [Nat.add_zero, Nat.add_zero, hout base (Or.inl (by omega)),
          List.getElem?_set_self (by omega), List.getElem?_eq_getElem hi]
        rfl
      | succ k =>
        have := hin k (by omega)
        rwa [show base + 1 + k = base + (k + 1) by omega,
          show i + 1 + k = i + (k + 1) by omega] at this
    · rw [hout q (by omega), List.getElem?_set_ne (by omega)]

theorem toNat_index {a b c : Nat} (hb : b ≤ a) (h : a + c < 2 ^ 63) :
    (BitVec.ofNat 64 a - BitVec.ofNat 64 b + BitVec.ofNat 64 c).toNat = a - b + c := by
  simp only [BitVec.toNat_add, BitVec.toNat_sub, BitVec.toNat_ofNat]
  omega

variable {prog insns : List BpfInsn} {pos w : Nat}

/-- What becomes of the instruction at `q` outside the range. -/
def Copied (pos w : Nat) (insns : List BpfInsn) (q : Nat) (y z : BpfInsn) : Prop :=
  let delta := BitVec.ofNat 64 insns.length - BitVec.ofNat 64 w
  z = if q < pos then copyBefore (BitVec.ofNat 64 pos) delta q y
    else copyAfter (BitVec.ofNat 64 pos) delta q y

/-- The two loops, for a range inside the program: no access leaves an array, and what
stands where. -/
theorem newInsns_ok (hrange : pos + w ≤ prog.length)
    (hlen : prog.length + insns.length < 2 ^ 63)
    (hmax : prog.length - w + insns.length ≤ maxInsns) :
    ∃ new, newInsns prog (BitVec.ofNat 64 pos) (BitVec.ofNat 64 w) insns = .ok new ∧
      new.length = prog.length - w + insns.length ∧
      (∀ k, k < pos → new[k]? = prog[k]?.map (copyBefore (BitVec.ofNat 64 pos)
        (BitVec.ofNat 64 insns.length - BitVec.ofNat 64 w) k)) ∧
      (∀ k, k < insns.length → new[pos + k]? = insns[k]?) ∧
      ∀ k, pos + w ≤ k → k < prog.length → new[k - w + insns.length]? =
        prog[k]?.map (copyAfter (BitVec.ofNat 64 pos)
          (BitVec.ofNat 64 insns.length - BitVec.ofNat 64 w) k) := by
  have hpos : (BitVec.ofNat 64 pos).toNat = pos := by
    rw [BitVec.toNat_ofNat]
    omega
  have hstart : (BitVec.ofNat 64 pos + BitVec.ofNat 64 w).toNat = pos + w := by
    rw [BitVec.toNat_add, BitVec.toNat_ofNat, BitVec.toNat_ofNat]
    omega
  -- none of the index computations wraps
  have hnew := toNat_index (show w ≤ prog.length by omega) hlen
  unfold newInsns
  simp only [hpos, hstart, hnew]
  rw [if_neg (Nat.not_lt.mpr hmax)]
  -- 1. before position
  have hl₀ := List.length_replicate (n := prog.length - w + insns.length) (a := bpfZeroInsn)
  generalize List.replicate (prog.length - w + insns.length) bpfZeroInsn = new₀ at hl₀
  obtain ⟨new₁, h₁, hl₁, hin₁, -⟩ := copyLoop_ok prog new₀ id
    (copyBefore (BitVec.ofNat 64 pos) (BitVec.ofNat 64 insns.length - BitVec.ofNat 64 w))
    pos 0 0 (by omega) (by omega) fun k _ => rfl
  -- 2. the filter
  obtain ⟨new₂, h₂, hl₂, hin₂, hout₂⟩ := copyLoop_ok insns new₁ (fun k => pos + k)
    (fun _ insn => insn) insns.length 0 pos (by omega) (by omega) fun k _ => by rw [Nat.zero_add]
  -- 3. from position + orig_len on
  obtain ⟨new₃, h₃, hl₃, hin₃, hout₃⟩ := copyLoop_ok prog new₂
    (fun i => (BitVec.ofNat 64 i - BitVec.ofNat 64 w + BitVec.ofNat 64 insns.length).toNat)
    (copyAfter (BitVec.ofNat 64 pos) (BitVec.ofNat 64 insns.length - BitVec.ofNat 64 w))
    (prog.length - (pos + w)) (pos + w) (pos + insns.length) (by omega) (by omega) fun k hk => by
      rw [toNat_index (by omega) (by omega)]
      omega
  refine ⟨new₃, ?_, by omega, fun k hk => ?_, fun k hk => ?_, fun k hk hk' => ?_⟩
  · simp only [h₁, h₂, bind, Except.bind]
    exact h₃
  · have := hin₁ k hk
    rw [Nat.zero_add] at this
    rw [hout₃ k (by omega), hout₂ k (by omega), this]
  · have := hin₂ k hk
    rw [Nat.zero_add, Option.map_id'] at this
    rw [hout₃ _ (by omega), this]
  · have := hin₃ (k - (pos + w)) (by omega)
    rwa [show pos + insns.length + (k - (pos + w)) = k - w + insns.length by omega,
      show pos + w + (k - (pos + w)) = k by omega] at this

/-- A range inside the program is replaced, with no access outside the arrays. -/
theorem inject_spliced (setRet : Int) (hw : 0 < w) (hrange : pos + w ≤ prog.length)
    (hlen : prog.length + insns.length < 2 ^ 60) :
    ∃ new, injectEbpfFilter setRet prog (BitVec.ofNat 64 pos) (BitVec.ofNat 64 w) insns =
        .ok (setRet, if setRet = 0 then new else prog) ∧
      Spliced (Copied pos w insns) [⟨pos, w, insns⟩] prog new := by
  have hsum : prog.length + insns.length < 2 ^ 63 := by omega
  have hmax : prog.length - w + insns.length ≤ maxInsns := by
    unfold maxInsns
    omega
  obtain ⟨new, hnew, hl, hbefore, htext, hafter⟩ := newInsns_ok hrange hsum hmax
  refine ⟨new, ?_, ?_, fun e he k hk => ?_, fun i x hi hk => ?_⟩
  · unfold injectEbpfFilter
    rw [if_neg, hnew]
    · rfl
    · rw [BitVec.lt_def, BitVec.toNat_add, BitVec.toNat_ofNat, BitVec.toNat_ofNat,
        BitVec.toNat_ofNat]
      omega
  · simp only [newPos, shift, Edit.gain]
    rw [if_pos (by omega)]
    omega
  · obtain rfl := List.mem_singleton.mp he
    refine ⟨pos + k, ?_, htext k hk⟩
    simp only [newPos, shift, if_neg (Nat.lt_irrefl _)]
    omega
  · have hlt : i < prog.length := (List.getElem?_eq_some_iff.mp hi).1
    simp only [Kept, List.forall_mem_singleton] at hk
    simp only [newPos, shift, Edit.gain, Copied]
    rcases hk with hk | hk
    · -- in front of the range
      refine ⟨i, _, ?_, ?_, rfl⟩
      · rw [if_neg (by omega)]
        omega
      · rw [hbefore i hk, hi, if_pos hk]
        rfl
    · -- behind it
      refine ⟨i - w + insns.length, _, ?_, ?_, rfl⟩
      · rw [if_pos (by omega)]
        omega
      · rw [hafter i hk hlt, hi, if_neg (by omega)]
        rfl

/-! ## Calls -/

/-- A displacement that stays in 32 bits is corrected as it should be. -/
theorem addImm_toInt {y : BpfInsn} {d : Int} (h : -2 ^ 31 ≤ y.imm.toInt + d)
    (h' : y.imm.toInt + d < 2 ^ 31) :
    (addImm y (BitVec.ofInt 64 d)).imm.toInt = y.imm.toInt + d := by
  unfold addImm
  rw [BitVec.signExtend, ← BitVec.ofInt_add, BitVec.toInt_setWidth, BitVec.toNat_ofInt]
  simp only [Int.bmod]
  omega

/-- A target other than index 0 is seen as it is. -/
theorem callSum_toNat {q u : Nat} {y : BpfInsn} (hu : (u : Int) = q + y.imm.toInt + 1)
    (h0 : 0 < u) (hlt : u < 2 ^ 32) : (callSum q y).toNat = u - 1 := by
  have hsum : (q : Int) + y.imm.toInt = ((u - 1 : Nat) : Int) := by omega
  rw [callSum, ← BitVec.ofInt_natCast, BitVec.signExtend, ← BitVec.ofInt_add, hsum,
    BitVec.ofInt_natCast, BitVec.toNat_ofNat]
  omega

theorem delta_eq (a b : Nat) :
    BitVec.ofNat 64 a - BitVec.ofNat 64 b = BitVec.ofInt 64 ((a : Int) - b) := by
  rw [BitVec.sub_eq_add_neg, ← BitVec.ofInt_natCast, ← BitVec.ofInt_natCast, ← BitVec.ofInt_neg,
    ← BitVec.ofInt_add, Int.sub_eq_add_neg]

/-- **A copied call keeps its target**: the instruction it was the index of, where
that instruction is now. The target may be the start of the range, not inside. -/
theorem call_moved {q u : Nat} {y z : BpfInsn} (hw : 0 < w) (hz : Copied pos w insns q y z)
    (hcall : insnIsSubprogCall y = true) (hq : Kept [⟨pos, w, insns⟩] q)
    (hu : (u : Int) = q + y.imm.toInt + 1) (h0 : 0 < u)
    (h1 : u ≠ pos + 1) (hrange : pos + w ≤ prog.length) (hqlt : q < prog.length)
    (hule : u ≤ prog.length) (hlen : prog.length < 2 ^ 31)
    (hlen' : newPos [⟨pos, w, insns⟩] prog.length < 2 ^ 31) :
    z = { y with imm := z.imm } ∧
      newPos [⟨pos, w, insns⟩] q + z.imm.toInt + 1 = newPos [⟨pos, w, insns⟩] u := by
  have hsum := callSum_toNat hu h0 (by omega)
  have hpos : (BitVec.ofNat 64 pos).toNat = pos := by
    rw [BitVec.toNat_ofNat]
    omega
  simp only [Kept, List.forall_mem_singleton] at hq
  simp only [newPos, shift, Edit.gain] at hlen' ⊢
  unfold Copied at hz
  rw [delta_eq] at hz
  dsimp only at hz
  by_cases hqpos : q < pos
  · rw [if_pos hqpos, copyBefore] at hz
    rw [if_neg (show ¬ pos < q by omega)]
    by_cases hcross : pos < u
    · -- a forward call over the range
      have hp : BitVec.ofNat 64 pos < callSum q y := by
        rw [BitVec.lt_def, hsum, hpos]
        omega
      rw [if_pos ⟨hcall, hp⟩] at hz
      have himm := addImm_toInt (y := y) (d := (insns.length : Int) - w) (by omega)
        (by split at hlen' <;> omega)
      rw [← hz] at himm
      refine ⟨by rw [hz]; rfl, ?_⟩
      rw [if_pos hcross, himm]
      omega
    · have hn : ¬ BitVec.ofNat 64 pos < callSum q y := by
        rw [BitVec.lt_def, hsum, hpos]
        omega
      rw [if_neg fun h => hn h.2] at hz
      rw [if_neg hcross, hz]
      exact ⟨rfl, by omega⟩
  · rw [if_neg hqpos, copyAfter] at hz
    rw [if_pos (show pos < q by omega)]
    by_cases hcross : u ≤ pos
    · -- a backward call over the range
      have hp : callSum q y < BitVec.ofNat 64 pos := by
        rw [BitVec.lt_def, hsum, hpos]
        omega
      rw [if_pos ⟨hcall, hp⟩, ← BitVec.ofInt_neg] at hz
      have himm := addImm_toInt (y := y) (d := -((insns.length : Int) - w))
        (by split at hlen' <;> omega) (by omega)
      rw [← hz] at himm
      refine ⟨by rw [hz]; rfl, ?_⟩
      rw [if_neg (by omega), himm]
      omega
    · have hn : ¬ callSum q y < BitVec.ofNat 64 pos := by
        rw [BitVec.lt_def, hsum, hpos]
        omega
      rw [if_neg fun h => hn h.2] at hz
      rw [if_pos (by omega), hz]
      exact ⟨rfl, by omega⟩

/-- Any other instruction is copied as it is. -/
theorem copied_of_not_call {q : Nat} {y z : BpfInsn} (hz : Copied pos w insns q y z)
    (hcall : ¬ insnIsSubprogCall y = true) : z = y := by
  unfold Copied at hz
  have hbefore (p d : BitVec 64) : copyBefore p d q y = y := if_neg fun h => hcall h.1
  have hafter (p d : BitVec 64) : copyAfter p d q y = y := if_neg fun h => hcall h.1
  dsimp only at hz
  rwa [hbefore, hafter, ite_self] at hz

end SkbTracer.Pcap2Bpf
