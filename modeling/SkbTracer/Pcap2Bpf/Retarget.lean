import SkbTracer.Pcap2Bpf.Inject

/-!
# When an injection keeps every call

`inject_ebpf_filter` decides whether a call crosses the replaced range by
comparing `i + imm`, one less than its target, with the position, as unsigned
numbers. So there are two targets it does not see as they are: index 0, whose sum
wraps to the largest number, and the index behind the position, which is a target
behind the range if the range is one instruction long. Where the filter is as
long as the range nothing moves and no harm is done.

`imm_copied` says what becomes of a displacement, for every target; comparing it
with the displacement that keeps the target gives the condition `CallSafe` on one
call (`copyRight_iff`), and `inject_right_iff` is the condition on the program.

- `InjectRight` is what should hold: the filter is in its place, every call to an
  instruction outside the range leads to where that instruction is now, and everything
  else outside the range is unchanged (`CopyRight`);
- `copyRight_before_iff`, `copyRight_after_iff`: the condition, for the calls in front of
  the range and for those behind it;
- `inject_right_iff`: the injection is right exactly if every call is safe;
- `inject_right_iff_over`, `inject_misses`: an injection that keeps its calls, and ones
  that do not.

Calls inside the replaced range are gone and nothing is said of them. A call into the
range, other than to its start, has no instruction to lead to any more; it should stay as
it is.
-/

namespace SkbTracer.Pcap2Bpf

open SkbTracer.Bpf

/-! ## What should hold -/

/-- The target of a call at index `i`. -/
def callTarget (i : Nat) (y : BpfInsn) : Int := i + y.imm.toInt + 1

/-- A call whose target is an instruction of the program and not strictly inside the
range of `w` instructions at `pos`. -/
def CallsOutside (len pos w i : Nat) (y : BpfInsn) : Prop :=
  insnIsSubprogCall y = true ∧ 0 ≤ callTarget i y ∧ callTarget i y < len ∧
    (callTarget i y ≤ pos ∨ pos + w ≤ callTarget i y)

/-- Where index `i`, outside the range, is when `s` instructions have replaced it. -/
def newIndex (pos w s i : Nat) : Nat := if i < pos then i else i - w + s

/-- `z` is the copy that instruction `y` at index `i` should have: a call targets what
it did, anything else is unchanged. -/
def CopyRight (len pos w s i : Nat) (y z : BpfInsn) : Prop :=
  (CallsOutside len pos w i y → z = { y with imm := z.imm } ∧
    callTarget (newIndex pos w s i) z =
      if callTarget i y ≤ pos then callTarget i y else callTarget i y - w + s) ∧
  (¬ CallsOutside len pos w i y → z = y)

/-- The injection succeeds, the filter is in its place and every instruction outside
the range has the copy it should have. -/
def InjectRight (prog : List BpfInsn) (pos w : Nat) (insns : List BpfInsn) : Prop :=
  ∃ new, injectEbpfFilter 0 prog (BitVec.ofNat 64 pos) (BitVec.ofNat 64 w) insns = .ok (0, new) ∧
    new.length = prog.length - w + insns.length ∧
    (∀ k, k < insns.length → new[pos + k]? = insns[k]?) ∧
    ∀ (i : Nat) y, prog[i]? = some y → i < pos ∨ pos + w ≤ i →
      ∃ z, new[newIndex pos w insns.length i]? = some z ∧
        CopyRight prog.length pos w insns.length i y z

/-! ## When it does -/

/-- A displacement that `imm` can hold. -/
def Fits32 (d : Int) : Prop := -2 ^ 31 ≤ d ∧ d < 2 ^ 31

/-- The call `y` at index `i` gets the copy it should have when `s` instructions replace
the `w` at `pos`. -/
structure CallSafe (len pos w s i : Nat) (y : BpfInsn) : Prop where
  /-- Index 0 is only called if the length stays. -/
  zero : callTarget i y = 0 → if i < pos then (2 : Int) ^ 32 ∣ (s : Int) - w else s = w
  /-- The instruction behind a range of one is only called, from before it, if the
  length stays. -/
  next : i < pos → w = 1 → callTarget i y = pos + 1 → pos + 1 < len → s = w
  /-- The displacement of a call over the range still fits. -/
  forward : CallsOutside len pos w i y → i < pos → pos + w ≤ callTarget i y →
    Fits32 (y.imm.toInt + (s - w))
  backward : CallsOutside len pos w i y → pos + w ≤ i → callTarget i y ≤ pos →
    Fits32 (y.imm.toInt - (s - w))
  /-- No call before the range leads out of the program or into the range. -/
  other : ¬ CallsOutside len pos w i y → i < pos →
    callTarget i y < 0 ∨ pos + 2 ≤ callTarget i y → (2 : Int) ^ 32 ∣ (s : Int) - w

/-- The new program is not too long for a vector, and every call outside the range is
safe. -/
structure InjectSafe (prog : List BpfInsn) (pos w s : Nat) : Prop where
  size : prog.length - w + s ≤ maxInsns
  calls : ∀ (i : Nat) y, prog[i]? = some y → i < pos ∨ pos + w ≤ i →
    insnIsSubprogCall y = true → CallSafe prog.length pos w s i y

/-! ## Displacements -/

theorem addImm_bmod (y : BpfInsn) (d : Int) :
    (addImm y (BitVec.ofInt 64 d)).imm.toInt = (y.imm.toInt + d).bmod (2 ^ 32) := by
  unfold addImm
  rw [BitVec.signExtend, ← BitVec.ofInt_add, BitVec.toInt_setWidth, BitVec.toNat_ofInt]
  simp only [Int.bmod]
  omega

/-- What the code compares with the position. -/
theorem callSum_cases {i : Nat} (y : BpfInsn) (hi : i < 2 ^ 61) :
    (1 ≤ callTarget i y ∧ ((callSum i y).toNat : Int) = callTarget i y - 1) ∨
      (callTarget i y ≤ 0 ∧ -2 ^ 31 ≤ callTarget i y ∧
        ((callSum i y).toNat : Int) = 2 ^ 64 + callTarget i y - 1) := by
  have hlo := y.imm.le_toInt
  have hhi := y.imm.toInt_lt
  have hsum : callSum i y = BitVec.ofInt 64 (i + y.imm.toInt) := by
    rw [callSum, ← BitVec.ofInt_natCast, BitVec.signExtend, ← BitVec.ofInt_add]
  rw [hsum, BitVec.toNat_ofInt]
  unfold callTarget
  by_cases hpos : 1 ≤ (i : Int) + y.imm.toInt + 1
  · refine Or.inl ⟨hpos, ?_⟩
    omega
  · refine Or.inr ⟨by omega, by omega, ?_⟩
    omega

variable {insns : List BpfInsn} {len pos w i : Nat} {y z : BpfInsn}

/-- A call's copy differs in its displacement only, and how. -/
theorem imm_copied (hz : Copied pos w insns i y z) (hcall : insnIsSubprogCall y = true)
    (hi : i < 2 ^ 61) (hpos : pos < 2 ^ 61) :
    z = { y with imm := z.imm } ∧ z.imm.toInt =
      if i < pos then
        if 1 ≤ callTarget i y ∧ callTarget i y ≤ pos + 1 then y.imm.toInt
        else (y.imm.toInt + (insns.length - w)).bmod (2 ^ 32)
      else
        if 1 ≤ callTarget i y ∧ callTarget i y ≤ pos then
          (y.imm.toInt - (insns.length - w)).bmod (2 ^ 32)
        else y.imm.toInt := by
  have hsum := callSum_cases y hi
  have hposNat : (BitVec.ofNat 64 pos).toNat = pos := by
    rw [BitVec.toNat_ofNat]
    omega
  unfold Copied at hz
  rw [delta_eq] at hz
  dsimp only at hz
  -- the comparisons of the code are unsigned: a target of 0 is larger than any position
  by_cases hbefore : i < pos
  · rw [if_pos hbefore, copyBefore] at hz
    rw [if_pos hbefore]
    have hlt : BitVec.ofNat 64 pos < callSum i y ↔
        ¬(1 ≤ callTarget i y ∧ callTarget i y ≤ pos + 1) := by
      rw [BitVec.lt_def, hposNat]
      omega
    by_cases hin : 1 ≤ callTarget i y ∧ callTarget i y ≤ pos + 1
    · rw [if_neg fun h => hlt.mp h.2 hin] at hz
      rw [if_pos hin, hz]
      exact ⟨rfl, rfl⟩
    · rw [if_pos ⟨hcall, hlt.mpr hin⟩] at hz
      rw [if_neg hin, hz, addImm_bmod]
      exact ⟨rfl, rfl⟩
  · rw [if_neg hbefore, copyAfter] at hz
    rw [if_neg hbefore]
    have hlt : callSum i y < BitVec.ofNat 64 pos ↔
        1 ≤ callTarget i y ∧ callTarget i y ≤ pos := by
      rw [BitVec.lt_def, hposNat]
      omega
    by_cases hin : 1 ≤ callTarget i y ∧ callTarget i y ≤ pos
    · rw [if_pos ⟨hcall, hlt.mpr hin⟩, ← BitVec.ofInt_neg] at hz
      rw [if_pos hin, hz, addImm_bmod]
      exact ⟨rfl, rfl⟩
    · rw [if_neg fun h => hin (hlt.mp h.2)] at hz
      rw [if_neg hin, hz]
      exact ⟨rfl, rfl⟩

theorem bmod_eq_self_iff (d : Int) : d.bmod (2 ^ 32) = d ↔ Fits32 d := by
  unfold Fits32
  rw [Int.bmod_eq_iff (by decide)]
  simp only [Int.sub_self, Int.dvd_zero, and_true]
  omega

/-- A displacement is back where it was if what was added is a multiple of `2 ^ 32`. -/
theorem bmod_add_eq_iff (x : BitVec 32) (d : Int) :
    (x.toInt + d).bmod (2 ^ 32) = x.toInt ↔ (2 : Int) ^ 32 ∣ d := by
  have hlo := x.le_toInt
  have hhi := x.toInt_lt
  rw [Int.bmod_eq_iff (by decide)]
  have hneg : x.toInt - (x.toInt + d) = -d := by omega
  rw [hneg, Int.dvd_neg]
  constructor
  · intro h
    exact h.2.2
  · intro h
    exact ⟨by omega, by omega, h⟩

/-- The copy of a call is right if its displacement is. -/
theorem copyRight_imm {s : Nat} (hz : z = { y with imm := z.imm }) (hw : pos + w ≤ i ∨ i < pos) :
    CopyRight len pos w s i y z ↔
      (CallsOutside len pos w i y → z.imm.toInt =
        if i < pos then
          if callTarget i y ≤ pos then y.imm.toInt else y.imm.toInt + (s - w)
        else
          if callTarget i y ≤ pos then y.imm.toInt - (s - w) else y.imm.toInt) ∧
      (¬ CallsOutside len pos w i y → z.imm.toInt = y.imm.toInt) := by
  have hsame : z = y ↔ z.imm.toInt = y.imm.toInt := by
    constructor
    · intro h
      rw [h]
    · intro h
      rw [hz, BitVec.eq_of_toInt_eq h]
  -- the new index and the new target, each on its side of the range
  unfold CopyRight
  rw [hsame]
  refine and_congr_left fun _ => forall_congr' fun hout => ?_
  rw [and_iff_right hz]
  unfold callTarget newIndex
  by_cases hbefore : i < pos
  · simp only [if_pos hbefore]
    by_cases hback : (i : Int) + y.imm.toInt + 1 ≤ pos
    · simp only [if_pos hback]
      omega
    · simp only [if_neg hback]
      omega
  · simp only [if_neg hbefore]
    by_cases hback : (i : Int) + y.imm.toInt + 1 ≤ pos
    · simp only [if_pos hback]
      omega
    · simp only [if_neg hback]
      omega

/-- A call before the range has the copy it should have exactly if it is safe. -/
theorem copyRight_before_iff (hw : 0 < w) (hrange : pos + w ≤ len) (hlen : len < 2 ^ 61)
    (hz : Copied pos w insns i y z) (hcall : insnIsSubprogCall y = true) (hi : i < pos) :
    CopyRight len pos w insns.length i y z ↔ CallSafe len pos w insns.length i y := by
  obtain ⟨hsame, himm⟩ := imm_copied hz hcall (by omega) (by omega)
  rw [if_pos hi] at himm
  rw [copyRight_imm hsame (Or.inr hi), if_pos hi]
  have hback : ¬ pos + w ≤ i := by omega
  by_cases hin : 1 ≤ callTarget i y ∧ callTarget i y ≤ pos + 1
  · -- the displacement stays
    rw [if_pos hin] at himm
    rw [himm]
    -- so it is wrong for the instruction right behind the range, unless nothing moves
    constructor
    · rintro ⟨hright, -⟩
      refine ⟨by omega, fun _ hw1 ht hlt => ?_, fun hout _ ht => ?_, by omega, by omega⟩
      · have hout : CallsOutside len pos w i y := ⟨hcall, by omega, by omega, Or.inr (by omega)⟩
        have := hright hout
        rw [if_neg (by omega)] at this
        omega
      · have := hright hout
        rw [if_neg (by omega)] at this
        have hlo := y.imm.le_toInt
        have hhi := y.imm.toInt_lt
        unfold Fits32
        omega
    · intro h
      refine ⟨fun hout => ?_, fun _ => rfl⟩
      by_cases hle : callTarget i y ≤ pos
      · rw [if_pos hle]
      · obtain ⟨-, -, hlt, hside⟩ := hout
        have := h.next hi (by omega) (by omega) (by omega)
        rw [if_neg hle]
        omega
  · -- the growth is added
    rw [if_neg hin] at himm
    rw [himm]
    by_cases hout : CallsOutside len pos w i y
    · simp only [hout, true_imp_iff, not_true_eq_false, false_imp_iff, and_true]
      obtain ⟨-, h0, hlt, hside⟩ := hout
      by_cases hle : callTarget i y ≤ pos
      · -- the first instruction of the program is taken for one far behind
        have ht : callTarget i y = 0 := by omega
        rw [if_pos hle, bmod_add_eq_iff]
        constructor
        · intro hdvd
          exact ⟨fun _ => by rwa [if_pos hi], by omega, by omega, by omega, fun _ _ _ => hdvd⟩
        · intro h
          have := h.zero ht
          rwa [if_pos hi] at this
      · rw [if_neg hle, bmod_eq_self_iff]
        constructor
        · intro hfits
          exact ⟨by omega, by omega, fun _ _ _ => hfits, by omega,
            fun hno => absurd ⟨hcall, h0, hlt, hside⟩ hno⟩
        · intro h
          exact h.forward ⟨hcall, h0, hlt, hside⟩ hi (by omega)
    · -- a call that must not change has what was added to it taken off only by the width
      simp only [hout, false_imp_iff, not_false_eq_true, true_imp_iff, true_and]
      rw [bmod_add_eq_iff]
      have h0 : callTarget i y ≠ 0 := fun h =>
        hout ⟨hcall, by omega, by omega, Or.inl (by omega)⟩
      constructor
      · intro hdvd
        exact ⟨fun h => absurd h h0, by omega, fun h => absurd h hout, by omega,
          fun _ _ _ => hdvd⟩
      · intro h
        exact h.other hout hi (by omega)

/-- A call behind the range has the copy it should have exactly if it is safe. -/
theorem copyRight_after_iff (hw : 0 < w) (hlen : len < 2 ^ 61) (hilen : i < len)
    (hz : Copied pos w insns i y z) (hcall : insnIsSubprogCall y = true) (hi : pos + w ≤ i) :
    CopyRight len pos w insns.length i y z ↔ CallSafe len pos w insns.length i y := by
  obtain ⟨hsame, himm⟩ := imm_copied hz hcall (by omega) (by omega)
  have hnot : ¬ i < pos := by omega
  rw [if_neg hnot] at himm
  rw [copyRight_imm hsame (Or.inl hi), if_neg hnot]
  by_cases hin : 1 ≤ callTarget i y ∧ callTarget i y ≤ pos
  · -- the growth is subtracted
    have hout : CallsOutside len pos w i y := ⟨hcall, by omega, by omega, Or.inl hin.2⟩
    rw [if_pos hin] at himm
    rw [himm, if_pos hin.2, bmod_eq_self_iff]
    constructor
    · intro h
      exact ⟨by omega, by omega, by omega, fun _ _ _ => h.1 hout, by omega⟩
    · intro h
      exact ⟨fun _ => h.backward hout hi hin.2, fun hno => absurd hout hno⟩
  · -- the displacement stays
    rw [if_neg hin] at himm
    rw [himm]
    constructor
    · rintro ⟨hright, -⟩
      refine ⟨fun ht => ?_, by omega, by omega, fun hout _ hle => ?_, by omega⟩
      · have := hright ⟨hcall, by omega, by omega, Or.inl (by omega)⟩
        rw [if_pos (by omega)] at this
        rw [if_neg hnot]
        omega
      · have := hright hout
        rw [if_pos hle] at this
        have hlo := y.imm.le_toInt
        have hhi := y.imm.toInt_lt
        unfold Fits32
        omega
    · intro h
      refine ⟨fun hout => ?_, fun _ => rfl⟩
      by_cases hle : callTarget i y ≤ pos
      · have hzero := h.zero (by have := hout.2.1; omega)
        rw [if_neg hnot] at hzero
        rw [if_pos hle]
        omega
      · rw [if_neg hle]

theorem copyRight_other (hz : Copied pos w insns i y z) (hcall : ¬ insnIsSubprogCall y = true) :
    CopyRight len pos w insns.length i y z :=
  ⟨fun hout => absurd hout.1 hcall, fun _ => copied_of_not_call hz hcall⟩

/-- A call is copied rightly exactly if it is safe, and what is no call always is. -/
theorem copyRight_iff (hw : 0 < w) (hrange : pos + w ≤ len) (hlen : len < 2 ^ 61) (hi : i < len)
    (hout : i < pos ∨ pos + w ≤ i) (hz : Copied pos w insns i y z) :
    CopyRight len pos w insns.length i y z ↔
      (insnIsSubprogCall y = true → CallSafe len pos w insns.length i y) := by
  by_cases hcall : insnIsSubprogCall y = true
  · rw [forall_prop_of_true hcall]
    rcases hout with hbefore | hbehind
    · exact copyRight_before_iff hw hrange hlen hz hcall hbefore
    · exact copyRight_after_iff hw hlen hi hz hcall hbehind
  · exact iff_of_true (copyRight_other hz hcall) fun h => absurd h hcall

/-! ## The injection -/

variable {prog : List BpfInsn}

/-- A new program that no vector can hold. -/
theorem newInsns_too_long (hrange : pos + w ≤ prog.length) (hprog : prog.length ≤ maxInsns)
    (hinsns : insns.length ≤ maxInsns) (hsize : maxInsns < prog.length - w + insns.length) :
    newInsns prog (BitVec.ofNat 64 pos) (BitVec.ofNat 64 w) insns = .error .lengthError := by
  have hmax : maxInsns = 2 ^ 60 - 1 := rfl
  have hindex := toNat_index (show w ≤ prog.length by omega)
    (show prog.length + insns.length < 2 ^ 63 by omega)
  unfold newInsns
  simp only [hindex]
  rw [if_pos hsize]

/-- A range that passes the check. -/
theorem inject_of_not_lt {setRet : Int} {position origLen : BitVec 64}
    (h : ¬ BitVec.ofNat 64 prog.length < position + origLen) :
    injectEbpfFilter setRet prog position origLen insns =
      (newInsns prog position origLen insns).map fun new =>
        (setRet, if setRet = 0 then new else prog) := by
  unfold injectEbpfFilter
  rw [if_neg h]
  rcases newInsns prog position origLen insns with e | new
  · rfl
  · rfl

/-- With a range inside the program the result is what the loops copy. -/
theorem inject_ok (hrange : pos + w ≤ prog.length) (hprog : prog.length ≤ maxInsns) :
    injectEbpfFilter 0 prog (BitVec.ofNat 64 pos) (BitVec.ofNat 64 w) insns =
      (newInsns prog (BitVec.ofNat 64 pos) (BitVec.ofNat 64 w) insns).map fun new => (0, new) := by
  have hmax : maxInsns = 2 ^ 60 - 1 := rfl
  rw [inject_of_not_lt]
  · rfl
  · rw [BitVec.lt_def, BitVec.toNat_add, BitVec.toNat_ofNat, BitVec.toNat_ofNat,
      BitVec.toNat_ofNat]
    omega

/-- Every instruction outside the range has a copy, at its new index. -/
theorem newInsns_copied {new : List BpfInsn}
    (hbefore : ∀ k, k < pos → new[k]? = prog[k]?.map (copyBefore (BitVec.ofNat 64 pos)
      (BitVec.ofNat 64 insns.length - BitVec.ofNat 64 w) k))
    (hafter : ∀ k, pos + w ≤ k → k < prog.length → new[k - w + insns.length]? =
      prog[k]?.map (copyAfter (BitVec.ofNat 64 pos)
        (BitVec.ofNat 64 insns.length - BitVec.ofNat 64 w) k))
    (hy : prog[i]? = some y) (hout : i < pos ∨ pos + w ≤ i) :
    ∃ z, new[newIndex pos w insns.length i]? = some z ∧ Copied pos w insns i y z := by
  obtain ⟨hi, -⟩ := List.getElem?_eq_some_iff.mp hy
  unfold newIndex Copied
  dsimp only
  by_cases hlt : i < pos
  · rw [if_pos hlt, if_pos hlt, hbefore i hlt, hy]
    exact ⟨_, rfl, rfl⟩
  · rw [if_neg hlt, if_neg hlt, hafter i (by omega) hi, hy]
    exact ⟨_, rfl, rfl⟩

/-- **When an injection keeps every call.** For every program, every range of it with at
least one instruction and every filter, the new program has the filter in the range's
place, every call to an instruction outside it or to its start still targets that
instruction, and all else is unchanged, if and only if the new program is not too
long and every call outside the range is safe. -/
theorem inject_right_iff (hw : 0 < w) (hrange : pos + w ≤ prog.length)
    (hprog : prog.length ≤ maxInsns) (hinsns : insns.length ≤ maxInsns) :
    InjectRight prog pos w insns ↔ InjectSafe prog pos w insns.length := by
  have hmax : maxInsns = 2 ^ 60 - 1 := rfl
  unfold InjectRight
  rw [inject_ok hrange hprog]
  by_cases hsize : maxInsns < prog.length - w + insns.length
  · -- the constructor of the vector throws
    rw [newInsns_too_long hrange hprog hinsns hsize]
    refine iff_of_false ?_ fun h => Nat.not_lt.mpr h.size hsize
    rintro ⟨new, hnew, -⟩
    cases hnew
  · have hsum : prog.length + insns.length < 2 ^ 63 := by omega
    obtain ⟨new, hnew, hl, hbefore, htext, hafter⟩ :=
      newInsns_ok hrange hsum (Nat.not_lt.mp hsize)
    have hiff : ∀ (i : Nat) y z, prog[i]? = some y → i < pos ∨ pos + w ≤ i →
        Copied pos w insns i y z → (CopyRight prog.length pos w insns.length i y z ↔
          (insnIsSubprogCall y = true → CallSafe prog.length pos w insns.length i y)) := by
      intro i y z hy hout hz
      obtain ⟨hi, -⟩ := List.getElem?_eq_some_iff.mp hy
      exact copyRight_iff hw hrange (by omega) hi hout hz
    rw [hnew]
    constructor
    · rintro ⟨new', hnew', -, -, hright⟩
      obtain rfl : new = new' := congrArg Prod.snd (Except.ok.inj hnew')
      refine ⟨Nat.not_lt.mp hsize, fun i y hy hout hcall => ?_⟩
      obtain ⟨z, hz, hcopied⟩ := newInsns_copied hbefore hafter hy hout
      obtain ⟨z', hz', hcopy⟩ := hright i y hy hout
      obtain rfl := Option.some.inj (hz.symm.trans hz')
      exact (hiff i y z hy hout hcopied).mp hcopy hcall
    · intro h
      refine ⟨new, rfl, hl, htext, fun i y hy hout => ?_⟩
      obtain ⟨z, hz, hcopied⟩ := newInsns_copied hbefore hafter hy hout
      exact ⟨z, hz, (hiff i y z hy hout hcopied).mpr (h.calls i y hy hout)⟩

/-- A subprogram call with this displacement. -/
def callInsn (imm : BitVec 32) : BpfInsn :=
  bpfRawInsn (bpfJmp ||| bpfCall) 0 bpfPseudoCall 0 imm

/-- A call over a stub of two instructions, which a longer filter replaces. -/
theorem inject_right_iff_over :
    InjectRight [callInsn 3, bpfExitInsn, bpfMov64Imm 0 0, bpfExitInsn, bpfExitInsn] 2 2
      [bpfMov64Imm 0 1, bpfMov64Imm 0 1, bpfExitInsn] := by
  refine (inject_right_iff (by decide) (by decide) (by decide) (by decide)).mpr ⟨by decide, ?_⟩
  intro i y hy hout hcall
  rcases i with _ | _ | _ | _ | _ | i
  · obtain rfl := Option.some.inj hy
    have hin : CallsOutside 5 2 2 0 (callInsn 3) := ⟨rfl, by decide, by decide, Or.inr (by decide)⟩
    exact ⟨by decide, by decide, fun _ _ _ => by unfold Fits32; decide,
      fun _ h => absurd h (by decide), fun h => absurd hin h⟩
  · obtain rfl := Option.some.inj hy
    exact absurd hcall (by decide)
  · omega
  · omega
  · obtain rfl := Option.some.inj hy
    exact absurd hcall (by decide)
  · cases hy

/-- A call to the instruction behind a range of one, from before it: a longer filter
makes it a call into the filter. A call to index 0 from behind: it misses index 0. -/
theorem inject_misses :
    ¬ InjectRight [callInsn 1, bpfExitInsn, bpfMov64Imm 0 0, bpfExitInsn] 1 1
        [bpfMov64Imm 0 1, bpfMov64Imm 0 1, bpfExitInsn] ∧
      ¬ InjectRight [bpfMov64Imm 0 0, bpfExitInsn, callInsn (-3), bpfExitInsn] 1 1
        [bpfMov64Imm 0 1, bpfExitInsn] := by
  constructor
  · rintro ⟨new, hnew, -, -, hright⟩
    have hrun : injectEbpfFilter 0 [callInsn 1, bpfExitInsn, bpfMov64Imm 0 0, bpfExitInsn]
        (BitVec.ofNat 64 1) (BitVec.ofNat 64 1)
        [bpfMov64Imm 0 1, bpfMov64Imm 0 1, bpfExitInsn] =
        .ok (0, [callInsn 1, bpfMov64Imm 0 1, bpfMov64Imm 0 1, bpfExitInsn, bpfMov64Imm 0 0,
          bpfExitInsn]) := rfl
    obtain rfl := congrArg Prod.snd (Except.ok.inj (hrun.symm.trans hnew))
    obtain ⟨z, hz, hcopy, -⟩ := hright 0 (callInsn 1) rfl (Or.inl (by decide))
    obtain rfl := Option.some.inj hz
    exact absurd (hcopy ⟨rfl, by decide, by decide, Or.inr (by decide)⟩).2 (by decide)
  · rintro ⟨new, hnew, -, -, hright⟩
    have hrun : injectEbpfFilter 0 [bpfMov64Imm 0 0, bpfExitInsn, callInsn (-3), bpfExitInsn]
        (BitVec.ofNat 64 1) (BitVec.ofNat 64 1) [bpfMov64Imm 0 1, bpfExitInsn] =
        .ok (0, [bpfMov64Imm 0 0, bpfMov64Imm 0 1, bpfExitInsn, callInsn (-3), bpfExitInsn]) := rfl
    obtain rfl := congrArg Prod.snd (Except.ok.inj (hrun.symm.trans hnew))
    obtain ⟨z, hz, hcopy, -⟩ := hright 2 (callInsn (-3)) rfl (Or.inr (by decide))
    obtain rfl := Option.some.inj hz
    exact absurd (hcopy ⟨rfl, by decide, by decide, Or.inl (by decide)⟩).2 (by decide)

end SkbTracer.Pcap2Bpf
