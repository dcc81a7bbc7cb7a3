import SkbTracer.Pcap2Bpf.Retarget

/-!
# Ranges outside the program

`inject_ebpf_filter` checks its range with one comparison, of the 64-bit sum of position
and length with the length of the program. A sum that does not fit 64 bits wraps, and if it
comes out small enough the range passes. What happens then depends on the numbers: the
first loop may run off both arrays, or the copy may succeed and have instructions twice.

- `range_passes_iff`: which ranges pass the comparison, the sum taken without a bound;
- `inject_refused`, `inject_not_refused`: what becomes of the others and of those;
- `range_checked_iff`: the range is checked exactly if it is in the program, so there is no
  other way past the check;
- `wrapped_range_passes`: a range that wraps and passes.

Program and filter have `maxInsns` instructions at most, what a vector can hold. In the
repository the range comes from the symbols of a program that is being loaded, so it does
not wrap there; the function itself has no such promise from its callers.

What `bpf_program__set_insns` returns is a parameter. For the converse it must not be the
error of the range check itself, or the two cannot be told apart.
-/

namespace SkbTracer.Pcap2Bpf

open SkbTracer.Bpf

/-- A range that is not in the program is refused, with no access outside an array and the
program as it was; any other one is replaced, again with no such access. -/
def RangeChecked (setRet : Int) (prog : List BpfInsn) (position origLen : BitVec 64)
    (insns : List BpfInsn) : Prop :=
  if prog.length < position.toNat + origLen.toNat then
    injectEbpfFilter setRet prog position origLen insns = .ok (-einval, prog)
  else
    ∃ new, newInsns prog position origLen insns = .ok new ∧
      injectEbpfFilter setRet prog position origLen insns =
        .ok (setRet, if setRet = 0 then new else prog) ∧
      new.length = prog.length - origLen.toNat + insns.length

/-- The end of the range does not fit 64 bits, and what is left of it does not show that. -/
def WrapsInside (prog : List BpfInsn) (position origLen : BitVec 64) : Prop :=
  2 ^ 64 ≤ position.toNat + origLen.toNat ∧
    position.toNat + origLen.toNat - 2 ^ 64 ≤ prog.length

variable {setRet : Int} {prog insns : List BpfInsn} {position origLen : BitVec 64}

/-- What the comparison says of the range. -/
theorem range_passes_iff (hprog : prog.length ≤ maxInsns) :
    ¬ BitVec.ofNat 64 prog.length < position + origLen ↔
      position.toNat + origLen.toNat ≤ prog.length ∨ WrapsInside prog position origLen := by
  have hmax : maxInsns = 2 ^ 60 - 1 := rfl
  have hposition := position.isLt
  have horig := origLen.isLt
  unfold WrapsInside
  rw [BitVec.lt_def, BitVec.toNat_add, BitVec.toNat_ofNat]
  omega

/-- A range whose sum is too large is refused, and the program stays as it is. -/
theorem inject_refused (h : BitVec.ofNat 64 prog.length < position + origLen) :
    injectEbpfFilter setRet prog position origLen insns = .ok (-einval, prog) := if_pos h

/-- A range that passes is not refused, unless libbpf does. -/
theorem inject_not_refused (hset : setRet ≠ -einval)
    (h : ¬ BitVec.ofNat 64 prog.length < position + origLen) :
    injectEbpfFilter setRet prog position origLen insns ≠ .ok (-einval, prog) := by
  rw [inject_of_not_lt h]
  rcases newInsns prog position origLen insns with e | new
  · exact fun heq => by cases heq
  · exact fun heq => hset (congrArg Prod.fst (Except.ok.inj heq))

/-- The range does not wrap to an index of the program, and the new program is not too long
for a vector. -/
structure RangeFits (prog : List BpfInsn) (position origLen : BitVec 64)
    (insns : List BpfInsn) : Prop where
  noWrap : ¬ WrapsInside prog position origLen
  size : position.toNat + origLen.toNat ≤ prog.length →
    prog.length - origLen.toNat + insns.length ≤ maxInsns

/-- With a range inside the program the check is enough: no access leaves an array. -/
theorem RangeFits.checked (h : RangeFits prog position origLen insns)
    (hprog : prog.length ≤ maxInsns) (hinsns : insns.length ≤ maxInsns) :
    RangeChecked setRet prog position origLen insns := by
  have hmax : maxInsns = 2 ^ 60 - 1 := rfl
  have hpasses : ¬ BitVec.ofNat 64 prog.length < position + origLen ↔ _ :=
    range_passes_iff hprog
  unfold RangeChecked
  by_cases hin : prog.length < position.toNat + origLen.toNat
  · rw [if_pos hin]
    have hlt : BitVec.ofNat 64 prog.length < position + origLen := by
      by_contra hnlt
      rcases hpasses.mp hnlt with hle | hwrap
      · omega
      · exact h.noWrap hwrap
    exact inject_refused hlt
  · rw [if_neg hin]
    have hrange : position.toNat + origLen.toNat ≤ prog.length := Nat.le_of_not_lt hin
    have hsum : prog.length + insns.length < 2 ^ 63 := by omega
    obtain ⟨new, hnew, hl, -⟩ := newInsns_ok hrange hsum (h.size hrange)
    rw [BitVec.ofNat_toNat, BitVec.ofNat_toNat, BitVec.setWidth_eq, BitVec.setWidth_eq] at hnew
    refine ⟨new, hnew, ?_, hl⟩
    rw [inject_of_not_lt (hpasses.mpr (Or.inl hrange)), hnew]
    rfl

/-- Conversely a call that checks its range has one inside the program. -/
theorem RangeChecked.fits (h : RangeChecked setRet prog position origLen insns)
    (hset : setRet ≠ -einval) (hprog : prog.length ≤ maxInsns) (hinsns : insns.length ≤ maxInsns) :
    RangeFits prog position origLen insns := by
  unfold RangeChecked at h
  constructor
  · intro hwrap
    have hlen : prog.length < position.toNat + origLen.toNat := by
      have hmax : maxInsns = 2 ^ 60 - 1 := rfl
      have := hwrap.1
      omega
    rw [if_pos hlen] at h
    exact inject_not_refused hset ((range_passes_iff hprog).mpr (Or.inr hwrap)) h
  · intro hrange
    rw [if_neg (Nat.not_lt.mpr hrange)] at h
    obtain ⟨new, hnew, -⟩ := h
    by_contra hsize
    -- the constructor of the vector throws
    have htoo := newInsns_too_long hrange hprog hinsns (Nat.lt_of_not_le hsize)
    rw [BitVec.ofNat_toNat, BitVec.ofNat_toNat, BitVec.setWidth_eq, BitVec.setWidth_eq] at htoo
    cases htoo.symm.trans hnew

/-- **What the check lets through.** For every program and filter that memory can hold, and
every two 64-bit numbers: the range is refused where it is outside the program, and replaced
where it is inside, if it fits; and only then, unless libbpf refuses with the same error. -/
theorem range_checked_iff (hprog : prog.length ≤ maxInsns) (hinsns : insns.length ≤ maxInsns) :
    (RangeFits prog position origLen insns → RangeChecked setRet prog position origLen insns) ∧
      (setRet ≠ -einval → (RangeChecked setRet prog position origLen insns ↔
        RangeFits prog position origLen insns)) :=
  ⟨fun h => h.checked hprog hinsns,
    fun hset => ⟨fun h => h.fits hset hprog hinsns, fun h => h.checked hprog hinsns⟩⟩

/-- A position behind the program is refused, a stub inside it is replaced. -/
theorem range_checked_iff_stub :
    RangeChecked 0 (List.replicate 9 bpfExitInsn) 19 7 [bpfMov64Imm 0 1, bpfExitInsn] ∧
      RangeChecked 0 (List.replicate 9 bpfExitInsn) 1 7 [bpfMov64Imm 0 1, bpfExitInsn] := by
  constructor
  · refine (range_checked_iff (by decide) (by decide)).1 ⟨fun h => ?_, fun _ => by decide⟩
    exact absurd h.1 (by decide)
  · refine ((range_checked_iff (by decide) (by decide)).2 (by decide)).mpr
      ⟨fun h => ?_, fun _ => by decide⟩
    exact absurd h.1 (by decide)

/-- Position -3 and length 7 end at index 4. The range passes, and the first instruction is
written to a vector of no length. -/
theorem wrapped_range_passes :
    injectEbpfFilter 0 (List.replicate 5 bpfExitInsn) (-3) 7 [bpfMov64Imm 0 1, bpfExitInsn] =
        .error .outOfRange ∧
      ¬ RangeChecked 0 (List.replicate 5 bpfExitInsn) (-3) 7 [bpfMov64Imm 0 1, bpfExitInsn] := by
  have hrun : injectEbpfFilter 0 (List.replicate 5 bpfExitInsn) (-3) 7
      [bpfMov64Imm 0 1, bpfExitInsn] = .error .outOfRange := rfl
  refine ⟨hrun, fun h => ?_⟩
  unfold RangeChecked at h
  rw [if_pos (by decide), hrun] at h
  cases h

end SkbTracer.Pcap2Bpf
