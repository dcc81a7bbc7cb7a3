import SkbTracer.Lib.Transition
import SkbTracer.Pcap2Bpf.Accept

/-!
# The converting call

The control of the converting call is a small machine: `passStep` runs a pass
from the table and the buffer as they stand and compares the length with that of
the pass before. `doPass` is its run (`doPass_step`), and two facts about a pass
bound it: the length does not depend on the table, so the second pass ends the
run (`passStep_second`), and a pass needs as much room as the sizing call said.

Which passes get through is a question about displacements. In a pass that
started with the table `tab`, instruction `i` sees the final addresses up to its
own and `tab` behind it, so a jump's displacement is `seenOff prog tab`
(`convertLoop_ok_iff`). The second pass starts with the final table. The first
starts with zeros, and so every jump forward is measured as if it led to the
start of the output: `convert_ok_iff` has the condition both passes come to.

- `rejects_misfits_iff`: when the call rejects just the programs with a jump that does
  not fit in the end;
- `short_fits`: for outputs of at most 32766 instructions it always does;
- `modes_agree`: what the sizing call rejects the converting call rejects, and with the
  length that the sizing call returns nothing is written past the buffer, no assertion
  fails, and the output does not depend on what was in the buffer before;
- `lateJump_rejected`: a program whose only jump is two instructions long and is rejected
  nevertheless.
-/

namespace SkbTracer.Pcap2Bpf

open SkbTracer.Bpf
open SkbTracer.Lib (Res Reach)

/-! ## Which passes get through -/

theorem addrOf_le {prog : List SockFilter} {i : Nat} (h : i < prog.length) :
    addrOf prog (i + 1) ≤ addrOf prog prog.length := addrOf_mono prog h

/-- The displacement of the jump at place `p.1` of the expansion of instruction `i` to
`p.2`, in a pass that started with the table `tab`. -/
def seenOff (prog : List SockFilter) (tab : List Nat) (i : Nat) (p : Nat × Int) : Int :=
  (if p.2 ≤ i then (addrOf prog p.2.toNat : Int) else tab.getD p.2.toNat 0) -
    addrOf prog i - 1 - p.1

/-- The table as instruction `i` finds it: final for the instructions before it, and for
those from `i` on what it was when the pass started. -/
structure TableAt (prog : List SockFilter) (tab : List Nat) (i : Nat) (addrs : List Nat) :
    Prop where
  length : addrs.length = prog.length
  before : ∀ j, j < i → addrs.getD j 0 = addrOf prog j
  behind : ∀ j, i ≤ j → addrs.getD j 0 = tab.getD j 0

theorem TableAt.set {prog : List SockFilter} {tab : List Nat} {i : Nat} {addrs : List Nat}
    (h : TableAt prog tab i addrs) (hi : i < prog.length) :
    TableAt prog tab (i + 1) (addrs.set i (addrOf prog i)) := by
  refine ⟨by rw [List.length_set, h.length], fun j hj => ?_, fun j hj => ?_⟩
  · by_cases hij : i = j
    · subst hij
      rw [List.getD_eq_getElem?_getD, List.getElem?_set_self (by rw [h.length]; exact hi)]
      rfl
    · rw [List.getD_eq_getElem?_getD, List.getElem?_set_ne hij, ← List.getD_eq_getElem?_getD,
        h.before j (by omega)]
  · rw [List.getD_eq_getElem?_getD, List.getElem?_set_ne (by omega),
      ← List.getD_eq_getElem?_getD, h.behind j (by omega)]

/-- The displacement of a jump, once its own instruction's address is recorded. -/
theorem TableAt.jmpOff {prog : List SockFilter} {tab : List Nat} {i : Nat} {addrs : List Nat}
    (h : TableAt prog tab (i + 1) addrs) {p : Nat × Int} (hp : 0 ≤ p.2) :
    jmpOff (some addrs) i p.1 p.2 = seenOff prog tab i p := by
  unfold Pcap2Bpf.jmpOff seenOff
  dsimp only
  rw [h.before i (by omega)]
  by_cases hback : p.2 ≤ i
  · rw [if_pos hback, h.before p.2.toNat (by omega)]
  · rw [if_neg hback, h.behind p.2.toNat (by omega)]

/-- What a pass asks of instruction `i`. -/
def InsnPasses (prog : List SockFilter) (tab : List Nat) (i : Nat) (fp : SockFilter) : Prop :=
  fp.op ≠ none ∧ ∀ p ∈ jumpsOf i fp, TargetIn prog.length p.2 ∧ Fits16 (seenOff prog tab i p)

/-- An instruction gets through exactly if the displacements it sees fit. -/
theorem convertInsn_passes {prog : List SockFilter} {tab addrs : List Nat} {i : Nat}
    {fp : SockFilter} (h : TableAt prog tab (i + 1) addrs) :
    (∃ xs, convertInsn prog.length (some addrs) i fp = some xs) ↔ InsnPasses prog tab i fp := by
  rw [convertInsn_isSome]
  unfold InsnPasses
  apply and_congr_right
  intro _
  constructor
  · intro hp p hmem
    obtain ⟨htarget, hfits⟩ := hp p hmem
    exact ⟨htarget, h.jmpOff htarget.1 ▸ hfits⟩
  · intro hp p hmem
    obtain ⟨htarget, hfits⟩ := hp p hmem
    exact ⟨htarget, (h.jmpOff htarget.1).symm ▸ hfits⟩

/-- A pass from instruction `done.length` on gets through exactly if every instruction
does. -/
theorem convertLoop_ok_iff {prog : List SockFilter} {tab : List Nat} (rest : List SockFilter) :
    ∀ (done : List SockFilter) (addrs : List Nat) (buf : List BpfInsn),
      prog = done ++ rest → TableAt prog tab done.length addrs →
      addrOf prog prog.length ≤ buf.length →
      ((∃ st, convertLoop prog.length done.length rest
          { pos := addrOf prog done.length, dest := some ⟨addrs, buf⟩ } = .ok st) ↔
        ∀ j fp, rest[j]? = some fp → InsnPasses prog tab (done.length + j) fp) := by
  -- the table is right for the instructions in `done`, and `tab` for those to come
  induction rest with
  | nil =>
    intro done addrs buf _ _ _
    exact iff_of_true ⟨_, rfl⟩ (by simp)
  | cons fp rest ih =>
    intro done addrs buf hprog htab hbuf
    have hget : prog[done.length]? = some fp := by
      rw [hprog, List.getElem?_append_right (Nat.le_refl _), Nat.sub_self]
      rfl
    obtain ⟨hi, -⟩ := List.getElem?_eq_some_iff.mp hget
    have htab' := htab.set hi
    have hins := @convertInsn_passes prog tab _ done.length fp htab'
    simp only [convertLoop, PassState.record, Option.map_some]
    rcases hxs : convertInsn prog.length (some (addrs.set done.length (addrOf prog done.length)))
        done.length fp with _ | xs
    · -- `goto err` at this instruction
      refine iff_of_false (by simp) fun h => ?_
      obtain ⟨xs, h⟩ := hins.mpr (h 0 fp rfl)
      rw [hxs] at h
      cases h
    · have hnext : addrOf prog done.length + xs.length = addrOf prog (done.length + 1) := by
        rw [addrOf_succ hget, convertInsn_length hxs]
      have hroom : addrOf prog done.length + xs.length ≤ buf.length := by
        rw [hnext]
        exact Nat.le_trans (addrOf_le hi) hbuf
      simp only [append_fits (d := ⟨addrs.set done.length (addrOf prog done.length), buf⟩) hroom,
        hnext]
      have hsplit : prog = (done ++ [fp]) ++ rest := by rw [hprog, List.append_assoc]; rfl
      have hlen : (done ++ [fp]).length = done.length + 1 := List.length_append
      have hrest := ih (done ++ [fp]) _
        (buf.take (addrOf prog done.length) ++ xs ++ buf.drop (addrOf prog (done.length + 1)))
        hsplit (by rw [hlen]; exact htab') ?_
      · rw [hlen] at hrest
        simp only [bind, Except.bind]
        rw [hrest]
        constructor
        · intro h j g hj
          cases j with
          | zero =>
            obtain rfl : fp = g := by simpa using hj
            exact hins.mp ⟨xs, hxs⟩
          | succ j =>
            rw [show done.length + (j + 1) = done.length + 1 + j from by omega]
            exact h j g (by simpa using hj)
        · intro h j g hj
          rw [show done.length + 1 + j = done.length + (j + 1) from by omega]
          exact h (j + 1) g (by simpa using hj)
      · simp only [List.length_append, List.length_take, List.length_drop]
        omega

/-- A pass of a converting call with room for the output. -/
theorem convertPass_ok_iff {prog : List SockFilter} {tab : List Nat} {buf : List BpfInsn}
    (htab : tab.length = prog.length) (hbuf : addrOf prog prog.length ≤ buf.length) :
    (∃ st, convertPass prog (some ⟨tab, buf⟩) = .ok st) ↔
      ∀ i fp, prog[i]? = some fp → InsnPasses prog tab i fp := by
  have hstart : addrOf prog ([] : List SockFilter).length = 0 + prologue.length := rfl
  have hroom : 0 + prologue.length ≤ buf.length := by
    rw [← hstart]
    exact Nat.le_trans (addrOf_mono prog (Nat.zero_le _)) hbuf
  have hat : TableAt prog tab ([] : List SockFilter).length tab :=
    ⟨htab, fun j hj => absurd hj (Nat.not_lt_zero j), fun _ _ => rfl⟩
  have hloop := @convertLoop_ok_iff prog tab prog [] tab
    (buf.take 0 ++ prologue ++ buf.drop (0 + prologue.length)) rfl hat (by
      simp only [List.length_append, List.length_take, List.length_drop]
      omega)
  simp only [List.length_nil, Nat.zero_add] at hloop
  unfold convertPass
  simp only [append_fits (d := ⟨tab, buf⟩) hroom, bind, Except.bind]
  rw [← hloop]
  rfl

/-- The displacement in the final layout of a jump of the expansion of instruction `i`. -/
def finalOff (prog : List SockFilter) (i : Nat) (p : Nat × Int) : Int :=
  addrOf prog p.2.toNat - (addrOf prog i + p.1) - 1

/-- Every jump fits in the final layout. -/
def FinalFits (prog : List SockFilter) : Prop :=
  ∀ i fp, prog[i]? = some fp → ∀ p ∈ jumpsOf i fp, Fits16 (finalOff prog i p)

/-- No jump to a later instruction stands behind output index 32767. -/
def NoLateForward (prog : List SockFilter) : Prop :=
  ∀ i fp, prog[i]? = some fp → ∀ p ∈ jumpsOf i fp, (i : Int) < p.2 →
    addrOf prog i + p.1 ≤ 32767

/-- In the second pass a displacement is that of the final layout. -/
theorem seenOff_layout {prog : List SockFilter} {i : Nat} {p : Nat × Int}
    (hp : TargetIn prog.length p.2) : seenOff prog (layout prog) i p = finalOff prog i p := by
  obtain ⟨h0, hlt⟩ := hp
  unfold seenOff finalOff
  rw [layout_getD (by omega), ite_self]
  omega

/-- In the first pass it is so for a jump back only; the start of the output stands for
a target ahead. -/
theorem seenOff_zeros {prog : List SockFilter} {i : Nat} {p : Nat × Int} :
    seenOff prog (List.replicate prog.length 0) i p =
      if p.2 ≤ i then finalOff prog i p else -(addrOf prog i + p.1 + 1) := by
  unfold seenOff finalOff
  split
  next => omega
  next =>
    have hzero : (List.replicate prog.length 0).getD p.2.toNat 0 = 0 := by
      rw [List.getD_eq_getElem?_getD, List.getElem?_replicate]
      split <;> rfl
    rw [hzero]
    omega

/-- In the first pass a jump ahead fits exactly if it stands at 32767 or before. -/
theorem fits_seenOff_zeros {prog : List SockFilter} {i : Nat} {p : Nat × Int} :
    Fits16 (seenOff prog (List.replicate prog.length 0) i p) ↔
      if p.2 ≤ i then Fits16 (finalOff prog i p) else addrOf prog i + p.1 ≤ 32767 := by
  rw [seenOff_zeros]
  split
  next => exact Iff.rfl
  next =>
    unfold Fits16
    omega

/-! ## The control of the passes -/

/-- Where control stands at `do_pass`: the passes made, the length of the last one, and
the table and buffer it left. -/
structure PassCtl where
  pass : Nat
  newFlen : Nat
  dest : Dest

/-- How the passes end. -/
inductive PassEnd where
  /-- `goto err` inside a pass. -/
  | failed (e : ConvErr)
  /-- `pass > 2`. -/
  | tooMany
  | stable (newFlen : Nat) (dest : Dest)

/-- One pass, and what follows it. -/
def passStep (prog : List SockFilter) (_ : Unit) (c : PassCtl) : Res PassCtl PassEnd :=
  match convertPass prog (some c.dest) with
  | .error e => .done (.failed e)
  | .ok st =>
    if c.newFlen ≠ st.pos then
      if c.pass + 1 > 2 then .done .tooMany
      else .next ⟨c.pass + 1, st.pos, st.dest.getD c.dest⟩
    else .done (.stable c.newFlen (st.dest.getD c.dest))

/-- `doPass` runs this machine. -/
theorem doPass_step (prog : List SockFilter) (fuel : Nat) (c : PassCtl) :
    doPass prog (fuel + 1) c.pass c.newFlen c.dest =
      match passStep prog () c with
      | .next c' => doPass prog fuel c'.pass c'.newFlen c'.dest
      | .done (.failed e) => .error e
      | .done .tooMany => .error .einval
      | .done (.stable n d) => .ok (n, d)
      | .fault => .error .einval := by
  rw [doPass]
  unfold passStep
  rcases convertPass prog (some c.dest) with e | st
  · rfl
  · simp only [bind, Except.bind]
    by_cases hlen : c.newFlen ≠ st.pos
    · simp only [if_pos hlen]
      by_cases hpass : c.pass + 1 > 2
      · simp only [if_pos hpass]
      · simp only [if_neg hpass]
    · simp only [if_neg hlen]

/-- Before the first pass. -/
def PassCtl.start (prog : List SockFilter) (buf : List BpfInsn) : PassCtl :=
  ⟨0, 0, ⟨List.replicate prog.length 0, buf⟩⟩

/-- Between the two passes. -/
structure PassCtl.Second (prog : List SockFilter) (n : Nat) (c : PassCtl) : Prop where
  pass : c.pass = 1
  newFlen : c.newFlen = addrOf prog prog.length
  addrs : c.dest.addrs = layout prog
  buf : c.dest.buf.length = n

theorem addrOf_pos (prog : List SockFilter) (i : Nat) : 0 < addrOf prog i := by
  unfold addrOf
  exact Nat.add_pos_left (by decide) _

/-- If the first pass does not end the run, the second is about to begin. -/
theorem passStep_start {prog : List SockFilter} {buf : List BpfInsn} {c : PassCtl}
    (h : passStep prog () (.start prog buf) = .next c) : c.Second prog buf.length := by
  unfold passStep at h
  split at h
  next => cases h
  next st hst =>
    obtain ⟨hpos, buf₁, hbuf₁, hdest⟩ := convertPass_addrs List.length_replicate hst
    split at h
    next =>
      split at h
      next => cases h
      next =>
        obtain rfl := Res.next.inj h
        rw [hdest]
        exact ⟨rfl, hpos, rfl, hbuf₁⟩
    next => cases h

/-- The second pass is the last: it can only fail or be as long as the first. -/
theorem passStep_second {prog : List SockFilter} {n : Nat} {c : PassCtl}
    (h : c.Second prog n) : (∃ e, passStep prog () c = .done (.failed e)) ∨
      ∃ d, passStep prog () c = .done (.stable (addrOf prog prog.length) d) := by
  have htab : c.dest.addrs.length = prog.length := by
    rw [h.addrs]
    exact layoutFrom_length _ _
  unfold passStep
  rcases hst : convertPass prog (some c.dest) with e | st
  · exact Or.inl ⟨e, rfl⟩
  · have hpos := (convertPass_addrs htab hst).1
    right
    simp only [h.newFlen, hpos, ne_eq, not_true_eq_false, if_false]
    exact ⟨_, rfl⟩

/-- Control passes `do_pass` twice at most. -/
theorem reach_passes {prog : List SockFilter} {buf : List BpfInsn} {c : PassCtl}
    (h : Reach (passStep prog) (fun _ => True) (.start prog buf) c) :
    c = .start prog buf ∨ c.Second prog buf.length := by
  induction h with
  | refl => exact Or.inl rfl
  | tail _ _ hstep ih =>
    rcases ih with rfl | hsecond
    · exact Or.inr (passStep_start hstep)
    · rcases passStep_second hsecond with ⟨e, he⟩ | ⟨d, hd⟩
      · rw [he] at hstep
        cases hstep
      · rw [hd] at hstep
        cases hstep

/-! ## Which calls return 0 -/

/-- Both passes of a call with room for the output get through. -/
theorem doPass_ok_iff {prog : List SockFilter} {buf : List BpfInsn}
    (hbuf : addrOf prog prog.length ≤ buf.length) :
    (∃ r, doPass prog 3 0 0 ⟨List.replicate prog.length 0, buf⟩ = .ok r) ↔
      (∀ i fp, prog[i]? = some fp → InsnPasses prog (List.replicate prog.length 0) i fp) ∧
        ∀ i fp, prog[i]? = some fp → InsnPasses prog (layout prog) i fp := by
  have hfirst := doPass_step prog 2 (.start prog buf)
  have hstart : doPass prog 3 0 0 ⟨List.replicate prog.length 0, buf⟩ =
      doPass prog (2 + 1) (PassCtl.start prog buf).pass (PassCtl.start prog buf).newFlen
        (PassCtl.start prog buf).dest := rfl
  rw [hstart, hfirst, ← convertPass_ok_iff (List.length_replicate) hbuf]
  rcases hst : convertPass prog (some ⟨List.replicate prog.length 0, buf⟩) with e | st
  · -- the first pass fails
    have hstep : passStep prog () (.start prog buf) = .done (.failed e) := by
      unfold passStep PassCtl.start
      simp only [hst]
    rw [hstep]
    exact iff_of_false (by simp) (by simp)
  · -- it gets through, and leaves the table that the second pass reads
    have hpos := (convertPass_addrs List.length_replicate hst).1
    have hne := addrOf_pos prog prog.length
    obtain ⟨c, hstep⟩ : ∃ c, passStep prog () (.start prog buf) = .next c := by
      unfold passStep PassCtl.start
      simp only [hst, hpos, if_pos (show 0 ≠ addrOf prog prog.length by omega),
        if_neg (show ¬(0 + 1 > 2) by omega)]
      exact ⟨_, rfl⟩
    have hsecond := passStep_start hstep
    have hbuf' : addrOf prog prog.length ≤ c.dest.buf.length := by
      rw [hsecond.buf]
      exact hbuf
    have hpass := @convertPass_ok_iff prog (layout prog) c.dest.buf (layoutFrom_length _ _) hbuf'
    have hdest : (⟨layout prog, c.dest.buf⟩ : Dest) = c.dest := by rw [← hsecond.addrs]
    rw [hdest] at hpass
    rw [hstep]
    dsimp only
    rw [doPass_step prog 1 c, ← hpass, and_iff_right ⟨st, rfl⟩]
    rcases passStep_second hsecond with ⟨e, he⟩ | ⟨d, hd⟩
    · rw [he]
      refine iff_of_false (by simp) ?_
      rintro ⟨st₂, hst₂⟩
      unfold passStep at he
      simp only [hst₂] at he
      split at he
      next => split at he <;> cases he
      next => cases he
    · rw [hd]
      refine iff_of_true ⟨_, rfl⟩ ?_
      unfold passStep at hd
      split at hd
      next => cases hd
      next st₂ hst₂ => exact ⟨st₂, hst₂⟩

/-- The converting call returns 0 exactly if every jump fits in the final layout and
none that leads forward stands too far behind in the output. -/
theorem convert_ok_iff {prog : List SockFilter} {buf : List BpfInsn} {n : Nat}
    (hsize : bpfConvertFilter true prog none 0 = .ok (none, n)) (hbuf : buf.length = n) :
    (∃ r, bpfConvertFilter true prog (some buf) n = .ok r) ↔
      FinalFits prog ∧ NoLateForward prog := by
  have hacc : Acceptable prog := sizing_ok_iff.mp ⟨n, hsize⟩
  have hn := bpfConvertFilter_sizing hsize
  have hcall : (∃ r, bpfConvertFilter true prog (some buf) n = .ok r) ↔
      ∃ r, doPass prog 3 0 0 ⟨List.replicate prog.length 0, buf⟩ = .ok r := by
    have hlen : ¬(prog.length = 0 ∨ prog.length > bpfMaxInsns) := by
      have := hacc.pos
      have := hacc.le
      omega
    unfold bpfConvertFilter
    rw [if_neg hlen]
    simp only [Bool.true_eq_false, if_false, bind, Except.bind]
    rcases hp : doPass prog 3 0 0 ⟨List.replicate prog.length 0, buf⟩ with e | ⟨newFlen, d⟩
    · exact iff_of_false (by simp) (by simp)
    · -- the length is the one announced, so the assertion at the end holds
      simp only [hn.trans (doPass_ok hp).1.symm, if_true]
      exact iff_of_true ⟨_, rfl⟩ ⟨_, rfl⟩
  rw [hcall, doPass_ok_iff (by omega)]
  constructor
  · rintro ⟨hfirst, hsecond⟩
    constructor
    · intro i fp hfp p hp
      obtain ⟨htarget, hfits⟩ := (hsecond i fp hfp).2 p hp
      exact seenOff_layout htarget ▸ hfits
    · -- the first pass has no entry for what is ahead, and measures to 0
      intro i fp hfp p hp hforward
      have hfits := fits_seenOff_zeros.mp ((hfirst i fp hfp).2 p hp).2
      rwa [if_neg (by omega)] at hfits
  · rintro ⟨hfinal, hforward⟩
    have hop : ∀ (i : Nat) fp, prog[i]? = some fp → fp.op ≠ none := fun i fp hfp =>
      hacc.known fp (List.mem_of_getElem? hfp)
    refine ⟨fun i fp hfp => ⟨hop i fp hfp, fun p hp => ?_⟩,
      fun i fp hfp => ⟨hop i fp hfp, fun p hp => ?_⟩⟩
    · refine ⟨hacc.jumps hfp hp, fits_seenOff_zeros.mpr ?_⟩
      split
      next => exact hfinal i fp hfp p hp
      next hnot => exact hforward i fp hfp p hp (by omega)
    · have htarget := hacc.jumps hfp hp
      exact ⟨htarget, (seenOff_layout htarget).symm ▸ hfinal i fp hfp p hp⟩

/-- In an output this short neither kind of misfit is possible: the sizing call alone
decides. Filters as libpcap compiles them are mostly of this kind. -/
theorem short_fits {prog : List SockFilter} (hacc : Acceptable prog)
    (hshort : addrOf prog prog.length ≤ 32766) : FinalFits prog ∧ NoLateForward prog := by
  have hplace : ∀ i fp, prog[i]? = some fp → ∀ p ∈ jumpsOf i fp,
      addrOf prog i + p.1 ≤ 32767 := by
    intro i fp hfp p hp
    have hpos := jumpsOf_pos hp
    have hlt := addrOf_le (List.getElem?_eq_some_iff.mp hfp).1
    obtain ⟨op, hop⟩ := Option.ne_none_iff_exists'.mp (hacc.known fp (List.mem_of_getElem? hfp))
    have hsize := convertSize_pos hop
    rw [addrOf_succ hfp] at hlt
    omega
  constructor
  · intro i fp hfp p hp
    obtain ⟨h0, hlt⟩ := hacc.jumps hfp hp
    have hi := hplace i fp hfp p hp
    have htarget := addrOf_mono prog (show p.2.toNat ≤ prog.length by omega)
    unfold Fits16 finalOff
    omega
  · intro i fp hfp p hp _
    exact hplace i fp hfp p hp

/-- **When the converting call rejects only jumps that do not fit.** For a program the
sizing call returned `n` for, "the call returns 0 if and only if every jump fits in
the final layout" is right exactly if some jump does not fit there, or no jump to a
later instruction stands behind output index 32767. -/
theorem rejects_misfits_iff {prog : List SockFilter} {buf : List BpfInsn} {n : Nat}
    (hsize : bpfConvertFilter true prog none 0 = .ok (none, n)) (hbuf : buf.length = n) :
    ((∃ r, bpfConvertFilter true prog (some buf) n = .ok r) ↔ FinalFits prog) ↔
      ¬ FinalFits prog ∨ NoLateForward prog := by
  rw [convert_ok_iff hsize hbuf]
  constructor
  · intro h
    by_cases hfinal : FinalFits prog
    · exact Or.inr (h.mpr hfinal).2
    · exact Or.inl hfinal
  · rintro (hnot | hforward)
    · exact iff_of_false (fun h => hnot h.1) hnot
    · exact and_iff_left hforward

/-- `icmp` becomes 54 instructions, and both of its jumps fit. -/
theorem rejects_misfits_iff_icmp :
    (∃ r, bpfConvertFilter true icmpProgram (some (List.replicate 54 bpfZeroInsn)) 54 = .ok r) ∧
      FinalFits icmpProgram := by
  have hsize : bpfConvertFilter true icmpProgram none 0 = .ok (none, 54) := rfl
  obtain ⟨hfits, hforward⟩ := short_fits (sizing_ok_iff.mp ⟨54, hsize⟩) (by decide)
  exact ⟨((rejects_misfits_iff hsize rfl).mpr (Or.inr hforward)).mpr hfits, hfits⟩

/-! ## Both modes -/

/-- A pass that gets through knows every opcode and has every target inside. -/
theorem convertLoop_known {len : Nat} {rest : List SockFilter} :
    ∀ {i pos : Nat} {d : Dest} {st : PassState},
      convertLoop len i rest { pos := pos, dest := some d } = .ok st →
      ∀ j fp, rest[j]? = some fp →
        fp.op ≠ none ∧ ∀ p ∈ jumpsOf (i + j) fp, TargetIn len p.2 := by
  induction rest with
  | nil =>
    intro i pos d st _ j fp hfp
    cases hfp
  | cons fp rest ih =>
    intro i pos d st h j g hj
    obtain ⟨xs, hxs, -, h'⟩ := convertLoop_cons h
    cases j with
    | zero =>
      obtain rfl : fp = g := by simpa using hj
      obtain ⟨hknown, hjumps⟩ := convertInsn_isSome.mp ⟨xs, hxs⟩
      exact ⟨hknown, fun p hp => (hjumps p hp).1⟩
    | succ j =>
      rw [show i + (j + 1) = i + 1 + j from by omega]
      exact ih h' j g (by simpa using hj)

/-- What the converting call takes, the sizing call takes. -/
theorem acceptable_of_convert {alloc : Bool} {prog : List SockFilter} {buf : List BpfInsn}
    {m : Nat} {r : Option (List BpfInsn) × Nat}
    (h : bpfConvertFilter alloc prog (some buf) m = .ok r) : Acceptable prog := by
  unfold bpfConvertFilter at h
  split at h
  next => cases h
  next hlen =>
    refine acceptable_iff.mpr ⟨hlen, fun i fp hfp => ?_⟩
    cases alloc with
    | false => cases h
    | true =>
      rcases hst : convertPass prog (some ⟨List.replicate prog.length 0, buf⟩) with e | st
      · simp only [Bool.true_eq_false, if_false, doPass, hst, bind, Except.bind] at h
        cases h
      · unfold convertPass at hst
        rcases ha : PassState.append { pos := 0, dest := some ⟨List.replicate prog.length 0, buf⟩ }
            prologue with e | st₁
        · simp only [ha, bind, Except.bind] at hst
          cases hst
        · obtain ⟨-, rfl⟩ := append_ok ha
          simp only [ha, bind, Except.bind] at hst
          have hknown := convertLoop_known hst i fp hfp
          rwa [Nat.zero_add] at hknown

/-- No expansion is longer than that of a load of the header length. -/
theorem convertSize_le (fp : SockFilter) : convertSize fp ≤ 27 := by
  have hpre := jmpPrefix_length_le fp
  unfold convertSize
  rcases fp.op with _ | op
  · exact Nat.zero_le 27
  · cases op with
    | jmp op src => dsimp only; split <;> omega
    | alu op src => dsimp only; split <;> omega
    | ldAbs size => dsimp only; split <;> omega
    | ldInd size => dsimp only; split <;> omega
    | _ => simp

/-- At most six jumps of a packet load wait for the failure epilogue. -/
theorem packetLoad_failJmps (code : BitVec 8) (imm : BitVec 32) :
    (packetLoad code imm).failJmps.length ≤ 6 := by
  unfold packetLoad
  by_cases hmode : bpfMode code = bpfInd
  · simp only [if_pos hmode, Emitter.start, Emitter.emit, Emitter.emitFail, List.length_append,
      List.length_cons, List.length_nil]
    omega
  · simp only [if_neg hmode, Emitter.start, Emitter.emit, Emitter.emitFail, List.length_append,
      List.length_cons, List.length_nil]
    omega

/-- A pass from a state that control reaches at `do_pass` fails with `goto err` only. -/
theorem reach_failed {prog : List SockFilter} {buf : List BpfInsn} {c : PassCtl}
    (h : Reach (passStep prog) (fun _ => True) (.start prog buf) c)
    (hbuf : addrOf prog prog.length ≤ buf.length) {e : ConvErr}
    (he : passStep prog () c = .done (.failed e)) : e = .einval := by
  have hroom : addrOf prog prog.length ≤ c.dest.buf.length := by
    rcases reach_passes h with rfl | hsecond
    · exact hbuf
    · rw [hsecond.buf]
      exact hbuf
  unfold passStep at he
  split at he
  next e' herr =>
    have hpass := convertPass_error hroom herr
    cases he
    exact hpass
  next =>
    split at he
    next => split at he <;> cases he
    next => cases he

/-- The output of a call that returns 0, whatever was in the buffer. -/
theorem convert_output {prog : List SockFilter} {n : Nat} {buf : List BpfInsn}
    {r : Option (List BpfInsn)} {m : Nat}
    (hsize : bpfConvertFilter true prog none 0 = .ok (none, n)) (hbuf : buf.length = n)
    (h : bpfConvertFilter true prog (some buf) n = .ok (r, m)) :
    ∃ out, r = some out ∧ m = n ∧ out.length = n ∧
      ∀ buf' : List BpfInsn, buf'.length = n →
        bpfConvertFilter true prog (some buf') n = .ok (some out, n) := by
  obtain ⟨-, hm, out, rfl⟩ := bpfConvertFilter_converting h
  subst hm
  have hacc : Accepted prog out := ⟨m, buf, hsize, hbuf, h⟩
  refine ⟨out, rfl, rfl, ?_, fun buf' hbuf' => ?_⟩
  · rw [hacc.length_eq, bpfConvertFilter_sizing hsize]
  · -- success is a matter of displacements, and the text of the table
    obtain ⟨⟨r', m'⟩, h'⟩ :=
      (convert_ok_iff hsize hbuf').mpr ((convert_ok_iff hsize hbuf).mp ⟨_, h⟩)
    obtain ⟨-, rfl, out', rfl⟩ := bpfConvertFilter_converting h'
    obtain ⟨-, body, hbody, rfl⟩ := hacc.text
    obtain ⟨-, body', hbody', rfl⟩ := Accepted.text ⟨m', buf', hsize, hbuf', h'⟩
    rw [h', Option.some.inj (hbody'.symm.trans hbody)]

theorem sizing_alloc (alloc : Bool) {prog : List SockFilter} {newLen : Nat} :
    bpfConvertFilter alloc prog none newLen = bpfConvertFilter true prog none newLen := rfl

/-- **The two modes agree.** What the sizing call rejects the converting call rejects.
For the length the sizing call returns, the converting call makes at most two passes,
none of which writes past the buffer; it fails in no other way than the two error
codes, so its assertion holds; and when it returns 0 nothing of the buffer's former
contents is left. The expansion buffer and the table of failure jumps are large
enough. -/
theorem modes_agree (prog : List SockFilter) :
    (∀ alloc newLen e, bpfConvertFilter alloc prog none newLen = .error e →
      ∀ buf m, ∃ e', bpfConvertFilter alloc prog (some buf) m = .error e') ∧
    (∀ n, bpfConvertFilter true prog none 0 = .ok (none, n) →
      ∀ buf : List BpfInsn, buf.length = n →
        (∀ c, Reach (passStep prog) (fun _ => True) (.start prog buf) c →
          c.pass ≤ 1 ∧ passStep prog () c ≠ .done .tooMany ∧
            ∀ e, passStep prog () c = .done (.failed e) → e = .einval) ∧
        (∀ alloc e, bpfConvertFilter alloc prog (some buf) n = .error e →
          e = .einval ∨ e = .enomem) ∧
        ∀ r m, bpfConvertFilter true prog (some buf) n = .ok (r, m) →
          ∃ out, r = some out ∧ m = n ∧ out.length = n ∧
            ∀ buf' : List BpfInsn, buf'.length = n →
              bpfConvertFilter true prog (some buf') n = .ok (some out, n)) ∧
    (∀ len addrs i fp xs, convertInsn len addrs i fp = some xs → xs.length ≤ 128) ∧
    (∀ i fp, ∀ p ∈ jumpsOf i fp, p.1 < 128) ∧
    ∀ code imm, (packetLoad code imm).failJmps.length ≤ 8 := by
  refine ⟨?_, ?_, ?_, ?_, ?_⟩
  · intro alloc newLen e he buf m
    rcases h : bpfConvertFilter alloc prog (some buf) m with e' | r
    · exact ⟨e', rfl⟩
    · obtain ⟨n, hn⟩ := (@sizing_ok_iff alloc prog newLen).mpr (acceptable_of_convert h)
      rw [hn] at he
      cases he
  · intro n hsize buf hbuf
    have hroom : addrOf prog prog.length ≤ buf.length := by
      rw [hbuf, bpfConvertFilter_sizing hsize]
    -- the controls that are reached: the start, and the start of the second pass
    refine ⟨fun c hc => ⟨?_, ?_, fun e he => reach_failed hc hroom he⟩, ?_, ?_⟩
    · rcases reach_passes hc with rfl | hsecond
      · exact Nat.zero_le 1
      · exact Nat.le_of_eq hsecond.pass
    · intro hmany
      rcases reach_passes hc with rfl | hsecond
      · unfold passStep PassCtl.start at hmany
        split at hmany
        next => cases hmany
        next => split at hmany <;> cases hmany
      · rcases passStep_second hsecond with ⟨e, he⟩ | ⟨d, hd⟩
        · rw [he] at hmany
          cases hmany
        · rw [hd] at hmany
          cases hmany
    · intro alloc e he
      exact bpfConvertFilter_error ((sizing_alloc alloc).trans hsize) hbuf he
    · intro r m h
      exact convert_output hsize hbuf h
  · intro len addrs i fp xs h
    rw [convertInsn_length h]
    exact Nat.le_trans (convertSize_le fp) (by decide)
  · intro i fp p hp
    have := jumpsOf_pos hp
    omega
  · intro code imm
    exact Nat.le_trans (packetLoad_failJmps code imm) (by decide)

/-! ## A jump the first pass measures wrongly -/

/-- `ldxb 4*([14]&0xf)`, 27 instructions long when expanded. -/
def mshInsn : SockFilter := ⟨0xb1, 0, 0, 14⟩

/-- A comparison and the two returns it chooses between, behind 1214 loads of the
header length. -/
def lateJump : List SockFilter :=
  List.replicate 1214 mshInsn ++ [⟨0x15, 0, 1, 80⟩, ⟨0x06, 0, 0, 1⟩, ⟨0x06, 0, 0, 0⟩]

theorem lateJump_get {i : Nat} {fp : SockFilter} (h : lateJump[i]? = some fp) :
    fp = mshInsn ∨ (i = 1214 ∧ fp = ⟨0x15, 0, 1, 80⟩) ∨ fp.op = some .retK := by
  unfold lateJump at h
  by_cases hi : i < 1214
  · rw [List.getElem?_append_left (by rw [List.length_replicate]; exact hi),
      List.getElem?_replicate, if_pos hi] at h
    exact Or.inl (Option.some.inj h).symm
  · rw [List.getElem?_append_right (by rw [List.length_replicate]; omega),
      List.length_replicate] at h
    obtain ⟨j, rfl⟩ : ∃ j, i = 1214 + j := ⟨i - 1214, by omega⟩
    rw [Nat.add_sub_cancel_left] at h
    rcases j with _ | _ | _ | j
    · exact Or.inr (Or.inl ⟨rfl, (Option.some.inj h).symm⟩)
    · obtain rfl := Option.some.inj h
      exact Or.inr (Or.inr rfl)
    · obtain rfl := Option.some.inj h
      exact Or.inr (Or.inr rfl)
    · cases h

theorem lateJump_jumps {i : Nat} {fp : SockFilter} (h : lateJump[i]? = some fp) {p : Nat × Int}
    (hp : p ∈ jumpsOf i fp) : i = 1214 ∧ p = (0, 1216) := by
  rcases lateJump_get h with rfl | ⟨rfl, rfl⟩ | hop
  · cases hp
  · exact ⟨rfl, List.mem_singleton.mp hp⟩
  · unfold jumpsOf at hp
    rw [hop] at hp
    cases hp

theorem lateJump_length : lateJump.length = 1217 := by
  unfold lateJump
  rw [List.length_append, List.length_replicate]
  rfl

theorem lateJump_addrOf (j : Nat) : addrOf lateJump (1214 + j) = 32783 + totalSize
    (([⟨0x15, 0, 1, 80⟩, ⟨0x06, 0, 0, 1⟩, ⟨0x06, 0, 0, 0⟩] : List SockFilter).take j) := by
  have hmsh : convertSize mshInsn = 27 := rfl
  have hprologue : prologue.length = 5 := rfl
  unfold addrOf lateJump totalSize
  rw [List.take_append, List.length_replicate, Nat.add_sub_cancel_left, List.map_append,
    List.sum_append, List.take_of_length_le (by rw [List.length_replicate]; omega),
    List.map_replicate, List.sum_replicate_nat, hmsh, hprologue]
  omega

/-- The sizing call takes it. -/
theorem lateJump_acceptable : Acceptable lateJump := by
  have hop : (⟨0x15, 0, 1, 80⟩ : SockFilter).op = some (.jmp .jeq .k) := rfl
  refine ⟨by rw [lateJump_length]; decide, by rw [lateJump_length]; decide, ?_, ?_, ?_⟩
  · intro fp hfp
    obtain ⟨i, hi⟩ := List.mem_iff_getElem?.mp hfp
    rcases lateJump_get hi with rfl | ⟨rfl, rfl⟩ | h
    · decide
    · decide
    · rw [h]
      decide
  · intro i fp hfp hja
    rcases lateJump_get hfp with rfl | ⟨rfl, rfl⟩ | h
    · cases hja
    · cases hja
    · rw [h] at hja
      cases hja
  · intro i fp op src hfp hjmp
    rcases lateJump_get hfp with rfl | ⟨rfl, rfl⟩ | h
    · cases hjmp
    · rw [lateJump_length]
      decide
    · rw [h] at hjmp
      cases hjmp

/-- The only jump leads two instructions ahead, but from output index 32783: the call
fails. -/
theorem lateJump_rejected :
    FinalFits lateJump ∧ ∃ n, bpfConvertFilter true lateJump none 0 = .ok (none, n) ∧
      ∀ buf : List BpfInsn, buf.length = n →
        ¬ ∃ r, bpfConvertFilter true lateJump (some buf) n = .ok r := by
  have hat := lateJump_addrOf 0
  have hat₂ := lateJump_addrOf 2
  have hsize₂ : totalSize
      (([⟨0x15, 0, 1, 80⟩, ⟨0x06, 0, 0, 1⟩, ⟨0x06, 0, 0, 0⟩] : List SockFilter).take 2) = 3 := rfl
  simp only [List.take_zero, totalSize_nil, Nat.add_zero] at hat
  rw [hsize₂] at hat₂
  refine ⟨fun i fp hfp p hp => ?_, ?_⟩
  · obtain ⟨rfl, rfl⟩ := lateJump_jumps hfp hp
    have htarget : ((1216 : Int)).toNat = 1214 + 2 := rfl
    unfold Fits16 finalOff
    rw [htarget, hat₂, hat]
    decide
  · obtain ⟨n, hn⟩ := sizing_ok_iff.mpr lateJump_acceptable
    refine ⟨n, hn, fun buf hbuf hok => ?_⟩
    have hforward := ((convert_ok_iff hn hbuf).mp hok).2
    have hget : lateJump[1214]? = some ⟨0x15, 0, 1, 80⟩ := by
      unfold lateJump
      rw [List.getElem?_append_right (by rw [List.length_replicate]), List.length_replicate]
      rfl
    have hbad := hforward 1214 _ hget (0, 1216) (List.mem_singleton.mpr rfl) (by decide)
    rw [hat] at hbad
    omega

end SkbTracer.Pcap2Bpf
