import SkbTracer.Pcap2Bpf.Expansion

/-!
# What the passes of `bpf_convert_filter` leave behind

The size of an expansion depends on the classic instruction alone
(`convertInsn_length`: not on the table, not on the mode, not on the pass). So
every pass that gets through records the same table, `layout prog`, the table is
complete after the first pass, and the second pass writes with it what
`translate` describes: each expansion after the one before, every jump taken
with the final addresses.

`addrOf prog i` is where the expansion of instruction `i` starts, and stands for the
table in all statements; `addrOf_succ` and `addrOf_mono` are all that is used of it.

The steps, for a loop over the instructions and then for the passes:

- `convertLoop_addrs`: a pass leaves the table `layout prog`, whatever table it began
  with;
- `convertLoop_translate`: a pass that begins with this table writes `translate`;
- `doPass_ok`: a call that gets through has made two passes, and the second wrote
  `translate` with the final table;
- `convertLoop_error`, `doPass_error`: and one that fails has run into `goto err`.

`Accepted.text` is the summary the other files start from: if the sizing
call returns `n` and the converting call accepts a buffer of `n` instructions,
the output is the prologue followed by `translate`, and it is `n` long.

At the end stand two programs that are used as examples: one of two instructions, and
libpcap's for the expression `icmp`.
-/

namespace SkbTracer.Pcap2Bpf

open SkbTracer.Bpf

/-! ## Addresses -/

/-- The addresses of consecutive expansions, the first of them at `pos`. -/
def layoutFrom (pos : Nat) : List SockFilter → List Nat
  | [] => []
  | fp :: rest => pos :: layoutFrom (pos + convertSize fp) rest

/-- The final address table. -/
def layout (prog : List SockFilter) : List Nat := layoutFrom prologue.length prog

/-- The sizes of the expansions of `prog`, added up. -/
def totalSize (prog : List SockFilter) : Nat := (prog.map convertSize).sum

/-- Where the expansion of instruction `i` starts. -/
def addrOf (prog : List SockFilter) (i : Nat) : Nat :=
  prologue.length + totalSize (prog.take i)

@[simp] theorem totalSize_nil : totalSize [] = 0 := rfl

@[simp] theorem totalSize_cons (fp : SockFilter) (rest : List SockFilter) :
    totalSize (fp :: rest) = convertSize fp + totalSize rest := by
  simp [totalSize]

theorem layoutFrom_length (pos : Nat) (prog : List SockFilter) :
    (layoutFrom pos prog).length = prog.length := by
  induction prog generalizing pos with
  | nil => rfl
  | cons fp rest ih => simp [layoutFrom, ih]

/-- and it is what the instructions before it take up. -/
theorem layoutFrom_getD (pos : Nat) (prog : List SockFilter) {i : Nat} (hi : i < prog.length) :
    (layoutFrom pos prog).getD i 0 = pos + totalSize (prog.take i) := by
  induction prog generalizing pos i with
  | nil => exact absurd hi (by simp)
  | cons fp rest ih =>
    cases i with
    | zero => simp [layoutFrom]
    | succ i =>
      have hi' : i < rest.length := by simpa using hi
      simp only [layoutFrom, List.getD_cons_succ, List.take_succ_cons, totalSize_cons]
      rw [ih _ hi']
      omega

/-- The table holds the address of every expansion. -/
theorem layout_getD {prog : List SockFilter} {i : Nat} (hi : i < prog.length) :
    (layout prog).getD i 0 = addrOf prog i := layoutFrom_getD _ prog hi

theorem addrOf_succ {prog : List SockFilter} {i : Nat} {fp : SockFilter}
    (h : prog[i]? = some fp) : addrOf prog (i + 1) = addrOf prog i + convertSize fp := by
  unfold addrOf totalSize
  rw [List.take_add_one, h]
  simp
  omega

theorem addrOf_mono (prog : List SockFilter) {i j : Nat} (h : i ≤ j) :
    addrOf prog i ≤ addrOf prog j := by
  obtain ⟨between, hbetween⟩ := List.take_prefix_take_left (l := prog) h
  unfold addrOf totalSize
  rw [← hbetween, List.map_append, List.sum_append]
  omega

/-- With the final table, the displacement of a jump leads from its position to
the expansion of its target. -/
theorem emitJmp_layout {prog : List SockFilter} {i pos : Nat} {target : Int} {insn j : BpfInsn}
    (hi : i < prog.length)
    (h : emitJmp prog.length (some (layout prog)) i pos target insn = some j) :
    ∃ t : Nat, target = t ∧ t < prog.length ∧ ∃ o : BitVec 16, j = { insn with off := o } ∧
      (addrOf prog i : Int) + pos + 1 + o.toInt = addrOf prog t := by
  unfold emitJmp at h
  split at h
  next => exact absurd h (by simp)
  next htarget =>
    obtain ⟨t, rfl⟩ : ∃ t : Nat, target = t := ⟨target.toNat, by omega⟩
    have ht : t < prog.length := by omega
    dsimp only at h
    rw [Int.toNat_natCast, layout_getD ht, layout_getD hi] at h
    split at h
    next => exact absurd h (by simp)
    next hoff =>
      refine ⟨t, rfl, ht, _, (Option.some.inj h).symm, ?_⟩
      rw [BitVec.toInt_ofInt, Int.bmod_eq_of_le (by omega) (by omega)]
      omega

/-! ## The final text -/

/-- All expansions from instruction `i` on, written with the table `addrs`. -/
def translate (len : Nat) (addrs : List Nat) : Nat → List SockFilter → Option (List BpfInsn)
  | _, [] => some []
  | i, fp :: rest => do
    let xs ← convertInsn len (some addrs) i fp
    let ys ← translate len addrs (i + 1) rest
    some (xs ++ ys)

/-- The text is the first expansion and the text of the others. -/
theorem translate_cons {len i : Nat} {addrs : List Nat} {fp : SockFilter}
    {rest : List SockFilter} {body : List BpfInsn} :
    translate len addrs i (fp :: rest) = some body ↔
      ∃ xs, convertInsn len (some addrs) i fp = some xs ∧
        ∃ ys, translate len addrs (i + 1) rest = some ys ∧ xs ++ ys = body := by
  simp only [translate, Option.bind_eq_bind, Option.bind_eq_some_iff, Option.some.injEq]

theorem translate_length {len i : Nat} {addrs : List Nat} {prog : List SockFilter}
    {body : List BpfInsn} (h : translate len addrs i prog = some body) :
    body.length = totalSize prog := by
  induction prog generalizing i body with
  | nil =>
    obtain rfl : [] = body := Option.some.inj h
    rfl
  | cons fp rest ih =>
    obtain ⟨xs, hxs, ys, hys, rfl⟩ := translate_cons.mp h
    rw [List.length_append, convertInsn_length hxs, ih hys, totalSize_cons]

/-- The expansion of each instruction sits in the text at its address. -/
theorem translate_at {len i : Nat} {addrs : List Nat} {prog : List SockFilter}
    {body : List BpfInsn} (h : translate len addrs i prog = some body) {j : Nat}
    {fp : SockFilter} (hj : prog[j]? = some fp) :
    ∃ xs pre post, convertInsn len (some addrs) (i + j) fp = some xs ∧
      body = pre ++ xs ++ post ∧ pre.length = totalSize (prog.take j) := by
  induction prog generalizing i j body with
  | nil => exact absurd hj (by simp)
  | cons fp₀ rest ih =>
    obtain ⟨xs, hxs, ys, hys, rfl⟩ := translate_cons.mp h
    cases j with
    | zero =>
      obtain rfl : fp₀ = fp := by simpa using hj
      exact ⟨xs, [], ys, hxs, by simp, by simp⟩
    | succ j =>
      obtain ⟨zs, pre, post, hzs, rfl, hpre⟩ := ih hys (by simpa using hj)
      refine ⟨zs, xs ++ pre, post, ?_, by simp, ?_⟩
      · rw [show i + (j + 1) = i + 1 + j from by omega]
        exact hzs
      · rw [List.length_append, convertInsn_length hxs, hpre]
        simp

/-! ## The passes -/

/-- A write that stays in the buffer. -/
theorem blit_ok {buf out xs : List BpfInsn} {pos : Nat} (h : blit buf pos xs = .ok out) :
    pos + xs.length ≤ buf.length ∧ out = buf.take pos ++ xs ++ buf.drop (pos + xs.length) := by
  unfold blit at h
  split at h
  next hle => exact ⟨hle, (Except.ok.inj h).symm⟩
  next => exact absurd h (by simp)

theorem append_ok {pos : Nat} {d : Dest} {xs : List BpfInsn} {st : PassState}
    (h : PassState.append { pos := pos, dest := some d } xs = .ok st) :
    pos + xs.length ≤ d.buf.length ∧ st = ⟨pos + xs.length,
      some ⟨d.addrs, d.buf.take pos ++ xs ++ d.buf.drop (pos + xs.length)⟩⟩ := by
  unfold PassState.append at h
  dsimp only at h
  cases hb : blit d.buf pos xs with
  | error e => simp [hb, bind, Except.bind] at h
  | ok buf =>
    obtain ⟨hle, rfl⟩ := blit_ok hb
    simp only [hb, bind, Except.bind, Except.ok.injEq] at h
    exact ⟨hle, h.symm⟩

theorem convertLoop_cons {len i pos : Nat} {fp : SockFilter} {rest : List SockFilter}
    {d : Dest} {st : PassState}
    (h : convertLoop len i (fp :: rest) { pos := pos, dest := some d } = .ok st) :
    ∃ xs, convertInsn len (some (d.addrs.set i pos)) i fp = some xs ∧
      pos + xs.length ≤ d.buf.length ∧
      convertLoop len (i + 1) rest ⟨pos + xs.length, some ⟨d.addrs.set i pos,
        d.buf.take pos ++ xs ++ d.buf.drop (pos + xs.length)⟩⟩ = .ok st := by
  simp only [convertLoop, PassState.record, Option.map_some] at h
  split at h
  next => exact absurd h (by simp)
  next xs hxs =>
    cases ha : PassState.append { pos := pos, dest := some { d with addrs := d.addrs.set i pos } }
        xs with
    | error e => simp [ha, bind, Except.bind] at h
    | ok st₁ =>
      obtain ⟨hle, rfl⟩ := append_ok ha
      simp only [ha, bind, Except.bind] at h
      exact ⟨xs, hxs, hle, h⟩

/-- The sizing loop adds the sizes up. -/
theorem convertLoop_sizing {len : Nat} {prog : List SockFilter} :
    ∀ {i pos : Nat} {st : PassState},
      convertLoop len i prog { pos := pos, dest := none } = .ok st →
      st.pos = pos + totalSize prog := by
  induction prog with
  | nil =>
    intro i pos st h
    rw [← Except.ok.inj h]
    simp
  | cons fp rest ih =>
    intro i pos st h
    simp only [convertLoop, PassState.record, Option.map_none] at h
    split at h
    next => exact absurd h (by simp)
    next xs hxs =>
      simp only [PassState.append, bind, Except.bind] at h
      rw [ih h, convertInsn_length hxs, totalSize_cons]
      omega

/-- The sizing loop fails in no other way than `goto err`. -/
theorem convertLoop_sizing_error {len : Nat} {prog : List SockFilter} {e : ConvErr} :
    ∀ {i pos : Nat}, convertLoop len i prog { pos := pos, dest := none } = .error e →
      e = .einval := by
  induction prog with
  | nil =>
    intro i pos h
    cases h
  | cons fp rest ih =>
    intro i pos h
    simp only [convertLoop, PassState.record, Option.map_none] at h
    split at h
    next => exact (Except.error.inj h).symm
    next xs hxs =>
      simp only [PassState.append, bind, Except.bind] at h
      exact ih h

theorem take_set_succ {α : Type} (l : List α) (i : Nat) (x : α) (hi : i < l.length) :
    (l.set i x).take (i + 1) = l.take i ++ [x] := by
  rw [List.take_add_one, List.getElem?_set_self (by omega)]
  simp [List.take_set_of_le]

/-- A converting pass that gets through has recorded the address of every
expansion and kept the buffer's length. -/
theorem convertLoop_addrs {len : Nat} {prog : List SockFilter} :
    ∀ {i pos : Nat} {d : Dest} {st : PassState},
      d.addrs.length = i + prog.length →
      convertLoop len i prog { pos := pos, dest := some d } = .ok st →
      st.pos = pos + totalSize prog ∧
      ∃ buf, buf.length = d.buf.length ∧
        st.dest = some { addrs := d.addrs.take i ++ layoutFrom pos prog, buf := buf } := by
  induction prog with
  | nil =>
    intro i pos d st hlen h
    rw [← Except.ok.inj h]
    refine ⟨by simp, d.buf, rfl, ?_⟩
    simp only [layoutFrom, List.append_nil]
    rw [List.take_of_length_le (by simp at hlen; omega)]
  | cons fp rest ih =>
    intro i pos d st hlen h
    obtain ⟨xs, hxs, hle, h'⟩ := convertLoop_cons h
    simp only [List.length_cons] at hlen
    obtain ⟨hpos, buf, hbuf, hdest⟩ := ih (by simp; omega) h'
    have hsize := convertInsn_length hxs
    refine ⟨by rw [hpos, totalSize_cons]; omega, buf, ?_, ?_⟩
    · rw [hbuf]
      simp
      omega
    · rw [hdest, take_set_succ _ _ _ (by omega), layoutFrom, hsize]
      simp

/-- Two writes one behind the other are one write. -/
theorem blit_append (buf : List BpfInsn) {pos : Nat} {xs ys : List BpfInsn}
    (h : pos + xs.length ≤ buf.length) :
    (buf.take pos ++ xs ++ buf.drop (pos + xs.length)).take (pos + xs.length) ++ ys ++
      (buf.take pos ++ xs ++ buf.drop (pos + xs.length)).drop (pos + xs.length + ys.length) =
    buf.take pos ++ (xs ++ ys) ++ buf.drop (pos + (xs ++ ys).length) := by
  have hlen : (buf.take pos ++ xs).length = pos + xs.length := by
    rw [List.length_append, List.length_take, Nat.min_eq_left (by omega)]
  rw [List.take_append_of_le_length (by omega), List.take_of_length_le (by omega),
    ← hlen, List.drop_append, List.drop_eq_nil_of_le (by omega)]
  simp only [List.nil_append, List.drop_drop, List.append_assoc, List.length_append]
  rw [show (buf.take pos).length + xs.length + (((buf.take pos).length + xs.length + ys.length) -
    ((buf.take pos).length + xs.length)) = pos + (xs.length + ys.length) from by
      rw [List.length_append] at hlen; omega]

/-- A pass that starts with the final table writes `translate` with it. -/
theorem convertLoop_translate {len : Nat} {prog : List SockFilter} :
    ∀ {i pos : Nat} {d : Dest} {st : PassState},
      d.addrs.drop i = layoutFrom pos prog → pos ≤ d.buf.length →
      convertLoop len i prog { pos := pos, dest := some d } = .ok st →
      ∃ body, translate len d.addrs i prog = some body ∧ pos + body.length ≤ d.buf.length ∧
        st.dest = some { addrs := d.addrs
                         buf := d.buf.take pos ++ body ++ d.buf.drop (pos + body.length) } := by
  induction prog with
  | nil =>
    intro i pos d st _ hpos h
    refine ⟨[], rfl, by simpa using hpos, ?_⟩
    rw [← Except.ok.inj h]
    simp
  | cons fp rest ih =>
    intro i pos d st htab hpos h
    have hget : d.addrs[i]? = some pos := by
      have := congrArg (fun l => l[0]?) htab
      simpa [layoutFrom] using this
    have hset : d.addrs.set i pos = d.addrs := by
      obtain ⟨hi, hp⟩ := List.getElem?_eq_some_iff.mp hget
      rw [← hp]
      exact List.set_getElem_self hi
    obtain ⟨xs, hxs, hle, h'⟩ := convertLoop_cons h
    rw [hset] at hxs h'
    have htab' : d.addrs.drop (i + 1) = layoutFrom (pos + xs.length) rest := by
      have := congrArg (fun l => l.drop 1) htab
      rw [convertInsn_length hxs]
      simpa [layoutFrom] using this
    obtain ⟨ys, hys, hle', hdest⟩ := ih
      (d := ⟨d.addrs, d.buf.take pos ++ xs ++ d.buf.drop (pos + xs.length)⟩) htab'
      (by simp; omega) h'
    refine ⟨xs ++ ys, translate_cons.mpr ⟨xs, hxs, ys, hys, rfl⟩, ?_, ?_⟩
    · simp at hle' ⊢
      omega
    · rw [hdest]
      dsimp only
      rw [blit_append _ hle]

/-! ## The whole call -/

/-- A pass of a converting call: the table it leaves is `layout prog`. -/
theorem convertPass_addrs {prog : List SockFilter} {d : Dest} {st : PassState}
    (hlen : d.addrs.length = prog.length) (h : convertPass prog (some d) = .ok st) :
    st.pos = addrOf prog prog.length ∧ ∃ buf, buf.length = d.buf.length ∧
      st.dest = some { addrs := layout prog, buf := buf } := by
  unfold convertPass at h
  cases ha : PassState.append { pos := 0, dest := some d } prologue with
  | error e => simp [ha, bind, Except.bind] at h
  | ok st₁ =>
    obtain ⟨hle, rfl⟩ := append_ok ha
    simp only [ha, bind, Except.bind] at h
    obtain ⟨hpos, buf, hbuf, hdest⟩ := convertLoop_addrs (by simpa using hlen) h
    refine ⟨?_, buf, ?_, ?_⟩
    · rw [hpos, addrOf, List.take_length, Nat.zero_add]
    · rw [hbuf]
      simp only [Nat.zero_add] at hle
      simp
      omega
    · rw [hdest]
      simp [layout]

/-- A pass that starts with the table `layout prog` writes the prologue and the
translation to the front of the buffer. -/
theorem convertPass_translate {prog : List SockFilter} {buf : List BpfInsn} {st : PassState}
    (h : convertPass prog (some { addrs := layout prog, buf := buf }) = .ok st) :
    ∃ body, translate prog.length (layout prog) 0 prog = some body ∧
      st.dest = some { addrs := layout prog
                       buf := (prologue ++ body) ++ buf.drop (prologue ++ body).length } := by
  unfold convertPass at h
  cases ha : PassState.append { pos := 0, dest := some { addrs := layout prog, buf := buf } }
      prologue with
  | error e => simp [ha, bind, Except.bind] at h
  | ok st₁ =>
    obtain ⟨hle, rfl⟩ := append_ok ha
    simp only [ha, bind, Except.bind, Nat.zero_add, List.take_zero, List.nil_append] at h hle
    obtain ⟨body, hbody, -, hdest⟩ := convertLoop_translate (by simp [layout]) (by simp) h
    refine ⟨body, hbody, ?_⟩
    rw [hdest]
    have := @blit_append buf 0 prologue body (by simpa using hle)
    simp only [Nat.zero_add, List.take_zero, List.nil_append] at this
    rw [this]

/-- The passes of an accepted converting call: two, and the second one writes
the translation with the final table. -/
theorem doPass_ok {prog : List SockFilter} {buf : List BpfInsn} {newFlen : Nat} {d : Dest}
    (h : doPass prog 3 0 0 { addrs := List.replicate prog.length 0, buf := buf } =
      .ok (newFlen, d)) :
    newFlen = addrOf prog prog.length ∧ ∃ (body buf₁ : List BpfInsn),
      translate prog.length (layout prog) 0 prog = some body ∧ buf₁.length = buf.length ∧
      d.buf = (prologue ++ body) ++ buf₁.drop (prologue ++ body).length := by
  rw [doPass] at h
  cases h₁ : convertPass prog (some { addrs := List.replicate prog.length 0, buf := buf }) with
  | error e => simp [h₁, bind, Except.bind] at h
  | ok st₁ =>
    obtain ⟨hpos₁, buf₁, hbuf₁, hdest₁⟩ := convertPass_addrs (by simp) h₁
    have hne : 0 ≠ addrOf prog prog.length := by
      simp only [addrOf, prologue, List.length_cons]
      omega
    simp only [h₁, bind, Except.bind, hdest₁, hpos₁, Option.getD_some, if_pos hne,
      if_neg (show ¬(0 + 1 > 2) by omega), doPass] at h
    -- the second pass starts with the table the first one left
    cases h₂ : convertPass prog (some { addrs := layout prog, buf := buf₁ }) with
    | error e => simp [h₂] at h
    | ok st₂ =>
      obtain ⟨hpos₂, -⟩ := convertPass_addrs
        (show (layout prog).length = prog.length from layoutFrom_length _ _) h₂
      obtain ⟨body, hbody, hdest₂⟩ := convertPass_translate h₂
      simp only [h₂, hpos₂, hdest₂, ne_eq, not_true_eq_false, if_false, Option.getD_some,
        Except.ok.injEq, Prod.mk.injEq] at h
      obtain ⟨rfl, rfl⟩ := h
      exact ⟨rfl, body, buf₁, hbody, hbuf₁, rfl⟩

/-- The sizing call returns the prologue's and all expansions' sizes. -/
theorem bpfConvertFilter_sizing {alloc : Bool} {prog : List SockFilter} {newLen n : Nat}
    {r : Option (List BpfInsn)} (h : bpfConvertFilter alloc prog none newLen = .ok (r, n)) :
    n = addrOf prog prog.length := by
  unfold bpfConvertFilter at h
  split at h
  next => exact absurd h (by simp)
  next =>
    simp only [convertPass, PassState.append, bind, Except.bind, Nat.zero_add] at h
    cases hl : convertLoop prog.length 0 prog { pos := prologue.length, dest := none } with
    | error e => simp [hl] at h
    | ok st =>
      simp only [hl, Except.ok.injEq, Prod.mk.injEq] at h
      rw [← h.2, convertLoop_sizing hl, addrOf, List.take_length]

/-! ## How a call fails -/

/-- A write that fits does not fail. -/
theorem append_fits {pos : Nat} {d : Dest} {xs : List BpfInsn}
    (h : pos + xs.length ≤ d.buf.length) :
    PassState.append { pos := pos, dest := some d } xs = .ok ⟨pos + xs.length,
      some ⟨d.addrs, d.buf.take pos ++ xs ++ d.buf.drop (pos + xs.length)⟩⟩ := by
  simp only [PassState.append, blit, if_pos h, bind, Except.bind]

/-- In a buffer of the right size a pass fails in no other way than `goto err`. -/
theorem convertLoop_error {len : Nat} {prog : List SockFilter} {e : ConvErr} :
    ∀ {i pos : Nat} {d : Dest}, pos + totalSize prog ≤ d.buf.length →
      convertLoop len i prog { pos := pos, dest := some d } = .error e → e = .einval := by
  induction prog with
  | nil =>
    intro i pos d _ h
    cases h
  | cons fp rest ih =>
    intro i pos d hlen h
    rw [totalSize_cons] at hlen
    simp only [convertLoop, PassState.record, Option.map_some] at h
    split at h
    next => exact (Except.error.inj h).symm
    next xs hxs =>
      have hsize := convertInsn_length hxs
      have hfits : pos + xs.length ≤ d.buf.length := by omega
      rw [append_fits (d := ⟨d.addrs.set i pos, d.buf⟩) hfits] at h
      refine ih ?_ h
      simp only [List.length_append, List.length_take, List.length_drop]
      omega

/-- A pass with room fails with `-EINVAL` only, -/
theorem convertPass_error {prog : List SockFilter} {d : Dest} {e : ConvErr}
    (hlen : addrOf prog prog.length ≤ d.buf.length) (h : convertPass prog (some d) = .error e) :
    e = .einval := by
  rw [addrOf, List.take_length] at hlen
  have hfits : 0 + prologue.length ≤ d.buf.length := by omega
  simp only [convertPass, append_fits hfits, bind, Except.bind] at h
  refine convertLoop_error ?_ h
  simp only [List.length_append, List.length_take, List.length_drop]
  omega

/-- and so do all of them. -/
theorem doPass_error {prog : List SockFilter} {buf : List BpfInsn} {e : ConvErr}
    (hlen : addrOf prog prog.length ≤ buf.length)
    (h : doPass prog 3 0 0 { addrs := List.replicate prog.length 0, buf := buf } = .error e) :
    e = .einval := by
  rw [doPass] at h
  cases h₁ : convertPass prog (some { addrs := List.replicate prog.length 0, buf := buf }) with
  | error e₁ =>
    simp only [h₁, bind, Except.bind] at h
    cases h
    exact convertPass_error hlen h₁
  | ok st₁ =>
    obtain ⟨hpos₁, buf₁, hbuf₁, hdest₁⟩ := convertPass_addrs (by simp) h₁
    have hne : 0 ≠ addrOf prog prog.length := by
      simp only [addrOf, prologue, List.length_cons]
      omega
    simp only [h₁, bind, Except.bind, hdest₁, hpos₁, Option.getD_some, if_pos hne,
      if_neg (show ¬(0 + 1 > 2) by omega), doPass] at h
    cases h₂ : convertPass prog (some { addrs := layout prog, buf := buf₁ }) with
    | error e₂ =>
      simp only [h₂] at h
      cases h
      exact convertPass_error (hbuf₁ ▸ hlen) h₂
    | ok st₂ =>
      obtain ⟨hpos₂, -⟩ := convertPass_addrs
        (show (layout prog).length = prog.length from layoutFrom_length _ _) h₂
      simp only [h₂, hpos₂, ne_eq, not_true_eq_false, if_false] at h
      cases h

/-- The sizing call leaves no buffer. -/
theorem bpfConvertFilter_sizing_none {alloc : Bool} {prog : List SockFilter} {newLen n : Nat}
    {r : Option (List BpfInsn)} (h : bpfConvertFilter alloc prog none newLen = .ok (r, n)) :
    r = none := by
  unfold bpfConvertFilter at h
  split at h
  next => cases h
  next =>
    simp only [bind, Except.bind] at h
    split at h
    next => cases h
    next => cases h; rfl

/-- The sizing call fails with `-EINVAL`. -/
theorem bpfConvertFilter_sizing_error {alloc : Bool} {prog : List SockFilter} {newLen : Nat}
    {e : ConvErr} (h : bpfConvertFilter alloc prog none newLen = .error e) : e = .einval := by
  unfold bpfConvertFilter at h
  split at h
  next => exact (Except.error.inj h).symm
  next =>
    simp only [convertPass, PassState.append, bind, Except.bind] at h
    cases hl : convertLoop prog.length 0 prog { pos := 0 + prologue.length, dest := none } with
    | error e' =>
      simp only [hl] at h
      cases h
      exact convertLoop_sizing_error hl
    | ok st =>
      simp only [hl] at h
      cases h

/-- With the buffer the sizing call asked for, the converting call fails with
`-EINVAL` or `-ENOMEM`: it writes nothing past the buffer and its assertion holds. -/
theorem bpfConvertFilter_error {alloc : Bool} {prog : List SockFilter} {n : Nat}
    {buf : List BpfInsn} {e : ConvErr} (hsize : bpfConvertFilter alloc prog none 0 = .ok (none, n))
    (hbuf : buf.length = n) (h : bpfConvertFilter alloc prog (some buf) n = .error e) :
    e = .einval ∨ e = .enomem := by
  have hn := bpfConvertFilter_sizing hsize
  unfold bpfConvertFilter at h
  split at h
  next => exact Or.inl (Except.error.inj h).symm
  next =>
    cases alloc with
    | false => exact Or.inr (Except.error.inj h).symm
    | true =>
      simp only [Bool.true_eq_false, if_false, bind, Except.bind] at h
      cases hp : doPass prog 3 0 0 { addrs := List.replicate prog.length 0, buf := buf } with
      | error e' =>
        simp only [hp] at h
        cases h
        exact Or.inl (doPass_error (by omega) hp)
      | ok r =>
        obtain ⟨newFlen, d⟩ := r
        simp only [hp, if_pos (hn.trans (doPass_ok hp).1.symm)] at h
        cases h

/-- A converting call that returns 0 had its table and leaves `*new_len` alone. -/
theorem bpfConvertFilter_converting {alloc : Bool} {prog : List SockFilter} {buf : List BpfInsn}
    {n m : Nat} {r : Option (List BpfInsn)}
    (h : bpfConvertFilter alloc prog (some buf) n = .ok (r, m)) :
    alloc = true ∧ m = n ∧ ∃ out, r = some out := by
  unfold bpfConvertFilter at h
  split at h
  next => cases h
  next =>
    cases alloc with
    | false => cases h
    | true =>
      simp only [Bool.true_eq_false, if_false, bind, Except.bind] at h
      split at h
      next => cases h
      next d hd =>
        split at h
        next => cases h; exact ⟨rfl, rfl, _, rfl⟩
        next => cases h

/-! ## Accepted programs -/

/-- An accepted classic program: the sizing call returns 0 with length `n`, and
the converting call, given a buffer of `n` instructions, returns 0 with `out` in
it. -/
def Accepted (prog : List SockFilter) (out : List BpfInsn) : Prop :=
  ∃ n buf, bpfConvertFilter true prog none 0 = .ok (none, n) ∧ buf.length = n ∧
    bpfConvertFilter true prog (some buf) n = .ok (some out, n)

theorem Accepted.length_le {prog : List SockFilter} {out : List BpfInsn} (h : Accepted prog out) :
    prog.length ≤ bpfMaxInsns := by
  obtain ⟨n, buf, hsize, -, -⟩ := h
  unfold bpfConvertFilter at hsize
  split at hsize
  next => exact absurd hsize (by simp)
  next hlen => omega

/-- **The output of an accepted conversion**: the prologue and, after it, every
expansion written with the final addresses, exactly filling the buffer. -/
theorem Accepted.text {prog : List SockFilter} {out : List BpfInsn} (h : Accepted prog out) :
    0 < prog.length ∧ ∃ body, translate prog.length (layout prog) 0 prog = some body ∧
      out = prologue ++ body := by
  obtain ⟨n, buf, hsize, hbuf, hconv⟩ := h
  have hn := bpfConvertFilter_sizing hsize
  unfold bpfConvertFilter at hconv
  split at hconv
  next => exact absurd hconv (by simp)
  next hlen =>
    simp only [Bool.true_eq_false, if_false, bind, Except.bind] at hconv
    cases hp : doPass prog 3 0 0 { addrs := List.replicate prog.length 0, buf := buf } with
    | error e => simp [hp] at hconv
    | ok r =>
      obtain ⟨newFlen, d⟩ := r
      obtain ⟨hflen, body, buf₁, hbody, hbuf₁, hdbuf⟩ := doPass_ok hp
      simp only [hp] at hconv
      split at hconv
      next =>
        simp only [Except.ok.injEq, Prod.mk.injEq, Option.some.injEq, and_true] at hconv
        refine ⟨by omega, body, hbody, ?_⟩
        have hout : (prologue ++ body).length = n := by
          rw [List.length_append, translate_length hbody, hn, addrOf, List.take_length]
        rw [← hconv, hdbuf, hout, ← hbuf, ← hbuf₁, List.drop_length, List.append_nil]
      next => exact absurd hconv (by simp)

/-- The output is as long as the addresses say. -/
theorem Accepted.length_eq {prog : List SockFilter} {out : List BpfInsn} (h : Accepted prog out) :
    out.length = addrOf prog prog.length := by
  obtain ⟨-, body, hbody, rfl⟩ := h.text
  rw [List.length_append, translate_length hbody, addrOf, List.take_length]

/-! ## Two accepted programs -/

/-- `ldb [0]; ret a`: accept the packets whose first byte is not zero. -/
def firstByte : List SockFilter := [⟨0x30, 0, 0, 0⟩, ⟨0x16, 0, 0, 0⟩]

/-- What `firstByte` is converted to. -/
def firstByteCode : List BpfInsn := prologue ++ emitPacketLoad 0x30 0 ++ convertRetA

theorem firstByte_accepted : Accepted firstByte firstByteCode :=
  ⟨31, List.replicate 31 bpfZeroInsn, rfl, rfl, rfl⟩

theorem firstByte_valid : CbpfValid firstByte where
  scratch := by decide
  divisor := by
    intro fp hfp op _ hop
    have hops : ∀ fp ∈ firstByte, fp.op = some (.ldAbs .b) ∨ fp.op = some .retA := by decide
    rcases hops fp hfp with h | h
    · cases h.symm.trans hop
    · cases h.symm.trans hop
  shift := by decide
  ret := ⟨_, rfl, Or.inl rfl⟩
  init := scratchInitialised_of_unused (by decide)

/-- `icmp` as libpcap compiles it for Ethernet. -/
def icmpProgram : List SockFilter :=
  [⟨0x28, 0, 0, 12⟩, ⟨0x15, 0, 3, 0x800⟩, ⟨0x30, 0, 0, 23⟩, ⟨0x15, 0, 1, 1⟩,
    ⟨0x06, 0, 0, 262144⟩, ⟨0x06, 0, 0, 0⟩]

/-- The converting call takes `icmpProgram`. -/
theorem icmpProgram_accepted : ∃ out, Accepted icmpProgram out :=
  ⟨_, 54, List.replicate 54 bpfZeroInsn, rfl, rfl, rfl⟩

end SkbTracer.Pcap2Bpf
