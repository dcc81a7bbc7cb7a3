import SkbTracer.Pcap2Bpf.Inject
import SkbTracer.Trace.PcapFilters

/-!
# `custom_prepare_load_skbtracer_prog`

Before a program is loaded, every function of its `func_info` table whose name
starts with `filter_pcap_ebpf_l` has its first seven instructions replaced by a
filter. Each replacement moves everything behind it, so the loop carries the sum
of the moves in `offset` and adds it to the next function's place.

`stubEdits` is the list of these replacements in the coordinates of the program
as it was. The result should be that program with all of them carried out at once, and
with every call leading to where its target is now: `Spliced (Retargeted _)`.

- `Injected.step`: one replacement keeps the loop invariant. After the functions `done`,
  the program is the original with the edits of `done` carried out and its calls
  retargeted, and `offset` is the shift of every position behind them.
- `prepareLoop_spliced`: the loop, by induction on the functions that are left.
- `prepare_load_injects`: so the program that is loaded is as it should be, for every
  table and any two filters that call no subprogram, if `NoEmptyFirst`.
- `prepare_load_empty_first`: an empty filter at index 0, with which a call goes wrong.

The displacement sums of `inject_ebpf_filter` wrap for a call whose target is
index 0. A function other than the first gets there only if everything in front
of it is replaced by nothing, which `NoEmptyFirst` excludes. `FuncTable` is what the
compiler promises of the table: ascending places, bodies long enough, and calls that lead
to functions.
-/

namespace SkbTracer.Trace

open SkbTracer.Bpf
open SkbTracer.Pcap2Bpf
open SkbTracer.Lib (Edit Kept Boundary Ordered Spliced newPos shift shift_append)

/-! ## The function -/

/-- `struct bpf_func_info`. -/
structure BpfFuncInfo where
  insnOff : BitVec 32
  typeId : BitVec 32
  deriving DecidableEq, Repr

/-- `struct bpf_line_info`. -/
structure BpfLineInfo where
  insnOff : BitVec 32
  fileNameOff : BitVec 32
  lineOff : BitVec 32
  lineCol : BitVec 32
  deriving DecidableEq, Repr

/-- The fields of `struct btf_type` read here. -/
structure BtfType where
  nameOff : BitVec 32
  info : BitVec 32
  deriving DecidableEq, Repr

/-- `BTF_KIND_FUNC`. -/
def btfKindFunc : BitVec 32 := 12

/-- `btf_is_func`. -/
def btfIsFunc (t : BtfType) : Bool := (t.info >>> 24) &&& 0x1f == btfKindFunc

/-- The type information of the object: `btf__type_by_id` and
`btf__name_by_offset`, which return null for an id or offset they do not have. -/
structure Btf where
  typeById : BitVec 32 → Option BtfType
  nameByOffset : BitVec 32 → Option String

/-- The fields of `struct bpf_prog_load_opts` used here; a null pointer with
count zero is the empty list. -/
structure BpfProgLoadOpts where
  funcInfo : List BpfFuncInfo
  lineInfo : List BpfLineInfo
  deriving DecidableEq, Repr

/-- `STUB_ORIG_LEN`. -/
def stubOrigLen : Nat := 7

/-- The name of the function, if it is one whose body is replaced. -/
def stubName (btf : Btf) (f : BpfFuncInfo) : Option (List Char) :=
  match btf.typeById f.typeId with
  | none => none
  | some t =>
    if btfIsFunc t then
      match btf.nameByOffset t.nameOff with
      | none => none
      | some name => if funcPrefix.isPrefixOf name.toList then some name.toList else none
    else none

/-- The loop over the functions from number `i` on. -/
def prepareLoop (btf : Btf) (p : Filters) (setRet : Nat → Int) :
    Nat → List BpfFuncInfo → BitVec 64 → List BpfInsn → Except InjectFault (Int × List BpfInsn)
  | _, [], _, prog => .ok (0, prog)
  | i, f :: rest, offset, prog =>
    match stubName btf f with
    | none => prepareLoop btf p setRet (i + 1) rest offset prog
    | some name => do
      let insns := stubFilter p name
      let currentPos := f.insnOff.setWidth 64 + offset
      let origLen := BitVec.ofNat 64 stubOrigLen
      let (ret, prog) ← injectEbpfFilter (setRet i) prog currentPos origLen insns
      if ret ≠ 0 then .ok (ret, prog)
      else
        prepareLoop btf p setRet (i + 1) rest
          (offset + (BitVec.ofNat 64 insns.length - origLen)) prog

/-- `custom_prepare_load_skbtracer_prog(prog, opts, cookie)`: its result, and the
instructions of `prog` and the options afterwards. `setRet i` is what
`bpf_program__set_insns` returns for function `i`. -/
def customPrepareLoadSkbtracerProg (btf : Btf) (p : Filters) (setRet : Nat → Int)
    (prog : List BpfInsn) (opts : BpfProgLoadOpts) :
    Except InjectFault (Int × List BpfInsn × BpfProgLoadOpts) := do
  let (ret, prog) ← prepareLoop btf p setRet 0 opts.funcInfo 0 prog
  if ret ≠ 0 then .ok (ret, prog, opts)
  -- drop func_info and line_info
  else .ok (0, prog, { funcInfo := [], lineInfo := [] })

/-! ## What it is for -/

/-- The replacement of the body of `f`, a function of this name. -/
def bodyEdit (p : Filters) (f : BpfFuncInfo) (name : List Char) : Edit BpfInsn :=
  { off := f.insnOff.toNat, width := stubOrigLen, text := stubFilter p name }

/-- The replacement of the body of `f`, if it has one. -/
def stubEdit (btf : Btf) (p : Filters) (f : BpfFuncInfo) : Option (Edit BpfInsn) :=
  (stubName btf f).map (bodyEdit p f)

/-- All replacements, in the coordinates of the original program. -/
def stubEdits (btf : Btf) (p : Filters) (funcs : List BpfFuncInfo) : List (Edit BpfInsn) :=
  funcs.filterMap (stubEdit btf p)

/-- What the copy `y` of instruction `i` must be: the same, but for the `imm` of a
subprogram call, which leads to where its target is now. -/
def Retargeted (es : List (Edit BpfInsn)) (i : Nat) (x y : BpfInsn) : Prop :=
  y = { x with imm := y.imm } ∧ (¬ insnIsSubprogCall x → y = x) ∧
    (insnIsSubprogCall x → ∀ t : Nat, (t : Int) = i + x.imm.toInt + 1 →
      newPos es i + y.imm.toInt + 1 = newPos es t)

/-- A program and its table of functions. -/
structure FuncTable (btf : Btf) (prog : List BpfInsn) (funcs : List BpfFuncInfo) : Prop where
  ascending : funcs.Pairwise fun f g => f.insnOff < g.insnOff
  inside : ∀ f ∈ funcs, f.insnOff.toNat < prog.length
  /-- A function whose body is replaced has at least seven instructions. -/
  stub : ∀ f ∈ funcs, (stubName btf f).isSome →
    f.insnOff.toNat + stubOrigLen ≤ prog.length ∧
      ∀ g ∈ funcs, f.insnOff < g.insnOff → f.insnOff.toNat + stubOrigLen ≤ g.insnOff.toNat
  /-- A call leads to the entry of a function other than the one at index 0. -/
  calls : ∀ (i : Nat) (x : BpfInsn), prog[i]? = some x → insnIsSubprogCall x →
    ∃ f ∈ funcs, f.insnOff ≠ 0 ∧ (f.insnOff.toNat : Int) = i + x.imm.toInt + 1

/-- The filters call no subprogram. -/
def Filters.CallFree (p : Filters) : Prop :=
  ∀ x, x ∈ p.filterPcapL2 ∨ x ∈ p.filterPcapL3 → ¬ insnIsSubprogCall x

/-- If the body at index 0 is replaced, then not by nothing. -/
def NoEmptyFirst (es : List (Edit BpfInsn)) : Prop := ∀ e ∈ es, e.off = 0 → e.text ≠ []

instance (es : List (Edit BpfInsn)) : Decidable (NoEmptyFirst es) :=
  inferInstanceAs (Decidable (∀ e ∈ es, _ → _))

variable {btf : Btf} {p : Filters} {prog : List BpfInsn} {funcs fs : List BpfFuncInfo}
  {f : BpfFuncInfo} {e : Edit BpfInsn}

/-- A replacement is of seven instructions, at the function's place, by one of the two
filters. -/
theorem stubEdit_eq_some (h : stubEdit btf p f = some e) :
    e.off = f.insnOff.toNat ∧ e.width = stubOrigLen ∧ (stubName btf f).isSome ∧
      (e.text = p.filterPcapL2 ∨ e.text = p.filterPcapL3) := by
  obtain ⟨name, hname, rfl⟩ := Option.map_eq_some_iff.mp h
  refine ⟨rfl, rfl, by rw [hname]; rfl, ?_⟩
  unfold bodyEdit stubFilter
  dsimp only
  split
  next => exact Or.inr rfl
  next => exact Or.inl rfl

theorem mem_stubEdits : e ∈ stubEdits btf p fs ↔ ∃ f ∈ fs, stubEdit btf p f = some e :=
  List.mem_filterMap

theorem stubEdits_callFree (hfree : p.CallFree) (he : e ∈ stubEdits btf p fs) :
    ∀ x ∈ e.text, ¬ insnIsSubprogCall x := by
  intro x hx
  obtain ⟨f, -, hf⟩ := mem_stubEdits.mp he
  obtain ⟨-, -, -, htext | htext⟩ := stubEdit_eq_some hf
  · exact hfree x (Or.inl (htext ▸ hx))
  · exact hfree x (Or.inr (htext ▸ hx))

/-- Two functions of the table, one before the other. -/
theorem FuncTable.apart (ht : FuncTable btf prog funcs) {g : BpfFuncInfo} (hf : f ∈ funcs)
    (hg : g ∈ funcs) (hfg : f.insnOff < g.insnOff) (he : stubEdit btf p f = some e) :
    e.off + e.width ≤ g.insnOff.toNat := by
  obtain ⟨hoff, hwidth, hstub, -⟩ := stubEdit_eq_some he
  rw [hoff, hwidth]
  exact (ht.stub f hf hstub).2 g hg hfg

/-- The replacements of a part of the table do not overlap. -/
theorem FuncTable.ordered (ht : FuncTable btf prog funcs) (hsub : ∀ f ∈ fs, f ∈ funcs)
    (hfs : fs.Pairwise fun f g => f.insnOff < g.insnOff) : Ordered (stubEdits btf p fs) where
  width e he := by
    obtain ⟨f, -, hf⟩ := mem_stubEdits.mp he
    rw [(stubEdit_eq_some hf).2.1]
    decide
  apart := by
    unfold stubEdits
    rw [List.pairwise_filterMap]
    refine List.Pairwise.imp_of_mem ?_ hfs
    intro f g hf hg hfg e he e' he'
    rw [(stubEdit_eq_some he').1]
    exact ht.apart (hsub f hf) (hsub g hg) hfg he

/-- An entry is not inside a replaced range. -/
theorem FuncTable.boundary (ht : FuncTable btf prog funcs) (hsub : ∀ f ∈ fs, f ∈ funcs)
    {g : BpfFuncInfo} (hg : g ∈ funcs) : Boundary (stubEdits btf p fs) g.insnOff.toNat := by
  intro e he
  obtain ⟨f, hf, hfe⟩ := mem_stubEdits.mp he
  rcases Nat.lt_or_ge f.insnOff.toNat g.insnOff.toNat with hlt | hge
  · exact Or.inr (ht.apart (hsub f hf) hg (BitVec.lt_def.mpr hlt) hfe)
  · exact Or.inl ((stubEdit_eq_some hfe).1 ▸ hge)

theorem insnIsSubprogCall_imm (x : BpfInsn) (imm : BitVec 32) :
    insnIsSubprogCall { x with imm := imm } = insnIsSubprogCall x := rfl

/-! ## One replacement -/

/-- The loop invariant: the functions `done` are dealt with. -/
structure Injected (btf : Btf) (p : Filters) (prog : List BpfInsn) (done : List BpfFuncInfo)
    (cur : List BpfInsn) (offset : BitVec 64) : Prop where
  spliced : Spliced (Retargeted (stubEdits btf p done)) (stubEdits btf p done) prog cur
  /-- `offset` is the shift of every position behind the replaced ranges. -/
  offset : ∀ q, (∀ e ∈ stubEdits btf p done, e.off < q) →
    offset = BitVec.ofInt 64 (shift (stubEdits btf p done) q)

theorem Injected.init : Injected btf p prog [] prog 0 where
  spliced := Spliced.refl fun i x => ⟨rfl, fun _ => rfl, fun _ t ht => by
    simp only [stubEdits, List.filterMap_nil, newPos, shift]
    omega⟩
  offset _ _ := rfl

/-- What the edits of `done` and one more replacement make of an instruction. -/
theorem retargeted_snoc {es : List (Edit BpfInsn)} {pos i q : Nat} {cur : List BpfInsn}
    {x y z : BpfInsn} (ht : FuncTable btf prog funcs) (ho : Ordered es)
    (hb : Ordered.Behind es e) (hwidth : e.width = stubOrigLen)
    (hentry : ∀ g ∈ funcs, Boundary (es ++ [e]) g.insnOff.toNat)
    (hempty : NoEmptyFirst es) (hpos : (pos : Int) = newPos es e.off)
    (hend : e.off + e.width ≤ prog.length) (hcur : (cur.length : Int) = newPos es prog.length)
    (hlen : cur.length < 2 ^ 31) (hlen' : newPos (es ++ [e]) prog.length < 2 ^ 31)
    (hi : prog[i]? = some x) (hk : Kept (es ++ [e]) i) (hq : (q : Int) = newPos es i)
    (hy : cur[q]? = some y) (hR : Retargeted es i x y) (hP : Copied pos e.width e.text q y z) :
    Retargeted (es ++ [e]) i x z := by
  obtain ⟨hxy, hnot, hcall⟩ := hR
  have hsame : insnIsSubprogCall y = insnIsSubprogCall x := by rw [hxy, insnIsSubprogCall_imm]
  by_cases hx : insnIsSubprogCall x
  · obtain ⟨g, hg, hg0, hgt⟩ := ht.calls i x hi hx
    have hbg : Boundary es g.insnOff.toNat := fun d hd => hentry g hg d (List.mem_append_left _ hd)
    obtain ⟨u, hu⟩ := Int.eq_ofNat_of_zero_le (Lib.newPos_nonneg ho hbg)
    have hlast : Boundary es prog.length := fun d hd => Or.inr (by
      have := hb.apart d hd
      omega)
    -- the target is not index 0
    have hpos0 : 0 < g.insnOff.toNat := Nat.pos_of_ne_zero fun h0 =>
      hg0 (BitVec.eq_of_toNat_eq h0)
    have h0 := (Lib.newPos_le_lt ho (fun d _ => Or.inl (Nat.zero_le _)) hbg hpos0).2 hempty
    rw [Lib.newPos_zero] at h0
    -- nor is it just behind the start of the range
    have h1 : u ≠ pos + 1 := by
      rcases hentry g hg e (List.mem_append_right _ (List.mem_singleton_self e)) with hle | hge
      · have := Lib.newPos_mono ho hbg hb.boundary hle
        omega
      · rw [hwidth] at hge
        have h7 : stubOrigLen = 7 := rfl
        have := Lib.newPos_sub hb.off_lt fun d hd =>
          Nat.lt_of_lt_of_le (hb.off_lt d hd) (Nat.le_trans (Nat.le_add_right _ _) hge)
        omega
    have hle := Lib.newPos_mono ho hbg hlast (Nat.le_of_lt (ht.inside g hg))
    have hend' := Lib.newPos_sub hb.off_lt fun d hd =>
      Nat.lt_of_lt_of_le (hb.off_lt d hd) (Nat.le_trans (Nat.le_add_right _ e.width) hend)
    have hplace := Lib.newPos_place ho hb hpos hlast hcur
    rw [hplace] at hlen'
    obtain ⟨hzy, hz⟩ := call_moved hb.width hP (hsame.trans hx) (Lib.kept_place ho hb hpos hk hq)
      (u := u) (by have := hcall hx _ hgt; omega) (by omega) h1 (by omega)
      (List.getElem?_eq_some_iff.mp hy).1 (by omega) hlen hlen'
    refine ⟨by rw [hzy, hxy], fun h => absurd hx h, fun _ t htt => ?_⟩
    obtain rfl : t = g.insnOff.toNat := by omega
    rw [Lib.newPos_place ho hb hpos (Lib.kept_snoc.mp hk).1.boundary hq, hz,
      Lib.newPos_place ho hb hpos hbg hu.symm]
  · have hzx : z = x := by
      rw [copied_of_not_call hP (by rwa [hsame]), hnot hx]
    exact ⟨by rw [hzx], fun _ => hzx, fun h => absurd h hx⟩

/-- The next function of the table is behind the replacements made so far. -/
theorem FuncTable.behind (ht : FuncTable btf prog funcs) {done : List BpfFuncInfo}
    {name : List Char} (hsub : ∀ g ∈ done ++ [f], g ∈ funcs)
    (hasc : (done ++ [f]).Pairwise fun g g' => g.insnOff < g'.insnOff) :
    Ordered.Behind (stubEdits btf p done) (bodyEdit p f name) := by
  have hlt : ∀ g ∈ done, g.insnOff < f.insnOff := fun g hg =>
    (List.pairwise_append.mp hasc).2.2 g hg f (List.mem_singleton_self f)
  have hf : f ∈ funcs := hsub f (List.mem_append_right _ (List.mem_singleton_self f))
  refine ⟨Nat.succ_pos 6, fun d hd => ?_, fun d hd => ?_⟩
  · obtain ⟨g, hg, hgd⟩ := mem_stubEdits.mp hd
    exact ht.apart (hsub g (List.mem_append_left _ hg)) hf (hlt g hg) hgd
  · obtain ⟨g, hg, hgd⟩ := mem_stubEdits.mp hd
    rw [(stubEdit_eq_some hgd).1]
    exact BitVec.lt_def.mp (hlt g hg)

/-- The replacement of the body of the next function succeeds and keeps the invariant. -/
theorem Injected.step {done : List BpfFuncInfo} {cur : List BpfInsn} {offset : BitVec 64}
    {name : List Char} (h : Injected btf p prog done cur offset) (ht : FuncTable btf prog funcs)
    (hsub : ∀ g ∈ done ++ [f], g ∈ funcs)
    (hasc : (done ++ [f]).Pairwise fun g g' => g.insnOff < g'.insnOff)
    (hfree : p.CallFree) (hempty : NoEmptyFirst (stubEdits btf p done))
    (hlen : newPos (stubEdits btf p done) prog.length < 2 ^ 31)
    (hlen' : newPos (stubEdits btf p (done ++ [f])) prog.length < 2 ^ 31)
    (hname : stubName btf f = some name) :
    ∃ new, injectEbpfFilter 0 cur (f.insnOff.setWidth 64 + offset) (BitVec.ofNat 64 stubOrigLen)
        (stubFilter p name) = .ok (0, new) ∧
      Injected btf p prog (done ++ [f]) new (offset +
        (BitVec.ofNat 64 (stubFilter p name).length - BitVec.ofNat 64 stubOrigLen)) := by
  have hf : f ∈ funcs := hsub f (List.mem_append_right _ (List.mem_singleton_self f))
  have hdone : ∀ g ∈ done, g ∈ funcs := fun g hg => hsub g (List.mem_append_left _ hg)
  have ho : Ordered (stubEdits btf p done) := ht.ordered hdone (List.pairwise_append.mp hasc).1
  have hb : Ordered.Behind (stubEdits btf p done) (bodyEdit p f name) := ht.behind hsub hasc
  have hend : f.insnOff.toNat + stubOrigLen ≤ prog.length := (ht.stub f hf (by rw [hname]; rfl)).1
  have hsnoc : stubEdits btf p (done ++ [f]) = stubEdits btf p done ++ [bodyEdit p f name] := by
    simp only [stubEdits, stubEdit, List.filterMap_append, List.filterMap_cons,
      List.filterMap_nil, hname, Option.map_some]
  have hentry : ∀ g ∈ funcs,
      Boundary (stubEdits btf p done ++ [bodyEdit p f name]) g.insnOff.toNat := fun g hg => by
    rw [← hsnoc]
    exact ht.boundary hsub hg
  -- where the function is now
  obtain ⟨pos, hpos⟩ : ∃ pos : Nat, newPos (stubEdits btf p done) f.insnOff.toNat = pos :=
    Int.eq_ofNat_of_zero_le (Lib.newPos_nonneg ho hb.boundary)
  have hcurrent : f.insnOff.setWidth 64 + offset = BitVec.ofNat 64 pos := by
    rw [h.offset f.insnOff.toNat hb.off_lt, ← BitVec.ofInt_natCast, ← hpos, newPos,
      BitVec.ofInt_add, BitVec.ofInt_natCast, BitVec.ofNat_toNat]
  -- the range is inside the program as it is now
  have hcur := h.spliced.length
  have hlast : Boundary (stubEdits btf p done) prog.length := fun d hd =>
    Or.inr (Nat.le_trans (hb.apart d hd) (Nat.le_trans (Nat.le_add_right _ _) hend))
  have hrest : newPos (stubEdits btf p done) prog.length -
      newPos (stubEdits btf p done) f.insnOff.toNat = prog.length - f.insnOff.toNat :=
    Lib.newPos_sub hb.off_lt fun d hd =>
      Nat.lt_of_lt_of_le (hb.off_lt d hd) (Nat.le_trans (Nat.le_add_right _ stubOrigLen) hend)
  have hrange : pos + stubOrigLen ≤ cur.length := by omega
  rw [hsnoc] at hlen'
  have hplace := Lib.newPos_place ho hb hpos.symm hlast hcur
  have hsmall : cur.length + (stubFilter p name).length < 2 ^ 60 := by
    rw [hplace] at hlen'
    simp only [newPos, shift, Edit.gain, bodyEdit] at hlen'
    have h7 : stubOrigLen = 7 := rfl
    rw [if_pos (by omega)] at hlen'
    omega
  obtain ⟨new, hnew, hspl⟩ := inject_spliced 0 hb.width hrange hsmall
  refine ⟨new, hcurrent ▸ hnew, ?_, fun q hq => ?_⟩
  · rw [hsnoc]
    refine (h.spliced.snoc ho hb hend hpos.symm hspl fun d hd q y z hy hP => ?_).mono
      fun i x z hi hk hz => ?_
    · exact copied_of_not_call hP (stubEdits_callFree hfree hd y hy)
    · obtain ⟨q, y, hq, hy, hR, hP⟩ := hz
      exact retargeted_snoc ht ho hb rfl hentry hempty hpos.symm hend hcur
        (by omega) hlen' hi hk hq hy hR hP
  · rw [hsnoc] at hq ⊢
    have hone : shift [bodyEdit p f name] q = (bodyEdit p f name).gain := by
      rw [shift, if_pos (hq _ (List.mem_append_right _ (List.mem_singleton_self _))), shift,
        Int.add_zero]
    rw [shift_append, BitVec.ofInt_add, hone, delta_eq,
      h.offset q fun d hd => hq d (List.mem_append_left _ hd)]
    rfl

/-! ## The loop -/

/-- The loop, from any point on. -/
theorem prepareLoop_spliced {setRet : Nat → Int} (ht : FuncTable btf prog funcs)
    (hfree : p.CallFree) (hempty : NoEmptyFirst (stubEdits btf p funcs))
    (hlen : ∀ n, newPos (stubEdits btf p (funcs.take n)) prog.length < 2 ^ 31)
    (hret : ∀ i, setRet i = 0) {done rest : List BpfFuncInfo} (hfuncs : funcs = done ++ rest)
    {cur : List BpfInsn} {offset : BitVec 64} (h : Injected btf p prog done cur offset) (i : Nat) :
    ∃ out, prepareLoop btf p setRet i rest offset cur = .ok (0, out) ∧
      Spliced (Retargeted (stubEdits btf p funcs)) (stubEdits btf p funcs) prog out := by
  induction rest generalizing done cur offset i with
  | nil =>
    rw [List.append_nil] at hfuncs
    exact ⟨cur, rfl, hfuncs ▸ h.spliced⟩
  | cons f rest ih =>
    have hfuncs' : funcs = (done ++ [f]) ++ rest := by rw [hfuncs, List.append_assoc]; rfl
    have hsub : ∀ g ∈ done ++ [f], g ∈ funcs := fun g hg =>
      hfuncs' ▸ List.mem_append_left _ hg
    -- a function of another name leaves program and offset as they are
    cases hname : stubName btf f with
    | none =>
      have hsame : stubEdits btf p (done ++ [f]) = stubEdits btf p done := by
        simp only [stubEdits, stubEdit, List.filterMap_append, List.filterMap_cons,
          List.filterMap_nil, hname, Option.map_none, List.append_nil]
      obtain ⟨out, hrun, hout⟩ := ih hfuncs' ⟨hsame.symm ▸ h.spliced, hsame.symm ▸ h.offset⟩ (i + 1)
      refine ⟨out, ?_, hout⟩
      rw [prepareLoop, hname]
      exact hrun
    | some name =>
      have hasc : (done ++ [f]).Pairwise fun g g' => g.insnOff < g'.insnOff :=
        (List.pairwise_append.mp (hfuncs' ▸ ht.ascending)).1
      have hpre : NoEmptyFirst (stubEdits btf p done) := fun e he => by
        refine hempty e ?_
        obtain ⟨g, hg, hge⟩ := mem_stubEdits.mp he
        exact mem_stubEdits.mpr ⟨g, hsub g (List.mem_append_left _ hg), hge⟩
      have hlen₀ := hlen done.length
      have hlen₁ := hlen (done ++ [f]).length
      rw [hfuncs, List.take_left] at hlen₀
      rw [hfuncs', List.take_left] at hlen₁
      obtain ⟨new, hinj, hnew⟩ := h.step ht hsub hasc hfree hpre hlen₀ hlen₁ hname
      obtain ⟨out, hrun, hout⟩ := ih hfuncs' hnew (i + 1)
      refine ⟨out, ?_, hout⟩
      simp only [prepareLoop, hname, hret, hinj, bind, Except.bind]
      exact hrun

/-- **The injection run.** When every injection succeeds, the program is the
original with the first seven instructions of every function `filter_pcap_ebpf_l*`
replaced by the filter its name asks for, every other instruction in place, and
every subprogram call leading to where its target is now. -/
theorem prepare_load_injects {setRet : Nat → Int} {opts : BpfProgLoadOpts}
    (ht : FuncTable btf prog opts.funcInfo) (hfree : p.CallFree)
    (hempty : NoEmptyFirst (stubEdits btf p opts.funcInfo))
    (hlen : ∀ n, newPos (stubEdits btf p (opts.funcInfo.take n)) prog.length < 2 ^ 31)
    (hret : ∀ i, setRet i = 0) :
    ∃ out, customPrepareLoadSkbtracerProg btf p setRet prog opts = .ok (0, out, ⟨[], []⟩) ∧
      Spliced (Retargeted (stubEdits btf p opts.funcInfo)) (stubEdits btf p opts.funcInfo)
        prog out := by
  obtain ⟨out, hrun, hout⟩ := prepareLoop_spliced ht hfree hempty hlen hret
    (List.nil_append _).symm Injected.init 0
  refine ⟨out, ?_, hout⟩
  simp only [customPrepareLoadSkbtracerProg, hrun, bind, Except.bind]
  rfl

/-- Type information in which type 1 is the L2 stub, type 2 the L3 stub and every
other one the function that calls them. -/
def stubBtf : Btf where
  typeById id := some { nameOff := id, info := btfKindFunc <<< 24 }
  nameByOffset off :=
    some (if off = 1 then "filter_pcap_ebpf_l2" else if off = 2 then "filter_pcap_ebpf_l3"
      else "kprobe_skb_1")

/-- `call +imm`, a call to a subprogram. -/
def subprogCall (imm : BitVec 32) : BpfInsn := bpfRawInsn (bpfJmp ||| bpfCall) 0 bpfPseudoCall 0 imm

/-- A main function that calls the L3 stub, and the two stubs. -/
def mainProg : List BpfInsn :=
  [subprogCall 8, bpfExitInsn] ++ List.replicate 14 bpfZeroInsn

/-- Its functions. -/
def mainOpts : BpfProgLoadOpts := { funcInfo := [⟨0, 3⟩, ⟨2, 1⟩, ⟨9, 2⟩], lineInfo := [] }

/-- Filters of 2 and 9 instructions. -/
def mainFilters : Filters :=
  { filterPcapL2 := [bpfMov64Imm 0 0, bpfExitInsn], filterPcapL3 := List.replicate 9 bpfExitInsn }

/-- The table is one as the compiler writes it. -/
theorem mainProg_table : FuncTable stubBtf mainProg mainOpts.funcInfo where
  ascending := by decide
  inside := by decide
  stub := by decide
  calls := by
    intro i x hi hx
    have hcalls : ∀ i < mainProg.length, ∀ x ∈ mainProg[i]?, insnIsSubprogCall x →
        ∃ f ∈ mainOpts.funcInfo, f.insnOff ≠ 0 ∧
          (f.insnOff.toNat : Int) = i + x.imm.toInt + 1 := by decide
    exact hcalls i (List.getElem?_eq_some_iff.mp hi).1 x hi hx

/-- Any number of functions taken from a table is one of the first `length + 1` numbers. -/
theorem forall_take {Q : List BpfFuncInfo → Prop} {fs : List BpfFuncInfo}
    (h : ∀ n < fs.length + 1, Q (fs.take n)) (n : Nat) : Q (fs.take n) := by
  rcases Nat.lt_or_ge n (fs.length + 1) with hlt | hge
  · exact h n hlt
  · have := h fs.length (Nat.lt_succ_self _)
    rwa [List.take_length, ← List.take_of_length_le (show fs.length ≤ n by omega)] at this

/-- Two functions with calls to both, one of which becomes shorter and one longer. -/
theorem prepare_load_injects_main : ∃ out,
    customPrepareLoadSkbtracerProg stubBtf mainFilters (fun _ => 0) mainProg mainOpts =
      .ok (0, out, ⟨[], []⟩) ∧
    Spliced (Retargeted (stubEdits stubBtf mainFilters mainOpts.funcInfo))
      (stubEdits stubBtf mainFilters mainOpts.funcInfo) mainProg out :=
  prepare_load_injects mainProg_table
    (fun x hx => (by decide : ∀ x ∈ mainFilters.filterPcapL2 ++ mainFilters.filterPcapL3,
      ¬ insnIsSubprogCall x) x (List.mem_append.mpr hx))
    (by decide)
    (forall_take (Q := fun fs => newPos (stubEdits stubBtf mainFilters fs) mainProg.length < 2 ^ 31)
      (by decide))
    fun _ => rfl

/-! ## An empty filter at index 0 -/

/-- The two stubs and behind them a function that calls the L3 stub. -/
def stubsFirst : List BpfInsn :=
  List.replicate 14 bpfZeroInsn ++ [subprogCall (-8), bpfExitInsn]

def stubsFirstOpts : BpfProgLoadOpts := { funcInfo := [⟨0, 1⟩, ⟨7, 2⟩, ⟨14, 3⟩], lineInfo := [] }

def emptyL2 : Filters := { filterPcapL2 := [], filterPcapL3 := List.replicate 8 bpfExitInsn }

/-- The stub at index 0 is replaced by nothing, so the L3 stub gets to index 0,
and the call of it is not corrected when its replacement moves the caller. -/
theorem prepare_load_empty_first :
    (FuncTable stubBtf stubsFirst stubsFirstOpts.funcInfo ∧ emptyL2.CallFree ∧
      ∀ n, newPos (stubEdits stubBtf emptyL2 (stubsFirstOpts.funcInfo.take n))
        stubsFirst.length < 2 ^ 31) ∧
    ¬ ∃ out, customPrepareLoadSkbtracerProg stubBtf emptyL2 (fun _ => 0) stubsFirst
        stubsFirstOpts = .ok (0, out, ⟨[], []⟩) ∧
      Spliced (Retargeted (stubEdits stubBtf emptyL2 stubsFirstOpts.funcInfo))
        (stubEdits stubBtf emptyL2 stubsFirstOpts.funcInfo) stubsFirst out := by
  refine ⟨⟨⟨by decide, by decide, by decide, fun i x hi hx => ?_⟩, fun x hx => ?_,
    forall_take (Q := fun fs => newPos (stubEdits stubBtf emptyL2 fs) stubsFirst.length < 2 ^ 31)
      (by decide)⟩, fun ⟨out, hrun, hout⟩ => ?_⟩
  · have hcalls : ∀ i < stubsFirst.length, ∀ x ∈ stubsFirst[i]?, insnIsSubprogCall x →
        ∃ f ∈ stubsFirstOpts.funcInfo, f.insnOff ≠ 0 ∧
          (f.insnOff.toNat : Int) = i + x.imm.toInt + 1 := by decide
    exact hcalls i (List.getElem?_eq_some_iff.mp hi).1 x hi hx
  · exact (by decide : ∀ x ∈ emptyL2.filterPcapL2 ++ emptyL2.filterPcapL3,
      ¬ insnIsSubprogCall x) x (List.mem_append.mpr hx)
  · have hval : customPrepareLoadSkbtracerProg stubBtf emptyL2 (fun _ => 0) stubsFirst
        stubsFirstOpts =
          .ok (0, List.replicate 8 bpfExitInsn ++ [subprogCall (-8), bpfExitInsn], ⟨[], []⟩) := rfl
    rw [hval] at hrun
    obtain rfl := (Prod.mk.inj (Prod.mk.inj (Except.ok.inj hrun)).2).1
    -- the call, instruction 14, is now instruction 8, and should lead to 0
    obtain ⟨q, y, hq, hy, -, -, hcall⟩ := hout.kept 14 (subprogCall (-8)) rfl (by decide)
    have h14 : newPos (stubEdits stubBtf emptyL2 stubsFirstOpts.funcInfo) 14 = 8 := by decide
    have h7 : newPos (stubEdits stubBtf emptyL2 stubsFirstOpts.funcInfo) 7 = 0 := by decide
    obtain rfl : q = 8 := by omega
    obtain rfl := Option.some.inj hy
    have := hcall (by decide) 7 (by decide)
    rw [h14, h7] at this
    exact absurd this (by decide)

end SkbTracer.Trace
