import SkbTracer.Pcap2Bpf.Passes

/-!
# `pcap2bpf.cpp`: compiling an expression

`compile_ebpf_filter` hands the expression to libpcap and converts what it gets
with the two calls of `bpf_convert_filter`. What libpcap does is the parameter
`pcap`: for an expression and a link type it fails or returns a classic program.

A result is a return code and the instructions that come with it. The errors of
`ConvErr` that are return codes become codes; the two that are not, a write past
a buffer and the failed assertion, stay errors. They do not happen: with `Kprobe` the
whole way from the expression to the verdict is followed, and `compile_total` says
there that every call has a return code if the programs of libpcap are valid.

- `compileEbpfFilter_empty`: the empty expression becomes the constant filter;
- `compileEbpfFilter_failed`: where libpcap fails, the call does;
- `compileEbpfFilter_program`: and otherwise the program is converted or refused;
- `no_truncation_iff`: whether the conversion is of the whole program.

The length of libpcap's program goes through an `unsigned short` on its way to the vector.
A program of 65536 instructions and more is cut to its length modulo 65536, and if what is
left is accepted, it is installed (`truncated_installed`).
-/

namespace SkbTracer.Pcap2Bpf

open SkbTracer.Bpf

/-- What `pcap_open_dead` and `pcap_compile` do. -/
inductive PcapOutcome where
  /-- No context. -/
  | noContext
  /-- The expression does not compile. -/
  | compileError
  | program (bfInsns : List SockFilter)
  deriving DecidableEq, Repr

/-- libpcap, for an expression; the link type is `DLT_RAW` if `l3` holds and
`DLT_EN10MB` else. -/
abbrev Libpcap := String → Bool → PcapOutcome

/-- The value of an error that `bpf_convert_filter` returns. -/
def ConvErr.code : ConvErr → Option Int
  | .einval => some (-22)
  | .enomem => some (-12)
  | .overrun | .assertFailed => none

/-- A failed call, as its caller reports it. -/
def returnErr (e : ConvErr) : Except ConvErr (Int × List BpfInsn) :=
  match e.code with
  | some ret => .ok (ret, [])
  | none => .error e

/-- `compile_cbpf_filter`: `sock_fprog.len` is an `unsigned short`. -/
def compileCbpfFilter (pcap : Libpcap) (filterStr : String) (l3 : Bool) :
    Int × List SockFilter :=
  match pcap filterStr l3 with
  | .noContext => (-14, [])
  | .compileError => (-22, [])
  | .program bfInsns => (0, bfInsns.take (bfInsns.length % 2 ^ 16))

/-- `ebpf.resize(len)`. -/
def resizeInsns (insns : List BpfInsn) (len : Nat) : List BpfInsn :=
  insns.take len ++ List.replicate (len - insns.length) bpfZeroInsn

/-- `make_constant_filter(condition)`; an empty vector reports failure. -/
def makeConstantFilter (condition : Bool) : Except ConvErr (List BpfInsn) :=
  match getInsnsForConstantFilter condition none (some 0) with
  | .error e => (returnErr e).map Prod.snd
  | .ok (_, len) =>
    match getInsnsForConstantFilter condition (some (List.replicate len bpfZeroInsn))
        (some len) with
    | .error e => (returnErr e).map Prod.snd
    | .ok (insns, len) => .ok (resizeInsns (insns.getD []) len)

/-- `compile_ebpf_filter(filter_str, l3)`. `alloc` says whether the `calloc` of the
converting call succeeds. -/
def compileEbpfFilter (pcap : Libpcap) (alloc : Bool) (filterStr : String) (l3 : Bool) :
    Except ConvErr (Int × List BpfInsn) :=
  if filterStr = "" then do
    let ebpf ← makeConstantFilter true
    if ebpf = [] then .ok (-22, []) else .ok (0, ebpf)
  else
    let (ret, cbpf) := compileCbpfFilter pcap filterStr l3
    if ret ≠ 0 then .ok (ret, [])
    else
      match bpfConvertFilter alloc cbpf none 0 with
      | .error e => returnErr e
      | .ok (_, ebpfLen) =>
        match bpfConvertFilter alloc cbpf (some (List.replicate ebpfLen bpfZeroInsn)) ebpfLen with
        | .error e => returnErr e
        | .ok (ebpf, ebpfLen) => .ok (0, resizeInsns (ebpf.getD []) ebpfLen)

/-! ## Results -/

/-- The two instructions of a constant filter. -/
def constantFilter (condition : Bool) : List BpfInsn :=
  [bpfMov64Imm 0 (if condition then 1 else 0), bpfExitInsn]

theorem makeConstantFilter_eq (condition : Bool) :
    makeConstantFilter condition = .ok (constantFilter condition) := by
  cases condition <;> rfl

variable {pcap : Libpcap} {alloc l3 : Bool} {filterStr : String} {prog : List SockFilter}
  {out : List BpfInsn}

/-- The empty expression accepts everything. -/
theorem compileEbpfFilter_empty :
    compileEbpfFilter pcap alloc "" l3 = .ok (0, constantFilter true) := by
  simp only [compileEbpfFilter, makeConstantFilter_eq, bind, Except.bind]
  rfl

theorem returnErr_code {e : ConvErr} (h : e = .einval ∨ e = .enomem) :
    ∃ ret : Int, returnErr e = .ok (ret, []) ∧ ret ≠ 0 := by
  rcases h with rfl | rfl
  · exact ⟨-22, rfl, by decide⟩
  · exact ⟨-12, rfl, by decide⟩

theorem resizeInsns_self (insns : List BpfInsn) : resizeInsns insns insns.length = insns := by
  rw [resizeInsns, List.take_length, Nat.sub_self]
  exact List.append_nil insns

/-- What `compile_ebpf_filter` converts of a program: `sock_fprog.len` instructions. -/
def copied (prog : List SockFilter) : List SockFilter := prog.take (prog.length % 2 ^ 16)

/-- Up to 65535 instructions nothing is cut off. -/
theorem copied_eq (h : prog.length < 2 ^ 16) : copied prog = prog := by
  unfold copied
  rw [Nat.mod_eq_of_lt h, List.take_length]

/-- What the two calls of `bpf_convert_filter` come to. -/
theorem compileEbpfFilter_copied (alloc : Bool) (hne : filterStr ≠ "")
    (hpcap : pcap filterStr l3 = .program prog) :
    (∃ out, compileEbpfFilter pcap alloc filterStr l3 = .ok (0, out) ∧
        Accepted (copied prog) out) ∨
      ∃ ret, compileEbpfFilter pcap alloc filterStr l3 = .ok (ret, []) ∧ ret ≠ 0 := by
  have hcbpf : compileCbpfFilter pcap filterStr l3 = (0, copied prog) := by
    rw [compileCbpfFilter, hpcap]
    rfl
  unfold compileEbpfFilter
  rw [if_neg hne, hcbpf]
  dsimp only
  rw [if_neg fun h => h rfl]
  split
  next e he =>
    have := bpfConvertFilter_sizing_error he
    exact Or.inr (returnErr_code (Or.inl this))
  next r n hsize =>
    obtain rfl := bpfConvertFilter_sizing_none hsize
    split
    next e he =>
      exact Or.inr (returnErr_code (bpfConvertFilter_error hsize List.length_replicate he))
    next r m hconv =>
      obtain ⟨rfl, rfl, out, rfl⟩ := bpfConvertFilter_converting hconv
      have hacc : Accepted (copied prog) out := ⟨m, _, hsize, List.length_replicate, hconv⟩
      refine Or.inl ⟨out, ?_, hacc⟩
      have hm : m = out.length := by
        rw [bpfConvertFilter_sizing hsize, hacc.length_eq]
      rw [Option.getD_some, hm, resizeInsns_self]

/-- With a program of libpcap there are two outcomes: its translation, or an error code
and no instructions. -/
theorem compileEbpfFilter_program (alloc : Bool) (hne : filterStr ≠ "")
    (hpcap : pcap filterStr l3 = .program prog) (hlen : prog.length < 2 ^ 16) :
    (∃ out, compileEbpfFilter pcap alloc filterStr l3 = .ok (0, out) ∧ Accepted prog out) ∨
      ∃ ret, compileEbpfFilter pcap alloc filterStr l3 = .ok (ret, []) ∧ ret ≠ 0 := by
  have h := compileEbpfFilter_copied alloc hne hpcap
  rwa [copied_eq hlen] at h

/-- An expression that libpcap does not compile. -/
theorem compileEbpfFilter_failed (hne : filterStr ≠ "")
    (hpcap : ∀ prog, pcap filterStr l3 ≠ .program prog) :
    ∃ ret, compileEbpfFilter pcap alloc filterStr l3 = .ok (ret, []) ∧ ret ≠ 0 := by
  unfold compileEbpfFilter compileCbpfFilter
  rw [if_neg hne]
  cases hp : pcap filterStr l3 with
  | noContext => exact ⟨-14, rfl, by decide⟩
  | compileError => exact ⟨-22, rfl, by decide⟩
  | program prog => exact absurd hp (hpcap prog)

/-! ## Truncation -/

/-- What `bpf_convert_filter` takes: its length, opcodes and targets are right, and its
jumps pass the range check of both passes. -/
structure Convertible (prog : List SockFilter) : Prop where
  acceptable : Acceptable prog
  final : FinalFits prog
  forward : NoLateForward prog

/-- A program is convertible if both calls return 0. -/
theorem convertible_iff : Convertible prog ↔ ∃ out, Accepted prog out := by
  constructor
  · intro h
    obtain ⟨n, hsize⟩ := (@sizing_ok_iff true prog 0).mpr h.acceptable
    obtain ⟨⟨r, m⟩, hconv⟩ := (convert_ok_iff hsize List.length_replicate).mpr ⟨h.final, h.forward⟩
    obtain ⟨-, rfl, out, rfl⟩ := bpfConvertFilter_converting hconv
    exact ⟨out, m, List.replicate m bpfZeroInsn, hsize, List.length_replicate, hconv⟩
  · rintro ⟨out, n, buf, hsize, hbuf, hconv⟩
    obtain ⟨hfinal, hforward⟩ := (convert_ok_iff hsize hbuf).mp ⟨_, hconv⟩
    exact ⟨sizing_ok_iff.mp ⟨n, hsize⟩, hfinal, hforward⟩

/-- With memory, what can be converted is. -/
theorem compileEbpfFilter_convertible (hne : filterStr ≠ "")
    (hpcap : pcap filterStr l3 = .program prog) (h : Convertible (copied prog)) :
    ∃ out, compileEbpfFilter pcap true filterStr l3 = .ok (0, out) := by
  obtain ⟨out, n, buf, hsize, hbuf, hconv⟩ := convertible_iff.mp h
  have hcbpf : compileCbpfFilter pcap filterStr l3 = (0, copied prog) := by
    rw [compileCbpfFilter, hpcap]
    rfl
  have hconv' := (convert_output hsize hbuf hconv)
  obtain ⟨out', -, -, -, hany⟩ := hconv'
  unfold compileEbpfFilter
  rw [if_neg hne, hcbpf]
  dsimp only
  rw [if_neg fun h => h rfl, hsize]
  dsimp only
  rw [hany _ List.length_replicate]
  exact ⟨_, rfl⟩

/-- **When a truncated filter is installed.** For a program of any length from libpcap,
`compile_ebpf_filter` either fails with an empty vector or returns the translation of
all its instructions, whether or not memory is short, exactly if the program has fewer
than `2 ^ 16` instructions or what is left of it modulo `2 ^ 16` cannot be converted. -/
theorem no_truncation_iff (hne : filterStr ≠ "") (hpcap : pcap filterStr l3 = .program prog) :
    (∀ alloc, (∃ ret, compileEbpfFilter pcap alloc filterStr l3 = .ok (ret, []) ∧ ret ≠ 0) ∨
        ∃ out, compileEbpfFilter pcap alloc filterStr l3 = .ok (0, out) ∧ Accepted prog out) ↔
      prog.length < 2 ^ 16 ∨ ¬ Convertible (prog.take (prog.length % 2 ^ 16)) := by
  constructor
  · intro h
    by_cases hlen : prog.length < 2 ^ 16
    · exact Or.inl hlen
    · refine Or.inr fun hconv => ?_
      obtain ⟨out, hout⟩ := compileEbpfFilter_convertible hne hpcap hconv
      rcases h true with ⟨ret, hret, hne0⟩ | ⟨out', -, hacc⟩
      · rw [hout] at hret
        cases hret
        exact hne0 rfl
      · have hmax : bpfMaxInsns = 4096 := rfl
        have := hacc.length_le
        omega
  · rintro (hlen | hnot) alloc
    · exact (compileEbpfFilter_program alloc hne hpcap hlen).symm
    · rcases compileEbpfFilter_copied alloc hne hpcap with ⟨out, -, hacc⟩ | hfail
      · exact absurd (convertible_iff.mpr ⟨out, hacc⟩) hnot
      · exact Or.inl hfail

/-- A program of two instructions is not truncated. -/
theorem no_truncation_iff_firstByte :
    (∃ ret, compileEbpfFilter (fun _ _ => .program firstByte) true "ether[0] != 0" false =
        .ok (ret, []) ∧ ret ≠ 0) ∨
      ∃ out, compileEbpfFilter (fun _ _ => .program firstByte) true "ether[0] != 0" false =
        .ok (0, out) ∧ Accepted firstByte out :=
  (no_truncation_iff (by decide) rfl).mpr (Or.inl (by decide)) true

/-- A program of 65537 instructions comes out as its first one. -/
theorem truncated_installed :
    let prog := List.replicate 65537 (⟨0x06, 0, 0, 1⟩ : SockFilter)
    prog.length > bpfMaxInsns ∧
      compileEbpfFilter (fun _ _ => .program prog) true "ip" false =
        .ok (0, prologue ++ [bpfMov32Imm 0 1, bpfExitInsn]) ∧
      ¬ Accepted prog (prologue ++ [bpfMov32Imm 0 1, bpfExitInsn]) := by
  have hmax : bpfMaxInsns = 4096 := rfl
  have hlen : (List.replicate 65537 (⟨0x06, 0, 0, 1⟩ : SockFilter)).length = 65537 :=
    List.length_replicate
  refine ⟨by omega, ?_, fun hacc => ?_⟩
  · have hcbpf : compileCbpfFilter
        (fun _ _ => .program (List.replicate 65537 (⟨0x06, 0, 0, 1⟩ : SockFilter))) "ip" false =
        (0, [⟨0x06, 0, 0, 1⟩]) := by
      rw [compileCbpfFilter]
      dsimp only
      rw [hlen, List.take_replicate]
      rfl
    unfold compileEbpfFilter
    rw [hcbpf]
    rfl
  · have := hacc.length_le
    omega

end SkbTracer.Pcap2Bpf
