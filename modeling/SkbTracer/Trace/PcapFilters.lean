import SkbTracer.Pcap2Bpf.Compile

/-!
# `prepare_pcap_filters`

The expression is compiled twice, for Ethernet and for raw IP. Where only one of
the two compiles, the other filter rejects everything; where neither does, the
call fails with the error of the first and the filters stay as they were.

`preparePcapFilters_eq` says this in terms of the two compilations: `storedFilter` is what
one of them leaves, and the call is these two put together. The allocation of the memory
for libpcap may fail for one and not for the other, so there are two answers for it.

`stubFilter` is which of the two a function of the program gets. The name of the function
decides, by the letter behind the prefix: `3` for the filter of raw IP packets, anything
else for that of Ethernet frames.
-/

namespace SkbTracer.Trace

open SkbTracer.Bpf
open SkbTracer.Pcap2Bpf

/-- The two filters of `trace_mgr_priv_t`. -/
structure Filters where
  filterPcapL2 : List BpfInsn
  filterPcapL3 : List BpfInsn
  deriving DecidableEq, Repr

/-- `prepare_pcap_filters(p, expression)`: its result and the filters afterwards. -/
def preparePcapFilters (pcap : Libpcap) (alloc : Bool → Bool) (p : Filters)
    (expression : String) : Except ConvErr (Int × Filters) := do
  let (l2Ret, l2Insns) ← compileEbpfFilter pcap (alloc false) expression false
  let (l3Ret, l3Insns) ← compileEbpfFilter pcap (alloc true) expression true
  if l2Ret ≠ 0 ∧ l3Ret ≠ 0 then .ok (l2Ret, p)
  else
    let l2Insns ← if l2Ret ≠ 0 then makeConstantFilter false else .ok l2Insns
    let l3Insns ← if l3Ret ≠ 0 then makeConstantFilter false else .ok l3Insns
    .ok (0, { filterPcapL2 := l2Insns, filterPcapL3 := l3Insns })

/-- `func_prefix`. -/
def funcPrefix : List Char := "filter_pcap_ebpf_l".toList

/-- The filter a stub of this name gets: `func_name[strlen(func_prefix)] == '3'`. -/
def stubFilter (p : Filters) (name : List Char) : List BpfInsn :=
  if name[funcPrefix.length]? = some '3' then p.filterPcapL3 else p.filterPcapL2

/-- What one compilation stores: the filter, or one that rejects everything. -/
def storedFilter : Int × List BpfInsn → List BpfInsn
  | (ret, insns) => if ret ≠ 0 then constantFilter false else insns

theorem storedFilter_ok (insns : List BpfInsn) : storedFilter (0, insns) = insns := rfl

/-- A compilation that fails leaves the filter that rejects everything. -/
theorem storedFilter_failed {ret : Int} (h : ret ≠ 0) (insns : List BpfInsn) :
    storedFilter (ret, insns) = constantFilter false :=
  if_pos h

/-- `prepare_pcap_filters` in terms of the two compilations. -/
theorem preparePcapFilters_eq {pcap : Libpcap} {alloc : Bool → Bool} {p : Filters}
    {expression : String} {l2 l3 : Int × List BpfInsn}
    (h2 : compileEbpfFilter pcap (alloc false) expression false = .ok l2)
    (h3 : compileEbpfFilter pcap (alloc true) expression true = .ok l3) :
    preparePcapFilters pcap alloc p expression =
      if l2.1 ≠ 0 ∧ l3.1 ≠ 0 then .ok (l2.1, p)
      else .ok (0, { filterPcapL2 := storedFilter l2, filterPcapL3 := storedFilter l3 }) := by
  obtain ⟨l2Ret, l2Insns⟩ := l2
  obtain ⟨l3Ret, l3Insns⟩ := l3
  simp only [preparePcapFilters, h2, h3, bind, Except.bind, storedFilter]
  split
  next => rfl
  next =>
    by_cases hl2 : l2Ret = 0
    · by_cases hl3 : l3Ret = 0
      · simp only [hl2, hl3, ne_eq, not_true_eq_false, if_false]
      · simp only [hl2, hl3, ne_eq, not_true_eq_false, not_false_eq_true, if_false, if_true,
          makeConstantFilter_eq]
    · by_cases hl3 : l3Ret = 0
      · simp only [hl2, hl3, ne_eq, not_true_eq_false, not_false_eq_true, if_false, if_true,
          makeConstantFilter_eq]
      · simp only [hl2, hl3, ne_eq, not_false_eq_true, if_true, makeConstantFilter_eq]

end SkbTracer.Trace
