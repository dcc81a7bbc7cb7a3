import SkbTracer.Symdb.AvailFuncs
import SkbTracer.Symdb.ParamPos

/-!
# The functions that take an sk_buff

`get_skb_func_from_btfs` walks through every type of every BTF and keeps the functions
that can be probed and have a parameter that points to an sk_buff. It keeps one entry a
name: a function that is met again replaces the one met before, and the BTFs are met in
the order of their names.

`Place` is a type of a BTF, and `places` are they all, in the order of the walk. `Finds`
says which function is found at a place, by the meaning of the types and not by the
search; a function is found with the position of its first pointer to an sk_buff that has
no wrapper around it, as `get_func_param_pos` looks for it.

- `scanType_stops`, `scanPlaces_stops`: what one place adds to the map, and what a walk
  does. The fuel is only for the loop in `get_func_param_pos`; enough of it is enough for
  all places.
- `skb_funcs_iff`: the walk stops, and leaves for every name the function found last,
  `KeepsLast`.
- `skb_func_list_iff`: the list that `get_skb_func_list` makes for a filter is in order,
  it has the names that the filter lets through, and `get_skb_func_param_pos` has an
  answer for all of it.

The file of functions is of the kernel's form in these theorems, and no BTF has a cycle
of wrappers. A filter is a regular expression of `std::regex`, which is a parameter: what
it says of a name is what the code relies on, and a filter that is none ends the program
with an exception, here `none`.
-/

namespace SkbTracer.Symdb

open SkbTracer.Lib (OrdMap LastFor lastFor_cons Acyclic acyclic_of_lt)

/-! ## The code -/

/-- `skb_func_t`. -/
structure SkbFunc where
  funcName : List Char
  modName : List Char
  skbPos : Int
  deriving DecidableEq, Repr

/-- `btf__type_cnt(btf)`. -/
def Btf.typeCnt (btf : Btf) : Nat := btf.types.length + 1

/-- `btf__name_by_offset(btf, t->name_off)`. -/
def Btf.nameOf (btf : Btf) (t : BtfType) : List Char := (btf.nameByOffset t.nameOff).toList

section

variable (funcs : OrdMap (List Char) Bool) (fuel : Nat)

/-- The body of the inner loop; `fuel` is for `get_func_param_pos`. -/
def scanType (modName : List Char) (btf : Btf) (list : OrdMap (List Char) SkbFunc) (id : Nat) :
    Option (OrdMap (List Char) SkbFunc) :=
  match btf.typeById id with
  | none => some list
  | some t =>
    if t.kind = .func then
      let funcName := btf.nameOf t
      match funcs.find funcName with
      | none => some list
      | some _ =>
        match getFuncParamPos btf fuel t.type "sk_buff" with
        | none => none
        | some skbPos =>
          if skbPos < 0 then some list
          else some (list.set funcName { funcName, modName, skbPos })
    else some list

/-- The inner loop: the types from id 1 on. -/
def scanBtf (list : OrdMap (List Char) SkbFunc) (it : List Char × Btf) :
    Option (OrdMap (List Char) SkbFunc) :=
  (List.range' 1 (it.2.typeCnt - 1)).foldlM (scanType funcs fuel it.1 it.2) list

end

/-- `get_skb_func_from_btfs(priv)`; `file` is the text of `available_filter_functions`. -/
def getSkbFuncFromBtfs (file : Option (List Char)) (fuel : Nat)
    (btfList : OrdMap (List Char) Btf) (skbFuncList : OrdMap (List Char) SkbFunc) :
    Option (OrdMap (List Char) SkbFunc) := do
  let funcs ← getAvailFuncs file
  btfList.entries.foldlM (scanBtf funcs fuel) skbFuncList

/-- `get_skb_func_list(filter)`. `regex` is `std::regex(filter)` as what `std::regex_search`
says of a name; it may throw. -/
def getSkbFuncList (regex : List Char → Option (List Char → Bool))
    (skbFuncList : OrdMap (List Char) SkbFunc) (filter : List Char) :
    Option (Int × List (List Char)) :=
  if filter = [] then some (0, skbFuncList.entries.map Prod.fst)
  else (regex filter).map fun search => (0, (skbFuncList.entries.map Prod.fst).filter search)

/-- `get_skb_func_param_pos(func)`. -/
def getSkbFuncParamPos (skbFuncList : OrdMap (List Char) SkbFunc) (func : List Char) : Int × Int :=
  match skbFuncList.find func with
  | none => (-enoent, 0)
  | some it => (0, it.skbPos)

/-! ## What is to be found -/

/-- A type of a BTF. -/
structure Place where
  modName : List Char
  btf : Btf
  id : Nat

/-- The types that are looked at, in their order. -/
def places (btfList : OrdMap (List Char) Btf) : List Place :=
  btfList.entries.flatMap fun it =>
    (List.range' 1 (it.2.typeCnt - 1)).map fun id => ⟨it.1, it.2, id⟩

/-- The parameter is the first pointer to an sk_buff that has no wrapper around it. -/
def IsSkbParam (btf : Btf) (ps : List BtfParam) (pos : Int) : Prop :=
  0 ≤ pos ∧ IsFirstFrom 0 (fun id => PtrTo btf "sk_buff" id ∧ Bare btf id) ps pos

/-- At this place there is this function, it is one of `avail`, and this is the position of
its sk_buff. -/
structure Place.Finds (avail : List Char → Prop) (p : Place) (sf : SkbFunc) : Prop where
  func : ∃ t proto, p.btf.typeById p.id = some t ∧ t.kind = .func ∧ p.btf.nameOf t = sf.funcName ∧
    p.btf.typeById t.type = some proto ∧ proto.kind = .funcProto ∧
    IsSkbParam p.btf proto.params sf.skbPos
  avail : avail sf.funcName
  modName : sf.modName = p.modName

/-- The function is found somewhere, and none of its name after that. -/
def FoundLast (avail : List Char → Prop) (ps : List Place) (sf : SkbFunc) : Prop :=
  ∃ before p later, ps = before ++ p :: later ∧ p.Finds avail sf ∧
    ∀ q ∈ later, ∀ sf', q.Finds avail sf' → sf'.funcName ≠ sf.funcName

/-- What stays of a walk: under every name the function found last. -/
def KeepsLast (avail : List Char → Prop) (ps : List Place) (m : OrdMap (List Char) SkbFunc) :
    Prop :=
  ∀ f sf, m.find f = some sf ↔ sf.funcName = f ∧ FoundLast avail ps sf

/-! ## One place -/

variable {btf : Btf} {avail : List Char → Prop} {p : Place} {ps : List Place} {sf sf' : SkbFunc}
  {m : OrdMap (List Char) SkbFunc} {funcs : OrdMap (List Char) Bool}

theorem isFirstFrom_unique {P : Nat → Prop} {i : Nat} {params : List BtfParam} {r r' : Int}
    (h : IsFirstFrom i P params r) (h' : IsFirstFrom i P params r') : r = r' := by
  rcases h with ⟨k, q, hr, hk, hq, hbefore⟩ | ⟨hr, hnone⟩
  · rcases h' with ⟨k', q', hr', hk', hq', hbefore'⟩ | ⟨-, hnone'⟩
    · have hkk : k = k' := by
        rcases Nat.lt_trichotomy k k' with hlt | heq | hgt
        · exact absurd hq (hbefore' k hlt q hk)
        · exact heq
        · exact absurd hq' (hbefore k' hgt q' hk')
      rw [hr, hr', hkk]
    · exact absurd hq (hnone' q (List.mem_of_getElem? hk))
  · rcases h' with ⟨k', q', -, hk', hq', -⟩ | ⟨hr', -⟩
    · exact absurd hq' (hnone q' (List.mem_of_getElem? hk'))
    · rw [hr, hr']

/-- At most one function is found at a place. -/
theorem Place.Finds.unique (h : p.Finds avail sf) (h' : p.Finds avail sf') : sf = sf' := by
  obtain ⟨t, proto, ht, -, hname, hproto, -, hpos⟩ := h.func
  obtain ⟨t', proto', ht', -, hname', hproto', -, hpos'⟩ := h'.func
  obtain rfl := Option.some.inj (ht.symm.trans ht')
  obtain rfl := Option.some.inj (hproto.symm.trans hproto')
  have hfunc : sf.funcName = sf'.funcName := hname.symm.trans hname'
  have hmod : sf.modName = sf'.modName := h.modName.trans h'.modName.symm
  have hskb : sf.skbPos = sf'.skbPos := isFirstFrom_unique hpos.2 hpos'.2
  cases sf
  cases sf'
  simp_all

/-- The search for the parameter stops, and what it gives is negative or the position. -/
theorem getFuncParamPos_stops (hacyclic : Acyclic (wrappedBy btf)) (id : Nat) :
    ∃ n r, (∀ fuel, n ≤ fuel → getFuncParamPos btf fuel id "sk_buff" = some r) ∧
      ∀ pos : Int, 0 ≤ pos → (r = pos ↔ ∃ proto, btf.typeById id = some proto ∧
        proto.kind = .funcProto ∧ IsSkbParam btf proto.params pos) := by
  have hneg : -enoent < 0 := by decide
  rcases hproto : btf.typeById id with _ | proto
  · refine ⟨0, -enoent, fun fuel _ => by unfold getFuncParamPos; rw [hproto], fun pos hpos => ?_⟩
    exact iff_of_false (by omega) (by simp)
  · by_cases hkind : proto.kind = .funcProto
    · obtain ⟨n, r, hn, hr⟩ := paramLoop_stops hacyclic "sk_buff" proto.params 0
      refine ⟨n, r, fun fuel hfuel => ?_, fun pos hpos => ?_⟩
      · unfold getFuncParamPos
        rw [hproto]
        dsimp only
        rw [if_pos hkind, hn fuel hfuel]
      · constructor
        · rintro rfl
          exact ⟨proto, rfl, hkind, hpos, hr⟩
        · rintro ⟨proto', hproto', -, -, hfirst⟩
          obtain rfl := Option.some.inj hproto'
          exact isFirstFrom_unique hr hfirst
    · refine ⟨0, -enoent, fun fuel _ => ?_, fun pos hpos => ?_⟩
      · unfold getFuncParamPos
        rw [hproto]
        dsimp only
        rw [if_neg hkind]
      · refine iff_of_false (by omega) ?_
        rintro ⟨proto', hproto', hkind', -⟩
        obtain rfl := Option.some.inj hproto'
        exact hkind hkind'

/-- `avail` is what `kprobe_funcs` has. -/
def Avail (funcs : OrdMap (List Char) Bool) (f : List Char) : Prop := f ∈ funcs.keys

/-- The list with what was found at a place, if anything. -/
def keep (list : OrdMap (List Char) SkbFunc) (found : Option SkbFunc) :
    OrdMap (List Char) SkbFunc :=
  list.setAll (found.toList.map fun sf => (sf.funcName, sf))

/-- The body of the inner loop stops, and keeps the function that is found there. -/
theorem scanType_stops (funcs : OrdMap (List Char) Bool) (p : Place)
    (hacyclic : Acyclic (wrappedBy p.btf)) :
    ∃ n found, (∀ fuel, n ≤ fuel → ∀ list,
        scanType funcs fuel p.modName p.btf list p.id = some (keep list found)) ∧
      ∀ sf, found = some sf ↔ p.Finds (Avail funcs) sf := by
  rcases ht : p.btf.typeById p.id with _ | t
  · refine ⟨0, none, fun fuel _ list => by unfold scanType; rw [ht]; rfl, fun sf => ?_⟩
    refine iff_of_false (by simp) fun h => ?_
    obtain ⟨t, proto, ht', -⟩ := h.func
    rw [ht] at ht'
    cases ht'
  by_cases hkind : t.kind = .func
  · rcases hfind : funcs.find (p.btf.nameOf t) with _ | b
    · -- not a function that can be probed
      refine ⟨0, none, fun fuel _ list => ?_, fun sf => ?_⟩
      · unfold scanType
        rw [ht]
        simp only [if_pos hkind, hfind]
        rfl
      · refine iff_of_false (by simp) fun h => ?_
        obtain ⟨t', proto, ht', -, hname, -⟩ := h.func
        obtain rfl := Option.some.inj (ht.symm.trans ht')
        obtain ⟨b, hb⟩ := OrdMap.mem_keys_iff.mp h.avail
        rw [← hname, hfind] at hb
        cases hb
    · obtain ⟨n, r, hn, hr⟩ := getFuncParamPos_stops hacyclic t.type
      have hscan : ∀ fuel, n ≤ fuel → ∀ list,
          scanType funcs fuel p.modName p.btf list p.id =
            if r < 0 then some list
            else some (list.set (p.btf.nameOf t) ⟨p.btf.nameOf t, p.modName, r⟩) := by
        intro fuel hfuel list
        unfold scanType
        rw [ht]
        simp only [if_pos hkind, hfind, hn fuel hfuel]
      by_cases hneg : r < 0
      · -- it takes no sk_buff
        refine ⟨n, none, fun fuel hfuel list => by rw [hscan fuel hfuel, if_pos hneg]; rfl,
          fun sf => iff_of_false (by simp) fun h => ?_⟩
        obtain ⟨t', proto, ht', -, -, hproto, hfp, hpos⟩ := h.func
        obtain rfl := Option.some.inj (ht.symm.trans ht')
        have := (hr sf.skbPos hpos.1).mpr ⟨proto, hproto, hfp, hpos⟩
        have := hpos.1
        omega
      · obtain ⟨proto, hproto, hfp, hpos⟩ := (hr r (not_lt.mp hneg)).mp rfl
        have hfinds : p.Finds (Avail funcs) ⟨p.btf.nameOf t, p.modName, r⟩ :=
          { func := ⟨t, proto, ht, hkind, rfl, hproto, hfp, hpos⟩
            avail := OrdMap.mem_keys_iff.mpr ⟨b, hfind⟩
            modName := rfl }
        refine ⟨n, some ⟨p.btf.nameOf t, p.modName, r⟩, fun fuel hfuel list => ?_, fun sf => ?_⟩
        · rw [hscan fuel hfuel, if_neg hneg]
          rfl
        · constructor
          · intro heq
            rwa [← Option.some.inj heq]
          · intro h
            rw [hfinds.unique h]
  · -- not a function
    refine ⟨0, none, fun fuel _ list => ?_, fun sf => ?_⟩
    · unfold scanType
      rw [ht]
      exact if_neg hkind
    · refine iff_of_false (by simp) fun h => ?_
      obtain ⟨t', proto, ht', hkind', -⟩ := h.func
      obtain rfl := Option.some.inj (ht.symm.trans ht')
      exact hkind hkind'

/-! ## The walk -/

/-- The two loops as one over the places. -/
def scanPlaces (funcs : OrdMap (List Char) Bool) (fuel : Nat)
    (list : OrdMap (List Char) SkbFunc) (ps : List Place) : Option (OrdMap (List Char) SkbFunc) :=
  ps.foldlM (fun list p => scanType funcs fuel p.modName p.btf list p.id) list

/-- The two loops, one inside the other, are one walk over the places. -/
theorem scan_eq_scanPlaces (funcs : OrdMap (List Char) Bool) (fuel : Nat)
    (its : List (List Char × Btf)) (list : OrdMap (List Char) SkbFunc) :
    its.foldlM (scanBtf funcs fuel) list = scanPlaces funcs fuel list (its.flatMap fun it =>
      (List.range' 1 (it.2.typeCnt - 1)).map fun id => ⟨it.1, it.2, id⟩) := by
  unfold scanPlaces
  induction its generalizing list with
  | nil => rfl
  | cons it its ih =>
    rw [List.foldlM_cons, List.flatMap_cons, List.foldlM_append, List.foldlM_map]
    have hbtf : scanBtf funcs fuel list it = (List.range' 1 (it.2.typeCnt - 1)).foldlM
        (fun list id => scanType funcs fuel it.1 it.2 list id) list := rfl
    rw [hbtf]
    congr 1
    funext list'
    exact ih list'

/-- What is found last, with one place more in front: it is found behind that place, or
in it and nothing of its name is found behind. -/
theorem foundLast_cons : FoundLast avail (p :: ps) sf ↔ FoundLast avail ps sf ∨
    p.Finds avail sf ∧ ∀ q ∈ ps, ∀ sf', q.Finds avail sf' → sf'.funcName ≠ sf.funcName := by
  constructor
  · rintro ⟨before, q, later, hps, hq, hlater⟩
    cases before with
    | nil =>
      cases hps
      exact Or.inr ⟨hq, hlater⟩
    | cons b before =>
      cases hps
      exact Or.inl ⟨before, q, later, rfl, hq, hlater⟩
  · rintro (⟨before, q, later, rfl, hq, hlater⟩ | ⟨hp, hrest⟩)
    · exact ⟨p :: before, q, later, rfl, hq, hlater⟩
    · exact ⟨[], p, ps, rfl, hp, hrest⟩

/-- What the places of a walk assign. -/
theorem scanPlaces_stops (funcs : OrdMap (List Char) Bool) (ps : List Place)
    (hacyclic : ∀ p ∈ ps, Acyclic (wrappedBy p.btf)) :
    ∃ (n : Nat) (es : List (List Char × SkbFunc)),
      (∀ fuel, n ≤ fuel → ∀ list, scanPlaces funcs fuel list ps = some (list.setAll es)) ∧
      (∀ f, f ∈ es.map Prod.fst ↔ ∃ p ∈ ps, ∃ sf, p.Finds (Avail funcs) sf ∧ sf.funcName = f) ∧
      ∀ f sf, LastFor f sf es ↔ sf.funcName = f ∧ FoundLast (Avail funcs) ps sf := by
  induction ps with
  | nil =>
    refine ⟨0, [], fun _ _ _ => rfl, by simp, fun f sf => iff_of_false ?_ ?_⟩
    · rintro ⟨before, later, hes, -⟩
      cases before <;> cases hes
    · rintro ⟨-, before, p, later, hps, -⟩
      cases before <;> cases hps
  | cons p ps ih =>
    obtain ⟨n, es, hrun, hkeys, hlast⟩ := ih fun q hq => hacyclic q (List.mem_cons_of_mem _ hq)
    obtain ⟨n', found, hscan, hfound⟩ := scanType_stops funcs p (hacyclic p List.mem_cons_self)
    have hstep : ∀ fuel, max n n' ≤ fuel → ∀ list, scanPlaces funcs fuel list (p :: ps) =
        some ((keep list found).setAll es) := by
      intro fuel hfuel list
      unfold scanPlaces
      rw [List.foldlM_cons, hscan fuel (by omega)]
      exact hrun fuel (by omega) (keep list found)
    cases found with
    | none =>
      have hnot : ∀ sf, ¬ p.Finds (Avail funcs) sf := fun sf h => by cases (hfound sf).mpr h
      refine ⟨max n n', es, hstep, fun f => ?_, fun f sf => ?_⟩
      · simp only [hkeys, List.mem_cons, exists_eq_or_imp, hnot, false_and, exists_false, false_or]
      · rw [hlast, foundLast_cons]
        simp only [hnot, false_and, or_false]
    | some sf₀ =>
      have hp : p.Finds (Avail funcs) sf₀ := (hfound sf₀).mp rfl
      have honly : ∀ sf, p.Finds (Avail funcs) sf ↔ sf = sf₀ := fun sf =>
        ⟨fun h => h.unique hp, fun h => h ▸ hp⟩
      refine ⟨max n n', (sf₀.funcName, sf₀) :: es, hstep, fun f => ?_, fun f sf => ?_⟩
      · simp only [List.map_cons, List.mem_cons, hkeys, exists_eq_or_imp, honly, exists_eq_left]
        exact or_congr_left eq_comm
      · rw [lastFor_cons, hlast, foundLast_cons, honly, hkeys]
        constructor
        · rintro (⟨hname, hf⟩ | ⟨heq, hnone⟩)
          · exact ⟨hname, Or.inl hf⟩
          · cases heq
            exact ⟨rfl, Or.inr ⟨rfl, fun q hq sf' h hname => hnone ⟨q, hq, sf', h, hname⟩⟩⟩
        · rintro ⟨hname, hf | ⟨rfl, hnone⟩⟩
          · exact Or.inl ⟨hname, hf⟩
          · subst hname
            exact Or.inr ⟨rfl, fun ⟨q, hq, sf', h, heq⟩ => hnone q hq sf' h heq⟩

/-! ## The list -/

/-- **The walk stops, and under every name the function found last is kept.** -/
theorem skb_funcs_iff (lines : List AvailLine) (btfList : OrdMap (List Char) Btf)
    (hacyclic : ∀ it ∈ btfList.entries, Acyclic (wrappedBy it.2)) :
    ∃ m, (∃ n, ∀ fuel, n ≤ fuel → getSkbFuncFromBtfs
        (some (textOf (lines.map AvailLine.text))) fuel btfList .empty = some m) ∧
      KeepsLast (fun f => f ∈ lines.map AvailLine.name) (places btfList) m := by
  obtain ⟨funcs, hfuncs, havail⟩ := mem_getAvailFuncs_iff lines
  have hpred : Avail funcs = fun f => f ∈ lines.map AvailLine.name :=
    funext fun f => propext (havail f)
  have hplaces : ∀ p ∈ places btfList, Acyclic (wrappedBy p.btf) := by
    intro p hp
    obtain ⟨it, hit, hp⟩ := List.mem_flatMap.mp hp
    obtain ⟨id, -, rfl⟩ := List.mem_map.mp hp
    exact hacyclic it hit
  obtain ⟨n, es, hrun, hkeys, hlast⟩ := scanPlaces_stops funcs (places btfList) hplaces
  refine ⟨OrdMap.empty.setAll es, ⟨n, fun fuel hfuel => ?_⟩, fun f sf => ?_⟩
  · unfold getSkbFuncFromBtfs
    rw [hfuncs]
    show btfList.entries.foldlM (scanBtf funcs fuel) .empty = _
    rw [scan_eq_scanPlaces]
    exact hrun fuel hfuel .empty
  · rw [OrdMap.find_setAll_iff, hlast, hpred]
    exact or_iff_left fun h => by cases h.2

/-- The filter lets the name through. -/
def Selects (regex : List Char → Option (List Char → Bool)) (filter f : List Char) : Prop :=
  filter = [] ∨ ∃ search, regex filter = some search ∧ search f = true

/-- The names in the map are those of the functions found. -/
theorem KeepsLast.mem_keys_iff (h : KeepsLast avail ps m) {f : List Char} :
    f ∈ m.keys ↔ ∃ sf, sf.funcName = f ∧ FoundLast avail ps sf := by
  rw [OrdMap.mem_keys_iff]
  exact exists_congr fun sf => h f sf

theorem FoundLast.pos_nonneg (h : FoundLast avail ps sf) : 0 ≤ sf.skbPos := by
  obtain ⟨-, p, -, -, hp, -⟩ := h
  obtain ⟨t, proto, -, -, -, -, -, hpos⟩ := hp.func
  exact hpos.1

/-- `get_skb_func_param_pos` has the position of the function found last. -/
theorem KeepsLast.getSkbFuncParamPos (h : KeepsLast avail ps m) (hsf : FoundLast avail ps sf) :
    getSkbFuncParamPos m sf.funcName = (0, sf.skbPos) := by
  unfold Symdb.getSkbFuncParamPos
  rw [(h sf.funcName sf).mpr ⟨rfl, hsf⟩]

/-- The list for a filter is part of the names in the map, in their order. -/
theorem getSkbFuncList_eq {regex : List Char → Option (List Char → Bool)} {filter : List Char}
    {r : Int} {list : List (List Char)} (h : getSkbFuncList regex m filter = some (r, list)) :
    r = 0 ∧ list.Sublist m.keys ∧ ∀ f, f ∈ list ↔ Selects regex filter f ∧ f ∈ m.keys := by
  unfold getSkbFuncList at h
  split at h
  next hfilter =>
    cases h
    exact ⟨rfl, List.Sublist.refl _, fun f => (and_iff_right (Or.inl hfilter)).symm⟩
  next hfilter =>
    obtain ⟨search, hregex, heq⟩ := Option.map_eq_some_iff.mp h
    cases heq
    refine ⟨rfl, List.filter_sublist, fun f => ?_⟩
    rw [List.mem_filter, and_comm]
    refine and_congr_left fun _ => ?_
    constructor
    · intro hf
      exact Or.inr ⟨search, hregex, hf⟩
    · rintro (hnil | ⟨search', hregex', hf⟩)
      · exact absurd hnil hfilter
      · obtain rfl := Option.some.inj (hregex.symm.trans hregex')
        exact hf

/-- **What the tracer is given to probe.** With a file of functions in the kernel's form, and
for every filter that is a regular expression, the list has, in order and once each, the
names that the filter lets through of functions found in a BTF. The position of each is
that of its first parameter that is a pointer to an sk_buff with no wrapper around it, in
the place where the function was found last. -/
theorem skb_func_list_iff (lines : List AvailLine) (btfList : OrdMap (List Char) Btf)
    (hacyclic : ∀ it ∈ btfList.entries, Acyclic (wrappedBy it.2)) :
    ∃ m, (∃ n, ∀ fuel, n ≤ fuel → getSkbFuncFromBtfs
        (some (textOf (lines.map AvailLine.text))) fuel btfList .empty = some m) ∧
      ∀ regex filter r list, getSkbFuncList regex m filter = some (r, list) →
        r = 0 ∧ list.Pairwise (· < ·) ∧
        (∀ f, f ∈ list ↔ Selects regex filter f ∧
          ∃ sf, sf.funcName = f ∧
            FoundLast (fun f => f ∈ lines.map AvailLine.name) (places btfList) sf) ∧
        ∀ f ∈ list, ∃ sf, sf.funcName = f ∧ 0 ≤ sf.skbPos ∧
          FoundLast (fun f => f ∈ lines.map AvailLine.name) (places btfList) sf ∧
          getSkbFuncParamPos m f = (0, sf.skbPos) := by
  obtain ⟨m, hrun, hkeep⟩ := skb_funcs_iff lines btfList hacyclic
  refine ⟨m, hrun, fun regex filter r list hlist => ?_⟩
  obtain ⟨hr, hsub, hmem⟩ := getSkbFuncList_eq hlist
  refine ⟨hr, m.sorted.sublist hsub, fun f => ?_, fun f hf => ?_⟩
  · rw [hmem, hkeep.mem_keys_iff]
  · obtain ⟨sf, rfl, hsf⟩ := hkeep.mem_keys_iff.mp ((hmem f).mp hf).2
    exact ⟨sf, rfl, hsf.pos_nonneg, hsf, hkeep.getSkbFuncParamPos hsf⟩

/-- `skBtf`, and two functions: id 6 is `kfree_skb(struct sk_buff *skb)`, and id 10
`ip_send_skb(struct net *net, struct sk_buff *skb)`. -/
def freeBtf : Btf where
  types := skBtf.types ++
    [{ nameOff := 2, kind := .func, type := 4, params := [] },
      { nameOff := 3, kind := .struct, type := 0, params := [] },
      { nameOff := 0, kind := .ptr, type := 7, params := [] },
      { nameOff := 0, kind := .funcProto, type := 0, params := [⟨8⟩, ⟨2⟩] },
      { nameOff := 4, kind := .func, type := 9, params := [] }]
  nameByOffset off :=
    if off = 2 then "kfree_skb" else if off = 3 then "net" else if off = 4 then "ip_send_skb"
    else skBtf.nameByOffset off

theorem freeBtf_acyclic : Acyclic (wrappedBy freeBtf) := by
  have hfew : ∀ id < 11, ∀ id' ∈ wrappedBy freeBtf id, id' < id := by decide
  apply acyclic_of_lt
  intro id id' h
  by_cases hid : id < 11
  · exact hfew id hid id' h
  · obtain ⟨k, rfl⟩ : ∃ k, id = k + 11 := ⟨id - 11, by omega⟩
    cases h

/-- The kernel's own BTF alone. -/
def freeBtfs : OrdMap (List Char) Btf := OrdMap.empty.set vmlinux freeBtf

theorem freeBtfs_acyclic : ∀ it ∈ freeBtfs.entries, Acyclic (wrappedBy it.2) := by
  intro it hit
  obtain rfl := List.mem_singleton.mp hit
  exact freeBtf_acyclic

/-- Both functions can be probed. -/
def freeLines : List AvailLine :=
  [⟨"kfree_skb".toList, none, by simp, by simp⟩, ⟨"ip_send_skb".toList, none, by simp, by simp⟩]

/-- The functions that are found: one takes its sk_buff first, the other second. -/
def freeFuncs : OrdMap (List Char) SkbFunc :=
  (OrdMap.empty.set "kfree_skb".toList ⟨"kfree_skb".toList, vmlinux, 0⟩).set
    "ip_send_skb".toList ⟨"ip_send_skb".toList, vmlinux, 1⟩

theorem freeFuncs_found (fuel : Nat) : getSkbFuncFromBtfs
    (some (textOf (freeLines.map AvailLine.text))) (fuel + 7) freeBtfs .empty =
      some freeFuncs := rfl

theorem freeFuncs_keeps :
    KeepsLast (fun f => f ∈ freeLines.map AvailLine.name) (places freeBtfs) freeFuncs := by
  obtain ⟨m, ⟨n, hrun⟩, hkeep⟩ := skb_funcs_iff freeLines freeBtfs freeBtfs_acyclic
  obtain rfl := Option.some.inj ((hrun (n + 7) (by omega)).symm.trans (freeFuncs_found n))
  exact hkeep

/-- A word without special characters, as a regular expression. -/
def wordRegex (filter : List Char) : Option (List Char → Bool) :=
  some fun f => decide (filter <:+: f)

/-- With the filter `send` the list has `ip_send_skb`, whose sk_buff is the second argument;
`kfree_skb` is found as well, and filtered out. -/
theorem skb_func_list_iff_send : ∃ sf : SkbFunc, sf.funcName = "ip_send_skb".toList ∧
    FoundLast (fun f => f ∈ freeLines.map AvailLine.name) (places freeBtfs) sf ∧
    getSkbFuncParamPos freeFuncs sf.funcName = (0, sf.skbPos) ∧ sf.skbPos = 1 ∧
    "kfree_skb".toList ∈ freeFuncs.keys ∧
    ¬ Selects wordRegex "send".toList "kfree_skb".toList := by
  obtain ⟨m, ⟨n, hrun⟩, hlist⟩ := skb_func_list_iff freeLines freeBtfs freeBtfs_acyclic
  obtain rfl := Option.some.inj ((hrun (n + 7) (by omega)).symm.trans (freeFuncs_found n))
  obtain ⟨-, -, hmem, hall⟩ := hlist wordRegex "send".toList 0 ["ip_send_skb".toList] rfl
  obtain ⟨sf, hname, -, hlast, hpos⟩ := hall _ List.mem_cons_self
  have hfree : "kfree_skb".toList ∈ freeFuncs.keys := by decide
  refine ⟨sf, hname, hlast, by rw [hname]; exact hpos, (congrArg Prod.snd hpos).symm, hfree,
    fun hsel => ?_⟩
  have hin := (hmem _).mpr ⟨hsel, freeFuncs_keeps.mem_keys_iff.mp hfree⟩
  exact absurd hin (by decide)

end SkbTracer.Symdb
