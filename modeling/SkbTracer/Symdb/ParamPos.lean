import SkbTracer.Lib.Chase

/-!
# Where a function takes its sk_buff

`get_func_param_pos` looks through the parameters of a prototype for a pointer to a
struct of a given name. Behind the pointer it strips `const`, `volatile` and typedefs,
in a loop that goes on as long as there are any. Around the pointer it strips nothing:
a `struct sk_buff *const` is passed over.

`PtrTo` is what C calls a pointer to the struct, with wrappers in both places, and
`IsParamPos` the position that the function should give. `Bare` is a type with no wrapper
around it; the code finds the first pointer to the struct that is `Bare`.

- `isParam_stops`, `paramLoop_stops`: what the two loops compute. The inner one follows
  `wrappedBy` and stops in every type graph where that has no cycle; with enough rounds
  the result does not depend on how many there are.
- `isFirstFrom_iff_of_imp`: the first of some is the first of all exactly if none of the
  others comes before it.
- `param_pos_iff`: so the position is right exactly if no pointer to the struct that is
  wrapped comes first, `BareFirst`.
- `const_param_missed`: a function for which it is wrong.

A BTF is the list of its types, as libbpf gives them out by their ids, and a function for
its strings. That the graph has no cycle is promised by the kernel, which checks every
BTF that it loads; a prototype whose id is not that of a `BTF_KIND_FUNC_PROTO` has no
parameters, and the result is `-ENOENT`.
-/

namespace SkbTracer.Symdb

open SkbTracer.Lib (chase Ends Acyclic acyclic_of_lt ends_step_iff)

/-! ## The type graph -/

/-- `BTF_KIND_...`. -/
inductive BtfKind where
  | unkn | int | ptr | array | struct | union | enum | fwd | typeDef | volatile | const
  | restrict | func | funcProto | var | datasec | float | declTag | typeTag | enum64
  deriving DecidableEq, Repr

/-- `struct btf_param`. -/
structure BtfParam where
  type : Nat
  deriving DecidableEq, Repr

/-- `struct btf_type`; the parameters are those that follow it if it is a prototype. -/
structure BtfType where
  nameOff : Nat
  kind : BtfKind
  type : Nat
  params : List BtfParam
  deriving DecidableEq, Repr

/-- `struct btf`: the types from id 1 on, and the strings. -/
structure Btf where
  types : List BtfType
  nameByOffset : Nat → String

/-- The type with id 0. -/
def btfVoid : BtfType := { nameOff := 0, kind := .unkn, type := 0, params := [] }

/-- `btf__type_by_id(btf, id)`. -/
def Btf.typeById (btf : Btf) : Nat → Option BtfType
  | 0 => some btfVoid
  | id + 1 => btf.types[id]?

/-! ## `get_func_param_pos` -/

/-- `ENOENT`. -/
def enoent : Int := 2

/-- `btf_is_const(t) || btf_is_volatile(t) || btf_is_typedef(t)`. -/
def BtfType.isWrapper (t : BtfType) : Bool :=
  t.kind == .const || t.kind == .volatile || t.kind == .typeDef

/-- The type that the type with this id wraps. -/
def wrappedBy (btf : Btf) (id : Nat) : Option Nat :=
  match btf.typeById id with
  | some t => if t.isWrapper then some t.type else none
  | none => none

/-- The body of the loop: whether the parameter is the one. The inner loop is given `fuel`
rounds, and there is no answer if they are not enough. -/
def isParam (btf : Btf) (fuel : Nat) (p : BtfParam) (param : String) : Option Bool :=
  match btf.typeById p.type with
  | none => some false
  | some t =>
    if t.kind = .ptr then
      (chase (wrappedBy btf) fuel t.type).map fun id =>
        match btf.typeById id with
        | none => false
        | some t => t.kind == .struct && btf.nameByOffset t.nameOff == param
    else some false

/-- The loop, from parameter `i` on. -/
def paramLoop (btf : Btf) (fuel : Nat) (param : String) : Nat → List BtfParam → Option Int
  | _, [] => some (-enoent)
  | i, p :: ps =>
    match isParam btf fuel p param with
    | none => none
    | some true => some i
    | some false => paramLoop btf fuel param (i + 1) ps

/-- `get_func_param_pos(btf, btf_id, param)`. -/
def getFuncParamPos (btf : Btf) (fuel btfId : Nat) (param : String) : Option Int :=
  match btf.typeById btfId with
  | none => some (-enoent)
  | some t => if t.kind = .funcProto then paramLoop btf fuel param 0 t.params else some (-enoent)

/-! ## What it is to find -/

/-- The type is a pointer to the struct, under any wrappers around the pointer and around
the struct. -/
def PtrTo (btf : Btf) (name : String) (id : Nat) : Prop :=
  ∃ p t q u, Ends (wrappedBy btf) id p ∧ btf.typeById p = some t ∧ t.kind = .ptr ∧
    Ends (wrappedBy btf) t.type q ∧ btf.typeById q = some u ∧ u.kind = .struct ∧
    btf.nameByOffset u.nameOff = name

/-- It has no wrapper around it. -/
def Bare (btf : Btf) (id : Nat) : Prop := wrappedBy btf id = none

/-- `r` is `i` more than the index of the first parameter with `P`, or `-ENOENT` if there
is none. -/
def IsFirstFrom (i : Nat) (P : Nat → Prop) (ps : List BtfParam) (r : Int) : Prop :=
  (∃ (k : Nat) (p : BtfParam), r = (i + k : Nat) ∧ ps[k]? = some p ∧ P p.type ∧
      ∀ j < k, ∀ q, ps[j]? = some q → ¬ P q.type) ∨
    r = -enoent ∧ ∀ p ∈ ps, ¬ P p.type

/-- The position of the pointer among the parameters of a prototype. -/
def IsParamPos (btf : Btf) (name : String) (ps : List BtfParam) (r : Int) : Prop :=
  IsFirstFrom 0 (PtrTo btf name) ps r

/-- In front of every pointer to the struct that is wrapped there is one that is not. -/
def BareFirst (btf : Btf) (name : String) (ps : List BtfParam) : Prop :=
  ∀ (k : Nat) p, ps[k]? = some p → PtrTo btf name p.type → ¬ Bare btf p.type →
    ∃ j < k, ∃ q, ps[j]? = some q ∧ PtrTo btf name q.type ∧ Bare btf q.type

variable {btf : Btf} {fuel id : Nat} {name : String} {P Q : Nat → Prop} {ps : List BtfParam}
  {r : Int}

/-- A wrapper more around the pointer makes no difference to what is to be found. -/
theorem ptrTo_wrapped {id' : Nat} (h : wrappedBy btf id = some id') :
    PtrTo btf name id ↔ PtrTo btf name id' := by
  unfold PtrTo
  simp only [ends_step_iff h]

theorem wrappedBy_of_typeById {t : BtfType} (ht : btf.typeById id = some t) :
    wrappedBy btf id = if t.isWrapper then some t.type else none := by
  unfold wrappedBy
  rw [ht]

theorem bare_ptr {t : BtfType} (ht : btf.typeById id = some t) (hptr : t.kind = .ptr) :
    Bare btf id := by
  have hnot : t.isWrapper = false := by
    unfold BtfType.isWrapper
    rw [hptr]
    rfl
  unfold Bare
  rw [wrappedBy_of_typeById ht, hnot]
  rfl

/-- A pointer that is not wrapped is looked behind. -/
theorem ptrTo_iff_of_ptr {t : BtfType} (ht : btf.typeById id = some t) (hptr : t.kind = .ptr) :
    PtrTo btf name id ↔ ∃ q u, Ends (wrappedBy btf) t.type q ∧ btf.typeById q = some u ∧
      u.kind = .struct ∧ btf.nameByOffset u.nameOff = name := by
  have hstop : Ends (wrappedBy btf) id id := .stop (bare_ptr ht hptr)
  constructor
  · intro ⟨p, t', q, u, hp, ht', _, hrest⟩
    rw [← hstop.unique hp, ht] at ht'
    cases ht'
    exact ⟨q, u, hrest⟩
  · intro ⟨q, u, hrest⟩
    exact ⟨id, t, q, u, hstop, ht, hptr, hrest⟩

/-- What is neither wrapped nor a pointer is not it. -/
theorem PtrTo.of_bare (h : PtrTo btf name id) (hbare : Bare btf id) :
    ∃ t, btf.typeById id = some t ∧ t.kind = .ptr := by
  obtain ⟨p, t, -, -, hp, ht, hptr, -⟩ := h
  have hstop : Ends (wrappedBy btf) id id := .stop hbare
  rw [← hstop.unique hp] at ht
  exact ⟨t, ht, hptr⟩

/-! ## The loops -/

/-- Only the types of the graph wrap anything. -/
theorem wrappedBy_finite (btf : Btf) : {id | (wrappedBy btf id).isSome = true}.Finite := by
  apply (Set.finite_le_nat btf.types.length).subset
  intro id hid
  show id ≤ btf.types.length
  cases id with
  | zero => omega
  | succ id =>
    by_contra hgt
    have hnone : btf.typeById (id + 1) = none := List.getElem?_eq_none (by omega)
    have hwrap : wrappedBy btf (id + 1) = none := by
      unfold wrappedBy
      rw [hnone]
    have hsome : (wrappedBy btf (id + 1)).isSome = true := hid
    rw [hwrap] at hsome
    cases hsome

/-- The inner loop stops, and says whether there is a pointer to the struct and no wrapper
around it. -/
theorem isParam_stops (hacyclic : Acyclic (wrappedBy btf)) (p : BtfParam) (name : String) :
    ∃ n b, (∀ fuel, n ≤ fuel → isParam btf fuel p name = some b) ∧
      (b = true ↔ PtrTo btf name p.type ∧ Bare btf p.type) := by
  rcases ht : btf.typeById p.type with _ | t
  · -- `btf__type_by_id` has nothing for this id
    refine ⟨0, false, fun fuel _ => by unfold isParam; rw [ht], ?_⟩
    constructor
    · intro h
      cases h
    · intro ⟨hto, hbare⟩
      obtain ⟨t, ht', -⟩ := hto.of_bare hbare
      rw [ht] at ht'
      cases ht'
  · by_cases hptr : t.kind = .ptr
    · -- behind a pointer the inner loop runs to the end of the wrappers
      obtain ⟨q, hq⟩ := hacyclic.exists_ends (wrappedBy_finite btf) t.type
      obtain ⟨n, hn⟩ := hq.chase
      have hpos : PtrTo btf name p.type ∧ Bare btf p.type ↔
          ∃ u, btf.typeById q = some u ∧ u.kind = .struct ∧ btf.nameByOffset u.nameOff = name := by
        rw [ptrTo_iff_of_ptr ht hptr, and_iff_left (bare_ptr ht hptr)]
        constructor
        · intro ⟨q', u, hq', hrest⟩
          rw [← hq.unique hq'] at hrest
          exact ⟨u, hrest⟩
        · intro ⟨u, hrest⟩
          exact ⟨q, u, hq, hrest⟩
      refine ⟨n, match btf.typeById q with
        | none => false
        | some t => t.kind == .struct && btf.nameByOffset t.nameOff == name, ?_, ?_⟩
      · intro fuel hfuel
        unfold isParam
        rw [ht]
        dsimp only
        rw [if_pos hptr, hn fuel hfuel]
        rfl
      · rw [hpos]
        rcases hu : btf.typeById q with _ | u
        · simp
        · simp
    · -- `continue`, also where a wrapped pointer would be found behind this type
      refine ⟨0, false, fun fuel _ => by unfold isParam; rw [ht]; exact if_neg hptr, ?_⟩
      constructor
      · intro h
        cases h
      · intro ⟨hto, hbare⟩
        obtain ⟨t', ht', hptr'⟩ := hto.of_bare hbare
        rw [ht] at ht'
        cases ht'
        exact absurd hptr' hptr

theorem isFirstFrom_cons_pos {i : Nat} {p : BtfParam} (h : P p.type) :
    IsFirstFrom i P (p :: ps) i :=
  Or.inl ⟨0, p, rfl, rfl, h, fun _ hj => absurd hj (Nat.not_lt_zero _)⟩

theorem isFirstFrom_cons_neg {i : Nat} {p : BtfParam} (h : ¬ P p.type)
    (hrest : IsFirstFrom (i + 1) P ps r) : IsFirstFrom i P (p :: ps) r := by
  rcases hrest with ⟨k, q, hr, hq, hP, hbefore⟩ | ⟨hr, hnone⟩
  · refine Or.inl ⟨k + 1, q, by rw [hr, Nat.add_assoc, Nat.add_comm 1], hq, hP, ?_⟩
    intro j hj q' hq'
    cases j with
    | zero =>
      cases hq'
      exact h
    | succ j => exact hbefore j (by omega) q' hq'
  · refine Or.inr ⟨hr, fun q hq => ?_⟩
    rcases List.mem_cons.mp hq with rfl | hq
    · exact h
    · exact hnone q hq

/-- The outer loop stops at the first of these. -/
theorem paramLoop_stops (hacyclic : Acyclic (wrappedBy btf)) (name : String)
    (ps : List BtfParam) : ∀ i, ∃ n r, (∀ fuel, n ≤ fuel → paramLoop btf fuel name i ps = some r) ∧
      IsFirstFrom i (fun id => PtrTo btf name id ∧ Bare btf id) ps r := by
  induction ps with
  | nil =>
    intro i
    exact ⟨0, -enoent, fun _ _ => rfl, Or.inr ⟨rfl, fun p hp => by cases hp⟩⟩
  | cons p ps ih =>
    intro i
    obtain ⟨n, b, hn, hb⟩ := isParam_stops hacyclic p name
    cases b with
    | true =>
      refine ⟨n, i, fun fuel hfuel => ?_, isFirstFrom_cons_pos (hb.mp rfl)⟩
      rw [paramLoop, hn fuel hfuel]
    | false =>
      -- the rounds that are enough for this parameter and for those behind it
      obtain ⟨n', r, hn', hr⟩ := ih (i + 1)
      refine ⟨max n n', r, fun fuel hfuel => ?_,
        isFirstFrom_cons_neg (fun h => by cases hb.mpr h) hr⟩
      rw [paramLoop, hn fuel (by omega)]
      exact hn' fuel (by omega)

/-! ## The first of some, and the first of all -/

/-- If some parameter is one of these, the result is an index, and not behind it. -/
theorem IsFirstFrom.index {k : Nat} {p : BtfParam} (h : IsFirstFrom 0 P ps r)
    (hk : ps[k]? = some p) (hP : P p.type) : ∃ j : Nat, r = j ∧ j ≤ k ∧
      ∃ q, ps[j]? = some q ∧ P q.type := by
  rcases h with ⟨j, q, hr, hq, hPq, hbefore⟩ | ⟨-, hnone⟩
  · refine ⟨j, by rw [hr, Nat.zero_add], ?_, q, hq, hPq⟩
    by_contra hlt
    exact hbefore k (by omega) p hk hP
  · exact absurd hP (hnone p (List.mem_of_getElem? hk))

/-- The first with `Q`, of those with `P`, is the first with `P` exactly if none of the
others comes before it. -/
theorem isFirstFrom_iff_of_imp (hsub : ∀ id, Q id → P id) (h : IsFirstFrom 0 Q ps r) :
    IsFirstFrom 0 P ps r ↔ ∀ (k : Nat) p, ps[k]? = some p → P p.type → ¬ Q p.type →
      ∃ j < k, ∃ q, ps[j]? = some q ∧ Q q.type := by
  constructor
  · intro hfirst k p hk hP hQ
    obtain ⟨j, hr, hjk, q, hq, -⟩ := hfirst.index hk hP
    rcases h with ⟨j', q', hr', hq', hQq', -⟩ | ⟨hr', -⟩
    · -- both name the same parameter, which has `Q`, so it is not the `k`-th
      have hjj : j = j' := by omega
      subst hjj
      rw [hq] at hq'
      cases hq'
      refine ⟨j, ?_, q, hq, hQq'⟩
      rcases Nat.lt_or_eq_of_le hjk with hlt | rfl
      · exact hlt
      · rw [hk] at hq
        cases hq
        exact absurd hQq' hQ
    · -- an index is no error
      have henoent : enoent = 2 := rfl
      omega
  · intro hothers
    rcases h with ⟨k, p, hr, hk, hQ, hbefore⟩ | ⟨hr, hnone⟩
    · refine Or.inl ⟨k, p, hr, hk, hsub _ hQ, fun j hj q hq hP => ?_⟩
      obtain ⟨j', hj', q', hq', hQ'⟩ := hothers j q hq hP (hbefore j hj q hq)
      exact hbefore j' (by omega) q' hq' hQ'
    · refine Or.inr ⟨hr, fun p hp hP => ?_⟩
      obtain ⟨k, hk, hkp⟩ := List.mem_iff_getElem.mp hp
      have hget : ps[k]? = some p := by rw [← hkp]; exact List.getElem?_eq_getElem hk
      obtain ⟨j, -, q, hq, hQ⟩ := hothers k p hget hP (hnone p hp)
      exact hnone q (List.mem_of_getElem? hq) hQ

/-- **The search ends, with the position of the pointer exactly if no wrapped pointer to
the struct comes first.** -/
theorem param_pos_iff {proto : BtfType} (hacyclic : Acyclic (wrappedBy btf))
    (hproto : btf.typeById id = some proto) (hkind : proto.kind = .funcProto) (name : String) :
    ∃ r, (∃ n, ∀ fuel, n ≤ fuel → getFuncParamPos btf fuel id name = some r) ∧
      (IsParamPos btf name proto.params r ↔ BareFirst btf name proto.params) := by
  obtain ⟨n, r, hn, hr⟩ := paramLoop_stops hacyclic name proto.params 0
  refine ⟨r, ⟨n, fun fuel hfuel => ?_⟩, ?_⟩
  · unfold getFuncParamPos
    rw [hproto]
    dsimp only
    rw [if_pos hkind, hn fuel hfuel]
  · unfold IsParamPos BareFirst
    rw [isFirstFrom_iff_of_imp (fun _ h => h.1) hr]
    constructor
    · intro h k p hk hP hnot
      exact h k p hk hP fun hQ => hnot hQ.2
    · intro h k p hk hP hnot
      exact h k p hk hP fun hbare => hnot ⟨hP, hbare⟩

/-! ## A parameter that is const -/

/-- The types of `f(struct sk_buff *skb)`, id 4, and of `g(struct sk_buff *const skb)`,
id 5. -/
def skBtf : Btf where
  types :=
    [{ nameOff := 1, kind := .struct, type := 0, params := [] },
      { nameOff := 0, kind := .ptr, type := 1, params := [] },
      { nameOff := 0, kind := .const, type := 2, params := [] },
      { nameOff := 0, kind := .funcProto, type := 0, params := [⟨2⟩] },
      { nameOff := 0, kind := .funcProto, type := 0, params := [⟨3⟩] }]
  nameByOffset off := if off = 1 then "sk_buff" else ""

theorem skBtf_acyclic : Acyclic (wrappedBy skBtf) := by
  have hfew : ∀ id < 6, ∀ id' ∈ wrappedBy skBtf id, id' < id := by decide
  apply acyclic_of_lt
  intro id id' h
  by_cases hid : id < 6
  · exact hfew id hid id' h
  · obtain ⟨k, rfl⟩ : ∃ k, id = k + 6 := ⟨id - 6, by omega⟩
    cases h

theorem skBtf_ptrTo : PtrTo skBtf "sk_buff" 2 := by
  rw [ptrTo_iff_of_ptr rfl rfl]
  exact ⟨1, _, .stop rfl, rfl, rfl, rfl⟩

/-- With `f(struct sk_buff *skb)` the position is right. -/
theorem param_pos_iff_plain :
    ∃ r, (∃ n, ∀ fuel, n ≤ fuel → getFuncParamPos skBtf fuel 4 "sk_buff" = some r) ∧
      IsParamPos skBtf "sk_buff" [⟨2⟩] r := by
  obtain ⟨r, hr, hiff⟩ := @param_pos_iff skBtf 4 _ skBtf_acyclic rfl rfl "sk_buff"
  refine ⟨r, hr, hiff.mpr fun k p hk hto hnot => ?_⟩
  cases k with
  | zero =>
    cases hk
    exact absurd rfl hnot
  | succ k => cases hk

/-- `g(struct sk_buff *const skb)` takes its sk_buff as its first argument, and
`-ENOENT` is the answer. -/
theorem const_param_missed :
    Acyclic (wrappedBy skBtf) ∧
      (∀ fuel, getFuncParamPos skBtf fuel 5 "sk_buff" = some (-enoent)) ∧
      IsParamPos skBtf "sk_buff" [⟨3⟩] 0 ∧ ¬ IsParamPos skBtf "sk_buff" [⟨3⟩] (-enoent) := by
  have hto : PtrTo skBtf "sk_buff" 3 := (ptrTo_wrapped rfl).mpr skBtf_ptrTo
  refine ⟨skBtf_acyclic, fun _ => rfl, isFirstFrom_cons_pos hto, fun h => ?_⟩
  obtain ⟨j, hj, -⟩ := h.index (k := 0) rfl hto
  have henoent : enoent = 2 := rfl
  omega

end SkbTracer.Symdb
