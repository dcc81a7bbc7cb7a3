import Mathlib.Data.BitVec
import Mathlib.Algebra.Ring.Nat

/-!
# The interface-name cache

`resolve_dev_name` names an interface of any namespace: from the cache if the
pair is there, else from the operating system, which only knows the interfaces
of the tracer's own namespace. So the cache is filled by two routes, one of them
the reading operation itself, and whether that route is open depends on the
current namespace id, which changes.

The law is stated over histories, the last operation first. `stored past p` is
the name last stored for the pair `p` since the last clear, `current past` the
namespace id last set; neither mentions the packed 64-bit keys of the code.

- `makeCacheKey_inj`: what keeps the namespaces apart is that packing is injective.
- `step_tracks`, `after_tracks`: `Tracks past c` says that the cache `c` shows exactly
  the history, one operation preserves it, and so it holds after any of them.
- `elsewhere_stored`: an operation on another pair changes nothing for this one.
- `resolve_law`: every answer is the name stored for this very pair, else that of the
  system, if the namespace is the tracer's own; a name once answered is answered again
  until the pair is registered anew or the cache is cleared.

What the system says is an argument of each lookup, since interfaces are renamed while
the tracer runs; the cache is not told. A lookup that gets no name stores nothing, so the
next one asks again.
-/

namespace SkbTracer.Output

/-! ## The code -/

/-- `make_cache_key(netns, ifindex)`. -/
def makeCacheKey (netns ifindex : BitVec 32) : BitVec 64 :=
  (netns.setWidth 64 <<< 32) ||| ifindex.setWidth 64

/-- `s_ifname_cache` and `s_current_netns_id`. -/
structure DevCache where
  ifnameCache : BitVec 64 → Option String
  currentNetnsId : BitVec 32

/-- The cache when the program starts. -/
def DevCache.empty : DevCache := ⟨fun _ => none, 0⟩

/-- `s_ifname_cache[key] = ifname`. -/
def DevCache.put (c : DevCache) (key : BitVec 64) (ifname : String) : DevCache :=
  { c with ifnameCache := fun k => if k = key then some ifname else c.ifnameCache k }

/-- `set_current_netns_id(id)`. -/
def setCurrentNetnsId (c : DevCache) (id : BitVec 32) : DevCache :=
  { c with currentNetnsId := id }

/-- `register_ifname(netns, ifindex, ifname)`. -/
def registerIfname (c : DevCache) (netns ifindex : BitVec 32) (ifname : String) : DevCache :=
  c.put (makeCacheKey netns ifindex) ifname

/-- `clear_ifname_cache()`. -/
def clearIfnameCache (_ : DevCache) : DevCache := ⟨fun _ => none, 0⟩

/-- `os` is what `if_indextoname` answers if it is asked during this call. -/
def resolveDevName (c : DevCache) (netns ifindex : BitVec 32) (os : Option String) :
    DevCache × String :=
  if ifindex = 0 then (c, "")
  else
    match c.ifnameCache (makeCacheKey netns ifindex) with
    | some name => (c, name)
    | none =>
      if netns = 0 ∨ (c.currentNetnsId ≠ 0 ∧ netns = c.currentNetnsId) then
        match os with
        | some name => (c.put (makeCacheKey netns ifindex) name, name)
        | none => (c, "")
      else (c, "")

/-- One call, with its arguments and the answer of the operating system. -/
inductive Op where
  | register (netns ifindex : BitVec 32) (ifname : String)
  | resolve (netns ifindex : BitVec 32) (os : Option String)
  | setCurrent (id : BitVec 32)
  | clear
  deriving DecidableEq, Repr

/-- The cache after one call. -/
def DevCache.step (c : DevCache) : Op → DevCache
  | .register n i name => registerIfname c n i name
  | .resolve n i os => (resolveDevName c n i os).1
  | .setCurrent id => setCurrentNetnsId c id
  | .clear => clearIfnameCache c

/-- The cache after the calls of a history, the last one first. -/
def after : List Op → DevCache
  | [] => .empty
  | op :: past => (after past).step op

/-! ## What a history says -/

/-- The namespace id last set since the last clear. -/
def current : List Op → BitVec 32
  | [] => 0
  | .setCurrent id :: _ => id
  | .clear :: _ => 0
  | .register .. :: past => current past
  | .resolve .. :: past => current past

/-- The operating system is asked about interfaces of the namespace the tracer is
in: the unnamed one, or the current one once it is known. -/
def MayAsk (past : List Op) (netns : BitVec 32) : Prop :=
  netns = 0 ∨ (current past ≠ 0 ∧ netns = current past)

instance (past : List Op) (netns : BitVec 32) : Decidable (MayAsk past netns) :=
  inferInstanceAs (Decidable (_ ∨ _))

/-- The name last stored for a pair since the last clear: by a registration, or by
a lookup of the pair that had to ask and was answered. -/
def stored : List Op → BitVec 32 × BitVec 32 → Option String
  | [], _ => none
  | .register n i name :: past, p => if p = (n, i) then some name else stored past p
  | .resolve n i os :: past, p =>
    if p = (n, i) ∧ i ≠ 0 ∧ stored past p = none ∧ MayAsk past n then os else stored past p
  | .setCurrent _ :: past, p => stored past p
  | .clear :: _, _ => none

/-- The operations that may change a name once it was answered. -/
def Op.Forgets (op : Op) (p : BitVec 32 × BitVec 32) : Prop :=
  op = .clear ∨ ∃ name, op = .register p.1 p.2 name

/-- The operation is about a pair other than `p`. -/
def Op.Elsewhere (p : BitVec 32 × BitVec 32) : Op → Prop
  | .register n i _ => (n, i) ≠ p
  | .resolve n i _ => (n, i) ≠ p
  | .setCurrent _ => False
  | .clear => False

/-! ## Keys -/

theorem makeCacheKey_toNat (n i : BitVec 32) :
    (makeCacheKey n i).toNat = n.toNat * 2 ^ 32 + i.toNat := by
  have hn : n.toNat < 2 ^ 32 := n.isLt
  have hi : i.toNat < 2 ^ 32 := i.isLt
  have hshift : n.toNat <<< 32 % 2 ^ 64 = n.toNat <<< 32 := by
    apply Nat.mod_eq_of_lt
    rw [Nat.shiftLeft_eq]
    omega
  have hnm : n.toNat % 2 ^ 64 = n.toNat := Nat.mod_eq_of_lt (by omega)
  have him : i.toNat % 2 ^ 64 = i.toNat := Nat.mod_eq_of_lt (by omega)
  unfold makeCacheKey
  rw [BitVec.toNat_or, BitVec.toNat_shiftLeft, BitVec.toNat_setWidth, BitVec.toNat_setWidth,
    hnm, him, hshift, ← Nat.shiftLeft_add_eq_or_of_lt hi, Nat.shiftLeft_eq]

/-- **Two pairs never share a key.** -/
theorem makeCacheKey_inj {n i n' i' : BitVec 32} :
    makeCacheKey n i = makeCacheKey n' i' ↔ n = n' ∧ i = i' := by
  constructor
  · intro h
    have hkey := congrArg BitVec.toNat h
    rw [makeCacheKey_toNat, makeCacheKey_toNat] at hkey
    have hi : i.toNat < 2 ^ 32 := i.isLt
    have hi' : i'.toNat < 2 ^ 32 := i'.isLt
    exact ⟨BitVec.eq_of_toNat_eq (by omega), BitVec.eq_of_toNat_eq (by omega)⟩
  · rintro ⟨rfl, rfl⟩
    rfl

/-! ## The cache shows its history -/

/-- The cache shows what the history says. -/
structure Tracks (past : List Op) (c : DevCache) : Prop where
  current : c.currentNetnsId = current past
  cache : ∀ n i, c.ifnameCache (makeCacheKey n i) = stored past (n, i)

/-- A name that is put in is the name of its pair, and no other pair has it from that.
-/
theorem Tracks.put {past : List Op} {c : DevCache} (h : Tracks past c) (n i : BitVec 32)
    (name : String) (n' i' : BitVec 32) :
    (c.put (makeCacheKey n i) name).ifnameCache (makeCacheKey n' i') =
      if (n', i') = (n, i) then some name else stored past (n', i') := by
  unfold DevCache.put
  show (if makeCacheKey n' i' = makeCacheKey n i then _ else _) = _
  rw [← h.cache n' i']
  by_cases he : n' = n ∧ i' = i
  · rw [if_pos (makeCacheKey_inj.mpr he), if_pos (Prod.ext he.1 he.2)]
  · rw [if_neg (fun hk => he (makeCacheKey_inj.mp hk)),
      if_neg (fun hp => he ⟨congrArg Prod.fst hp, congrArg Prod.snd hp⟩)]

/-- What a lookup answers, and which cache it leaves. -/
theorem Tracks.resolve {past : List Op} {c : DevCache} (h : Tracks past c) (n i : BitVec 32)
    (os : Option String) (hi : i ≠ 0) :
    resolveDevName c n i os =
      match stored past (n, i), os with
      | some name, _ => (c, name)
      | none, some name =>
        if MayAsk past n then (c.put (makeCacheKey n i) name, name) else (c, "")
      | none, none => (c, "") := by
  unfold resolveDevName MayAsk
  rw [if_neg hi, h.cache, h.current]
  rcases stored past (n, i) with _ | name
  · rcases os with _ | name
    · exact ite_self _
    · rfl
  · rfl

theorem resolve_step_tracks {past : List Op} {c : DevCache} (h : Tracks past c)
    (n i : BitVec 32) (os : Option String) :
    Tracks (.resolve n i os :: past) (resolveDevName c n i os).1 := by
  by_cases hi : i = 0
  · -- Interface 0 names nothing: the call ends before the cache is looked at.
    have hc : (resolveDevName c n i os).1 = c := by
      unfold resolveDevName
      rw [if_pos hi]
    rw [hc]
    refine ⟨h.current, fun n' i' => ?_⟩
    rw [h.cache, stored, if_neg (fun hp => hp.2.1 hi)]
  · rw [h.resolve n i os hi]
    rcases hs : stored past (n, i) with _ | old
    · -- not in the cache: the operating system is asked, if it may be
      rcases os with _ | name
      · refine ⟨h.current, fun n' i' => ?_⟩
        rw [h.cache, stored]
        split
        next hp => exact hp.2.2.1
        next => rfl
      · by_cases hask : MayAsk past n
        · simp only [if_pos hask]
          refine ⟨h.current, fun n' i' => ?_⟩
          rw [h.put, stored]
          by_cases hp : (n', i') = (n, i)
          · rw [if_pos hp, if_pos ⟨hp, hi, hp ▸ hs, hask⟩]
          · rw [if_neg hp, if_neg (fun hq => hp hq.1)]
        · simp only [if_neg hask]
          refine ⟨h.current, fun n' i' => ?_⟩
          rw [h.cache, stored, if_neg (fun hp => hask hp.2.2.2)]
    · -- a name from the cache changes nothing, and the history says the same
      refine ⟨h.current, fun n' i' => ?_⟩
      rw [h.cache, stored]
      split
      next hp => rw [hp.1, hs] at hp; exact absurd hp.2.2.1 (by simp)
      next => rfl

/-- **One operation** keeps it. -/
theorem step_tracks {past : List Op} {c : DevCache} (h : Tracks past c) (op : Op) :
    Tracks (op :: past) (c.step op) := by
  cases op with
  | register n i name => exact ⟨h.current, fun n' i' => h.put n i name n' i'⟩
  | resolve n i os => exact resolve_step_tracks h n i os
  | setCurrent id => exact ⟨rfl, h.cache⟩
  | clear => exact ⟨rfl, fun _ _ => rfl⟩

/-- **After any history the cache shows exactly what the history stored.** -/
theorem after_tracks (past : List Op) : Tracks past (after past) := by
  induction past with
  | nil => exact ⟨rfl, fun _ _ => rfl⟩
  | cons op past ih => exact step_tracks ih op

/-! ## What is answered -/

/-- The answer to a lookup after a history. -/
def answer (past : List Op) (p : BitVec 32 × BitVec 32) (os : Option String) : String :=
  (resolveDevName (after past) p.1 p.2 os).2

theorem answer_zero (past : List Op) (n : BitVec 32) (os : Option String) :
    answer past (n, 0) os = "" := rfl

theorem answer_eq (past : List Op) (p : BitVec 32 × BitVec 32) (os : Option String)
    (hi : p.2 ≠ 0) :
    answer past p os =
      match stored past p with
      | some name => name
      | none => if MayAsk past p.1 then os.getD "" else "" := by
  unfold answer
  rw [(after_tracks past).resolve p.1 p.2 os hi]
  rcases stored past p with _ | name
  · rcases os with _ | name
    · exact (ite_self _).symm
    · by_cases hask : MayAsk past p.1
      · simp only [if_pos hask, Option.getD_some]
      · simp only [if_neg hask]
  · rfl

/-- What was answered is stored, unless nothing was. -/
theorem stored_of_answer {past : List Op} {p : BitVec 32 × BitVec 32} {os : Option String}
    (h : answer past p os ≠ "") :
    p.2 ≠ 0 ∧ stored (.resolve p.1 p.2 os :: past) p = some (answer past p os) := by
  have hi : p.2 ≠ 0 := by
    intro hi
    apply h
    obtain ⟨n, i⟩ := p
    obtain rfl : i = 0 := hi
    exact answer_zero past n os
  refine ⟨hi, ?_⟩
  rw [answer_eq past p os hi] at h ⊢
  rw [stored]
  rcases hs : stored past p with _ | name
  · by_cases hask : MayAsk past p.1
    · rw [if_pos ⟨rfl, hi, rfl, hask⟩]
      simp only [hs, if_pos hask] at h ⊢
      rcases os with _ | name
      · exact absurd rfl h
      · rfl
    · simp only [hs, if_neg hask] at h
      exact absurd rfl h
  · rw [if_neg (fun hq => by cases hq.2.2.1)]

/-- A stored name stays until it is overwritten or the cache cleared. -/
theorem stored_cons {past : List Op} {p : BitVec 32 × BitVec 32} {name : String} {op : Op}
    (h : stored past p = some name) (hop : ¬ op.Forgets p) :
    stored (op :: past) p = some name := by
  cases op with
  | register n i new =>
    rw [stored, if_neg, h]
    rintro rfl
    exact hop (Or.inr ⟨new, rfl⟩)
  | resolve n i os =>
    rw [stored, if_neg, h]
    intro hq
    rw [h] at hq
    cases hq.2.2.1
  | setCurrent id => exact h
  | clear => exact absurd (Or.inl rfl) hop

/-- So it stays through any operations that do neither. -/
theorem stored_append {past : List Op} {p : BitVec 32 × BitVec 32} {name : String}
    (h : stored past p = some name) {later : List Op} (hl : ∀ op ∈ later, ¬ op.Forgets p) :
    stored (later ++ past) p = some name := by
  induction later with
  | nil => exact h
  | cons op later ih =>
    apply stored_cons
    · exact ih fun op' hop' => hl op' (List.mem_cons_of_mem op hop')
    · exact hl op List.mem_cons_self

/-- Operations on another pair leave what a pair's lookup depends on. -/
theorem elsewhere_stored {past : List Op} {p : BitVec 32 × BitVec 32} {op : Op}
    (h : op.Elsewhere p) :
    stored (op :: past) p = stored past p ∧ current (op :: past) = current past := by
  cases op with
  | register n i name => exact ⟨if_neg (Ne.symm h), rfl⟩
  | resolve n i os => exact ⟨if_neg fun hq => h hq.1.symm, rfl⟩
  | setCurrent id => exact h.elim
  | clear => exact h.elim

/-- **The cache never mixes namespaces.** After any calls, a lookup of `(n, i)`
answers the name last stored for this very pair since the last clear; if there is
none, what the operating system says, provided the namespace is the tracer's own;
else nothing. So a name once answered is answered again until the pair is
registered anew or the cache cleared, and no operation on another pair changes
what is answered. -/
theorem resolve_law (past : List Op) (n i : BitVec 32) (os : Option String) :
    (i ≠ 0 → answer past (n, i) os =
      match stored past (n, i) with
      | some name => name
      | none =>
        if n = 0 ∨ (current past ≠ 0 ∧ n = current past) then os.getD "" else "") ∧
    (answer past (n, i) os ≠ "" →
      ∀ later : List Op, (∀ op ∈ later, ¬ op.Forgets (n, i)) → ∀ os' : Option String,
        answer (later ++ .resolve n i os :: past) (n, i) os' = answer past (n, i) os) ∧
    (∀ op : Op, op.Elsewhere (n, i) → answer (op :: past) (n, i) os = answer past (n, i) os) := by
  refine ⟨fun hi => answer_eq past (n, i) os hi, ?_, ?_⟩
  · intro hne later hl os'
    obtain ⟨hi, hs⟩ := stored_of_answer hne
    rw [answer_eq _ (n, i) os' hi, stored_append hs hl]
  · intro op hop
    by_cases hi : i = 0
    · subst hi
      rfl
    · obtain ⟨hs, hc⟩ : stored (op :: past) (n, i) = stored past (n, i) ∧
          current (op :: past) = current past := elsewhere_stored hop
      have hask : MayAsk (op :: past) n ↔ MayAsk past n := by
        unfold MayAsk
        rw [hc]
      rw [answer_eq _ (n, i) os hi, answer_eq past (n, i) os hi, hs]
      simp only [hask]

end SkbTracer.Output
