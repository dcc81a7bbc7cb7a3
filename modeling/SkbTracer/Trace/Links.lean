import Mathlib.Data.String.Basic
import SkbTracer.Lib.Ledger
import SkbTracer.Lib.OrdMap

/-!
# Kprobe links

`attach_skb_func` obtains a link from libbpf and records it under the function's
name; `detach_skb_func` detaches the recorded link and forgets it; the
destructor destroys the links recorded, in the order of their names. So a link is lost
whenever the record misses it: `emplace` keeps the old entry of a name that is there
already, and `erase` drops an entry whose link was detached but not destroyed.

Runs are histories, the last operation first, each with libbpf's answer. The resources of
the ledger are the links (`Lib.Ledger`): taken when `bpf_program__attach_kprobe` returns
one, given back by `bpf_link__destroy`.

- `after_tallied`: `Tallied` relates a state to its history in every run: the links alive
  are all that were returned, and what is recorded is among them.
- `step_complete`: `Complete`, that the record has all of them, is preserved by the
  operations `Careful` allows.
- `Tallied.balanced_iff`: since the destructor gives back what is recorded, the question of
  leaks is one about permutations.
- `links_kept_iff`: the record is right at every point and no link is lost exactly if the
  run was `Careful`: no function was given two links, and libbpf detached none that had
  one. `links_lost` has a run of either kind.

`Careful` is about the calls and the answers alone. Whether the destructor runs, and that
it runs once, is `main`'s part (`App.Main`).
-/

namespace SkbTracer.Trace

open SkbTracer.Lib

/-! ## The code -/

/-- `EINVAL`. -/
def einval : Int := 22

/-- A `struct bpf_link`: the function and the program it joins, and its number
among the links returned so far, which tells it from every other link. -/
structure Link where
  skbFunc : String
  prog : String
  serial : Nat
  deriving DecidableEq, Repr

/-- `prog_mapping_list`: which program reads the skb of which parameter. -/
def progMappingList : List (Int × String) :=
  [(0, "kprobe_skb_1"), (1, "kprobe_skb_2"), (2, "kprobe_skb_3"), (3, "kprobe_skb_4"),
    (4, "kprobe_skb_5")]

/-- The part of `trace_mgr_priv_t` that links pass through, with the number of links
returned and the log of what became of them. -/
structure LinkMgr where
  linkMappingList : OrdMap String Link
  returned : Nat
  log : List (Use Link)

/-- No link yet. -/
def LinkMgr.init : LinkMgr := ⟨.empty, 0, []⟩

/-- A link was returned, and is recorded unless its function is in the record. -/
def LinkMgr.addLink (p : LinkMgr) (skbFunc prog : String) : LinkMgr :=
  let link : Link := ⟨skbFunc, prog, p.returned⟩
  { linkMappingList := p.linkMappingList.emplace skbFunc link
    returned := p.returned + 1
    log := p.log ++ [.take link] }

/-- `err` is what `libbpf_get_error` says of the outcome of
`bpf_program__attach_kprobe`: 0 if that is a link. -/
def attachSkbFunc (p : LinkMgr) (skbFunc : String) (skbParamPos err : Int) : LinkMgr × Int :=
  match progMappingList.lookup skbParamPos with
  | none => (p, -einval)
  | some prog => if err ≠ 0 then (p, err) else (p.addLink skbFunc prog, 0)

/-- `err` is the answer of `bpf_link__detach`, which leaves the link object alone. -/
def detachSkbFunc (p : LinkMgr) (skbFunc : String) (err : Int) : LinkMgr × Int :=
  match p.linkMappingList.find skbFunc with
  | none => (p, -einval)
  | some _ =>
    if err ≠ 0 then (p, err)
    else ({ p with linkMappingList := p.linkMappingList.erase skbFunc }, 0)

/-- The links recorded, in the order of the names. -/
def LinkMgr.recorded (p : LinkMgr) : List Link := p.linkMappingList.entries.map Prod.snd

/-- `~TraceMgr`: `bpf_link__destroy` for every entry. -/
def destroyLinks (p : LinkMgr) : LinkMgr :=
  { p with
    linkMappingList := .empty
    log := p.log ++ p.recorded.map .give }

/-- One call, with the answer of libbpf. -/
inductive LinkOp where
  | attach (skbFunc : String) (skbParamPos err : Int)
  | detach (skbFunc : String) (err : Int)
  deriving DecidableEq, Repr

/-- The state after one call. -/
def LinkMgr.step (p : LinkMgr) : LinkOp → LinkMgr
  | .attach f pos err => (attachSkbFunc p f pos err).1
  | .detach f err => (detachSkbFunc p f err).1

/-- The state after the calls of a history, the last one first. -/
def linksAfter : List LinkOp → LinkMgr
  | [] => .init
  | op :: past => (linksAfter past).step op

/-! ## What should hold -/

/-- The names recorded are those of the functions with a live link, each with its
own link. -/
def Recorded (p : LinkMgr) : Prop :=
  ∃ live, held [] p.log = some live ∧
    (∀ f, f ∈ p.linkMappingList.keys ↔ ∃ link ∈ live, link.skbFunc = f) ∧
    ∀ f link, p.linkMappingList.find f = some link → link ∈ live ∧ link.skbFunc = f

/-- At every point of the run the record is right, and once the destructor has run
every link was destroyed exactly once. -/
def LinksKept (past : List LinkOp) : Prop :=
  (∀ earlier, earlier <:+ past → Recorded (linksAfter earlier)) ∧
    Lib.Balanced (destroyLinks (linksAfter past)).log

/-! ## Which runs -/

/-- The functions for which `bpf_program__attach_kprobe` returned a link, the last
first. -/
def attached : List LinkOp → List String
  | [] => []
  | .attach f pos err :: past =>
    if (progMappingList.lookup pos).isSome ∧ err = 0 then f :: attached past else attached past
  | .detach .. :: past => attached past

/-- No function gets a second link, and libbpf detaches none that has one. -/
def Careful : List LinkOp → Prop
  | [] => True
  | .attach f pos err :: past =>
    ((progMappingList.lookup pos).isSome ∧ err = 0 → f ∉ attached past) ∧ Careful past
  | .detach f err :: past => (err = 0 → f ∉ attached past) ∧ Careful past

/-! ## What one operation does -/

/-- An attach adds a link, if the position has a program and libbpf agrees, and else
changes nothing. -/
theorem attach_cases (p : LinkMgr) (f : String) (pos err : Int) :
    (∃ prog, progMappingList.lookup pos = some prog ∧ err = 0 ∧
        p.step (.attach f pos err) = p.addLink f prog) ∨
      ¬((progMappingList.lookup pos).isSome ∧ err = 0) ∧ p.step (.attach f pos err) = p := by
  have hcall : p.step (.attach f pos err) = (attachSkbFunc p f pos err).1 := rfl
  rw [hcall]
  unfold attachSkbFunc
  rcases progMappingList.lookup pos with _ | prog
  · exact Or.inr ⟨by simp, rfl⟩
  · by_cases herr : err = 0
    · exact Or.inl ⟨prog, rfl, herr, by simp only [herr, ne_eq, not_true_eq_false, if_false]⟩
    · exact Or.inr ⟨fun h => herr h.2, by simp only [herr, ne_eq, not_false_eq_true, if_true]⟩

/-- A detach drops the entry, if there is one and libbpf agrees, and else changes
nothing. -/
theorem detach_cases (p : LinkMgr) (f : String) (err : Int) :
    (err = 0 ∧ f ∈ p.linkMappingList.keys ∧ p.step (.detach f err) =
        { p with linkMappingList := p.linkMappingList.erase f }) ∨
      ¬(err = 0 ∧ f ∈ p.linkMappingList.keys) ∧ p.step (.detach f err) = p := by
  have hcall : p.step (.detach f err) = (detachSkbFunc p f err).1 := rfl
  rw [hcall]
  unfold detachSkbFunc
  rcases hf : p.linkMappingList.find f with _ | link
  · exact Or.inr ⟨fun h => OrdMap.find_eq_none_iff.mp hf h.2, rfl⟩
  · have hmem : f ∈ p.linkMappingList.keys := OrdMap.mem_keys_iff.mpr ⟨link, hf⟩
    by_cases herr : err = 0
    · exact Or.inl ⟨herr, hmem, by simp only [herr, ne_eq, not_true_eq_false, if_false]⟩
    · exact Or.inr ⟨fun h => herr h.1, by simp only [herr, ne_eq, not_false_eq_true, if_true]⟩

/-! ## Every run -/

/-- The links returned, the last first. -/
def live : List LinkOp → List Link
  | [] => []
  | .attach f pos err :: past =>
    match progMappingList.lookup pos with
    | some prog => if err = 0 then ⟨f, prog, (live past).length⟩ :: live past else live past
    | none => live past
  | .detach .. :: past => live past

theorem live_attach {f prog : String} {pos : Int} (h : progMappingList.lookup pos = some prog)
    (past : List LinkOp) :
    live (.attach f pos 0 :: past) = ⟨f, prog, (live past).length⟩ :: live past := by
  rw [live, h]
  exact if_pos rfl

theorem live_attach_failed {f : String} {pos err : Int}
    (h : ¬((progMappingList.lookup pos).isSome ∧ err = 0)) (past : List LinkOp) :
    live (.attach f pos err :: past) = live past := by
  rw [live]
  split
  next prog hprog => exact if_neg fun herr => h ⟨by rw [hprog]; rfl, herr⟩
  next => rfl

/-- The links alive are those of the functions attached. -/
theorem live_names (past : List LinkOp) : (live past).map Link.skbFunc = attached past := by
  induction past with
  | nil => rfl
  | cons op past ih =>
    cases op with
    | attach f pos err =>
      by_cases h : (progMappingList.lookup pos).isSome ∧ err = 0
      · obtain ⟨hpos, rfl⟩ := h
        obtain ⟨prog, hprog⟩ := Option.isSome_iff_exists.mp hpos
        rw [live_attach hprog, List.map_cons, ih, attached, if_pos ⟨hpos, rfl⟩]
      · rw [live_attach_failed h, ih, attached, if_neg h]
    | detach f err => exact ih

/-- The serial numbers of the links returned count down to zero. -/
theorem live_serials (past : List LinkOp) :
    (live past).map Link.serial = (List.range (live past).length).reverse := by
  induction past with
  | nil => rfl
  | cons op past ih =>
    cases op with
    | attach f pos err =>
      by_cases h : (progMappingList.lookup pos).isSome ∧ err = 0
      · obtain ⟨hpos, rfl⟩ := h
        obtain ⟨prog, hprog⟩ := Option.isSome_iff_exists.mp hpos
        rw [live_attach hprog, List.map_cons, ih, List.length_cons, List.range_succ,
          List.reverse_append]
        rfl
      · rw [live_attach_failed h, ih]
    | detach f err => exact ih

theorem live_nodup (past : List LinkOp) : (live past).Nodup := by
  apply List.Nodup.of_map Link.serial
  rw [live_serials]
  exact List.nodup_reverse.mpr List.nodup_range

/-- What a state shows of its history: the links returned are all alive, and what is
recorded is among them, under its function. -/
structure Tallied (past : List LinkOp) (p : LinkMgr) : Prop where
  held : held [] p.log = some (live past)
  returned : p.returned = (live past).length
  recorded : ∀ f link, p.linkMappingList.find f = some link →
    link ∈ live past ∧ link.skbFunc = f

/-- **One operation** keeps the tally, whatever libbpf answers. -/
theorem step_tallied {past : List LinkOp} {p : LinkMgr} (h : Tallied past p) (op : LinkOp) :
    Tallied (op :: past) (p.step op) := by
  cases op with
  | attach f pos err =>
    rcases attach_cases p f pos err with ⟨prog, hprog, rfl, hstep⟩ | ⟨hno, hstep⟩
    · -- a link more, whether or not it could be recorded
      rw [hstep]
      have hlive := live_attach (f := f) hprog past
      rw [← h.returned] at hlive
      constructor
      · rw [hlive]
        exact held_take h.held _
      · rw [hlive, List.length_cons, ← h.returned]
        rfl
      · intro g link hlink
        rw [hlive]
        unfold LinkMgr.addLink at hlink
        rw [OrdMap.find_emplace] at hlink
        split at hlink
        next hg =>
          obtain rfl := Option.some.inj hlink
          exact ⟨List.mem_cons_self, hg.1.symm⟩
        next =>
          obtain ⟨hmem, hname⟩ := h.recorded g link hlink
          exact ⟨List.mem_cons_of_mem _ hmem, hname⟩
    · have hlive := live_attach_failed (f := f) hno past
      rw [hstep]
      exact ⟨by rw [hlive]; exact h.held, by rw [hlive]; exact h.returned,
        by rw [hlive]; exact h.recorded⟩
  | detach f err =>
    rcases detach_cases p f err with ⟨rfl, hmem, hstep⟩ | ⟨hno, hstep⟩
    · -- the entry goes, the link stays
      rw [hstep]
      refine ⟨h.held, h.returned, fun g link hlink => ?_⟩
      rw [OrdMap.find_erase] at hlink
      split at hlink
      next => cases hlink
      next => exact h.recorded g link hlink
    · rw [hstep]
      exact ⟨h.held, h.returned, h.recorded⟩

/-- So it holds in every run. -/
theorem after_tallied (past : List LinkOp) : Tallied past (linksAfter past) := by
  induction past with
  | nil => exact ⟨rfl, rfl, fun f link h => by cases h⟩
  | cons op past ih => exact step_tallied ih op

/-! ### What is recorded -/

theorem mem_recorded {p : LinkMgr} {link : Link} :
    link ∈ p.recorded ↔ ∃ f, p.linkMappingList.find f = some link := by
  unfold LinkMgr.recorded
  rw [List.mem_map]
  constructor
  · rintro ⟨⟨f, link'⟩, hmem, rfl⟩
    exact ⟨f, OrdMap.find_eq_some_iff.mpr hmem⟩
  · rintro ⟨f, h⟩
    exact ⟨⟨f, link⟩, OrdMap.find_eq_some_iff.mp h, rfl⟩

section

variable {past : List LinkOp} {p : LinkMgr}

/-- The functions of the links recorded are the names they are recorded under. -/
theorem Tallied.recorded_names (h : Tallied past p) :
    p.recorded.map Link.skbFunc = p.linkMappingList.keys := by
  unfold LinkMgr.recorded OrdMap.keys
  rw [List.map_map]
  apply List.map_congr_left
  rintro ⟨f, link⟩ hmem
  exact (h.recorded f link (OrdMap.find_eq_some_iff.mpr hmem)).2

theorem Tallied.recorded_nodup (h : Tallied past p) : (p.recorded.map Link.skbFunc).Nodup := by
  rw [h.recorded_names]
  exact p.linkMappingList.keys_nodup

/-- The destructor leaves nothing exactly if every link returned is recorded. -/
theorem Tallied.balanced_iff (h : Tallied past p) :
    Lib.Balanced (destroyLinks p).log ↔ (live past).Perm p.recorded := by
  unfold Lib.Balanced destroyLinks
  rw [held_append, h.held]
  exact held_give_all

/-- A name recorded is that of a function that was attached. -/
theorem Tallied.mem_attached (h : Tallied past p) {f : String}
    (hf : f ∈ p.linkMappingList.keys) : f ∈ attached past := by
  obtain ⟨link, hlink⟩ := OrdMap.mem_keys_iff.mp hf
  obtain ⟨hmem, rfl⟩ := h.recorded f link hlink
  rw [← live_names]
  exact List.mem_map_of_mem hmem

/-- Every link returned is recorded under its function. -/
def Complete (past : List LinkOp) (p : LinkMgr) : Prop :=
  ∀ link ∈ live past, p.linkMappingList.find link.skbFunc = some link

theorem Complete.recorded (hc : Complete past p) (h : Tallied past p) : Recorded p := by
  refine ⟨live past, h.held, fun f => ⟨fun hf => ?_, ?_⟩, h.recorded⟩
  · have hname := h.mem_attached hf
    rw [← live_names] at hname
    exact List.mem_map.mp hname
  · rintro ⟨link, hlink, rfl⟩
    exact OrdMap.mem_keys_iff.mpr ⟨link, hc link hlink⟩

theorem Complete.perm (hc : Complete past p) (h : Tallied past p) :
    (live past).Perm p.recorded := by
  rw [List.perm_ext_iff_of_nodup (live_nodup past) (h.recorded_nodup.of_map _)]
  intro link
  rw [mem_recorded]
  constructor
  · intro hlink
    exact ⟨_, hc link hlink⟩
  · rintro ⟨f, hf⟩
    exact (h.recorded f link hf).1

end

/-! ## Careful runs -/

/-- An operation that is allowed keeps the record complete. -/
theorem step_complete {past : List LinkOp} {p : LinkMgr} (h : Tallied past p)
    (hc : Complete past p) {op : LinkOp} (hop : Careful (op :: past)) :
    Complete (op :: past) (p.step op) := by
  cases op with
  | attach f pos err =>
    rcases attach_cases p f pos err with ⟨prog, hprog, rfl, hstep⟩ | ⟨hno, hstep⟩
    · have hnew : f ∉ attached past := hop.1 ⟨by rw [hprog]; rfl, rfl⟩
      intro link hlink
      rw [hstep]
      unfold LinkMgr.addLink
      rw [live_attach hprog, ← h.returned] at hlink
      rw [OrdMap.find_emplace]
      rcases List.mem_cons.mp hlink with rfl | hold
      · rw [if_pos ⟨rfl, OrdMap.find_eq_none_iff.mpr fun hf => hnew (h.mem_attached hf)⟩]
      · -- a link returned before belongs to another function
        rw [if_neg, hc link hold]
        rintro ⟨rfl, -⟩
        apply hnew
        rw [← live_names]
        exact List.mem_map_of_mem hold
    · intro link hlink
      rw [live_attach_failed hno] at hlink
      rw [hstep]
      exact hc link hlink
  | detach f err =>
    rcases detach_cases p f err with ⟨rfl, hmem, -⟩ | ⟨-, hstep⟩
    · exact absurd (h.mem_attached hmem) (hop.1 rfl)
    · intro link hlink
      rw [hstep]
      exact hc link hlink

theorem Careful.tail {op : LinkOp} {past : List LinkOp} (h : Careful (op :: past)) :
    Careful past := by
  cases op with
  | attach f pos err => exact h.2
  | detach f err => exact h.2

theorem Careful.suffix {past earlier : List LinkOp} (h : Careful past) (hs : earlier <:+ past) :
    Careful earlier := by
  obtain ⟨later, rfl⟩ := hs
  induction later with
  | nil => exact h
  | cons op later ih => exact ih h.tail

/-- A careful run has a complete record. -/
theorem after_complete {past : List LinkOp} (h : Careful past) :
    Complete past (linksAfter past) := by
  induction past with
  | nil => intro link hlink; cases hlink
  | cons op past ih => exact step_complete (after_tallied past) (ih h.tail) h

/-- In a run that kept its links no function was attached twice. -/
theorem attached_nodup {past : List LinkOp}
    (h : Lib.Balanced (destroyLinks (linksAfter past)).log) : (attached past).Nodup := by
  have ht := after_tallied past
  have hperm := (ht.balanced_iff.mp h).map Link.skbFunc
  rw [live_names] at hperm
  exact hperm.nodup_iff.mpr ht.recorded_nodup

/-- In a run whose record is right at every point no function attached is detached. -/
theorem careful_of_recorded {past : List LinkOp}
    (hr : ∀ earlier, earlier <:+ past → Recorded (linksAfter earlier))
    (hn : (attached past).Nodup) : Careful past := by
  induction past with
  | nil => trivial
  | cons op past ih =>
    have hr' : ∀ earlier, earlier <:+ past → Recorded (linksAfter earlier) :=
      fun earlier hs => hr earlier (hs.trans (List.suffix_cons op past))
    cases op with
    | attach f pos err =>
      rw [attached] at hn
      split at hn
      next =>
        obtain ⟨hnew, hn⟩ := List.nodup_cons.mp hn
        exact ⟨fun _ => hnew, ih hr' hn⟩
      next hno => exact ⟨fun hok => absurd hok hno, ih hr' hn⟩
    | detach f err =>
      refine ⟨fun herr hf => ?_, ih hr' hn⟩
      -- the function has a live link, but no entry any more
      obtain ⟨links, hheld, hnames, -⟩ := hr _ (List.suffix_refl _)
      have ht := after_tallied (.detach f err :: past)
      obtain rfl : live past = links := Option.some.inj (ht.held.symm.trans hheld)
      rw [← live_names] at hf
      have hin := (hnames f).mpr (List.mem_map.mp hf)
      unfold linksAfter at hin
      rcases detach_cases (linksAfter past) f err with ⟨-, -, hstep⟩ | ⟨hno, hstep⟩
      · rw [hstep] at hin
        exact (OrdMap.mem_keys_erase.mp hin).1 rfl
      · rw [hstep] at hin
        exact hno ⟨herr, hin⟩

/-- **Which runs keep their links.** The record is right at every point and the
destructor destroys every link exactly once, if and only if no function was given
two links and libbpf detached none that had one. -/
theorem links_kept_iff (past : List LinkOp) : LinksKept past ↔ Careful past := by
  constructor
  · intro h
    exact careful_of_recorded h.1 (attached_nodup h.2)
  · intro h
    have ht := after_tallied past
    refine ⟨fun earlier hs => ?_, ht.balanced_iff.mpr ((after_complete h).perm ht)⟩
    exact (after_complete (h.suffix hs)).recorded (after_tallied earlier)

/-- The second link of a function attached twice is never destroyed, nor is the link of
a function detached. -/
theorem links_lost :
    let twice : List LinkOp := [.attach "ip_rcv" 0 0, .attach "ip_rcv" 0 0]
    let detached : List LinkOp := [.detach "ip_rcv" 0, .attach "ip_rcv" 0 0]
    (.give ⟨"ip_rcv", "kprobe_skb_1", 1⟩ ∉ (destroyLinks (linksAfter twice)).log ∧
        ¬ LinksKept twice) ∧
      .give ⟨"ip_rcv", "kprobe_skb_1", 0⟩ ∉ (destroyLinks (linksAfter detached)).log ∧
        ¬ LinksKept detached := by
  have htwice : ¬ Lib.Balanced (destroyLinks (linksAfter
      [.attach "ip_rcv" 0 0, .attach "ip_rcv" 0 0])).log := by decide
  have hdetached : ¬ Lib.Balanced (destroyLinks (linksAfter
      [.detach "ip_rcv" 0, .attach "ip_rcv" 0 0])).log := by decide
  exact ⟨⟨by decide, fun h => htwice h.2⟩, by decide, fun h => hdetached h.2⟩

end SkbTracer.Trace
