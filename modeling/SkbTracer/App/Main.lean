import SkbTracer.Output.Entry
import SkbTracer.Symdb.Init
import SkbTracer.Trace.Init
import SkbTracer.Trace.Run

/-!
# `main`

The stages of the program behind the command line, and what each leaves to be given back:
the BTFs and the symbols of `SymdbMgr`, the program handler, the skeleton, the links and
the ring buffer of `TraceMgr`. Every stage may fail, and ends the program with its error.
Both managers are static: their destructors run at every return of `main`, that of
`TraceMgr` first. An exception that nobody catches ends the program without them.

An `Ending` is how a run of `main` came out: what was returned, the title line, and the
log of all handles in the order of their use, which `Lib.Ledger` keeps.

- `main_cases`: the ways through `main`.
- `symdb_freed_iff`: what `SymdbMgr` frees is what it acquired exactly if no two BTFs were
  loaded under one name (`BtfList.Keeps.objects_perm_iff`).
- `main_releases`: so every return gives back all that was acquired, once, exactly if that
  is so; and with the file that the kernel writes it is.
- `main_success`: when the program returns 0. For this the value that the loop returns is
  that of a run of the tracer, and `Trace.run_returns` says why it is 0.

`System` has what the libraries and the system answer, at every call of `main` and of what
it calls; no answer is assumed to be a success. The loop in `TraceMgr::run` is in the model
of the tracer and only its result is here.
-/

namespace SkbTracer.App

open SkbTracer.Cfg (Args initArgs)
open SkbTracer.Kprobe
open SkbTracer.Lib (Byte Use Balanced OrdMap RingBuffer RecordRing balanced_take_give_iff)
open SkbTracer.Output
open SkbTracer.Pcap2Bpf (Libpcap)
open SkbTracer.Symdb
open SkbTracer.Trace

/-! ## The code -/

/-- What has to be given back. -/
inductive Handle where
  | btf (obj : List Char × Nat)
  | ksyms | progHandler | skel | ringBuffer
  | link (l : Link)
  deriving DecidableEq

/-- What the libraries and the system have for a run of `main`. -/
structure System extends SymdbEnv where
  /-- what `libbpf_register_prog_handler` returns -/
  progHandler : Int
  /-- what `libbpf_get_error` says of `skbtracer_bpf__open()` -/
  skelErr : Int
  pcap : Libpcap
  alloc : Bool → Bool
  load : Int
  attach : Int
  /-- `std::regex` and `std::regex_search` -/
  regex : List Char → Option (List Char → Bool)
  attachKprobe : List Char → Int
  mapFd : Int
  ringBuffer : Except Int Unit
  /-- what the loop in `TraceMgr::run` returns -/
  loopRet : Int

/-- How a run of `main` ended. -/
structure Ending where
  /-- there is no value if an exception ended it -/
  ret : Option Int
  /-- the title line, if it was printed -/
  header : Option (List Char)
  log : List (Use Handle)

/-- What `SymdbMgr::init` has acquired, in order. -/
def acquired (s : SymdbMgr) : List Handle :=
  let live := (s.btfs.elim [] BtfList.live).map .btf
  live.take 1 ++ (if s.ksyms then [.ksyms] else []) ++ live.drop 1

/-- What `~SymdbMgr` frees. -/
def freed (s : SymdbMgr) : List Handle :=
  (s.btfs.elim [] BtfList.objects).map .btf ++ if s.ksyms then [.ksyms] else []

/-- A return before `TraceMgr` is constructed. -/
def returnEarly (symdb : SymdbMgr) (ret : Int) : Ending where
  ret := some ret
  header := none
  log := (acquired symdb).map .take ++ (freed symdb).map .give

/-- A return after that. `links` is the record of links, `ring` is whether there is a ring
buffer. -/
def returnLate (symdb : SymdbMgr) (links : LinkMgr) (ring : Bool) (header : Option (List Char))
    (ret : Int) : Ending where
  ret := some ret
  header
  log := (acquired symdb).map .take ++ [.take .progHandler, .take .skel] ++
    links.log.map (Use.map .link) ++
    (if ring then [.take .ringBuffer, .give .ringBuffer] else []) ++
    (links.recorded.map .give).map (Use.map .link) ++ [.give .progHandler, .give .skel] ++
    (freed symdb).map .give

/-- An exception that ends the program. -/
def abort (log : List (Use Handle)) : Ending := ⟨none, none, log⟩

/-- `attach_skb_func` for every function in the list, the title line, and `TraceMgr::run`. -/
def trace (sys : System) (out : Out) (symdb : SymdbMgr) (list : List (List Char)) : Ending :=
  let (links, attachedCount) := attachLoop symdb.skbFuncList sys.attachKprobe list
  if attachedCount = 0 then returnLate symdb links false none (-enoent)
  else
    let header := some (printHeader out)
    match runSetup sys.mapFd sys.ringBuffer with
    | .returned r => returnLate symdb links false header r
    | _ => returnLate symdb links true header sys.loopRet

/-- `main` behind `parse_args`. There is no value where the behaviour is undefined, or `fuel`
does not suffice for the chains in a BTF. -/
def main (sys : System) (fuel : Nat) (nsIno : Option (BitVec 64)) (args : Args) : Option Ending :=
  (sys.toSymdbEnv.init fuel).bind fun (err, symdb) =>
    let log := (acquired symdb).map Use.take
    if err ≠ 0 then some (returnEarly symdb err)
    else if sys.progHandler < 0 then some (abort log)
    else if sys.skelErr ≠ 0 then some (abort (log ++ [.take .progHandler]))
    else
      match init sys.pcap sys.alloc sys.load sys.attach ⟨[], []⟩ ⟨0, 0, 0, false, false, false⟩
        args with
      | .error _ => none
      | .ok (err, _) =>
        if err ≠ 0 then some (returnLate symdb .init false none err)
        else
          match getSkbFuncList sys.regex symdb.skbFuncList args.filterFunc.toList with
          | none => some (abort (log ++ [.take .progHandler, .take .skel]))
          | some (ret, list) =>
            if ret ≠ 0 then some (returnLate symdb .init false none ret)
            else some (trace sys (Printer.init args nsIno).out symdb list)

/-! ## What is given back -/

variable {sys : System} {fuel : Nat} {nsIno : Option (BitVec 64)} {args : Args} {e : Ending}
  {symdb : SymdbMgr} {err : Int} {links : LinkMgr} {ring : Bool} {header : Option (List Char)}

/-- `SymdbMgr` frees what it acquired exactly if no name came twice. -/
theorem symdb_freed_iff (h : sys.toSymdbEnv.init fuel = some (err, symdb)) :
    (acquired symdb).Perm (freed symdb) ↔ sys.toSymdbEnv.loads.Nodup := by
  have hobj : ∀ (s : BtfList Symdb.Btf), s.Keeps → ∀ ksyms list,
      ((acquired ⟨some s, ksyms, list⟩).Perm (freed ⟨some s, ksyms, list⟩) ↔ s.loads.Nodup) := by
    intro s hs ksyms list
    have hacquired : (acquired ⟨some s, ksyms, list⟩).Perm
        (s.live.map Handle.btf ++ if ksyms then [.ksyms] else []) := by
      unfold acquired
      dsimp only [Option.elim]
      rw [List.append_assoc]
      nth_rewrite 3 [← List.take_append_drop 1 (s.live.map Handle.btf)]
      rw [List.append_assoc]
      exact List.Perm.append_left _ List.perm_append_comm
    rw [← hs.objects_perm_iff, hacquired.congr_left]
    unfold freed
    dsimp only [Option.elim]
    rw [List.perm_append_right_iff, List.map_perm_map_iff fun a b hab => Handle.btf.inj hab]
  unfold SymdbEnv.init at h
  unfold SymdbEnv.loads
  split at h
  next herr =>
    cases h
    rw [if_pos herr]
    exact iff_of_true .nil List.nodup_nil
  next herr =>
    rw [if_neg herr]
    dsimp only at h
    split at h
    next hksyms =>
      cases h
      rw [if_pos hksyms]
      exact hobj _ (ofVmlinux_keeps _) _ _
    next hksyms =>
      obtain ⟨list, -, heq⟩ := Option.map_eq_some_iff.mp h
      cases heq
      rw [if_neg hksyms]
      exact hobj _ (loadAllKmodBtfs_keeps _ _ _) _ _

/-- After a late return all is given back exactly if `SymdbMgr` frees what it acquired.
The links are the record's own matter. -/
theorem returnLate_balanced_iff (h : Balanced (destroyLinks links).log) (ret : Int) :
    Balanced (returnLate symdb links ring header ret).log ↔
      (acquired symdb).Perm (freed symdb) := by
  have hlinks : Balanced (links.log.map (Use.map Handle.link) ++
      (links.recorded.map .give).map (Use.map Handle.link)) := by
    rw [← List.map_append]
    exact h.map fun a b hab => Handle.link.inj hab
  have hring : Balanced (if ring then [.take Handle.ringBuffer, .give .ringBuffer] else []) := by
    split
    · exact Balanced.nil.bracket _
    · exact .nil
  have hinner := (hring.insert_iff _ _).mpr hlinks
  have hpair : Balanced ([.take Handle.progHandler, .take .skel] ++
      [.give .progHandler, .give .skel]) := by decide
  have hall := (hinner.insert_iff _ _).mpr hpair
  rw [← balanced_take_give_iff, ← hall.insert_iff]
  unfold returnLate
  simp only [List.append_assoc]

theorem init_released : Balanced (destroyLinks .init).log := rfl

/-- The part of `main` that attaches and runs destroys all its links, so the same goes for it.
-/
theorem trace_balanced_iff {out : Out} {list : List (List Char)} {filter : List Char} {r : Int}
    (hlist : getSkbFuncList sys.regex symdb.skbFuncList filter = some (r, list)) :
    Balanced (trace sys out symdb list).log ↔ (acquired symdb).Perm (freed symdb) := by
  have hall := attachLoop_attachedAll sys.attachKprobe hlist
  unfold trace
  dsimp only
  split
  · exact returnLate_balanced_iff hall.released _
  · split
    · exact returnLate_balanced_iff hall.released _
    · exact returnLate_balanced_iff hall.released _

/-! ## How `main` ends -/

/-- `main` returns with an error before or after `TraceMgr` is there, an exception ends it, or
it comes to the list of functions. -/
theorem main_cases (h : main sys fuel nsIno args = some e) :
    ∃ err symdb, sys.toSymdbEnv.init fuel = some (err, symdb) ∧
      (err ≠ 0 ∧ e = returnEarly symdb err ∨ e.ret = none ∨
        (∃ ret, ret ≠ 0 ∧ e = returnLate symdb .init false none ret) ∨
        ∃ list, err = 0 ∧
          getSkbFuncList sys.regex symdb.skbFuncList args.filterFunc.toList = some (0, list) ∧
          e = trace sys (Printer.init args nsIno).out symdb list) := by
  obtain ⟨⟨err, symdb⟩, hinit, h⟩ := Option.bind_eq_some_iff.mp h
  refine ⟨err, symdb, hinit, ?_⟩
  dsimp only at h
  by_cases herr : err ≠ 0
  · rw [if_pos herr] at h
    cases h
    exact Or.inl ⟨herr, rfl⟩
  right
  rw [if_neg herr] at h
  by_cases hhandler : sys.progHandler < 0
  · rw [if_pos hhandler] at h
    cases h
    exact Or.inl rfl
  rw [if_neg hhandler] at h
  by_cases hskel : sys.skelErr ≠ 0
  · rw [if_pos hskel] at h
    cases h
    exact Or.inl rfl
  rw [if_neg hskel] at h
  split at h
  next => cases h
  next ret _ _ =>
    by_cases hret : ret ≠ 0
    · rw [if_pos hret] at h
      cases h
      exact Or.inr (Or.inl ⟨ret, hret, rfl⟩)
    rw [if_neg hret] at h
    split at h
    next =>
      cases h
      exact Or.inl rfl
    next r list hlist =>
      obtain rfl := (getSkbFuncList_eq hlist).1
      cases h
      exact Or.inr (Or.inr ⟨list, not_not.mp herr, hlist, rfl⟩)

/-- **What was acquired is given back.** Wherever `main` returns, by whatever error or at the
end, every handle that it acquired is given back once and nothing else is, if and only if
no two BTFs were loaded under one name; and with the file that the kernel writes, none are. -/
theorem main_releases (h : main sys fuel nsIno args = some e) (hret : e.ret ≠ none) :
    (Balanced e.log ↔ sys.toSymdbEnv.loads.Nodup) ∧
      ∀ lines : List ModuleLine, sys.procModules = .ok (textOf (lines.map ModuleLine.text)) →
        Balanced e.log := by
  suffices hiff : Balanced e.log ↔ sys.toSymdbEnv.loads.Nodup from
    ⟨hiff, fun lines hlines => hiff.mpr (loads_kernel hlines)⟩
  obtain ⟨err, symdb, hinit, hend⟩ := main_cases h
  rw [← symdb_freed_iff hinit]
  rcases hend with ⟨-, rfl⟩ | hnone | ⟨ret, -, rfl⟩ | ⟨list, -, hlist, rfl⟩
  · exact balanced_take_give_iff
  · exact absurd hnone hret
  · exact returnLate_balanced_iff init_released ret
  · exact trace_balanced_iff hlist

/-- A system on which `kfree_skb` can be traced and nothing fails. -/
def freeSystem : System where
  vmlinuxErr := 0
  vmlinuxBtf := freeBtf
  ksyms := true
  procModules := .ok (textOf [])
  moduleBtfs := ⟨fun _ => false, fun _ _ => .error 0⟩
  availFuncs := some (textOf (freeLines.map AvailLine.text))
  progHandler := 0
  skelErr := 0
  pcap := acceptAllPcap
  alloc _ := true
  load := 0
  attach := 0
  regex _ := none
  attachKprobe _ := 0
  mapFd := 3
  ringBuffer := .ok ()
  loopRet := 0

/-- `main` returns 0 there. -/
theorem main_freeSystem : ∃ e, main freeSystem 7 none initArgs = some e ∧ e.ret = some 0 :=
  ⟨_, rfl, rfl⟩

/-- And has given everything back. -/
theorem main_releases_free : ∃ e, main freeSystem 7 none initArgs = some e ∧ Balanced e.log := by
  obtain ⟨e, he, hret⟩ := main_freeSystem
  exact ⟨e, he, (main_releases he (by rw [hret]; simp)).2 [] rfl⟩

variable {ρ : Type} [RingBuffer ρ (List Byte)] {K : KernelLayout} {cfg : SkbConfig} {p : Filters}
  {past : List Act} {t : Tracer ρ}

/-- The setup before the loop returns 0 only for an `errno` of 0. -/
theorem runSetup_ne_zero (h : ∀ errno, sys.ringBuffer = .error errno → errno ≠ 0) :
    runSetup sys.mapFd sys.ringBuffer ≠ .returned 0 := by
  unfold runSetup
  split
  · simp [Trace.efault]
  · split
    next errno hrb => simpa using h errno hrb
    next => simp

/-- **`main` returns 0 for a run that was ended by a signal**, and for no other: it has found
functions and attached a program to one of them at least, printed the title line, and left
the loop when a signal came. -/
theorem main_success (h : main sys fuel nsIno args = some e) (h0 : e.ret = some 0)
    (hrb : ∀ errno, sys.ringBuffer = .error errno → errno ≠ 0)
    (hreach : Reaches K cfg p past t) (hphase : t.phase = .returned sys.loopRet)
    (hsetup : ∀ mapFd rb, .setup mapFd rb ∈ past → mapFd = sys.mapFd ∧ rb = sys.ringBuffer) :
    .signal ∈ past ∧ e.header = some (printHeader (Printer.init args nsIno).out) ∧
      ∃ symdb list f, sys.toSymdbEnv.init fuel = some (0, symdb) ∧
        getSkbFuncList sys.regex symdb.skbFuncList args.filterFunc.toList = some (0, list) ∧
        f ∈ list ∧ Attachable symdb.skbFuncList sys.attachKprobe f := by
  obtain ⟨err, symdb, hinit, hend⟩ := main_cases h
  rcases hend with ⟨herr, rfl⟩ | hnone | ⟨ret, hret, rfl⟩ | ⟨list, rfl, hlist, rfl⟩
  · exact absurd (Option.some.inj h0) herr
  · rw [hnone] at h0
    cases h0
  · exact absurd (Option.some.inj h0) hret
  have hall := attachLoop_attachedAll sys.attachKprobe hlist
  rcases hloop : attachLoop symdb.skbFuncList sys.attachKprobe list with ⟨links, attachedCount⟩
  rw [hloop] at hall
  unfold trace at h0 ⊢
  rw [hloop] at h0 ⊢
  dsimp only at h0 ⊢
  by_cases hcount : attachedCount = 0
  · rw [if_pos hcount] at h0
    cases h0
  rw [if_neg hcount] at h0 ⊢
  -- a link that was counted is that of a function in the list
  have hkeys : links.linkMappingList.keys.length ≠ 0 := fun h => hcount (hall.count.trans h)
  obtain ⟨name, hname⟩ := List.exists_mem_of_length_pos (Nat.pos_of_ne_zero hkeys)
  have hin : String.ofList name.toList ∈ links.linkMappingList.keys := by
    rwa [String.ofList_toList]
  obtain ⟨hf, hattach⟩ := (hall.names name.toList).mp hin
  have hne := runSetup_ne_zero hrb
  have hsignal : sys.loopRet = 0 → .signal ∈ past := by
    intro hret
    rw [hret] at hphase
    rcases (reaches_ended hreach).returned 0 hphase with hsig | ⟨-, hlt, -⟩ | ⟨mapFd, rb, hin, hr⟩
    · exact hsig.2
    · exact absurd hlt (lt_irrefl 0)
    · obtain ⟨rfl, rfl⟩ := hsetup mapFd rb hin
      exact absurd hr hne
  rcases hrun : runSetup sys.mapFd sys.ringBuffer with _ | _ | _ | _ | r
  case returned =>
    rw [hrun] at h0 hne
    cases h0
    exact absurd rfl hne
  all_goals
    rw [hrun] at h0
    exact ⟨hsignal (Option.some.inj h0), rfl, symdb, list, name.toList, hinit, hlist, hf, hattach⟩

/-- `kfree_skb` is attached, the title line is printed and a signal ends the loop. -/
theorem main_success_free : ∃ e, main freeSystem 7 none initArgs = some e ∧ e.ret = some 0 ∧
    e.header = some (printHeader (Printer.init initArgs none).out) := by
  obtain ⟨e, he, hret⟩ := main_freeSystem
  have hreach : Reaches plainLayout ⟨0, 0, 0, false, false, false⟩ ⟨[], []⟩
      [.test, .signal, .setup 3 (.ok ())]
      ({ Tracer.start with phase := .returned 0, exiting := true } :
        Tracer (RecordRing (List Byte))) :=
    .step (.step (.step .start rfl) rfl) rfl
  have hsetup : ∀ mapFd rb, .setup mapFd rb ∈ [Act.test, .signal, .setup 3 (.ok ())] →
      mapFd = freeSystem.mapFd ∧ rb = freeSystem.ringBuffer := by
    intro mapFd rb hmem
    simp at hmem
    exact hmem
  exact ⟨e, he, hret, (main_success he hret (fun _ h => by cases h) hreach rfl hsetup).2.1⟩

end SkbTracer.App
