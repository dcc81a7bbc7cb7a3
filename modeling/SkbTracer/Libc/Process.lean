import Mathlib.Logic.Function.Basic
import SkbTracer.Lib.Ledger
import SkbTracer.Libc.Strtoul

/-!
# Descriptors and network namespaces of a process

The calls `open`, `fstat`, `close`, `setns` and `if_nametoindex` on the part of a
process they are about. A `World` says how every call goes: any of them may fail,
each time with any error number. A network namespace is known by the device and
inode numbers of the file that stands for it, as in namespaces(7);
`/proc/self/ns/net` is the file of the namespace the thread is in.

The process logs the descriptors that calls open and close and the namespaces it
has tried to enter. `Keeps` is what a piece of code does that closes what it
opens, `Opened` what one does that leaves one descriptor open, and the rules about
the two put pieces together:

- `Keeps.trans`: one piece after the other;
- `Opened.keeps`: a piece with the descriptor left open before it;
- `Opened.close`: and closing that descriptor ends it.

The lemmas with `_spec` in their names say what each call does, however it goes. They are
the only place where the calls are unfolded.

A `close` frees its descriptor whatever it returns, as on Linux. Descriptors are handed out
from the lowest free one, up to the limit of the process; threads other than this one, and
signals in the middle of a call, are not described.
-/

namespace SkbTracer.Libc

open SkbTracer.Lib (Use Balanced)

/-- `st_dev` and `st_ino`. -/
structure Inode where
  dev : BitVec 64
  ino : BitVec 64
  deriving DecidableEq, Repr

/-- How the calls of a process go. -/
structure World where
  /-- the error number the `n`-th call fails with, if it fails -/
  error : Nat → Option Int
  /-- the file that a path names at the `n`-th call -/
  file : Nat → List Char → Inode
  /-- the index of an interface in a namespace, 0 if there is none of that name -/
  index : Inode → List Char → BitVec 32
  strerror : Int → String

/-- What the calls see of a process, and what they have done so far. -/
structure Proc where
  /-- the file each open descriptor stands for -/
  files : Int → Option Inode
  /-- `RLIMIT_NOFILE` -/
  limit : Nat
  /-- the network namespace of the thread -/
  netns : Inode
  errno : Int
  /-- the calls made so far -/
  calls : Nat
  /-- the descriptors opened and closed -/
  fdLog : List (Use Int)
  /-- the files given to `setns`, and whether it succeeded -/
  netnsLog : List (Option Inode × Bool)

/-- Code that makes system calls. -/
abbrev Sys (α : Type) := StateM Proc α

section

variable {α β : Type}

@[simp] theorem Sys.pure_apply (a : α) (p : Proc) : (pure a : Sys α) p = (a, p) := rfl

@[simp] theorem Sys.bind_apply (x : Sys α) (f : α → Sys β) (p : Proc) :
    (x >>= f) p = f (x p).1 (x p).2 := rfl

end

/-! ## The calls -/

/-- One call more. -/
def Proc.called (p : Proc) : Proc := { p with calls := p.calls + 1 }

/-- One that failed. -/
def Proc.failed (p : Proc) (e : Int) : Proc := { p.called with errno := e }

/-- The lowest descriptor that is not open. -/
def Proc.lowestFree (p : Proc) : Option Nat :=
  (List.range p.limit).find? fun fd => (p.files fd).isNone

def selfNetns : List Char := "/proc/self/ns/net".toList

/-- The file that `path` names for a process. -/
def fileNamed (W : World) (p : Proc) (path : List Char) : Inode :=
  if path = selfNetns then p.netns else W.file p.calls path

/-- `open(path, O_RDONLY | O_CLOEXEC)`; 24 is `EMFILE`. -/
def sysOpen (W : World) (path : List Char) : Sys Int := fun p =>
  match W.error p.calls, p.lowestFree with
  | some e, _ => (-1, p.failed e)
  | none, none => (-1, p.failed 24)
  | none, some fd =>
    (fd, { p.called with
      files := Function.update p.files fd (some (fileNamed W p path))
      fdLog := p.fdLog ++ [.take (fd : Int)] })

/-- `fstat`, `none` if it fails; 9 is `EBADF`. -/
def sysFstat (W : World) (fd : Int) : Sys (Option Inode) := fun p =>
  match W.error p.calls, p.files fd with
  | some e, _ => (none, p.failed e)
  | none, none => (none, p.failed 9)
  | none, some f => (some f, p.called)

/-- `close`; the descriptor is gone also when it reports an error. -/
def sysClose (W : World) (fd : Int) : Sys Unit := fun p =>
  ((), { p.called with
    files := Function.update p.files fd none
    fdLog := p.fdLog ++ [.give fd]
    errno := if (p.files fd).isNone then 9 else (W.error p.calls).getD p.errno })

/-- `setns(fd, CLONE_NEWNET)`. -/
def sysSetns (W : World) (fd : Int) : Sys Int := fun p =>
  match W.error p.calls, p.files fd with
  | some e, f => (-1, { p.failed e with netnsLog := p.netnsLog ++ [(f, false)] })
  | none, none => (-1, { p.failed 9 with netnsLog := p.netnsLog ++ [(none, false)] })
  | none, some ns =>
    (0, { p.called with netns := ns, netnsLog := p.netnsLog ++ [(some ns, true)] })

/-- `if_nametoindex`, 0 if it fails; 19 is `ENODEV`. -/
def ifNametoindex (W : World) (name : List Char) : Sys (BitVec 32) := fun p =>
  match W.error p.calls with
  | some e => (0, p.failed e)
  | none =>
    if W.index p.netns name = 0 then (0, p.failed 19) else (W.index p.netns name, p.called)

def getErrno : Sys Int := fun p => (p.errno, p)

/-- `errno` is read as the last call that failed left it. -/
theorem getErrno_bind {α : Type} (f : Int → Sys α) (p : Proc) :
    (getErrno >>= f) p = f p.errno p := rfl

/-! ## Pieces of code that close what they open -/

/-- The descriptors are those of before, everything opened has been closed once and
nothing else has been. -/
structure Keeps (p p' : Proc) : Prop where
  log : ∃ t, p'.fdLog = p.fdLog ++ t ∧ Balanced t
  files : p'.files = p.files

/-- The same but for one new descriptor, which stands for `f`. -/
structure Opened (p p' : Proc) (fd : Int) (f : Inode) : Prop where
  log : ∃ t, p'.fdLog = p.fdLog ++ .take fd :: t ∧ Balanced t
  files : p'.files = Function.update p.files fd (some f)
  fresh : p.files fd = none

variable {W : World} {p p₁ p' : Proc} {fd fd' : Int} {f : Inode} {path name : List Char}

/-- What touches no descriptor. -/
theorem Keeps.of_eq (hlog : p'.fdLog = p.fdLog) (hfiles : p'.files = p.files) : Keeps p p' :=
  ⟨⟨[], by rw [hlog, List.append_nil], .nil⟩, hfiles⟩

/-- Two pieces that close what they open, -/
theorem Keeps.trans (h : Keeps p p₁) (h' : Keeps p₁ p') : Keeps p p' := by
  obtain ⟨s, hs, hbs⟩ := h.log
  obtain ⟨t, ht, hbt⟩ := h'.log
  exact ⟨⟨s ++ t, by rw [ht, hs, List.append_assoc], hbs.append hbt⟩, h'.files.trans h.files⟩

/-- and one behind a piece that leaves a descriptor open. -/
theorem Opened.keeps (h : Opened p p₁ fd f) (h' : Keeps p₁ p') : Opened p p' fd f := by
  obtain ⟨s, hs, hbs⟩ := h.log
  obtain ⟨t, ht, hbt⟩ := h'.log
  refine ⟨⟨s ++ t, ?_, hbs.append hbt⟩, h'.files.trans h.files, h.fresh⟩
  rw [ht, hs, List.append_assoc, List.cons_append]

/-- The new descriptor stands for the file, -/
theorem Opened.get (h : Opened p p' fd f) : p'.files fd = some f := by
  rw [h.files]
  exact Function.update_self fd (some f) p.files

/-- and the others for what they stood for. -/
theorem Opened.get_other (h : Opened p p' fd f) {g : Inode} (hg : p.files fd' = some g) :
    p'.files fd' = some g := by
  have hne : fd' ≠ fd := by
    rintro rfl
    rw [h.fresh] at hg
    cases hg
  rw [h.files, Function.update_of_ne hne, hg]

/-- Closing it ends the piece. -/
theorem Opened.close (h : Opened p p₁ fd f) : Keeps p (sysClose W fd p₁).2 := by
  obtain ⟨t, ht, hbt⟩ := h.log
  constructor
  · refine ⟨.take fd :: t ++ [.give fd], ?_, hbt.bracket fd⟩
    simp only [sysClose, ht, List.append_assoc]
  · simp only [sysClose]
    rw [h.files, Function.update_idem, ← h.fresh]
    exact Function.update_eq_self fd p.files

/-! ## What each call does -/

/-- A descriptor that is handed out was free. -/
theorem Proc.lowestFree_free {n : Nat} (h : p.lowestFree = some n) : p.files n = none := by
  have := List.find?_some h
  exact Option.isNone_iff_eq_none.mp this

/-- `open` gives a new descriptor of the file, or fails and opens nothing. -/
theorem sysOpen_spec (h : sysOpen W path p = (fd, p')) :
    p'.netns = p.netns ∧ p'.netnsLog = p.netnsLog ∧
      ((fd < 0 ∧ Keeps p p') ∨ (0 ≤ fd ∧ Opened p p' fd (fileNamed W p path))) := by
  unfold sysOpen at h
  split at h
  next =>
    cases h
    exact ⟨rfl, rfl, Or.inl ⟨by decide, Keeps.of_eq rfl rfl⟩⟩
  next =>
    cases h
    exact ⟨rfl, rfl, Or.inl ⟨by decide, Keeps.of_eq rfl rfl⟩⟩
  next n _ hfree =>
    cases h
    exact ⟨rfl, rfl, Or.inr ⟨Int.natCast_nonneg n, ⟨[], rfl, .nil⟩, rfl,
      Proc.lowestFree_free hfree⟩⟩

/-- `fstat` changes nothing, and if it succeeds it tells of the file. -/
theorem sysFstat_spec {st : Option Inode} (h : sysFstat W fd p = (st, p')) :
    p'.netns = p.netns ∧ p'.netnsLog = p.netnsLog ∧ Keeps p p' ∧
      (st = none ∨ st = p.files fd) := by
  unfold sysFstat at h
  split at h
  next =>
    cases h
    exact ⟨rfl, rfl, Keeps.of_eq rfl rfl, Or.inl rfl⟩
  next =>
    cases h
    exact ⟨rfl, rfl, Keeps.of_eq rfl rfl, Or.inl rfl⟩
  next hf =>
    cases h
    exact ⟨rfl, rfl, Keeps.of_eq rfl rfl, Or.inr hf.symm⟩

/-- `close` does not move the thread. -/
theorem sysClose_spec (W : World) (fd : Int) (p : Proc) :
    (sysClose W fd p).2.netns = p.netns ∧ (sysClose W fd p).2.netnsLog = p.netnsLog :=
  ⟨rfl, rfl⟩

/-- `setns` moves the thread into the namespace, or fails and leaves it; either is
logged. -/
theorem sysSetns_spec {r : Int} (hf : p.files fd = some f) (h : sysSetns W fd p = (r, p')) :
    Keeps p p' ∧
      ((r < 0 ∧ p'.netns = p.netns ∧ p'.netnsLog = p.netnsLog ++ [(some f, false)]) ∨
        (0 ≤ r ∧ p'.netns = f ∧ p'.netnsLog = p.netnsLog ++ [(some f, true)])) := by
  unfold sysSetns at h
  rw [hf] at h
  split at h
  next hf' =>
    cases h
    exact ⟨Keeps.of_eq rfl rfl, Or.inl ⟨by decide, rfl, rfl⟩⟩
  next hf' => cases hf'
  next ns _ hf' =>
    cases hf'
    cases h
    exact ⟨Keeps.of_eq rfl rfl, Or.inr ⟨by decide, rfl, rfl⟩⟩

/-- `if_nametoindex` looks in the namespace the thread is in. -/
theorem ifNametoindex_spec {i : BitVec 32} (h : ifNametoindex W name p = (i, p')) :
    p'.netns = p.netns ∧ p'.netnsLog = p.netnsLog ∧ Keeps p p' ∧
      (i ≠ 0 → i = W.index p.netns name) := by
  unfold ifNametoindex at h
  split at h
  next =>
    cases h
    exact ⟨rfl, rfl, Keeps.of_eq rfl rfl, fun h0 => absurd rfl h0⟩
  next =>
    split at h
    next =>
      cases h
      exact ⟨rfl, rfl, Keeps.of_eq rfl rfl, fun h0 => absurd rfl h0⟩
    next =>
      cases h
      exact ⟨rfl, rfl, Keeps.of_eq rfl rfl, fun _ => rfl⟩

end SkbTracer.Libc
