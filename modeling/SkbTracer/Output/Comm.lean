import Mathlib.Data.BitVec
import Mathlib.Logic.Function.Basic
import SkbTracer.Libc.Strtoul

/-!
# The names of processes

An event has a process id, and is shown with the name of the process. The name is read
from `/proc/<pid>/comm` once, when the first event of the process is shown, and then
kept; if it cannot be read the number is shown in its place, and kept as well. Process 0
is the idle task, which has no such file and always the same name.

The law is stated over histories, the last call first. `firstName past pid` is the name
from the first lookup of the process since the cache was cleared; it is defined by the
calls alone and does not mention a cache.

- `commAfter_eq`: after any calls the cache is `firstName` of them. The proof is by
  induction on the history, a call at a time.
- `firstName_append`: a name that was found stays, as long as nothing is cleared.
- `comm_law`: what is shown of a process is the name of its first lookup, whatever the
  process is called later, and whoever has its id then.

The text of the file is an argument of every lookup, and may be another each time: a
process changes its name, ends, and its id is given to another one. `fgets` reads a line of
at most 63 letters from it, and the name ends at the newline or at a zero byte.
-/

namespace SkbTracer.Output

open SkbTracer.Libc (cStr)

/-! ## The code -/

/-- `std::to_string` of an unsigned number. -/
def decText (n : BitVec 32) : List Char := Nat.toDigits 10 n.toNat

/-- `fgets(buf, size, f)` on a file with this text: the line with its newline, as far as
there is room; `none` if there is nothing left. -/
def fgets (size : Nat) : List Char → Option (List Char)
  | [] => none
  | c :: s =>
    let text := c :: s
    let line := text.takeWhile (· != '\n')
    some ((if line.length < text.length then line ++ ['\n'] else line).take (size - 1))

/-- The name in a file `comm`; `file` is its text, if it can be opened. -/
def readComm (file : Option (List Char)) : Option (List Char) :=
  match file with
  | none => none
  | some text =>
    (fgets 64 text).map fun buf =>
      let s := cStr buf
      if s.getLast? = some '\n' then s.dropLast else s

/-- `s_comm_cache`. -/
abbrev CommCache := BitVec 32 → Option (List Char)

/-- The name of the idle task. -/
def swapper : List Char := "swapper".toList

/-- `resolve_comm(pid)`; `file` is what `/proc/<pid>/comm` has during this call. -/
def resolveComm (cache : CommCache) (pid : BitVec 32) (file : Option (List Char)) :
    CommCache × List Char :=
  if pid = 0 then (cache, swapper)
  else
    match cache pid with
    | some name => (cache, name)
    | none =>
      match readComm file with
      | some name => (Function.update cache pid (some name), name)
      | none => (Function.update cache pid (some (decText pid)), decText pid)

/-- `clear_comm_cache()`. -/
def clearCommCache (_ : CommCache) : CommCache := fun _ => none

/-- `format_proc(pid)`. -/
def formatProc (cache : CommCache) (pid : BitVec 32) (file : Option (List Char)) :
    CommCache × List Char :=
  ((resolveComm cache pid file).1, decText pid ++ '/' :: (resolveComm cache pid file).2)

/-! ## Histories -/

/-- One call, with its argument and what the file has then. -/
inductive CommOp where
  | resolve (pid : BitVec 32) (file : Option (List Char))
  | clear
  deriving DecidableEq, Repr

/-- The cache after one call. -/
def commStep (cache : CommCache) : CommOp → CommCache
  | .resolve pid file => (resolveComm cache pid file).1
  | .clear => clearCommCache cache

/-- The cache after the calls of a history. -/
def commAfter : List CommOp → CommCache
  | [] => fun _ => none
  | op :: past => commStep (commAfter past) op

/-- What is shown of a process that is not in the cache. -/
def nameNow (pid : BitVec 32) (file : Option (List Char)) : List Char :=
  (readComm file).getD (decText pid)

/-- The name found by the first lookup of the process since the last clear. -/
def firstName : List CommOp → BitVec 32 → Option (List Char)
  | [], _ => none
  | .clear :: _, _ => none
  | .resolve q file :: past, pid =>
    (firstName past pid).or (if q = pid ∧ pid ≠ 0 then some (nameNow pid file) else none)

/-- The answer to a lookup after a history. -/
def commAnswer (past : List CommOp) (pid : BitVec 32) (file : Option (List Char)) : List Char :=
  (resolveComm (commAfter past) pid file).2

/-! ## The cache shows its history -/

variable {cache : CommCache} {past later : List CommOp} {pid : BitVec 32}
  {file : Option (List Char)}

theorem resolveComm_zero (cache : CommCache) (file : Option (List Char)) :
    resolveComm cache 0 file = (cache, swapper) := if_pos rfl

/-- A process in the cache is shown from it, any other is read and put there. -/
theorem resolveComm_eq (hpid : pid ≠ 0) : resolveComm cache pid file =
    match cache pid with
    | some name => (cache, name)
    | none => (Function.update cache pid (some (nameNow pid file)), nameNow pid file) := by
  unfold resolveComm nameNow
  rw [if_neg hpid]
  rcases cache pid with _ | name
  · rcases readComm file with _ | name <;> rfl
  · rfl

/-- **The cache is the history.** It has the names of the first lookups, and nothing
else. -/
theorem commAfter_eq (past : List CommOp) : commAfter past = firstName past := by
  induction past with
  | nil => rfl
  | cons op past ih =>
    cases op with
    | clear => rfl
    | resolve q file =>
      funext pid
      have hstep : commAfter (.resolve q file :: past) =
          (resolveComm (firstName past) q file).1 := by
        rw [← ih]
        rfl
      rw [hstep, firstName]
      by_cases hq : q = 0
      · rw [hq, resolveComm_zero, if_neg fun h => h.2 h.1.symm, Option.or_none]
      · rw [resolveComm_eq hq]
        rcases hname : firstName past q with _ | name
        · by_cases hp : pid = q
          · subst hp
            rw [hname, if_pos ⟨rfl, hq⟩]
            exact Function.update_self ..
          · rw [if_neg fun h => hp h.1.symm, Option.or_none]
            exact Function.update_of_ne hp ..
        · by_cases hp : pid = q
          · subst hp
            rw [hname]
            exact hname
          · rw [if_neg fun h => hp h.1.symm, Option.or_none]

theorem commAnswer_eq (hpid : pid ≠ 0) :
    commAnswer past pid file = (firstName past pid).getD (nameNow pid file) := by
  unfold commAnswer
  rw [commAfter_eq, resolveComm_eq hpid]
  rcases firstName past pid with _ | name <;> rfl

/-- A name once found stays until the cache is cleared. -/
theorem firstName_append {name : List Char} (h : firstName past pid = some name)
    (hl : .clear ∉ later) : firstName (later ++ past) pid = some name := by
  induction later with
  | nil => exact h
  | cons op later ih =>
    have hrest := ih fun hmem => hl (List.mem_cons_of_mem _ hmem)
    cases op with
    | clear => exact absurd List.mem_cons_self hl
    | resolve q file => rw [List.cons_append, firstName, hrest, Option.some_or]

/-- **The name shown is the one found first.** After any calls a process is shown with the
name, or else the number, that its first lookup since the last clear found; so all its
events are shown alike until then, also when its `comm` is another or cannot be read any
more. The idle task is never looked up. -/
theorem comm_law (past : List CommOp) (pid : BitVec 32) (file : Option (List Char)) :
    (pid = 0 → commAnswer past pid file = swapper) ∧
    (pid ≠ 0 → commAnswer past pid file = (firstName past pid).getD (nameNow pid file)) ∧
    ∀ later : List CommOp, .clear ∉ later → ∀ file' : Option (List Char),
      commAnswer (later ++ .resolve pid file :: past) pid file' = commAnswer past pid file := by
  refine ⟨fun h => by subst h; rfl, fun h => commAnswer_eq h, fun later hl file' => ?_⟩
  by_cases hpid : pid = 0
  · subst hpid
    rfl
  · have hfirst : firstName (.resolve pid file :: past) pid =
        some (commAnswer past pid file) := by
      rw [firstName, if_pos ⟨rfl, hpid⟩, commAnswer_eq hpid]
      rcases firstName past pid with _ | name <;> rfl
    rw [commAnswer_eq hpid, firstName_append hfirst hl]
    rfl

end SkbTracer.Output
