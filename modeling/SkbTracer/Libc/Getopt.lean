import Mathlib.Data.List.Basic

/-!
# `getopt_long`

The options of a command line, in the order in which `getopt_long` returns them,
and the operands that are left once it is done. Operands may stand between options,
unless `POSIXLY_CORRECT` is set; `--` ends the options. A long name may be cut
short where it stays unambiguous. An unknown or ambiguous option, and an argument
that is missing or out of place, are returned as `?`.

`getoptLong` reads the words one after the other and keeps an option that waits for its
argument; `longOpt` reads a word with two dashes, `shortOpts` the letters behind one. The
result is a list, where the source asks for one option at a time: the loop of the caller
never looks ahead and never calls it again from the start, so the two are the same.

`lastArg` is the argument of the last option of a kind, which is all that a caller keeps
who overwrites a value whenever the option comes.

Not modelled are the forms of the option string that begin with `+`, `-` or `:`,
and optional arguments.
-/

namespace SkbTracer.Libc

/-- An entry of `long_options`; `hasArg` is `required_argument`. -/
structure LongOption where
  name : String
  hasArg : Bool
  val : Char
  deriving DecidableEq, Repr

/-- What one call returns, and `optarg`. -/
structure Opt where
  c : Char
  optarg : Option String
  deriving DecidableEq, Repr

def badOpt : Opt := { c := '?', optarg := none }

/-- Whether a short option takes an argument; `none` if there is no such option. -/
def shortArg : List Char → Char → Option Bool
  | [], _ => none
  | o :: shorts, c =>
    if o = c ∧ c ≠ ':' then some (shorts.head? == some ':') else shortArg shorts c

/-- The options of one argument of short options, and the one that still waits for
its argument. -/
def shortOpts (shorts : List Char) : List Char → List Opt × Option Char
  | [] => ([], none)
  | c :: cs =>
    match shortArg shorts c with
    | some true =>
      if cs = [] then ([], some c) else ([{ c, optarg := some (String.ofList cs) }], none)
    | some false =>
      let (opts, waiting) := shortOpts shorts cs
      ({ c, optarg := none } :: opts, waiting)
    | none =>
      let (opts, waiting) := shortOpts shorts cs
      (badOpt :: opts, waiting)

/-- The entries that a long name may mean. -/
def longMatches (longs : List LongOption) (name : List Char) : List LongOption :=
  match longs.find? fun o => o.name.toList = name with
  | some o => [o]
  | none => longs.filter fun o => name.isPrefixOf o.name.toList

/-- The option of an argument `--name` or `--name=arg`, or the one that still waits
for its argument. -/
def longOpt (longs : List LongOption) (body : List Char) : List Opt × Option Char :=
  let name := body.takeWhile (· != '=')
  match longMatches longs name with
  | [] => ([badOpt], none)
  | o :: others =>
    if others.all fun o' => o'.hasArg == o.hasArg && o'.val == o.val then
      match o.hasArg, body.drop name.length with
      | true, _ :: arg => ([{ c := o.val, optarg := some (String.ofList arg) }], none)
      | true, [] => ([], some o.val)
      | false, _ :: _ => ([badOpt], none)
      | false, [] => ([{ c := o.val, optarg := none }], none)
    else ([badOpt], none)

/-- The options and the operands of the arguments; `waiting` is an option whose
argument comes next. -/
def getoptLong (shorts : List Char) (longs : List LongOption) (posixly : Bool) :
    Option Char → List String → List Opt × List String
  | some _, [] => ([badOpt], [])
  | some c, a :: argv =>
    let (opts, operands) := getoptLong shorts longs posixly none argv
    ({ c, optarg := some a } :: opts, operands)
  | none, [] => ([], [])
  | none, a :: argv =>
    match a.toList with
    | ['-', '-'] => ([], argv)
    | '-' :: '-' :: body =>
      let (here, waiting) := longOpt longs body
      let (opts, operands) := getoptLong shorts longs posixly waiting argv
      (here ++ opts, operands)
    | '-' :: c :: cs =>
      let (here, waiting) := shortOpts shorts (c :: cs)
      let (opts, operands) := getoptLong shorts longs posixly waiting argv
      (here ++ opts, operands)
    | _ =>
      if posixly then ([], a :: argv)
      else
        let (opts, operands) := getoptLong shorts longs posixly none argv
        (opts, a :: operands)

/-- The argument of the last option `c`. -/
def lastArg (opts : List Opt) (c : Char) : Option String :=
  opts.foldl (fun arg o => if o.c = c then o.optarg else arg) none

/-- One option more, and the value of the last one. -/
theorem lastArg_append (opts : List Opt) (o : Opt) (c : Char) :
    lastArg (opts ++ [o]) c = if o.c = c then o.optarg else lastArg opts c := by
  rw [lastArg, List.foldl_append]
  rfl

end SkbTracer.Libc
