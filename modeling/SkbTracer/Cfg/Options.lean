import SkbTracer.Cfg.Netns
import SkbTracer.Libc.Getopt

/-!
# `parse_args`

The loop over the options, the resolution of the namespace and the interface, and
the operands joined to the filter expression. The program ends where an option is
wrong or asks for help, and where the resolution fails.

`Parsed` says what the loop has stored: for every filter, the value of the last
option that gives it. It is the loop's invariant, with the options read so far as its
history:

- `initArgs_parsed`: it holds before the loop;
- `Parsed.option`: one option keeps it, whichever it is; an option that is about none of the
  filters stores nothing in their places (`parseOption_other`);
- `Parsed.run`: so it holds after the loop, for all of them;
- `parseArgs_ok`: what a `parse_args` that comes back has done, as the three parts of the
  function.

An exit is a value here, with its code and its message. The text that `usage` prints
before it is left out, and `getopt_long` writes no messages of its own. The tests of the
values an option may have are those of the source; what the options mean all together,
without the loop, is said in `Cfg.CommandLine`.
-/

namespace SkbTracer.Cfg

open SkbTracer.Libc

/-- `short_options`. -/
def shortOptions : List Char := "hvf:m:i:n:MTt:".toList

/-- `long_options`. -/
def longOptions : List LongOption :=
  [ { name := "help", hasArg := false, val := 'h' },
    { name := "verbose", hasArg := false, val := 'v' },
    { name := "filter-func", hasArg := true, val := 'f' },
    { name := "filter-mark", hasArg := true, val := 'm' },
    { name := "filter-ifname", hasArg := true, val := 'i' },
    { name := "filter-netns", hasArg := true, val := 'n' },
    { name := "output-meta", hasArg := false, val := 'M' },
    { name := "output-tuple", hasArg := false, val := 'T' },
    { name := "timestamp", hasArg := true, val := 't' } ]

/-- `Options::args args{}` with the timestamp set. -/
def initArgs : Args :=
  { filterFunc := "", filterMark := 0, filterPcap := "", filterIfname := "", filterNetns := "",
    filterIfindex := 0, filterNetnsId := 0, outputMeta := false, outputTuple := false,
    outputStack := false, timestamp := "none", verbose := 0 }

/-- A call of `exit`, after `message` and the usage. -/
structure Exit where
  code : Int
  message : String
  deriving DecidableEq, Repr

/-- One round of the loop: the `switch` on what `getopt_long` returned. -/
def parseOption (args : Args) (o : Opt) : Except Exit Args :=
  let optarg := o.optarg.getD ""
  match o.c with
  | 'h' => .error { code := 0, message := "" }
  | 'v' => .ok { args with verbose := args.verbose + 1 }
  | 'f' => .ok { args with filterFunc := optarg }
  | 'm' =>
    match parseU32 optarg.toList with
    | some filterMark => .ok { args with filterMark }
    | none =>
      .error { code := 1, message := "Error: Invalid filter-mark value '" ++ optarg ++ "'\n" }
  | 'i' =>
    if optarg = "" then .error { code := 1, message := "Error: --filter-ifname cannot be empty\n" }
    else .ok { args with filterIfname := optarg }
  | 'n' =>
    if optarg = "" then .error { code := 1, message := "Error: --filter-netns cannot be empty\n" }
    else .ok { args with filterNetns := optarg }
  | 'M' => .ok { args with outputMeta := true }
  | 'T' => .ok { args with outputTuple := true }
  | 't' =>
    if optarg = "" then .error { code := 1, message := "Error: --timestamp cannot be empty\n" }
    else if optarg ∉ ["current", "relative", "absolute", "none"] then
      .error { code := 1, message := "Error: Invalid value for --timestamp: '" ++ optarg ++
        "'. Supported values are: \"current\", \"relative\", \"absolute\", \"none\"\n" }
    else .ok { args with timestamp := optarg }
  | _ => .error { code := 1, message := "" }

/-- The loop over the options. -/
def parseOptions : Args → List Opt → Except Exit Args
  | args, [] => .ok args
  | args, o :: opts =>
    match parseOption args o with
    | .ok args => parseOptions args opts
    | .error e => .error e

/-- The loop over the operands, and the blank at the end taken off. -/
def joinOperands (filterPcap : String) (operands : List String) : String :=
  let joined := operands.foldl (fun s a => s ++ a ++ " ") filterPcap
  if joined.toList.getLast? = some ' ' then String.ofList joined.toList.dropLast else joined

/-- The options of a command line. -/
def options (posixly : Bool) (argv : List String) : List Opt × List String :=
  getoptLong shortOptions longOptions posixly none argv.tail

/-- `Options::parse_args(argc, argv)`; `posixly` is whether `POSIXLY_CORRECT` is set. -/
def parseArgs (W : World) (posixly : Bool) (argv : List String) : Sys (Except Exit Args) :=
  match parseOptions initArgs (options posixly argv).1 with
  | .error e => pure (.error e)
  | .ok args => do
    let (ok, args, errMsg) ← resolveNetnsAndIfname W args ""
    if ok = false then
      pure (.error { code := 1, message := "Error: " ++ errMsg ++ "\n" })
    else
      pure (.ok { args with
        filterPcap := joinOperands args.filterPcap (options posixly argv).2 })

/-! ## What the loop stores -/

/-- The arguments after the options `opts`. -/
structure Parsed (opts : List Opt) (args : Args) : Prop where
  noMark : lastArg opts 'm' = none → args.filterMark = 0
  mark : ∀ a, lastArg opts 'm' = some a → parseU32 a.toList = some args.filterMark
  noIfname : lastArg opts 'i' = none → args.filterIfname = ""
  ifname : ∀ a, lastArg opts 'i' = some a → args.filterIfname = a ∧ a ≠ ""
  noNetns : lastArg opts 'n' = none → args.filterNetns = ""
  netns : ∀ a, lastArg opts 'n' = some a → args.filterNetns = a ∧ a ≠ ""

/-- At the start nothing is stored. -/
theorem initArgs_parsed : Parsed [] initArgs where
  noMark _ := rfl
  mark _ h := by cases h
  noIfname _ := rfl
  ifname _ h := by cases h
  noNetns _ := rfl
  netns _ h := by cases h

variable {args args' : Args} {opts : List Opt} {o : Opt}

/-- An option that is none of the filters leaves them alone. -/
theorem Parsed.other (h : Parsed opts args) (hm : o.c ≠ 'm') (hi : o.c ≠ 'i') (hn : o.c ≠ 'n')
    (hmark : args'.filterMark = args.filterMark) (hifname : args'.filterIfname = args.filterIfname)
    (hnetns : args'.filterNetns = args.filterNetns) : Parsed (opts ++ [o]) args' := by
  constructor <;> rw [lastArg_append]
  · rw [if_neg hm, hmark]
    exact h.noMark
  · rw [if_neg hm, hmark]
    exact h.mark
  · rw [if_neg hi, hifname]
    exact h.noIfname
  · rw [if_neg hi, hifname]
    exact h.ifname
  · rw [if_neg hn, hnetns]
    exact h.noNetns
  · rw [if_neg hn, hnetns]
    exact h.netns

/-- A mark is stored if `parse_u32` takes it, in the place of the one before. -/
theorem Parsed.mark_option (h : Parsed opts args) (hm : o.c = 'm')
    (hargs : parseOption args o = .ok args') : Parsed (opts ++ [o]) args' := by
  obtain ⟨c, optarg⟩ := o
  subst hm
  simp only [parseOption] at hargs
  cases optarg with
  | none => cases hargs
  | some a =>
    rw [Option.getD_some] at hargs
    cases hval : parseU32 a.toList with
    | none =>
      rw [hval] at hargs
      cases hargs
    | some v =>
      rw [hval] at hargs
      cases hargs
      constructor <;> rw [lastArg_append]
      · exact fun h => by cases h
      · exact fun b hb => by cases hb; exact hval
      · exact h.noIfname
      · exact h.ifname
      · exact h.noNetns
      · exact h.netns

theorem Parsed.ifname_option (h : Parsed opts args) (hi : o.c = 'i')
    (hargs : parseOption args o = .ok args') : Parsed (opts ++ [o]) args' := by
  obtain ⟨c, optarg⟩ := o
  subst hi
  simp only [parseOption] at hargs
  cases optarg with
  | none => cases hargs
  | some a =>
    rw [Option.getD_some] at hargs
    by_cases ha : a = ""
    · rw [if_pos ha] at hargs
      cases hargs
    · rw [if_neg ha] at hargs
      cases hargs
      constructor <;> rw [lastArg_append]
      · exact h.noMark
      · exact h.mark
      · exact fun h => by cases h
      · exact fun b hb => by cases hb; exact ⟨rfl, ha⟩
      · exact h.noNetns
      · exact h.netns

/-- A namespace and an interface are stored as they are; they are resolved later. -/
theorem Parsed.netns_option (h : Parsed opts args) (hn : o.c = 'n')
    (hargs : parseOption args o = .ok args') : Parsed (opts ++ [o]) args' := by
  obtain ⟨c, optarg⟩ := o
  subst hn
  simp only [parseOption] at hargs
  cases optarg with
  | none => cases hargs
  | some a =>
    rw [Option.getD_some] at hargs
    by_cases ha : a = ""
    · rw [if_pos ha] at hargs
      cases hargs
    · rw [if_neg ha] at hargs
      cases hargs
      constructor <;> rw [lastArg_append]
      · exact h.noMark
      · exact h.mark
      · exact h.noIfname
      · exact h.ifname
      · exact fun h => by cases h
      · exact fun b hb => by cases hb; exact ⟨rfl, ha⟩

/-- What the other options that do not end the program store is no filter. -/
theorem parseOption_other (hm : o.c ≠ 'm') (hi : o.c ≠ 'i') (hn : o.c ≠ 'n')
    (hargs : parseOption args o = .ok args') : args'.filterMark = args.filterMark ∧
      args'.filterIfname = args.filterIfname ∧ args'.filterNetns = args.filterNetns := by
  unfold parseOption at hargs
  dsimp only at hargs
  split at hargs
  next => cases hargs
  next =>
    cases hargs
    exact ⟨rfl, rfl, rfl⟩
  next =>
    cases hargs
    exact ⟨rfl, rfl, rfl⟩
  next hc => exact absurd hc hm
  next hc => exact absurd hc hi
  next hc => exact absurd hc hn
  next =>
    cases hargs
    exact ⟨rfl, rfl, rfl⟩
  next =>
    cases hargs
    exact ⟨rfl, rfl, rfl⟩
  next =>
    -- the timestamp
    split at hargs
    next => cases hargs
    next =>
      split at hargs
      next => cases hargs
      next =>
        cases hargs
        exact ⟨rfl, rfl, rfl⟩
  next => cases hargs

/-- One option. -/
theorem Parsed.option (h : Parsed opts args) (hargs : parseOption args o = .ok args') :
    Parsed (opts ++ [o]) args' := by
  by_cases hm : o.c = 'm'
  · exact h.mark_option hm hargs
  by_cases hi : o.c = 'i'
  · exact h.ifname_option hi hargs
  by_cases hn : o.c = 'n'
  · exact h.netns_option hn hargs
  obtain ⟨hmark, hifname, hnetns⟩ := parseOption_other hm hi hn hargs
  exact h.other hm hi hn hmark hifname hnetns

/-- The whole loop. -/
theorem Parsed.run {rest : List Opt} (h : Parsed opts args)
    (hargs : parseOptions args rest = .ok args') : Parsed (opts ++ rest) args' := by
  induction rest generalizing opts args with
  | nil =>
    cases hargs
    rwa [List.append_nil]
  | cons o rest ih =>
    rw [parseOptions] at hargs
    split at hargs
    next args₁ ho =>
      have := ih (h.option ho) hargs
      rwa [List.append_assoc] at this
    next => cases hargs

/-- The arguments that `parse_args` returns: the last option of each kind, and what
the names in them resolve to. -/
theorem parseArgs_ok {W : World} {posixly : Bool} {argv : List String} {p p' : Proc}
    (h : parseArgs W posixly argv p = (.ok args', p')) :
    ∃ args args₁, Parsed (options posixly argv).1 args ∧ Resolution W p args args₁ ∧
      args' = { args₁ with
        filterPcap := joinOperands args₁.filterPcap (options posixly argv).2 } := by
  unfold parseArgs at h
  cases hloop : parseOptions initArgs (options posixly argv).1 with
  | error e =>
    rw [hloop] at h
    cases h
  | ok args =>
    rw [hloop] at h
    rcases hres : resolveNetnsAndIfname W args "" p with ⟨⟨ok, args₁, errMsg⟩, p₁⟩
    obtain ⟨-, hcase⟩ := resolveNetnsAndIfname_outcome hres
    simp only [Sys.bind_apply, hres] at h
    rcases hcase with ⟨rfl, -, -⟩ | ⟨rfl, -, hresolved⟩
    · cases h
    · cases h
      exact ⟨args, args₁, initArgs_parsed.run hloop, hresolved, rfl⟩

end SkbTracer.Cfg
