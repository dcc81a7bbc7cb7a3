import SkbTracer.Cfg.Options

/-!
# What a command line means

Options may be given in any form that `getopt_long` takes, and more than once. `meant` says
what a list of options comes to: for every value the last option that gives it, and how
often, or whether, a flag was given. `parseOptions_eq` says that the loop stores just that,
or ends the program with the first option that is refused.

`Written` is the grammar of the command lines that are right: long names whole or cut short,
short options together in one word, arguments in the same word or the next, operands
between the options. `written_options` says that `getopt_long` reads every such line back,
and `written_parsed` what `parse_args` makes of it.

The proof follows the grammar. One word first: a long name (`longOpt_name`,
`longOpt_joined`), a group of short options (`shortOpts_flags`, `shortOpts_arg`). Then
one word at the front of a line (`getoptLong_long`, `getoptLong_short`,
`getoptLong_waiting`, `getoptLong_plain`), and `Spells.read` for what one option takes up,
whichever form it has. The induction over the line is in `written_options`.

A line that is wrong, with an unknown option or without an argument, is not in the
grammar; `parseOptions_eq` covers it all the same, since `getopt_long` hands such an option
over as `?`.
-/

namespace SkbTracer.Cfg

open SkbTracer.Libc

/-! ## Options and arguments -/

/-- What the options say before names are resolved. -/
def meant (opts : List Opt) : Args where
  filterFunc := (lastArg opts 'f').getD ""
  filterMark := ((lastArg opts 'm').bind fun a => parseU32 a.toList).getD 0
  filterPcap := ""
  filterIfname := (lastArg opts 'i').getD ""
  filterNetns := (lastArg opts 'n').getD ""
  filterIfindex := 0
  filterNetnsId := 0
  outputMeta := opts.any fun o => o.c = 'M'
  outputTuple := opts.any fun o => o.c = 'T'
  outputStack := false
  timestamp := (lastArg opts 't').getD "none"
  verbose := opts.countP fun o => o.c = 'v'

/-- How the program ends at this option, if it does. -/
def refusal (o : Opt) : Option Exit :=
  match parseOption initArgs o with
  | .error e => some e
  | .ok _ => none

/-- The operands with a blank between them. -/
def expression (operands : List String) : String := " ".intercalate operands

/-- A long name, or a part of it that is the beginning of no other name. -/
def Names (name : List Char) (l : LongOption) : Prop :=
  l ∈ longOptions ∧ name <+: l.name.toList ∧
    (name = l.name.toList ∨ ∀ l' ∈ longOptions, name <+: l'.name.toList → l' = l)

/-- The options `l`, without an argument. -/
def flags (ls : List LongOption) : List Opt := ls.map fun l => { c := l.val, optarg := none }

/-- Some options, and the words of a command line for them. A word has one long option, or
short ones of which the last may take an argument; the argument is in the same word or in
the next one. -/
inductive Spells : List Opt → List String → Prop
  | longFlag {name : List Char} {l : LongOption} (hname : Names name l) (harg : l.hasArg = false) :
      Spells [⟨l.val, none⟩] [String.ofList ('-' :: '-' :: name)]
  | longJoined {name : List Char} {l : LongOption} (hname : Names name l) (harg : l.hasArg = true)
      (a : String) :
      Spells [⟨l.val, some a⟩] [String.ofList ('-' :: '-' :: (name ++ '=' :: a.toList))]
  | longSplit {name : List Char} {l : LongOption} (hname : Names name l) (harg : l.hasArg = true)
      (a : String) :
      Spells [⟨l.val, some a⟩] [String.ofList ('-' :: '-' :: name), a]
  | shortFlags {ls : List LongOption} (hls : ∀ l ∈ ls, l ∈ longOptions ∧ l.hasArg = false)
      (hne : ls ≠ []) : Spells (flags ls) [String.ofList ('-' :: ls.map LongOption.val)]
  | shortJoined {ls : List LongOption} (hls : ∀ l ∈ ls, l ∈ longOptions ∧ l.hasArg = false)
      {l : LongOption} (hl : l ∈ longOptions) (harg : l.hasArg = true) {a : String} (ha : a ≠ "") :
      Spells (flags ls ++ [⟨l.val, some a⟩])
        [String.ofList ('-' :: (ls.map LongOption.val ++ l.val :: a.toList))]
  | shortSplit {ls : List LongOption} (hls : ∀ l ∈ ls, l ∈ longOptions ∧ l.hasArg = false)
      {l : LongOption} (hl : l ∈ longOptions) (harg : l.hasArg = true) (a : String) :
      Spells (flags ls ++ [⟨l.val, some a⟩])
        [String.ofList ('-' :: (ls.map LongOption.val ++ [l.val])), a]

/-- A word that is an operand without a `--` before it. -/
def Plain (a : String) : Prop := a.toList.head? ≠ some '-' ∨ a = "-"

/-- A command line for the options and the operands. With `POSIXLY_CORRECT` the first
operand ends the options. -/
inductive Written (posixly : Bool) : List Opt → List String → List String → Prop
  | nil : Written posixly [] [] []
  | stop (operands : List String) : Written posixly [] operands ("--" :: operands)
  | first {a : String} (hposix : posixly = true) (ha : Plain a) (operands : List String) :
      Written posixly [] (a :: operands) (a :: operands)
  | operand {a : String} (hposix : posixly = false) (ha : Plain a) {opts : List Opt}
      {operands argv : List String} (h : Written posixly opts operands argv) :
      Written posixly opts (a :: operands) (a :: argv)
  | spells {here : List Opt} {words : List String} (hwords : Spells here words)
      {opts : List Opt} {operands argv : List String} (h : Written posixly opts operands argv) :
      Written posixly (here ++ opts) operands (words ++ argv)

/-! ## The loop -/

variable {opts : List Opt} {o : Opt} {W : World} {posixly : Bool} {p : Proc}

/-- One round stores what the options up to it mean, or ends the program. -/
theorem parseOption_meant (done : List Opt) (o : Opt) : parseOption (meant done) o =
    match refusal o with
    | some e => .error e
    | none => .ok (meant (done ++ [o])) := by
  obtain ⟨c, optarg⟩ := o
  unfold refusal parseOption
  dsimp only
  split
  next => rfl
  next => simp [meant, lastArg_append]
  next => simp [meant, lastArg_append]
  next =>
    cases optarg with
    | none => rfl
    | some a =>
      rw [Option.getD_some]
      cases hval : parseU32 a.toList with
      | none => rfl
      | some v => simp [meant, lastArg_append, hval]
  next =>
    by_cases ha : optarg.getD "" = ""
    · rw [if_pos ha, if_pos ha]
    · rw [if_neg ha, if_neg ha]
      simp [meant, lastArg_append]
  next =>
    by_cases ha : optarg.getD "" = ""
    · rw [if_pos ha, if_pos ha]
    · rw [if_neg ha, if_neg ha]
      simp [meant, lastArg_append]
  next => simp [meant, lastArg_append]
  next => simp [meant, lastArg_append]
  next =>
    cases optarg with
    | none => rfl
    | some a =>
      rw [Option.getD_some]
      by_cases ha : a = ""
      · rw [if_pos ha, if_pos ha]
      · rw [if_neg ha, if_neg ha]
        by_cases hmem : a ∉ ["current", "relative", "absolute", "none"]
        · rw [if_pos hmem, if_pos hmem]
        · rw [if_neg hmem, if_neg hmem]
          simp [meant, lastArg_append]
  next => rfl

/-- The loop, from where the options `done` have been stored. -/
theorem parseOptions_meant (done opts : List Opt) : parseOptions (meant done) opts =
    match opts.findSome? refusal with
    | some e => .error e
    | none => .ok (meant (done ++ opts)) := by
  induction opts generalizing done with
  | nil => rw [List.append_nil]; rfl
  | cons o opts ih =>
    rw [parseOptions, parseOption_meant, List.findSome?_cons]
    cases refusal o with
    | some e => rfl
    | none =>
      dsimp only
      rw [ih, List.append_assoc, List.singleton_append]

/-- From the start the loop stores just what the options mean, or ends with the first
that is refused. -/
theorem parseOptions_eq (opts : List Opt) : parseOptions initArgs opts =
    match opts.findSome? refusal with
    | some e => .error e
    | none => .ok (meant opts) := parseOptions_meant [] opts

/-! ## Names -/

/-- Each long option is found by its whole name, alone, and has its short one. -/
theorem longOptions_own : ∀ l ∈ longOptions,
    longOptions.find? (fun o => o.name.toList = l.name.toList) = some l ∧
      longOptions.filter (fun o => o = l) = [l] ∧ '=' ∉ l.name.toList ∧ l.name.toList ≠ [] ∧
      shortArg shortOptions l.val = some l.hasArg ∧ l.val ≠ '-' ∧
      (∃ l' ∈ longOptions, l' ≠ l) := by
  decide

/-- A name that is cut short names one option where no other begins like it. -/
theorem Names.matches {name : List Char} {l : LongOption} (h : Names name l) :
    longMatches longOptions name = [l] := by
  obtain ⟨hl, hpre, hwhole⟩ := h
  obtain ⟨hfind, hfilter, -, -, -, -, -⟩ := longOptions_own l hl
  rcases hwhole with rfl | honly
  · rw [longMatches, hfind]
  · unfold longMatches
    cases hname : longOptions.find? fun o => o.name.toList = name with
    | some l' =>
      have hmem := List.mem_of_find?_eq_some hname
      have heq : l'.name.toList = name := by simpa using List.find?_some hname
      dsimp only
      rw [honly l' hmem (heq ▸ List.prefix_refl _)]
    | none =>
      dsimp only
      rw [← hfilter]
      refine List.filter_congr fun o ho => ?_
      rw [Bool.eq_iff_iff, List.isPrefixOf_iff_prefix, decide_eq_true_iff]
      exact ⟨honly o ho, fun h => h ▸ hpre⟩

theorem Names.ne_nil {name : List Char} {l : LongOption} (h : Names name l) : name ≠ [] := by
  rintro rfl
  obtain ⟨hl, -, hwhole⟩ := h
  obtain ⟨-, -, -, hne, -, -, l', hl', hother⟩ := longOptions_own l hl
  rcases hwhole with hnil | honly
  · exact hne hnil.symm
  · exact hother (honly l' hl' (List.nil_prefix ..))

/-- No name has an equals sign in it, so the first one ends it. -/
theorem Names.no_eq {name : List Char} {l : LongOption} (h : Names name l) :
    ∀ c ∈ name, (c != '=') = true := by
  intro c hc
  rw [bne_iff_ne]
  rintro rfl
  exact (longOptions_own l h.1).2.2.1 (h.2.1.subset hc)

/-! ## One word -/

theorem longOpt_name {name : List Char} {l : LongOption} (h : Names name l) :
    longOpt longOptions name =
      if l.hasArg then ([], some l.val) else ([{ c := l.val, optarg := none }], none) := by
  have hname : name.takeWhile (· != '=') = name := List.takeWhile_eq_self_iff.2 h.no_eq
  unfold longOpt
  dsimp only
  rw [hname, h.matches, List.drop_length]
  cases harg : l.hasArg <;> simp [harg]

/-- The name ends at the first `=`. -/
theorem longOpt_joined {name : List Char} {l : LongOption} (h : Names name l)
    (harg : l.hasArg = true) (arg : List Char) : longOpt longOptions (name ++ '=' :: arg) =
      ([{ c := l.val, optarg := some (String.ofList arg) }], none) := by
  have hname : (name ++ '=' :: arg).takeWhile (· != '=') = name := by
    rw [List.takeWhile_append_of_pos h.no_eq, List.takeWhile_cons_of_neg (by decide),
      List.append_nil]
  unfold longOpt
  dsimp only
  rw [hname, h.matches, List.drop_left]
  simp [harg]

theorem shortOpts_flags {ls : List LongOption} (hls : ∀ l ∈ ls, l ∈ longOptions ∧ l.hasArg = false)
    (cs : List Char) : shortOpts shortOptions (ls.map LongOption.val ++ cs) =
      (flags ls ++ (shortOpts shortOptions cs).1, (shortOpts shortOptions cs).2) := by
  induction ls with
  | nil => rfl
  | cons l ls ih =>
    obtain ⟨hl, harg⟩ := hls l List.mem_cons_self
    have hshort := (longOptions_own l hl).2.2.2.2.1
    rw [harg] at hshort
    rw [List.map_cons, List.cons_append, shortOpts, hshort]
    dsimp only
    rw [ih fun l' hl' => hls l' (List.mem_cons_of_mem _ hl')]
    rfl

/-- An option with an argument takes the rest of the word, or waits for the next. -/
theorem shortOpts_arg {l : LongOption} (hl : l ∈ longOptions) (harg : l.hasArg = true)
    (cs : List Char) : shortOpts shortOptions (l.val :: cs) =
      if cs = [] then ([], some l.val)
      else ([{ c := l.val, optarg := some (String.ofList cs) }], none) := by
  have hshort := (longOptions_own l hl).2.2.2.2.1
  rw [harg] at hshort
  rw [shortOpts, hshort]

/-- A word with a long option. -/
theorem getoptLong_long {body : List Char} (hbody : body ≠ []) (argv : List String) :
    getoptLong shortOptions longOptions posixly none (String.ofList ('-' :: '-' :: body) :: argv) =
      ((longOpt longOptions body).1 ++
        (getoptLong shortOptions longOptions posixly (longOpt longOptions body).2 argv).1,
      (getoptLong shortOptions longOptions posixly (longOpt longOptions body).2 argv).2) := by
  rw [getoptLong, String.toList_ofList]
  cases body with
  | nil => exact absurd rfl hbody
  | cons c cs => rfl

/-- A word with short options. -/
theorem getoptLong_short {body : List Char} {l : LongOption} (hl : l ∈ longOptions)
    (hhead : body.head? = some l.val) (argv : List String) :
    getoptLong shortOptions longOptions posixly none (String.ofList ('-' :: body) :: argv) =
      ((shortOpts shortOptions body).1 ++
        (getoptLong shortOptions longOptions posixly (shortOpts shortOptions body).2 argv).1,
      (getoptLong shortOptions longOptions posixly (shortOpts shortOptions body).2 argv).2) := by
  obtain ⟨cs, rfl⟩ : ∃ cs, body = l.val :: cs := List.head?_eq_some_iff.1 hhead
  have hval := (longOptions_own l hl).2.2.2.2.2.1
  rw [getoptLong, String.toList_ofList]
  split
  next h =>
    injection h with _ h
    injection h with h
    exact absurd h hval
  next h =>
    injection h with _ h
    injection h with h
    exact absurd h hval
  next h => cases h; rfl
  next h => exact absurd rfl (h _ _)

/-- A word that is the argument of the option before it. -/
theorem getoptLong_waiting (c : Char) (a : String) (argv : List String) :
    getoptLong shortOptions longOptions posixly (some c) (a :: argv) =
      ({ c, optarg := some a } :: (getoptLong shortOptions longOptions posixly none argv).1,
        (getoptLong shortOptions longOptions posixly none argv).2) := rfl

/-- A word that is no option is an operand; with `POSIXLY_CORRECT` all that follow are.
-/
theorem getoptLong_plain {a : String} (ha : Plain a) (argv : List String) :
    getoptLong shortOptions longOptions posixly none (a :: argv) =
      if posixly then ([], a :: argv)
      else
        ((getoptLong shortOptions longOptions posixly none argv).1,
          a :: (getoptLong shortOptions longOptions posixly none argv).2) := by
  rw [getoptLong]
  split
  next h => rcases ha with ha | rfl <;> simp_all
  next h => rcases ha with ha | rfl <;> simp_all
  next h => rcases ha with ha | rfl <;> simp_all
  next => rfl

/-! ## Whole lines -/

/-- The words of some options are read as these. -/
theorem Spells.read {here : List Opt} {words : List String} (h : Spells here words)
    (argv : List String) :
    getoptLong shortOptions longOptions posixly none (words ++ argv) =
      (here ++ (getoptLong shortOptions longOptions posixly none argv).1,
        (getoptLong shortOptions longOptions posixly none argv).2) := by
  cases h with
  | longFlag hname harg =>
    rw [List.singleton_append, getoptLong_long hname.ne_nil, longOpt_name hname, harg]
    rfl
  | longJoined hname harg a =>
    rw [List.singleton_append, getoptLong_long (by simp), longOpt_joined hname harg,
      String.ofList_toList]
  | longSplit hname harg a =>
    rw [List.cons_append, List.singleton_append, getoptLong_long hname.ne_nil,
      longOpt_name hname, harg, if_pos rfl, getoptLong_waiting]
    rfl
  | @shortFlags ls hls hne =>
    obtain ⟨l, ls, rfl⟩ := List.exists_cons_of_ne_nil hne
    have hflags := shortOpts_flags hls []
    rw [List.append_nil] at hflags
    rw [List.singleton_append, getoptLong_short (hls l List.mem_cons_self).1 rfl, hflags]
    simp only [shortOpts, List.append_nil]
  | @shortJoined ls hls l hl harg a ha =>
    have hne : a.toList ≠ [] := by simpa using ha
    have hread := shortOpts_flags hls (l.val :: a.toList)
    rw [shortOpts_arg hl harg, if_neg hne, String.ofList_toList] at hread
    obtain ⟨l', hl', hhead⟩ : ∃ l' ∈ longOptions,
        (ls.map LongOption.val ++ l.val :: a.toList).head? = some l'.val := by
      cases ls with
      | nil => exact ⟨l, hl, rfl⟩
      | cons l' ls => exact ⟨l', (hls l' List.mem_cons_self).1, rfl⟩
    rw [List.singleton_append, getoptLong_short hl' hhead, hread]
  | @shortSplit ls hls l hl harg a =>
    have hread := shortOpts_flags hls [l.val]
    rw [shortOpts_arg hl harg, if_pos rfl] at hread
    obtain ⟨l', hl', hhead⟩ : ∃ l' ∈ longOptions,
        (ls.map LongOption.val ++ [l.val]).head? = some l'.val := by
      cases ls with
      | nil => exact ⟨l, hl, rfl⟩
      | cons l' ls => exact ⟨l', (hls l' List.mem_cons_self).1, rfl⟩
    rw [List.cons_append, List.singleton_append, getoptLong_short hl' hhead, hread,
      getoptLong_waiting]
    simp

/-- `getopt_long` reads every line that is right back. -/
theorem written_options {operands argv : List String} (h : Written posixly opts operands argv) :
    getoptLong shortOptions longOptions posixly none argv = (opts, operands) := by
  induction h with
  | nil => rfl
  | stop operands => rfl
  | first hposix ha operands => rw [getoptLong_plain ha, if_pos hposix]
  | operand hposix ha h ih =>
    rw [getoptLong_plain ha, ih, hposix]
    rfl
  | spells hwords h ih => rw [hwords.read, ih]

/-! ## `parse_args` -/

theorem foldl_operands (s a : String) (operands : List String) :
    (a :: operands).foldl (fun s a => s ++ a ++ " ") s =
      s ++ expression (a :: operands) ++ " " := by
  induction operands generalizing s a with
  | nil => rw [expression, String.intercalate_singleton]; rfl
  | cons b operands ih =>
    rw [List.foldl_cons, ih, expression, expression, String.intercalate_cons_cons]
    simp only [String.append_assoc]

theorem joinOperands_eq (operands : List String) :
    joinOperands "" operands = expression operands := by
  cases operands with
  | nil => rfl
  | cons a operands =>
    unfold joinOperands
    dsimp only
    rw [foldl_operands, String.empty_append, String.toList_append,
      show " ".toList = [' '] from rfl, List.getLast?_concat, if_pos rfl, List.dropLast_concat,
      String.ofList_toList]

/-- What `parse_args` makes of a command line that is right. The program ends at the first
option that is refused, before any name is looked up. Else the names are resolved, from what
the options mean, and the operands are the filter expression. -/
theorem written_parsed {operands argv : List String} (h : Written posixly opts operands argv)
    (prog : String) : parseArgs W posixly (prog :: argv) p =
      match opts.findSome? refusal with
      | some e => (.error e, p)
      | none =>
        match resolveNetnsAndIfname W (meant opts) "" p with
        | ((false, _, errMsg), p') =>
          (.error { code := 1, message := "Error: " ++ errMsg ++ "\n" }, p')
        | ((true, args, _), p') =>
          (.ok { args with filterPcap := expression operands }, p') := by
  have hoptions : options posixly (prog :: argv) = (opts, operands) := written_options h
  unfold parseArgs
  rw [hoptions, parseOptions_eq]
  cases opts.findSome? refusal with
  | some e => rfl
  | none =>
    dsimp only
    rcases hres : resolveNetnsAndIfname W (meant opts) "" p with ⟨⟨ok, args, errMsg⟩, p'⟩
    obtain ⟨-, hcase⟩ := resolveNetnsAndIfname_outcome hres
    rw [Sys.bind_apply, hres]
    rcases hcase with ⟨rfl, -, -⟩ | ⟨rfl, -, hresolved⟩
    · rfl
    · have hpcap : args.filterPcap = "" := by rw [hresolved.frame]; rfl
      dsimp only
      rw [if_neg (by decide), hpcap, joinOperands_eq]
      rfl

/-- `-vM --filter-f ip_rcv tcp -tcurrent -- port 80` asks for two flags, a function and the
time of day, and filters by `tcp port 80`. -/
theorem written_parsed_mixed : ∃ (W : World) (p : Proc),
    parseArgs W false ["skbtracer", "-vM", "--filter-f", "ip_rcv", "tcp", "-tcurrent", "--",
        "port", "80"] p =
      (.ok { initArgs with
        verbose := 1, outputMeta := true, filterFunc := "ip_rcv", timestamp := "current",
        filterPcap := "tcp port 80" }, p) := by
  have hflags : Spells [⟨'v', none⟩, ⟨'M', none⟩] ["-vM"] :=
    @Spells.shortFlags [⟨"verbose", false, 'v'⟩, ⟨"output-meta", false, 'M'⟩] (by decide)
      (by decide)
  have hfunc : Spells [⟨'f', some "ip_rcv"⟩] ["--filter-f", "ip_rcv"] :=
    @Spells.longSplit "filter-f".toList ⟨"filter-func", true, 'f'⟩
      ⟨by decide, by decide, Or.inr (by decide)⟩ rfl "ip_rcv"
  have htime : Spells [⟨'t', some "current"⟩] ["-tcurrent"] :=
    @Spells.shortJoined [] (by decide) ⟨"timestamp", true, 't'⟩ (by decide) rfl "current"
      (by decide)
  have hline := Written.spells hflags (Written.spells hfunc (Written.operand rfl
    (Or.inl (by decide) : Plain "tcp") (Written.spells htime (Written.stop ["port", "80"]))))
  refine ⟨⟨fun _ => none, fun _ _ => ⟨4, 1⟩, fun _ _ => 0, fun _ => ""⟩,
    ⟨fun _ => none, 1024, ⟨4, 1⟩, 0, 0, [], []⟩, ?_⟩
  exact (written_parsed hline "skbtracer").trans rfl

end SkbTracer.Cfg
