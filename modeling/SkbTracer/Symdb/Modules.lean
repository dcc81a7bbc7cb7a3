import Mathlib.Data.Char
import Mathlib.Data.List.Lex
import Mathlib.Data.List.TakeWhile
import SkbTracer.Lib.OrdMap
import SkbTracer.Lib.Regex
import SkbTracer.Libc.Strtoul

/-!
# The BTF of the kernel modules

`load_all_kmod_btfs` reads `/proc/modules` line by line, takes the name of a module from
every line that its pattern matches, and loads the BTF of that module on top of the
kernel's own. The pattern is `(\S+)\s+\S+`, and `std::regex_match` asks it to match the
whole line: a line is read if it has two fields and nothing around them.

A line of `/proc/modules` has six fields or seven. None is read, and no module is
considered.

- `fullMatch_moduleRegex_iff`: the lines that the pattern matches, and what it captures.
- `modules_considered_iff`: with the file that the kernel writes, the modules in it are
  considered exactly if there are none.
- `modules_law`: what is called and loaded with any file, in terms of `modulesOf`, the
  first fields of its lines of two.

`Considered` and `Listed` say what the loop should leave behind: the calls, the BTFs that
can be found afterwards, and the objects that were loaded for them. `Listed` is the
invariant of the loop, `Listed.process` what one call preserves and `Listed.lines` the
run. It needs that no module is named `vmlinux`: such a module would take the place of
the kernel's own BTF, and those after it would be loaded on top of it.

What libbpf has for a name, and whether there is a file under `/sys/kernel/btf`, is
`ModuleBtfs`, about which nothing is assumed.
-/

namespace SkbTracer.Symdb

open SkbTracer.Lib (OrdMap Regex)
open SkbTracer.Libc (isSpace cStr)

/-! ## The list of BTFs -/

/-- The key of the kernel's own BTF. -/
def vmlinux : List Char := "vmlinux".toList

/-- `module_btf_exists(module)`, and `btf__load_module_btf(module, vmlinux_btf)` with
the error that `libbpf_get_error` finds in its result. -/
structure ModuleBtfs (Btf : Type*) where
  moduleBtfExists : List Char → Bool
  btfLoadModuleBtf : List Char → Btf → Except Int Btf

/-- A loaded `struct btf`, and how many were loaded before it, which tells it from every
other. -/
structure BtfObj (Btf : Type*) where
  serial : Nat
  btf : Btf

/-- `btf_list`, and the names that objects were put under so far. `init` has put the
kernel's own BTF into it. -/
structure BtfList (Btf : Type*) where
  objs : OrdMap (List Char) (BtfObj Btf)
  loads : List (List Char)
  vmlinux_isSome : (objs.find vmlinux).isSome = true

variable {Btf : Type*}

/-- `btf_list["vmlinux"] = vmlinux_btf`, at the start. -/
def BtfList.ofVmlinux (btf : Btf) : BtfList Btf where
  objs := OrdMap.empty.set vmlinux ⟨0, btf⟩
  loads := [vmlinux]
  vmlinux_isSome := by rw [OrdMap.find_set, if_pos rfl]; rfl

/-- The BTF under a name. -/
def BtfList.find (list : BtfList Btf) (name : List Char) : Option Btf :=
  (list.objs.find name).map BtfObj.btf

/-- `btf_list["vmlinux"]`. -/
def BtfList.vmlinuxBtf (list : BtfList Btf) : Btf :=
  ((list.objs.find vmlinux).get list.vmlinux_isSome).btf

/-- `btf_list[name] = btf`. The object that was there is not freed. -/
def BtfList.insert (list : BtfList Btf) (name : List Char) (btf : Btf) : BtfList Btf where
  objs := list.objs.set name ⟨list.loads.length, btf⟩
  loads := list.loads ++ [name]
  vmlinux_isSome := by
    rw [OrdMap.find_set]
    split
    · rfl
    · exact list.vmlinux_isSome

/-- At the start the list has the kernel's own BTF and nothing else. -/
theorem BtfList.find_ofVmlinux (btf : Btf) (name : List Char) :
    (BtfList.ofVmlinux btf).find name = if name = vmlinux then some btf else none := by
  unfold BtfList.find BtfList.ofVmlinux
  rw [OrdMap.find_set]
  split <;> rfl

/-- A BTF that is put in is found under its name, and the others as before. -/
theorem BtfList.find_insert (list : BtfList Btf) (name : List Char) (btf : Btf) (n : List Char) :
    (list.insert name btf).find n = if n = name then some btf else list.find n := by
  unfold BtfList.find BtfList.insert
  rw [OrdMap.find_set]
  split <;> rfl

theorem BtfList.find_vmlinux (list : BtfList Btf) : list.find vmlinux = some list.vmlinuxBtf := by
  obtain ⟨obj, hobj⟩ := Option.isSome_iff_exists.mp list.vmlinux_isSome
  unfold BtfList.find BtfList.vmlinuxBtf
  simp only [hobj, Option.map_some, Option.get_some]

/-! ## `load_all_kmod_btfs` -/

/-- `ENOENT`. -/
def ENOENT : Int := 2

/-- `process_module(module)`. -/
def processModule (env : ModuleBtfs Btf) (list : BtfList Btf) (name : List Char) :
    Int × BtfList Btf :=
  if env.moduleBtfExists name then
    match env.btfLoadModuleBtf name list.vmlinuxBtf with
    | .error err => (-err, list)
    | .ok btf => (0, list.insert name btf)
  else (-ENOENT, list)

/-- The lines that `std::getline` gives until it fails. -/
def getlines : List Char → List (List Char)
  | [] => []
  | c :: s =>
    if c = '\n' then [] :: getlines s
    else
      match getlines s with
      | [] => [[c]]
      | line :: lines => (c :: line) :: lines

/-- `(\S+)\s+\S+`. -/
def moduleRegex : Regex Char :=
  .seq (.seq (.group (.plus (.cls fun c => !isSpace c))) (.plus (.cls isSpace)))
    (.plus (.cls fun c => !isSpace c))

/-- The list, and the modules that `process_module` was called for. -/
structure KmodState (Btf : Type*) where
  list : BtfList Btf
  called : List (List Char)

/-- `process_module(name.c_str())`. -/
def KmodState.process (env : ModuleBtfs Btf) (s : KmodState Btf) (name : List Char) :
    KmodState Btf where
  list := (processModule env s.list (cStr name)).2
  called := s.called ++ [cStr name]

/-- One round of the loop. -/
def loadLine (env : ModuleBtfs Btf) (s : KmodState Btf) (line : List Char) : KmodState Btf :=
  match moduleRegex.fullMatch line with
  | none => s
  | some caps => s.process env (caps.headD [])

/-- `load_all_kmod_btfs(priv)`; `file` is the text of `/proc/modules`, or the `errno` with
which it could not be opened. -/
def loadAllKmodBtfs (env : ModuleBtfs Btf) (file : Except Int (List Char)) (list : BtfList Btf) :
    Int × KmodState Btf :=
  match file with
  | .error errno => (-errno, { list, called := [] })
  | .ok text => (0, (getlines text).foldl (loadLine env) { list, called := [] })

/-! ## `/proc/modules` -/

/-- A field of a line. -/
structure Word where
  chars : List Char
  ne : chars ≠ []
  solid : ∀ c ∈ chars, isSpace c = false

/-- A line; the dependencies are a list with commas or `-`. -/
structure ModuleLine where
  name : Word
  size : Word
  refcount : Word
  deps : Word
  state : Word
  address : Word
  taints : Option Word

/-- Fields with single spaces between them. -/
def joinWords (w : Word) : List Word → List Char
  | [] => w.chars
  | w' :: ws => w.chars ++ ' ' :: joinWords w' ws

/-- The fields with a blank between them, as `seq_printf` of the kernel puts them. -/
def ModuleLine.text (l : ModuleLine) : List Char :=
  joinWords l.name ([l.size, l.refcount, l.deps, l.state, l.address] ++ l.taints.toList)

/-- The text of the file. -/
def textOf (lines : List (List Char)) : List Char := lines.flatMap fun line => line ++ ['\n']

/-- `process_module` was called for these modules, once each and in this order, and the
list has those of them whose BTF exists and loads, and nothing else but the kernel's. -/
structure Considered (env : ModuleBtfs Btf) (btf : Btf) (names : List (List Char))
    (s : KmodState Btf) : Prop where
  called : s.called = names
  loaded : ∀ name, name ≠ vmlinux → ∀ b, s.list.find name = some b ↔
    name ∈ names ∧ env.moduleBtfExists name = true ∧ env.btfLoadModuleBtf name btf = .ok b

/-! ## The lines that are read -/

variable {env : ModuleBtfs Btf} {btf : Btf} {s : KmodState Btf} {names : List (List Char)}
  {name line : List Char} {caps : List (List Char)}

/-- What the pattern matches: two fields, and blanks between them. -/
theorem moduleRegex_matches_iff : moduleRegex.Matches line caps ↔
    ∃ u blanks v, line = u ++ blanks ++ v ∧ (u ≠ [] ∧ ∀ c ∈ u, isSpace c = false) ∧
      (blanks ≠ [] ∧ ∀ c ∈ blanks, isSpace c = true) ∧ (v ≠ [] ∧ ∀ c ∈ v, isSpace c = false) ∧
      caps = [u] := by
  constructor
  · intro h
    unfold moduleRegex at h
    cases h with
    | seq hfront hv =>
      cases hfront with
      | seq hgroup hblanks =>
        cases hgroup with
        | group hu =>
          obtain ⟨hune, huall, rfl⟩ := Regex.matches_plus_cls_iff.mp hu
          obtain ⟨hbne, hball, rfl⟩ := Regex.matches_plus_cls_iff.mp hblanks
          obtain ⟨hvne, hvall, rfl⟩ := Regex.matches_plus_cls_iff.mp hv
          exact ⟨_, _, _, rfl, ⟨hune, fun c hc => by simpa using huall c hc⟩, ⟨hbne, hball⟩,
            ⟨hvne, fun c hc => by simpa using hvall c hc⟩, rfl⟩
  · intro ⟨u, blanks, v, hline, ⟨hune, huall⟩, ⟨hbne, hball⟩, ⟨hvne, hvall⟩, hcaps⟩
    rw [hline, hcaps]
    have hu := Regex.matches_plus_cls_iff.mpr
      ⟨hune, fun c hc => show (!isSpace c) = true by rw [huall c hc]; rfl, rfl⟩
    have hblanks := Regex.matches_plus_cls_iff.mpr ⟨hbne, hball, rfl⟩
    have hv := Regex.matches_plus_cls_iff.mpr
      ⟨hvne, fun c hc => show (!isSpace c) = true by rw [hvall c hc]; rfl, rfl⟩
    exact .seq (.seq (.group hu) hblanks) hv

/-- There is one way to cut a line where a run of letters of a kind ends. -/
theorem cut_unique {p : Char → Bool} {a b x y : List Char} (ha : ∀ c ∈ a, p c = true)
    (hb : ∀ c ∈ b, p c = true) (hx : ∀ c ∈ x.head?, p c = false)
    (hy : ∀ c ∈ y.head?, p c = false) (h : a ++ x = b ++ y) : a = b ∧ x = y := by
  have hstop : ∀ z : List Char, (∀ c ∈ z.head?, p c = false) → z.takeWhile p = [] := by
    intro z hz
    cases z with
    | nil => rfl
    | cons c z => rw [List.takeWhile_cons, hz c rfl]; rfl
  have htake := congrArg (List.takeWhile p) h
  rw [List.takeWhile_append_of_pos ha, List.takeWhile_append_of_pos hb, hstop x hx, hstop y hy,
    List.append_nil, List.append_nil] at htake
  rw [htake] at h
  exact ⟨htake, List.append_cancel_left h⟩

theorem head_of_all {p : Char → Bool} {u z : List Char} {b : Bool} (hne : u ≠ [])
    (h : ∀ c ∈ u, p c = b) : ∀ c ∈ (u ++ z).head?, p c = b := by
  intro c hc
  cases u with
  | nil => exact absurd rfl hne
  | cons d u =>
    cases hc
    exact h c (List.mem_cons_self ..)

/-- **The lines that are read are those of two fields**, and the name is the first. -/
theorem fullMatch_moduleRegex_iff : moduleRegex.fullMatch line = some caps ↔
    ∃ u blanks v, line = u ++ blanks ++ v ∧ (u ≠ [] ∧ ∀ c ∈ u, isSpace c = false) ∧
      (blanks ≠ [] ∧ ∀ c ∈ blanks, isSpace c = true) ∧ (v ≠ [] ∧ ∀ c ∈ v, isSpace c = false) ∧
      caps = [u] := by
  constructor
  · intro h
    exact moduleRegex_matches_iff.mp (Regex.fullMatch_sound h)
  · intro h
    rcases hfull : moduleRegex.fullMatch line with _ | caps'
    · exact absurd (moduleRegex_matches_iff.mpr h) (Regex.fullMatch_eq_none_iff.mp hfull caps)
    · obtain ⟨u, blanks, v, hline, ⟨hune, hu⟩, ⟨hbne, hb⟩, -, rfl⟩ := h
      obtain ⟨u', blanks', v', hline', ⟨hune', hu'⟩, ⟨hbne', hb'⟩, -, rfl⟩ :=
        moduleRegex_matches_iff.mp (Regex.fullMatch_sound hfull)
      rw [hline, List.append_assoc, List.append_assoc] at hline'
      -- the name ends where the first blank is
      have hcut := @cut_unique (fun c => !isSpace c) u u' (blanks ++ v) (blanks' ++ v')
        (fun c hc => show (!isSpace c) = true by rw [hu c hc]; rfl)
        (fun c hc => show (!isSpace c) = true by rw [hu' c hc]; rfl)
        (fun c hc => show (!isSpace c) = false by rw [head_of_all hbne hb c hc]; rfl)
        (fun c hc => show (!isSpace c) = false by rw [head_of_all hbne' hb' c hc]; rfl) hline'
      rw [hcut.1]

theorem space_isSpace : ∀ c ∈ [' '], isSpace c = true := by
  intro c hc
  rw [List.mem_singleton.mp hc]
  rfl

/-- A third field is one too many. -/
theorem fullMatch_more (w w' w'' : Word) (ws : List Word) :
    moduleRegex.fullMatch (joinWords w (w' :: w'' :: ws)) = none := by
  rw [Regex.fullMatch_eq_none_iff]
  intro caps h
  obtain ⟨u, blanks, v, hline, ⟨hune, hu⟩, ⟨hbne, hb⟩, ⟨hvne, hv⟩, -⟩ :=
    moduleRegex_matches_iff.mp h
  have hblank : ∀ z : List Char, ∀ c ∈ ([' '] ++ z).head?, isSpace c = true :=
    fun z => head_of_all (List.cons_ne_nil _ _) space_isSpace
  rw [List.append_assoc] at hline
  obtain ⟨-, hrest⟩ := @cut_unique (fun c => !isSpace c) w.chars u
    ([' '] ++ (w'.chars ++ ' ' :: joinWords w'' ws)) (blanks ++ v)
    (fun c hc => show (!isSpace c) = true by rw [w.solid c hc]; rfl)
    (fun c hc => show (!isSpace c) = true by rw [hu c hc]; rfl)
    (fun c hc => show (!isSpace c) = false by rw [hblank _ c hc]; rfl)
    (fun c hc => show (!isSpace c) = false by rw [head_of_all hbne hb c hc]; rfl) hline
  have hvhead : ∀ c ∈ v.head?, isSpace c = false := by
    rw [← List.append_nil v]
    exact head_of_all hvne hv
  -- so what the last part matches has the next blank in it
  obtain ⟨-, hlast⟩ := cut_unique space_isSpace hb (head_of_all w'.ne w'.solid) hvhead hrest
  have hmem : ' ' ∈ v := by
    rw [← hlast]
    exact List.mem_append_right _ (List.mem_cons_self ..)
  exact absurd (hv ' ' hmem) (by decide)

/-! ## The file -/

theorem getlines_line (line s : List Char) (h : ∀ c ∈ line, c ≠ '\n') :
    getlines (line ++ '\n' :: s) = line :: getlines s := by
  induction line with
  | nil => rfl
  | cons c line ih =>
    rw [List.cons_append, getlines, if_neg (h c (List.mem_cons_self ..)),
      ih fun d hd => h d (List.mem_cons_of_mem _ hd)]

/-- Lines that were written with an end each are read back. -/
theorem getlines_textOf (lines : List (List Char)) (h : ∀ line ∈ lines, ∀ c ∈ line, c ≠ '\n') :
    getlines (textOf lines) = lines := by
  induction lines with
  | nil => rfl
  | cons line lines ih =>
    have hsplit : textOf (line :: lines) = line ++ '\n' :: textOf lines := by
      unfold textOf
      rw [List.flatMap_cons, List.append_assoc]
      rfl
    rw [hsplit, getlines_line line _ (h line (List.mem_cons_self ..)),
      ih fun l hl => h l (List.mem_cons_of_mem _ hl)]

theorem joinWords_noNewline (w : Word) (ws : List Word) : ∀ c ∈ joinWords w ws, c ≠ '\n' := by
  have hword : ∀ (w : Word) c, c ∈ w.chars → c ≠ '\n' := by
    intro w c hc heq
    have hsolid := w.solid c hc
    rw [heq] at hsolid
    exact absurd hsolid (by decide)
  induction ws generalizing w with
  | nil => exact hword w
  | cons w' ws ih =>
    intro c hc
    rcases List.mem_append.mp hc with hc | hc
    · exact hword w c hc
    · rcases List.mem_cons.mp hc with rfl | hc
      · decide
      · exact ih w' c hc

/-- No line of the file changes anything. -/
theorem loadLine_moduleLine (env : ModuleBtfs Btf) (s : KmodState Btf) (l : ModuleLine) :
    loadLine env s l.text = s := by
  unfold loadLine ModuleLine.text
  rw [List.cons_append, List.cons_append, fullMatch_more]

/-- Nor do all of them together. -/
theorem loadLines_skip (env : ModuleBtfs Btf) (lines : List ModuleLine) (s : KmodState Btf) :
    (lines.map ModuleLine.text).foldl (loadLine env) s = s := by
  induction lines with
  | nil => rfl
  | cons l lines ih => rw [List.map_cons, List.foldl_cons, loadLine_moduleLine, ih]

/-- With the file that the kernel writes `load_all_kmod_btfs` returns 0, has called
`process_module` for nothing, and leaves the list as it was. -/
theorem loadAllKmodBtfs_skips (env : ModuleBtfs Btf) (lines : List ModuleLine)
    (list : BtfList Btf) :
    loadAllKmodBtfs env (.ok (textOf (lines.map ModuleLine.text))) list =
      (0, { list, called := [] }) := by
  have hlines : getlines (textOf (lines.map ModuleLine.text)) = lines.map ModuleLine.text := by
    apply getlines_textOf
    intro line hline
    obtain ⟨l, -, rfl⟩ := List.mem_map.mp hline
    exact joinWords_noNewline _ _
  unfold loadAllKmodBtfs
  dsimp only
  rw [hlines, loadLines_skip]

theorem considered_nil (env : ModuleBtfs Btf) (btf : Btf) :
    Considered env btf [] { list := .ofVmlinux btf, called := [] } := by
  constructor
  · rfl
  · intro name hname b
    rw [BtfList.find_ofVmlinux, if_neg hname]
    simp

/-- **The modules of `/proc/modules` are considered exactly if there are none.** -/
theorem modules_considered_iff (env : ModuleBtfs Btf) (btf : Btf) (lines : List ModuleLine) :
    Considered env btf (lines.map fun l => l.name.chars)
        (loadAllKmodBtfs env (.ok (textOf (lines.map ModuleLine.text))) (.ofVmlinux btf)).2 ↔
      lines = [] := by
  rw [loadAllKmodBtfs_skips]
  constructor
  · intro h
    exact List.map_eq_nil_iff.mp h.called.symm
  · intro h
    rw [h]
    exact considered_nil env btf

theorem solid_of_all {s : List Char} (h : s.all (fun c => !isSpace c) = true) :
    ∀ c ∈ s, isSpace c = false := by
  intro c hc
  simpa using List.all_eq_true.mp h c hc

/-- A module as the kernel lists it. -/
def nfTables : ModuleLine where
  name := ⟨"nf_tables".toList, by decide, solid_of_all (by decide)⟩
  size := ⟨"249856".toList, by decide, solid_of_all (by decide)⟩
  refcount := ⟨"0".toList, by decide, solid_of_all (by decide)⟩
  deps := ⟨"-".toList, by decide, solid_of_all (by decide)⟩
  state := ⟨"Live".toList, by decide, solid_of_all (by decide)⟩
  address := ⟨"0x0000000000000000".toList, by decide, solid_of_all (by decide)⟩
  taints := none

/-- The BTF of every module exists and loads. -/
def anyBtf : ModuleBtfs Unit where
  moduleBtfExists _ := true
  btfLoadModuleBtf _ _ := .ok ()

/-- A module with a BTF that exists and loads, and whose line the kernel wrote: it is
not considered. -/
theorem nfTables_skipped :
    let s := (loadAllKmodBtfs anyBtf
      (.ok "nf_tables 249856 0 - Live 0x0000000000000000\n".toList) (.ofVmlinux ())).2
    s.called = [] ∧ s.list.find "nf_tables".toList = none ∧
      ¬ Considered anyBtf () ["nf_tables".toList] s := by
  have htext : "nf_tables 249856 0 - Live 0x0000000000000000\n".toList =
      textOf ([nfTables].map ModuleLine.text) := by decide
  intro s
  have hs : s = { list := .ofVmlinux (), called := [] } :=
    (congrArg (fun text => (loadAllKmodBtfs anyBtf (.ok text) (.ofVmlinux ())).2) htext).trans
      (congrArg Prod.snd (loadAllKmodBtfs_skips anyBtf [nfTables] (.ofVmlinux ())))
  rw [hs]
  refine ⟨rfl, by decide, fun h => ?_⟩
  cases h.called

/-! ## Any file -/

/-- The first field of a line that has two, with nothing before and behind them. -/
def firstOfTwo (line : List Char) : Option (List Char) :=
  let name := line.takeWhile fun c => !isSpace c
  let field := (line.dropWhile fun c => !isSpace c).dropWhile isSpace
  if name ≠ [] ∧ field ≠ [] ∧ field.all (fun c => !isSpace c) then some name else none

/-- The modules that the lines name, as the C strings that `process_module` gets. -/
def modulesOf (lines : List (List Char)) : List (List Char) :=
  lines.filterMap fun line => (firstOfTwo line).map cStr

/-- The BTF of the module exists and loads, with `btf` below it. -/
def ModuleBtfs.loads (env : ModuleBtfs Btf) (btf : Btf) (name : List Char) : Bool :=
  env.moduleBtfExists name && (env.btfLoadModuleBtf name btf).toBool

/-- The modules are considered, the kernel's own BTF is still there, and one object was
loaded for each module that has a BTF. -/
structure Listed (env : ModuleBtfs Btf) (btf : Btf) (names : List (List Char))
    (s : KmodState Btf) : Prop extends Considered env btf names s where
  kernel : s.list.vmlinuxBtf = btf
  loads : s.list.loads = vmlinux :: names.filter (env.loads btf)

/-- Where a run of letters of a kind ends there is none of them. -/
theorem head_dropWhile (p : Char → Bool) (line : List Char) :
    ∀ c ∈ (line.dropWhile p).head?, p c = false := by
  intro c hc
  have h := List.head?_dropWhile_not p line
  rwa [hc] at h

/-- The pattern matches the lines of two fields, and captures the first. -/
theorem fullMatch_firstOfTwo (line : List Char) :
    moduleRegex.fullMatch line = (firstOfTwo line).map fun name => [name] := by
  have hname : ∀ c ∈ line.takeWhile fun c => !isSpace c, (!isSpace c) = true :=
    fun c hc => List.mem_takeWhile_imp (p := fun c => !isSpace c) hc
  have hsplit := List.takeWhile_append_dropWhile (p := fun c => !isSpace c) (l := line)
  have hrest := head_dropWhile (fun c => !isSpace c) line
  unfold firstOfTwo
  generalize line.takeWhile (fun c => !isSpace c) = name at *
  generalize line.dropWhile (fun c => !isSpace c) = rest at *
  have hblanks : ∀ c ∈ rest.takeWhile isSpace, isSpace c = true :=
    fun c hc => List.mem_takeWhile_imp hc
  have hsplit' := List.takeWhile_append_dropWhile (p := isSpace) (l := rest)
  have hfield := head_dropWhile isSpace rest
  generalize rest.takeWhile isSpace = blanks at *
  generalize rest.dropWhile isSpace = field at *
  dsimp only
  split
  next h =>
    obtain ⟨hne, hfne, hall⟩ := h
    have hsolid := solid_of_all hall
    have hbne : blanks ≠ [] := by
      rintro rfl
      obtain ⟨c, cs, rfl⟩ := List.exists_cons_of_ne_nil hfne
      rw [List.nil_append] at hsplit'
      subst hsplit'
      have hspace := hrest c rfl
      rw [hsolid c List.mem_cons_self] at hspace
      cases hspace
    refine fullMatch_moduleRegex_iff.mpr ⟨name, blanks, field, ?_, ⟨hne, fun c hc => ?_⟩,
      ⟨hbne, hblanks⟩, ⟨hfne, hsolid⟩, rfl⟩
    · rw [List.append_assoc, hsplit', hsplit]
    · simpa using hname c hc
  next h =>
    rw [Option.map_none, Regex.fullMatch_eq_none_iff]
    intro caps hmatch
    obtain ⟨u, b, v, hline, ⟨hune, hu⟩, ⟨hbne, hb⟩, ⟨hvne, hv⟩, -⟩ :=
      moduleRegex_matches_iff.mp hmatch
    -- the line is cut in the same places
    rw [← hsplit, List.append_assoc] at hline
    obtain ⟨hnu, hrv⟩ := cut_unique hname (fun c hc => show (!isSpace c) = true by
      rw [hu c hc]; rfl) hrest (fun c hc => show (!isSpace c) = false by
      rw [head_of_all hbne hb c hc]; rfl) hline
    rw [← hsplit'] at hrv
    have hvhead : ∀ c ∈ v.head?, isSpace c = false := by
      rw [← List.append_nil v]
      exact head_of_all hvne hv
    obtain ⟨-, hfv⟩ := cut_unique hblanks hb hfield hvhead hrv
    rw [← hnu] at hune
    rw [← hfv] at hvne hv
    refine h ⟨hune, hvne, List.all_eq_true.mpr fun c hc => ?_⟩
    rw [hv c hc]
    rfl

/-- A round of the loop calls `process_module` for the first field of a line that has
two, and does nothing on any other line. -/
theorem loadLine_eq (env : ModuleBtfs Btf) (s : KmodState Btf) (line : List Char) :
    loadLine env s line = (firstOfTwo line).elim s (s.process env) := by
  unfold loadLine
  rw [fullMatch_firstOfTwo]
  rcases firstOfTwo line with _ | name
  · rfl
  · rfl

/-- A call of `process_module` loads the BTF if it exists and loads. -/
theorem process_list (env : ModuleBtfs Btf) (s : KmodState Btf) (name : List Char) :
    (∃ b, env.moduleBtfExists (cStr name) = true ∧
        env.btfLoadModuleBtf (cStr name) s.list.vmlinuxBtf = .ok b ∧
        (s.process env name).list = s.list.insert (cStr name) b) ∨
      env.loads s.list.vmlinuxBtf (cStr name) = false ∧ (s.process env name).list = s.list := by
  unfold KmodState.process processModule ModuleBtfs.loads
  by_cases hexists : env.moduleBtfExists (cStr name) = true
  · rw [if_pos hexists]
    rcases hload : env.btfLoadModuleBtf (cStr name) s.list.vmlinuxBtf with err | b
    · exact Or.inr ⟨Bool.and_false _, rfl⟩
    · exact Or.inl ⟨b, hexists, rfl, rfl⟩
  · rw [if_neg hexists]
    exact Or.inr ⟨by rw [Bool.not_eq_true] at hexists; rw [hexists]; rfl, rfl⟩

/-- One call of `process_module` does what it should. -/
theorem Listed.process (h : Listed env btf names s) (hname : cStr name ≠ vmlinux) :
    Listed env btf (names ++ [cStr name]) (s.process env name) := by
  have hcalled : (s.process env name).called = names ++ [cStr name] := by
    unfold KmodState.process
    rw [h.called]
  have hloads : (names ++ [cStr name]).filter (env.loads btf) = names.filter (env.loads btf) ++
      bif env.loads btf (cStr name) then [cStr name] else [] := by
    rw [List.filter_append, List.filter_singleton]
  rcases process_list env s name with ⟨b, hexists, hload, hlist⟩ | ⟨hno, hlist⟩
  · rw [h.kernel] at hload
    have hyes : env.loads btf (cStr name) = true := by
      unfold ModuleBtfs.loads
      rw [hexists, hload]
      rfl
    refine ⟨⟨hcalled, fun n hn c => ?_⟩, ?_, ?_⟩
    · rw [hlist, BtfList.find_insert, List.mem_append, List.mem_singleton]
      by_cases hsame : n = cStr name
      · rw [if_pos hsame, hsame, hload]
        simp [hexists]
      · rw [if_neg hsame, h.loaded n hn c]
        simp [hsame]
    · -- no module takes the place of the kernel's own BTF
      have hfind := (s.process env name).list.find_vmlinux
      rw [hlist, BtfList.find_insert, if_neg (Ne.symm hname), BtfList.find_vmlinux,
        h.kernel] at hfind
      rw [hlist]
      exact (Option.some.inj hfind).symm
    · rw [hlist, hloads, hyes, ← List.cons_append, ← h.loads]
      rfl
  · rw [h.kernel] at hno
    refine ⟨⟨hcalled, fun n hn c => ?_⟩, by rw [hlist, h.kernel], ?_⟩
    · rw [hlist, h.loaded n hn c, List.mem_append, List.mem_singleton]
      constructor
      · rintro ⟨hmem, hrest⟩
        exact ⟨Or.inl hmem, hrest⟩
      · rintro ⟨hmem | rfl, hexists, hload⟩
        · exact ⟨hmem, hexists, hload⟩
        · unfold ModuleBtfs.loads at hno
          rw [hexists, hload] at hno
          cases hno
    · rw [hlist, hloads, hno, cond_false, List.append_nil, h.loads]

/-- All the lines, one after the other. -/
theorem Listed.lines {lines : List (List Char)} (h : Listed env btf names s)
    (hnames : vmlinux ∉ modulesOf lines) :
    Listed env btf (names ++ modulesOf lines) (lines.foldl (loadLine env) s) := by
  induction lines generalizing names s with
  | nil =>
    rw [show modulesOf [] = [] from rfl, List.append_nil]
    exact h
  | cons line lines ih =>
    rw [List.foldl_cons, loadLine_eq]
    unfold modulesOf at hnames ⊢
    rcases hline : firstOfTwo line with _ | name
    · rw [List.filterMap_cons_none (by rw [hline]; rfl)] at hnames ⊢
      exact ih h hnames
    · rw [List.filterMap_cons_some (b := cStr name) (by rw [hline]; rfl)] at hnames ⊢
      obtain ⟨hne, hrest⟩ := not_or.mp (List.mem_cons.not.mp hnames)
      rw [List.append_cons]
      exact ih (h.process (Ne.symm hne)) hrest

/-- The calls, one for each line of two fields, in the order of the lines. -/
theorem called_lines (env : ModuleBtfs Btf) (lines : List (List Char)) (s : KmodState Btf) :
    (lines.foldl (loadLine env) s).called = s.called ++ modulesOf lines := by
  induction lines generalizing s with
  | nil => exact (List.append_nil _).symm
  | cons line lines ih =>
    rw [List.foldl_cons, ih, loadLine_eq]
    unfold modulesOf
    rcases hline : firstOfTwo line with _ | name
    · rw [List.filterMap_cons_none (by rw [hline]; rfl)]
      rfl
    · rw [List.filterMap_cons_some (b := cStr name) (by rw [hline]; rfl), List.append_cons]
      rfl

theorem listed_nil (env : ModuleBtfs Btf) (btf : Btf) :
    Listed env btf [] { list := .ofVmlinux btf, called := [] } where
  toConsidered := considered_nil env btf
  kernel := Option.some.inj ((BtfList.find_vmlinux _).symm.trans
    ((BtfList.find_ofVmlinux btf vmlinux).trans (if_pos rfl)))
  loads := rfl

/-- **What is loaded from any file.** `process_module` is called for the first fields of the
lines that have two, in their order and as often as they come; and if none of them is
named like the kernel, the list has the BTFs of those that have one, loaded over the
kernel's, an object for each time that a module came. -/
theorem modules_law (env : ModuleBtfs Btf) (btf : Btf) (text : List Char) :
    let s := (loadAllKmodBtfs env (.ok text) (.ofVmlinux btf)).2
    s.called = modulesOf (getlines text) ∧
      (vmlinux ∉ modulesOf (getlines text) →
        Listed env btf (modulesOf (getlines text)) s) :=
  ⟨called_lines env _ _, fun hno => (listed_nil env btf).lines hno⟩

/-- A file with lines of both kinds. -/
def vethFile : List Char :=
  "nf_tables 249856 0 - Live 0x0000000000000000\nveth 12288\n".toList

/-- The module whose line has two fields is loaded, and the other is not. -/
theorem modules_law_veth :
    let s := (loadAllKmodBtfs anyBtf (.ok vethFile) (.ofVmlinux ())).2
    s.called = ["veth".toList] ∧ s.list.loads = [vmlinux, "veth".toList] ∧
      s.list.find "nf_tables".toList = none := by
  have hnames : modulesOf (getlines vethFile) = ["veth".toList] := rfl
  obtain ⟨hcalled, hlisted⟩ := modules_law anyBtf () vethFile
  rw [hnames] at hcalled hlisted
  have h := hlisted (by decide)
  refine ⟨hcalled, h.loads, Option.eq_none_iff_forall_ne_some.mpr fun b hb => ?_⟩
  exact absurd ((h.loaded _ (by decide) b).mp hb).1 (by decide)

end SkbTracer.Symdb
