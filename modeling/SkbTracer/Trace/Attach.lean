import SkbTracer.Kprobe.Event
import SkbTracer.Symdb.SkbFuncs
import SkbTracer.Trace.Links

/-!
# What `main` attaches

`main` goes through the list of functions, looks up where each takes its sk_buff, and
attaches the program for that position. What cannot be attached is passed over, and
counted out: with no function attached `main` gives up.

- `attachLoop_eq`: the calls of the loop are a history of `LinkMgr`, so what is known of
  every such history is known of the loop.
- `attachLoop_complete`: the names in the list differ, so no function is attached twice and
  the record has every link. The way to lose one that `attach_skb_func` has is not taken
  from here.
- `attached_functions`: which links there are after the loop, of which programs, and that
  all of them are destroyed at the end.
- `probe_reads_skb`: from a link to the program that runs, and from that to the register it
  reads: of a call of the function it is the argument that points to the sk_buff.

A function is `Attachable` if there is a program for its position, of which there are
five, and if libbpf agrees. What libbpf says of a function is a parameter, with nothing
assumed about it. For the last theorem the list is the one that `SymdbMgr` found in the
BTFs (`skb_funcs_iff`), and a call has its arguments in the registers of the x86-64 calling
convention, as `PT_REGS_PARM1` to `PT_REGS_PARM5` read them.
-/

namespace SkbTracer.Trace

open SkbTracer.Symdb
open SkbTracer.Lib (OrdMap Balanced Acyclic Mem Res)
open SkbTracer.Kprobe
open SkbTracer.Bpf (EbpfState Helper)

/-! ## The code -/

section

variable (skbFuncList : OrdMap (List Char) SkbFunc) (libbpf : List Char → Int)

/-- The body of the loop in `main`. `libbpf` is what `bpf_program__attach_kprobe` says of a
function: 0 if there is a link. -/
def attachOne (s : LinkMgr × Nat) (func : List Char) : LinkMgr × Nat :=
  let (ret, skbParamPos) := getSkbFuncParamPos skbFuncList func
  if ret ≠ 0 then s
  else
    let (mgr, err) := attachSkbFunc s.1 (.ofList func) skbParamPos (libbpf func)
    if err ≠ 0 then (mgr, s.2) else (mgr, s.2 + 1)

/-- The loop, and `attached_count`. -/
def attachLoop (list : List (List Char)) : LinkMgr × Nat :=
  list.foldl (attachOne skbFuncList libbpf) (.init, 0)

/-! ## What is to be attached -/

/-- There is a program for the position, and libbpf agrees. -/
def Attachable (f : List Char) : Prop :=
  (progMappingList.lookup (getSkbFuncParamPos skbFuncList f).2).isSome ∧ libbpf f = 0

instance (f : List Char) : Decidable (Attachable skbFuncList libbpf f) :=
  inferInstanceAs (Decidable (_ ∧ _))

/-- The calls of the loop, the last one first. -/
def attachOps (list : List (List Char)) : List LinkOp :=
  (list.map fun f => .attach (.ofList f) (getSkbFuncParamPos skbFuncList f).2 (libbpf f)).reverse

/-- The links after the loop: those of the functions that can be attached, each of the
program for its position, all destroyed once at the end; and there are as many as were
counted. -/
structure AttachedAll (list : List (List Char)) (s : LinkMgr × Nat) : Prop where
  names : ∀ f, String.ofList f ∈ s.1.linkMappingList.keys ↔
    f ∈ list ∧ Attachable skbFuncList libbpf f
  progs : ∀ f link, s.1.linkMappingList.find (String.ofList f) = some link →
    link.skbFunc = String.ofList f ∧
      progMappingList.lookup (getSkbFuncParamPos skbFuncList f).2 = some link.prog
  count : s.2 = s.1.linkMappingList.keys.length
  released : Balanced (destroyLinks s.1).log

end

/-! ## The loop as a history -/

variable {m : OrdMap (List Char) SkbFunc} {libbpf : List Char → Int} {list : List (List Char)}
  {past : List LinkOp}

theorem getSkbFuncParamPos_found {f : List Char} (h : f ∈ m.keys) :
    (getSkbFuncParamPos m f).1 = 0 := by
  obtain ⟨sf, hsf⟩ := OrdMap.mem_keys_iff.mp h
  unfold getSkbFuncParamPos
  rw [hsf]

theorem attachOps_cons (f : List Char) (list : List (List Char)) :
    attachOps m libbpf (f :: list) ++ past = attachOps m libbpf list ++
      .attach (.ofList f) (getSkbFuncParamPos m f).2 (libbpf f) :: past := by
  unfold attachOps
  rw [List.map_cons, List.reverse_cons, List.append_assoc]
  rfl

theorem attached_attach (f : List Char) : attached (.attach (.ofList f)
      (getSkbFuncParamPos m f).2 (libbpf f) :: past) =
    if Attachable m libbpf f then .ofList f :: attached past else attached past := rfl

theorem attachOne_found {f : List Char} (hf : f ∈ m.keys) (s : LinkMgr × Nat) :
    attachOne m libbpf s f =
      let r := attachSkbFunc s.1 (.ofList f) (getSkbFuncParamPos m f).2 (libbpf f)
      if r.2 ≠ 0 then (r.1, s.2) else (r.1, s.2 + 1) := by
  have hfound : getSkbFuncParamPos m f = (0, (getSkbFuncParamPos m f).2) :=
    Prod.ext (getSkbFuncParamPos_found hf) rfl
  unfold attachOne
  rw [hfound]
  rfl

/-- One round makes one call, and counts it if it returned a link. -/
theorem attachOne_eq {f : List Char} (hf : f ∈ m.keys) (past : List LinkOp) :
    let past' := .attach (.ofList f) (getSkbFuncParamPos m f).2 (libbpf f) :: past
    attachOne m libbpf (linksAfter past, (attached past).length) f =
      (linksAfter past', (attached past').length) := by
  have hstep : ∀ pos err, linksAfter (.attach (.ofList f) pos err :: past) =
      (attachSkbFunc (linksAfter past) (.ofList f) pos err).1 := fun _ _ => rfl
  dsimp only
  rw [attachOne_found hf, attached_attach, hstep]
  by_cases hok : Attachable m libbpf f
  · obtain ⟨prog, hprog⟩ := Option.isSome_iff_exists.mp hok.1
    rw [if_pos hok]
    unfold attachSkbFunc
    rw [hprog]
    simp [hok.2]
  · rw [if_neg hok]
    unfold attachSkbFunc
    rcases hprog : progMappingList.lookup (getSkbFuncParamPos m f).2 with _ | prog
    · rfl
    · have herr : libbpf f ≠ 0 := fun herr => hok ⟨by rw [hprog]; rfl, herr⟩
      simp [herr]

/-- **The loop is a history.** The links after it are those after its calls, and it has
counted the links returned. -/
theorem attachLoop_eq (h : ∀ f ∈ list, f ∈ m.keys) :
    attachLoop m libbpf list = (linksAfter (attachOps m libbpf list),
      (attached (attachOps m libbpf list)).length) := by
  have hfold : ∀ past, list.foldl (attachOne m libbpf) (linksAfter past, (attached past).length) =
      (linksAfter (attachOps m libbpf list ++ past),
        (attached (attachOps m libbpf list ++ past)).length) := by
    induction list with
    | nil => exact fun past => rfl
    | cons f list ih =>
      intro past
      rw [List.foldl_cons, attachOne_eq (h f List.mem_cons_self), attachOps_cons,
        ih fun g hg => h g (List.mem_cons_of_mem _ hg)]
  have hall := hfold []
  rw [List.append_nil] at hall
  exact hall

/-! ## No function twice -/

/-- The functions attached are those of the list that can be, the last first. -/
theorem attached_attachOps (m : OrdMap (List Char) SkbFunc) (libbpf : List Char → Int)
    (list : List (List Char)) (past : List LinkOp) :
    attached (attachOps m libbpf list ++ past) =
      ((list.filter fun f => Attachable m libbpf f).map String.ofList).reverse ++
        attached past := by
  induction list generalizing past with
  | nil => rfl
  | cons f list ih =>
    rw [attachOps_cons, ih, attached_attach, List.filter_cons]
    by_cases hf : Attachable m libbpf f
    · simp [hf]
    · simp [hf]

/-- Attaching alone is careful if no function gets two links. -/
theorem careful_of_attaches (h : ∀ op ∈ past, ∃ f pos err, op = .attach f pos err)
    (hn : (attached past).Nodup) : Careful past := by
  induction past with
  | nil => trivial
  | cons op past ih =>
    have h' : ∀ op ∈ past, ∃ f pos err, op = .attach f pos err :=
      fun op hop => h op (List.mem_cons_of_mem _ hop)
    obtain ⟨f, pos, err, rfl⟩ := h op List.mem_cons_self
    rw [attached] at hn
    split at hn
    next =>
      obtain ⟨hnew, hn⟩ := List.nodup_cons.mp hn
      exact ⟨fun _ => hnew, ih h' hn⟩
    next hno => exact ⟨fun hok => absurd hok hno, ih h' hn⟩

/-- So the loop attaches no function twice, if the list names none twice. -/
theorem attachOps_careful (hn : list.Nodup) : Careful (attachOps m libbpf list) := by
  apply careful_of_attaches
  · intro op hop
    obtain ⟨f, -, rfl⟩ := List.mem_map.mp (List.mem_reverse.mp hop)
    exact ⟨_, _, _, rfl⟩
  · have hattached := attached_attachOps m libbpf list []
    rw [List.append_nil] at hattached
    rw [hattached]
    have hnames : ((list.filter fun f => Attachable m libbpf f).map String.ofList).Nodup :=
      (hn.filter _).map fun _ _ => String.ofList_injective
    simpa [attached] using hnames

theorem attachLoop_complete (m : OrdMap (List Char) SkbFunc) (libbpf : List Char → Int)
    (hn : list.Nodup) :
    Complete (attachOps m libbpf list) (linksAfter (attachOps m libbpf list)) :=
  after_complete (attachOps_careful hn)

/-! ## The links -/

/-- A link that was returned came of a call for its function, with the program for the
position that was asked for. -/
theorem mem_live {link : Link} (h : link ∈ live past) : ∃ pos,
    .attach link.skbFunc pos 0 ∈ past ∧ progMappingList.lookup pos = some link.prog := by
  induction past with
  | nil => cases h
  | cons op past ih =>
    have hold : link ∈ live past → ∃ pos, .attach link.skbFunc pos 0 ∈ op :: past ∧
        progMappingList.lookup pos = some link.prog := by
      intro hlink
      obtain ⟨pos, hmem, hprog⟩ := ih hlink
      exact ⟨pos, List.mem_cons_of_mem _ hmem, hprog⟩
    cases op with
    | attach f pos err =>
      by_cases hok : (progMappingList.lookup pos).isSome ∧ err = 0
      · obtain ⟨hpos, rfl⟩ := hok
        obtain ⟨prog, hprog⟩ := Option.isSome_iff_exists.mp hpos
        rw [live_attach hprog] at h
        rcases List.mem_cons.mp h with rfl | h
        · exact ⟨pos, List.mem_cons_self, hprog⟩
        · exact hold h
      · rw [live_attach_failed hok] at h
        exact hold h
    | detach f err => exact hold h

/-- **Exactly the functions that can be attached get a link**, each of the program for its
position, and every link is destroyed once. -/
theorem attachLoop_attachedAll {regex : List Char → Option (List Char → Bool)}
    {filter : List Char} {r : Int} (libbpf : List Char → Int)
    (hlist : getSkbFuncList regex m filter = some (r, list)) :
    AttachedAll m libbpf list (attachLoop m libbpf list) := by
  obtain ⟨-, hsub, -⟩ := getSkbFuncList_eq hlist
  have ht := after_tallied (attachOps m libbpf list)
  have hc := attachLoop_complete m libbpf (hsub.nodup m.keys_nodup)
  have hattached := attached_attachOps m libbpf list []
  rw [List.append_nil, show attached [] = [] from rfl, List.append_nil] at hattached
  have hperm := hc.perm ht
  have hkeys : (attached (attachOps m libbpf list)).Perm
      (linksAfter (attachOps m libbpf list)).linkMappingList.keys := by
    have := hperm.map Link.skbFunc
    rwa [live_names, ht.recorded_names] at this
  rw [attachLoop_eq fun f hf => hsub.subset hf]
  constructor
  · intro f
    rw [← hkeys.mem_iff, hattached, List.mem_reverse,
      List.mem_map_of_injective fun _ _ => String.ofList_injective]
    simp
  · intro f link hlink
    obtain ⟨hmem, hname⟩ := ht.recorded _ _ hlink
    refine ⟨hname, ?_⟩
    obtain ⟨pos, hop, hprog⟩ := mem_live hmem
    rw [hname] at hop
    obtain ⟨g, -, heq⟩ := List.mem_map.mp (List.mem_reverse.mp hop)
    obtain ⟨hg, hpos, -⟩ := LinkOp.attach.inj heq
    obtain rfl := String.ofList_injective hg
    rw [hpos]
    exact hprog
  · exact hkeys.length_eq
  · exact ht.balanced_iff.mpr hperm

/-- **What `main` attaches.** For every list that `get_skb_func_list` gives, a function has
a link after the loop exactly if it is in the list, one of the five programs reads its
parameter and libbpf agrees; the link is of that program, and is destroyed once at the
end. Nothing is attached, and `main` gives up, exactly if this is true of no function. -/
theorem attached_functions (regex : List Char → Option (List Char → Bool))
    (libbpf : List Char → Int) (m : OrdMap (List Char) SkbFunc) (filter : List Char) {r : Int}
    (hlist : getSkbFuncList regex m filter = some (r, list)) :
    AttachedAll m libbpf list (attachLoop m libbpf list) ∧
      ((attachLoop m libbpf list).2 = 0 ↔ ∀ f ∈ list, ¬ Attachable m libbpf f) := by
  have hall := attachLoop_attachedAll libbpf hlist
  refine ⟨hall, ?_⟩
  rw [hall.count, List.length_eq_zero_iff, List.eq_nil_iff_forall_not_mem]
  constructor
  · intro hnone f hf hok
    exact hnone _ ((hall.names f).mpr ⟨hf, hok⟩)
  · intro hnone name hname
    have hf := (hall.names name.toList).mp (by rwa [String.ofList_toList])
    exact hnone _ hf.1 hf.2

/-- libbpf refuses `ip_send_skb`. -/
def refuseSend (f : List Char) : Int := if f = "ip_send_skb".toList then -22 else 0

/-- Of the two functions `kfree_skb` gets a link, and the one that libbpf refuses does not. -/
theorem attached_functions_free :
    let s := attachLoop freeFuncs refuseSend ["ip_send_skb".toList, "kfree_skb".toList]
    s.1.recorded = [⟨"kfree_skb", "kprobe_skb_1", 0⟩] ∧
      Attachable freeFuncs refuseSend "kfree_skb".toList ∧
      "ip_send_skb" ∉ s.1.linkMappingList.keys := by
  have hlist : getSkbFuncList (fun _ => none) freeFuncs [] =
      some (0, ["ip_send_skb".toList, "kfree_skb".toList]) := rfl
  obtain ⟨hall, -⟩ := attached_functions (fun _ => none) refuseSend freeFuncs [] hlist
  refine ⟨rfl, ((hall.names "kfree_skb".toList).mp (by decide)).2, fun hin => ?_⟩
  exact absurd ((hall.names "ip_send_skb".toList).mp hin).2 (by decide)

/-! ## What the programs read -/

/-- What a program does when its probe is hit. -/
abbrev Prog := PtRegs → ProbeEnv → Option SkbEvent → Nat → (Nat → Helper) → EbpfState →
  Res EbpfState (Int × Option SkbEvent)

section

variable (K : KernelLayout) (mem : Mem) (cfg : SkbConfig) (p : Filters)

/-- `skel->progs`. -/
def skelProgs : List (String × Prog) :=
  [("kprobe_skb_1", kprobeSkb1 K mem cfg p), ("kprobe_skb_2", kprobeSkb2 K mem cfg p),
    ("kprobe_skb_3", kprobeSkb3 K mem cfg p), ("kprobe_skb_4", kprobeSkb4 K mem cfg p),
    ("kprobe_skb_5", kprobeSkb5 K mem cfg p)]

end

/-- A call of a function, as its first instruction finds it: the first arguments are in
the registers for them. -/
structure Call where
  args : List (BitVec 64)
  ctx : PtRegs
  inRegs : ∀ (k : Nat) a, args[k]? = some a → k < 5 →
    [ctx.parm1, ctx.parm2, ctx.parm3, ctx.parm4, ctx.parm5][k]? = some a

variable {K : KernelLayout} {mem : Mem} {cfg : SkbConfig} {p : Filters} {pos : Int} {prog : String}

/-- The program for a position reads the argument there. -/
theorem prog_reads (h : progMappingList.lookup pos = some prog) : ∃ (k : Nat) (run : Prog),
    pos = k ∧ (skelProgs K mem cfg p).lookup prog = some run ∧
      ∀ (call : Call) a, call.args[k]? = some a → run call.ctx = kprobeSkb K mem cfg p a := by
  have hreads : ∀ (k : Nat) (parm : PtRegs → BitVec 64), k < 5 →
      (∀ ctx : PtRegs,
        [ctx.parm1, ctx.parm2, ctx.parm3, ctx.parm4, ctx.parm5][k]? = some (parm ctx)) →
      ∀ (call : Call) a, call.args[k]? = some a →
        addKprobe K mem cfg p parm call.ctx = kprobeSkb K mem cfg p a := by
    intro k parm hk hparm call a ha
    have hreg := call.inRegs k a ha hk
    rw [hparm] at hreg
    obtain rfl := Option.some.inj hreg
    rfl
  have hmem : (pos, prog) ∈ progMappingList := (OrdMap.lookup_eq_some_iff (by decide)).mp h
  simp only [progMappingList, List.mem_cons, Prod.mk.injEq, List.not_mem_nil, or_false] at hmem
  rcases hmem with ⟨rfl, rfl⟩ | ⟨rfl, rfl⟩ | ⟨rfl, rfl⟩ | ⟨rfl, rfl⟩ | ⟨rfl, rfl⟩
  · exact ⟨0, kprobeSkb1 K mem cfg p, rfl, rfl, hreads 0 _ (by decide) fun _ => rfl⟩
  · exact ⟨1, kprobeSkb2 K mem cfg p, rfl, rfl, hreads 1 _ (by decide) fun _ => rfl⟩
  · exact ⟨2, kprobeSkb3 K mem cfg p, rfl, rfl, hreads 2 _ (by decide) fun _ => rfl⟩
  · exact ⟨3, kprobeSkb4 K mem cfg p, rfl, rfl, hreads 3 _ (by decide) fun _ => rfl⟩
  · exact ⟨4, kprobeSkb5 K mem cfg p, rfl, rfl, hreads 4 _ (by decide) fun _ => rfl⟩

/-- The links that a run of `main` may have. -/
theorem AttachedAll.prog_of_found {list : List (List Char)} {s : LinkMgr × Nat}
    {avail : List Char → Prop} {ps : List Place} {m : OrdMap (List Char) SkbFunc}
    (h : AttachedAll m libbpf list s) (hkeep : KeepsLast avail ps m) (hlist : list ⊆ m.keys)
    {f : List Char} {link : Link}
    (hlink : s.1.linkMappingList.find (String.ofList f) = some link) :
    ∃ sf, sf.funcName = f ∧ FoundLast avail ps sf ∧
      progMappingList.lookup sf.skbPos = some link.prog := by
  have hin : String.ofList f ∈ s.1.linkMappingList.keys := OrdMap.mem_keys_iff.mpr ⟨link, hlink⟩
  obtain ⟨sf, rfl, hsf⟩ := hkeep.mem_keys_iff.mp (hlist ((h.names f).mp hin).1)
  have hprog := (h.progs _ _ hlink).2
  rw [hkeep.getSkbFuncParamPos hsf] at hprog
  exact ⟨sf, rfl, hsf, hprog⟩

/-- **The probe looks at the function's sk_buff.** Of every function with a link there is
a prototype in a BTF, the first of whose parameters that are pointers to an sk_buff,
with no wrapper around them, is the one that the linked program reads: on a call of the
function it does with this argument what `kprobe_skb` does. -/
theorem probe_reads_skb (lines : List AvailLine) (btfList : OrdMap (List Char) Symdb.Btf)
    (hacyclic : ∀ it ∈ btfList.entries, Acyclic (wrappedBy it.2)) :
    ∃ m, (∃ n, ∀ fuel, n ≤ fuel → getSkbFuncFromBtfs
        (some (textOf (lines.map AvailLine.text))) fuel btfList .empty = some m) ∧
      ∀ regex filter r list libbpf f link, getSkbFuncList regex m filter = some (r, list) →
        (attachLoop m libbpf list).1.linkMappingList.find (String.ofList f) = some link →
        ∃ sf, sf.funcName = f ∧
          FoundLast (fun f => f ∈ lines.map AvailLine.name) (places btfList) sf ∧
          ∃ (k : Nat) (run : Prog), sf.skbPos = k ∧
            (skelProgs K mem cfg p).lookup link.prog = some run ∧
            ∀ (call : Call) a, call.args[k]? = some a → run call.ctx = kprobeSkb K mem cfg p a := by
  obtain ⟨m, hrun, hkeep⟩ := skb_funcs_iff lines btfList hacyclic
  refine ⟨m, hrun, fun regex filter r list libbpf f link hlist hlink => ?_⟩
  have hall := attachLoop_attachedAll libbpf hlist
  obtain ⟨sf, hname, hsf, hprog⟩ :=
    hall.prog_of_found hkeep (getSkbFuncList_eq hlist).2.1.subset hlink
  exact ⟨sf, hname, hsf, prog_reads hprog⟩

/-- The program on the link of `ip_send_skb` looks at its second argument, and that is the
parameter which is found in the BTF. -/
theorem probe_reads_skb_send : ∃ sf : SkbFunc, sf.funcName = "ip_send_skb".toList ∧
    FoundLast (fun f => f ∈ freeLines.map AvailLine.name) (places freeBtfs) sf ∧
    sf.skbPos = 1 ∧ ∀ (call : Call) a, call.args[1]? = some a →
      kprobeSkb2 plainLayout (fun _ => none) ⟨0, 0, 0, false, false, false⟩ ⟨[], []⟩ call.ctx =
        kprobeSkb plainLayout (fun _ => none) ⟨0, 0, 0, false, false, false⟩ ⟨[], []⟩ a := by
  obtain ⟨m, ⟨n, hrun⟩, hreads⟩ := @probe_reads_skb plainLayout (fun _ => none)
    ⟨0, 0, 0, false, false, false⟩ ⟨[], []⟩ freeLines freeBtfs freeBtfs_acyclic
  obtain rfl := Option.some.inj ((hrun (n + 7) (by omega)).symm.trans (freeFuncs_found n))
  obtain ⟨sf, hname, hlast, k, run, hk, hprog, hcall⟩ := hreads (fun _ => none) [] 0
    ["ip_send_skb".toList, "kfree_skb".toList] (fun _ => 0) "ip_send_skb".toList
    ⟨"ip_send_skb", "kprobe_skb_2", 0⟩ rfl rfl
  cases hprog
  have hpos := freeFuncs_keeps.getSkbFuncParamPos hlast
  rw [hname] at hpos
  obtain rfl : 1 = k := Int.ofNat_inj.mp ((congrArg Prod.snd hpos).trans hk)
  exact ⟨sf, hname, hlast, hk, hcall⟩

end SkbTracer.Trace
