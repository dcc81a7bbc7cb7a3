import SkbTracer.Libc.Process

/-!
# `resolve_netns_and_ifname`

`parse_netns_spec` turns a specification into a namespace id, and for all but
`inode:` specifications leaves a descriptor of the namespace open, which the caller
closes. `resolve_ifname_in_netns` enters the namespace of that descriptor, looks the
interface up and goes back, unless it is the namespace the thread is in anyway.

The calls on the way can all fail. `parseNetnsSpec_spec` and
`resolveIfnameInNetns_spec` say what each function leaves open and where it leaves
the thread, whatever fails, and `resolve_discipline` puts them together:

- every descriptor that was opened is closed once, and no other one is, and the
  descriptors at the end are those of the start;
- the thread is in the namespace it started in, unless going back there failed, and then
  the result is false;
- with a result of true the index is that of the interface in the namespace that the
  specification names;
- with a result of false there is a message.

What a specification names is `specFile`, in the terms of the system and not of the code.
The lemmas with `_spec` in their names have one statement for each function of the source,
and every caller uses that and does not look inside. `switchNetns_spec` is where the
namespace is left and entered again; `Outcome` collects what the caller may rely on.
-/

namespace SkbTracer.Cfg

open SkbTracer.Libc

/-- `Options::args`. -/
structure Args where
  filterFunc : String
  filterMark : BitVec 32
  filterPcap : String
  filterIfname : String
  filterNetns : String
  filterIfindex : BitVec 32
  filterNetnsId : BitVec 32
  outputMeta : Bool
  outputTuple : Bool
  outputStack : Bool
  timestamp : String
  verbose : Nat
  deriving DecidableEq, Repr

/-- `parse_u32`. -/
def parseU32 (str : List Char) : Option (BitVec 32) :=
  if str = [] then none
  else
    let r := strtoul str
    if r.erange = true ∨ r.rest.length = str.length ∨ r.rest ≠ [] ∨ r.val > 2 ^ 32 - 1 then none
    else some (BitVec.ofNat 32 r.val)

/-- `open`, `fstat` and `static_cast<uint32_t>(st.st_ino)` in `parse_netns_spec`. -/
def openNetns (W : World) (path : List Char) (openErr statErr : String) :
    Sys (Except String (BitVec 32 × Int)) := do
  let netnsFd ← sysOpen W path
  if netnsFd < 0 then
    let errno ← getErrno
    pure (.error (openErr ++ W.strerror errno))
  else
    match ← sysFstat W netnsFd with
    | none =>
      sysClose W netnsFd
      let errno ← getErrno
      pure (.error (statErr ++ W.strerror errno))
    | some st => pure (.ok (st.ino.setWidth 32, netnsFd))

/-- What begins a specification by number. -/
def inodePrefix : List Char := "inode:".toList

/-- `parse_netns_spec(spec, netns_id, netns_fd, err)`. -/
def parseNetnsSpec (W : World) (spec : String) : Sys (Except String (BitVec 32 × Int)) :=
  if spec = "" ∨ spec = "/proc/self/ns/net" then
    openNetns W selfNetns "Failed to open current netns: " "Failed to stat current netns: "
  else if inodePrefix <+: spec.toList then
    match parseU32 (cStr (spec.toList.drop 6)) with
    | none => pure (.error ("Invalid netns inode format '" ++ spec ++ "'"))
    | some netnsId => pure (.ok (netnsId, -1))
  else if spec.toList.head? = some '/' then
    openNetns W (cStr spec.toList) ("Failed to open netns path '" ++ spec ++ "': ")
      ("Failed to stat netns path '" ++ spec ++ "': ")
  else
    pure (.error ("Invalid netns specifier '" ++ spec ++ "': must be path or 'inode:<inode>'"))

/-- `fstat(self_fd, &self_st) < 0 || fstat(target_netns_fd, &target_st) < 0`. -/
def statBoth (W : World) (selfFd targetNetnsFd : Int) : Sys (Option (Inode × Inode)) := do
  match ← sysFstat W selfFd with
  | none => pure none
  | some selfSt =>
    match ← sysFstat W targetNetnsFd with
    | none => pure none
    | some targetSt => pure (some (selfSt, targetSt))

/-- `setns`, unless the namespaces are the same. -/
def switchNetns (W : World) (isSameNetns : Bool) (fd : Int) : Sys Int :=
  if isSameNetns then pure 0 else sysSetns W fd

/-- The rest of `resolve_ifname_in_netns`, once the namespaces are known. -/
def lookupIfname (W : World) (ifname : String) (selfFd targetNetnsFd : Int) (isSameNetns : Bool) :
    Sys (Except String (BitVec 32)) := do
  let entered ← switchNetns W isSameNetns targetNetnsFd
  if entered < 0 then
    sysClose W selfFd
    let errno ← getErrno
    pure (.error ("Failed to switch to target netns: " ++ W.strerror errno))
  else
    let idx ← ifNametoindex W (cStr ifname.toList)
    let savedErrno ← getErrno
    let restored ← switchNetns W isSameNetns selfFd
    if restored < 0 then
      let restoreErrno ← getErrno
      sysClose W selfFd
      pure (.error ("Failed to restore original netns: " ++ W.strerror restoreErrno))
    else
      sysClose W selfFd
      if idx = 0 then
        pure (.error ("Interface '" ++ ifname ++ "' not found in target netns: " ++
          W.strerror savedErrno))
      else
        pure (.ok idx)

/-- `resolve_ifname_in_netns(ifname, target_netns_fd, ifindex, err)`. -/
def resolveIfnameInNetns (W : World) (ifname : String) (targetNetnsFd : Int) :
    Sys (Except String (BitVec 32)) :=
  if ifname = "" then pure (.error "Interface name cannot be empty")
  else if targetNetnsFd < 0 then
    pure (.error "inode netns specifier cannot be used with --filter-ifname")
  else do
    let selfFd ← sysOpen W selfNetns
    if selfFd < 0 then
      let errno ← getErrno
      pure (.error ("Failed to open current netns: " ++ W.strerror errno))
    else
      match ← statBoth W selfFd targetNetnsFd with
      | none =>
        sysClose W selfFd
        pure (.error "Failed to stat netns descriptors")
      | some (selfSt, targetSt) =>
        lookupIfname W ifname selfFd targetNetnsFd (decide (selfSt = targetSt))

/-- `if (netns_fd >= 0) close(netns_fd);` -/
def closeOpen (W : World) (netnsFd : Int) : Sys Unit :=
  if netnsFd ≥ 0 then sysClose W netnsFd else pure ()

/-- `Options::resolve_netns_and_ifname(args, err_msg)`: its result, and `args` and
`err_msg` as it leaves them. -/
def resolveNetnsAndIfname (W : World) (args : Args) (errMsg : String) :
    Sys (Bool × Args × String) :=
  if args.filterIfname = "" ∧ args.filterNetns = "" then
    pure (true, { args with filterNetnsId := 0, filterIfindex := 0 }, errMsg)
  else do
    match ← parseNetnsSpec W args.filterNetns with
    | .error err => pure (false, args, err)
    | .ok (netnsId, netnsFd) =>
      let args := { args with filterNetnsId := netnsId }
      if args.filterIfname ≠ "" then
        let ok ← resolveIfnameInNetns W args.filterIfname netnsFd
        closeOpen W netnsFd
        match ok with
        | .error err => pure (false, args, err)
        | .ok ifindex => pure (true, { args with filterIfindex := ifindex }, errMsg)
      else
        closeOpen W netnsFd
        pure (true, { args with filterIfindex := 0 }, errMsg)

/-! ## What a specification denotes -/

/-- The file of the namespace a specification names, if it is not an `inode:`
specification. -/
def specFile (W : World) (p : Proc) (spec : String) : Option Inode :=
  if spec = "" then some p.netns
  else if inodePrefix <+: spec.toList then none
  else some (fileNamed W p (cStr spec.toList))

/-- The namespace id a specification denotes, cut to 32 bits. -/
def specNetns (W : World) (p : Proc) (spec : String) : Option (BitVec 32) :=
  match specFile W p spec with
  | some f => some (f.ino.setWidth 32)
  | none => parseU32 (cStr (spec.toList.drop 6))

/-- The last namespace the thread has tried to enter is the one it started in, and
that failed. -/
def RestoreFailed (p p' : Proc) : Prop :=
  ∃ t, p'.netnsLog = p.netnsLog ++ t ++ [(some p.netns, false)]

variable {W : World} {p p' : Proc} {spec ifname : String}

/-- Two ways to name the namespace the thread is in. -/
theorem specFile_self (h : spec = "" ∨ spec = "/proc/self/ns/net") :
    specFile W p spec = some (fileNamed W p selfNetns) := by
  unfold specFile fileNamed
  rcases h with rfl | rfl
  · rw [if_pos rfl, if_pos rfl]
  · rw [if_neg (by decide), if_neg (by decide)]
    rfl

/-! ## The two functions it calls -/

/-- A file is opened and looked at: either one descriptor more is open, or everything is
as before and there is a message. -/
theorem openNetns_spec {path : List Char} {openErr statErr : String}
    {r : Except String (BitVec 32 × Int)} (ho : openErr ≠ "") (hs : statErr ≠ "")
    (h : openNetns W path openErr statErr p = (r, p')) :
    p'.netns = p.netns ∧ p'.netnsLog = p.netnsLog ∧
      ((∃ err, r = .error err ∧ err ≠ "" ∧ Keeps p p') ∨
        ∃ fd, r = .ok ((fileNamed W p path).ino.setWidth 32, fd) ∧ 0 ≤ fd ∧
          Opened p p' fd (fileNamed W p path)) := by
  unfold openNetns at h
  rcases hopen : sysOpen W path p with ⟨fd, p₁⟩
  obtain ⟨hn, hl, hcase⟩ := sysOpen_spec hopen
  simp only [Sys.bind_apply, hopen] at h
  by_cases hfd : fd < 0
  · rw [if_pos hfd] at h
    cases h
    rcases hcase with ⟨-, hk⟩ | ⟨h0, -⟩
    · exact ⟨hn, hl, Or.inl ⟨_, rfl, by simp [ho], hk⟩⟩
    · omega
  · rw [if_neg hfd] at h
    rcases hcase with ⟨h0, -⟩ | ⟨h0, hop⟩
    · exact absurd h0 hfd
    rcases hstat : sysFstat W fd p₁ with ⟨st, p₂⟩
    obtain ⟨hn', hl', hk, hst⟩ := sysFstat_spec hstat
    simp only [Sys.bind_apply, hstat] at h
    cases st with
    | none =>
      -- the descriptor is closed before the error is built
      cases h
      exact ⟨hn'.trans hn, hl'.trans hl, Or.inl ⟨_, rfl, by simp [hs], (hop.keeps hk).close⟩⟩
    | some f =>
      cases h
      rcases hst with hst | hst
      · cases hst
      · obtain rfl := Option.some.inj (hst.trans hop.get)
        exact ⟨hn'.trans hn, hl'.trans hl, Or.inr ⟨fd, rfl, h0, hop.keeps hk⟩⟩

/-- `parse_netns_spec` fails and has closed what it opened, or it leaves open the
descriptor it gives back, or it has opened none. -/
theorem parseNetnsSpec_spec {r : Except String (BitVec 32 × Int)}
    (h : parseNetnsSpec W spec p = (r, p')) :
    p'.netns = p.netns ∧ p'.netnsLog = p.netnsLog ∧
      ((∃ err, r = .error err ∧ err ≠ "" ∧ Keeps p p') ∨
        (∃ fd f, r = .ok (f.ino.setWidth 32, fd) ∧ 0 ≤ fd ∧ specFile W p spec = some f ∧
          Opened p p' fd f) ∨
        ∃ netnsId, r = .ok (netnsId, -1) ∧ specFile W p spec = none ∧
          specNetns W p spec = some netnsId ∧ Keeps p p') := by
  unfold parseNetnsSpec at h
  by_cases hself : spec = "" ∨ spec = "/proc/self/ns/net"
  · -- no specification, or the own file
    rw [if_pos hself] at h
    obtain ⟨hn, hl, herr | ⟨fd, hr, h0, hop⟩⟩ := openNetns_spec (by decide) (by decide) h
    · exact ⟨hn, hl, Or.inl herr⟩
    · exact ⟨hn, hl, Or.inr (Or.inl ⟨fd, _, hr, h0, specFile_self hself, hop⟩)⟩
  · rw [if_neg hself] at h
    have hne : spec ≠ "" := fun he => hself (Or.inl he)
    by_cases hinode : inodePrefix <+: spec.toList
    · rw [if_pos hinode] at h
      have hfile : specFile W p spec = none := by
        rw [specFile, if_neg hne, if_pos hinode]
      -- `inode:` opens nothing, so there is no descriptor to account for
      cases hid : parseU32 (cStr (spec.toList.drop 6)) with
      | none =>
        rw [hid] at h
        cases h
        exact ⟨rfl, rfl, Or.inl ⟨_, rfl, by simp, Keeps.of_eq rfl rfl⟩⟩
      | some netnsId =>
        rw [hid] at h
        cases h
        refine ⟨rfl, rfl, Or.inr (Or.inr ⟨netnsId, rfl, hfile, ?_, Keeps.of_eq rfl rfl⟩)⟩
        rw [specNetns, hfile, hid]
    · rw [if_neg hinode] at h
      by_cases hpath : spec.toList.head? = some '/'
      · rw [if_pos hpath] at h
        have hfile : specFile W p spec = some (fileNamed W p (cStr spec.toList)) := by
          rw [specFile, if_neg hne, if_neg hinode]
        obtain ⟨hn, hl, herr | ⟨fd, hr, h0, hop⟩⟩ := openNetns_spec (by simp) (by simp) h
        · exact ⟨hn, hl, Or.inl herr⟩
        · exact ⟨hn, hl, Or.inr (Or.inl ⟨fd, _, hr, h0, hfile, hop⟩)⟩
      · -- none of the forms: nothing has been opened
        rw [if_neg hpath] at h
        cases h
        exact ⟨rfl, rfl, Or.inl ⟨_, rfl, by simp, Keeps.of_eq rfl rfl⟩⟩

/-- Nothing is left open by looking at two files. -/
theorem statBoth_spec {selfFd targetFd : Int} {r : Option (Inode × Inode)}
    (h : statBoth W selfFd targetFd p = (r, p')) :
    p'.netns = p.netns ∧ p'.netnsLog = p.netnsLog ∧ Keeps p p' ∧
      (r = none ∨ ∃ selfSt targetSt, r = some (selfSt, targetSt) ∧
        p.files selfFd = some selfSt ∧ p.files targetFd = some targetSt) := by
  unfold statBoth at h
  rcases hself : sysFstat W selfFd p with ⟨selfSt, p₁⟩
  obtain ⟨hn₁, hl₁, hk₁, hst₁⟩ := sysFstat_spec hself
  simp only [Sys.bind_apply, hself] at h
  cases selfSt with
  | none =>
    cases h
    exact ⟨hn₁, hl₁, hk₁, Or.inl rfl⟩
  | some selfSt =>
    rcases htarget : sysFstat W targetFd p₁ with ⟨targetSt, p₂⟩
    obtain ⟨hn₂, hl₂, hk₂, hst₂⟩ := sysFstat_spec htarget
    simp only [Sys.bind_apply, htarget] at h
    rw [hk₁.files] at hst₂
    cases targetSt with
    | none =>
      cases h
      exact ⟨hn₂.trans hn₁, hl₂.trans hl₁, hk₁.trans hk₂, Or.inl rfl⟩
    | some targetSt =>
      cases h
      rcases hst₁ with hst₁ | hst₁
      · cases hst₁
      rcases hst₂ with hst₂ | hst₂
      · cases hst₂
      exact ⟨hn₂.trans hn₁, hl₂.trans hl₁, hk₁.trans hk₂,
        Or.inr ⟨selfSt, targetSt, rfl, hst₁.symm, hst₂.symm⟩⟩

/-- A switch that does not fail ends in the namespace of the descriptor. -/
theorem switchNetns_spec {isSameNetns : Bool} {fd r : Int} {f : Inode}
    (hf : p.files fd = some f) (hsame : isSameNetns = true → p.netns = f)
    (h : switchNetns W isSameNetns fd p = (r, p')) :
    Keeps p p' ∧ ∃ t, p'.netnsLog = p.netnsLog ++ t ∧
      ((r < 0 ∧ p'.netns = p.netns ∧ t = [(some f, false)]) ∨ (0 ≤ r ∧ p'.netns = f)) := by
  unfold switchNetns at h
  cases isSameNetns with
  | true =>
    cases h
    exact ⟨Keeps.of_eq rfl rfl, [], by rw [List.append_nil], Or.inr ⟨by decide, hsame rfl⟩⟩
  | false =>
    obtain ⟨hk, ⟨hr, hn, hl⟩ | ⟨hr, hn, hl⟩⟩ := sysSetns_spec hf h
    · exact ⟨hk, _, hl, Or.inl ⟨hr, hn, rfl⟩⟩
    · exact ⟨hk, _, hl, Or.inr ⟨hr, hn⟩⟩

/-- From the namespaces on: `p₀` is the process before the descriptor `selfFd` of
its own namespace was opened, `f` the target. -/
theorem lookupIfname_spec {p₀ : Proc} {selfFd targetFd : Int} {f : Inode}
    {r : Except String (BitVec 32)} (hself : Opened p₀ p selfFd p.netns)
    (hf : p.files targetFd = some f)
    (h : lookupIfname W ifname selfFd targetFd (decide (p.netns = f)) p = (r, p')) :
    Keeps p₀ p' ∧
      ((∃ err, r = .error err ∧ err ≠ "" ∧ (p'.netns = p.netns ∨ RestoreFailed p p')) ∨
        (r = .ok (W.index f (cStr ifname.toList)) ∧ W.index f (cStr ifname.toList) ≠ 0 ∧
          p'.netns = p.netns)) := by
  unfold lookupIfname at h
  have hsame : decide (p.netns = f) = true → p.netns = f := of_decide_eq_true
  rcases henter : switchNetns W (decide (p.netns = f)) targetFd p with ⟨entered, p₁⟩
  obtain ⟨hk₁, t₁, hl₁, hcase₁⟩ := switchNetns_spec hf hsame henter
  simp only [Sys.bind_apply, henter] at h
  by_cases hentered : entered < 0
  · rw [if_pos hentered] at h
    cases h
    rcases hcase₁ with ⟨-, hn₁, -⟩ | ⟨h0, -⟩
    · exact ⟨(hself.keeps hk₁).close, Or.inl ⟨_, rfl, by simp, Or.inl hn₁⟩⟩
    · omega
  · rw [if_neg hentered] at h
    rcases hcase₁ with ⟨h0, -⟩ | ⟨-, hn₁⟩
    · exact absurd h0 hentered
    rcases hlook : ifNametoindex W (cStr ifname.toList) p₁ with ⟨idx, p₂⟩
    obtain ⟨hn₂, hl₂, hk₂, hidx⟩ := ifNametoindex_spec hlook
    rw [hn₁] at hidx hn₂
    rw [Sys.bind_apply, hlook] at h
    dsimp only at h
    rw [getErrno_bind] at h
    -- the way back: `selfFd` still stands for the namespace of the start
    have hself₂ := (hself.keeps hk₁).keeps hk₂
    have hback : decide (p.netns = f) = true → p₂.netns = p.netns := fun he =>
      hn₂.trans (hsame he).symm
    rcases hrestore : switchNetns W (decide (p.netns = f)) selfFd p₂ with ⟨restored, p₃⟩
    obtain ⟨hk₃, t₃, hl₃, hcase₃⟩ := switchNetns_spec hself₂.get hback hrestore
    rw [Sys.bind_apply, hrestore] at h
    dsimp only at h
    by_cases hrestored : restored < 0
    · rw [if_pos hrestored] at h
      cases h
      rcases hcase₃ with ⟨-, -, rfl⟩ | ⟨h0, -⟩
      · refine ⟨(hself₂.keeps hk₃).close, Or.inl ⟨_, rfl, by simp, Or.inr ⟨t₁, ?_⟩⟩⟩
        exact (sysClose_spec W selfFd p₃).2.trans (by rw [hl₃, hl₂, hl₁])
      · omega
    · rw [if_neg hrestored] at h
      rcases hcase₃ with ⟨h0, -⟩ | ⟨-, hn₃⟩
      · exact absurd h0 hrestored
      simp only [Sys.bind_apply] at h
      by_cases hzero : idx = 0
      · rw [if_pos hzero] at h
        cases h
        exact ⟨(hself₂.keeps hk₃).close, Or.inl ⟨_, rfl, by simp, Or.inl hn₃⟩⟩
      · rw [if_neg hzero] at h
        cases h
        have hval := hidx hzero
        exact ⟨(hself₂.keeps hk₃).close, Or.inr ⟨by rw [hval], hval ▸ hzero, hn₃⟩⟩

/-- `resolve_ifname_in_netns` has closed what it opened, and the thread is back
where it was unless going back failed. -/
theorem resolveIfnameInNetns_spec {targetFd : Int} {r : Except String (BitVec 32)}
    (hfile : 0 ≤ targetFd → ∃ f, p.files targetFd = some f)
    (h : resolveIfnameInNetns W ifname targetFd p = (r, p')) :
    Keeps p p' ∧
      ((∃ err, r = .error err ∧ err ≠ "" ∧ (p'.netns = p.netns ∨ RestoreFailed p p')) ∨
        ∃ f, p.files targetFd = some f ∧ r = .ok (W.index f (cStr ifname.toList)) ∧
          W.index f (cStr ifname.toList) ≠ 0 ∧ p'.netns = p.netns) := by
  unfold resolveIfnameInNetns at h
  by_cases hname : ifname = ""
  · rw [if_pos hname] at h
    cases h
    exact ⟨Keeps.of_eq rfl rfl, Or.inl ⟨_, rfl, by decide, Or.inl rfl⟩⟩
  rw [if_neg hname] at h
  by_cases hfd : targetFd < 0
  · rw [if_pos hfd] at h
    cases h
    exact ⟨Keeps.of_eq rfl rfl, Or.inl ⟨_, rfl, by decide, Or.inl rfl⟩⟩
  rw [if_neg hfd] at h
  obtain ⟨f, hf⟩ := hfile (by omega)
  rcases hopen : sysOpen W selfNetns p with ⟨selfFd, p₁⟩
  obtain ⟨hn₁, hl₁, hcase⟩ := sysOpen_spec hopen
  simp only [Sys.bind_apply, hopen] at h
  by_cases hself : selfFd < 0
  · rw [if_pos hself] at h
    cases h
    rcases hcase with ⟨-, hk⟩ | ⟨h0, -⟩
    · exact ⟨hk, Or.inl ⟨_, rfl, by simp, Or.inl hn₁⟩⟩
    · omega
  rw [if_neg hself] at h
  rcases hcase with ⟨h0, -⟩ | ⟨-, hop⟩
  · exact absurd h0 hself
  have hnamed : fileNamed W p selfNetns = p.netns := if_pos rfl
  rw [hnamed] at hop
  -- from here on `selfFd` is open, and every way out closes it
  rcases hstat : statBoth W selfFd targetFd p₁ with ⟨st, p₂⟩
  obtain ⟨hn₂, hl₂, hk, hst⟩ := statBoth_spec hstat
  simp only [Sys.bind_apply, hstat] at h
  have hn : p₂.netns = p.netns := hn₂.trans hn₁
  rcases hst with rfl | ⟨selfSt, targetSt, rfl, hsel, htar⟩
  · cases h
    exact ⟨(hop.keeps hk).close, Or.inl ⟨_, rfl, by decide, Or.inl hn⟩⟩
  · -- the inode of `selfFd` is that of the own namespace
    obtain rfl := Option.some.inj (hsel.symm.trans hop.get)
    obtain rfl := Option.some.inj (htar.symm.trans (hop.get_other hf))
    have hop₂ : Opened p p₂ selfFd p₂.netns := hn ▸ hop.keeps hk
    have hf₂ : p₂.files targetFd = some targetSt := by rw [hk.files, htar]
    rw [← hn] at h
    obtain ⟨hkeeps, hcase⟩ := lookupIfname_spec hop₂ hf₂ h
    refine ⟨hkeeps, ?_⟩
    rcases hcase with ⟨err, hr, herr, hback | ⟨t, hback⟩⟩ | ⟨hr, hidx, hback⟩
    · exact Or.inl ⟨err, hr, herr, Or.inl (hback.trans hn)⟩
    · rw [hl₂, hl₁, hn] at hback
      exact Or.inl ⟨err, hr, herr, Or.inr ⟨t, hback⟩⟩
    · exact Or.inr ⟨targetSt, hf, hr, hidx, hback.trans hn⟩

/-! ## The whole -/

theorem closeOpen_neg {fd : Int} (h : fd < 0) (p : Proc) : closeOpen W fd p = ((), p) := by
  rw [closeOpen, if_neg (by omega)]
  rfl

/-- What was opened is closed. -/
theorem closeOpen_nonneg {fd : Int} (h : 0 ≤ fd) (p : Proc) :
    closeOpen W fd p = sysClose W fd p := by
  rw [closeOpen, if_pos h]

/-- What a successful call gives back. -/
structure Resolution (W : World) (p : Proc) (args args' : Args) : Prop where
  frame : args' = { args with
    filterNetnsId := args'.filterNetnsId, filterIfindex := args'.filterIfindex }
  noFilter : args.filterIfname = "" → args.filterNetns = "" → args'.filterNetnsId = 0
  netnsId : args.filterIfname ≠ "" ∨ args.filterNetns ≠ "" →
    specNetns W p args.filterNetns = some args'.filterNetnsId
  noIfname : args.filterIfname = "" → args'.filterIfindex = 0
  ifindex : args.filterIfname ≠ "" → ∃ ns, specFile W p args.filterNetns = some ns ∧
    args'.filterIfindex = W.index ns (cStr args.filterIfname.toList) ∧ args'.filterIfindex ≠ 0

/-- The outcome of a call: it has closed what it opened, and it fails with a
message, in the namespace of the start unless going back failed, or it succeeds
there. -/
def Outcome (W : World) (p : Proc) (args : Args) (ok : Bool) (args' : Args) (errMsg : String)
    (p' : Proc) : Prop :=
  Keeps p p' ∧
    ((ok = false ∧ errMsg ≠ "" ∧ (p'.netns = p.netns ∨ RestoreFailed p p')) ∨
      (ok = true ∧ p'.netns = p.netns ∧ Resolution W p args args'))

/-- A specification that names a file has its inode number, cut to 32 bits. -/
theorem specNetns_of_file {f : Inode} (h : specFile W p spec = some f) :
    specNetns W p spec = some (f.ino.setWidth 32) := by
  rw [specNetns, h]

/-- The whole function, in terms of its two parts. -/
theorem resolveNetnsAndIfname_outcome {args args' : Args} {errMsg errMsg' : String} {ok : Bool}
    (h : resolveNetnsAndIfname W args errMsg p = ((ok, args', errMsg'), p')) :
    Outcome W p args ok args' errMsg' p' := by
  unfold resolveNetnsAndIfname at h
  by_cases hnone : args.filterIfname = "" ∧ args.filterNetns = ""
  · rw [if_pos hnone] at h
    cases h
    refine ⟨Keeps.of_eq rfl rfl, Or.inr ⟨rfl, rfl, rfl, fun _ _ => rfl, ?_, fun _ => rfl, ?_⟩⟩
    · intro hsome
      rcases hsome with hi | hn
      · exact absurd hnone.1 hi
      · exact absurd hnone.2 hn
    · exact fun hi => absurd hnone.1 hi
  rw [if_neg hnone] at h
  have hnoFilter : args.filterIfname = "" → args.filterNetns = "" →
      args'.filterNetnsId = 0 := fun hi hn => absurd ⟨hi, hn⟩ hnone
  rcases hparse : parseNetnsSpec W args.filterNetns p with ⟨parsed, p₁⟩
  obtain ⟨hn₁, hl₁, hcase⟩ := parseNetnsSpec_spec hparse
  simp only [Sys.bind_apply, hparse] at h
  rcases hcase with ⟨err, rfl, herr, hk⟩ | ⟨fd, f, rfl, hfd, hfile, hop⟩ |
    ⟨netnsId, rfl, hfile, hnetns, hk⟩
  · -- the specification is rejected
    cases h
    exact ⟨hk, Or.inl ⟨rfl, herr, Or.inl hn₁⟩⟩
  · -- it leaves a descriptor open
    dsimp only at h
    by_cases hi : args.filterIfname = ""
    · rw [if_neg (not_not.mpr hi)] at h
      simp only [Sys.bind_apply, closeOpen_nonneg hfd] at h
      cases h
      exact ⟨hop.close, Or.inr ⟨rfl, hn₁, rfl, hnoFilter, fun _ => specNetns_of_file hfile,
        fun _ => rfl, fun hi' => absurd hi hi'⟩⟩
    · rw [if_pos hi] at h
      rcases hres : resolveIfnameInNetns W args.filterIfname fd p₁ with ⟨res, p₂⟩
      obtain ⟨hk, hcase⟩ := resolveIfnameInNetns_spec (fun _ => ⟨f, hop.get⟩) hres
      simp only [Sys.bind_apply, hres, closeOpen_nonneg hfd] at h
      rcases hcase with ⟨err, rfl, herr, hback⟩ | ⟨g, hg, rfl, hidx, hback⟩
      · cases h
        refine ⟨(hop.keeps hk).close, Or.inl ⟨rfl, herr, ?_⟩⟩
        rcases hback with hback | ⟨t, hback⟩
        · exact Or.inl (hback.trans hn₁)
        · rw [hn₁, hl₁] at hback
          exact Or.inr ⟨t, hback⟩
      · obtain rfl := Option.some.inj (hg.symm.trans hop.get)
        cases h
        exact ⟨(hop.keeps hk).close, Or.inr ⟨rfl, hback.trans hn₁, rfl, hnoFilter,
          fun _ => specNetns_of_file hfile, fun hi' => absurd hi' hi,
          fun _ => ⟨g, hfile, rfl, hidx⟩⟩⟩
  · -- an `inode:` specification opens nothing
    dsimp only at h
    by_cases hi : args.filterIfname = ""
    · rw [if_neg (not_not.mpr hi)] at h
      simp only [Sys.bind_apply, closeOpen_neg (show (-1 : Int) < 0 by decide)] at h
      cases h
      exact ⟨hk, Or.inr ⟨rfl, hn₁, rfl, hnoFilter, fun _ => hnetns, fun _ => rfl,
        fun hi' => absurd hi hi'⟩⟩
    · rw [if_pos hi] at h
      have hinode : resolveIfnameInNetns W args.filterIfname (-1) p₁ =
          (.error "inode netns specifier cannot be used with --filter-ifname", p₁) := by
        rw [resolveIfnameInNetns, if_neg hi, if_pos (by decide)]
        rfl
      simp only [Sys.bind_apply, hinode, closeOpen_neg (show (-1 : Int) < 0 by decide)] at h
      cases h
      exact ⟨hk, Or.inl ⟨rfl, by decide, Or.inl hn₁⟩⟩

/-- **Descriptors and namespaces.** However the system calls go, the function has
closed every descriptor it opened once and no other one when it returns, and the
descriptors are those of the start. The thread is in the namespace it started in,
unless going back there failed, and then the result is false. With a result of
true and an interface name, `filter_ifindex` is the non-zero index of that name in
the namespace the specification names, whose inode number, cut to 32 bits, is
`filter_netns_id`. With a result of false there is a message. -/
theorem resolve_discipline (W : World) (args : Args) (errMsg : String) (p : Proc) :
    ∃ ok args' errMsg' p',
      resolveNetnsAndIfname W args errMsg p = ((ok, args', errMsg'), p') ∧
      (∃ log, p'.fdLog = p.fdLog ++ log ∧ Lib.Balanced log) ∧ p'.files = p.files ∧
      (p'.netns = p.netns ∨ RestoreFailed p p' ∧ ok = false) ∧
      (ok = true → args.filterIfname ≠ "" →
        ∃ ns, specFile W p args.filterNetns = some ns ∧
          args'.filterNetnsId = ns.ino.setWidth 32 ∧
          args'.filterIfindex = W.index ns (cStr args.filterIfname.toList) ∧
          args'.filterIfindex ≠ 0) ∧
      (ok = false → errMsg' ≠ "") := by
  rcases h : resolveNetnsAndIfname W args errMsg p with ⟨⟨ok, args', errMsg'⟩, p'⟩
  obtain ⟨hk, ⟨rfl, herr, hback⟩ | ⟨rfl, hback, hres⟩⟩ := resolveNetnsAndIfname_outcome h
  · refine ⟨_, _, _, _, rfl, hk.log, hk.files, ?_, fun h => (by cases h), fun _ => herr⟩
    rcases hback with hback | hback
    · exact Or.inl hback
    · exact Or.inr ⟨hback, rfl⟩
  · refine ⟨_, _, _, _, rfl, hk.log, hk.files, Or.inl hback, fun _ hi => ?_, fun h => (by cases h)⟩
    obtain ⟨ns, hns, hidx, h0⟩ := hres.ifindex hi
    have hid := (specNetns_of_file hns).symm.trans (hres.netnsId (Or.inl hi))
    exact ⟨ns, hns, (Option.some.inj hid).symm, hidx, h0⟩

end SkbTracer.Cfg
