import SkbTracer.Libc.InetNtop
import SkbTracer.Libc.Strtoul

/-!
# Reading the text of an address

The text that `inet_ntop` writes can be read back. The parts of an IPv6 text are what
stands between the colons, and the empty ones stand for the zeros that were left out. So
the numbers in front of them and behind them are known, and the zeros are as many as are
missing to eight. `readV4_inetNtop4` and `readV6_inetNtop6` say that this gives the
address, and so no two addresses have one text.

The program never reads an address. The readers are here because they are the proof: what
can be read back was told apart (`inetNtop4_bytes`, `inetNtop6_bytes`).

- Numbers: `digitsVal_toDigits`, for any base up to 16.
- IPv4: `readV4_inetNtop4`. The dots separate the numbers, since no number has one.
- The run that is left out: `zeroRun_zeros` says that all its words are zero, from an
  invariant of the loop that looks for it (`ZeroRuns.Ok`).
- The parts of the text: `splitOn_words` gives them, and `wordFields_front`,
  `wordFields_run` and `wordFields_behind` say what they are, in front of the run, on it
  and behind it; an IPv4 address at the end takes the place of the last two.
- The whole text: `readV6_inetNtop6`.

That the run is the longest, and the first of the longest, is not needed to read a text
back, and is not proved.
-/

namespace SkbTracer.Libc

open SkbTracer.Lib (Byte)

/-- The numbers of an IPv4 text. -/
def readV4 (s : List Char) : List Nat := (s.splitOn '.').map (digitsVal 10 0)

/-- The numbers of a part of an IPv6 text, two if it is an IPv4 text. -/
def fieldWords (s : List Char) : List Nat :=
  match readV4 s with
  | [a, b, c, d] => [a * 256 + b, c * 256 + d]
  | _ => [digitsVal 16 0 s]

/-- The numbers of the parts of an IPv6 text. -/
def readFields (fields : List (List Char)) : List Nat :=
  let front := (fields.takeWhile (· ≠ [])).flatMap fieldWords
  let back := ((fields.dropWhile (· ≠ [])).dropWhile (· = [])).flatMap fieldWords
  front ++ (List.replicate (8 - front.length - back.length) 0 ++ back)

/-- The numbers of an IPv6 text. -/
def readV6 (s : List Char) : List Nat := readFields (s.splitOn ':')

/-! ## Numbers -/

variable {base n v : Nat} {c : Char} {s : List Char}

theorem digitVal_digitChar : ∀ d < 16, digitVal (Nat.digitChar d) = some d := by decide

theorem digitsVal_append (s : List Char) (c : Char) :
    digitsVal base v (s ++ [c]) = digitsVal base v s * base + (digitVal c).getD 0 := by
  unfold digitsVal
  rw [List.foldl_append]
  rfl

/-- A number is read back from its digits. -/
theorem digitsVal_toDigits (hb : 1 < base) (h16 : base ≤ 16) (n : Nat) :
    digitsVal base 0 (Nat.toDigits base n) = n := by
  induction n using Nat.strongRecOn with
  | ind n ih =>
    by_cases hlt : n < base
    · rw [Nat.toDigits_of_lt_base hlt, ← List.nil_append [n.digitChar], digitsVal_append,
        digitVal_digitChar n (by omega)]
      exact (congrArg (· + n) (Nat.zero_mul base)).trans (Nat.zero_add n)
    · have hmod : n % base < base := Nat.mod_lt n (by omega)
      rw [Nat.toDigits_of_base_le hb (by omega), digitsVal_append,
        ih (n / base) (Nat.div_lt_self (by omega) hb), digitVal_digitChar _ (by omega)]
      exact Nat.div_add_mod' n base

/-- A number is written with digits only. -/
theorem isDigitOf_of_mem_toDigits (hb : 1 < base) (h16 : base ≤ 16)
    (hc : c ∈ Nat.toDigits base n) : isDigitOf base c = true := by
  have hchar : ∀ d < base, isDigitOf base (Nat.digitChar d) = true := by
    intro d hd
    unfold isDigitOf
    rw [digitVal_digitChar d (by omega)]
    exact decide_eq_true hd
  induction n using Nat.strongRecOn with
  | ind n ih =>
    by_cases hlt : n < base
    · rw [Nat.toDigits_of_lt_base hlt, List.mem_singleton] at hc
      rw [hc]
      exact hchar n hlt
    · rw [Nat.toDigits_of_base_le hb (by omega), List.mem_append, List.mem_singleton] at hc
      rcases hc with hc | hc
      · exact ih (n / base) (Nat.div_lt_self (by omega) hb) hc
      · rw [hc]
        exact hchar _ (Nat.mod_lt n (by omega))

theorem isDigitOf_le {base' : Nat} (h : isDigitOf base c = true) (hle : base ≤ base') :
    isDigitOf base' c = true := by
  unfold isDigitOf at h ⊢
  cases hd : digitVal c with
  | none =>
    rw [hd] at h
    cases h
  | some d =>
    rw [hd] at h
    have hlt : d < base := of_decide_eq_true h
    exact decide_eq_true (by omega)

/-- So what is no digit is not in it. -/
theorem not_mem_toDigits (hb : 1 < base) (h16 : base ≤ 16) (h : isDigitOf base c = false) :
    c ∉ Nat.toDigits base n := by
  intro hc
  rw [isDigitOf_of_mem_toDigits hb h16 hc] at h
  cases h

/-! ## IPv4 -/

/-- **An IPv4 text is read back.** -/
theorem readV4_inetNtop4 (b : Nat → Byte) :
    readV4 (inetNtop4 b) = [(b 0).toNat, (b 1).toNat, (b 2).toNat, (b 3).toNat] := by
  have hdot : ∀ n, '.' ∉ Nat.toDigits 10 n := fun n =>
    not_mem_toDigits (by decide) (by decide) (by decide)
  have hread : ∀ n, digitsVal 10 0 (Nat.toDigits 10 n) = n :=
    digitsVal_toDigits (by decide) (by decide)
  unfold readV4 inetNtop4
  rw [List.splitOn_append_cons_self_of_not_mem (hdot _),
    List.splitOn_append_cons_self_of_not_mem (hdot _),
    List.splitOn_append_cons_self_of_not_mem (hdot _), List.splitOn_eq_singleton (hdot _)]
  simp only [List.map_cons, List.map_nil, hread]

/-- Two IPv4 addresses with one text have the same bytes. -/
theorem inetNtop4_bytes {b b' : Nat → Byte} (h : inetNtop4 b = inetNtop4 b') :
    ∀ i < 4, b i = b' i := by
  have hread := congrArg readV4 h
  rw [readV4_inetNtop4, readV4_inetNtop4] at hread
  simp only [List.cons.injEq, and_true] at hread
  obtain ⟨h0, h1, h2, h3⟩ := hread
  intro i hi
  match i, hi with
  | 0, _ => exact BitVec.eq_of_toNat_eq h0
  | 1, _ => exact BitVec.eq_of_toNat_eq h1
  | 2, _ => exact BitVec.eq_of_toNat_eq h2
  | 3, _ => exact BitVec.eq_of_toNat_eq h3

/-- A number between colons is one word, -/
theorem fieldWords_hex (n : Nat) : fieldWords (Nat.toDigits 16 n) = [n] := by
  have hdot : '.' ∉ Nat.toDigits 16 n := not_mem_toDigits (by decide) (by decide) (by decide)
  have hread : readV4 (Nat.toDigits 16 n) = [digitsVal 10 0 (Nat.toDigits 16 n)] := by
    unfold readV4
    rw [List.splitOn_eq_singleton hdot]
    rfl
  unfold fieldWords
  rw [hread]
  dsimp only
  rw [digitsVal_toDigits (by decide) (by decide)]

/-- and an IPv4 address at the end is two. -/
theorem fieldWords_inetNtop4 (b : Nat → Byte) :
    fieldWords (inetNtop4 b) = [inetWord b 0, inetWord b 1] := by
  unfold fieldWords
  rw [readV4_inetNtop4]
  rfl

theorem flatMap_hex (ws : List Nat) :
    (ws.map (Nat.toDigits 16)).flatMap fieldWords = ws := by
  induction ws with
  | nil => rfl
  | cons w ws ih =>
    rw [List.map_cons, List.flatMap_cons, fieldWords_hex, ih]
    rfl

/-! ## The run that is left out -/

variable {b : Nat → Byte} {i k : Nat} {run : ZeroRun} {runs : ZeroRuns} {best : Option ZeroRun}

/-- The run is one of zeros, and lies in the first `i` numbers. -/
structure ZeroRun.Zeros (b : Nat → Byte) (i : Nat) (run : ZeroRun) : Prop where
  pos : 0 < run.len
  fits : run.base + run.len ≤ i
  zero : ∀ j, run.base ≤ j → j < run.base + run.len → inetWord b j = 0

/-- A run of zeros seen so far is one later too. -/
theorem ZeroRun.Zeros.succ (h : run.Zeros b i) : run.Zeros b (i + 1) :=
  ⟨h.pos, Nat.le_succ_of_le h.fits, h.zero⟩

/-- After `i` numbers, both runs are, and the one that goes on ends here. -/
structure ZeroRuns.Ok (b : Nat → Byte) (i : Nat) (runs : ZeroRuns) : Prop where
  best : ∀ run, runs.best = some run → run.Zeros b i
  cur : ∀ run, runs.cur = some run → run.Zeros b i ∧ run.base + run.len = i

theorem ZeroRuns.Ok.close (h : runs.Ok b i) (hrun : runs.close = some run) : run.Zeros b i := by
  unfold ZeroRuns.close at hrun
  split at hrun
  next => exact h.best run hrun
  next cur hcur _ =>
    obtain rfl := Option.some.inj hrun
    exact (h.cur _ hcur).1
  next cur best hcur hbest =>
    split at hrun
    next =>
      obtain rfl := Option.some.inj hrun
      exact (h.cur _ hcur).1
    next =>
      obtain rfl := Option.some.inj hrun
      exact h.best _ hbest

/-- One word more keeps what is known of the runs, -/
theorem ZeroRuns.Ok.step (h : runs.Ok b i) : (runs.step b i).Ok b (i + 1) := by
  unfold ZeroRuns.step
  split
  next hzero =>
    split
    next =>
      -- a run begins
      refine ⟨fun run hrun => (h.best run hrun).succ, fun run hrun => ?_⟩
      obtain rfl := Option.some.inj hrun
      refine ⟨⟨Nat.one_pos, Nat.le_refl _, fun j hlo hhi => ?_⟩, rfl⟩
      obtain rfl : j = i := by
        dsimp only at hlo hhi
        omega
      exact hzero
    next cur hcur =>
      -- the run goes on
      obtain ⟨hzeros, hend⟩ := h.cur cur hcur
      refine ⟨fun run hrun => (h.best run hrun).succ, fun run hrun => ?_⟩
      obtain rfl := Option.some.inj hrun
      have hend' : cur.base + (cur.len + 1) = i + 1 := by omega
      refine ⟨⟨Nat.succ_pos _, Nat.le_of_eq hend', fun j hlo hhi => ?_⟩, hend'⟩
      by_cases hj : j < cur.base + cur.len
      · exact hzeros.zero j hlo hj
      · obtain rfl : j = i := by
          dsimp only at hhi
          omega
        exact hzero
  next =>
    exact ⟨fun run hrun => (h.close hrun).succ, fun run hrun => (by cases hrun)⟩

/-- so it is known at the end. -/
theorem zeroRuns_ok (b : Nat → Byte) (n : Nat) :
    ((List.range n).foldl (ZeroRuns.step b) { best := none, cur := none }).Ok b n := by
  induction n with
  | zero => exact ⟨fun run hrun => (by cases hrun), fun run hrun => (by cases hrun)⟩
  | succ n ih =>
    rw [List.range_succ, List.foldl_append]
    exact ih.step

/-- The run that is left out is one of zeros. -/
theorem zeroRun_zeros (h : zeroRun b = some run) : run.Zeros b 8 := by
  unfold zeroRun at h
  exact (zeroRuns_ok b 8).close (Option.filter_eq_some_iff.mp h).1

/-! ## The parts of the text -/

/-- The last `n` numbers. -/
def lastWords (b : Nat → Byte) : Nat → List Nat
  | 0 => []
  | n + 1 => inetWord b (7 - n) :: lastWords b n

/-- What stands between the colons, from the `n`-th number but last on. -/
def wordFields (b : Nat → Byte) (best : Option ZeroRun) : Nat → List (List Char)
  | 0 => []
  | n + 1 =>
    let i := 7 - n
    if best.any fun run => run.base ≤ i && i < run.base + run.len then
      (if best.any fun run => run.base == i then [[]] else []) ++ wordFields b best n
    else if i = 6 ∧ endsInV4 b best = true then [inetNtop4 fun k => b (12 + k)]
    else Nat.toDigits 16 (inetWord b i) :: wordFields b best n

theorem length_lastWords (b : Nat → Byte) (n : Nat) : (lastWords b n).length = n := by
  induction n with
  | zero => rfl
  | succ n ih => rw [lastWords, List.length_cons, ih]

theorem drop_lastWords (b : Nat → Byte) (n k : Nat) :
    (lastWords b (n + k)).drop k = lastWords b n := by
  induction k with
  | zero => rfl
  | succ k ih => exact ih

theorem not_colon_hex (n : Nat) : ':' ∉ Nat.toDigits 16 n :=
  not_mem_toDigits (by decide) (by decide) (by decide)

/-- The letters of an IPv4 text. -/
theorem mem_inetNtop4 (hc : c ∈ inetNtop4 b) : c = '.' ∨ isDigitOf 10 c = true := by
  have hdigits : ∀ n, c ∈ Nat.toDigits 10 n → isDigitOf 10 c = true := fun n =>
    isDigitOf_of_mem_toDigits (by decide) (by decide)
  unfold inetNtop4 at hc
  simp only [List.mem_append, List.mem_cons] at hc
  rcases hc with hc | rfl | hc | rfl | hc | rfl | hc
  · exact Or.inr (hdigits _ hc)
  · exact Or.inl rfl
  · exact Or.inr (hdigits _ hc)
  · exact Or.inl rfl
  · exact Or.inr (hdigits _ hc)
  · exact Or.inl rfl
  · exact Or.inr (hdigits _ hc)

theorem not_colon_inetNtop4 (b : Nat → Byte) : ':' ∉ inetNtop4 b := by
  intro hc
  rcases mem_inetNtop4 hc with hc | hc
  · exact absurd hc (by decide)
  · exact absurd hc (by decide)

/-- The end of a text that may have a colon behind it. -/
theorem splitOn_end (hs : ':' ∉ s) (closed : Bool) :
    (s ++ if closed then [':'] else []).splitOn ':' = s :: if closed then [[]] else [] := by
  cases closed with
  | false =>
    rw [if_neg (by decide), if_neg (by decide), List.append_nil, List.splitOn_eq_singleton hs]
  | true =>
    rw [if_pos rfl, if_pos rfl, List.splitOn_append_cons_self_of_not_mem hs]
    rfl

/-- Behind a first part, every number begins with its colon. -/
theorem splitOn_words (hs : ':' ∉ s) (hn : n ≤ 7) (closed : Bool) :
    (s ++ (inetWords b best n ++ if closed then [':'] else [])).splitOn ':' =
      s :: (wordFields b best n ++ if closed then [[]] else []) := by
  induction n generalizing s with
  | zero => exact splitOn_end hs closed
  | succ n ih =>
    rw [inetWords, wordFields]
    split
    next =>
      split
      next =>
        -- the run begins: a part with nothing in it
        rw [List.append_assoc, List.append_assoc, List.singleton_append,
          List.splitOn_append_cons_self_of_not_mem hs]
        exact congrArg (s :: ·) (ih (s := []) List.not_mem_nil (by omega))
      next => exact ih hs (by omega)
    next =>
      rw [if_neg (by omega)]
      split
      next =>
        rw [List.append_assoc, List.singleton_append,
          List.splitOn_append_cons_self_of_not_mem hs, splitOn_end (not_colon_inetNtop4 _) closed]
        rfl
      next =>
        rw [List.append_assoc, List.append_assoc, List.singleton_append,
          List.splitOn_append_cons_self_of_not_mem hs, ih (not_colon_hex _) (by omega)]
        rfl

/-- Where the run begins an empty part is written, -/
theorem wordFields_start (hbase : run.base = 7 - n) (hpos : 0 < run.len) :
    wordFields b (some run) (n + 1) = [] :: wordFields b (some run) n := by
  rw [wordFields, if_pos (by simp; omega), if_pos (by simp; omega)]
  rfl

/-- inside of it nothing is, -/
theorem wordFields_inside (hlo : run.base < 7 - n) (hhi : 7 - n < run.base + run.len) :
    wordFields b (some run) (n + 1) = wordFields b (some run) n := by
  rw [wordFields, if_pos (by simp; omega), if_neg (by simp; omega)]
  rfl

/-- and outside of it a number. -/
theorem wordFields_outside (hout : 7 - n < run.base ∨ run.base + run.len ≤ 7 - n)
    (hv4 : ¬ (7 - n = 6 ∧ endsInV4 b (some run) = true)) :
    wordFields b (some run) (n + 1) =
      Nat.toDigits 16 (inetWord b (7 - n)) :: wordFields b (some run) n := by
  rw [wordFields, if_neg (by simp; omega), if_neg hv4]

/-- Only an address that starts with its run ends like an IPv4 address. -/
theorem base_of_endsInV4 (h : endsInV4 b (some run) = true) : run.base = 0 := by
  unfold endsInV4 at h
  simp only [Bool.or_eq_true, Bool.and_eq_true, beq_iff_eq, Option.some.injEq] at h
  rcases h with h | ⟨h, -⟩
  · rw [h]
  · rw [h]

/-- What is read of the parts behind the run. -/
theorem wordFields_behind (hn : n + (run.base + run.len) ≤ 8) :
    (wordFields b (some run) n).flatMap fieldWords = lastWords b n ∧
      ∀ f ∈ wordFields b (some run) n, f ≠ [] := by
  induction n with
  | zero => exact ⟨rfl, fun f hf => by cases hf⟩
  | succ n ih =>
    obtain ⟨hread, hne⟩ := ih (by omega)
    by_cases hv4 : 7 - n = 6 ∧ endsInV4 b (some run) = true
    · -- the last two numbers are in one part
      obtain rfl : n = 1 := by omega
      have hfields : wordFields b (some run) 2 = [inetNtop4 fun k => b (12 + k)] := by
        rw [wordFields, if_neg (by simp; omega), if_pos hv4]
      rw [hfields]
      refine ⟨?_, fun f hf => ?_⟩
      · rw [List.flatMap_cons, fieldWords_inetNtop4]
        rfl
      · rw [List.mem_singleton.mp hf]
        unfold inetNtop4
        simp
    · rw [wordFields_outside (Or.inr (by omega)) hv4]
      refine ⟨?_, fun f hf => ?_⟩
      · rw [List.flatMap_cons, fieldWords_hex, hread]
        rfl
      · rcases List.mem_cons.mp hf with rfl | hf
        · exact Nat.toDigits_ne_nil
        · exact hne f hf

/-- Inside of the run there is one part without a number, whatever it is long. -/
theorem wordFields_run (hzeros : run.Zeros b 8) (hk : k < run.len) :
    wordFields b (some run) (8 - (run.base + run.len) + k) =
      wordFields b (some run) (8 - (run.base + run.len)) := by
  have hfits := hzeros.fits
  induction k with
  | zero => rfl
  | succ k ih =>
    rw [← Nat.add_assoc, wordFields_inside (by omega) (by omega), ih (by omega)]

/-- From the start of the run on. -/
theorem wordFields_from_base (hzeros : run.Zeros b 8) :
    wordFields b (some run) (8 - run.base) =
      [] :: wordFields b (some run) (8 - (run.base + run.len)) := by
  have hfits := hzeros.fits
  have hpos := hzeros.pos
  have hn : 8 - run.base = 8 - (run.base + run.len) + (run.len - 1) + 1 := by omega
  rw [hn, wordFields_start (by omega) hpos, wordFields_run hzeros (by omega)]

/-- In front of the run every number is a part. -/
theorem wordFields_front (hzeros : run.Zeros b 8) (hk : k ≤ run.base) :
    wordFields b (some run) (8 - run.base + k) =
      ((lastWords b (8 - run.base + k)).take k).map (Nat.toDigits 16) ++
        wordFields b (some run) (8 - run.base) := by
  have hfits := hzeros.fits
  have hpos := hzeros.pos
  induction k with
  | zero => rfl
  | succ k ih =>
    have hv4 : ¬ (7 - (8 - run.base + k) = 6 ∧ endsInV4 b (some run) = true) := by
      intro hv4
      have hbase := base_of_endsInV4 hv4.2
      omega
    rw [← Nat.add_assoc, wordFields_outside (Or.inl (by omega)) hv4, ih (by omega)]
    rfl

/-- The numbers of the run are zeros. -/
theorem lastWords_run (hzeros : run.Zeros b 8) (hk : k ≤ run.len) :
    lastWords b (8 - (run.base + run.len) + k) =
      List.replicate k 0 ++ lastWords b (8 - (run.base + run.len)) := by
  have hfits := hzeros.fits
  induction k with
  | zero => rfl
  | succ k ih =>
    rw [← Nat.add_assoc, lastWords, ih (by omega), hzeros.zero _ (by omega) (by omega)]
    rfl

/-- Without a run every word is a part. -/
theorem wordFields_none (b : Nat → Byte) (n : Nat) :
    wordFields b none n = (lastWords b n).map (Nat.toDigits 16) := by
  induction n with
  | zero => rfl
  | succ n ih =>
    have hv4 : ¬ (7 - n = 6 ∧ endsInV4 b none = true) := fun h => absurd h.2 (by simp [endsInV4])
    rw [wordFields, if_neg (by simp), if_neg hv4, ih]
    rfl

/-! ## The whole text -/

/-- The parts of a text with a gap in it, and of one without. -/
theorem readFields_gap {front : List Nat} {back : List (List Char)} {gap : Nat}
    (hgap : gap = 0 → back = []) (hback : ∀ f ∈ back, f ≠ []) :
    readFields (front.map (Nat.toDigits 16) ++ (List.replicate gap [] ++ back)) =
      front ++ (List.replicate (8 - front.length - (back.flatMap fieldWords).length) 0 ++
        back.flatMap fieldWords) := by
  have hfront : ∀ f ∈ front.map (Nat.toDigits 16), decide (f ≠ []) = true := by
    intro f hf
    obtain ⟨n, -, rfl⟩ := List.mem_map.mp hf
    exact decide_eq_true Nat.toDigits_ne_nil
  have hzero : ∀ f ∈ List.replicate gap ([] : List Char), decide (f = []) = true := fun f hf =>
    decide_eq_true (List.eq_of_mem_replicate hf)
  -- the parts in front end where the gap begins
  have hstop : (List.replicate gap [] ++ back).takeWhile (fun f => decide (f ≠ [])) = [] ∧
      (List.replicate gap [] ++ back).dropWhile (fun f => decide (f ≠ [])) =
        List.replicate gap [] ++ back := by
    cases gap with
    | zero =>
      rw [hgap rfl]
      exact ⟨rfl, rfl⟩
    | succ gap => exact ⟨rfl, rfl⟩
  have hrest : back.dropWhile (fun f => decide (f = [])) = back := by
    cases back with
    | nil => rfl
    | cons f back =>
      exact List.dropWhile_cons_of_neg fun h =>
        hback f List.mem_cons_self (of_decide_eq_true h)
  unfold readFields
  rw [List.takeWhile_append_of_pos hfront, List.dropWhile_append_of_pos hfront, hstop.1, hstop.2,
    List.dropWhile_append_of_pos hzero, hrest, List.append_nil, flatMap_hex]

/-- A text whose first number is not left out. -/
theorem splitOn_first
    (hout : ¬ (best.any fun run => run.base ≤ 7 - 7 && 7 - 7 < run.base + run.len) = true)
    (closed : Bool) :
    (inetWords b best 8 ++ if closed then [':'] else []).splitOn ':' =
      wordFields b best 8 ++ if closed then [[]] else [] := by
  have hv4 : ¬ (7 - 7 = 6 ∧ endsInV4 b best = true) := fun h => absurd h.1 (by decide)
  rw [inetWords, wordFields, if_neg hout, if_neg hout, if_pos rfl, if_neg hv4, if_neg hv4,
    List.nil_append, List.append_assoc, splitOn_words (not_colon_hex _) (by omega)]
  rfl

/-- A text that begins with its run begins with a colon, and the part in front of that is
empty. -/
theorem splitOn_lead (hbase : run.base = 0) (hpos : 0 < run.len) (closed : Bool) :
    (inetWords b (some run) 8 ++ if closed then [':'] else []).splitOn ':' =
      [] :: (wordFields b (some run) 8 ++ if closed then [[]] else []) := by
  have hin : ((some run).any fun run => run.base ≤ 7 - 7 && 7 - 7 < run.base + run.len) =
      true := by
    simp
    omega
  have hstart : ((some run).any fun run => run.base == 7 - 7) = true := by
    simp
    omega
  rw [inetWords, wordFields, if_pos hin, if_pos hin, if_pos hstart, if_pos hstart,
    List.append_assoc, List.append_assoc]
  have hnil : ':' ∉ ([] : List Char) := List.not_mem_nil
  exact (List.splitOn_append_cons_self_of_not_mem hnil _).trans
    (congrArg ([] :: ·) (splitOn_words hnil (by omega) _))

/-- The parts of a text without a gap. -/
theorem splitOn_inetNtop6_none (h : zeroRun b = none) :
    (inetNtop6 b).splitOn ':' = (lastWords b 8).map (Nat.toDigits 16) := by
  have hout : ¬ (Option.any (fun run : ZeroRun => run.base ≤ 7 - 7 && 7 - 7 < run.base + run.len)
      none) = true := by
    decide
  unfold inetNtop6
  rw [h, splitOn_first hout, wordFields_none]
  exact List.append_nil _

/-- The gap has an empty part for the run, and one more at an end of the text. -/
def gapLen (run : ZeroRun) : Nat :=
  (if run.base = 0 then 1 else 0) + 1 + if run.base + run.len = 8 then 1 else 0

theorem gapLen_pos (run : ZeroRun) : gapLen run ≠ 0 := by
  unfold gapLen
  omega

/-- And of one with a gap: the words in front of it, empty parts, the words behind it. -/
theorem splitOn_inetNtop6_some (h : zeroRun b = some run) :
    (inetNtop6 b).splitOn ':' =
      ((lastWords b 8).take run.base).map (Nat.toDigits 16) ++
        (List.replicate (gapLen run) [] ++
          wordFields b (some run) (8 - (run.base + run.len))) := by
  have hzeros := zeroRun_zeros h
  have hfits := hzeros.fits
  have hpos := hzeros.pos
  have hfront := wordFields_front (k := run.base) hzeros (Nat.le_refl _)
  rw [show 8 - run.base + run.base = 8 by omega, wordFields_from_base hzeros] at hfront
  -- the part behind a colon at the end
  have hend : wordFields b (some run) (8 - (run.base + run.len)) ++
      (if (some run).any fun run => run.base + run.len == 8 then [[]] else []) =
        List.replicate (if run.base + run.len = 8 then 1 else 0) [] ++
          wordFields b (some run) (8 - (run.base + run.len)) := by
    by_cases hclosed : run.base + run.len = 8
    · rw [if_pos hclosed, hclosed, if_pos (by simpa using hclosed)]
      rfl
    · rw [if_neg hclosed, if_neg (by simpa using hclosed)]
      exact List.append_nil _
  unfold inetNtop6 gapLen
  rw [h]
  by_cases hbase : run.base = 0
  · rw [splitOn_lead hbase hpos, hfront, if_pos hbase, hbase, List.take_zero]
    have hgap : [] :: [] :: List.replicate (if run.base + run.len = 8 then 1 else 0) [] =
        List.replicate (1 + 1 + if run.base + run.len = 8 then 1 else 0) ([] : List Char) := by
      rw [← List.replicate_append_replicate]
      rfl
    rw [hbase] at hend hgap
    rw [← hgap]
    exact congrArg (fun fields => [] :: [] :: fields) hend
  · have hout : ¬ ((some run).any fun run =>
        run.base ≤ 7 - 7 && 7 - 7 < run.base + run.len) = true := by
      simp
      omega
    rw [splitOn_first hout, hfront, if_neg hbase, List.append_assoc, List.cons_append, hend,
      Nat.zero_add, ← List.replicate_append_replicate]
    rfl

/-- An IPv6 text is read back. -/
theorem readV6_inetNtop6 (b : Nat → Byte) : readV6 (inetNtop6 b) = lastWords b 8 := by
  unfold readV6
  cases h : zeroRun b with
  | none =>
    have hread : readFields ((lastWords b 8).map (Nat.toDigits 16) ++
        (List.replicate 0 [] ++ [])) = lastWords b 8 ++ _ :=
      readFields_gap (fun _ => rfl) fun f hf => by cases hf
    rw [List.replicate_zero, List.append_nil, List.append_nil] at hread
    rw [splitOn_inetNtop6_none h, hread, length_lastWords]
    exact List.append_nil _
  | some run =>
    have hzeros := zeroRun_zeros h
    have hfits := hzeros.fits
    have hn : 8 - (run.base + run.len) + (run.base + run.len) ≤ 8 := by omega
    obtain ⟨hback, hne⟩ := wordFields_behind (b := b) hn
    rw [splitOn_inetNtop6_some h, readFields_gap (fun h0 => absurd h0 (gapLen_pos run)) hne, hback,
      length_lastWords, List.length_take, length_lastWords]
    -- as many zeros as the run has
    have hlen : 8 - min run.base 8 - (8 - (run.base + run.len)) = run.len := by omega
    have hdrop := drop_lastWords b (8 - run.base) run.base
    have hrun := lastWords_run hzeros (Nat.le_refl _)
    rw [show 8 - (run.base + run.len) + run.len = 8 - run.base by omega] at hrun
    rw [show 8 - run.base + run.base = 8 by omega, hrun] at hdrop
    rw [hlen, ← hdrop, List.take_append_drop]

/-- Two IPv6 addresses with one text have the same bytes. -/
theorem inetNtop6_bytes {b b' : Nat → Byte} (h : inetNtop6 b = inetNtop6 b') :
    ∀ i < 16, b i = b' i := by
  have hwords : lastWords b 8 = lastWords b' 8 := by
    rw [← readV6_inetNtop6, h, readV6_inetNtop6]
  have hword : ∀ k < 8, inetWord b k = inetWord b' k := by
    simp only [lastWords, List.cons.injEq, and_true] at hwords
    obtain ⟨h0, h1, h2, h3, h4, h5, h6, h7⟩ := hwords
    intro k hk
    match k, hk with
    | 0, _ => exact h0
    | 1, _ => exact h1
    | 2, _ => exact h2
    | 3, _ => exact h3
    | 4, _ => exact h4
    | 5, _ => exact h5
    | 6, _ => exact h6
    | 7, _ => exact h7
  intro i hi
  have heq := hword (i / 2) (by omega)
  unfold inetWord at heq
  have hb0 := (b (2 * (i / 2))).isLt
  have hb1 := (b (2 * (i / 2) + 1)).isLt
  have hb0' := (b' (2 * (i / 2))).isLt
  have hb1' := (b' (2 * (i / 2) + 1)).isLt
  apply BitVec.eq_of_toNat_eq
  by_cases heven : i = 2 * (i / 2)
  · rw [heven]
    omega
  · rw [show i = 2 * (i / 2) + 1 by omega]
    omega

/-! ## Letters -/

theorem mem_inetWords (hc : c ∈ inetWords b best n) :
    c = ':' ∨ c = '.' ∨ isDigitOf 16 c = true := by
  induction n with
  | zero => cases hc
  | succ n ih =>
    rw [inetWords] at hc
    split at hc
    next =>
      rcases List.mem_append.mp hc with hc | hc
      · split at hc
        next => exact Or.inl (List.mem_singleton.mp hc)
        next => cases hc
      · exact ih hc
    next =>
      rcases List.mem_append.mp hc with hc | hc
      · split at hc
        next => cases hc
        next => exact Or.inl (List.mem_singleton.mp hc)
      · split at hc
        next =>
          rcases mem_inetNtop4 hc with hc | hc
          · exact Or.inr (Or.inl hc)
          · exact Or.inr (Or.inr (isDigitOf_le hc (by decide)))
        next =>
          rcases List.mem_append.mp hc with hc | hc
          · exact Or.inr (Or.inr (isDigitOf_of_mem_toDigits (by decide) (by decide) hc))
          · exact ih hc

/-- The letters of an IPv6 text: no blank is among them. -/
theorem mem_inetNtop6 (hc : c ∈ inetNtop6 b) : c = ':' ∨ c = '.' ∨ isDigitOf 16 c = true := by
  unfold inetNtop6 at hc
  rcases List.mem_append.mp hc with hc | hc
  · exact mem_inetWords hc
  · split at hc
    next => exact Or.inl (List.mem_singleton.mp hc)
    next => cases hc

end SkbTracer.Libc
