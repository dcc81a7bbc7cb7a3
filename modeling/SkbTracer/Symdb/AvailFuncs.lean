import Mathlib.Data.Char
import Mathlib.Data.List.Lex
import SkbTracer.Lib.OrdMap
import SkbTracer.Symdb.Modules

/-!
# The functions that can be probed

`get_avail_funcs` reads `available_filter_functions`. A line is the name of a function,
or that of a function of a module with the module in brackets behind it. The pattern
`\[([^\]]+)\]` finds the brackets, and what is before them, less one letter, is the name.
Nothing keeps the letter from missing: on a line that starts with the brackets
`pop_back` is called on an empty string, and the reading has no result here.

`FirstTag` says where the first brackets of a line are, without the pattern; the lemmas
about one line translate the search into it once, and the rest of the module speaks of
`FirstTag` only.

- `availFunc_eq_none_iff`: a line fails exactly if it starts with the brackets.
- `availFunc_eq_some_iff`: which name is read off a line, whatever the line is.
- `avail_funcs_law`: what is read of any file. It fails exactly if one of its lines does,
  and otherwise it has the names of the lines, once each.
- `mem_getAvailFuncs_iff`: of a file of the kernel's form, `AvailLine`, exactly the
  functions are read. Such a file never fails.

A file that cannot be opened gives no names, and that is no error. Which of the names are
functions that take an sk_buff is not looked at here but in `get_skb_func_from_btfs`.
-/

namespace SkbTracer.Symdb

open SkbTracer.Lib (Regex OrdMap)

/-! ## The code -/

/-- `\[([^\]]+)\]`. -/
def moduleTag : Regex Char :=
  .seq (.seq (.cls (· == '[')) (.group (.plus (.cls (· != ']'))))) (.cls (· == ']'))

/-- The function that a line names; `none` if `pop_back` has nothing to take away. -/
def availFunc (line : List Char) : Option (List Char) :=
  match moduleTag.search line with
  | none => some line
  | some ([], _, _) => none
  | some (c :: before, _, _) => some (c :: before).dropLast

/-- `kprobe_funcs[func] = true`. -/
def addLine (kprobeFuncs : OrdMap (List Char) Bool) (line : List Char) :
    Option (OrdMap (List Char) Bool) :=
  (availFunc line).map fun func => kprobeFuncs.set func true

/-- `get_avail_funcs()`; `file` is the text of `available_filter_functions`, if that could
be opened. -/
def getAvailFuncs (file : Option (List Char)) : Option (OrdMap (List Char) Bool) :=
  match file with
  | none => some .empty
  | some text => (getlines text).foldlM addLine .empty

/-! ## The file -/

/-- A line of the file. -/
structure AvailLine where
  name : List Char
  modName : Option (List Char)
  name_plain : ∀ c ∈ name, c ≠ '[' ∧ c ≠ '\n'
  modName_plain : ∀ m ∈ modName, m ≠ [] ∧ ∀ c ∈ m, c ≠ ']' ∧ c ≠ '\n'

/-- A name, and the module in brackets. -/
def AvailLine.text (l : AvailLine) : List Char :=
  match l.modName with
  | none => l.name
  | some m => l.name ++ ' ' :: '[' :: (m ++ [']'])

/-! ## One line -/

variable {line w before rest func name : List Char} {caps : List (List Char)}

/-- A module in brackets. -/
def IsTag (w : List Char) : Prop := ∃ u, w = '[' :: (u ++ [']']) ∧ u ≠ [] ∧ ∀ c ∈ u, c ≠ ']'

/-- The brackets are behind `before`, and none are anywhere else before them. -/
structure FirstTag (before line : List Char) : Prop where
  here : ∃ w rest, line = before ++ (w ++ rest) ∧ IsTag w
  first : ∀ before' w rest, line = before' ++ (w ++ rest) → IsTag w →
    before.length ≤ before'.length

/-- The pattern matches the texts in brackets, with something in them and no bracket
that closes. -/
theorem moduleTag_matches_iff : (∃ caps, moduleTag.Matches w caps) ↔ IsTag w := by
  unfold moduleTag
  constructor
  · rintro ⟨caps, h⟩
    cases h with
    | seq hfront hclose =>
      cases hfront with
      | seq hopen hgroup =>
        cases hgroup with
        | group hu =>
          obtain ⟨c, hc, rfl, -⟩ := Regex.matches_cls_iff.mp hopen
          obtain ⟨hne, hall, -⟩ := Regex.matches_plus_cls_iff.mp hu
          obtain ⟨d, hd, rfl, -⟩ := Regex.matches_cls_iff.mp hclose
          rw [beq_iff_eq.mp hc, beq_iff_eq.mp hd]
          exact ⟨_, rfl, hne, fun x hx => by simpa using hall x hx⟩
  · rintro ⟨u, rfl, hne, hall⟩
    have hopen : (Regex.cls (· == '[')).Matches ['['] [] := .cls rfl
    have hu : (Regex.plus (.cls (· != ']'))).Matches u [] :=
      Regex.matches_plus_cls_iff.mpr ⟨hne, fun x hx => by simpa using hall x hx, rfl⟩
    have hclose : (Regex.cls (· == ']')).Matches [']'] [] := .cls rfl
    exact ⟨_, .seq (.seq hopen (.group hu)) hclose⟩

theorem FirstTag.unique {before' : List Char} (h : FirstTag before line)
    (h' : FirstTag before' line) : before = before' := by
  obtain ⟨w, rest, hline, hw⟩ := h.here
  obtain ⟨w', rest', hline', hw'⟩ := h'.here
  have hlen : before.length = before'.length :=
    Nat.le_antisymm (h.first before' w' rest' hline' hw') (h'.first before w rest hline hw)
  exact (List.append_inj (hline.symm.trans hline') hlen).1

/-- What `std::regex_search` finds is the first, since it starts the pattern at the
leftmost letter that it can. -/
theorem firstTag_of_search (h : moduleTag.search line = some (before, caps, rest)) :
    FirstTag before line := by
  obtain ⟨w, hline, hm, hfirst⟩ := Regex.search_sound h
  refine ⟨⟨w, rest, hline, moduleTag_matches_iff.mp ⟨_, hm⟩⟩, fun before' w' rest' hline' hw' => ?_⟩
  obtain ⟨caps', hm'⟩ := moduleTag_matches_iff.mpr hw'
  exact hfirst before' w' rest' caps' hline' hm'

/-- It finds nothing only in a line without brackets. -/
theorem search_none_iff : moduleTag.search line = none ↔ ∀ before, ¬ FirstTag before line := by
  rcases h : moduleTag.search line with _ | ⟨before, caps, rest⟩
  · refine iff_of_true rfl fun before hfirst => ?_
    obtain ⟨w, rest, hline, hw⟩ := hfirst.here
    obtain ⟨caps, hm⟩ := moduleTag_matches_iff.mpr hw
    exact Regex.search_eq_none_iff.mp h before w rest caps hline hm
  · exact iff_of_false (by simp) fun hnone => hnone before (firstTag_of_search h)

/-- Where the search finds brackets. -/
theorem FirstTag.search (h : FirstTag before line) :
    ∃ caps rest, moduleTag.search line = some (before, caps, rest) := by
  rcases hs : moduleTag.search line with _ | ⟨before', caps, rest⟩
  · exact absurd h (search_none_iff.mp hs before)
  · rw [h.unique (firstTag_of_search hs)]
    exact ⟨caps, rest, rfl⟩

/-- The lines that have nothing before the brackets. -/
theorem availFunc_eq_none_iff : availFunc line = none ↔ FirstTag [] line := by
  unfold availFunc
  split
  next h => exact iff_of_false (by simp) (search_none_iff.mp h [])
  next h => exact iff_of_true rfl (firstTag_of_search h)
  next h =>
    refine iff_of_false (by simp) fun hnil => ?_
    cases hnil.unique (firstTag_of_search h)

/-- **The name in a line**: all of it, or what is before the first brackets and the letter
in front of them. -/
theorem availFunc_eq_some_iff : availFunc line = some func ↔
    (∀ before, ¬ FirstTag before line) ∧ func = line ∨ ∃ c, FirstTag (func ++ [c]) line := by
  unfold availFunc
  split
  next h =>
    have hno := search_none_iff.mp h
    constructor
    · intro heq
      exact Or.inl ⟨hno, (Option.some.inj heq).symm⟩
    · rintro (⟨-, rfl⟩ | ⟨c, hc⟩)
      · rfl
      · exact absurd hc (hno _)
  next h =>
    refine iff_of_false (by simp) ?_
    rintro (⟨hno, -⟩ | ⟨c, hc⟩)
    · exact hno [] (firstTag_of_search h)
    · cases func <;> cases hc.unique (firstTag_of_search h)
  next d before caps rest h =>
    have hfirst := firstTag_of_search h
    constructor
    · intro heq
      refine Or.inr ⟨(d :: before).getLast (List.cons_ne_nil _ _), ?_⟩
      rw [← Option.some.inj heq, List.dropLast_append_getLast]
      exact hfirst
    · rintro (⟨hno, -⟩ | ⟨c, hc⟩)
      · exact absurd hfirst (hno _)
      · rw [← hc.unique hfirst, List.dropLast_concat]

/-! ## The kernel's lines -/

theorem no_tag (h : '[' ∉ line) (before : List Char) : ¬ FirstTag before line := by
  intro hfirst
  obtain ⟨w, rest, rfl, u, rfl, -⟩ := hfirst.here
  exact h (by simp)

/-- Brackets behind a name without any are the first ones. -/
theorem firstTag_append {u : List Char} (hbefore : '[' ∉ before) (hne : u ≠ [])
    (hu : ∀ c ∈ u, c ≠ ']') : FirstTag before (before ++ '[' :: (u ++ [']'])) := by
  refine ⟨⟨_, [], by rw [List.append_nil], u, rfl, hne, hu⟩, fun before' w' rest' hline htag => ?_⟩
  obtain ⟨u', rfl, -⟩ := htag
  -- earlier brackets would open in `before`
  rcases List.append_eq_append_iff.mp hline with ⟨v, rfl, -⟩ | ⟨v, rfl, hv⟩
  · rw [List.length_append]
    exact Nat.le_add_right _ _
  · cases v with
    | nil => rw [List.append_nil]
    | cons c v =>
      obtain ⟨rfl, -⟩ := List.cons.inj hv
      exact absurd (by simp) hbefore

/-- Of a line of the kernel's the name is read, whether there is a module behind it or
not. -/
theorem availFunc_text (l : AvailLine) : availFunc l.text = some l.name := by
  have hname : '[' ∉ l.name := fun h => (l.name_plain _ h).1 rfl
  rw [availFunc_eq_some_iff]
  unfold AvailLine.text
  rcases hm : l.modName with _ | m
  · exact Or.inl ⟨no_tag hname, rfl⟩
  · obtain ⟨hne, hall⟩ := l.modName_plain m hm
    refine Or.inr ⟨' ', ?_⟩
    have hline : l.name ++ ' ' :: '[' :: (m ++ [']']) =
        (l.name ++ [' ']) ++ '[' :: (m ++ [']']) := by
      simp
    dsimp only
    rw [hline]
    apply firstTag_append _ hne fun c hc => (hall c hc).1
    rw [List.mem_append, List.mem_singleton, not_or]
    exact ⟨hname, by decide⟩

theorem text_noNewline (l : AvailLine) : ∀ c ∈ l.text, c ≠ '\n' := by
  intro c hc
  unfold AvailLine.text at hc
  rcases hm : l.modName with _ | m
  · rw [hm] at hc
    exact (l.name_plain c hc).2
  · rw [hm] at hc
    have hcases : c ∈ l.name ∨ c = ' ' ∨ c = '[' ∨ c ∈ m ∨ c = ']' := by simpa using hc
    rcases hcases with hc | rfl | rfl | hc | rfl
    · exact (l.name_plain c hc).2
    · decide
    · decide
    · exact ((l.modName_plain m hm).2 c hc).2
    · decide

/-! ## The file -/

/-- The walk fails exactly if some line fails it. What the map has by then makes no
difference. -/
theorem foldlM_addLine_eq_none_iff (lines : List (List Char)) (m : OrdMap (List Char) Bool) :
    lines.foldlM addLine m = none ↔ ∃ line ∈ lines, FirstTag [] line := by
  induction lines generalizing m with
  | nil => simp
  | cons line lines ih =>
    rw [List.foldlM_cons, List.exists_mem_cons_iff, ← availFunc_eq_none_iff]
    unfold addLine
    cases availFunc line with
    | none => exact iff_of_true rfl (Or.inl rfl)
    | some func => exact (ih _).trans (or_iff_right (by simp)).symm

/-- A walk that does not fail has the names that were there and those in the lines. -/
theorem mem_keys_foldlM_addLine {lines : List (List Char)} {m funcs : OrdMap (List Char) Bool}
    (h : lines.foldlM addLine m = some funcs) (f : List Char) :
    f ∈ funcs.keys ↔ f ∈ m.keys ∨ ∃ line ∈ lines, availFunc line = some f := by
  induction lines generalizing m with
  | nil =>
    obtain rfl := Option.some.inj h
    simp
  | cons line lines ih =>
    obtain ⟨m', hline, hrest⟩ := Option.bind_eq_some_iff.mp h
    obtain ⟨func, hfunc, rfl⟩ := Option.map_eq_some_iff.mp hline
    rw [ih hrest, OrdMap.mem_keys_set, List.exists_mem_cons_iff, hfunc, Option.some.injEq, or_assoc,
      or_left_comm, eq_comm]

/-- **What is read of any file.** The walk fails, by `pop_back` on an empty string, exactly if
some line begins with the brackets. Else it keeps, once each, the name in every line. -/
theorem avail_funcs_law (text : List Char) :
    (getAvailFuncs (some text) = none ↔ ∃ line ∈ getlines text, FirstTag [] line) ∧
      ∀ funcs, getAvailFuncs (some text) = some funcs → funcs.keys.Nodup ∧
        ∀ f, f ∈ funcs.keys ↔ ∃ line ∈ getlines text,
          (∀ before, ¬ FirstTag before line) ∧ f = line ∨ ∃ c, FirstTag (f ++ [c]) line := by
  refine ⟨foldlM_addLine_eq_none_iff _ _, fun funcs h => ⟨funcs.keys_nodup, fun f => ?_⟩⟩
  rw [mem_keys_foldlM_addLine h f, or_iff_right (by exact List.not_mem_nil)]
  simp only [availFunc_eq_some_iff]

/-- **Of a file of the kernel's lines exactly the functions are read**, those of modules
without the modules. -/
theorem mem_getAvailFuncs_iff (lines : List AvailLine) :
    ∃ funcs, getAvailFuncs (some (textOf (lines.map AvailLine.text))) = some funcs ∧
      ∀ f, f ∈ funcs.keys ↔ f ∈ lines.map AvailLine.name := by
  have hlines : getlines (textOf (lines.map AvailLine.text)) = lines.map AvailLine.text := by
    apply getlines_textOf
    intro line hline
    obtain ⟨l, -, rfl⟩ := List.mem_map.mp hline
    exact text_noNewline l
  have hnone : ¬ ∃ line ∈ lines.map AvailLine.text, FirstTag [] line := by
    rintro ⟨line, hline, hfirst⟩
    obtain ⟨l, -, rfl⟩ := List.mem_map.mp hline
    rw [← availFunc_eq_none_iff, availFunc_text] at hfirst
    cases hfirst
  unfold getAvailFuncs
  dsimp only
  rw [hlines]
  obtain ⟨funcs, hfuncs⟩ := Option.ne_none_iff_exists'.mp fun h =>
    hnone ((foldlM_addLine_eq_none_iff _ .empty).mp h)
  refine ⟨funcs, hfuncs, fun f => ?_⟩
  rw [mem_keys_foldlM_addLine hfuncs f, or_iff_right (by exact List.not_mem_nil)]
  simp only [List.mem_map, exists_exists_and_eq_and, availFunc_text, Option.some.injEq]

end SkbTracer.Symdb
