import Mathlib.Data.List.Basic

/-!
# Regular expressions with groups

Classes of letters, sequences, `+` and groups: no expression here matches the empty
word. `Matches r w caps` says that `r` matches the whole of `w` with the groups `caps`,
outer groups before inner ones and the last round of a `+` for the rounds before it. This
is the meaning, and it has no algorithm in it.

`run` is the backtracking matcher: every match of a prefix, the greedy ones first, with
what is left. It finds what there is (`mem_run_iff`), and what is built on it follows:

- `fullMatch` gives a match of the whole word (`fullMatch_sound`), and fails exactly on
  the words that have none (`fullMatch_eq_none_iff`), as `std::regex_match` does;
- `search` finds the first place where a match starts (`search_sound`), and fails exactly
  if there is none (`search_eq_none_iff`), as `std::regex_search` does;
- `matches_cls_iff` and `matches_plus_cls_iff` read simple expressions off.

A `+` takes as many rounds at most as there are letters left. That is enough, since every
round takes a letter (`rounds_complete`), and so the matcher is a recursion over the
expression.

Alternatives, `*`, anchors and back references are left out, and which of several matches
is found is fixed by the order of `run` alone, without a general theorem about it.
-/

namespace SkbTracer.Lib

inductive Regex (α : Type*) where
  | cls (p : α → Bool)
  | seq (r s : Regex α)
  | plus (r : Regex α)
  | group (r : Regex α)

namespace Regex

variable {α : Type*}

/-- The words of an expression, with what its groups capture. -/
inductive Matches : Regex α → List α → List (List α) → Prop
  | cls {p : α → Bool} {x : α} (h : p x = true) : Matches (.cls p) [x] []
  | seq {r s : Regex α} {u v : List α} {caps caps' : List (List α)} (hr : Matches r u caps)
      (hs : Matches s v caps') : Matches (.seq r s) (u ++ v) (caps ++ caps')
  | last {r : Regex α} {u : List α} {caps : List (List α)} (h : Matches r u caps) :
      Matches (.plus r) u caps
  | more {r : Regex α} {u v : List α} {caps caps' : List (List α)} (h : Matches r u caps)
      (hmore : Matches (.plus r) v caps') : Matches (.plus r) (u ++ v) caps'
  | group {r : Regex α} {u : List α} {caps : List (List α)} (h : Matches r u caps) :
      Matches (.group r) u (u :: caps)

/-! ## The matcher -/

/-- At most `n` rounds of what `f` matches, and at least one. -/
def rounds (f : List α → List (List (List α) × List α)) :
    Nat → List α → List (List (List α) × List α)
  | 0, _ => []
  | n + 1, xs => (f xs).flatMap fun m => rounds f n m.2 ++ [m]

/-- The matches of a prefix: the groups, and what is left. -/
def run : Regex α → List α → List (List (List α) × List α)
  | .cls _, [] => []
  | .cls p, x :: xs => if p x then [([], xs)] else []
  | .seq r s, xs => (r.run xs).flatMap fun m => (s.run m.2).map fun m' => (m.1 ++ m'.1, m'.2)
  | .plus r, xs => rounds r.run xs.length xs
  | .group r, xs => (r.run xs).map fun m => (xs.take (xs.length - m.2.length) :: m.1, m.2)

/-- The groups of the first match that leaves nothing. -/
def fullMatch (r : Regex α) (xs : List α) : Option (List (List α)) :=
  ((r.run xs).find? fun m => m.2.isEmpty).map fun m => m.1

/-- The first match from the first place where there is one: what is before it, the groups,
and what is behind it. -/
def search (r : Regex α) : List α → Option (List α × List (List α) × List α)
  | [] => none
  | x :: xs =>
    match r.run (x :: xs) with
    | m :: _ => some ([], m.1, m.2)
    | [] => (r.search xs).map fun m => (x :: m.1, m.2)

/-! ## What it finds -/

variable {r s : Regex α} {p : α → Bool} {xs u rest : List α} {caps : List (List α)}

/-- No expression matches the empty word, which is why the rounds of a `+` come to an
end. -/
theorem Matches.ne_nil (h : r.Matches u caps) : u ≠ [] := by
  induction h with
  | cls _ => exact List.cons_ne_nil _ _
  | seq _ _ ihr _ => exact List.append_ne_nil_of_left_ne_nil ihr _
  | last _ ih => exact ih
  | more _ _ ih _ => exact List.append_ne_nil_of_left_ne_nil ih _
  | group _ ih => exact ih

/-- If `f` finds the matches of `r`, its rounds are matches of `r+`. -/
theorem rounds_sound {f : List α → List (List (List α) × List α)}
    (hf : ∀ xs caps rest, (caps, rest) ∈ f xs → ∃ u, xs = u ++ rest ∧ r.Matches u caps) (n : Nat) :
    ∀ xs caps rest, (caps, rest) ∈ rounds f n xs →
      ∃ u, xs = u ++ rest ∧ (Regex.plus r).Matches u caps := by
  induction n with
  | zero =>
    intro xs caps rest h
    cases h
  | succ n ih =>
    intro xs caps rest h
    rw [rounds, List.mem_flatMap] at h
    obtain ⟨⟨caps₁, rest₁⟩, hfirst, h⟩ := h
    obtain ⟨u, rfl, hu⟩ := hf xs caps₁ rest₁ hfirst
    -- either more rounds follow the first, or it was the last
    rcases List.mem_append.mp h with hmore | hlast
    · obtain ⟨v, rfl, hv⟩ := ih rest₁ caps rest hmore
      exact ⟨u ++ v, (List.append_assoc ..).symm, .more hu hv⟩
    · cases List.mem_singleton.mp hlast
      exact ⟨u, rfl, .last hu⟩

/-- A round takes at least one letter, so there is room for all of them. -/
theorem rounds_complete {f : List α → List (List (List α) × List α)}
    (hf : ∀ u caps rest, r.Matches u caps → (caps, rest) ∈ f (u ++ rest)) (n : Nat) :
    ∀ u caps rest, (Regex.plus r).Matches u caps → (u ++ rest).length ≤ n →
      (caps, rest) ∈ rounds f n (u ++ rest) := by
  induction n with
  | zero =>
    intro u caps rest h hlen
    have hne := List.length_pos_iff.mpr h.ne_nil
    rw [List.length_append] at hlen
    omega
  | succ n ih =>
    intro u caps rest h hlen
    rw [rounds, List.mem_flatMap]
    cases h with
    | last h => exact ⟨_, hf u caps rest h, List.mem_append_right _ (List.mem_singleton.mpr rfl)⟩
    | @more _ u v caps₁ _ h hmore =>
      -- what is left for the other rounds is shorter, so `n` rounds are enough for them
      have hne := List.length_pos_iff.mpr h.ne_nil
      rw [List.append_assoc] at hlen ⊢
      rw [List.length_append] at hlen
      exact ⟨_, hf u caps₁ (v ++ rest) h,
        List.mem_append_left _ (ih v caps rest hmore (by omega))⟩

/-- The matcher finds the matches, all of them and no other. -/
theorem mem_run_iff (r : Regex α) : ∀ xs caps rest,
    (caps, rest) ∈ r.run xs ↔ ∃ u, xs = u ++ rest ∧ r.Matches u caps := by
  -- by induction on the expression, for all words: a part starts where another ended
  induction r with
  | cls p =>
    intro xs caps rest
    constructor
    · intro h
      cases xs with
      | nil => cases h
      | cons x xs =>
        rw [run] at h
        split at h
        · next hp =>
          cases List.mem_singleton.mp h
          exact ⟨[x], rfl, .cls hp⟩
        · cases h
    · intro ⟨u, hu, h⟩
      cases h with
      | @cls _ x hp =>
        rw [hu, List.singleton_append, run, if_pos hp]
        exact List.mem_singleton.mpr rfl
  | seq r s ihr ihs =>
    intro xs caps rest
    rw [run, List.mem_flatMap]
    constructor
    · intro ⟨⟨caps₁, rest₁⟩, hr, hmap⟩
      obtain ⟨⟨caps₂, rest₂⟩, hs, heq⟩ := List.mem_map.mp hmap
      cases heq
      obtain ⟨u, rfl, hu⟩ := (ihr xs caps₁ rest₁).mp hr
      obtain ⟨v, hv, hmv⟩ := (ihs rest₁ caps₂ rest₂).mp hs
      refine ⟨u ++ v, ?_, .seq hu hmv⟩
      rw [hv, List.append_assoc]
    · intro ⟨w, hw, h⟩
      cases h with
      | @seq _ _ u v caps₁ caps₂ hr hs =>
        refine ⟨(caps₁, v ++ rest), (ihr _ _ _).mpr ⟨u, ?_, hr⟩, List.mem_map.mpr
          ⟨(caps₂, rest), (ihs _ _ _).mpr ⟨v, rfl, hs⟩, rfl⟩⟩
        rw [hw, List.append_assoc]
  | plus r ih =>
    intro xs caps rest
    rw [run]
    constructor
    · intro h
      exact rounds_sound (fun xs caps rest h => (ih xs caps rest).mp h) _ xs caps rest h
    · intro ⟨u, hu, h⟩
      rw [hu]
      exact rounds_complete (fun u caps rest h => (ih _ caps rest).mpr ⟨u, rfl, h⟩) _ u caps rest h
        (Nat.le_refl _)
  | group r ih =>
    intro xs caps rest
    rw [run, List.mem_map]
    constructor
    · intro ⟨⟨caps₁, rest₁⟩, hr, heq⟩
      cases heq
      obtain ⟨u, rfl, hu⟩ := (ih xs caps₁ rest₁).mp hr
      refine ⟨u, rfl, ?_⟩
      -- the group is what was taken from the front
      rw [List.length_append, Nat.add_sub_cancel, List.take_left]
      exact .group hu
    · intro ⟨u, hu, h⟩
      cases h with
      | @group _ _ caps₁ h =>
        refine ⟨(caps₁, rest), (ih _ _ _).mpr ⟨u, hu, h⟩, ?_⟩
        rw [hu, List.length_append, Nat.add_sub_cancel, List.take_left]

/-- What is found is a match. -/
theorem fullMatch_sound (h : r.fullMatch xs = some caps) : r.Matches xs caps := by
  obtain ⟨⟨caps₁, rest⟩, hfind, rfl⟩ := Option.map_eq_some_iff.mp h
  have hisEmpty := List.find?_some hfind
  have hempty : rest = [] := List.isEmpty_iff.mp hisEmpty
  obtain ⟨u, hu, hm⟩ := (mem_run_iff r xs caps₁ rest).mp (List.mem_of_find?_eq_some hfind)
  rw [hempty, List.append_nil] at hu
  rwa [hu]

/-- And nothing is found only where there is none. -/
theorem fullMatch_eq_none_iff : r.fullMatch xs = none ↔ ∀ caps, ¬ r.Matches xs caps := by
  constructor
  · intro h caps hm
    have hmem : (caps, []) ∈ r.run xs := (mem_run_iff r xs caps []).mpr ⟨xs, by simp, hm⟩
    exact absurd rfl (List.find?_eq_none.mp (Option.map_eq_none_iff.mp h) _ hmem)
  · intro h
    rcases hfull : r.fullMatch xs with _ | caps
    · rfl
    · exact absurd (fullMatch_sound hfull) (h caps)

theorem run_eq_nil_iff : r.run xs = [] ↔ ∀ u rest caps, xs = u ++ rest → ¬ r.Matches u caps := by
  rw [List.eq_nil_iff_forall_not_mem]
  constructor
  · intro h u rest caps hxs hm
    exact h (caps, rest) ((mem_run_iff r xs caps rest).mpr ⟨u, hxs, hm⟩)
  · intro h m hm
    obtain ⟨u, hxs, hu⟩ := (mem_run_iff r xs m.1 m.2).mp hm
    exact h u m.2 m.1 hxs hu

/-- Nothing is found in a word without a match. -/
theorem search_eq_none_iff : r.search xs = none ↔
    ∀ before u rest caps, xs = before ++ (u ++ rest) → ¬ r.Matches u caps := by
  induction xs with
  | nil =>
    refine ⟨fun _ before u rest caps hxs hm => ?_, fun _ => rfl⟩
    have hnil := List.append_eq_nil_iff.mp (List.append_eq_nil_iff.mp hxs.symm).2
    exact hm.ne_nil hnil.1
  | cons x xs ih =>
    rw [search]
    split
    next m ms hrun =>
      obtain ⟨u, hxs, hu⟩ := (mem_run_iff r _ m.1 m.2).mp (by rw [hrun]; exact List.mem_cons_self)
      exact iff_of_false (by simp) fun h => h [] u m.2 m.1 hxs hu
    next hrun =>
      rw [Option.map_eq_none_iff, ih]
      constructor
      · intro h before u rest caps hxs
        cases before with
        | nil => exact run_eq_nil_iff.mp hrun u rest caps hxs
        | cons b before =>
          cases hxs
          exact h before u rest caps rfl
      · intro h before u rest caps hxs
        exact h (x :: before) u rest caps (by rw [hxs]; rfl)

/-- What is found is a match, and none starts before it. -/
theorem search_sound {before : List α} (h : r.search xs = some (before, caps, rest)) :
    ∃ u, xs = before ++ (u ++ rest) ∧ r.Matches u caps ∧
      ∀ before' u' rest' caps', xs = before' ++ (u' ++ rest') → r.Matches u' caps' →
        before.length ≤ before'.length := by
  induction xs generalizing before with
  | nil => cases h
  | cons x xs ih =>
    rw [search] at h
    split at h
    next m ms hrun =>
      obtain ⟨caps₁, rest₁⟩ := m
      cases h
      obtain ⟨u, hxs, hu⟩ := (mem_run_iff r _ _ _).mp (by rw [hrun]; exact List.mem_cons_self)
      exact ⟨u, hxs, hu, fun _ _ _ _ _ _ => Nat.zero_le _⟩
    next hrun =>
      obtain ⟨⟨before₁, caps₁, rest₁⟩, hsearch, heq⟩ := Option.map_eq_some_iff.mp h
      cases heq
      obtain ⟨u, hxs, hu, hfirst⟩ := ih hsearch
      refine ⟨u, by rw [hxs]; rfl, hu, fun before' u' rest' caps' hxs' hm => ?_⟩
      cases before' with
      | nil => exact absurd hm (run_eq_nil_iff.mp hrun u' rest' caps' hxs')
      | cons b before' =>
        cases hxs'
        exact Nat.succ_le_succ (hfirst before' u' rest' caps' rfl hm)

theorem matches_cls_iff : (Regex.cls p).Matches u caps ↔ ∃ x, p x = true ∧ u = [x] ∧ caps = [] := by
  constructor
  · intro h
    cases h with
    | cls hp => exact ⟨_, hp, rfl, rfl⟩
  · rintro ⟨x, hp, rfl, rfl⟩
    exact .cls hp

theorem matches_plus_cls_iff :
    (Regex.plus (.cls p)).Matches u caps ↔ u ≠ [] ∧ (∀ x ∈ u, p x = true) ∧ caps = [] := by
  constructor
  · intro h
    refine ⟨h.ne_nil, ?_⟩
    -- the expression must be a variable for the induction, with only the rounds of a `+` left
    generalize hr : Regex.plus (.cls p) = r at h
    induction h with
    | cls _ => cases hr
    | seq _ _ _ _ => cases hr
    | group _ _ => cases hr
    | last h _ =>
      cases hr
      cases h with
      | cls hp => simp [hp]
    | more h _ _ ih =>
      obtain ⟨hall, hcaps⟩ := ih hr
      cases hr
      cases h with
      | cls hp =>
        refine ⟨fun x hx => ?_, hcaps⟩
        rcases List.mem_append.mp hx with hx | hx
        · rw [List.mem_singleton.mp hx]
          exact hp
        · exact hall x hx
  · intro ⟨hne, hall, hcaps⟩
    subst hcaps
    induction u with
    | nil => exact absurd rfl hne
    | cons x u ih =>
      have hx : (Regex.cls p).Matches [x] [] := .cls (hall x (List.mem_cons_self ..))
      cases u with
      | nil => exact .last hx
      | cons y u =>
        exact .more hx (ih (List.cons_ne_nil _ _) fun z hz => hall z (List.mem_cons_of_mem _ hz))

end Regex

end SkbTracer.Lib
