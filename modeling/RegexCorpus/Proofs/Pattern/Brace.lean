import RegexCorpus.Pattern.Brace
import Mathlib.Data.List.Infix
import Mathlib.Data.List.TakeWhile
import Mathlib.Data.Nat.Notation
import Mathlib.Tactic.Cases

/-!
# Which braces are escaped

A pattern is cut into runs, each up to a closing brace. What stands in one run does not matter in
the next, and in each run at most one group is escaped: that of the first brace which may open one,
with the rest of the run as its body. So the escaped braces can be told from the pattern alone,
without reading it from left to right, and escaping them once more changes nothing.
-/

namespace RegexCorpus.Pattern
open List

variable {cs r s u v w body : List Char} {c : Char} {n : ℕ} {g : Bool}

/-! ### Lists cut at an item -/

theorem takeWhile_append_cons (hr : c ∉ r) : (r ++ c :: v).takeWhile (· != c) = r := by
  rw [takeWhile_append_of_pos (by simpa using fun d hd => ne_of_mem_of_not_mem hd hr)]
  simp

theorem suffix_append_cons_iff (hs : c ∉ s) : s <:+ u ++ c :: w ↔ s <:+ w := by
  constructor
  · intro h
    obtain h | h := suffix_or_suffix_of_suffix h (suffix_append u (c :: w))
    · obtain rfl | h := suffix_cons_iff.mp h
      · exact absurd mem_cons_self hs
      · exact h
    · exact absurd (h.subset mem_cons_self) hs
  · intro h
    exact h.trans ((suffix_cons c w).trans (suffix_append u _))

/-- Two cuts of a list at different items: one of them comes first. -/
theorem append_cons_eq_append_cons {α : Type} {x y : α} (hxy : x ≠ y) {as bs cs ds : List α} :
    as ++ x :: bs = cs ++ y :: ds ↔
      (∃ es, as = cs ++ y :: es ∧ ds = es ++ x :: bs) ∨
        ∃ es, cs = as ++ x :: es ∧ bs = es ++ y :: ds := by
  constructor
  · intro h
    obtain ⟨es, hes, htail⟩ | ⟨es, hes, htail⟩ := append_eq_append_iff.mp h
    · obtain ⟨-, heq⟩ | ⟨fs, rfl, hfs⟩ := cons_eq_append_iff.mp htail
      · exact absurd (cons.inj heq).1.symm hxy
      · exact .inr ⟨fs, hes, hfs⟩
    · obtain ⟨-, heq⟩ | ⟨fs, rfl, hfs⟩ := cons_eq_append_iff.mp htail
      · exact absurd (cons.inj heq).1 hxy
      · exact .inl ⟨fs, hes, hfs⟩
  · rintro (⟨es, rfl, rfl⟩ | ⟨es, rfl, rfl⟩) <;> simp

/-! ### Groups -/

/-- A brace after `u` may open a group: it is not escaped, and not the brace of an escape such as
`\u` or `\p`. -/
def OpensAfter (u : List Char) : Prop :=
  ¬['\\'] <:+ u ∧ ∀ l ∈ braceLetters, ¬['\\', l] <:+ u

/-- What stands between the braces of a group that is escaped. -/
structure IsBody (body : List Char) : Prop where
  closed : '\x7d' ∉ body
  /-- The closing brace after it is not escaped. -/
  unescaped : ¬['\\'] <:+ body
  foreign : ∃ c ∈ body, Text.isDigit c = false ∧ c ≠ ','

/-- A group of the pattern: a brace that opens, up to the next closing brace. No brace before it
opens a group that would reach up to there. -/
structure IsGroup (cs u body v : List Char) : Prop where
  text : cs = u ++ '\x7b' :: (body ++ '\x7d' :: v)
  opens : OpensAfter u
  isBody : IsBody body
  first : ∀ a b, u = a ++ '\x7b' :: b → '\x7d' ∉ b → ¬OpensAfter a

theorem opensGroup_iff (u : List Char) :
    opensGroup u.dropLast.getLast? u.getLast? = true ↔ OpensAfter u := by
  induction u using reverseRecOn with
  | nil => simp [opensGroup, OpensAfter]
  | append_singleton u c =>
    have htwo (l : Char) : ['\\', l] <:+ u ++ [c] ↔ c = l ∧ u.getLast? = some '\\' := by
      rw [← singleton_suffix_iff_getLast?_eq_some, ← reverse_prefix,
        ← reverse_prefix, reverse_append]
      exact cons_prefix_cons.trans (and_congr_left fun _ => eq_comm)
    rw [dropLast_concat, getLast?_concat, OpensAfter,
      singleton_suffix_iff_getLast?_eq_some, getLast?_concat]
    simp only [htwo]
    by_cases hc : c = '\\'
    · simp [hc, opensGroup]
    · by_cases hu : u.getLast? = some '\\'
      · simp [hu, opensGroup, hc, ← forall_mem_ne]
      · simp [hu, opensGroup, hc]

theorem closesGroup_append (hr : '\x7d' ∉ r) :
    closesGroup (r ++ '\x7d' :: v) = true ↔ IsBody r := by
  have hlast : r.getLast? ≠ some '\\' ↔ ¬['\\'] <:+ r :=
    not_congr singleton_suffix_iff_getLast?_eq_some.symm
  simp only [closesGroup, takeWhile_append_cons hr, Bool.and_eq_true, decide_eq_true_eq, bne_iff_ne,
    hlast, any_eq_true, Bool.not_eq_true']
  constructor
  · rintro ⟨⟨-, h⟩, hforeign⟩
    exact ⟨hr, h, hforeign⟩
  · rintro ⟨-, h, hforeign⟩
    exact ⟨⟨by simp, h⟩, hforeign⟩

/-- What may open a group after a closing brace does not depend on what stands before the brace. -/
theorem opensAfter_append : OpensAfter (u ++ '\x7d' :: w) ↔ OpensAfter w := by
  have hletter : ∀ l ∈ braceLetters, '\x7d' ∉ ['\\', l] := by simp [braceLetters]
  rw [OpensAfter, OpensAfter, suffix_append_cons_iff (by decide)]
  refine and_congr_right fun _ => forall₂_congr fun l hl => ?_
  rw [suffix_append_cons_iff (hletter l hl)]

theorem IsBody.append (h : IsBody body) (hw : '\x7d' ∉ w) : IsBody (w ++ body) := by
  obtain ⟨c, hc, hforeign⟩ := h.foreign
  refine ⟨by simp [hw, h.closed], ?_, c, mem_append_right w hc, hforeign⟩
  rw [singleton_suffix_iff_getLast?_eq_some, getLast?_append_of_ne_nil _ (ne_nil_of_mem hc),
    ← singleton_suffix_iff_getLast?_eq_some]
  exact h.unescaped

/-! ### Runs -/

def escapeAfter (u : List Char) (inGroup : Bool) (cs : List Char) : List Char :=
  escapeBracesFrom u.dropLast.getLast? u.getLast? inGroup cs

theorem toList_escapeBraces (p : String) :
    (escapeBraces p).toList = escapeAfter [] false p.toList :=
  String.toList_ofList

theorem escapeAfter_cons :
    escapeAfter u g (c :: cs) =
      if g then
        if c == '\x7d' then '\\' :: c :: escapeAfter (u ++ [c]) false cs
        else c :: escapeAfter (u ++ [c]) true cs
      else if c == '\x7b' && opensGroup u.dropLast.getLast? u.getLast? && closesGroup cs then
        '\\' :: c :: escapeAfter (u ++ [c]) true cs
      else c :: escapeAfter (u ++ [c]) false cs := by
  simp only [escapeAfter, escapeBracesFrom, dropLast_concat, getLast?_concat]

/-- What stands before a closing brace does not matter after it. -/
theorem escapeAfter_append : escapeAfter (u ++ '\x7d' :: w) g cs = escapeAfter w g cs := by
  induction cs generalizing w g with
  | nil => rfl
  | cons c cs ih =>
    have hopens : opensGroup (u ++ '\x7d' :: w).dropLast.getLast? (u ++ '\x7d' :: w).getLast? =
        opensGroup w.dropLast.getLast? w.getLast? := by
      rw [Bool.eq_iff_iff, opensGroup_iff, opensGroup_iff, opensAfter_append]
    rw [escapeAfter_cons, escapeAfter_cons, hopens, append_assoc, cons_append, ih, ih]

theorem escapeAfter_last (hr : '\x7d' ∉ r) : escapeAfter u false r = r := by
  induction r generalizing u with
  | nil => rfl
  | cons c r ih =>
    rw [mem_cons, not_or] at hr
    have hcloses : closesGroup r = false := by
      have hbody : r.takeWhile (· != '\x7d') = r :=
        takeWhile_eq_self_iff.mpr (by simpa using fun d hd => ne_of_mem_of_not_mem hd hr.2)
      simp [closesGroup, hbody]
    rw [escapeAfter_cons, if_neg Bool.false_ne_true, if_neg (by simp [hcloses]), ih hr.2]

theorem escapeAfter_group (hr : '\x7d' ∉ r) :
    escapeAfter u true (r ++ '\x7d' :: v) = r ++ '\\' :: '\x7d' :: escapeAfter [] false v := by
  induction r generalizing u with
  | nil =>
    rw [nil_append, escapeAfter_cons, escapeAfter_append (w := [])]
    rfl
  | cons c r ih =>
    rw [mem_cons, not_or] at hr
    rw [cons_append, escapeAfter_cons, if_pos rfl, if_neg (by simpa using Ne.symm hr.1), ih hr.2]
    rfl

/-- The first brace of the run `r` after `u` that opens a group; the rest of the run is its body. -/
structure IsFirst (u r front body : List Char) : Prop where
  text : r = front ++ '\x7b' :: body
  opens : OpensAfter (u ++ front)
  isBody : IsBody body
  first : ∀ a b, front = a ++ '\x7b' :: b → ¬OpensAfter (u ++ a)

/-- No brace of the run `r` after `u` opens a group. -/
def HasNoGroup (u r : List Char) : Prop :=
  ∀ front body, r = front ++ '\x7b' :: body → OpensAfter (u ++ front) → ¬IsBody body

/-- A run up to a closing brace: its first group is escaped, or the run stays. -/
theorem escapeAfter_run (hr : '\x7d' ∉ r) (v : List Char) :
    (∃ front body, IsFirst u r front body ∧
      escapeAfter u false (r ++ '\x7d' :: v) =
        front ++ '\\' :: '\x7b' :: body ++ '\\' :: '\x7d' :: escapeAfter [] false v) ∨
    HasNoGroup u r ∧
      escapeAfter u false (r ++ '\x7d' :: v) = r ++ '\x7d' :: escapeAfter [] false v := by
  induction r generalizing u with
  | nil =>
    refine .inr ⟨by simp [HasNoGroup], ?_⟩
    rw [nil_append, escapeAfter_cons, escapeAfter_append (w := [])]
    rfl
  | cons c r ih =>
    rw [mem_cons, not_or] at hr
    by_cases hopen : c = '\x7b' ∧ OpensAfter u ∧ IsBody r
    · obtain ⟨rfl, hu, hbody⟩ := hopen
      refine .inl ⟨[], r, ⟨rfl, by simpa using hu, hbody, by simp⟩, ?_⟩
      have hgroup := (opensGroup_iff u).mpr hu
      have hcloses := (closesGroup_append (v := v) hr.2).mpr hbody
      rw [cons_append, escapeAfter_cons, if_neg Bool.false_ne_true,
        if_pos (by simp [hgroup, hcloses]), escapeAfter_group hr.2]
      rfl
    · have hstep : escapeAfter u false (c :: r ++ '\x7d' :: v) =
          c :: escapeAfter (u ++ [c]) false (r ++ '\x7d' :: v) := by
        rw [← opensGroup_iff, ← closesGroup_append (v := v) hr.2] at hopen
        rw [cons_append, escapeAfter_cons, if_neg Bool.false_ne_true,
          if_neg (by simpa [and_assoc] using hopen)]
      rw [hstep]
      obtain ⟨front, body, hfirst, heq⟩ | ⟨hnone, heq⟩ := ih hr.2 (u := u ++ [c])
      · refine .inl ⟨c :: front, body, ⟨?_, ?_, hfirst.isBody, ?_⟩, by rw [heq]; rfl⟩
        · rw [hfirst.text, cons_append]
        · simpa using hfirst.opens
        · intro a b hab ha
          obtain ⟨rfl, hab⟩ | ⟨a, rfl, rfl⟩ := cons_eq_append_iff.mp hab
          · -- if this brace could open a group, its body would do, as it ends like the other one
            cases hab
            refine hopen ⟨rfl, by simpa using ha, ?_⟩
            rw [hfirst.text, append_cons]
            rw [hfirst.text, append_cons, mem_append, not_or] at hr
            exact hfirst.isBody.append hr.2.1
          · exact hfirst.first a b rfl (by simpa using ha)
      · refine .inr ⟨fun front body hab hfront hbody => ?_, by rw [heq]; rfl⟩
        obtain ⟨rfl, hab⟩ | ⟨a, rfl, rfl⟩ := cons_eq_append_iff.mp hab
        · cases hab
          exact hopen ⟨rfl, by simpa using hfront, hbody⟩
        · exact hnone a body rfl (by simpa using hfront) hbody

theorem run_induction {P : List Char → Prop} (last : ∀ r, '\x7d' ∉ r → P r)
    (run : ∀ r v, '\x7d' ∉ r → P v → P (r ++ '\x7d' :: v)) (cs : List Char) : P cs := by
  induction hn : cs.length using Nat.strong_induction_on generalizing cs with
  | _ n ih =>
    by_cases hcs : '\x7d' ∈ cs
    · obtain ⟨r, v, rfl, hr⟩ := eq_append_cons_of_mem hcs
      refine run r v hr (ih v.length ?_ v rfl)
      simp only [length_append, length_cons] at hn
      omega
    · exact last cs hcs

/-! ### Places -/

/-- The text with a backslash before the characters at the places `S`; the first one has the
place `n`. -/
def escapeAt (S : ℕ → Prop) [DecidablePred S] (n : ℕ) : List Char → List Char
  | [] => []
  | c :: cs => if S n then '\\' :: c :: escapeAt S (n + 1) cs else c :: escapeAt S (n + 1) cs

section
variable {S T : ℕ → Prop} [DecidablePred S] [DecidablePred T] {m : ℕ}

theorem escapeAt_cons_of_pos (h : S n) :
    escapeAt S n (c :: cs) = '\\' :: c :: escapeAt S (n + 1) cs := if_pos h

theorem escapeAt_cons_of_neg (h : ¬S n) :
    escapeAt S n (c :: cs) = c :: escapeAt S (n + 1) cs := if_neg h

theorem escapeAt_append (xs ys : List Char) :
    escapeAt S n (xs ++ ys) = escapeAt S n xs ++ escapeAt S (n + xs.length) ys := by
  induction xs generalizing n with
  | nil => rfl
  | cons x xs ih =>
    rw [cons_append, escapeAt, escapeAt, ih, length_cons, Nat.add_right_comm, Nat.add_assoc]
    split_ifs <;> rfl

theorem escapeAt_eq_self {xs : List Char} (h : ∀ k < xs.length, ¬S (n + k)) :
    escapeAt S n xs = xs := by
  induction xs generalizing n with
  | nil => rfl
  | cons x xs ih =>
    have hrest : ∀ k < xs.length, ¬S (n + 1 + k) := fun k hk => by
      rw [Nat.add_right_comm]
      exact h (k + 1) (by simpa using hk)
    rw [escapeAt, if_neg (by simpa using h 0), ih hrest]

theorem escapeAt_congr (h : ∀ k, S (n + k) ↔ T (m + k)) (xs : List Char) :
    escapeAt S n xs = escapeAt T m xs := by
  induction xs generalizing n m with
  | nil => rfl
  | cons x xs ih =>
    have hrest : ∀ k, S (n + 1 + k) ↔ T (m + 1 + k) := fun k => by
      rw [Nat.add_right_comm, Nat.add_right_comm m]
      exact h (k + 1)
    rw [escapeAt, escapeAt, ih hrest]
    simp only [show S n ↔ T m from h 0]

/-- A text in which two characters stand at the places. -/
theorem escapeAt_pair {x y : Char} {xs ys zs : List Char}
    (hS : ∀ k ≤ xs.length + ys.length + 1,
      S (n + k) ↔ k = xs.length ∨ k = xs.length + ys.length + 1) :
    escapeAt S n (xs ++ x :: (ys ++ y :: zs)) =
      xs ++ '\\' :: x :: ys ++ '\\' :: y :: escapeAt S (n + (xs.length + ys.length + 2)) zs := by
  have hxs : ∀ k < xs.length, ¬S (n + k) := fun k hk => by
    rw [hS k (by omega)]
    omega
  have hx : S (n + xs.length) := (hS _ (by omega)).mpr (.inl rfl)
  have hys : ∀ k < ys.length, ¬S (n + xs.length + 1 + k) := fun k hk => by
    rw [Nat.add_assoc, Nat.add_assoc, hS _ (by omega)]
    omega
  have hy : S (n + xs.length + 1 + ys.length) := by
    rw [Nat.add_assoc, Nat.add_assoc, hS _ (by omega)]
    omega
  rw [escapeAt_append, escapeAt_eq_self hxs, escapeAt_cons_of_pos hx, escapeAt_append,
    escapeAt_eq_self hys, escapeAt_cons_of_pos hy, append_assoc,
    show n + xs.length + 1 + ys.length + 1 = n + (xs.length + ys.length + 2) by omega]
  rfl

end

/-- A brace of a group stands at place `k`: the one that opens it, or the one that closes it. -/
def IsGroupBrace (cs : List Char) (k : ℕ) : Prop :=
  ∃ u body v, IsGroup cs u body v ∧ (k = u.length ∨ k = u.length + body.length + 1)

open Classical in
/-- What becomes of a piece of the pattern `cs` that starts at place `n`: a backslash is put before
the braces of groups, and nothing else is changed. -/
noncomputable def escapedPiece (cs : List Char) (n : ℕ) (piece : List Char) : List Char :=
  escapeAt (IsGroupBrace cs) n piece

/-- The groups of a run and of what follows its closing brace. -/
theorem isGroup_append {after : List Char} (hr : '\x7d' ∉ r) :
    IsGroup (r ++ '\x7d' :: v) u body after ↔
      (IsFirst [] r u body ∧ after = v) ∨ ∃ w, u = r ++ '\x7d' :: w ∧ IsGroup v w body after := by
  have hbraces : '\x7d' ≠ '\x7b' := by decide
  constructor
  · intro h
    obtain ⟨d, rfl, hd⟩ | ⟨w, rfl, hw⟩ := (append_cons_eq_append_cons hbraces).mp h.text
    · rw [mem_append, mem_cons, not_or, not_or] at hr
      have hbody := congrArg (takeWhile (· != '\x7d')) hd
      rw [takeWhile_append_cons h.isBody.closed, takeWhile_append_cons hr.2.2] at hbody
      subst hbody
      refine .inl ⟨⟨rfl, h.opens, h.isBody, fun a b hab => h.first a b hab ?_⟩, by simpa using hd⟩
      rw [hab, mem_append, mem_cons, not_or, not_or] at hr
      exact hr.1.2.2
    · refine .inr ⟨w, rfl, hw, opensAfter_append.mp h.opens, h.isBody, ?_⟩
      rintro a b rfl hb ha
      exact h.first (r ++ '\x7d' :: a) b (by simp) hb (opensAfter_append.mpr ha)
  · rintro (⟨h, rfl⟩ | ⟨w, rfl, h⟩)
    · exact ⟨by simp [h.text], h.opens, h.isBody, fun a b hab _ => h.first a b hab⟩
    · refine ⟨by simp [h.text], opensAfter_append.mpr h.opens, h.isBody, fun a b hab hb ha => ?_⟩
      obtain ⟨d, -, rfl⟩ | ⟨d, rfl, hd⟩ := (append_cons_eq_append_cons hbraces).mp hab
      · simp at hb
      · exact h.first d b hd hb (opensAfter_append.mp ha)

theorem IsFirst.unique {front front' body' : List Char} (h : IsFirst u r front body)
    (h' : IsFirst u r front' body') : front' = front := by
  have htext := h.text.symm.trans h'.text
  obtain ⟨d, rfl, hd⟩ | ⟨d, rfl, hd⟩ := append_eq_append_iff.mp htext
  · obtain ⟨rfl, -⟩ | ⟨d, rfl, -⟩ := cons_eq_append_iff.mp hd
    · rw [append_nil]
    · exact absurd h.opens (h'.first front d rfl)
  · obtain ⟨rfl, -⟩ | ⟨d, rfl, -⟩ := cons_eq_append_iff.mp hd
    · rw [append_nil]
    · exact absurd h'.opens (h.first front' d rfl)

theorem IsFirst.length_eq {front : List Char} (h : IsFirst u r front body) :
    r.length = front.length + body.length + 1 := by
  simp [h.text, Nat.add_assoc]

theorem isGroupBrace_append_right (hr : '\x7d' ∉ r) (k : ℕ) :
    IsGroupBrace (r ++ '\x7d' :: v) (r.length + 1 + k) ↔ IsGroupBrace v k := by
  constructor
  · rintro ⟨u, body, after, h, hk⟩
    obtain ⟨hfirst, -⟩ | ⟨w, rfl, hgroup⟩ := (isGroup_append hr).mp h
    · have hlength := hfirst.length_eq
      omega
    · refine ⟨w, body, after, hgroup, ?_⟩
      simp only [length_append, length_cons] at hk
      omega
  · rintro ⟨w, body, after, h, hk⟩
    refine ⟨r ++ '\x7d' :: w, body, after, (isGroup_append hr).mpr (.inr ⟨w, rfl, h⟩), ?_⟩
    simp only [length_append, length_cons]
    omega

theorem isGroupBrace_append_left (hr : '\x7d' ∉ r) {k : ℕ} (hk : k ≤ r.length) :
    IsGroupBrace (r ++ '\x7d' :: v) k ↔
      ∃ u body, IsFirst [] r u body ∧ (k = u.length ∨ k = r.length) := by
  constructor
  · rintro ⟨u, body, after, h, hplace⟩
    obtain ⟨hfirst, -⟩ | ⟨w, rfl, -⟩ := (isGroup_append hr).mp h
    · rw [← hfirst.length_eq] at hplace
      exact ⟨u, body, hfirst, hplace⟩
    · simp only [length_append, length_cons] at hplace
      omega
  · rintro ⟨u, body, h, hplace⟩
    rw [h.length_eq] at hplace
    exact ⟨u, body, v, (isGroup_append hr).mpr (.inl ⟨h, rfl⟩), hplace⟩

/-- Reading a pattern from left to right escapes the braces of its groups, and nothing else. -/
theorem escapeAfter_eq_escapedPiece (cs : List Char) :
    escapeAfter [] false cs = escapedPiece cs 0 cs := by
  classical
  unfold escapedPiece
  induction cs using run_induction with
  | last r hr =>
    rw [escapeAfter_last hr, escapeAt_eq_self]
    rintro k - ⟨u, body, v, h, -⟩
    simp [h.text] at hr
  | run r v hr ih =>
    have hrest : escapeAfter [] false v =
        escapeAt (IsGroupBrace (r ++ '\x7d' :: v)) (r.length + 1) v := by
      rw [ih]
      exact escapeAt_congr (fun k => by rw [isGroupBrace_append_right hr, Nat.zero_add]) v
    obtain ⟨front, body, hfirst, heq⟩ | ⟨hnone, heq⟩ := escapeAfter_run (u := []) hr v
    · have hlength := hfirst.length_eq
      have htext : r ++ '\x7d' :: v = front ++ '\x7b' :: (body ++ '\x7d' :: v) := by
        simp [hfirst.text]
      have hplace : ∀ k ≤ front.length + body.length + 1, IsGroupBrace (r ++ '\x7d' :: v) (0 + k) ↔
          k = front.length ∨ k = front.length + body.length + 1 := by
        intro k hk
        rw [Nat.zero_add, isGroupBrace_append_left hr (hlength ▸ hk), ← hlength]
        constructor
        · rintro ⟨u, body', h, hk⟩
          rwa [hfirst.unique h] at hk
        · exact fun hk => ⟨front, body, hfirst, hk⟩
      rw [heq, hrest, hlength, congrArg (escapeAt _ 0) htext, escapeAt_pair hplace, Nat.zero_add]
    · have hplace (k : ℕ) (hk : k ≤ r.length) : ¬IsGroupBrace (r ++ '\x7d' :: v) (0 + k) := by
        rw [Nat.zero_add, isGroupBrace_append_left hr hk]
        rintro ⟨u, body, h, -⟩
        exact hnone u body h.text h.opens h.isBody
      have hrun : escapeAt (IsGroupBrace (r ++ '\x7d' :: v)) 0 r = r :=
        escapeAt_eq_self fun k hk => hplace k hk.le
      rw [heq, hrest, escapeAt_append, hrun, escapeAt_cons_of_neg (hplace _ le_rfl), Nat.zero_add]

theorem escapeBraces_eq_self {p : String}
    (h : ∀ u v, p.toList = u ++ '\x7b' :: v → ¬OpensAfter u) : escapeBraces p = p := by
  classical
  rw [← String.toList_inj, toList_escapeBraces, escapeAfter_eq_escapedPiece, escapedPiece]
  refine escapeAt_eq_self ?_
  rintro k - ⟨u, body, v, hgroup, -⟩
  exact h u _ hgroup.text hgroup.opens

/-! ### A second time -/

theorem escapeAfter_escaped (hr : '\x7d' ∉ r) (v : List Char) :
    escapeAfter [] false (r ++ '\\' :: '\x7d' :: v) =
      r ++ '\\' :: '\x7d' :: escapeAfter [] false v := by
  have hrun : '\x7d' ∉ r ++ ['\\'] := by simpa using hr
  rw [append_cons]
  obtain ⟨front, body, hfirst, -⟩ | ⟨-, heq⟩ := escapeAfter_run (u := []) hrun v
  · have hlast : ['\\'] <:+ front ++ '\x7b' :: body := hfirst.text ▸ suffix_append r _
    exact absurd ((suffix_append_cons_iff (by decide)).mp hlast) hfirst.isBody.unescaped
  · rw [heq, ← append_cons]

theorem escapeAfter_escapeAfter (cs : List Char) :
    escapeAfter [] false (escapeAfter [] false cs) = escapeAfter [] false cs := by
  induction cs using run_induction with
  | last r hr => rw [escapeAfter_last hr, escapeAfter_last hr]
  | run r v hr ih =>
    obtain ⟨front, body, hfirst, heq⟩ | ⟨hnone, heq⟩ := escapeAfter_run (u := []) hr v
    · have hrun : '\x7d' ∉ front ++ '\\' :: '\x7b' :: body := by
        rw [hfirst.text] at hr
        simpa using hr
      rw [heq, escapeAfter_escaped hrun, ih]
    · obtain ⟨front, body, hfirst, -⟩ | ⟨-, hagain⟩ :=
        escapeAfter_run (u := []) hr (escapeAfter [] false v)
      · exact absurd hfirst.isBody (hnone front body hfirst.text hfirst.opens)
      · rw [heq, hagain, ih]

/-- Escaping braces puts a backslash before the opening brace of each group and before the next
closing brace, and changes nothing else. Done twice, it gives the same as once. -/
theorem escapeBraces_idempotent (p : String) :
    escapeBraces (escapeBraces p) = escapeBraces p ∧
      (escapeBraces p).toList = escapedPiece p.toList 0 p.toList := by
  constructor
  · rw [← String.toList_inj, toList_escapeBraces, toList_escapeBraces, escapeAfter_escapeAfter]
  · rw [toList_escapeBraces, escapeAfter_eq_escapedPiece]

end RegexCorpus.Pattern
