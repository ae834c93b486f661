import Mathlib.Data.List.Infix
import RegexCorpus.Host.FileTree

/-!
# Putting a file into a tree

A file that was put at the place of a path is found there by the same path. What has to be seen is
that the walk along the path does not notice the new file before it arrives: the folders on the way
are still folders, and no link on the way has given place to one.
-/

namespace RegexCorpus.FileTree
open List

variable {t new : FileTree} {name other : String} {way p : List String}

/-! ### Entries of folders -/

theorem find?_cons (t : FileTree) (name : String) (way : List String) :
    t.find? (name :: way) = (t.entry? name).bind (·.find? way) := rfl

theorem entry?_setEntry_self (es : List (String × FileTree)) :
    entry? (folder (setEntry name new es)) name = some new := by
  induction es with
  | nil => simp [ entry?, entries, setEntry]
  | cons e es ih =>
    simp only [setEntry]
    split_ifs with he
    · simp [ entry?, entries]
    · simpa [ entry?, entries, find?_cons, he] using ih

theorem entry?_setEntry_of_ne (h : other ≠ name) (es : List (String × FileTree)) :
    entry? (folder (setEntry name new es)) other = entry? (folder es) other := by
  induction es with
  | nil => simp [ entry?, entries, setEntry, h.symm]
  | cons e es ih =>
    simp only [ entry?, entries, setEntry] at ih ⊢
    split_ifs with he
    · have hne : (name == other) = false := by simpa using h.symm
      have hne' : (e.1 == other) = false := by rw [beq_iff_eq] at he; rwa [he]
      rw [List.find?_cons, List.find?_cons, hne, hne']
    · rw [List.find?_cons, List.find?_cons]
      cases e.1 == other
      · exact ih
      · rfl

theorem entry?_put_self (rest : List String) :
    entry? (t.put new (name :: rest)) name =
      some (((t.entry? name).getD (folder [])).put new rest) :=
  entry?_setEntry_self _

theorem entry?_put_of_ne (h : other ≠ name) (rest : List String) :
    entry? (t.put new (name :: rest)) other = t.entry? other :=
  entry?_setEntry_of_ne h _

/-! ### Ways through the tree -/

theorem find?_append (t : FileTree) (p q : List String) :
    t.find? (p ++ q) = (t.find? p).bind (·.find? q) := by
  induction p generalizing t with
  | nil => rfl
  | cons name p ih =>
    rw [cons_append, find?_cons, find?_cons]
    cases t.entry? name with
    | none => rfl
    | some s => exact ih s

theorem find?_put_self (t new : FileTree) (way : List String) :
    (t.put new way).find? way = some new := by
  induction way generalizing t with
  | nil => rfl
  | cons name way ih =>
    rw [find?_cons, entry?_put_self]
    exact ih _

theorem find?_put_before (t new : FileTree) (p : List String) (name : String) (rest : List String) :
    ∃ es, (t.put new (p ++ name :: rest)).find? p = some (folder es) := by
  induction p generalizing t with
  | nil => exact ⟨_, rfl⟩
  | cons first p ih =>
    rw [cons_append, find?_cons, entry?_put_self]
    exact ih _

theorem find?_put_elsewhere (h : ¬p <+: way) (h' : ¬way <+: p) :
    (t.put new way).find? p = t.find? p := by
  induction way generalizing t p with
  | nil => exact absurd nil_prefix h'
  | cons name way ih =>
    cases p with
    | nil => exact absurd nil_prefix h
    | cons first p =>
      rw [find?_cons, find?_cons]
      by_cases he : first = name
      · subst he
        rw [cons_prefix_cons] at h h'
        have hp : ¬p <+: way := fun hp => h ⟨rfl, hp⟩
        rw [entry?_put_self, Option.bind_some, ih hp fun hp => h' ⟨rfl, hp⟩]
        cases t.entry? first with
        | some s => rfl
        | none =>
          -- the folder made on the way is empty but for the way itself
          cases p with
          | nil => exact absurd nil_prefix hp
          | cons => rfl
      · rw [entry?_put_of_ne he]

/-! ### Where the new file does not show -/

section
variable {c : Content} {es : List (String × FileTree)}

theorem find?_below (hway : ∀ es, t.find? way ≠ some (folder es)) (h : way <+: p)
    (hp : t.find? p ≠ none) :
    p = way := by
  obtain ⟨rest, rfl⟩ := h
  cases rest with
  | nil => exact append_nil way
  | cons name rest =>
    rw [find?_append] at hp
    cases hf : t.find? way with
    | none => simp [hf] at hp
    | some s => cases s with
      | folder es => exact absurd hf (hway es)
      | file | link => exact absurd rfl (hf ▸ hp)

/-- A file in place of no folder shows neither beside its way nor below it. -/
theorem find?_put_aside {s : FileTree} (hway : ∀ es, t.find? way ≠ some (folder es))
    (hp : ¬p <+: way) (h : t.find? p = some s) : (t.put (file c) way).find? p = some s := by
  have hbelow : ¬way <+: p := fun hw => hp (find?_below hway hw (by simp [h]) ▸ prefix_rfl)
  rw [find?_put_elsewhere hp hbelow, h]

theorem find?_put_folder (hway : ∀ es, t.find? way ≠ some (folder es))
    (h : t.find? p = some (folder es)) :
    ∃ es', (t.put (file c) way).find? p = some (folder es') := by
  by_cases hp : p <+: way
  · obtain ⟨rest, rfl⟩ := hp
    cases rest with
    | nil =>
      rw [append_nil] at hway
      exact absurd h (hway es)
    | cons name rest => exact find?_put_before t (file c) p name rest
  · exact ⟨es, find?_put_aside hway hp h⟩

end

/-! ### Walks along paths -/

section
variable {root : FileTree} {start steps rest : List String} {tree : Option FileTree}
variable {cwd : List String} {path : String}

  {target : String} {c : Content}

theorem find?_of_advance (h : advance root start steps = .place way tree) :
    root.find? way = tree := by
  fun_induction advance root start steps with
  | case1 => cases h; rfl
  | case2 _ _ ih | case3 _ _ ih | case5 _ _ _ _ _ _ _ ih => exact ih h
  | case4 | case7 | case9 => cases h
  | case6 | case8 => cases h; assumption

def NoLink (root : FileTree) (way : List String) : Prop :=
  ∀ target, root.find? way ≠ some (link target)

theorem noLink_of_find? (h : root.find? way = tree) (htree : ∀ target, tree ≠ some (link target)) :
    NoLink root way := by
  rwa [NoLink, h]

/-- Where a walk along names ends, at a link or elsewhere. -/
def Arrival.way? : Arrival → Option (List String)
  | place way _ => some way
  | link way _ _ => some way.reverse
  | fault _ => none

theorem prefix_cons_reverse (h : p <+: (name :: start).reverse) :
    p = (name :: start).reverse ∨ p <+: start.reverse := by
  rwa [reverse_cons, prefix_concat_iff, ← reverse_cons] at h

/-- Apart from where it began, a walk does not lead through links. -/
theorem noLink_of_advance (h : (advance root start steps).way? = some way) (hp : p <+: way) :
    p <+: start.reverse ∨ NoLink root p := by
  fun_induction advance root start steps with
  | case1 | case4 => cases h; exact .inl hp
  | case2 _ _ ih => exact ih h
  | case3 start rest ih =>
    obtain hp | hp := ih h
    · cases start with
      | nil => exact .inl hp
      | cons name start => exact .inl (hp.trans (by simp))
    · exact .inr hp
  | case5 start name rest _ _ es hf ih =>
    obtain hp | hp := ih h
    · obtain rfl | hp := prefix_cons_reverse hp
      · exact .inr (noLink_of_find? hf (by simp))
      · exact .inl hp
    · exact .inr hp
  | case6 start name rest _ _ c hf | case8 start name rest _ _ hf =>
    cases h
    obtain rfl | hp := prefix_cons_reverse hp
    · exact .inr (noLink_of_find? hf (by simp))
    · exact .inl hp
  | case7 | case9 => cases h

/-- From a link the walk goes on at the root or beside the link. -/
theorem prefix_of_restart {restart : Bool} (h : p <+: (if restart then [] else start).reverse) :
    p <+: start.reverse := by
  split_ifs at h
  · exact prefix_nil.mp h ▸ nil_prefix
  · exact h

theorem noLink_of_follow {links : Nat} (h : follow root links start steps = .ok (way, tree))
    (hp : p <+: way) : p <+: start.reverse ∨ NoLink root p := by
  fun_induction follow root links start steps with
  | case1 | case3 => cases h
  | case2 _ start rest _ _ ha =>
    cases h
    exact noLink_of_advance (by rw [ha]; rfl) hp
  | case4 _ start rest way' target rest' ha ih =>
    obtain hp | hp := ih h
    · exact noLink_of_advance (by rw [ha]; rfl) (prefix_of_restart hp)
    · exact .inr hp

theorem find?_of_follow {links : Nat} (h : follow root links start steps = .ok (way, tree)) :
    root.find? way = tree := by
  fun_induction follow root links start steps with
  | case1 | case3 => cases h
  | case2 _ _ _ _ _ ha =>
    cases h
    exact find?_of_advance ha
  | case4 _ _ _ _ _ _ _ ih => exact ih h

theorem advance_folder {es : List (String × FileTree)} (hdot : name ≠ ".") (hdots : name ≠ "..")
    (h : root.find? (name :: start).reverse = some (folder es)) (rest : List String) :
    advance root start (name :: rest) = advance root (name :: start) rest := by
  rw [advance, h]
  · exact hdot
  · exact hdots

theorem advance_last (hdot : name ≠ ".") (hdots : name ≠ "..")
    (h : NoLink root (name :: start).reverse) :
    advance root start [name] =
      .place (name :: start).reverse (root.find? (name :: start).reverse) := by
  rw [advance]
  · rcases hf : root.find? (name :: start).reverse with _ | (c | es | target)
    · rfl
    · rfl
    · dsimp only
      rw [advance, hf]
    · exact absurd hf (h target)
  · exact hdot
  · exact hdots

/-- What a walk to a place can tell of a tree is the same in the other one: its folders, and the
links that do not lie on the way to the place. -/
structure WalksAlike (root root' : FileTree) (way : List String) : Prop where
  folders : ∀ p es, root.find? p = some (folder es) → ∃ es', root'.find? p = some (folder es')
  links : ∀ p target, root.find? p = some (link target) → ¬p <+: way →
    root'.find? p = some (link target)
  noLink : NoLink root' way

section
variable {root' : FileTree} {links : Nat}

theorem WalksAlike.advance_place (halike : WalksAlike root root' way)
    (h : advance root start steps = .place way tree) :
    advance root' start steps = .place way (root'.find? way) := by
  fun_induction advance root start steps with
  | case1 start =>
    cases h
    rfl
  | case2 start rest ih | case3 start rest ih =>
    rw [advance]
    exact ih h
  | case4 | case7 | case9 => cases h
  | case5 start name rest hdot hdots es hf ih =>
    obtain ⟨es', hf'⟩ := halike.folders _ _ hf
    rw [advance_folder hdot hdots hf']
    exact ih h
  | case6 start name rest hdot hdots c hf hrest | case8 start name rest hdot hdots hf hrest =>
    cases h
    rw [isEmpty_iff.mp hrest]
    exact advance_last hdot hdots halike.noLink

theorem WalksAlike.advance_link {stop : List String} (halike : WalksAlike root root' way)
    (h : advance root start steps = .link stop target rest)
    (hlink : ∀ p, p <+: way → p <+: stop.reverse ∨ NoLink root p) :
    advance root' start steps = .link stop target rest := by
  fun_induction advance root start steps with
  | case1 | case6 | case7 | case8 | case9 => cases h
  | case2 start rest ih | case3 start rest ih =>
    rw [advance]
    exact ih h
  | case4 _ name rest hdot hdots target hf =>
    cases h
    -- on the way to the file there are no links further down than `stop`
    have hp : ¬(name :: stop).reverse <+: way := by
      intro hp
      obtain hp | hp := hlink _ hp
      · have := hp.length_le
        simp only [length_reverse, length_cons] at this
        omega
      · exact hp _ hf
    rw [advance, halike.links _ _ hf hp]
    · exact hdot
    · exact hdots
  | case5 start name rest hdot hdots es hf ih =>
    obtain ⟨es', hf'⟩ := halike.folders _ _ hf
    rw [advance_folder hdot hdots hf']
    exact ih h

theorem WalksAlike.follow (halike : WalksAlike root root' way)
    (h : FileTree.follow root links start steps = .ok (way, tree)) :
    FileTree.follow root' links start steps = .ok (way, root'.find? way) := by
  fun_induction FileTree.follow root links start steps with
  | case1 | case3 => cases h
  | case2 _ _ _ _ _ ha =>
    cases h
    rw [FileTree.follow, halike.advance_place ha]
  | case4 _ start rest stop target rest' ha ih =>
    have hlink : ∀ p, p <+: way → p <+: stop.reverse ∨ NoLink root p := by
      intro p hp
      exact (noLink_of_follow h hp).imp_left prefix_of_restart
    rw [FileTree.follow, halike.advance_link ha hlink]
    exact ih h

/-- A path leads to the same place of both trees. -/
theorem WalksAlike.resolve (halike : WalksAlike root root' way)
    (h : FileTree.resolve root cwd path = .ok (way, tree)) :
    FileTree.resolve root' cwd path = .ok (way, root'.find? way) := by
  rw [FileTree.resolve] at h ⊢
  split_ifs at h ⊢
  all_goals exact halike.follow h

end

theorem find?_of_resolve (h : resolve root cwd path = .ok (way, tree)) : root.find? way = tree := by
  rw [resolve] at h
  split_ifs at h
  all_goals exact find?_of_follow h

theorem resolve_put (h : resolve root cwd path = .ok (way, tree))
    (htree : ∀ es, tree ≠ some (folder es)) :
    resolve (root.put (file c) way) cwd path = .ok (way, some (file c)) := by
  have hway : ∀ es, root.find? way ≠ some (folder es) := by rwa [find?_of_resolve h]
  have halike : WalksAlike root (root.put (file c) way) way := {
    folders := fun _ _ => find?_put_folder hway
    links := fun _ _ hp hprefix => find?_put_aside hway hprefix hp
    noLink := by simp [NoLink, find?_put_self] }
  rw [halike.resolve h, find?_put_self]

/-! ### Writing a file that is there -/

theorem not_prefix_of_file {c' : Content} {s : FileTree} (hway : root.find? way = some (file c'))
    (hp : root.find? p = some s) (hs : ∀ es, s ≠ folder es) (hne : p ≠ way) : ¬p <+: way := by
  rintro ⟨rest, rfl⟩
  cases rest with
  | nil => exact hne (append_nil p).symm
  | cons name rest =>
    rw [find?_append, hp, Option.bind_some] at hway
    cases s with
    | folder es => exact hs es rfl
    | file | link => cases hway

theorem resolve_put_other {c' c'' : Content} (h : resolve root cwd path = .ok (p, some (file c')))
    (hway : root.find? way = some (file c'')) :
    resolve (root.put (file c) way) cwd path =
      .ok (p, some (file (if p = way then c else c'))) := by
  have hfile : ∀ es, root.find? way ≠ some (folder es) := by simp [hway]
  have hend : (root.put (file c) way).find? p = some (file (if p = way then c else c')) := by
    split_ifs with hp
    · rw [hp, find?_put_self]
    · exact find?_put_aside hfile
        (not_prefix_of_file hway (find?_of_resolve h) (by simp) hp) (find?_of_resolve h)
  have halike : WalksAlike root (root.put (file c) way) p := {
    folders := fun _ _ => find?_put_folder hfile
    links := fun q target hq _ => find?_put_aside hfile
      (not_prefix_of_file hway hq (by simp) (by rintro rfl; rw [hway] at hq; cases hq)) hq
    noLink := by simp [NoLink, hend] }
  rw [halike.resolve h, hend]

end

end RegexCorpus.FileTree
