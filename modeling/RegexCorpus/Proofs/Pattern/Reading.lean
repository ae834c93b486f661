import RegexCorpus.Pattern.Quote
import Mathlib.Data.List.Infix
import Mathlib.Data.Nat.Notation
import Mathlib.Tactic.Cases

/-!
# Patterns read in pieces

One reading of a pattern from left to right cuts it into pieces: characters, escaped characters, and
quotes, each from `\Q` to the next `\E`. At the end there may be a backslash that escapes nothing,
or a quote that nothing closes. Each piece is expanded by itself, so that a reading says what quotes
stand for, without any regard to what comes out for other pieces.
-/

namespace RegexCorpus.Pattern
open List

inductive Piece where
  | char (c : Char)
  | escaped (c : Char)
  | quote (text : List Char)
  deriving DecidableEq, Repr

/-- How a pattern ends after its last piece. -/
inductive Ending where
  | complete
  | backslash
  | openQuote (text : List Char)
  deriving DecidableEq, Repr

structure Reading where
  pieces : List Piece
  ending : Ending
  deriving DecidableEq, Repr

def Piece.text : Piece → List Char
  | char c => [c]
  | escaped c => ['\\', c]
  | quote t => '\\' :: 'Q' :: (t ++ ['\\', 'E'])

/-- The piece with its quoted text escaped. -/
def Piece.expansion : Piece → List Char
  | char c => [c]
  | escaped c => ['\\', c]
  | quote t => escapeText t

def Ending.text : Ending → List Char
  | complete => []
  | backslash => ['\\']
  | openQuote t => '\\' :: 'Q' :: t

def Ending.expansion : Ending → List Char
  | complete => []
  | backslash => ['\\']
  | openQuote t => escapeText t

namespace Reading

def text (r : Reading) : List Char := r.pieces.flatMap Piece.text ++ r.ending.text

/-- The pattern with all quoted text escaped. -/
def expansion (r : Reading) : List Char := r.pieces.flatMap Piece.expansion ++ r.ending.expansion

def cons (x : Piece) (r : Reading) : Reading := { r with pieces := x :: r.pieces }

theorem text_cons (x : Piece) (r : Reading) : (r.cons x).text = x.text ++ r.text := by
  simp [cons, text]

theorem expansion_cons (x : Piece) (r : Reading) :
    (r.cons x).expansion = x.expansion ++ r.expansion := by
  simp [cons, expansion]

end Reading

/-- The reading of the rest of a pattern; inside a quote, `quoted` is its text so far. -/
def readFrom : Option (List Char) → List Char → Reading
  | none, [] => ⟨[], .complete⟩
  | none, ['\\'] => ⟨[], .backslash⟩
  | none, '\\' :: 'Q' :: cs => readFrom (some []) cs
  | none, '\\' :: c :: cs => (readFrom none cs).cons (.escaped c)
  | none, c :: cs => (readFrom none cs).cons (.char c)
  | some quoted, [] => ⟨[], .openQuote quoted⟩
  | some quoted, '\\' :: 'E' :: cs => (readFrom none cs).cons (.quote quoted)
  | some quoted, c :: cs => readFrom (some (quoted ++ [c])) cs

def read (cs : List Char) : Reading := readFrom none cs

/-! ### Quoted text -/

def HasNoEnd (t : List Char) : Prop := ¬['\\', 'E'] <:+: t

variable {c : Char} {cs t : List Char}

theorem hasNoEnd_nil : HasNoEnd [] := by simp [HasNoEnd]

theorem hasNoEnd_cons : HasNoEnd (c :: t) ↔ HasNoEnd t ∧ ¬(c = '\\' ∧ ∃ t', t = 'E' :: t') := by
  rw [HasNoEnd, HasNoEnd, infix_cons_iff, not_or, and_comm]
  refine and_congr_right fun _ => not_congr ?_
  rw [cons_prefix_cons, eq_comm]
  refine and_congr_right fun _ => ?_
  constructor
  · rintro ⟨t', rfl⟩
    exact ⟨t', rfl⟩
  · rintro ⟨t', rfl⟩
    exact ⟨t', rfl⟩

/-- Before `\E`, a text without it is still not closed by any of its characters. -/
theorem HasNoEnd.not_end (h : HasNoEnd (c :: t)) (cs : List Char) :
    ¬(c = '\\' ∧ ∃ rest, t ++ '\\' :: 'E' :: cs = 'E' :: rest) := by
  rintro ⟨rfl, rest, hrest⟩
  cases t with
  | nil => cases hrest
  | cons d t =>
    obtain ⟨rfl, -⟩ := cons.inj hrest
    exact (hasNoEnd_cons.mp h).2 ⟨rfl, t, rfl⟩

theorem HasNoEnd.left {u : List Char} (h : HasNoEnd (t ++ u)) : HasNoEnd t :=
  fun hend => h (hend.trans (prefix_append t u).isInfix)

theorem hasNoEnd_or (cs : List Char) :
    HasNoEnd cs ∨ ∃ t rest, cs = t ++ '\\' :: 'E' :: rest ∧ HasNoEnd t := by
  induction cs with
  | nil => exact .inl hasNoEnd_nil
  | cons c cs ih =>
    by_cases hend : c = '\\' ∧ ∃ rest, cs = 'E' :: rest
    · obtain ⟨rfl, rest, rfl⟩ := hend
      exact .inr ⟨[], rest, rfl, hasNoEnd_nil⟩
    · obtain h | ⟨t, rest, rfl, ht⟩ := ih
      · exact .inl (hasNoEnd_cons.mpr ⟨h, hend⟩)
      · refine .inr ⟨c :: t, rest, rfl, hasNoEnd_cons.mpr ⟨ht, ?_⟩⟩
        rintro ⟨rfl, t', rfl⟩
        exact hend ⟨rfl, _, rfl⟩

/-! ### The reading of a pattern -/

theorem read_char (hc : c ≠ '\\') (cs : List Char) : read (c :: cs) = (read cs).cons (.char c) := by
  unfold read
  rw [readFrom]
  all_goals simp [hc]

theorem read_escaped (hc : c ≠ 'Q') (cs : List Char) :
    read ('\\' :: c :: cs) = (read cs).cons (.escaped c) := by
  unfold read
  rw [readFrom]
  simpa using hc

theorem readFrom_quoted {quoted : List Char} (hc : ¬(c = '\\' ∧ ∃ rest, cs = 'E' :: rest)) :
    readFrom (some quoted) (c :: cs) = readFrom (some (quoted ++ [c])) cs := by
  rw [readFrom]
  exact fun rest h hrest => hc ⟨h, rest, hrest⟩

theorem read_quote (ht : HasNoEnd t) (cs : List Char) :
    read ('\\' :: 'Q' :: (t ++ '\\' :: 'E' :: cs)) = (read cs).cons (.quote t) := by
  suffices h : ∀ quoted, readFrom (some quoted) (t ++ '\\' :: 'E' :: cs) =
      (read cs).cons (.quote (quoted ++ t)) from h []
  induction t with
  | nil => simp [readFrom, read]
  | cons c t ih =>
    intro quoted
    rw [cons_append, readFrom_quoted (ht.not_end cs), ih (hasNoEnd_cons.mp ht).1]
    simp

theorem read_openQuote (ht : HasNoEnd t) : read ('\\' :: 'Q' :: t) = ⟨[], .openQuote t⟩ := by
  suffices h : ∀ quoted, readFrom (some quoted) t = ⟨[], .openQuote (quoted ++ t)⟩ from h []
  induction t with
  | nil => simp [readFrom]
  | cons c t ih =>
    intro quoted
    rw [readFrom_quoted (hasNoEnd_cons.mp ht).2, ih (hasNoEnd_cons.mp ht).1]
    simp

theorem pattern_induction {P : List Char → Prop} (nil : P []) (backslash : P ['\\'])
    (char : ∀ c cs, c ≠ '\\' → P cs → P (c :: cs))
    (escaped : ∀ c cs, c ≠ 'Q' → P cs → P ('\\' :: c :: cs))
    (quote : ∀ t cs, HasNoEnd t → P cs → P ('\\' :: 'Q' :: (t ++ '\\' :: 'E' :: cs)))
    (openQuote : ∀ t, HasNoEnd t → P ('\\' :: 'Q' :: t)) (cs : List Char) : P cs := by
  induction hn : cs.length using Nat.strong_induction_on generalizing cs with
  | _ n ih =>
    cases cs with
    | nil => exact nil
    | cons c cs =>
      rw [length_cons] at hn
      by_cases hc : c = '\\'
      · subst hc
        cases cs with
        | nil => exact backslash
        | cons d cs =>
          rw [length_cons] at hn
          by_cases hd : d = 'Q'
          · subst hd
            obtain h | ⟨t, rest, rfl, ht⟩ := hasNoEnd_or cs
            · exact openQuote cs h
            · rw [length_append, length_cons, length_cons] at hn
              exact quote t rest ht (ih rest.length (by omega) rest rfl)
          · exact escaped d cs hd (ih cs.length (by omega) cs rfl)
      · exact char c cs hc (ih cs.length (by omega) cs rfl)

theorem text_read (cs : List Char) : (read cs).text = cs := by
  induction cs using pattern_induction with
  | nil | backslash => rfl
  | char c cs hc ih => rw [read_char hc, Reading.text_cons, ih]; rfl
  | escaped c cs hc ih => rw [read_escaped hc, Reading.text_cons, ih]; rfl
  | quote t cs ht ih =>
    rw [read_quote ht, Reading.text_cons, ih]
    simp [Piece.text]
  | openQuote t ht => rw [read_openQuote ht]; rfl

/-! ### The expansion of a pattern -/

theorem expansion_read_char (hc : c ≠ '\\') (cs : List Char) :
    (read (c :: cs)).expansion = c :: (read cs).expansion := by
  rw [read_char hc, Reading.expansion_cons]
  rfl

theorem expansion_read_escaped (hc : c ≠ 'Q') (cs : List Char) :
    (read ('\\' :: c :: cs)).expansion = '\\' :: c :: (read cs).expansion := by
  rw [read_escaped hc, Reading.expansion_cons]
  rfl

theorem expansion_read_quote (ht : HasNoEnd t) (cs : List Char) :
    (read ('\\' :: 'Q' :: (t ++ '\\' :: 'E' :: cs))).expansion =
      escapeText t ++ (read cs).expansion := by
  rw [read_quote ht, Reading.expansion_cons]
  rfl

theorem expansion_read_openQuote (ht : HasNoEnd t) :
    (read ('\\' :: 'Q' :: t)).expansion = escapeText t := by
  rw [read_openQuote ht]
  rfl

end RegexCorpus.Pattern
