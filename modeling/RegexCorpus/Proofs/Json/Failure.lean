import RegexCorpus.Proofs.Run

/-!
# Texts that are not read

Whatever a text holds, reading it fails for a cause that lies in the text: it never asks to stop.
-/

namespace RegexCorpus

section
variable {α β : Type}

def Uninterrupted (o : Outcome α) : Prop := o ≠ .error .interrupted

theorem uninterrupted_ok (a : α) : Uninterrupted (.ok a) := by simp [Uninterrupted]

theorem Uninterrupted.bind {x : Outcome α} {f : α → Outcome β} (hx : Uninterrupted x)
    (hf : ∀ a, Uninterrupted (f a)) : Uninterrupted (x >>= f) := by
  intro h
  obtain h | ⟨a, -, h⟩ := Outcome.bind_eq_error.mp h
  · exact hx h
  · exact hf a h

end

namespace Json

theorem uninterrupted_readString (cs : List Char) : Uninterrupted (readString cs) := by
  rw [readString]
  split <;> simp [Uninterrupted]

theorem uninterrupted_readNumber (negative : Bool) (cs : List Char) :
    Uninterrupted (readNumber negative cs) := by
  rw [readNumber]
  split
  · simp [Uninterrupted]
  · dsimp only
    split
    · exact uninterrupted_ok _
    · split_ifs <;> simp [Uninterrupted]

theorem uninterrupted_readScalar (cs : List Char) : Uninterrupted (readScalar cs) := by
  unfold readScalar
  split
  · exact uninterrupted_ok _
  · split <;> exact uninterrupted_readNumber _ _

/-- None of the readers stops when it has this much fuel. -/
structure ReadsOn (fuel : Nat) : Prop where
  value : ∀ room cs, Uninterrupted (readValue fuel room cs)
  items : ∀ room cs, Uninterrupted (readItems fuel room cs)
  members : ∀ room cs, Uninterrupted (readMembers fuel room cs)

section
variable {fuel : Nat} (ih : ReadsOn fuel) (room : Nat) (cs : List Char)
include ih

theorem ReadsOn.readValue_succ : Uninterrupted (readValue (fuel + 1) room cs) := by
  rw [readValue.eq_def]
  dsimp only
  split
  · exact (uninterrupted_readString _).bind fun _ => uninterrupted_ok _
  · simp [Uninterrupted]
  · split
    · exact uninterrupted_ok _
    · exact (ih.items _ _).bind fun _ => uninterrupted_ok _
  · simp [Uninterrupted]
  · split
    · exact uninterrupted_ok _
    · exact (ih.members _ _).bind fun _ => uninterrupted_ok _
  · exact uninterrupted_readScalar cs

theorem ReadsOn.readItems_succ : Uninterrupted (readItems (fuel + 1) room cs) := by
  rw [readItems]
  refine (ih.value room cs).bind fun r => ?_
  dsimp only
  split
  · exact uninterrupted_ok _
  · exact (ih.items _ _).bind fun _ => uninterrupted_ok _
  · simp [Uninterrupted]

theorem ReadsOn.readMembers_succ : Uninterrupted (readMembers (fuel + 1) room cs) := by
  rw [readMembers.eq_def]
  dsimp only
  split
  · refine (uninterrupted_readString _).bind fun r => ?_
    split
    · refine (ih.value _ _).bind fun r => ?_
      split
      · exact uninterrupted_ok _
      · exact (ih.members _ _).bind fun _ => uninterrupted_ok _
      · simp [Uninterrupted]
    · simp [Uninterrupted]
  · simp [Uninterrupted]

end

theorem readsOn (fuel : Nat) : ReadsOn fuel := by
  induction fuel with
  | zero => constructor <;> intro _ _ <;> simp [readValue, readItems, readMembers, Uninterrupted]
  | succ fuel ih => exact ⟨ih.readValue_succ, ih.readItems_succ, ih.readMembers_succ⟩

theorem uninterrupted_parse (s : String) : Uninterrupted (parse s) := by
  rw [parse]
  refine ((readsOn _).value _ _).bind fun r => ?_
  dsimp only
  split_ifs
  · exact uninterrupted_ok _
  · simp [Uninterrupted]

end Json
end RegexCorpus
