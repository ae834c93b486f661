import RegexCorpus.Proofs.Run
import RegexCorpus.SuperLinear.Analysis

/-!
# Replies of the detectors

Asking the detectors uses up one reply, and all that an analysis learns is in that reply.
-/

namespace RegexCorpus.SuperLinear

variable {reply : Reply}

def nextReply (t : Tools) : Reply := t.replies.head?.getD {}

def takeUp (reply : Reply) : Ask Analysis Unit := do
  (require (reply.code == 0) : Outcome Unit)
  match Analysis.opinionsOf (Text.trim reply.output) with
  | .ok os => modify ({ · with opinions := .items (os.map .record) })
  | .error _ =>
    modify ({ · with opinions := .plain .null })
    throw .requirement

theorem run_consult_bind {σ α : Type} (query : String) (f : Reply → Ask σ α) (s : σ) (t : Tools) :
    (Ask.ofConsult (consult query) >>= f).run s t =
      (f (nextReply t)).run s
        { t with queries := t.queries ++ [query], replies := t.replies.tail } := rfl

theorem run_get_bind {σ α : Type} (f : σ → Ask σ α) (s : σ) (t : Tools) :
    ((get : Ask σ σ) >>= f).run s t = (f s).run s t := rfl

theorem run_ok_bind {σ α β : Type} (a : α) (f : α → Ask σ β) (s : σ) (t : Tools) :
    ((liftM (.ok a : Outcome α) : Ask σ α) >>= f).run s t = (f a).run s t := rfl

/-- A question that can be put is answered by the next reply. -/
theorem queryDetectors_run {a : Analysis} {detectors variants : Value} {query : String}
    (hquery : a.detectorQuery detectors variants = .ok query) (t : Tools) :
    (Analysis.queryDetectors detectors variants).run a t =
      (takeUp (nextReply t)).run a
        { t with queries := t.queries ++ [query], replies := t.replies.tail } := by
  unfold Analysis.queryDetectors takeUp
  rw [run_get_bind, hquery, run_ok_bind]
  refine (run_consult_bind query _ a t).trans ?_
  cases Analysis.opinionsOf (Text.trim (nextReply t).output) <;> rfl

/-- A command that failed is refused as it is, and a reply that cannot be read is refused after the
opinions were dropped. -/
theorem takeUp_cases {a : Analysis} {t : Tools} {r : (Outcome Unit × Analysis) × Tools}
    (hrun : (takeUp reply).run a t = r) :
    (reply.code ≠ 0 ∧ r = ((.error .requirement, a), t)) ∨
    (reply.code = 0 ∧ ∃ os, Analysis.opinionsOf (Text.trim reply.output) = .ok os ∧
      r = ((.ok (), { a with opinions := .items (os.map .record) }), t)) ∨
    (reply.code = 0 ∧ ∃ f, Analysis.opinionsOf (Text.trim reply.output) = .error f ∧
      r = ((.error .requirement, { a with opinions := .plain .null }), t)) := by
  rw [← hrun, takeUp]
  by_cases hcode : reply.code = 0
  · right
    rw [hcode]
    cases Analysis.opinionsOf (Text.trim reply.output) with
    | ok os => exact .inl ⟨rfl, os, rfl, rfl⟩
    | error f => exact .inr ⟨rfl, f, rfl, rfl⟩
  · have hne : (reply.code == 0) = false := by simpa using hcode
    rw [hne]
    exact .inl ⟨hcode, rfl⟩

theorem takeUp_eq_ok {a asked : Analysis} {t t' : Tools}
    (hrun : (takeUp reply).run a t = ((.ok (), asked), t')) :
    t' = t ∧ reply.code = 0 ∧ ∃ os, Analysis.opinionsOf (Text.trim reply.output) = .ok os ∧
      asked = { a with opinions := .items (os.map .record) } := by
  obtain ⟨-, h⟩ | ⟨hcode, os, hos, h⟩ | ⟨-, f, -, h⟩ := takeUp_cases hrun <;> cases h
  exact ⟨rfl, hcode, os, hos, rfl⟩

theorem takeUp_run (hcode : reply.code = 0) {os : List Opinion}
    (hos : Analysis.opinionsOf (Text.trim reply.output) = .ok os) (a : Analysis) (t : Tools) :
    (takeUp reply).run a t = ((.ok (), { a with opinions := .items (os.map .record) }), t) := by
  rw [takeUp, hcode, hos]
  rfl

/-- Detectors that were asked with success have left their opinions and changed nothing else. -/
theorem queryDetectors_eq_ok {detectors variants : Value} {a asked : Analysis} {t t' : Tools}
    (hrun : (Analysis.queryDetectors detectors variants).run a t = ((.ok (), asked), t')) :
    ∃ os, Analysis.opinionsOf (Text.trim (nextReply t).output) = .ok os ∧
      asked = { a with opinions := .items (os.map .record) } := by
  cases hquery : a.detectorQuery detectors variants with
  | error f =>
    unfold Analysis.queryDetectors at hrun
    rw [run_get_bind, hquery] at hrun
    cases hrun
  | ok query =>
    rw [queryDetectors_run hquery] at hrun
    obtain ⟨-, -, hos⟩ := takeUp_eq_ok hrun
    exact hos

end RegexCorpus.SuperLinear
