import RegexCorpus.SyntaxTree.Tree

/-!
# Comparing trees

Data and syntax trees can be told apart, so that a tree can be searched for one that is known.
-/

namespace RegexCorpus
namespace Value

mutual

/-- Data compared part by part. -/
def decEq : (v w : Value) → Decidable (v = w)
  | atom a, atom b => decidable_of_iff (a = b) (by simp)
  | list xs, list ys => @decidable_of_iff _ (xs = ys) (by simp) (decEqItems xs ys)
  | dict es, dict fs => @decidable_of_iff _ (es = fs) (by simp) (decEqEntries es fs)
  | atom _, list _ | atom _, dict _ => isFalse nofun
  | list _, atom _ | list _, dict _ => isFalse nofun
  | dict _, atom _ | dict _, list _ => isFalse nofun

def decEqItems : (xs ys : List Value) → Decidable (xs = ys)
  | [], [] => isTrue rfl
  | x :: xs, y :: ys =>
    @decidable_of_iff _ (x = y ∧ xs = ys) (by simp)
      (@instDecidableAnd _ _ (decEq x y) (decEqItems xs ys))
  | [], _ :: _ | _ :: _, [] => isFalse nofun

def decEqEntries : (es fs : List (Atom × Value)) → Decidable (es = fs)
  | [], [] => isTrue rfl
  | (a, v) :: es, (b, w) :: fs =>
    @decidable_of_iff _ (a = b ∧ v = w ∧ es = fs) (by simp [and_assoc])
      (@instDecidableAnd _ _ _ (@instDecidableAnd _ _ (decEq v w) (decEqEntries es fs)))
  | [], _ :: _ | _ :: _, [] => isFalse nofun

end

instance : DecidableEq Value := decEq

end Value

namespace Tree

mutual

/-- Trees compared part by part. -/
def decEq : (t u : Tree) → Decidable (t = u)
  | node k fs, node l gs =>
    @decidable_of_iff _ (k = l ∧ fs = gs) (by simp) (@instDecidableAnd _ _ _ (decEqFields fs gs))
  | list ts, list us => @decidable_of_iff _ (ts = us) (by simp) (decEqItems ts us)
  | leaf v, leaf w => decidable_of_iff (v = w) (by simp)
  | node _ _, list _ | node _ _, leaf _ => isFalse nofun
  | list _, node _ _ | list _, leaf _ => isFalse nofun
  | leaf _, node _ _ | leaf _, list _ => isFalse nofun

def decEqItems : (ts us : List Tree) → Decidable (ts = us)
  | [], [] => isTrue rfl
  | t :: ts, u :: us =>
    @decidable_of_iff _ (t = u ∧ ts = us) (by simp)
      (@instDecidableAnd _ _ (decEq t u) (decEqItems ts us))
  | [], _ :: _ | _ :: _, [] => isFalse nofun

def decEqFields : (fs gs : Fields) → Decidable (fs = gs)
  | [], [] => isTrue rfl
  | (k, t) :: fs, (l, u) :: gs =>
    @decidable_of_iff _ (k = l ∧ t = u ∧ fs = gs) (by simp [and_assoc])
      (@instDecidableAnd _ _ _ (@instDecidableAnd _ _ (decEq t u) (decEqFields fs gs)))
  | [], _ :: _ | _ :: _, [] => isFalse nofun

end

instance : DecidableEq Tree := decEq

end Tree
end RegexCorpus
