import RegexCorpus.Host.Files
import RegexCorpus.Proofs.Host.FileTree
import RegexCorpus.Proofs.Run
import RegexCorpus.Proofs.Text.Lines

/-!
# Writing files

What is written to a file is what it holds, and what is appended to it stands after what it held.
-/

namespace RegexCorpus

variable {way : List String}

namespace Host

variable {h : Host} {path : String} {c : Content}

/-- The path leads to a file, or to a place where there may be one. -/
def CanWrite (h : Host) (path : String) : Prop :=
  ∃ way tree, h.files.resolve h.cwd path = .ok (way, tree) ∧ ∀ es, tree ≠ some (.folder es)

def Holds (h : Host) (path : String) (c : Content) : Prop :=
  ∃ way, h.files.resolve h.cwd path = .ok (way, some (.file c))

theorem lookUp_run {tree : FileTree} (hway : h.files.resolve h.cwd path = .ok (way, some tree)) :
    (Act.lookUp path).run h = (.ok (way, tree), h) := by
  rw [Act.lookUp, run_get_state_bind, run_lift_bind hway]
  rfl

theorem Holds.content (hc : h.Holds path c) : (Act.content path).run h = (.ok c, h) := by
  obtain ⟨way, hway⟩ := hc
  rw [Act.content, run_bind_of_ok (lookUp_run hway)]
  rfl

theorem Holds.countLines (hc : h.Holds path c) :
    (Act.countLines path).run h = (.ok c.lines.1.length, h) := by
  have hrun : (do return (← Act.content path).lines.1.length : Act Nat).run h =
      (.ok c.lines.1.length, h) := run_bind_eq_ok.mpr ⟨c, h, hc.content, rfl⟩
  rw [Act.countLines, run_tryCatch, hrun]

theorem Holds.readLines {lines : List String} (hc : h.Holds path c)
    (hlines : c.lines = (lines, none)) : (Act.readLines path).run h = (.ok lines, h) := by
  rw [Act.readLines, run_bind_eq_ok]
  exact ⟨c, h, hc.content, by rw [hlines]; rfl⟩

end Host

theorem Content.lines_unlines {ls : List String} (h : ∀ l ∈ ls, Text.IsOneLine l) :
    (Content.text (Text.unlines ls)).lines = (ls.map (· ++ "\n"), none) := by
  rw [Content.lines, Text.fullLines_unlines h]

namespace Act
open Host

variable {h : Host} {path : String}

theorem writable_run {tree : Option FileTree}
    (hway : h.files.resolve h.cwd path = .ok (way, tree)) (htree : ∀ es, tree ≠ some (.folder es)) :
    ∃ old, (Act.writable path).run h = (.ok (way, old), h) ∧
      ∀ c, tree = some (.file c) → old = some c := by
  have hlift : (liftM (h.files.resolve h.cwd path) : Act _).run h = (.ok (way, tree), h) :=
    run_lift_eq_ok.mpr ⟨hway, rfl⟩
  rcases tree with _ | (c | es | target)
  · exact ⟨none, run_bind_eq_ok.mpr ⟨h, h, rfl, run_bind_eq_ok.mpr ⟨_, h, hlift, rfl⟩⟩, by simp⟩
  · exact ⟨some c, run_bind_eq_ok.mpr ⟨h, h, rfl, run_bind_eq_ok.mpr ⟨_, h, hlift, rfl⟩⟩, by simp⟩
  · exact absurd rfl (htree es)
  · exact ⟨none, run_bind_eq_ok.mpr ⟨h, h, rfl, run_bind_eq_ok.mpr ⟨_, h, hlift, rfl⟩⟩, by simp⟩

theorem writeFile_eq {tree : Option FileTree}
    (hway : h.files.resolve h.cwd path = .ok (way, tree)) (htree : ∀ es, tree ≠ some (.folder es))
    (text : String) : (Act.writeFile path text).run h = (.ok (), h.put way (.text text)) := by
  obtain ⟨old, hrun, -⟩ := writable_run hway htree
  rw [Act.writeFile, run_bind_eq_ok]
  exact ⟨_, _, hrun, rfl⟩

theorem writeFile_run (hpath : h.CanWrite path) (text : String) :
    ∃ h', (Act.writeFile path text).run h = (.ok (), h') ∧ h'.Holds path (.text text) := by
  obtain ⟨way, tree, hway, htree⟩ := hpath
  exact ⟨_, writeFile_eq hway htree text, way, FileTree.resolve_put hway htree⟩

theorem canWrite_of_writable {h' : Host} {found : List String × Option Content}
    (hrun : (Act.writable path).run h = (.ok found, h')) : h.CanWrite path := by
  obtain ⟨_, _, hget, hrun⟩ := run_bind_eq_ok.mp hrun
  cases hget
  obtain ⟨⟨way, tree⟩, _, hlift, hrun⟩ := run_bind_eq_ok.mp hrun
  have hway := (run_lift_eq_ok.mp hlift).1
  refine ⟨way, tree, hway, ?_⟩
  rintro es rfl
  cases hrun

theorem holds_of_writeFile {h' : Host} {text : String}
    (hrun : (Act.writeFile path text).run h = (.ok (), h')) : h'.Holds path (.text text) := by
  obtain ⟨_, _, hwritable, -⟩ := run_bind_eq_ok.mp hrun
  obtain ⟨h'', hrun', hholds⟩ := writeFile_run (canWrite_of_writable hwritable) text
  cases hrun.symm.trans hrun'
  exact hholds

theorem appendFile_run {c : Content} (hc : h.Holds path c) (text : String) :
    ∃ h', (Act.appendFile path text).run h = (.ok (), h') ∧ h'.Holds path (c.append text) := by
  obtain ⟨way, hway⟩ := hc
  obtain ⟨old, hrun, hold⟩ := writable_run hway (by simp)
  obtain rfl := hold c rfl
  refine ⟨h.put way (c.append text), ?_, way, FileTree.resolve_put hway (by simp)⟩
  rw [Act.appendFile, run_bind_eq_ok]
  exact ⟨_, _, hrun, rfl⟩

end Act
end RegexCorpus
