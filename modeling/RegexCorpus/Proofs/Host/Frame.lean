import RegexCorpus.Proofs.Host.Files

/-!
# What computations leave alone

Running tools and writing files do not get in each other's way: tools neither see nor change the
files of the host, and whoever writes a file changes nothing else. Neither of them changes the
answers that commands will give, but for those that are used up.
-/

namespace RegexCorpus

/-- All answers to come satisfy the condition. -/
def Host.Expects (h : Host) (P : Answer → Prop) : Prop := P h.lastAnswer ∧ ∀ a ∈ h.answers, P a

theorem Host.Expects.nextAnswer {h : Host} {P : Answer → Prop} (hP : h.Expects P) :
    P h.nextAnswer := by
  unfold Host.nextAnswer
  cases hanswers : h.answers with
  | nil => exact hP.1
  | cons a as => exact hP.2 a (by simp [hanswers])

namespace Act

variable {α β : Type}

/-- The computation neither sees nor changes files, stays where it is, and uses up answers at
most. -/
structure FileFree (act : Act α) : Prop where
  frame : ∀ h files, act.run { h with files } = ((act.run h).1, { (act.run h).2 with files })
  cwd : ∀ h, (act.run h).2.cwd = h.cwd
  expects : ∀ P h, h.Expects P → (act.run h).2.Expects P

/-- The computation changes nothing but files. -/
def OnlyFiles (act : Act α) : Prop := ∀ h, (act.run h).2 = { h with files := (act.run h).2.files }

/-! ### Computations without files -/

variable {f : α → Act β}

namespace FileFree

variable {act : Act α}

theorem files (hact : FileFree act) (h : Host) : (act.run h).2.files = h.files := by
  have hframe : act.run h = ((act.run h).1, { (act.run h).2 with files := h.files }) :=
    hact.frame h h.files
  rw [hframe]

theorem holds (hact : FileFree act) {h h' : Host} {o : Outcome α} (hrun : act.run h = (o, h'))
    {path : String} {c : Content} (hc : h.Holds path c) : h'.Holds path c := by
  have hfiles := hact.files h
  have hcwd := hact.cwd h
  rw [hrun] at hfiles hcwd
  unfold Host.Holds at hc ⊢
  rwa [hfiles, hcwd]

theorem pure (a : α) : FileFree (Pure.pure a) := ⟨fun _ _ => rfl, fun _ => rfl, fun _ _ => id⟩

theorem lift (o : Outcome α) : FileFree (liftM o) := ⟨fun _ _ => rfl, fun _ => rfl, fun _ _ => id⟩

theorem bind (hact : FileFree act) (hf : ∀ a, FileFree (f a)) : FileFree (act >>= f) := by
  constructor
  · intro h files
    rw [run_bind, run_bind, hact.frame]
    rcases act.run h with ⟨_ | a, t⟩
    · rfl
    · exact (hf a).frame t files
  · intro h
    have hcwd := hact.cwd h
    rw [run_bind]
    rcases hrun : act.run h with ⟨_ | a, t⟩
    · rw [hrun] at hcwd
      exact hcwd
    · rw [hrun] at hcwd
      exact ((hf a).cwd t).trans hcwd
  · intro P h hP
    have hexpects := hact.expects P h hP
    rw [run_bind]
    rcases hrun : act.run h with ⟨_ | a, t⟩
    · rwa [hrun] at hexpects
    · rw [hrun] at hexpects
      exact (hf a).expects P t hexpects

theorem tryCatch {other : Fault → Act α} (hact : FileFree act) (hother : ∀ f, FileFree (other f)) :
    FileFree (MonadExcept.tryCatch act other) := by
  constructor
  · intro h files
    rw [run_tryCatch, run_tryCatch, hact.frame]
    rcases act.run h with ⟨f | _, t⟩
    · exact (hother f).frame t files
    · rfl
  · intro h
    have hcwd := hact.cwd h
    rw [run_tryCatch]
    rcases hrun : act.run h with ⟨f | _, t⟩
    · rw [hrun] at hcwd
      exact ((hother f).cwd t).trans hcwd
    · rw [hrun] at hcwd
      exact hcwd
  · intro P h hP
    have hexpects := hact.expects P h hP
    rw [run_tryCatch]
    rcases hrun : act.run h with ⟨f | _, t⟩
    · rw [hrun] at hexpects
      exact (hother f).expects P t hexpects
    · rwa [hrun] at hexpects

theorem orElse (takes : Fault → Bool) {other : Fault → Act α} (hact : FileFree act)
    (hother : ∀ f, FileFree (other f)) : FileFree (Act.orElse act takes other) := by
  refine hact.tryCatch fun f => ?_
  split_ifs
  · exact hother f
  · exact ⟨fun _ _ => rfl, fun _ => rfl, fun _ _ => id⟩

theorem mapM (hf : ∀ a, FileFree (f a)) (xs : List α) : FileFree (xs.mapM f) := by
  induction xs with
  | nil => exact pure []
  | cons x xs ih =>
    rw [List.mapM_cons]
    exact (hf x).bind fun _ => ih.bind fun _ => pure _

theorem execute (command : Command) : FileFree (Act.execute command) := by
  constructor
  · intro h files
    have hanswer : { h with files }.nextAnswer = h.nextAnswer := rfl
    rw [execute_run, execute_run, hanswer]
    cases h.nextAnswer <;> rfl
  · intro h
    rw [execute_run]
    cases h.nextAnswer <;> rfl
  · intro P h hP
    have hrest : ∀ a ∈ h.answers.tail, P a := fun a ha => hP.2 a (List.mem_of_mem_tail ha)
    rw [execute_run]
    cases h.nextAnswer <;> exact ⟨hP.1, hrest⟩

theorem ofAsk {σ : Type} (s : σ) (ask : Ask σ α) : FileFree (Act.ofAsk s ask) :=
  ⟨fun _ _ => rfl, fun _ => rfl, fun _ _ => id⟩

end FileFree

/-! ### Computations that write files -/

namespace OnlyFiles

theorem pure (a : α) : OnlyFiles (Pure.pure a) := fun _ => rfl

theorem lift (o : Outcome α) : OnlyFiles (liftM o) := fun _ => rfl

theorem bind {act : Act α} (hact : OnlyFiles act) (hf : ∀ a, OnlyFiles (f a)) :
    OnlyFiles (act >>= f) := by
  intro h
  have hfirst := hact h
  rw [run_bind]
  rcases hrun : act.run h with ⟨_ | a, t⟩
  · rw [hrun] at hfirst
    exact hfirst
  · rw [hrun] at hfirst
    have hsecond := hf a t
    dsimp only at hfirst ⊢
    rw [hsecond, hfirst]

theorem forM {f : α → Act Unit} (hf : ∀ a, OnlyFiles (f a)) (xs : List α) :
    OnlyFiles (xs.forM f) := by
  induction xs with
  | nil => exact pure ()
  | cons x xs ih => exact (hf x).bind fun _ => ih

theorem writable (path : String) : OnlyFiles (Act.writable path) := by
  have hget : OnlyFiles (get : Act Host) := fun _ => rfl
  refine hget.bind fun h => (lift _).bind fun found => ?_
  obtain ⟨way, _ | (c | es | target)⟩ := found <;> exact fun _ => rfl

theorem writeFile (path text : String) : OnlyFiles (Act.writeFile path text) :=
  (writable path).bind fun _ _ => rfl

theorem appendFile (path text : String) : OnlyFiles (Act.appendFile path text) :=
  (writable path).bind fun _ _ => rfl

theorem expects {act : Act α} (hact : OnlyFiles act) {P : Answer → Prop} {h h' : Host}
    {o : Outcome α} (hrun : act.run h = (o, h')) (hP : h.Expects P) : h'.Expects P := by
  have honly := hact h
  rw [hrun] at honly
  dsimp only at honly
  rw [honly]
  exact hP

end OnlyFiles

/-- A computation without files ends in the same way before and after files have been written. -/
theorem FileFree.run_of_onlyFiles {act : Act α} {writer : Act β} (hact : FileFree act)
    (hwriter : OnlyFiles writer) {h g g' : Host} {a : α} {r : Except Fault β}
    (hwrite : writer.run h = (r, g)) (hrun : act.run g = (.ok a, g')) :
    ∃ h', act.run h = (.ok a, h') := by
  have hg : g = { h with files := g.files } := by
    have honly := hwriter h
    rwa [hwrite] at honly
  have hframe := hact.frame h g.files
  rw [← hg, hrun, Prod.mk.injEq] at hframe
  exact ⟨_, Prod.ext hframe.1.symm rfl⟩

end Act
end RegexCorpus
