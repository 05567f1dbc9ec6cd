import Literate.FileSystem
import Literate.Store

/-! # Writes that do not fail

    A write can fail in two ways: the file system refuses it, or what was to be
    written comes to a bad end while it is made.  On a file system that refuses
    nothing (`FileSystem.NeverFails`) only the second is left, so a write ends as
    its content does (`FileSystem.put_fst`), and a plan whose contents all end
    well is carried out to its end (`Step.performAll_of_sound`). -/

namespace Literate

/-- A buffer does not change how a write ends. -/
theorem Write.value_blocks (w : Write) : w.blocks.value = (w.content ()).value := by
  rw [blocks]
  split
  · exact Pieces.value_throughBuffer [] 0 _
  · rfl

namespace FileSystem

variable {σ : Type} {fs : FileSystem σ}

/-- Every file can be opened, and every block is taken. -/
structure NeverFails (fs : FileSystem σ) : Prop where
  create : ∀ s path, ∃ s', fs.create s path = .ok s'
  append : ∀ s path block, ∃ s', fs.append s path block = .ok s'

theorem appendAll_fst (h : fs.NeverFails) (path : Path) (p : Pieces (Option Error)) (s : σ) :
    (fs.appendAll path p s).1 = p.value := by
  induction p generalizing s with
  | done failure => rfl
  | piece block rest ih =>
      obtain ⟨s', hs'⟩ := h.append s path block
      rw [appendAll, hs']
      exact ih () s'

/-- A write ends as its content does. -/
theorem put_fst (h : fs.NeverFails) (w : Write) (s : σ) :
    (fs.put w s).1 = (w.content ()).value := by
  obtain ⟨s', hs'⟩ := h.create s w.target
  rw [← w.value_blocks, ← appendAll_fst h w.target w.blocks s', put, hs']

end FileSystem

/-- A store takes every write if nothing is set to go wrong. -/
theorem Store.neverFails : (Store.fileSystem .none).NeverFails := by
  constructor
  · intro s path
    exact ⟨s.add path [], rfl⟩
  · intro s path block
    exact ⟨s.add path ((s.contents? path).getD [] ++ block), rfl⟩

namespace Step

/-- A single write ends as its content does. -/
theorem performAll_write {σ : Type} {fs : FileSystem σ} (hfs : fs.NeverFails)
    (announcement : String) (w : Write) (s : σ) :
    (performAll fs.put [.write announcement w] s).1.2 = (w.content ()).value := by
  rw [← FileSystem.put_fst hfs w s]
  generalize hwritten : fs.put w s = written
  obtain ⟨failure, s'⟩ := written
  cases failure <;> simp only [performAll, bind, StateT.bind, hwritten] <;> rfl

/-- A step that the file system alone can make fail. -/
def Sound : Step → Prop
  | .write _ w => (w.content ()).value = none
  | .fail _ => False

/-- Sound steps are carried out to their end where writes do not fail. -/
theorem performAll_of_sound {σ : Type} {fs : FileSystem σ} (hfs : fs.NeverFails)
    {steps : List Step} (h : ∀ step ∈ steps, step.Sound) (s : σ) :
    (performAll fs.put steps s).1.2 = none := by
  induction steps generalizing s with
  | nil => rfl
  | cons step steps ih =>
      have hstep := h step List.mem_cons_self
      have ih := ih fun step' hstep' => h step' (List.mem_cons_of_mem _ hstep')
      cases step with
      | fail e => exact absurd hstep id
      | write announcement w =>
          have hput : (fs.put w s).1 = none := (FileSystem.put_fst hfs w s).trans hstep
          generalize hwritten : fs.put w s = written at hput
          obtain ⟨failure, s'⟩ := written
          subst hput
          simp only [performAll, bind, StateT.bind, hwritten]
          exact ih s'

end Step

end Literate
