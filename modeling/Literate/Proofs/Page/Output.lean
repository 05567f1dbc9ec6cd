import Literate.Proofs.Document.Pass

/-! # The pages of a run

    Every document on the list gets one page.  No document stands on the list
    twice, so no page is given away again, and what is read under a document is
    the name made for it (`Document.outputFor?_assignOutputs`). -/

namespace Literate

namespace OrderedMap

variable {κ ν : Type} [BEq κ] [EquivBEq κ]

/-- Values written under other keys leave a key alone. -/
theorem get?_foldl_insert_other (value : κ → ν) {keys : List κ} {k : κ}
    (h : ∀ k' ∈ keys, (k' == k) = false) (m : OrderedMap κ ν) :
    (keys.foldl (fun m k => m.insert k (value k)) m).get? k = m.get? k := by
  induction keys generalizing m with
  | nil => rfl
  | cons k' keys ih =>
      have hother : ¬ (k' == k) = true := by
        rw [h k' List.mem_cons_self]
        exact Bool.false_ne_true
      rw [List.foldl_cons, ih fun k'' hk'' => h k'' (List.mem_cons_of_mem _ hk''), insert,
        get?_alter, if_neg hother]

/-- Values written under distinct keys are all there to be read. -/
theorem get?_foldl_insert (value : κ → ν) {keys : List κ}
    (h : keys.Pairwise fun k k' => (k == k') = false) {k : κ} (hk : k ∈ keys)
    (m : OrderedMap κ ν) :
    (keys.foldl (fun m k => m.insert k (value k)) m).get? k = some (value k) := by
  induction keys generalizing m with
  | nil => cases hk
  | cons k' keys ih =>
      obtain ⟨hother, hkeys⟩ := List.pairwise_cons.mp h
      rw [List.foldl_cons]
      rcases List.mem_cons.mp hk with rfl | hk
      · rw [get?_foldl_insert_other value fun k' hk' => by rw [BEq.comm]; exact hother k' hk',
          insert, get?_alter, if_pos BEq.rfl]
      · exact ih hkeys hk _

end OrderedMap

namespace Document

/-- The directory that the places of pages are counted from. -/
def rootDir (d : Document) : Path :=
  (d.root?.map Path.parent).getD .empty

/-- Each document has the page that was named for it. -/
theorem outputFor?_assignOutputs {d : Document} (h : d.Distinct) (outDir : Path) {f : Path}
    (hf : f ∈ d.inputs) :
    (d.assignOutputs outDir).outputFor? f = some (.outputName f d.rootDir outDir) :=
  OrderedMap.get?_foldl_insert (fun f => Path.outputName f d.rootDir outDir) h hf {}

theorem isSome_outputFor? {d : Document} (h : d.Distinct) (outDir : Path) :
    ∀ f ∈ (d.assignOutputs outDir).inputs,
      ((d.assignOutputs outDir).outputFor? f).isSome = true := by
  intro f hf
  have hf : f ∈ d.inputs := hf
  rw [outputFor?_assignOutputs h outDir hf]
  rfl

end Document

end Literate
