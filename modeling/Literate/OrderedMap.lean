import Literate.Lists

/-!
# Maps in order of insertion

A map is the list of its entries, in the order in which their keys first came. Keys are compared by
`==`, and no two entries have the same key; writing under a key that is already there keeps the first
spelling of the key and its place. So the keys are a list without repetition, to which new ones are
added at the end (`addNew`). Maps from line numbers keep their entries in increasing order
(`LineMap`).
-/

namespace Literate

/-- A map as its entries in order of insertion, no two of them under the same key. -/
structure OrderedMap (κ ν : Type) [BEq κ] where
  entries : List (κ × ν)
  distinct : entries.Pairwise fun e e' => (e.1 == e'.1) = false

namespace OrderedMap

variable {κ ν : Type} [BEq κ]

/-- The map without entries. -/
def empty : OrderedMap κ ν := ⟨[], .nil⟩

instance : EmptyCollection (OrderedMap κ ν) := ⟨empty⟩

instance : Inhabited (OrderedMap κ ν) := ⟨empty⟩

/-- The keys in order of insertion. -/
def keys (m : OrderedMap κ ν) : List κ :=
  m.entries.map Prod.fst

/-- Number of entries. -/
def size (m : OrderedMap κ ν) : Nat :=
  m.entries.length

/-- Whether there is no entry. -/
def isEmpty (m : OrderedMap κ ν) : Bool :=
  m.entries.isEmpty

/-- The value under a key. -/
def get? (m : OrderedMap κ ν) (k : κ) : Option ν :=
  (m.entries.find? (·.1 == k)).map Prod.snd

/-- Whether there is an entry under the key. -/
def contains (m : OrderedMap κ ν) (k : κ) : Bool :=
  m.entries.any (·.1 == k)

/-- Entries with the value under `k` replaced by `f` of the value there; a new entry goes to the
end. -/
def alterEntries (k : κ) (f : Option ν → ν) : List (κ × ν) → List (κ × ν)
  | [] => [(k, f none)]
  | (k', v) :: rest =>
    if k' == k then (k', f (some v)) :: rest else (k', v) :: alterEntries k f rest

/-- Every key behind a change was there before, or is the new one. -/
theorem mem_alterEntries {k : κ} {f : Option ν → ν} {es : List (κ × ν)} {e : κ × ν}
    (h : e ∈ alterEntries k f es) : (∃ v, (e.1, v) ∈ es) ∨ e.1 = k := by
  induction es with
  | nil => simp_all [alterEntries]
  | cons e' es ih =>
    obtain ⟨k', v⟩ := e'
    unfold alterEntries at h
    split at h
    · rcases List.mem_cons.1 h with rfl | h
      · exact .inl ⟨v, List.mem_cons_self⟩
      · exact .inl ⟨e.2, List.mem_cons_of_mem _ h⟩
    · rcases List.mem_cons.1 h with rfl | h
      · exact .inl ⟨v, List.mem_cons_self⟩
      · exact (ih h).imp_left fun ⟨w, hw⟩ => ⟨w, List.mem_cons_of_mem _ hw⟩

/-- A change keeps the keys distinct: the new key goes behind keys that all differ from it. -/
theorem pairwise_alterEntries {k : κ} {f : Option ν → ν} {es : List (κ × ν)}
    (h : es.Pairwise fun e e' => (e.1 == e'.1) = false) :
    (alterEntries k f es).Pairwise fun e e' => (e.1 == e'.1) = false := by
  induction es with
  | nil => simp [alterEntries]
  | cons e es ih =>
    obtain ⟨k', v⟩ := e
    obtain ⟨hk, hes⟩ := List.pairwise_cons.1 h
    unfold alterEntries
    split
    · exact List.pairwise_cons.2 ⟨hk, hes⟩
    · next hne =>
      refine List.pairwise_cons.2 ⟨fun e he => ?_, ih hes⟩
      rcases mem_alterEntries he with ⟨w, hw⟩ | he
      · exact hk (e.1, w) hw
      · simpa [he] using hne

/-- The map with the value under `k` replaced by `f` of the value there. -/
def alter (m : OrderedMap κ ν) (k : κ) (f : Option ν → ν) : OrderedMap κ ν :=
  ⟨alterEntries k f m.entries, pairwise_alterEntries m.distinct⟩

/-- The map with `v` under `k`. -/
def insert (m : OrderedMap κ ν) (k : κ) (v : ν) : OrderedMap κ ν :=
  m.alter k fun _ => v

theorem find?_alterEntries [EquivBEq κ] (k k' : κ) (f : Option ν → ν) (es : List (κ × ν)) :
    ((alterEntries k f es).find? (·.1 == k')).map Prod.snd
      = if k == k' then some (f ((es.find? (·.1 == k)).map Prod.snd))
        else (es.find? (·.1 == k')).map Prod.snd := by
  induction es with
  | nil => by_cases h : k == k' <;> simp [alterEntries, h]
  | cons e es ih =>
    obtain ⟨a, v⟩ := e
    by_cases ha : a == k
    · -- the first entry under `k` is the first one under every key that is the same
      by_cases h : k == k'
      · simp [alterEntries, ha, h, BEq.trans ha h]
      · have hak : ¬ a == k' := fun e => h (BEq.trans (BEq.symm ha) e)
        simp [alterEntries, ha, h, hak]
    · by_cases h : a == k'
      · have hk : ¬ k == k' := fun e => ha (BEq.trans h (BEq.symm e))
        simp [alterEntries, ha, h, hk]
      · simp only [alterEntries, ha, Bool.false_eq_true, if_false, List.find?_cons,
          Bool.eq_false_iff.2 h]
        exact ih

/-- Under keys that are the same the same is read. -/
theorem get?_congr [EquivBEq κ] (m : OrderedMap κ ν) {k k' : κ} (h : (k == k') = true) :
    m.get? k = m.get? k' := by
  have hsame : (fun e : κ × ν => e.1 == k) = fun e => e.1 == k' := funext fun _ => BEq.congr_right h
  rw [get?, get?, hsame]

/-- Changing one key changes what is read there and nowhere else. -/
theorem get?_alter [EquivBEq κ] (m : OrderedMap κ ν) (k k' : κ) (f : Option ν → ν) :
    (m.alter k f).get? k' = if k == k' then some (f (m.get? k)) else m.get? k' :=
  find?_alterEntries k k' f m.entries

theorem keys_alterEntries [LawfulBEq κ] (k : κ) (f : Option ν → ν) (es : List (κ × ν)) :
    (alterEntries k f es).map Prod.fst = addNew (es.map Prod.fst) k := by
  induction es with
  | nil => simp [alterEntries, addNew]
  | cons e es ih =>
    obtain ⟨a, v⟩ := e
    by_cases ha : a = k
    · subst ha
      simp [alterEntries, addNew]
    · have hk : ¬ k = a := fun e => ha e.symm
      simp only [alterEntries, beq_iff_eq, ha, if_false, List.map_cons, ih]
      simp only [addNew, List.contains_cons, show (k == a) = false by simpa using hk,
        Bool.false_or]
      split <;> simp

/-- A new key goes to the end, and a known key keeps its place. -/
theorem keys_alter [LawfulBEq κ] (m : OrderedMap κ ν) (k : κ) (f : Option ν → ν) :
    (m.alter k f).keys = addNew m.keys k :=
  keys_alterEntries k f m.entries

theorem contains_iff_mem_keys [LawfulBEq κ] {m : OrderedMap κ ν} {k : κ} :
    m.contains k = true ↔ k ∈ m.keys := by
  simp [contains, keys]

theorem nodup_keys [LawfulBEq κ] (m : OrderedMap κ ν) : m.keys.Nodup :=
  List.pairwise_map.2 (m.distinct.imp fun h => by simpa using h)

theorem find?_eq_some_of_mem [LawfulBEq κ] {es : List (κ × ν)} {k : κ} {v : ν}
    (hd : es.Pairwise fun e e' => (e.1 == e'.1) = false) (h : (k, v) ∈ es) :
    es.find? (·.1 == k) = some (k, v) := by
  induction es with
  | nil => simp at h
  | cons e es ih =>
    obtain ⟨hne, hes⟩ := List.pairwise_cons.1 hd
    rcases List.mem_cons.1 h with rfl | h
    · simp
    · rw [List.find?_cons, hne (k, v) h]
      exact ih hes h

/-- What is read under a key is the entry with that key. -/
theorem get?_eq_some_iff [LawfulBEq κ] {m : OrderedMap κ ν} {k : κ} {v : ν} :
    m.get? k = some v ↔ (k, v) ∈ m.entries := by
  unfold get?
  constructor
  · intro h
    obtain ⟨⟨k', w⟩, he, rfl⟩ := Option.map_eq_some_iff.1 h
    have hk : k' = k := by simpa using List.find?_some he
    exact hk ▸ List.mem_of_find?_eq_some he
  · intro h
    rw [find?_eq_some_of_mem m.distinct h]
    rfl

/-- The keys are exactly what something can be read under. -/
theorem mem_keys_iff [LawfulBEq κ] {m : OrderedMap κ ν} {k : κ} :
    k ∈ m.keys ↔ ∃ v, m.get? k = some v := by
  simp [keys, get?_eq_some_iff]

theorem get?_eq_none_iff [LawfulBEq κ] {m : OrderedMap κ ν} {k : κ} :
    m.get? k = none ↔ k ∉ m.keys := by
  simp [mem_keys_iff, Option.eq_none_iff_forall_ne_some]

end OrderedMap

/-- Values by line number, in increasing order of the numbers. -/
abbrev LineMap (ν : Type) := List (Nat × ν)

namespace LineMap

variable {ν : Type}

/-- The map with `v` under line `n`, in place of what was there. -/
def insert (n : Nat) (v : ν) : LineMap ν → LineMap ν
  | [] => [(n, v)]
  | (k, w) :: rest =>
    if n < k then (n, v) :: (k, w) :: rest
    else if n = k then (n, v) :: rest
    else (k, w) :: insert n v rest

/-- The value under line `n`. -/
def get? (n : Nat) (m : LineMap ν) : Option ν :=
  m.lookup n

/-- A line behind all others goes to the end. -/
theorem insert_of_lt {n : Nat} {m : LineMap ν} (h : ∀ e ∈ m, e.1 < n) (v : ν) :
    m.insert n v = m ++ [(n, v)] := by
  induction m with
  | nil => rfl
  | cons e m ih =>
    obtain ⟨k, w⟩ := e
    have hk : k < n := h (k, w) List.mem_cons_self
    have ih := ih fun e he => h e (List.mem_cons_of_mem _ he)
    rw [insert, if_neg (by omega), if_neg (by omega), ih]
    rfl

/-- In increasing order, what is read under a line is the entry with that line. -/
theorem get?_of_mem {m : LineMap ν} (h : m.Pairwise fun e e' => e.1 < e'.1) {n : Nat} {v : ν}
    (hmem : (n, v) ∈ m) : get? n m = some v := by
  induction m with
  | nil => exact nomatch hmem
  | cons e m ih =>
    obtain ⟨hlt, hm⟩ := List.pairwise_cons.1 h
    rcases List.mem_cons.1 hmem with rfl | hmem
    · exact List.lookup_cons_self
    · have hne : (n == e.1) = false := beq_eq_false_iff_ne.2 (Nat.ne_of_gt (hlt (n, v) hmem))
      rw [get?, List.lookup_cons, hne]
      exact ih hm hmem

end LineMap

end Literate
