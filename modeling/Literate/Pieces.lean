import Literate.Text.Basic

/-!
# Pieces

A long text is given out piece by piece, and what follows a piece is worked out only when it is asked
for. So whoever takes the pieces may stop early, and the rest of the text costs nothing. Behind the
last piece stands a value, which tells how the text came to its end.

The view of pieces is their list together with that value. `collect` works it out without a stack;
`collect_eq` ties the two.
-/

namespace Literate

/-- A text given out piece by piece, with a value at its end. -/
inductive Pieces (α : Type) where
  | done (a : α)
  | piece (t : Text) (rest : Unit → Pieces α)

namespace Pieces

variable {α β : Type}

/-! ## The view -/

/-- The pieces. -/
def list : Pieces α → List Text
  | .done _ => []
  | .piece t rest => t :: (rest ()).list

/-- The value at the end. -/
def value : Pieces α → α
  | .done a => a
  | .piece _ rest => (rest ()).value

/-- The text that the pieces make. -/
def text (p : Pieces α) : Text :=
  p.list.flatten

@[simp] theorem text_done (a : α) : (done a).text = [] := rfl

@[simp] theorem text_piece (t : Text) (rest : Unit → Pieces α) :
    (piece t rest).text = t ++ (rest ()).text := rfl

/-- The pieces behind others, which are given with the last one first, and the value. -/
def collectFrom (taken : List Text) : Pieces α → List Text × α
  | .done a => (taken.reverse, a)
  | .piece t rest => (rest ()).collectFrom (t :: taken)

/-- The pieces and the value. -/
def collect (p : Pieces α) : List Text × α :=
  p.collectFrom []

theorem collectFrom_eq (taken : List Text) (p : Pieces α) :
    p.collectFrom taken = (taken.reverse ++ p.list, p.value) := by
  induction p generalizing taken with
  | done a => simp [collectFrom, list, value]
  | piece t rest ih => simp [collectFrom, list, value, ih]

/-- Collecting gives the view. -/
theorem collect_eq (p : Pieces α) : p.collect = (p.list, p.value) := by
  simp [collect, collectFrom_eq]

/-! ## Putting pieces together -/

/-- Pieces in front of others. -/
def prepend : List Text → (Unit → Pieces α) → Pieces α
  | [], p => p ()
  | t :: ts, p => .piece t fun _ => prepend ts p

/-- The pieces of a list. -/
def ofList (ts : List Text) (a : α) : Pieces α :=
  prepend ts fun _ => .done a

/-- Goes on behind the end. -/
def andThen : Pieces α → (α → Pieces β) → Pieces β
  | .done a, f => f a
  | .piece t rest, f => .piece t fun _ => (rest ()).andThen f

@[simp] theorem list_prepend (ts : List Text) (p : Unit → Pieces α) :
    (prepend ts p).list = ts ++ (p ()).list := by
  induction ts with
  | nil => rfl
  | cons t ts ih => simp [prepend, list, ih]

@[simp] theorem value_prepend (ts : List Text) (p : Unit → Pieces α) :
    (prepend ts p).value = (p ()).value := by
  induction ts with
  | nil => rfl
  | cons t ts ih => simp [prepend, value, ih]

@[simp] theorem list_andThen (p : Pieces α) (f : α → Pieces β) :
    (p.andThen f).list = p.list ++ (f p.value).list := by
  induction p with
  | done a => rfl
  | piece t rest ih => simp [andThen, list, value, ih]

@[simp] theorem value_andThen (p : Pieces α) (f : α → Pieces β) :
    (p.andThen f).value = (f p.value).value := by
  induction p with
  | done a => rfl
  | piece t rest ih => simp [andThen, value, ih]

/-! ## Taking pieces -/

/-- Hands every piece to an action. -/
def feed {m : Type → Type} [Monad m] (write : Text → m Unit) : Pieces α → m α
  | .done a => pure a
  | .piece t rest => do
    write t
    (rest ()).feed write

/-- What a writer takes that can hold a number of bytes, behind the pieces taken so far with the last
one first: the pieces up to the first that does not fit, and the value if they all fit. -/
def takeFrom (taken : List Text) (limit : Nat) : Pieces α → List Text × Option α
  | .done a => (taken.reverse, some a)
  | .piece t rest =>
    if t.byteSize ≤ limit then (rest ()).takeFrom (t :: taken) (limit - t.byteSize)
    else (taken.reverse, none)

/-- What a writer takes that can hold a number of bytes: the pieces up to the first that does not
fit, and the value if they all fit. -/
def take (limit : Nat) (p : Pieces α) : List Text × Option α :=
  p.takeFrom [] limit

/-! ## Buffers -/

/-- Bytes that a buffer holds. -/
def bufferSize : Nat := 8192

/-- The pieces held back in a buffer, the last one first, as one piece in front of others. -/
def flushed (held : List Text) (p : Unit → Pieces α) : Pieces α :=
  if held.isEmpty then p () else .piece held.reverse.flatten p

/-- The pieces that come out of a buffer which holds back pieces of `size` bytes: it is emptied when
the next piece does not fit, and a piece as large as the buffer goes past it. -/
def throughBuffer (held : List Text) (size : Nat) : Pieces α → Pieces α
  | .done a => flushed held fun _ => .done a
  | .piece t rest =>
    if size + t.byteSize ≤ bufferSize then
      (rest ()).throughBuffer (t :: held) (size + t.byteSize)
    else if bufferSize ≤ t.byteSize then
      flushed held fun _ => .piece t fun _ => (rest ()).throughBuffer [] 0
    else flushed held fun _ => (rest ()).throughBuffer [t] t.byteSize

/-- The pieces that come out of an empty buffer. -/
def buffered (p : Pieces α) : Pieces α :=
  p.throughBuffer [] 0

theorem text_flushed (held : List Text) (p : Unit → Pieces α) :
    (flushed held p).text = held.reverse.flatten ++ (p ()).text := by
  unfold flushed
  split
  · next h => simp [List.isEmpty_iff.1 h]
  · rfl

/-- A buffer changes where the pieces end, not what they say. -/
theorem text_throughBuffer (held : List Text) (size : Nat) (p : Pieces α) :
    (p.throughBuffer held size).text = held.reverse.flatten ++ p.text := by
  induction p generalizing held size with
  | done a => simp [throughBuffer, text_flushed]
  | piece t rest ih =>
    rw [throughBuffer]
    split
    · simp [ih]
    · split <;> simp [text_flushed, ih]

/-- A buffer keeps the value at the end. -/
theorem value_throughBuffer (held : List Text) (size : Nat) (p : Pieces α) :
    (p.throughBuffer held size).value = p.value := by
  have hf (held : List Text) (q : Unit → Pieces α) : (flushed held q).value = (q ()).value := by
    unfold flushed
    split <;> rfl
  induction p generalizing held size with
  | done a => simp [throughBuffer, hf, value]
  | piece t rest ih =>
    rw [throughBuffer]
    split
    · simp [ih, value]
    · split <;> simp [hf, value, ih]

end Pieces

end Literate
