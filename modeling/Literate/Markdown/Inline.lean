import Literate.Markdown.Container
import Literate.Markdown.Item
import Literate.Markdown.Link
import Literate.Markdown.Tag

/-!
# Inline markup

The items of a paragraph, a heading or a cell become nodes in two rounds. The first goes from left to
right and settles code spans, raw tags, links, images and footnote marks; what it leaves are nodes and
runs of delimiters. The second matches the runs: a run that can close looks for the nearest run that
can open it, what stands between the two becomes emphasis, and what is left of runs is plain text. The
text of a link is matched by itself.

A backslash before a line end makes a hard break. Where the break is the very last thing of a text or
of a link in which runs are matched, it breaks nothing, and the backslash stays.
-/

namespace Literate.Markdown

/-- A node of inline markup. -/
inductive Inline where
  | text (t : Text)
  | code (t : Text)
  | html (t : Text)
  | softBreak
  | hardBreak
  | emphasis (body : List Inline)
  | strong (body : List Inline)
  | strike (body : List Inline)
  | link (destination : Destination) (body : List Inline)
  | image (destination : Destination) (body : List Inline)
  | footnote (label : Text)
  /-- A block of a tight list item, by its number. -/
  | block (n : Nat)

/-- A node, or something that is still to be settled. -/
inductive Token where
  | node (i : Inline)
  /-- A run of delimiters. Blanks at the end of a heading may stand behind its last run; they stay only
  with delimiters that stay. -/
  | run (c : Char) (count : Nat) (canOpen canClose : Bool) (blanks : Text)
  /-- A backslash before a line end. -/
  | slashBreak

/-- Whether a token is a run of delimiters. -/
def Token.isRun : Token → Bool
  | .run _ _ _ _ _ => true
  | _ => false

/-! ## Matching runs of delimiters -/

/-- A run that waits to be closed, with the nodes before it, the last one first. -/
structure Opener where
  char : Char
  count : Nat
  /-- The length of the run as written. -/
  length : Nat
  /-- Whether the run could close another one. -/
  canClose : Bool
  /-- Whether the run has been given up. -/
  lost : Bool
  blanks : Text
  before : List Inline

/-- What is left of a run as text. -/
def leftover (c : Char) (n : Nat) (blanks : Text) : Inline :=
  .text (List.replicate n c ++ blanks)

/-- The nodes of runs that stay open, innermost first, and of what follows them, the last node
first. -/
def flatten (openers : List Opener) (current : List Inline) : List Inline :=
  openers.foldl (fun nodes o => o.before.reverse ++ leftover o.char o.count o.blanks :: nodes)
    current.reverse

/-- Whether a run closes an opener. Where one of the two can both open and close, their lengths may
not add up to a multiple of three, unless both are multiples of three. Tildes match only runs of their
own length. -/
def Opener.matchedBy (o : Opener) (c : Char) (length : Nat) (canOpen : Bool) : Bool :=
  o.char == c && !o.lost && (c != '~' || o.length == length)
    && ((!canOpen && !o.canClose) || (o.length + length) % 3 != 0 || length % 3 == 0)

/-- The openers behind a run that has closed none of them: tildes give up the tildes before them. -/
def giveUp (c : Char) (stack : List Opener) : List Opener :=
  if c == '~' then stack.map fun o => { o with lost := o.lost || o.char == c } else stack

/-- The node that a matched pair makes, and the number of delimiters that it takes on either side. -/
def wrap (c : Char) (opened remaining : Nat) (body : List Inline) : Inline × Nat :=
  if c == '~' then (.strike body, min opened remaining)
  else if 2 ≤ opened && 2 ≤ remaining then (.strong body, 2)
  else (.emphasis body, 1)

/-- Closes openers with a run, as long as delimiters are left. The number bounds the rounds. -/
def closeRun (c : Char) (length : Nat) (canOpen : Bool) :
    Nat → Nat → List Opener → List Inline → Nat × List Opener × List Inline
  | 0, remaining, stack, current => (remaining, stack, current)
  | rounds + 1, remaining, stack, current =>
    let waits := fun o : Opener => !o.matchedBy c length canOpen
    match stack.dropWhile waits with
    | [] => (remaining, if remaining = 0 then stack else giveUp c stack, current)
    | o :: outer =>
      if remaining = 0 then (remaining, stack, current)
      else
        let (node, taken) := wrap c o.count remaining (flatten (stack.takeWhile waits) current)
        if o.count ≤ taken then
          closeRun c length canOpen rounds (remaining - taken) outer (node :: o.before)
        else
          closeRun c length canOpen rounds (remaining - taken)
            ({ o with count := o.count - taken, blanks := [] } :: outer) [node]

/-- Matches the runs among tokens. Where `settled`, a backslash in the last place is text. -/
def resolve (settled : Bool) (stack : List Opener) (current : List Inline) :
    List Token → List Inline
  | [] => flatten stack current
  | .node i :: rest => resolve settled stack (i :: current) rest
  | .slashBreak :: rest =>
    let node := if settled && rest.isEmpty then Inline.text ['\\'] else .hardBreak
    resolve settled stack (node :: current) rest
  | .run c count canOpen canClose blanks :: rest =>
    let (remaining, stack, current) :=
      if canClose then closeRun c count canOpen count count stack current
      else (count, stack, current)
    if remaining = 0 then resolve settled stack current rest
    else if canOpen then
      resolve settled (⟨c, remaining, count, canClose, false, blanks, current⟩ :: stack) [] rest
    else resolve settled stack (leftover c remaining blanks :: current) rest

/-! ## Text that holds inline markup -/

/-- The items of a paragraph, a heading or a cell, the position where it ends, and what it stands
in. -/
structure Leaf where
  items : List Item
  stop : Nat
  containers : List Container
  inTable : Bool

/-- What the page defines by labels: footnotes, and the destinations of references. -/
structure Definitions where
  footnotes : List Text
  references : List (Text × Destination)

/-- What inline markup is read from: the source up to the end of a block, the containers around the
block, whether it is in a table, and the definitions of the page. -/
structure Setting where
  source : Source
  containers : List Container
  inTable : Bool
  definitions : Definitions

/-- The text of an item. -/
def Setting.literal (a : Setting) (item : Item) : Token :=
  .node (.text (a.source.slice item.start item.stop))

/-- The position behind the marks at the start of a line. -/
def Setting.resume (a : Setting) (i : Nat) : Nat :=
  behindMarks a.source a.containers i

/-- The items behind a position; of an item that the position cuts, the end stays. -/
def itemsFrom (i : Nat) : List Item → List Item
  | [] => []
  | item :: rest =>
    if item.stop ≤ i then itemsFrom i rest else { item with start := max item.start i } :: rest

theorem length_itemsFrom_le (i : Nat) (items : List Item) :
    (itemsFrom i items).length ≤ items.length := by
  induction items with
  | nil => simp [itemsFrom]
  | cons item rest ih =>
    rw [itemsFrom]
    split
    · exact Nat.le_succ_of_le ih
    · simp

/-! ## Code spans and raw tags -/

/-- The text from a position up to another one without the marks at the start of its lines; `atBreak`
gives what stands for a line end. In the code of a cell, an escaped bar is a bar. -/
def spanText (s : Source) (containers : List Container) (atBreak : Char → Char) (bars : Bool)
    (stop : Nat) (text : Text) (i : Nat) : Text :=
  if i < stop then
    match s.get? i with
    | none => text.reverse
    | some c =>
      if c == '\n' || c == '\r' then
        spanText s containers atBreak bars stop (atBreak c :: text)
          (max (i + 1) (behindMarks s containers (i + 1)))
      else if bars && c == '\\' && s.has '|' (i + 1) && i + 1 < stop then
        spanText s containers atBreak bars stop ('|' :: text) (i + 2)
      else spanText s containers atBreak bars stop (c :: text) (i + 1)
  else text.reverse
  termination_by stop - i

/-- A code span without one blank on either side, unless all is blank. -/
def trimCode (t : Text) : Text :=
  if t.head? == some ' ' && t.getLast? == some ' ' && t.any (· != ' ') then (t.drop 1).dropLast
  else t

/-- The content of a code span between two positions. -/
def Setting.code (a : Setting) (start stop : Nat) : Inline :=
  .code (trimCode (spanText a.source a.containers (fun _ => ' ') a.inTable stop [] start))

/-- Whether an item is a run of `n` backticks. -/
def Item.isTicks (n : Nat) (item : Item) : Bool :=
  match item.kind with
  | .ticks count _ => count == n
  | _ => false

/-- The tokens of a run of backticks, the last one first, and the position behind them. The next run
of the same length closes a code span; an escaped backtick does not belong to the run. -/
def Setting.ticks (a : Setting) (item : Item) (count : Nat) (escaped : Bool) (rest : List Item) :
    List Token × Nat :=
  let n := if escaped then count - 1 else count
  match if n = 0 then none else rest.find? (Item.isTicks n) with
  | some closing =>
    let code := Token.node (a.code item.stop closing.start)
    (if escaped then [code, .node (.text ['`'])] else [code], closing.stop)
  | none => ([a.literal item], item.stop)

/-- An address as a link to itself; mail goes by a scheme of its own. -/
def addressLink (scheme address : Text) : Inline :=
  .link ⟨scheme ++ address, []⟩ [.text address]

/-- The node of an angle bracket with what belongs to it, and the position behind it. -/
def Setting.angle? (a : Setting) (i : Nat) : Option (Inline × Nat) :=
  let s := a.source
  match address? s (i + 1) with
  | some stop => some (addressLink [] (s.slice (i + 1) (stop - 1)), stop)
  | none =>
  match mailAddress? s (i + 1) with
  | some stop => some (addressLink "mailto:".toList (s.slice (i + 1) (stop - 1)), stop)
  | none =>
  match declaration? s (i + 1) with
  | some stop => some (.html (s.slice i stop), stop)
  | none => (tag? s (some a.resume) (i + 1)).map fun stop =>
    (.html (spanText s a.containers id false stop [] i), stop)

/-- The tokens of an item that is no bracket, the last one first, and the position behind them. -/
def Setting.front (a : Setting) (item : Item) (rest : List Item) : List Token × Nat :=
  match item.kind with
  | .value t => ([.node (.text t)], item.stop)
  | .softBreak => ([.node .softBreak], item.stop)
  | .hardBreak slash => ([if slash then .slashBreak else .node .hardBreak], item.stop)
  | .block n => ([.node (.block n)], item.stop)
  | .run c count canOpen canClose =>
    ([.run c count canOpen canClose (a.source.slice (item.start + count) item.stop)], item.stop)
  | .ticks count escaped => a.ticks item count escaped rest
  | .angle =>
    match a.angle? item.start with
    | some (node, stop) => ([.node node], stop)
    | none => ([a.literal item], item.stop)
  | _ => ([a.literal item], item.stop)

/-! ## Links, images and footnote marks -/

/-- An opening bracket that waits for its closing one, with the tokens before it, the last one
first. -/
structure Bracket where
  item : Item
  image : Bool
  /-- Whether a link has been found behind the bracket. -/
  aroundLink : Bool
  before : List Token

/-- The tokens of brackets that stay open, innermost first, and of what follows them, the last token
first. -/
def Setting.flatten (a : Setting) (stack : List Bracket) (current : List Token) : List Token :=
  stack.foldl (fun tokens b => b.before.reverse ++ a.literal b.item :: tokens) current.reverse

/-- A link holds no other link, so a bracket around one stays text. An image may hold links. -/
def Bracket.active (b : Bracket) : Bool :=
  b.image || !b.aroundLink

/-- The open brackets, innermost first, around a link that has just been found. Those outside of a
bracket around another link are around that link as well. -/
def holdingLink : List Bracket → List Bracket
  | [] => []
  | b :: outer => if b.aroundLink then b :: outer else { b with aroundLink := true } :: holdingLink outer

/-- What a closing bracket makes of the brackets that are open and of the tokens behind them, and the
position where reading goes on. -/
structure Closed where
  stack : List Bracket
  current : List Token
  next : Nat

/-- A label in square brackets that ends exactly at a position: of a footnote, or of a reference. -/
def Setting.ownLabel? (a : Setting) (start stop : Nat) : Option (Bool × Text) :=
  let s := a.source.upTo stop
  let ends := fun (r : Text × Nat) => r.2 == stop
  match if s.has ']' (start + 2) then none else footnoteLabel? s a.inTable start with
  | some r => if ends r then some (true, r.1) else none
  | none => ((label? s a.inTable (some ∘ a.resume) (start + 1)).filter ends).map fun r => (false, r.1)

/-- The label of a reference at the start of the items behind a closing bracket, and the position
behind it; an empty pair of brackets repeats the label before it. -/
def Setting.nextLabel? (a : Setting) (rest : List Item) : Option (Option Text × Nat) := do
  let s := a.source
  let i := (← rest.head?).start
  if s.hasText "[]".toList i then some (none, i + 2)
  else if !s.has '[' i || (!s.has ']' (i + 2) && (footnoteLabel? s a.inTable i).isSome) then none
  else (label? s a.inTable (some ∘ a.resume) (i + 1)).map fun (label, next) => (some label, next)

/-- A link or an image in place of its bracket. -/
def Bracket.linked (b : Bracket) (outer : List Bracket) (current : List Token)
    (destination : Destination) (next : Nat) : Closed :=
  let body := resolve (current.any Token.isRun) [] [] current.reverse
  if b.image then ⟨outer, .node (.image destination body) :: b.before, next⟩
  else ⟨holdingLink outer, .node (.link destination body) :: b.before, next⟩

/-- The footnote mark or the reference that two brackets make. -/
def Setting.labelled? (a : Setting) (b : Bracket) (outer : List Bracket) (current : List Token)
    (item : Item) (rest : List Item) : Option Closed :=
  let behind := a.nextLabel? rest
  match behind with
  | some (some label, next) =>
    (a.definitions.references.lookup (labelKey label)).map (b.linked outer current · next)
  | _ =>
    match a.ownLabel? (b.item.stop - 1) item.stop with
    | some (true, label) =>
      if a.definitions.footnotes.contains (labelKey label) then
        let before := (a.flatten outer b.before).reverse
        let before := if b.image then .node (.text ['!']) :: before else before
        some ⟨[], .node (.footnote label) :: before, item.stop⟩
      else none
    | some (false, label) =>
      let next := match behind with
        | some (_, next) => next
        | none => item.stop
      (a.definitions.references.lookup (labelKey label)).map (b.linked outer current · next)
    | none => none

/-- The start of the first item that ends behind the line end at a position, if the item starts behind
it. -/
def contentBehind (rest : List Item) (i : Nat) : Option Nat :=
  match rest.find? fun item => i + 1 < item.stop with
  | some item => if i < item.start then some item.start else none
  | none => none

/-- What a closing bracket makes of the brackets before it. -/
def Setting.close (a : Setting) (item : Item) (rest : List Item) (stack : List Bracket)
    (current : List Token) : Closed :=
  match stack with
  | [] => ⟨[], a.literal item :: current, item.stop⟩
  | b :: outer =>
    let failed : Closed :=
      ⟨outer, a.literal item :: (current ++ a.literal b.item :: b.before), item.stop⟩
    if b.active then
      match tail? a.source a.inTable a.resume (contentBehind rest) item.stop with
      | some (destination, next) => b.linked outer current destination next
      | none => (a.labelled? b outer current item rest).getD failed
    else failed

/-! ## Reading -/

/-- The tokens of items, in order. -/
def Setting.tokens (a : Setting) (stack : List Bracket) (current : List Token) (items : List Item) :
    List Token :=
  match items with
  | [] => a.flatten stack current
  | item :: rest =>
    match item.kind with
    | .opening image => a.tokens (⟨item, image, false, current⟩ :: stack) [] rest
    | .closing =>
      let closed := a.close item rest stack current
      a.tokens closed.stack closed.current (itemsFrom closed.next rest)
    | _ =>
      let (front, next) := a.front item rest
      a.tokens stack (front ++ current) (itemsFrom next rest)
  termination_by items.length
  decreasing_by
    all_goals
      simp only [List.length_cons]
      first
        | omega
        | exact Nat.lt_succ_of_le (length_itemsFrom_le _ _)

/-- The inline nodes of a leaf. -/
def Leaf.inlines (s : Source) (definitions : Definitions) (leaf : Leaf) : List Inline :=
  let a : Setting := ⟨s.upTo leaf.stop, leaf.containers, leaf.inTable, definitions⟩
  resolve (leaf.items.any (·.kind.isOpen)) [] [] (a.tokens [] [] leaf.items)

end Literate.Markdown
