import Literate.Markdown.Source

/-!
# Tags and addresses in angle brackets

A page may hold raw HTML: tags, comments, processing instructions, declarations and character data.
A tag may run over several lines; then `resume` leads from the start of a line to the position behind
the marks of the blocks around it.
-/

namespace Literate.Markdown

/-! ## Tags -/

/-- The position behind blanks and line ends, with the marks at the start of each line. Without
`resume` it stops at a line end. -/
def afterBlanks (s : Source) (resume : Option (Nat → Nat)) (i : Nat) : Nat :=
  if i < s.stop then
    if s.test isInnerBlank i then afterBlanks s resume (i + 1)
    else match resume, s.lineEnd? i with
      | some skip, some next => afterBlanks s resume (max (i + 1) (skip next))
      | _, _ => i
  else i
  termination_by s.stop - i

/-- The position behind the value of an attribute. -/
def attributeValue? (s : Source) (manyLines : Bool) (i : Nat) : Option Nat :=
  match s.get? i with
  | none => none
  | some c =>
    if c == '"' || c == '\'' then
      let stop := s.skip (fun d => d != c && (manyLines || (d != '\n' && d != '\r'))) (i + 1)
      if s.has c stop then some (stop + 1) else none
    else
      let stop := s.skip (fun d => !"'\" =><`\n\r".toList.contains d) i
      if i < stop then some stop else none

/-- The position behind an attribute, from its name on. Blanks behind a name without a value are
left. -/
def attribute? (s : Source) (resume : Option (Nat → Nat)) (i : Nat) : Option Nat :=
  if s.test (fun c => c.isAlpha || c == '_' || c == ':') i then
    let stop := s.skip (fun c => c.isAlphanum || "_.:-".toList.contains c) (i + 1)
    let sign := afterBlanks s resume stop
    if s.has '=' sign then attributeValue? s resume.isSome (afterBlanks s resume (sign + 1))
    else some stop
  else none

/-- The position behind the attributes of a tag. Blanks must stand before each of them. -/
def attributes? (s : Source) (resume : Option (Nat → Nat)) (i : Nat) : Option Nat :=
  let start := afterBlanks s resume i
  if s.has '/' start || s.has '>' start then some start
  else if start = i then none
  else match attribute? s resume start with
    | some next => if i < s.stop ∧ i < next then attributes? s resume next else none
    | none => none
  termination_by s.stop - i

/-- The position behind a tag, from behind its angle bracket on. -/
def tag? (s : Source) (resume : Option (Nat → Nat)) (i : Nat) : Option Nat :=
  let closing := s.has '/' i
  let name := if closing then i + 1 else i
  if s.test Char.isAlpha name then
    let stop := s.skip (fun c => c.isAlphanum || c == '-') name
    if closing then
      let stop := s.skip isInnerBlank stop
      if s.has '>' stop then some (stop + 1) else none
    else (attributes? s resume stop).bind fun stop =>
      let stop := if s.has '/' stop then stop + 1 else stop
      if s.has '>' stop then some (stop + 1) else none
  else none

/-! ## Other raw HTML -/

/-- The position behind the first occurrence of a text. -/
def find? (s : Source) (t : Text) (i : Nat) : Option Nat :=
  if i < s.stop then
    if s.hasText t i then some (i + t.length) else find? s t (i + 1)
  else none
  termination_by s.stop - i

/-- The position behind character data, from behind its opening on. -/
def characterData? (s : Source) (i : Nat) : Option Nat :=
  let start := s.skip (· != ']') i
  let stop := s.skip (· == ']') start
  if start < stop && s.has '>' stop then some (stop + 1) else none

/-- The position behind a comment, a declaration, character data or a processing instruction, from
behind the angle bracket on. -/
def declaration? (s : Source) (i : Nat) : Option Nat :=
  if s.hasText "!--".toList i then find? s "-->".toList (i + 1)
  else if s.hasText "![CDATA[".toList i then characterData? s (i + 8)
  else if s.has '!' i && s.test Char.isAlpha (i + 1) then find? s ['>'] (i + 2)
  else if s.has '?' i then find? s "?>".toList (i + 1)
  else none

/-! ## Addresses -/

/-- The position behind an address with a scheme, its angle bracket included. -/
def address? (s : Source) (i : Nat) : Option Nat :=
  let colon := s.skip (fun c => c.isAlphanum || ".-+".toList.contains c) i
  let length := colon - i
  if s.test Char.isAlpha i && s.has ':' colon && 2 ≤ length && length ≤ 32 then
    let stop := s.skip (fun c => ' ' < c && c != '<' && c != '>') colon
    if s.has '>' stop then some (stop + 1) else none
  else none

/-- The position behind the name of a mail host: labels of at most 63 letters, digits and inner
hyphens, with dots between them. -/
def mailHost? (s : Source) (i : Nat) : Option Nat :=
  let stop := s.skip (fun c => c.isAlphanum || c == '-') i
  if i < s.stop ∧ i < stop ∧ stop - i ≤ 63 ∧ !s.has '-' i ∧ !s.has '-' (stop - 1) then
    if s.has '.' stop then mailHost? s (stop + 1) else some stop
  else none
  termination_by s.stop - i
  decreasing_by omega

/-- The position behind a mail address, its angle bracket included. -/
def mailAddress? (s : Source) (i : Nat) : Option Nat :=
  let isLocal := fun c : Char => c.isAlphanum || ".!#$%&'*+/=?^_`\x7b|\x7d~-".toList.contains c
  let stop := s.skip isLocal i
  if i < stop && s.has '@' stop then
    (mailHost? s (stop + 1)).bind fun stop => if s.has '>' stop then some (stop + 1) else none
  else none

/-! ## Blocks of raw HTML -/

/-- The names of tags that start a block. -/
def blockTags : List String :=
  ["address", "article", "aside", "base", "basefont", "blockquote", "body", "caption", "center",
    "col", "colgroup", "dd", "details", "dialog", "dir", "div", "dl", "dt", "fieldset",
    "figcaption", "figure", "footer", "form", "frame", "frameset", "h1", "h2", "h3", "h4", "h5",
    "h6", "head", "header", "hr", "html", "iframe", "legend", "li", "link", "main", "menu",
    "menuitem", "nav", "noframes", "ol", "optgroup", "option", "p", "param", "search", "section",
    "summary", "table", "tbody", "td", "tfoot", "th", "thead", "title", "tr", "track", "ul"]

/-- The name at a position, in lower case, and the position behind it. -/
def nameAt (s : Source) (i : Nat) : Text × Nat :=
  let stop := s.skip Char.isAlphanum i
  ((s.slice i stop).map Char.toLower, stop)

/-- The text that ends the block of raw HTML that starts behind an angle bracket, if it goes on until
a text of its own. -/
def blockEnd? (s : Source) (i : Nat) : Option Text :=
  let opens := fun name : String =>
    let stop := i + name.length
    (s.slice i (min s.stop stop)).map Char.toLower == name.toList
      && (stop == s.stop || s.test (fun c => isSourceBlank c || c == '>') stop)
  match ["pre", "style", "script", "textarea"].find? opens with
  | some name => some ("</".toList ++ name.toList ++ ['>'])
  | none =>
    if s.hasText "!--".toList i then some "-->".toList
    else if s.has '?' i then some "?>".toList
    else if s.hasText "![CDATA[".toList i then some "]]>".toList
    else if s.has '!' i && s.test Char.isAlpha (i + 1) then some ['>']
    else none

/-- Whether a tag of a block stands behind an angle bracket. -/
def startsBlockTag (s : Source) (i : Nat) : Bool :=
  let (name, stop) := nameAt s (if s.has '/' i then i + 1 else i)
  blockTags.contains (String.ofList name)
    && (s.atLineEnd stop || s.test (fun c => isSpaceOrTab c || c == '>') stop
      || s.hasText "/>".toList stop)

/-- Whether a line holds a single tag, from behind its angle bracket on. -/
def isTagLine (s : Source) (i : Nat) : Bool :=
  match tag? s none i with
  | some stop => (s.blankLine? stop).isSome
  | none => false

end Literate.Markdown
