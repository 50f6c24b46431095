import AstroTemplate.Markup.StartTag
import AstroTemplate.Markup.Whitespace

set_option autoImplicit false

/-! # Reading a template

`Template.read` turns a source text into a tree and a list of errors. It works like a reader of
HTML: a `Reader` holds its place in the source, the nodes read so far in the innermost open
element, and the stack of open elements. Each `Reader.step` reads one thing: a text, an
interpolation, a comment, a start tag, or a closing tag. A closing tag that belongs to an element
further out first closes the elements inside it, one step for each, and reports them as unclosed;
one that belongs to no open element is reported and skipped.

Every step either moves on in the source or closes an element (`Reader.step_size_lt`), so reading
comes to an end on every source.

The reader has its place in the source as a `Cursor`, with an offset that is exact. In a source of
2^32 bytes or more the offsets of tokens and spans are not exact any more. What is read of such a
source is not said by `Template.read`.
-/

namespace AstroTemplate

/-! ## Parts of the source -/

/-- Elements whose content is text, whatever it looks like. -/
def rawTextElements : List (List Char) :=
  ["script", "style", "textarea", "title"].map String.toList

def isRawTextElement (name : List Char) : Bool := rawTextElements.any (sameName · name)

/-- Elements whose white space is kept. -/
def isPreformatted (name : List Char) : Bool := sameName name "pre".toList

/-- A character that ends the name of a closing tag. -/
def endsClosingName (c : Char) : Bool := isTagSpace c || c == '>' || c == '/'

/-- Whether a tag, a comment or an interpolation may begin here, so that text ends. -/
def endsText : List Char → Bool
  | '\x7b' :: '\x7b' :: _ => true
  | '<' :: c :: _ => c.isAlpha || c == '/' || c == '!'
  | _ => false

/-- The text up to where something else may begin. -/
def textRun : List Char → List Char
  | [] => []
  | c :: cs => if endsText (c :: cs) then [] else c :: textRun cs

/-- Whether a closing tag for `name` stands at the beginning of `s`. -/
def closesHere (name s : List Char) : Bool :=
  match afterPrefix? ['<', '/'] s with
  | none => false
  | some t =>
    sameName (t.take name.length) name && ((t.drop name.length).head?.all endsClosingName)

/-- The text before the first closing tag for `name`. -/
def rawContent? (name : List Char) : List Char → Option (List Char)
  | [] => none
  | c :: cs =>
    if closesHere name (c :: cs) then some []
    else (rawContent? name cs).map (c :: ·)

namespace Cursor

/-- Whether the `<` under the cursor begins a start tag. -/
def opensElement (c : Cursor) : Bool :=
  match c.rest with
  | '<' :: first :: _ => first.isAlpha
  | _ => false

/-- The name in the closing tag under the cursor. -/
def closingName (c : Cursor) : List Char :=
  (c.rest.drop 2).takeWhile fun ch => !endsClosingName ch

/-- The cursor after the next `>`, or at the end of the source. -/
def pastTag (c : Cursor) : Cursor :=
  match c.cutAt? ['>'] with
  | some (_, next) => next
  | none => c.toEnd

/-- The closing tag under the cursor: what is wrong with it, and the cursor after it. -/
def readClosingTag (c : Cursor) : Reading Unit :=
  ⟨(), if (c.cutAt? ['>']).isSome then [] else [⟨.endInsideTag, c.tokenSpan⟩], c.pastTag⟩

/-- The content of the raw text element `name`, with its closing tag. -/
def readRawText (c : Cursor) (name : List Char) (startTag : Span) : Reading (List Node) :=
  let content := (rawContent? name c.rest).getD c.rest
  let last := c.drop content.length
  let nodes :=
    if content.isEmpty then [] else [.text (c.spanTo last) content (isTagBlank content)]
  if (rawContent? name c.rest).isSome then
    ⟨nodes, last.readClosingTag.errors, last.readClosingTag.next⟩
  else ⟨nodes, [⟨.unclosedTag name, startTag⟩], last⟩

end Cursor

/-! ## The reader -/

/-- An element whose content is being read. -/
structure OpenElement where
  /-- The offset of its `<`. -/
  start : Nat
  /-- The offset after its start tag. -/
  contentStart : Nat
  name : List Char
  props : List TagProp
  /-- The siblings read before it, the last one first. -/
  before : List Node
  deriving DecidableEq, Repr

/-- A template that is being read. -/
structure Reader where
  cursor : Cursor
  /-- The nodes read in the innermost open element, the last one first. -/
  nodes : List Node
  /-- The open elements, the innermost one first. -/
  stack : List OpenElement
  /-- The errors found, the last one first. -/
  errors : List ParseError
  deriving DecidableEq, Repr

/-- A finished list of siblings under the white space mode; inside `pre` nothing is condensed. -/
def finishSiblings (mode : WhitespaceMode) (outer : List OpenElement) (nodes : List Node) :
    List Node :=
  if mode = .condense ∧ outer.all (fun e => !isPreformatted e.name) then condense nodes
  else nodes

namespace OpenElement

/-- The children of an element that is being closed. -/
def finishChildren (mode : WhitespaceMode) (e : OpenElement) (outer : List OpenElement)
    (nodes : List Node) : List Node :=
  if isPreformatted e.name then dropLeadingBreak nodes else finishSiblings mode outer nodes

/-- The element, closed at `stop`. -/
def close (e : OpenElement) (stop : Nat) (children : List Node) : Node :=
  .element ⟨.ofOffsets e.start stop, e.name, e.props, false⟩ children

/-- The span of the start tag. -/
def startTagSpan (e : OpenElement) : Span := .ofOffsets e.start e.contentStart

end OpenElement

namespace Reader

def ofSource (source : List Char) : Reader := ⟨.ofSource source, [], [], []⟩

/-- Adds errors in the order in which they were found. -/
def report (r : Reader) (errors : List ParseError) : Reader :=
  { r with errors := errors.reverse ++ r.errors }

/-- Adds a node and moves on. -/
def push (r : Reader) (node : Node) (next : Cursor) : Reader :=
  { r with nodes := node :: r.nodes, cursor := next }

/-- Adds text and moves on. Text that directly follows text belongs to it. -/
def pushText (r : Reader) (data : List Char) (next : Cursor) : Reader :=
  let span := r.cursor.spanTo next
  match r.nodes with
  | .text before old blank :: older =>
    if before.stop = span.start then
      let joined := .text (before.cover span) (old ++ data) (blank && isTagBlank data)
      { r with nodes := joined :: older, cursor := next }
    else r.push (.text span data (isTagBlank data)) next
  | _ => r.push (.text span data (isTagBlank data)) next

/-- Reads text. The first character belongs to it whatever it is. -/
def readText (r : Reader) : Reader :=
  let data := r.cursor.rest.take 1 ++ textRun (r.cursor.rest.drop 1)
  r.pushText data (r.cursor.drop data.length)

/-- Reads a comment, up to the end of the source if it is not ended. -/
def readComment (r : Reader) : Reader :=
  let body := r.cursor.drop 4
  match body.cutAt? ['-', '-', '>'] with
  | some (data, next) => r.push (.comment (r.cursor.spanTo next) data) next
  | none =>
    (r.report [⟨.unterminatedComment, r.cursor.tokenSpan⟩]).push
      (.comment (r.cursor.spanTo body.toEnd) body.rest) body.toEnd

/-- Reads an interpolation. One that is not ended leaves its opening braces as text. -/
def readInterpolation (r : Reader) : Reader :=
  let inner := r.cursor.drop 2
  match inner.cutAt? ['\x7d', '\x7d'] with
  | some (raw, next) =>
    let expression := trim raw
    let start := inner.offset + byteLength (raw.takeWhile isBlank)
    r.push (.interpolation (r.cursor.spanTo next)
      (.ofOffsets start (start + byteLength expression)) expression) next
  | none =>
    (r.report [⟨.unterminatedInterpolation, r.cursor.tokenSpan⟩]).pushText ['\x7b', '\x7b'] inner

/-- Reads a start tag. The element is complete if it cannot have children or its content is raw
text; otherwise it is now the innermost open element. -/
def readElement (r : Reader) : Reader :=
  let tag := readStartTag r.cursor
  let name := tag.value.name
  let r := r.report tag.errors
  let element := fun (next : Cursor) =>
    Node.element ⟨r.cursor.spanTo next, name, tag.value.props, tag.value.selfClosing⟩
  if tag.value.selfClosing || isVoidElement name then
    r.push (element tag.next []) tag.next
  else if isRawTextElement name then
    let raw := tag.next.readRawText name (r.cursor.spanTo tag.next)
    (r.report raw.errors).push (element raw.next raw.value) raw.next
  else
    { r with
      cursor := tag.next
      nodes := []
      stack := ⟨r.cursor.offset, tag.next.offset, name, tag.value.props, r.nodes⟩ :: r.stack }

/-- Skips a closing tag that belongs to no open element. -/
def skipClosingTag (r : Reader) : Reader :=
  let found := r.cursor.closingName
  let next := r.cursor.pastTag
  let kind := match r.stack with
    | [] => .strayClosingTag found
    | e :: _ => .mismatchedClosingTag e.name found
  { r.report [⟨kind, r.cursor.spanTo next⟩] with cursor := next }

/-- Closes the innermost open element with the closing tag under the cursor. -/
def closeElement (mode : WhitespaceMode) (e : OpenElement) (outer : List OpenElement)
    (r : Reader) : Reader :=
  let tag := r.cursor.readClosingTag
  let children := e.finishChildren mode outer r.nodes.reverse
  { r.report tag.errors with
    cursor := tag.next
    nodes := e.close tag.next.offset children :: e.before
    stack := outer }

/-- Closes the innermost open element where it has no closing tag of its own. -/
def abandonElement (mode : WhitespaceMode) (e : OpenElement) (outer : List OpenElement)
    (r : Reader) : Reader :=
  let children := e.finishChildren mode outer r.nodes.reverse
  { r.report [⟨.unclosedTag e.name, e.startTagSpan⟩] with
    nodes := e.close r.cursor.offset children :: e.before
    stack := outer }

/-- Reads a closing tag. -/
def readClosing (mode : WhitespaceMode) (r : Reader) : Reader :=
  match r.stack with
  | [] => r.skipClosingTag
  | e :: outer =>
    if sameName e.name r.cursor.closingName then r.closeElement mode e outer
    else if outer.any (sameName ·.name r.cursor.closingName) then r.abandonElement mode e outer
    else r.skipClosingTag

/-- Reads the next thing. At the end of the source the innermost open element is closed. -/
def step (mode : WhitespaceMode) (r : Reader) : Reader :=
  match r.cursor.kind with
  | .endOfFile =>
    match r.stack with
    | [] => r
    | e :: outer => r.abandonElement mode e outer
  | .closingTagOpen => r.readClosing mode
  | .commentOpen => r.readComment
  | .mustacheOpen => r.readInterpolation
  | .tagOpen => if r.cursor.opensElement then r.readElement else r.readText
  | _ => r.readText

/-- Whether everything has been read and closed. -/
def isDone (r : Reader) : Bool := r.cursor.rest.isEmpty && r.stack.isEmpty

/-- What is left to do: each character can be read and each element be closed. A start tag opens
one element and has more than one character. -/
def size (r : Reader) : Nat := 2 * r.cursor.rest.length + r.stack.length

/-! ## Every step makes progress -/

theorem rest_ne_nil_of_kind {c : Cursor} (h : c.kind ≠ .endOfFile) : c.rest ≠ [] := by
  intro hnil
  simp [Cursor.kind, hnil, firstToken?] at h

theorem kind_eq_endOfFile {c : Cursor} : c.kind = .endOfFile ↔ c.rest = [] := by
  constructor
  · intro h
    unfold Cursor.kind at h
    split at h
    · rename_i kind _ _ heq
      subst h
      unfold firstToken? at heq
      split at heq <;> simp at heq
      split at heq <;> simp at heq
      split at heq <;> simp at heq
    · rename_i heq
      exact firstToken?_eq_none.1 heq
  · intro h
    simp [Cursor.kind, h, firstToken?]

theorem pastTag_rest_lt {c : Cursor} (hc : c.rest ≠ []) :
    c.pastTag.rest.length < c.rest.length := by
  have := List.length_pos_iff.2 hc
  unfold Cursor.pastTag
  split
  · rename_i h
    exact Cursor.cutAt?_rest_lt (by simp) h
  · simpa [Cursor.toEnd] using this

theorem pastTag_rest_le (c : Cursor) : c.pastTag.rest.length ≤ c.rest.length := by
  unfold Cursor.pastTag
  split
  · rename_i h
    exact Nat.le_of_lt (Cursor.cutAt?_rest_lt (by simp) h)
  · simp [Cursor.toEnd]

theorem readRawText_rest_le (c : Cursor) (name : List Char) (span : Span) :
    (c.readRawText name span).next.rest.length ≤ c.rest.length := by
  have h1 := c.drop_rest_le ((rawContent? name c.rest).getD c.rest).length
  have h2 := pastTag_rest_le (c.drop ((rawContent? name c.rest).getD c.rest).length)
  unfold Cursor.readRawText
  simp only
  split
  · simp only [Cursor.readClosingTag]
    omega
  · exact h1

theorem drop_rest_lt {c : Cursor} (hc : c.rest ≠ []) {count : Nat} (h : 0 < count) :
    (c.drop count).rest.length < c.rest.length := by
  have := List.length_pos_iff.2 hc
  simp [Cursor.drop]
  omega

@[simp] theorem pushText_cursor (r : Reader) (data : List Char) (next : Cursor) :
    (r.pushText data next).cursor = next := by
  unfold pushText
  simp only
  split
  · split <;> rfl
  · rfl

@[simp] theorem pushText_stack (r : Reader) (data : List Char) (next : Cursor) :
    (r.pushText data next).stack = r.stack := by
  unfold pushText
  simp only
  split
  · split <;> rfl
  · rfl

theorem readText_size_lt {r : Reader} (h : r.cursor.rest ≠ []) : r.readText.size < r.size := by
  have hlen := List.length_pos_iff.2 h
  have hdata : 0 < (r.cursor.rest.take 1 ++ textRun (r.cursor.rest.drop 1)).length := by
    simp
    omega
  have := drop_rest_lt h hdata
  simp only [readText, size, pushText_cursor, pushText_stack]
  omega

theorem readComment_size_lt {r : Reader} (h : r.cursor.rest ≠ []) :
    r.readComment.size < r.size := by
  have hlen := List.length_pos_iff.2 h
  have hbody := r.cursor.drop_rest_le 4
  unfold readComment
  simp only
  split
  · rename_i hcut
    have := Cursor.cutAt?_rest_lt (by simp) hcut
    simp only [size, push]
    omega
  · simp only [size, push, report, Cursor.toEnd, List.length_nil]
    omega

theorem readInterpolation_size_lt {r : Reader} (h : r.cursor.rest ≠ []) :
    r.readInterpolation.size < r.size := by
  have hinner := drop_rest_lt h (show 0 < 2 by omega)
  unfold readInterpolation
  simp only
  split
  · rename_i hcut
    have := Cursor.cutAt?_rest_lt (by simp) hcut
    simp only [size, push]
    omega
  · simp only [size, pushText_cursor, pushText_stack, report]
    omega

theorem readElement_size_lt {r : Reader} (h : r.cursor.rest ≠ []) :
    r.readElement.size < r.size := by
  have htag := readStartTag_rest_lt h
  have hraw := readRawText_rest_le (readStartTag r.cursor).next
    (readStartTag r.cursor).value.name
    (r.cursor.spanTo (readStartTag r.cursor).next)
  unfold readElement
  simp only
  split
  · simp only [size, push, report]
    omega
  · split
    · simp only [size, push, report]
      omega
    · simp only [size, report, List.length_cons]
      omega

theorem readClosing_size_lt (mode : WhitespaceMode) {r : Reader} (h : r.cursor.rest ≠ []) :
    (r.readClosing mode).size < r.size := by
  have hpast := pastTag_rest_lt h
  unfold readClosing
  split
  · simp only [skipClosingTag, size, report]
    omega
  · rename_i hstack
    split
    · simp only [closeElement, Cursor.readClosingTag, size, report, hstack, List.length_cons]
      omega
    · split
      · simp only [abandonElement, size, report, hstack, List.length_cons]
        omega
      · simp only [skipClosingTag, size, report]
        omega

/-- A step reads something or closes an element. -/
theorem step_size_lt (mode : WhitespaceMode) {r : Reader} (h : r.isDone = false) :
    (r.step mode).size < r.size := by
  unfold step
  split
  · rename_i hkind
    have hrest := kind_eq_endOfFile.1 hkind
    split
    · rename_i hstack
      simp [isDone, hrest, hstack] at h
    · rename_i hstack
      simp only [abandonElement, size, report, hstack, List.length_cons]
      omega
  · rename_i hkind
    exact readClosing_size_lt mode (rest_ne_nil_of_kind (by simp [hkind]))
  · rename_i hkind
    exact readComment_size_lt (rest_ne_nil_of_kind (by simp [hkind]))
  · rename_i hkind
    exact readInterpolation_size_lt (rest_ne_nil_of_kind (by simp [hkind]))
  · rename_i hkind
    have hrest := rest_ne_nil_of_kind (c := r.cursor) (by simp [hkind])
    split
    · exact readElement_size_lt hrest
    · exact readText_size_lt hrest
  · rename_i hkind _ _ _ _
    exact readText_size_lt (rest_ne_nil_of_kind hkind)

/-- Reads on to the end. -/
def run (mode : WhitespaceMode) (r : Reader) : Reader :=
  match h : r.isDone with
  | true => r
  | false =>
    have := step_size_lt mode h
    run mode (r.step mode)
termination_by r.size

end Reader

/-! ## Templates -/

/-- A template: its nodes, and what is wrong with its source. -/
structure Template where
  span : Span
  nodes : List Node
  errors : List ParseError
  deriving DecidableEq, Repr

/-- Reads the template that `source` holds. This is for sources shorter than 2^32 bytes, whose
offsets fit into spans: `TokenReader.readAnySize?`, which knows the place in a source only by the
offsets of its tokens, reads sources of any size, and these in the same way
(`TokenReader.readAnySize?_eq`). -/
def Template.read (mode : WhitespaceMode) (source : List Char) : Template :=
  let r := (Reader.ofSource source).run mode
  ⟨.ofOffsets 0 (byteLength source), finishSiblings mode [] r.nodes.reverse, r.errors.reverse⟩

end AstroTemplate
