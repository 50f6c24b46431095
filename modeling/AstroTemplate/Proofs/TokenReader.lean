import AstroTemplate.Markup.Template
import AstroTemplate.Proofs.TokenStream

set_option autoImplicit false

/-! # Reading by tokens and offsets

A second way to read a template, close to the bytes of its source. A place in the source is a place
in its stream of tokens. Offsets come from tokens and from searching behind them, and the source is
only ever cut at such an offset. After a part that was found by searching, the stream is moved to
its end.

A cut that would fall inside a character or past the end does not exist, and neither does the
result then: the functions here are partial. Their loops are bounded. If they are `checked`, a turn
of a loop that goes on has to have moved on in the source. `Template.read_total` says that there
always is a result then, and that it is the one of `Template.read`.

That is for sources shorter than 2^32 bytes. The offsets of tokens do not grow beyond the greatest
offset of a span. So in a longer source the reader comes to places whose offset is not that of their
token, and can go on there without moving on; it is followed there without the checks
(`TokenReader.readAnySize?`).
-/

namespace AstroTemplate

/-! ## Searching -/

/-- The offset of the first character of `s` with `p`. -/
def findChar? (p : Char → Bool) (s : List Char) : Option Nat :=
  if s.any p then some (byteLength (s.takeWhile fun c => !p c)) else none

/-- The offset of the first occurrence of `p` in `s`. -/
def find? (p s : List Char) : Option Nat := (cutAt? p s).map fun found => byteLength found.1

/-- The bytes of a text. -/
def utf8 (s : List Char) : List UInt8 := s.flatMap String.utf8EncodeChar

def isAlphaByte (b : UInt8) : Bool := (65 ≤ b && b ≤ 90) || (97 ≤ b && b ≤ 122)

/-- Whether text ends before these bytes. -/
def endsTextBytes : List UInt8 → Bool
  | 123 :: 123 :: _ => true
  | 60 :: b :: _ => isAlphaByte b || b == 47 || b == 33
  | _ => false

/-- The number of bytes up to where text ends. -/
def textBytes : List UInt8 → Nat
  | [] => 0
  | b :: bs => if endsTextBytes (b :: bs) then 0 else textBytes bs + 1

/-- The offset at which a closing tag for `name` begins in `s`, searched for from `start` on. The
inner result is none where there is no closing tag. -/
def findClosingTag? (name s : List Char) : Nat → Nat → Option (Option Nat)
  | 0, _ => none
  | bound + 1, start => do
    let rest ← dropBytes? start s
    match find? ['<', '/'] rest with
    | none => return none
    | some distance =>
      let tag ← dropBytes? (start + distance) s
      if closesHere name tag then return some (start + distance)
      else findClosingTag? name s bound (start + distance + 2)

/-! ## Directive names -/

/-- The directive `name` whose argument and modifiers are written in `raw` from `start` on. -/
def splitArgument? (raw name : List Char) (start : Nat) (modifiers : List (List Char)) :
    Option DirectiveName := do
  let rest ← dropBytes? start raw
  if rest.head? = some '[' then
    let close := findChar? (· == ']') rest
    let stop := (close.map (start + ·)).getD (byteLength raw)
    let content ← (Span.mk (start + 1) stop).slice? raw
    let after ← dropBytes? ((close.map (start + · + 1)).getD (byteLength raw)) raw
    return ⟨name, some ⟨start + 1, content, false⟩,
      modifiers ++ DirectiveName.readModifiers after⟩
  else
    let size := (findChar? (· == '.') rest).getD (byteLength rest)
    let content ← (Span.mk start (start + size)).slice? raw
    let after ← dropBytes? (start + size) raw
    return ⟨name, if 0 < size then some ⟨start, content, true⟩ else none,
      modifiers ++ DirectiveName.readModifiers after⟩

/-- The parts of a directive name; the inner result is none where `raw` is no directive name. -/
def splitName? (raw : List Char) : Option (Option DirectiveName) :=
  match raw with
  | 'v' :: '-' :: after => do
    let size := (findChar? (fun c => c == ':' || c == '.') after).getD (byteLength after)
    let name ← takeBytes? size after
    let rest ← dropBytes? (2 + size) raw
    if !(name.head?.any (·.isAlphanum)) then return none
    else if rest.head? = some ':' then return ← splitArgument? raw name (2 + size + 1) []
    else return some ⟨name, none, DirectiveName.readModifiers rest⟩
  | ':' :: _ => (splitArgument? raw "bind".toList 1 []).map some
  | '@' :: _ => (splitArgument? raw "on".toList 1 []).map some
  | '#' :: _ => (splitArgument? raw "slot".toList 1 []).map some
  | '.' :: _ => (splitArgument? raw "bind".toList 1 ["prop".toList]).map some
  | _ => some none

/-! ## Places -/

/-- What was read, what is wrong with it, and the way up to behind it. -/
structure Scan (α : Type) where
  value : α
  errors : List ParseError
  walk : Walk
  deriving DecidableEq, Repr

/-- A template that is being read by tokens. -/
structure TokenReader where
  walk : Walk
  /-- The nodes read in the innermost open element, the last one first. -/
  nodes : List Node
  /-- The open elements, the innermost one first. -/
  stack : List OpenElement
  /-- The errors found, the last one first. -/
  errors : List ParseError
  deriving DecidableEq, Repr

namespace TokenReader

variable (source : List Char)

/-- The characters up to the first one that fails `p`, with their span, and the place after
them. -/
def takeWhile? (p : Char → Bool) (w : Walk) : Option (List Char × Span × Walk) := do
  let start := w.offset source
  let rest ← dropBytes? start source
  let stop := start + (findChar? (fun c => !p c) rest).getD (byteLength source - start)
  let after ← w.sync? source stop
  let text ← (Span.mk start stop).slice? source
  return (text, .ofOffsets start stop, after)

/-- The offset after the white space that begins at `start`. -/
def spaceStop? (start : Nat) : Option Nat := do
  let rest ← dropBytes? start source
  return ((findChar? (fun c => !isTagSpace c) rest).map (start + ·)).getD (byteLength source)

/-! ## Start tags -/

/-- The value at a place, with the offset after it. -/
def readValue? (w : Walk) : Option (Scan (Value × Nat)) := do
  let start := w.offset source
  let rest ← dropBytes? start source
  let missing := ⟨(⟨.ofOffsets start start, decodeEntities []⟩, start),
    [⟨.invalidAttribute .missingValue, (w.current source).span⟩], w⟩
  match rest.head? with
  | none => return missing
  | some first =>
    if first = '"' ∨ first = '\'' then
      let inner ← dropBytes? (start + 1) source
      match find? [first] inner with
      | some size =>
        let stop := start + 1 + size
        let after ← w.sync? source (stop + 1)
        let raw ← (Span.mk (start + 1) stop).slice? source
        return ⟨(⟨.ofOffsets (start + 1) stop, decodeEntities raw⟩, stop + 1), [], after⟩
      | none =>
        let stop := byteLength source
        let after ← w.sync? source stop
        let raw ← (Span.mk (start + 1) stop).slice? source
        return ⟨(⟨.ofOffsets (start + 1) stop, decodeEntities raw⟩, stop),
          [⟨.invalidAttribute .unterminatedValue, (w.current source).span⟩], after⟩
    else if first = '>' then return missing
    else
      let (raw, span, after) ← takeWhile? source isUnquotedChar w
      return ⟨(⟨span, decodeEntities raw⟩, span.stop), [], after⟩

/-- The attribute or directive whose name has been taken apart. -/
def ofParts (span : Span) (start : Nat) (name : List Char) (value : Option Value) :
    Option DirectiveName → TagProp
  | none => .plain ⟨span, name, value⟩
  | some parts =>
    let argument := parts.argument.map fun a =>
      ⟨.ofOffsets (start + a.offset) (start + a.offset + byteLength a.content), a.content,
        a.isStatic⟩
    .directive ⟨span, name, parts.name, argument, parts.modifiers, value⟩

/-- The attribute or directive at a place. -/
def readProp? (w : Walk) : Option (Scan TagProp) := do
  let start := w.offset source
  let (name, nameSpan, afterName) ← takeWhile? source isPropNameChar w
  let parts ← splitName? name
  let equals ← spaceStop? source nameSpan.stop
  let rest ← dropBytes? equals source
  if rest.head? = some '=' then
    let valueStart ← spaceStop? source (equals + 1)
    let atValue ← afterName.sync? source valueStart
    let value ← readValue? source atValue
    return ⟨ofParts (.ofOffsets start value.value.2) start name (some value.value.1) parts,
      value.errors, value.walk⟩
  else return ⟨ofParts (.ofOffsets start nameSpan.stop) start name none parts, [], afterName⟩

/-- One turn of the loop over attributes and directives. The inner result is none where the loop
ends. -/
def propTurn? (w : Walk) : Option (Option (Scan (List TagProp))) :=
  let atProp := w.skipSpace source
  match (atProp.current source).kind with
  | .tagClose | .selfClose | .endOfFile => some none
  | .tagOpen | .closingTagOpen | .commentOpen => some none
  | .slash => some (some ⟨[], [], atProp.advance source⟩)
  | .equals =>
    let error := ⟨.invalidAttribute .missingName, (atProp.current source).span⟩
    some (some ⟨[], [error], atProp.advance source⟩)
  | _ => (readProp? source atProp).map fun prop => some ⟨[prop.value], prop.errors, prop.walk⟩

variable (checked : Bool)

/-- The attributes and directives from a place on, in at most `bound` turns. -/
def readProps? : Nat → Walk → Option (Scan (List TagProp))
  | 0, _ => none
  | bound + 1, w => do
    match ← propTurn? source w with
    | none => return ⟨[], [], w.skipSpace source⟩
    | some turn =>
      if checked → w.offset source < turn.walk.offset source then
        let more ← readProps? bound turn.walk
        return ⟨turn.value ++ more.value, turn.errors ++ more.errors, more.walk⟩
      else none

/-- The start tag at a place, which is its `<`. -/
def readStartTag? (w : Walk) : Option (Scan StartTag) := do
  let (name, _, atProps) ← takeWhile? source isTagNameChar (w.advance source)
  let props ← readProps? source checked (byteLength source + 1) atProps
  let last := props.walk.current source
  match last.kind with
  | .selfClose => return ⟨⟨name, props.value, true⟩, props.errors, props.walk.advance source⟩
  | .tagClose => return ⟨⟨name, props.value, false⟩, props.errors, props.walk.advance source⟩
  | .endOfFile =>
    return ⟨⟨name, props.value, false⟩, props.errors ++ [⟨.endInsideTag, last.span⟩], props.walk⟩
  | found =>
    return ⟨⟨name, props.value, false⟩, props.errors ++ [⟨.unfinishedStartTag found, last.span⟩],
      props.walk⟩

/-! ## Closing tags and raw text -/

/-- The name in the closing tag at `start`. -/
def closingNameAt? (start : Nat) : Option (List Char) := do
  let rest ← dropBytes? (min (start + 2) (byteLength source)) source
  takeBytes? ((findChar? endsClosingName rest).getD (byteLength rest)) rest

/-- The offset after the closing tag at `start`. -/
def closingTagStop? (start : Nat) : Option Nat := do
  let rest ← dropBytes? start source
  return ((find? ['>'] rest).map (start + · + 1)).getD (byteLength source)

/-- The closing tag at a place: what is wrong with it, and the place after it. -/
def readClosingTag? (w : Walk) : Option (Scan Unit) := do
  let rest ← dropBytes? (w.offset source) source
  let stop ← closingTagStop? source (w.offset source)
  let after ← w.sync? source stop
  let errors := if occurs ['>'] rest then [] else [⟨.endInsideTag, (w.current source).span⟩]
  return ⟨(), errors, after⟩

/-- The content of the raw text element `name`, with its closing tag. -/
def readRawText? (name : List Char) (startTag : Span) (w : Walk) :
    Option (Scan (List Node)) := do
  let start := w.offset source
  let rest ← dropBytes? start source
  let found ← findClosingTag? name rest (byteLength rest + 1) 0
  let stop := (found.map (start + ·)).getD (byteLength source)
  let last ← w.sync? source stop
  let content ← (Span.mk start stop).slice? source
  let nodes :=
    if start < stop then [.text (.ofOffsets start stop) content (isTagBlank content)] else []
  match found with
  | some _ =>
    let closing ← readClosingTag? source last
    return ⟨nodes, closing.errors, closing.walk⟩
  | none => return ⟨nodes, [⟨.unclosedTag name, startTag⟩], last⟩

/-! ## The reader -/

/-- Whether the `<` at a place begins a start tag: whether the next byte is a letter. -/
def opensElement (w : Walk) : Bool :=
  ((utf8 source).drop (w.offset source + 1)).head?.any isAlphaByte

/-- The offset after the text at `start`, searched for byte by byte from the second byte on. -/
def textStop (start : Nat) : Nat := start + 1 + textBytes ((utf8 source).drop (start + 1))

/-- Adds errors in the order in which they were found. -/
def report (t : TokenReader) (errors : List ParseError) : TokenReader :=
  { t with errors := errors.reverse ++ t.errors }

/-- Adds a node and moves on. -/
def push (t : TokenReader) (node : Node) (after : Walk) : TokenReader :=
  { t with nodes := node :: t.nodes, walk := after }

/-- Adds text and moves on. Text that directly follows text belongs to it. -/
def pushText (t : TokenReader) (span : Span) (data : List Char) (after : Walk) : TokenReader :=
  match t.nodes with
  | .text before old blank :: older =>
    if before.stop = span.start then
      let joined := .text (before.cover span) (old ++ data) (blank && isTagBlank data)
      { t with nodes := joined :: older, walk := after }
    else t.push (.text span data (isTagBlank data)) after
  | _ => t.push (.text span data (isTagBlank data)) after

def readText? (t : TokenReader) : Option TokenReader := do
  let start := t.walk.offset source
  let stop := textStop source start
  let after ← t.walk.sync? source stop
  let data ← (Span.mk start stop).slice? source
  return t.pushText (.ofOffsets start stop) data after

def readComment? (t : TokenReader) : Option TokenReader := do
  let start := t.walk.offset source
  let body ← dropBytes? (start + 4) source
  let (dataStop, stop, errors) := match find? ['-', '-', '>'] body with
    | some size => (start + 4 + size, start + 4 + size + 3, [])
    | none => (byteLength source, byteLength source,
        [⟨.unterminatedComment, (t.walk.current source).span⟩])
  let after ← t.walk.sync? source stop
  let data ← (Span.mk (start + 4) dataStop).slice? source
  return (t.report errors).push (.comment (.ofOffsets start stop) data) after

def readInterpolation? (t : TokenReader) : Option TokenReader := do
  let start := t.walk.offset source
  let inner ← dropBytes? (start + 2) source
  match find? ['\x7d', '\x7d'] inner with
  | none =>
    let after ← t.walk.sync? source (start + 2)
    return (t.report [⟨.unterminatedInterpolation, (t.walk.current source).span⟩]).pushText
      (.ofOffsets start (start + 2)) ['\x7b', '\x7b'] after
  | some size =>
    let innerStop := start + 2 + size
    let raw ← (Span.mk (start + 2) innerStop).slice? source
    let exprStart := start + 2 + (byteLength raw - byteLength (raw.dropWhile isBlank))
    let after ← t.walk.sync? source (innerStop + 2)
    return t.push (.interpolation (.ofOffsets start (innerStop + 2))
      (.ofOffsets exprStart (exprStart + byteLength (trim raw))) (trim raw)) after

def readElement? (t : TokenReader) : Option TokenReader := do
  let start := t.walk.offset source
  let tag ← readStartTag? source checked t.walk
  let name := tag.value.name
  let tagStop := tag.walk.offset source
  let element := fun (stop : Nat) =>
    Node.element ⟨.ofOffsets start stop, name, tag.value.props, tag.value.selfClosing⟩
  if tag.value.selfClosing || isVoidElement name then
    return (t.report tag.errors).push (element tagStop []) tag.walk
  else if isRawTextElement name then
    let raw ← readRawText? source name (.ofOffsets start tagStop) tag.walk
    return ((t.report tag.errors).report raw.errors).push
      (element (raw.walk.offset source) raw.value) raw.walk
  else
    return { t.report tag.errors with
      walk := tag.walk
      nodes := []
      stack := ⟨start, tagStop, name, tag.value.props, t.nodes⟩ :: t.stack }

def skipClosingTag? (t : TokenReader) : Option TokenReader := do
  let start := t.walk.offset source
  let found ← closingNameAt? source start
  let stop ← closingTagStop? source start
  let kind := match t.stack with
    | [] => .strayClosingTag found
    | e :: _ => .mismatchedClosingTag e.name found
  let after ← t.walk.sync? source stop
  return { t.report [⟨kind, .ofOffsets start stop⟩] with walk := after }

def closeElement? (mode : WhitespaceMode) (e : OpenElement) (outer : List OpenElement)
    (t : TokenReader) : Option TokenReader := do
  let tag ← readClosingTag? source t.walk
  let children := e.finishChildren mode outer t.nodes.reverse
  return { t.report tag.errors with
    walk := tag.walk
    nodes := e.close (tag.walk.offset source) children :: e.before
    stack := outer }

def abandonElement (mode : WhitespaceMode) (e : OpenElement) (outer : List OpenElement)
    (t : TokenReader) : TokenReader :=
  let children := e.finishChildren mode outer t.nodes.reverse
  { t.report [⟨.unclosedTag e.name, e.startTagSpan⟩] with
    nodes := e.close (t.walk.offset source) children :: e.before
    stack := outer }

def readClosing? (mode : WhitespaceMode) (t : TokenReader) : Option TokenReader := do
  let found ← closingNameAt? source (t.walk.offset source)
  match t.stack with
  | [] => t.skipClosingTag? source
  | e :: outer =>
    if sameName e.name found then t.closeElement? source mode e outer
    else if outer.any (sameName ·.name found) then return t.abandonElement source mode e outer
    else t.skipClosingTag? source

/-- Reads the next thing. -/
def step? (mode : WhitespaceMode) (t : TokenReader) : Option TokenReader :=
  match (t.walk.current source).kind with
  | .endOfFile =>
    match t.stack with
    | [] => some t
    | e :: outer => some (t.abandonElement source mode e outer)
  | .closingTagOpen => t.readClosing? source mode
  | .commentOpen => t.readComment? source
  | .mustacheOpen => t.readInterpolation? source
  | .tagOpen =>
    if opensElement source t.walk then t.readElement? source checked else t.readText? source
  | _ => t.readText? source

/-- A step moves on, or closes an element where it stands. -/
def Advances (t next : TokenReader) : Prop :=
  t.walk.offset source < next.walk.offset source ∨
    t.walk.offset source = next.walk.offset source ∧ next.stack.length < t.stack.length

instance (t next : TokenReader) : Decidable (Advances source t next) :=
  inferInstanceAs (Decidable (_ ∨ _))

/-- Reads on to the end, in at most `bound` turns. -/
def run? (mode : WhitespaceMode) : Nat → TokenReader → Option TokenReader
  | 0, _ => none
  | bound + 1, t => do
    if (t.walk.current source).kind = .endOfFile ∧ t.stack = [] then return t
    else
      let next ← t.step? source checked mode
      if checked → Advances source t next then run? mode bound next else none

/-- The reader at the end of `source`. -/
def readToEnd? (mode : WhitespaceMode) : Option TokenReader :=
  run? source checked mode (2 * byteLength source + 1) ⟨.ofSource source, [], [], []⟩

/-- The template that has been read. -/
def template (mode : WhitespaceMode) (t : TokenReader) : Template :=
  ⟨.ofOffsets 0 (byteLength source), finishSiblings mode [] t.nodes.reverse, t.errors.reverse⟩

/-- Reads the template that `source` holds, and checks that every turn moves on. -/
def read? (mode : WhitespaceMode) : Option Template :=
  (readToEnd? source true mode).map (template source mode)

/-- Reads the template that `source` holds, of whatever size it is. -/
def readAnySize? (mode : WhitespaceMode) : Option Template :=
  (readToEnd? source false mode).map (template source mode)

/-- All moves of reading `source`. -/
def moves? (mode : WhitespaceMode) : Option (List TokenStream.Move) :=
  (readToEnd? source true mode).map (·.walk.moves)

end TokenReader

end AstroTemplate
