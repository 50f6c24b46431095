import AstroTemplate.Markup.Cursor
import AstroTemplate.Markup.Entity
import AstroTemplate.Markup.Node
import AstroTemplate.Markup.ParseError

set_option autoImplicit false

/-! # Start tags

A start tag is `<`, a name, attributes and directives, and `>` or `/>`. Attributes are separated
by white space or slashes. A value is quoted, or runs to the next white space or `>`. Whatever is
missing is reported, and reading goes on after it: the tag is taken to end where the next tag, the
next comment or the end of the source begins.
-/

namespace AstroTemplate

/-- A character of an attribute name. -/
def isPropNameChar (c : Char) : Bool :=
  !isTagSpace c && c != '/' && c != '>' && c != '='

/-- A character of a tag name. -/
def isTagNameChar (c : Char) : Bool := !isTagSpace c && c != '/' && c != '>'

/-- A character of a value without quotes. -/
def isUnquotedChar (c : Char) : Bool := !isTagSpace c && c != '>'

/-- A value that reads `raw` in the source, from `offset` on. -/
def Value.ofRaw (offset : Nat) (raw : List Char) : Value :=
  ⟨.ofOffsets offset (offset + byteLength raw), decodeEntities raw⟩

/-- What was read, what is wrong with it, and the cursor after it. -/
structure Reading (α : Type) where
  value : α
  errors : List ParseError
  next : Cursor
  deriving DecidableEq, Repr

/-- The value at the cursor. -/
def readValue (c : Cursor) : Reading Value :=
  match c.rest with
  | [] => ⟨.ofRaw c.offset [], [⟨.invalidAttribute .missingValue, c.tokenSpan⟩], c⟩
  | first :: _ =>
    if first = '"' ∨ first = '\'' then
      match (c.drop 1).cutAt? [first] with
      | some (raw, next) => ⟨.ofRaw (c.drop 1).offset raw, [], next⟩
      | none =>
        ⟨.ofRaw (c.drop 1).offset (c.drop 1).rest,
          [⟨.invalidAttribute .unterminatedValue, c.tokenSpan⟩], c.toEnd⟩
    else if first = '>' then
      ⟨.ofRaw c.offset [], [⟨.invalidAttribute .missingValue, c.tokenSpan⟩], c⟩
    else
      let raw := c.takeWhile isUnquotedChar
      ⟨.ofRaw c.offset raw.1, [], raw.2⟩

/-- The attribute or directive of a given name and value that lies over `span`. -/
def TagProp.ofName (span : Span) (offset : Nat) (name : List Char) (value : Option Value) :
    TagProp :=
  match DirectiveName.read? name with
  | none => .plain ⟨span, name, value⟩
  | some parts =>
    let argument := parts.argument.map fun a =>
      let start := offset + a.offset
      ⟨.ofOffsets start (start + byteLength a.content), a.content, a.isStatic⟩
    .directive ⟨span, name, parts.name, argument, parts.modifiers, value⟩

/-- The attribute or directive at the cursor. -/
def readProp (c : Cursor) : Reading TagProp :=
  let name := c.takeWhile isPropNameChar
  let afterSpace := name.2.skipSpace
  if afterSpace.rest.head? = some '=' then
    let value := readValue (afterSpace.drop 1).skipSpace
    ⟨.ofName (c.spanTo value.next) c.offset name.1 (some value.value), value.errors, value.next⟩
  else ⟨.ofName (c.spanTo name.2) c.offset name.1 none, [], name.2⟩

theorem readValue_rest_le (c : Cursor) : (readValue c).next.rest.length ≤ c.rest.length := by
  unfold readValue
  split
  · simp
  · split
    · split
      · rename_i h
        have := Cursor.cutAt?_rest_lt (by simp) h
        have := c.drop_rest_le 1
        simp only
        omega
      · simp [Cursor.toEnd]
    · split
      · simp
      · exact c.takeWhile_rest_le _

theorem readProp_rest_lt {c : Cursor} {first : Char} {rest : List Char}
    (hc : c.rest = first :: rest) (hf : isPropNameChar first = true) :
    (readProp c).next.rest.length < c.rest.length := by
  have hname : (c.takeWhile isPropNameChar).2.rest.length < c.rest.length := by
    simp only [Cursor.takeWhile, hc, List.dropWhile_cons, hf, if_true, List.length_cons]
    exact Nat.lt_succ_of_le (List.dropWhile_suffix _).length_le
  unfold readProp
  simp only
  split
  · have h1 := readValue_rest_le
      (((c.takeWhile isPropNameChar).2.skipSpace.drop 1).skipSpace)
    have h2 := Cursor.skipSpace_rest_le ((c.takeWhile isPropNameChar).2.skipSpace.drop 1)
    have h3 := Cursor.drop_rest_le (c.takeWhile isPropNameChar).2.skipSpace 1
    have h4 := Cursor.skipSpace_rest_le (c.takeWhile isPropNameChar).2
    simp only
    omega
  · exact hname

/-- The attributes and directives from the cursor on, which ends at the end of the start tag or
at whatever cuts it short. -/
def readProps (c : Cursor) : Reading (List TagProp) :=
  match h : c.skipSpace.rest with
  | [] => ⟨[], [], c.skipSpace⟩
  | first :: rest =>
    have : rest.length < c.rest.length := by
      have := c.skipSpace_rest_le
      simp only [h, List.length_cons] at this
      omega
    if first = '=' then
      let more := readProps (c.skipSpace.drop 1)
      { more with
        errors := ⟨.invalidAttribute .missingName, c.skipSpace.tokenSpan⟩ :: more.errors }
    else if first = '/' ∧ rest.head? ≠ some '>' then
      readProps (c.skipSpace.drop 1)
    else if hp : first ≠ '<' ∧ isPropNameChar first = true then
      let prop := readProp c.skipSpace
      have : prop.next.rest.length < c.rest.length :=
        Nat.lt_of_lt_of_le (readProp_rest_lt h hp.2) c.skipSpace_rest_le
      let more := readProps prop.next
      ⟨prop.value :: more.value, prop.errors ++ more.errors, more.next⟩
    else ⟨[], [], c.skipSpace⟩
termination_by c.rest.length
decreasing_by
  · simpa [Cursor.drop, h] using this
  · simpa [Cursor.drop, h] using this
  · assumption

/-- The parts of a start tag. -/
structure StartTag where
  name : List Char
  props : List TagProp
  selfClosing : Bool
  deriving DecidableEq, Repr

/-- The start tag at the cursor, which stands on its `<`. -/
def readStartTag (c : Cursor) : Reading StartTag :=
  let name := (c.drop 1).takeWhile isTagNameChar
  let props := readProps name.2
  let last := props.next
  match last.kind with
  | .selfClose => ⟨⟨name.1, props.value, true⟩, props.errors, last.drop 2⟩
  | .tagClose => ⟨⟨name.1, props.value, false⟩, props.errors, last.drop 1⟩
  | .endOfFile =>
    ⟨⟨name.1, props.value, false⟩, props.errors ++ [⟨.endInsideTag, last.tokenSpan⟩], last⟩
  | found =>
    ⟨⟨name.1, props.value, false⟩,
      props.errors ++ [⟨.unfinishedStartTag found, last.tokenSpan⟩], last⟩

theorem readProps_rest_le (c : Cursor) : (readProps c).next.rest.length ≤ c.rest.length := by
  fun_induction readProps c with
  | case1 c h => exact c.skipSpace_rest_le
  | case2 c rest more _ _ ih =>
    have := Cursor.drop_rest_le c.skipSpace 1
    have := c.skipSpace_rest_le
    simp only [more] at ih ⊢
    omega
  | case3 c rest _ _ _ _ ih =>
    have := Cursor.drop_rest_le c.skipSpace 1
    have := c.skipSpace_rest_le
    omega
  | case4 c _ _ _ _ _ _ _ prop hlt more ih =>
    simp only [more] at ih ⊢
    omega
  | case5 c => exact c.skipSpace_rest_le

theorem readStartTag_rest_lt {c : Cursor} (hc : c.rest ≠ []) :
    (readStartTag c).next.rest.length < c.rest.length := by
  have h1 : (c.drop 1).rest.length < c.rest.length := by
    have := List.length_pos_iff.2 hc
    simp [Cursor.drop]
    omega
  have h2 := (c.drop 1).takeWhile_rest_le isTagNameChar
  have h3 := readProps_rest_le ((c.drop 1).takeWhile isTagNameChar).2
  have h4 := (readProps ((c.drop 1).takeWhile isTagNameChar).2).next.drop_rest_le
  unfold readStartTag
  simp only
  split
  · have := h4 2
    simp only
    omega
  · have := h4 1
    simp only
    omega
  · simp only
    omega
  · simp only
    omega

end AstroTemplate
