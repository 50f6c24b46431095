import AstroTemplate.Proofs.Walks
import Mathlib.Data.Char
import Mathlib.Data.List.Chain

set_option autoImplicit false

/-! # Tokens are longest matches

What the tokens of markup are can be said by rules. A rule has a kind, a priority and the texts it
fits; `tokenRules` lists all of them. A token is then the longest text at its place that any rule
fits, and of the rules that fit this text the one of highest priority gives the kind
(`IsLongestMatch`).

`firstToken?` does not try rules. It looks at characters, and falls back where a longer token turns
out not to stand there. What it takes is the longest match nevertheless
(`isLongestMatch_of_firstToken?`). As every text but the empty one has a first token, there is no
place of a source at which no rule fits, and the tokens from an offset on tile the source
(`tokensAt_tiles_longest`).
-/

namespace AstroTemplate

/-! ## Rules -/

/-- A set of characters, written as ranges; a negated one has the characters outside of them. -/
structure CharClass where
  ranges : List (Char × Char)
  negated : Bool
  deriving DecidableEq, Repr

namespace CharClass

def has (k : CharClass) (c : Char) : Bool :=
  (k.ranges.any fun range => range.1 ≤ c && c ≤ range.2) != k.negated

def oneOf (chars : List Char) : CharClass := ⟨chars.map fun x => (x, x), false⟩

def noneOf (chars : List Char) : CharClass := ⟨chars.map fun x => (x, x), true⟩

def identifierStart : CharClass := ⟨[('a', 'z'), ('A', 'Z'), ('_', '_')], false⟩

def identifierChar : CharClass :=
  ⟨[('a', 'z'), ('A', 'Z'), ('0', '9'), ('_', '_'), ('-', '-')], false⟩

def space : CharClass := oneOf [' ', '\t', '\r', '\n', '\x0c']

def plain : CharClass :=
  noneOf ['<', '>', '=', '/', '"', '\'', '\x7b', '\x7d', ' ', '\t', '\r', '\n', '\x0c']

def brace : CharClass := oneOf ['\x7b', '\x7d']

end CharClass

/-- A rule for tokens of one kind. -/
structure TokenRule where
  kind : TokenKind
  priority : Nat
  /-- The classes of the first characters, one for each of them. -/
  front : List CharClass
  /-- The class of the characters after these, of which there may be any number. -/
  more : CharClass
  deriving DecidableEq, Repr

/-- Whether a text is one character of each class in `front`, and then characters of `more`. -/
def fitsShape : List CharClass → CharClass → List Char → Bool
  | [], more, s => s.all more.has
  | _ :: _, _, [] => false
  | k :: front, more, c :: s => k.has c && fitsShape front more s

namespace TokenRule

def fits (rule : TokenRule) (s : List Char) : Bool := fitsShape rule.front rule.more s

/-- The rule that fits one text only. -/
def fixed (kind : TokenKind) (priority : Nat) (spelling : List Char) : TokenRule :=
  ⟨kind, priority, spelling.map fun x => .oneOf [x], .oneOf []⟩

def identifier : TokenRule := ⟨.identifier, 4, [.identifierStart], .identifierChar⟩

def whitespace : TokenRule := ⟨.whitespace, 5, [.space], .space⟩

def text : TokenRule := ⟨.text, 1, [.plain], .plain⟩

/-- A brace on its own is text as well. -/
def loneBrace : TokenRule := ⟨.text, 1, [.brace], .oneOf []⟩

end TokenRule

/-- The rules for tokens that are always spelled the same. -/
def fixedRules : List TokenRule :=
  [.fixed .commentOpen 12 ['<', '!', '-', '-'],
    .fixed .closingTagOpen 10 ['<', '/'],
    .fixed .tagOpen 10 ['<'],
    .fixed .selfClose 10 ['/', '>'],
    .fixed .tagClose 10 ['>'],
    .fixed .slash 10 ['/'],
    .fixed .equals 10 ['='],
    .fixed .doubleQuote 10 ['"'],
    .fixed .singleQuote 10 ['\''],
    .fixed .mustacheOpen 11 ['\x7b', '\x7b'],
    .fixed .mustacheClose 11 ['\x7d', '\x7d']]

/-- The rules for the tokens of markup. -/
def tokenRules : List TokenRule :=
  fixedRules ++ [.identifier, .whitespace, .text, .loneBrace]

/-- The text `t` is the longest one at the beginning of `s` that any rule fits, and `rule` is the
one of highest priority that fits it. -/
structure IsLongestMatch (rule : TokenRule) (t s : List Char) : Prop where
  listed : rule ∈ tokenRules
  begins : t <+: s
  fits : rule.fits t = true
  longest : ∀ other ∈ tokenRules, ∀ u, u <+: s → other.fits u = true → u.length ≤ t.length
  decides : ∀ other ∈ tokenRules, other.fits t = true →
    other = rule ∨ other.priority < rule.priority

/-! ## The texts that a rule fits -/

theorem CharClass.any_points (chars : List Char) (c : Char) :
    ((chars.map fun x => (x, x)).any fun range => range.1 ≤ c && c ≤ range.2)
      = chars.contains c := by
  rw [List.any_map, List.contains_eq_any_beq]
  congr 1
  funext x
  rw [Bool.eq_iff_iff]
  simp only [Function.comp_apply, Bool.and_eq_true, decide_eq_true_eq, beq_iff_eq]
  exact le_antisymm_iff.symm.trans eq_comm

theorem CharClass.has_oneOf (chars : List Char) (c : Char) :
    (oneOf chars).has c = chars.contains c := by
  rw [has, oneOf, any_points, Bool.bne_false]

theorem CharClass.has_noneOf (chars : List Char) (c : Char) :
    (noneOf chars).has c = !chars.contains c := by
  rw [has, noneOf, any_points, Bool.bne_true]

theorem CharClass.has_space (c : Char) : space.has c = isTagSpace c := by
  rw [space, has_oneOf, isTagSpace]
  simp only [List.contains_cons, List.contains_nil, Bool.or_false]
  grind

theorem CharClass.has_plain (c : Char) : plain.has c = isTextChar c := by
  rw [plain, has_noneOf, isTextChar, isTagSpace]
  simp only [List.contains_cons, List.contains_nil, Bool.or_false]
  grind

theorem CharClass.has_identifierStart (c : Char) :
    identifierStart.has c = isIdentifierStart c := by
  have hlower : c.isLower = (decide ('a' ≤ c) && decide (c ≤ 'z')) := rfl
  have hupper : c.isUpper = decide ('A' ≤ c ∧ c ≤ 'Z') := rfl
  have halpha : c.isAlpha = (c.isUpper || c.isLower) := rfl
  have hpoint : '_' ≤ c ∧ c ≤ '_' ↔ c = '_' := le_antisymm_iff.symm.trans eq_comm
  rw [isIdentifierStart, halpha, hlower, hupper, has, identifierStart, Bool.bne_false,
    Bool.eq_iff_iff]
  simp only [List.any_cons, List.any_nil, Bool.or_false, Bool.or_eq_true, Bool.and_eq_true,
    decide_eq_true_eq, beq_iff_eq, hpoint]
  rw [or_left_comm, or_assoc]

theorem CharClass.has_identifierChar (c : Char) : identifierChar.has c = isIdentifierChar c := by
  have hlower : c.isLower = (decide ('a' ≤ c) && decide (c ≤ 'z')) := rfl
  have hupper : c.isUpper = decide ('A' ≤ c ∧ c ≤ 'Z') := rfl
  have hdigit : c.isDigit = (decide ('0' ≤ c) && decide (c ≤ '9')) := rfl
  have halpha : c.isAlphanum = ((c.isUpper || c.isLower) || c.isDigit) := rfl
  have hpoint : ∀ x : Char, x ≤ c ∧ c ≤ x ↔ c = x := fun x => le_antisymm_iff.symm.trans eq_comm
  rw [isIdentifierChar, halpha, hlower, hupper, hdigit, has, identifierChar, Bool.bne_false,
    Bool.eq_iff_iff]
  simp only [List.any_cons, List.any_nil, Bool.or_false, Bool.or_eq_true, Bool.and_eq_true,
    decide_eq_true_eq, beq_iff_eq, hpoint]
  rw [or_left_comm, or_assoc, or_assoc, or_assoc]

namespace TokenRule

variable {u : List Char}

theorem fits_fixed_iff {kind : TokenKind} {priority : Nat} {spelling : List Char} :
    (fixed kind priority spelling).fits u = true ↔ u = spelling := by
  show fitsShape (spelling.map fun x => .oneOf [x]) (.oneOf []) u = true ↔ _
  induction spelling generalizing u with
  | nil => cases u <;> simp [fitsShape, CharClass.has_oneOf]
  | cons x spelling ih => cases u <;> simp [fitsShape, CharClass.has_oneOf, ih]

theorem fits_identifier (u : List Char) : identifier.fits u = isIdentifier u := by
  cases u with
  | nil => rfl
  | cons c u =>
      show (CharClass.identifierStart.has c && u.all CharClass.identifierChar.has) = _
      rw [CharClass.has_identifierStart, funext CharClass.has_identifierChar]
      rfl

theorem fits_whitespace_iff : whitespace.fits u = true ↔ u ≠ [] ∧ u.all isTagSpace = true := by
  cases u with
  | nil => simp [fits, fitsShape, whitespace]
  | cons c u =>
      show (CharClass.space.has c && u.all CharClass.space.has) = true ↔ _
      rw [funext CharClass.has_space]
      simp

theorem fits_text_iff : text.fits u = true ↔ u ≠ [] ∧ u.all isTextChar = true := by
  cases u with
  | nil => simp [fits, fitsShape, text]
  | cons c u =>
      show (CharClass.plain.has c && u.all CharClass.plain.has) = true ↔ _
      rw [funext CharClass.has_plain]
      simp

theorem fits_loneBrace_iff : loneBrace.fits u = true ↔ u = ['\x7b'] ∨ u = ['\x7d'] := by
  cases u with
  | nil => simp [fits, fitsShape, loneBrace]
  | cons c u =>
      show (CharClass.brace.has c && u.all (CharClass.oneOf []).has) = true ↔ _
      cases u <;> simp [CharClass.brace, CharClass.has_oneOf]

/-- What a rule can fit: the spelling of its kind, or a run of characters. -/
theorem fits_cases {rule : TokenRule} (hrule : rule ∈ tokenRules) (h : rule.fits u = true) :
    rule ∈ fixedRules ∧ rule.kind.spelling? = some u ∨ rule = identifier ∧ isIdentifier u = true ∨
      rule = whitespace ∧ u ≠ [] ∧ u.all isTagSpace = true ∨
      rule = text ∧ u ≠ [] ∧ u.all isTextChar = true ∨
      rule = loneBrace ∧ (u = ['\x7b'] ∨ u = ['\x7d']) := by
  rcases List.mem_append.1 hrule with hfixed | hrun
  · refine .inl ⟨hfixed, ?_⟩
    simp only [fixedRules, List.mem_cons, List.not_mem_nil, or_false] at hfixed
    rcases hfixed with rfl | rfl | rfl | rfl | rfl | rfl | rfl | rfl | rfl | rfl | rfl
    all_goals exact congrArg some (fits_fixed_iff.1 h).symm
  · simp only [List.mem_cons, List.not_mem_nil, or_false] at hrun
    rcases hrun with rfl | rfl | rfl | rfl
    · exact .inr (.inl ⟨rfl, fits_identifier u ▸ h⟩)
    · exact .inr (.inr (.inl ⟨rfl, fits_whitespace_iff.1 h⟩))
    · exact .inr (.inr (.inr (.inl ⟨rfl, fits_text_iff.1 h⟩)))
    · exact .inr (.inr (.inr (.inr ⟨rfl, fits_loneBrace_iff.1 h⟩)))

/-- A spelling is that of one rule. -/
theorem eq_of_spelling {rule other : TokenRule} (hrule : rule ∈ fixedRules)
    (hother : other ∈ fixedRules) (h : rule.kind.spelling? = other.kind.spelling?) :
    other = rule := by
  have hall : ∀ r ∈ fixedRules, ∀ o ∈ fixedRules, r.kind.spelling? = o.kind.spelling? → o = r := by
    decide +kernel
  exact hall rule hrule other hother h

end TokenRule

namespace TokenKind

variable {k : TokenKind} {c : Char} {u : List Char}

/-- A character that begins a spelling is neither white space nor plain text. -/
theorem head_of_spelling? (h : k.spelling? = some u) :
    ∃ c v, u = c :: v ∧ isTagSpace c = false ∧ isTextChar c = false := by
  cases k <;> cases h <;> exact ⟨_, _, rfl, rfl, rfl⟩

/-- What a spelling has after its first character. -/
theorem tail_of_spelling? (h : k.spelling? = some (c :: u)) :
    u = [] ∧ c ≠ '\x7b' ∧ c ≠ '\x7d' ∨
      c = '<' ∧ (u = ['!', '-', '-'] ∨ u = ['/']) ∨ c = '/' ∧ u = ['>'] ∨
      c = '\x7b' ∧ u = ['\x7b'] ∨ c = '\x7d' ∧ u = ['\x7d'] := by
  cases k <;> cases h <;> simp

end TokenKind

theorem isTextChar_of_isIdentifierChar {c : Char} (h : isIdentifierChar c = true) :
    isTextChar c = true := by
  rw [← CharClass.has_plain, CharClass.plain, CharClass.has_noneOf, Bool.not_eq_true',
    List.contains_eq_mem, decide_eq_false_iff_not]
  intro hspecial
  simp only [List.mem_cons, List.not_mem_nil, or_false] at hspecial
  rcases hspecial with
    rfl | rfl | rfl | rfl | rfl | rfl | rfl | rfl | rfl | rfl | rfl | rfl | rfl
  all_goals cases h

theorem all_isTextChar_of_isIdentifier {u : List Char} (h : isIdentifier u = true) :
    u.all isTextChar = true := by
  cases u with
  | nil => rfl
  | cons c u =>
      obtain ⟨hstart, hmore⟩ := Bool.and_eq_true_iff.1 h
      have hfirst : isIdentifierChar c = true := by
        rw [isIdentifierStart, Bool.or_eq_true] at hstart
        rw [isIdentifierChar, Bool.or_eq_true, Bool.or_eq_true]
        refine .inl (hstart.imp_left fun halpha => ?_)
        show (c.isAlpha || c.isDigit) = true
        rw [halpha, Bool.true_or]
      refine List.all_eq_true.2 (List.forall_mem_cons.2 ⟨isTextChar_of_isIdentifierChar hfirst, ?_⟩)
      intro x hx
      exact isTextChar_of_isIdentifierChar (List.all_eq_true.1 hmore x hx)

/-! ## The first token -/

/-- At a character of a fixed spelling only such spellings and the lone brace fit. -/
theorem length_le_of_fits {c : Char} {s t : List Char} (hspace : isTagSpace c = false)
    (htext : isTextChar c = false)
    (hspelling : ∀ (k : TokenKind) (u : List Char), k.spelling? = some (c :: u) → u <+: s →
      u.length ≤ t.length) {other : TokenRule} (hother : other ∈ tokenRules) {u : List Char}
    (hu : u <+: c :: s) (hfits : other.fits u = true) : u.length ≤ (c :: t).length := by
  rcases List.prefix_cons_iff.1 hu with rfl | ⟨v, rfl, hv⟩
  · exact Nat.zero_le _
  · rw [List.length_cons, List.length_cons, Nat.succ_le_succ_iff]
    rcases TokenRule.fits_cases hother hfits with
      ⟨-, hkind⟩ | ⟨-, hident⟩ | ⟨-, -, hblank⟩ | ⟨-, -, hplain⟩ | ⟨-, hbrace⟩
    · exact hspelling other.kind v hkind hv
    · have := all_isTextChar_of_isIdentifier hident
      simp [htext] at this
    · simp [hspace] at hblank
    · simp [htext] at hplain
    · rcases hbrace with h | h
      · rw [(List.cons.inj h).2]
        exact Nat.zero_le _
      · rw [(List.cons.inj h).2]
        exact Nat.zero_le _

/-- No other rule fits a fixed spelling. -/
theorem eq_of_fits_spelling {rule other : TokenRule} {t : List Char} (hrule : rule ∈ fixedRules)
    (hspelling : rule.kind.spelling? = some t) (hother : other ∈ tokenRules)
    (hfits : other.fits t = true) : other = rule := by
  obtain ⟨c, u, rfl, hspace, htext⟩ := TokenKind.head_of_spelling? hspelling
  rcases TokenRule.fits_cases hother hfits with
    ⟨hfixed, hkind⟩ | ⟨-, hident⟩ | ⟨-, -, hblank⟩ | ⟨-, -, hplain⟩ | ⟨-, hbrace⟩
  · exact TokenRule.eq_of_spelling hrule hfixed (hspelling.trans hkind.symm)
  · have := all_isTextChar_of_isIdentifier hident
    simp [htext] at this
  · simp [hspace] at hblank
  · simp [htext] at hplain
  · have := TokenKind.tail_of_spelling? hspelling
    rcases hbrace with h | h <;> cases h <;> simp at this

/-- A fixed spelling is the longest match where no longer one stands. -/
theorem exists_isLongestMatch_of_spelling {k : TokenKind} {c : Char} {t s : List Char}
    (hk : k.spelling? = some (c :: t)) (ht : t <+: s)
    (hlonger : ∀ (other : TokenKind) (u : List Char), other.spelling? = some (c :: u) → u <+: s →
      u.length ≤ t.length) :
    ∃ rule, rule.kind = k ∧ IsLongestMatch rule (c :: t) (c :: s) := by
  have hrule : ∃ priority, TokenRule.fixed k priority (c :: t) ∈ fixedRules := by
    cases k <;> cases hk <;> simp [fixedRules, TokenRule.fixed]
  obtain ⟨priority, hrule⟩ := hrule
  obtain ⟨_, _, heq, hspace, htext⟩ := TokenKind.head_of_spelling? hk
  obtain ⟨rfl, rfl⟩ := List.cons.inj heq
  refine ⟨.fixed k priority (c :: t), rfl, ?_⟩
  exact {
    listed := List.mem_append_left _ hrule
    begins := List.cons_prefix_cons.2 ⟨rfl, ht⟩
    fits := TokenRule.fits_fixed_iff.2 rfl
    longest := fun _ hother _ hu hfits => length_le_of_fits hspace htext hlonger hother hu hfits
    decides := fun _ hother hfits => .inl (eq_of_fits_spelling hrule hk hother hfits) }

/-- A brace without another one is text. -/
theorem isLongestMatch_loneBrace {c : Char} {s : List Char} (hc : c = '\x7b' ∨ c = '\x7d')
    (hs : ∀ rest, s ≠ c :: rest) : IsLongestMatch .loneBrace [c] (c :: s) where
  listed := by simp [tokenRules]
  begins := ⟨s, rfl⟩
  fits := TokenRule.fits_loneBrace_iff.2 (by simpa using hc)
  longest := by
    intro other hother u hu hfits
    have hspace : isTagSpace c = false := by rcases hc with rfl | rfl <;> rfl
    have htext : isTextChar c = false := by rcases hc with rfl | rfl <;> rfl
    refine length_le_of_fits hspace htext (fun k v hk hv => ?_) hother hu hfits
    obtain ⟨after, hafter⟩ := hv
    have htail := TokenKind.tail_of_spelling? hk
    grind
  decides := by
    intro other hother hfits
    rcases TokenRule.fits_cases hother hfits with
      ⟨-, hkind⟩ | ⟨-, hident⟩ | ⟨-, -, hblank⟩ | ⟨-, -, hplain⟩ | ⟨hbrace, -⟩
    · have htail := TokenKind.tail_of_spelling? hkind
      grind
    · rcases hc with rfl | rfl <;> cases hident
    · rcases hc with rfl | rfl <;> cases hblank
    · rcases hc with rfl | rfl <;> cases hplain
    · exact .inl hbrace

theorem length_le_takeWhile {p : Char → Bool} {s u : List Char} (hu : u <+: s)
    (hall : u.all p = true) : u.length ≤ (s.takeWhile p).length := by
  obtain ⟨after, rfl⟩ := hu
  rw [List.takeWhile_append_of_pos (List.all_eq_true.1 hall), List.length_append]
  exact Nat.le_add_right _ _

theorem isTextChar_eq_false_of_isTagSpace {c : Char} (hc : isTagSpace c = true) :
    isTextChar c = false := by
  simp [isTextChar, hc]

theorem isLongestMatch_whitespace {c : Char} {s : List Char} (hc : isTagSpace c = true) :
    IsLongestMatch .whitespace (c :: s.takeWhile isTagSpace) (c :: s) := by
  have htext := isTextChar_eq_false_of_isTagSpace hc
  have honly : ∀ other ∈ tokenRules, ∀ u, other.fits (c :: u) = true →
      other = .whitespace ∧ (c :: u).all isTagSpace = true := by
    intro other hother u hfits
    rcases TokenRule.fits_cases hother hfits with
      ⟨-, hkind⟩ | ⟨-, hident⟩ | ⟨hrule, -, hblank⟩ | ⟨-, -, hplain⟩ | ⟨-, hbrace⟩
    · obtain ⟨_, _, heq, hspace, -⟩ := TokenKind.head_of_spelling? hkind
      rw [← (List.cons.inj heq).1, hc] at hspace
      cases hspace
    · have := all_isTextChar_of_isIdentifier hident
      simp [htext] at this
    · exact ⟨hrule, hblank⟩
    · simp [htext] at hplain
    · rcases hbrace with h | h <;> cases h <;> cases hc
  have hrun : (c :: s).takeWhile isTagSpace = c :: s.takeWhile isTagSpace :=
    List.takeWhile_cons_of_pos hc
  rw [← hrun]
  exact {
    listed := by simp [tokenRules]
    begins := List.takeWhile_prefix _
    fits := TokenRule.fits_whitespace_iff.2 ⟨by simp [hrun], List.all_takeWhile⟩
    longest := by
      intro other hother u hu hfits
      rcases List.prefix_cons_iff.1 hu with rfl | ⟨v, rfl, hv⟩
      · exact Nat.zero_le _
      · exact length_le_takeWhile hu (honly other hother v hfits).2
    decides := fun other hother hfits => .inl (honly other hother _ (hrun ▸ hfits)).1 }

/-- A run of plain characters is an identifier if it looks like one; the rule for text fits it too,
but has a lower priority. -/
theorem isLongestMatch_word {c : Char} {s : List Char} (hc : isTextChar c = true) :
    IsLongestMatch (if isIdentifier (c :: s.takeWhile isTextChar) then .identifier else .text)
      (c :: s.takeWhile isTextChar) (c :: s) := by
  have honly : ∀ other ∈ tokenRules, ∀ u, other.fits (c :: u) = true →
      (other = .identifier ∧ isIdentifier (c :: u) = true ∨ other = .text) ∧
        (c :: u).all isTextChar = true := by
    intro other hother u hfits
    rcases TokenRule.fits_cases hother hfits with
      ⟨-, hkind⟩ | ⟨hrule, hident⟩ | ⟨-, -, hblank⟩ | ⟨hrule, -, hplain⟩ | ⟨-, hbrace⟩
    · obtain ⟨_, _, heq, -, htext⟩ := TokenKind.head_of_spelling? hkind
      rw [← (List.cons.inj heq).1, hc] at htext
      cases htext
    · exact ⟨.inl ⟨hrule, hident⟩, all_isTextChar_of_isIdentifier hident⟩
    · rw [List.all_cons, Bool.and_eq_true] at hblank
      rw [isTextChar_eq_false_of_isTagSpace hblank.1] at hc
      cases hc
    · exact ⟨.inr hrule, hplain⟩
    · rcases hbrace with h | h <;> cases h <;> cases hc
  have hrun : (c :: s).takeWhile isTextChar = c :: s.takeWhile isTextChar :=
    List.takeWhile_cons_of_pos hc
  have hlongest : ∀ other ∈ tokenRules, ∀ u, u <+: c :: s → other.fits u = true →
      u.length ≤ (c :: s.takeWhile isTextChar).length := by
    intro other hother u hu hfits
    rcases List.prefix_cons_iff.1 hu with rfl | ⟨v, rfl, hv⟩
    · exact Nat.zero_le _
    · rw [← hrun]
      exact length_le_takeWhile hu (honly other hother v hfits).2
  have hbegins : c :: s.takeWhile isTextChar <+: c :: s := hrun ▸ List.takeWhile_prefix _
  split
  · rename_i hident
    refine ⟨by simp [tokenRules], hbegins, TokenRule.fits_identifier _ ▸ hident, hlongest, ?_⟩
    intro other hother hfits
    rcases (honly other hother _ hfits).1 with ⟨hrule, -⟩ | hrule
    · exact .inl hrule
    · exact .inr (by rw [hrule]; decide)
  · rename_i hword
    have hfits : TokenRule.text.fits (c :: s.takeWhile isTextChar) = true :=
      TokenRule.fits_text_iff.2 ⟨List.cons_ne_nil _ _, by rw [← hrun]; exact List.all_takeWhile⟩
    refine ⟨by simp [tokenRules], hbegins, hfits, hlongest, ?_⟩
    intro other hother hfits
    rcases (honly other hother _ hfits).1 with ⟨-, hident⟩ | hrule
    · exact absurd hident hword
    · exact .inl hrule

/-- The first token is the longest match. -/
theorem isLongestMatch_of_firstToken? {s t r : List Char} {k : TokenKind}
    (h : firstToken? s = some (k, t, r)) : ∃ rule, rule.kind = k ∧ IsLongestMatch rule t s := by
  unfold firstToken? at h
  split at h
  case h_1 => cases h
  case h_12 hlone =>
    cases h
    exact ⟨.loneBrace, rfl, isLongestMatch_loneBrace (.inl rfl) hlone⟩
  case h_14 hlone =>
    cases h
    exact ⟨.loneBrace, rfl, isLongestMatch_loneBrace (.inr rfl) hlone⟩
  case h_15 c rest _ _ hlt _ hslash hgt hequals hquote hapostrophe _ hopen _ hclose =>
    split at h
    · rename_i hspace
      cases h
      exact ⟨.whitespace, rfl, isLongestMatch_whitespace hspace⟩
    · rename_i hspace
      have htext : isTextChar c = true := by
        simp only [isTextChar, Bool.not_eq_true', Bool.or_eq_false_iff, beq_eq_false_iff_ne]
        exact ⟨⟨⟨⟨⟨⟨⟨⟨hlt, hgt⟩, hequals⟩, hslash⟩, hquote⟩, hapostrophe⟩, hopen⟩, hclose⟩,
          Bool.eq_false_iff.2 hspace⟩
      cases h
      refine ⟨_, ?_, isLongestMatch_word htext⟩
      split <;> rfl
  all_goals
    cases h
    refine exists_isLongestMatch_of_spelling rfl ⟨_, rfl⟩ ?_
    rintro other u hother ⟨after, hafter⟩
    have htail := TokenKind.tail_of_spelling? hother
    grind

/-- There is no text but the empty one at the beginning of which no rule fits. -/
theorem exists_fits_of_ne_nil {s : List Char} (hs : s ≠ []) :
    ∃ rule ∈ tokenRules, ∃ u, u ≠ [] ∧ u <+: s ∧ rule.fits u = true := by
  cases htoken : firstToken? s with
  | none => exact absurd (firstToken?_eq_none.1 htoken) hs
  | some found =>
      obtain ⟨k, u, r⟩ := found
      obtain ⟨rule, -, hlongest⟩ := isLongestMatch_of_firstToken? htoken
      exact ⟨rule, hlongest.listed, u, (firstToken?_eq_some htoken).2, hlongest.begins,
        hlongest.fits⟩

/-! ## The tokens from a place on -/

/-- The end of the file is no token of a text. -/
theorem firstToken?_kind_ne {s t r : List Char} {k : TokenKind}
    (h : firstToken? s = some (k, t, r)) : k ≠ .endOfFile := by
  rintro rfl
  have hkind : (Cursor.mk 0 s).kind = .endOfFile := by rw [Cursor.kind, h]
  rw [show s = [] from Reader.kind_eq_endOfFile.1 hkind] at h
  cases h

/-- To show something of the tokens from a place on, show it of the end of the file, and show that
one more token in front keeps it. -/
theorem Cursor.tokens_induction {motive : Cursor → List Token → Prop}
    (done : ∀ c : Cursor, c.rest = [] →
      motive c [⟨.endOfFile, .ofOffsets c.offset c.offset, []⟩])
    (token : ∀ (c : Cursor) (k : TokenKind) (t r : List Char) (ts : List Token),
      firstToken? c.rest = some (k, t, r) → motive ⟨c.offset + byteLength t, r⟩ ts →
      motive c (⟨k, .ofOffsets c.offset (c.offset + byteLength t), t⟩ :: ts))
    (c : Cursor) : motive c c.tokens := by
  -- by induction on how much of the source is left, as every token leaves less
  induction hn : c.rest.length using Nat.strongRecOn generalizing c with
  | ind n ih =>
      cases htoken : firstToken? c.rest with
      | none =>
          have hrest := firstToken?_eq_none.1 htoken
          rw [tokens_of_rest_nil hrest]
          exact done c hrest
      | some found =>
          obtain ⟨k, t, r⟩ := found
          rw [tokens_of_firstToken? htoken]
          exact token c k t r _ htoken (ih _ (hn ▸ firstToken?_rest_lt htoken) _ rfl)

theorem Cursor.over_of_firstToken? {c : Cursor} {k : TokenKind} {t r : List Char}
    (h : firstToken? c.rest = some (k, t, r)) : c.Over t ⟨c.offset + byteLength t, r⟩ :=
  ⟨(firstToken?_eq_some h).1, rfl⟩

/-- The tokens from some token on are the tokens from its place on. -/
theorem Cursor.exists_over_of_tokens {c : Cursor} {us vs : List Token} {t : Token}
    (h : c.tokens = us ++ t :: vs) :
    ∃ d : Cursor, c.Over (us.flatMap Token.text) d ∧ d.tokens = t :: vs := by
  induction us generalizing c with
  | nil => exact ⟨c, Over.refl c, h⟩
  | cons u us ih =>
      cases htoken : firstToken? c.rest with
      | none =>
          rw [tokens_of_rest_nil (firstToken?_eq_none.1 htoken)] at h
          simp at h
      | some found =>
          obtain ⟨k, text, r⟩ := found
          rw [tokens_of_firstToken? htoken] at h
          obtain ⟨rfl, hmore⟩ := List.cons.inj h
          obtain ⟨d, hover, hd⟩ := ih hmore
          exact ⟨d, (over_of_firstToken? htoken).trans hover, hd⟩

/-- The tokens from a place on are tokens of the text there, and then the end of the file. -/
theorem Cursor.LiesIn.exists_tokens {source : List Char} (hs : byteLength source ≤ maxOffset)
    {c : Cursor} (hc : c.LiesIn source) :
    ∃ ts, c.tokens = ts ++ [⟨.endOfFile, .emptyAt (byteLength source), []⟩] ∧
      (∀ t ∈ ts, t.kind ≠ .endOfFile) ∧ ts.flatMap Token.text = c.rest := by
  refine Cursor.tokens_induction (motive := fun c tokens => c.LiesIn source →
    ∃ ts, tokens = ts ++ [⟨.endOfFile, .emptyAt (byteLength source), []⟩] ∧
      (∀ t ∈ ts, t.kind ≠ .endOfFile) ∧ ts.flatMap Token.text = c.rest) ?_ ?_ c hc
  · intro c hrest hc
    refine ⟨[], ?_, List.forall_mem_nil _, hrest.symm⟩
    rw [hc.offset_of_rest_nil hrest, Span.ofOffsets_eq hs hs]
    rfl
  · intro c k t r tokens htoken ih hc
    have hover := Cursor.over_of_firstToken? htoken
    obtain ⟨ts, htokens, hkinds, htexts⟩ := ih (hc.reaches hover.reaches)
    refine ⟨⟨k, .ofOffsets c.offset (c.offset + byteLength t), t⟩ :: ts, ?_,
      List.forall_mem_cons.2 ⟨firstToken?_kind_ne htoken, hkinds⟩, ?_⟩
    · rw [htokens, List.cons_append]
    · rw [List.flatMap_cons, htexts, hover.1]

/-- The token at a place begins there. If it is not the end of the file it lies over its text,
which is the longest match at the place. -/
theorem Cursor.LiesIn.firstToken_spec {source : List Char} (hs : byteLength source ≤ maxOffset)
    {c : Cursor} (hc : c.LiesIn source) {t : Token} {vs : List Token} (h : c.tokens = t :: vs) :
    t.span.start = c.offset ∧ (t.kind ≠ .endOfFile →
      t.span.start < t.span.stop ∧ t.span.slice? source = some t.text ∧
        ∃ rule, rule.kind = t.kind ∧ IsLongestMatch rule t.text c.rest) := by
  have hstart := Nat.min_eq_left (Nat.le_trans hc.offset_le hs)
  cases htoken : firstToken? c.rest with
  | none =>
      rw [tokens_of_rest_nil (firstToken?_eq_none.1 htoken)] at h
      obtain ⟨rfl, -⟩ := List.cons.inj h
      exact ⟨hstart, fun hkind => absurd rfl hkind⟩
  | some found =>
      obtain ⟨k, text, r⟩ := found
      have hover := over_of_firstToken? htoken
      have hspan := Cursor.spanTo_eq hs hc (hc.reaches hover.reaches)
      rw [tokens_of_firstToken? htoken] at h
      obtain ⟨rfl, -⟩ := List.cons.inj h
      refine ⟨hstart, fun _ =>
        ⟨?_, hc.slice?_spanTo hs hover, isLongestMatch_of_firstToken? htoken⟩⟩
      have hlt := hover.offset_lt (firstToken?_eq_some htoken).2
      exact (congrArg Span.start hspan).trans_lt (hlt.trans_eq (congrArg Span.stop hspan).symm)

/-- The tokens from a place on begin there, and each begins where the one before it ends. -/
theorem Cursor.LiesIn.isChain_tokens {source : List Char} (hs : byteLength source ≤ maxOffset)
    {c : Cursor} (hc : c.LiesIn source) :
    (∀ t ∈ c.tokens.head?, t.span.start = c.offset) ∧
      c.tokens.IsChain fun a b => a.span.stop = b.span.start := by
  have hfits : ∀ {d : Cursor}, d.LiesIn source → min d.offset maxOffset = d.offset := fun hd =>
    Nat.min_eq_left (Nat.le_trans hd.offset_le hs)
  refine Cursor.tokens_induction (motive := fun c tokens => c.LiesIn source →
    (∀ t ∈ tokens.head?, t.span.start = c.offset) ∧
      tokens.IsChain fun a b => a.span.stop = b.span.start) ?_ ?_ c hc
  · intro c _ hc
    exact ⟨by simpa [Span.ofOffsets] using hfits hc, List.isChain_singleton _⟩
  · intro c k t r tokens htoken ih hc
    have hnext := hc.reaches (Cursor.over_of_firstToken? htoken).reaches
    obtain ⟨hhead, hchain⟩ := ih hnext
    refine ⟨by simpa [Span.ofOffsets] using hfits hc, List.isChain_cons.2 ⟨?_, hchain⟩⟩
    intro b hb
    rw [hhead b hb]
    exact hfits hnext

/-- **Tokens tile the source by longest match.** Let a source shorter than 2^32 bytes be cut at a
character. From there on its tokens are some tokens of the text and then the end of the file, which
is empty and lies at the end of the source. The tokens of the text are not empty and are no ends of
the file. They are laid end to end from the cut to the end of the source, so that their texts
together are what follows the cut. Each of them is the longest text at its place that any rule
fits, and its kind is that of the rule of highest priority. Some rule fits at every place before
the end, so that no token is invalid. And to cut the source into tokens again from where one of
them begins gives that token and the ones after it. -/
theorem tokensAt_tiles_longest (before rest : List Char)
    (hs : byteLength (before ++ rest) ≤ maxOffset) :
    ∃ ts, tokensAt (before ++ rest) (byteLength before)
        = ts ++ [⟨.endOfFile, .emptyAt (byteLength (before ++ rest)), []⟩] ∧
      (∀ t ∈ ts, t.kind ≠ .endOfFile ∧ t.span.start < t.span.stop ∧
        t.span.slice? (before ++ rest) = some t.text ∧
        ∃ rule tail, dropBytes? t.span.start (before ++ rest) = some tail ∧ rule.kind = t.kind ∧
          IsLongestMatch rule t.text tail) ∧
      ((tokensAt (before ++ rest) (byteLength before)).IsChain
        fun a b => a.span.stop = b.span.start) ∧
      (∀ t ∈ (tokensAt (before ++ rest) (byteLength before)).head?,
        t.span.start = byteLength before) ∧
      ts.flatMap Token.text = rest ∧
      (∀ tail, tail <:+ rest → tail ≠ [] →
        ∃ rule ∈ tokenRules, ∃ u, u ≠ [] ∧ u <+: tail ∧ rule.fits u = true) ∧
      ∀ us t vs, tokensAt (before ++ rest) (byteLength before) = us ++ t :: vs →
        tokensAt (before ++ rest) t.span.start = t :: vs := by
  have hc : (Cursor.mk (byteLength before) rest).LiesIn (before ++ rest) :=
    Cursor.liesIn_iff.2 ⟨before, rfl, rfl⟩
  have htokens : tokensAt (before ++ rest) (byteLength before) = _ := hc.tokensAt
  obtain ⟨ts, hts, hkinds, htexts⟩ := hc.exists_tokens hs
  obtain ⟨hhead, hchain⟩ := hc.isChain_tokens hs
  rw [htokens]
  refine ⟨ts, hts, fun t ht => ?_, hchain, hhead, htexts, fun _ _ => exists_fits_of_ne_nil, ?_⟩
  · obtain ⟨us, vs, rfl⟩ := List.append_of_mem ht
    rw [List.append_assoc, List.cons_append] at hts
    obtain ⟨d, hover, hd⟩ := Cursor.exists_over_of_tokens hts
    have hplace := hc.reaches hover.reaches
    obtain ⟨hstart, hspec⟩ := hplace.firstToken_spec hs hd
    obtain ⟨hlt, hslice, rule, hrule, hlongest⟩ := hspec (hkinds t ht)
    exact ⟨hkinds t ht, hlt, hslice, rule, d.rest, hstart ▸ hplace.dropBytes?, hrule, hlongest⟩
  · intro us t vs hsplit
    obtain ⟨d, hover, hd⟩ := Cursor.exists_over_of_tokens hsplit
    have hplace := hc.reaches hover.reaches
    rw [(hplace.firstToken_spec hs hd).1, hplace.tokensAt, hd]

/-- A comment that does not begin after all, between characters of two bytes. -/
theorem tokensAt_tiles_longest_fallback :
    byteLength (['é'] ++ ['<', '!', '-', 'é', '/', '>']) ≤ maxOffset ∧
      ∃ ts, tokensAt (['é'] ++ ['<', '!', '-', 'é', '/', '>']) 2
          = ts ++ [⟨.endOfFile, .emptyAt 9, []⟩] ∧
        ts.map Token.kind = [.tagOpen, .text, .selfClose] ∧
        ts.flatMap Token.text = ['<', '!', '-', 'é', '/', '>'] := by
  have hsize : byteLength (['é'] ++ ['<', '!', '-', 'é', '/', '>']) ≤ maxOffset := by decide
  obtain ⟨ts, hts, -, -, -, htexts, -⟩ := tokensAt_tiles_longest ['é'] _ hsize
  have hcut : (Cursor.mk 2 ['<', '!', '-', 'é', '/', '>']).LiesIn
      (['é'] ++ ['<', '!', '-', 'é', '/', '>']) := Cursor.liesIn_iff.2 ⟨['é'], rfl, rfl⟩
  have hkinds : (tokensAt (['é'] ++ ['<', '!', '-', 'é', '/', '>']) 2).map Token.kind
      = [.tagOpen, .text, .selfClose] ++ [.endOfFile] := by
    rw [show tokensAt _ 2 = _ from hcut.tokensAt,
      Cursor.tokens_of_firstToken? (k := .tagOpen) (t := ['<'])
        (r := ['!', '-', 'é', '/', '>']) (by decide +kernel),
      Cursor.tokens_of_firstToken? (k := .text) (t := ['!', '-', 'é']) (r := ['/', '>'])
        (by decide +kernel),
      Cursor.tokens_of_firstToken? (k := .selfClose) (t := ['/', '>']) (r := [])
        (by decide +kernel),
      Cursor.tokens_of_rest_nil rfl]
    rfl
  refine ⟨hsize, ts, hts, ?_, htexts⟩
  rw [show tokensAt _ 2 = _ from hts, List.map_append] at hkinds
  exact List.append_cancel_right hkinds

end AstroTemplate
