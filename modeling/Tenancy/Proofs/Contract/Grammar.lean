import Tenancy.Contract.Expression

/-!
# The grammar of contract expressions

    expression := word | word '<' expression (',' expression)* '>'

A word is a non-empty run of ASCII letters, digits and underscores. White space may stand before and
after every word and sign, but not inside a word. What an expression is spelled by differs from its
canonical text in white space only (`Expression.Spells.toList_canonical`), and the canonical text is
one of its spellings (`Expression.WellNamed.spells_canonical`).
-/

namespace Tenancy.Expression

open Text

/-- An ASCII letter, a digit or an underscore. -/
def WordChar (c : Char) : Prop :=
  ('A' ≤ c ∧ c ≤ 'Z') ∨ ('a' ≤ c ∧ c ≤ 'z') ∨ ('0' ≤ c ∧ c ≤ '9') ∨ c = '_'

def IsWord (word : List Char) : Prop :=
  word ≠ [] ∧ ∀ c ∈ word, WordChar c

/-- A token with white space around it. -/
def Padded (token text : List Char) : Prop :=
  ∃ before after, text = before ++ token ++ after ∧
    (∀ c ∈ before, isWhiteSpace c = true) ∧ ∀ c ∈ after, isWhiteSpace c = true

mutual

/-- A text is a spelling of an expression. -/
inductive Spells : Expression → List Char → Prop where
  | word {name : String} {text : List Char} : IsWord name.toList → Padded name.toList text →
      Spells (apply name []) text
  | application {name : String} {arguments : List Expression}
      {text opening inside closing : List Char} :
      IsWord name.toList → Padded name.toList text → Padded ['<'] opening →
      SpellsAll arguments inside → Padded ['>'] closing →
      Spells (apply name arguments) (text ++ opening ++ inside ++ closing)

/-- A text spells one or more expressions with commas between them. -/
inductive SpellsAll : List Expression → List Char → Prop where
  | last {expression : Expression} {text : List Char} : Spells expression text →
      SpellsAll [expression] text
  | next {expression : Expression} {rest : List Expression} {text comma texts : List Char} :
      Spells expression text → Padded [','] comma → SpellsAll rest texts →
      SpellsAll (expression :: rest) (text ++ comma ++ texts)

end

/-- All names in an expression are words. -/
inductive WellNamed : Expression → Prop where
  | apply {name : String} {arguments : List Expression} : IsWord name.toList →
      (∀ argument ∈ arguments, WellNamed argument) → WellNamed (apply name arguments)

/-! ### Words and white space -/

theorem isWordChar_iff {c : Char} : isWordChar c = true ↔ WordChar c := by
  have between (low high : Char) :
      (decide (low ≤ c) && decide (c ≤ high)) = true ↔ low ≤ c ∧ c ≤ high := by
    simp
  have upper : c.isUpper = true ↔ 'A' ≤ c ∧ c ≤ 'Z' := decide_eq_true_iff
  have lower : c.isLower = true ↔ 'a' ≤ c ∧ c ≤ 'z' := between 'a' 'z'
  have digit : c.isDigit = true ↔ '0' ≤ c ∧ c ≤ '9' := between '0' '9'
  have split : isWordChar c = (c.isUpper || c.isLower || c.isDigit || c == '_') := rfl
  simp only [split, Bool.or_eq_true, beq_iff_eq, upper, lower, digit, WordChar, or_assoc]

instance : DecidablePred IsWord := fun word =>
  decidable_of_iff (word ≠ [] ∧ word.all isWordChar = true) (by simp [IsWord, isWordChar_iff])

theorem WordChar.isWhiteSpace_eq_false {c : Char} (word : WordChar c) : isWhiteSpace c = false := by
  have code : (65 ≤ c.toNat ∧ c.toNat ≤ 90) ∨ (97 ≤ c.toNat ∧ c.toNat ≤ 122) ∨
      (48 ≤ c.toNat ∧ c.toNat ≤ 57) ∨ c.toNat = 95 := by
    rcases word with upper | lower | digit | rfl
    · exact .inl upper
    · exact .inr (.inl lower)
    · exact .inr (.inr (.inl digit))
    · exact .inr (.inr (.inr rfl))
  simp only [isWhiteSpace, isolatedSpaces, List.contains_eq_mem, List.mem_cons, List.not_mem_nil,
    or_false, Bool.decide_or, Bool.or_eq_false_iff, Bool.and_eq_false_imp, decide_eq_true_eq,
    decide_eq_false_iff_not, Nat.not_le]
  omega

def withoutSpace (text : List Char) : List Char :=
  text.filter fun c => !isWhiteSpace c

@[simp]
theorem withoutSpace_append (text rest : List Char) :
    withoutSpace (text ++ rest) = withoutSpace text ++ withoutSpace rest :=
  List.filter_append text rest

theorem IsWord.withoutSpace {word : List Char} (isWord : IsWord word) : withoutSpace word = word :=
  List.filter_eq_self.mpr fun c member => by simp [(isWord.2 c member).isWhiteSpace_eq_false]

theorem withoutSpace_eq_nil {spaces : List Char} (blank : ∀ c ∈ spaces, isWhiteSpace c = true) :
    withoutSpace spaces = [] :=
  List.filter_eq_nil_iff.mpr fun c member => by simp [blank c member]

namespace Padded

variable {token text : List Char}

theorem refl (token : List Char) : Padded token token :=
  ⟨[], [], by simp, nofun, nofun⟩

theorem append (padded : Padded token text) {spaces : List Char}
    (blank : ∀ c ∈ spaces, isWhiteSpace c = true) : Padded token (text ++ spaces) := by
  obtain ⟨before, after, rfl, blankBefore, blankAfter⟩ := padded
  exact ⟨before, after ++ spaces, by simp, blankBefore,
    List.forall_mem_append.mpr ⟨blankAfter, blank⟩⟩

theorem withoutSpace (padded : Padded token text) (solid : withoutSpace token = token) :
    withoutSpace text = token := by
  obtain ⟨before, after, rfl, blankBefore, blankAfter⟩ := padded
  simp [withoutSpace_eq_nil blankBefore, withoutSpace_eq_nil blankAfter, solid]

end Padded

/-! ### Spellings and canonical texts -/

theorem SpellsAll.ne_nil {expressions : List Expression} {text : List Char} :
    SpellsAll expressions text → expressions ≠ []
  | .last _ | .next _ _ _ => List.cons_ne_nil _ _

/-- White space after an expression belongs to its last token. -/
theorem Spells.append {expression : Expression} {text spaces : List Char}
    (spells : Spells expression text) (blank : ∀ c ∈ spaces, isWhiteSpace c = true) :
    Spells expression (text ++ spaces) := by
  cases spells with
  | word isWord padded => exact .word isWord (padded.append blank)
  | application isWord padded opening inside closing =>
      rw [List.append_assoc _ _ spaces]
      exact .application isWord padded opening inside (closing.append blank)

theorem canonical_apply {name : String} {arguments : List Expression} (nonempty : arguments ≠ []) :
    (apply name arguments).canonical =
      name ++ "<" ++ String.intercalate "," (canonicalAll arguments) ++ ">" := by
  cases arguments with
  | nil => exact absurd rfl nonempty
  | cons first rest => rw [canonical, canonicalAll]

theorem intercalate_canonicalAll_cons {expression : Expression} {rest : List Expression}
    (nonempty : rest ≠ []) : String.intercalate "," (canonicalAll (expression :: rest)) =
      expression.canonical ++ "," ++ String.intercalate "," (canonicalAll rest) := by
  cases rest with
  | nil => exact absurd rfl nonempty
  | cons next rest => simp only [canonicalAll, String.intercalate_cons_cons]

mutual

/-- Without its white space a spelling is the canonical text. -/
theorem Spells.toList_canonical {expression : Expression} {text : List Char} :
    Spells expression text → expression.canonical.toList = withoutSpace text
  | .word isWord padded => by
      rw [canonical, padded.withoutSpace isWord.withoutSpace]
  | .application isWord padded opening inside closing => by
      rw [canonical_apply inside.ne_nil]
      simp [padded.withoutSpace isWord.withoutSpace, opening.withoutSpace (by decide),
        inside.toList_intercalate, closing.withoutSpace (by decide)]

theorem SpellsAll.toList_intercalate {expressions : List Expression} {text : List Char} :
    SpellsAll expressions text →
      (String.intercalate "," (canonicalAll expressions)).toList = withoutSpace text
  | .last spells => by
      rw [canonicalAll, canonicalAll, String.intercalate_singleton, spells.toList_canonical]
  | .next spells comma later => by
      rw [intercalate_canonicalAll_cons later.ne_nil]
      simp [spells.toList_canonical, comma.withoutSpace (by decide), later.toList_intercalate]

end

theorem spellsAll_canonicalAll {expressions : List Expression} (nonempty : expressions ≠ [])
    (spells : ∀ expression ∈ expressions, Spells expression expression.canonical.toList) :
    SpellsAll expressions (String.intercalate "," (canonicalAll expressions)).toList := by
  induction expressions with
  | nil => exact absurd rfl nonempty
  | cons expression rest inductionHypothesis =>
      obtain ⟨first, later⟩ := List.forall_mem_cons.mp spells
      by_cases last : rest = []
      · subst last
        rw [canonicalAll, canonicalAll, String.intercalate_singleton]
        exact .last first
      · rw [intercalate_canonicalAll_cons last, String.toList_append, String.toList_append]
        exact .next first (.refl _) (inductionHypothesis last later)

theorem WellNamed.spells_canonical {expression : Expression} (wellNamed : WellNamed expression) :
    Spells expression expression.canonical.toList := by
  induction wellNamed with
  | @apply name arguments isWord _ inductionHypothesis =>
      by_cases bare : arguments = []
      · subst bare
        rw [canonical]
        exact .word isWord (.refl _)
      · rw [canonical_apply bare]
        simp only [String.toList_append]
        exact .application isWord (.refl _) (.refl _)
          (spellsAll_canonicalAll bare inductionHypothesis) (.refl _)

end Tenancy.Expression
