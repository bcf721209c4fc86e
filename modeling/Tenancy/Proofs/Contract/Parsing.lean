import Mathlib.Data.List.DropRight
import Mathlib.Data.List.TakeWhile
import Tenancy.Proofs.Contract.Grammar
import Tenancy.Proofs.Text.WhiteSpace

/-!
# Reading contract expressions

The reader accepts the spellings of the grammar and nothing else
(`Expression.parse_eq_ok_iff_spells`). `Reads` says what it takes from an input and what it leaves.
What it takes is spelled by the grammar (`Reads.exists_spells`); conversely a spelling is taken
whole, up to white space, wherever the text after it can follow an expression
(`Spells.exists_reads`).
-/

namespace Tenancy.Expression

open Text

/-- Reading an input gives an expression and leaves a rest. The rest is given as a list, since the
bound it carries depends on the input. -/
def Reads (input : List Char) (expression : Expression) (rest : List Char) : Prop :=
  ∃ left, read input = .ok (expression, left) ∧ left.val = rest

def ReadsArguments (input : List Char) (arguments : List Expression) (rest : List Char) : Prop :=
  ∃ left, readArguments input = .ok (arguments, left) ∧ left.val = rest

def ReadsWord (input : List Char) (name : String) (rest : List Char) : Prop :=
  ∃ left, readWord input = .ok (name, left) ∧ left.val = rest

variable {input rest : List Char} {name : String}

theorem readsWord_iff : ReadsWord input name rest ↔
    (skipSpace input).takeWhile isWordChar ≠ [] ∧
      name = String.ofList ((skipSpace input).takeWhile isWordChar) ∧
      rest = skipSpace ((skipSpace input).dropWhile isWordChar) := by
  unfold ReadsWord readWord
  dsimp only
  split
  · next noWord => simp [noWord]
  · next first more word =>
      constructor
      · rintro ⟨_, ⟨⟩, rfl⟩
        exact ⟨by simp [word], congrArg _ word.symm, rfl⟩
      · rintro ⟨-, named, rfl⟩
        rw [word] at named
        subst named
        exact ⟨_, rfl, rfl⟩

theorem reads_iff {expression : Expression} : Reads input expression rest ↔
    ∃ name after, ReadsWord input name after ∧
      ((∃ inside arguments, after = '<' :: inside ∧ ReadsArguments inside arguments rest ∧
          expression = apply name arguments) ∨
        (∀ inside, after ≠ '<' :: inside) ∧ rest = after ∧ expression = apply name []) := by
  unfold Reads ReadsWord ReadsArguments
  rw [read]
  cases readWord input with
  | error fault => simp
  | ok taken =>
      obtain ⟨name, after, shorter⟩ := taken
      dsimp only
      split
      · next inside =>
          constructor
          · rintro ⟨left, done, rfl⟩
            split at done
            · cases done
            · next arguments remaining read =>
                cases done
                exact ⟨name, _, ⟨_, rfl, rfl⟩,
                  .inl ⟨inside, arguments, rfl, ⟨remaining, read, rfl⟩, rfl⟩⟩
          · rintro ⟨_, _, ⟨_, ⟨⟩, rfl⟩, ⟨_, _, ⟨⟩, ⟨remaining, read, rfl⟩, rfl⟩ | ⟨other, -⟩⟩
            · rw [read]
              exact ⟨_, rfl, rfl⟩
            · exact absurd rfl (other inside)
      · next other =>
          constructor
          · rintro ⟨_, ⟨⟩, rfl⟩
            exact ⟨name, after, ⟨_, rfl, rfl⟩, .inr ⟨other, rfl, rfl⟩⟩
          · rintro ⟨_, _, ⟨_, ⟨⟩, rfl⟩, ⟨inside, _, opening, -⟩ | ⟨-, rfl, rfl⟩⟩
            · exact absurd opening (other inside)
            · exact ⟨_, rfl, rfl⟩

theorem readsArguments_iff {arguments : List Expression} : ReadsArguments input arguments rest ↔
    ∃ argument after, Reads input argument after ∧
      ((∃ more others, skipSpace after = ',' :: more ∧ ReadsArguments more others rest ∧
          arguments = argument :: others) ∨
        skipSpace after = '>' :: rest ∧ arguments = [argument]) := by
  unfold ReadsArguments Reads
  rw [readArguments]
  cases read input with
  | error fault => simp
  | ok taken =>
      obtain ⟨argument, after, shorter⟩ := taken
      dsimp only
      split
      · next more sign =>
          constructor
          · rintro ⟨left, done, rfl⟩
            split at done
            · cases done
            · next others remaining read =>
                cases done
                exact ⟨argument, _, ⟨_, rfl, rfl⟩,
                  .inl ⟨more, others, sign, ⟨remaining, read, rfl⟩, rfl⟩⟩
          · rintro ⟨_, _, ⟨_, ⟨⟩, rfl⟩, ⟨_, _, again, ⟨remaining, read, rfl⟩, rfl⟩ | ⟨closing, -⟩⟩
            · obtain ⟨-, rfl⟩ := List.cons.inj (sign.symm.trans again)
              rw [read]
              exact ⟨_, rfl, rfl⟩
            · cases sign.symm.trans closing
      · next left sign =>
          constructor
          · rintro ⟨_, ⟨⟩, rfl⟩
            exact ⟨argument, _, ⟨_, rfl, rfl⟩, .inr ⟨sign, rfl⟩⟩
          · rintro ⟨_, _, ⟨_, ⟨⟩, rfl⟩, ⟨_, _, again, -, -⟩ | ⟨closing, rfl⟩⟩
            · cases sign.symm.trans again
            · obtain ⟨-, rfl⟩ := List.cons.inj (sign.symm.trans closing)
              exact ⟨_, rfl, rfl⟩
      · next noComma noClosing =>
          constructor
          · rintro ⟨_, ⟨⟩, rfl⟩
          · rintro ⟨_, _, ⟨_, ⟨⟩, rfl⟩, ⟨more, _, comma, -⟩ | ⟨closing, -⟩⟩
            · exact absurd comma (noComma more)
            · exact absurd closing (noClosing rest)

theorem parse_eq_ok_iff {source : String} {expression : Expression} :
    parse source = .ok expression ↔
      ∃ rest, Reads source.toList expression rest ∧ skipSpace rest = [] := by
  unfold parse Reads
  cases read source.toList with
  | error fault => simp
  | ok taken =>
      obtain ⟨given, left⟩ := taken
      dsimp only
      split
      · next blank =>
          constructor
          · rintro ⟨⟩
            exact ⟨left, ⟨left, rfl, rfl⟩, blank⟩
          · rintro ⟨_, ⟨_, ⟨⟩, rfl⟩, -⟩
            rfl
      · next c more trailing =>
          refine iff_of_false nofun ?_
          rintro ⟨_, ⟨_, ⟨⟩, rfl⟩, blank⟩
          cases trailing.symm.trans blank

theorem ReadsWord.shorter (reads : ReadsWord input name rest) : rest.length < input.length := by
  obtain ⟨left, -, rfl⟩ := reads
  exact left.property

theorem Reads.shorter {expression : Expression} (reads : Reads input expression rest) :
    rest.length < input.length := by
  obtain ⟨left, -, rfl⟩ := reads
  exact left.property

/-! ### White space -/

theorem exists_append_skipSpace (input : List Char) :
    ∃ spaces, input = spaces ++ skipSpace input ∧ ∀ c ∈ spaces, isWhiteSpace c = true :=
  ⟨input.takeWhile isWhiteSpace, List.takeWhile_append_dropWhile.symm,
    fun _ => List.mem_takeWhile_imp⟩

theorem skipSpace_append {spaces : List Char} (blank : ∀ c ∈ spaces, isWhiteSpace c = true)
    (rest : List Char) : skipSpace (spaces ++ rest) = skipSpace rest :=
  List.dropWhile_append_of_pos blank

theorem skipSpace_cons {c : Char} (solid : isWhiteSpace c = false) (rest : List Char) :
    skipSpace (c :: rest) = c :: rest :=
  List.dropWhile_cons_of_neg (by simp [solid])

theorem skipSpace_skipSpace (input : List Char) : skipSpace (skipSpace input) = skipSpace input :=
  List.dropWhile_idempotent isWhiteSpace input

/-! ### Words -/

theorem isWordChar_eq_false {c : Char} (space : isWhiteSpace c = true) : isWordChar c = false :=
  Bool.eq_false_iff.mpr fun wordChar =>
    Bool.noConfusion (space.symm.trans (isWordChar_iff.mp wordChar).isWhiteSpace_eq_false)

/-- A word is read up to white space or to a character that no word has, and the white space around
it is taken with it. -/
theorem readsWord_iff_exists : ReadsWord input name rest ↔
    ∃ before after, input = before ++ name.toList ++ after ++ rest ∧ IsWord name.toList ∧
      (∀ c ∈ before, isWhiteSpace c = true) ∧ (∀ c ∈ after, isWhiteSpace c = true) ∧
      (∀ c ∈ rest.head?, isWhiteSpace c = false) ∧
      (after = [] → ∀ c ∈ rest.head?, isWordChar c = false) := by
  rw [readsWord_iff]
  constructor
  · rintro ⟨nonempty, rfl, rfl⟩
    obtain ⟨before, split, blankBefore⟩ := exists_append_skipSpace input
    obtain ⟨after, splitAfter, blankAfter⟩ :=
      exists_append_skipSpace ((skipSpace input).dropWhile isWordChar)
    rw [String.toList_ofList]
    refine ⟨before, after, ?_, ⟨nonempty, ?_⟩, blankBefore, blankAfter,
      head?_dropWhile_eq_false, ?_⟩
    · rw [List.append_assoc, ← splitAfter, List.append_assoc, List.takeWhile_append_dropWhile,
        ← split]
    · exact fun c member => isWordChar_iff.mp (List.mem_takeWhile_imp member)
    · rintro rfl
      rw [List.nil_append] at splitAfter
      rw [← splitAfter]
      exact head?_dropWhile_eq_false
  · rintro ⟨before, after, rfl, isWord, blankBefore, blankAfter, solid, ends⟩
    have start : skipSpace (before ++ name.toList ++ after ++ rest) =
        name.toList ++ (after ++ rest) := by
      rw [List.append_assoc, List.append_assoc]
      refine dropWhile_append_of_head? blankBefore fun c first => ?_
      rw [List.head?_append_of_ne_nil _ isWord.1] at first
      exact (isWord.2 c (List.mem_of_mem_head? first)).isWhiteSpace_eq_false
    have endsWord : ∀ c ∈ (after ++ rest).head?, isWordChar c = false := by
      cases after with
      | nil => exact ends rfl
      | cons space after =>
          rintro _ ⟨⟩
          exact isWordChar_eq_false (blankAfter space List.mem_cons_self)
    have left : (name.toList ++ (after ++ rest)).dropWhile isWordChar = after ++ rest :=
      dropWhile_append_of_head? (fun c member => isWordChar_iff.mpr (isWord.2 c member)) endsWord
    have taken : (name.toList ++ (after ++ rest)).takeWhile isWordChar = name.toList := by
      have parts := List.takeWhile_append_dropWhile (p := isWordChar)
        (l := name.toList ++ (after ++ rest))
      rw [left] at parts
      exact List.append_cancel_right parts
    rw [start, taken, left]
    exact ⟨isWord.1, String.ofList_toList.symm, (dropWhile_append_of_head? blankAfter solid).symm⟩

/-! ### What is read is spelled -/

theorem ReadsWord.exists_padded (reads : ReadsWord input name rest) :
    ∃ text, input = text ++ rest ∧ IsWord name.toList ∧ Padded name.toList text := by
  obtain ⟨before, after, split, isWord, blankBefore, blankAfter, -⟩ :=
    readsWord_iff_exists.mp reads
  exact ⟨_, split, isWord, before, after, rfl, blankBefore, blankAfter⟩

mutual

-- The recursion is that of the readers; the first argument is read from the text of them all.
theorem Reads.exists_spells {input rest : List Char} {expression : Expression}
    (reads : Reads input expression rest) :
    ∃ text, input = text ++ rest ∧ Spells expression text := by
  obtain ⟨name, after, word, shape⟩ := reads_iff.mp reads
  have shorter := word.shorter
  obtain ⟨text, taken, isWord, padded⟩ := word.exists_padded
  rcases shape with ⟨inside, arguments, rfl, read, rfl⟩ | ⟨-, rfl, rfl⟩
  · obtain ⟨texts, closing, rfl, spells, closes⟩ := read.exists_spellsAll
    refine ⟨text ++ ['<'] ++ texts ++ closing, by simp [taken], ?_⟩
    exact .application isWord padded (.refl _) spells closes
  · exact ⟨text, taken, .word isWord padded⟩
  termination_by 2 * input.length

theorem ReadsArguments.exists_spellsAll {input rest : List Char} {arguments : List Expression}
    (reads : ReadsArguments input arguments rest) :
    ∃ text closing, input = text ++ closing ++ rest ∧ SpellsAll arguments text ∧
      Padded ['>'] closing := by
  obtain ⟨argument, after, first, sign⟩ := readsArguments_iff.mp reads
  have shorter := first.shorter
  obtain ⟨text, taken, spells⟩ := first.exists_spells
  obtain ⟨spaces, split, blank⟩ := exists_append_skipSpace after
  rcases sign with ⟨more, others, comma, read, rfl⟩ | ⟨closing, rfl⟩
  · have fewer : more.length < after.length := by
      simpa [comma, Nat.succ_le_iff] using skipSpace_length after
    rw [comma] at split
    obtain ⟨texts, closing, rfl, spellsAll, closes⟩ := read.exists_spellsAll
    refine ⟨text ++ (spaces ++ [',']) ++ texts, closing, by simp [taken, split], ?_, closes⟩
    exact .next spells ⟨spaces, [], by simp, blank, nofun⟩ spellsAll
  · rw [closing] at split
    exact ⟨text, spaces ++ ['>'], by simp [taken, split], .last spells,
      spaces, [], by simp, blank, nofun⟩
  termination_by 2 * input.length + 1

end

/-! ### What is spelled is read -/

/-- Past white space, a text ends or goes on with a character that no word has. -/
def EndsWord (rest : List Char) : Prop :=
  ∀ c more, skipSpace rest = c :: more → isWordChar c = false

/-- Past white space, a text ends or goes on with a sign that may follow an argument. -/
def EndsExpression (rest : List Char) : Prop :=
  ∀ c more, skipSpace rest = c :: more → c = ',' ∨ c = '>'

theorem forall_of_skipSpace_eq {passes : Char → Prop} {c : Char} {more : List Char}
    (goesOn : skipSpace rest = c :: more) (passed : passes c) :
    ∀ other tail, skipSpace rest = other :: tail → passes other := by
  intro other tail again
  obtain ⟨rfl, -⟩ := List.cons.inj (goesOn.symm.trans again)
  exact passed

theorem EndsExpression.endsWord (ends : EndsExpression rest) : EndsWord rest := by
  intro c more goesOn
  obtain rfl | rfl := ends c more goesOn <;> rfl

theorem Padded.readsWord {text : List Char} (padded : Padded name.toList text)
    (isWord : IsWord name.toList) (ends : EndsWord rest) :
    ReadsWord (text ++ rest) name (skipSpace rest) := by
  obtain ⟨before, after, rfl, blankBefore, blankAfter⟩ := padded
  obtain ⟨spaces, split, blank⟩ := exists_append_skipSpace rest
  refine readsWord_iff_exists.mpr ⟨before, after ++ spaces, ?_, isWord, blankBefore,
    List.forall_mem_append.mpr ⟨blankAfter, blank⟩, head?_dropWhile_eq_false, fun _ c first => ?_⟩
  · rw [← List.append_assoc, List.append_assoc _ spaces, ← split]
  · obtain ⟨more, goesOn⟩ := List.head?_eq_some_iff.mp first
    exact ends c more goesOn

/-- White space before an expression does not matter. -/
theorem reads_append_iff {spaces : List Char} (blank : ∀ c ∈ spaces, isWhiteSpace c = true)
    {expression : Expression} :
    Reads (spaces ++ input) expression rest ↔ Reads input expression rest := by
  simp only [reads_iff, readsWord_iff, skipSpace_append blank]

theorem readsArguments_append_iff {spaces : List Char}
    (blank : ∀ c ∈ spaces, isWhiteSpace c = true) {arguments : List Expression} :
    ReadsArguments (spaces ++ input) arguments rest ↔ ReadsArguments input arguments rest := by
  rw [readsArguments_iff, readsArguments_iff]
  simp only [reads_append_iff blank]

theorem Padded.exists_skipSpace_append {c : Char} {text : List Char} (padded : Padded [c] text)
    (solid : isWhiteSpace c = false) (rest : List Char) :
    ∃ spaces, (∀ c ∈ spaces, isWhiteSpace c = true) ∧
      skipSpace (text ++ rest) = c :: (spaces ++ rest) := by
  obtain ⟨before, after, rfl, blankBefore, blankAfter⟩ := padded
  refine ⟨after, blankAfter, ?_⟩
  rw [List.append_assoc, List.append_assoc, skipSpace_append blankBefore]
  exact skipSpace_cons solid _

mutual

-- What is left is compared after white space: a word takes the white space after it, a bracket does
-- not.
theorem Spells.exists_reads {expression : Expression} {text : List Char} :
    Spells expression text → ∀ {rest}, EndsExpression rest →
      ∃ left, Reads (text ++ rest) expression left ∧ skipSpace left = skipSpace rest
  | .word isWord padded, rest, ends => by
      have word := padded.readsWord isWord ends.endsWord
      refine ⟨skipSpace rest, reads_iff.mpr ⟨_, _, word, .inr ⟨?_, rfl, rfl⟩⟩,
        skipSpace_skipSpace rest⟩
      intro inside opening
      exact absurd (ends '<' inside opening) (by decide)
  | @Spells.application name arguments text opening inside closing isWord padded opens spells closes,
      rest, ends => by
      obtain ⟨before, blankBefore, start⟩ :=
        opens.exists_skipSpace_append rfl (inside ++ (closing ++ rest))
      obtain ⟨after, blankAfter, stop⟩ := closes.exists_skipSpace_append rfl rest
      have endsWord : EndsWord (opening ++ (inside ++ (closing ++ rest))) :=
        forall_of_skipSpace_eq start rfl
      have word := padded.readsWord isWord endsWord
      rw [start] at word
      have read := (readsArguments_append_iff blankBefore).mpr (spells.readsArguments stop)
      refine ⟨after ++ rest, reads_iff.mpr ⟨_, _, ?_, .inl ⟨_, _, rfl, read, rfl⟩⟩,
        skipSpace_append blankAfter rest⟩
      simpa using word

theorem SpellsAll.readsArguments {arguments : List Expression} {text : List Char} :
    SpellsAll arguments text → ∀ {rest left}, skipSpace rest = '>' :: left →
      ReadsArguments (text ++ rest) arguments left
  | .last spells, rest, left, closing => by
      have ends : EndsExpression rest := forall_of_skipSpace_eq closing (.inr rfl)
      obtain ⟨after, read, same⟩ := spells.exists_reads ends
      exact readsArguments_iff.mpr ⟨_, after, read, .inr ⟨same.trans closing, rfl⟩⟩
  | @SpellsAll.next expression expressions text comma texts spells separates later,
      rest, left, closing => by
      obtain ⟨spaces, blank, separator⟩ := separates.exists_skipSpace_append rfl (texts ++ rest)
      have ends : EndsExpression (comma ++ (texts ++ rest)) :=
        forall_of_skipSpace_eq separator (.inl rfl)
      obtain ⟨after, read, same⟩ := spells.exists_reads ends
      have others := (readsArguments_append_iff blank).mpr (later.readsArguments closing)
      refine readsArguments_iff.mpr ⟨_, after, ?_, .inl ⟨_, _, same.trans separator, others, rfl⟩⟩
      simpa using read

end

/-- By itself a spelling is taken up to the white space at its end. -/
theorem Spells.exists_reads_whole {expression : Expression} {text : List Char}
    (spells : Spells expression text) :
    ∃ left, Reads text expression left ∧ skipSpace left = [] := by
  obtain ⟨left, read, same⟩ := spells.exists_reads (by nofun : EndsExpression [])
  rw [List.append_nil] at read
  exact ⟨left, read, same⟩

theorem parse_eq_ok_iff_spells {source : String} {expression : Expression} :
    parse source = .ok expression ↔ Spells expression source.toList := by
  rw [parse_eq_ok_iff]
  constructor
  · rintro ⟨rest, read, blank⟩
    obtain ⟨text, split, spells⟩ := read.exists_spells
    rw [split]
    exact spells.append (List.dropWhile_eq_nil_iff.mp blank)
  · exact Spells.exists_reads_whole

/-- A text spells one expression at most. -/
theorem Spells.unique {expression other : Expression} {text : List Char}
    (spells : Spells expression text) (again : Spells other text) : expression = other := by
  have read (given : Expression) : parse (String.ofList text) = .ok given ↔ Spells given text := by
    rw [parse_eq_ok_iff_spells, String.toList_ofList]
  exact Except.ok.inj (((read expression).mpr spells).symm.trans ((read other).mpr again))

/-- A text is read as the expression that it spells, whose canonical text is the text without white
space. An expression that is named by words is read back from its canonical text, so no two such
expressions have the same one. -/
theorem parse_iff_spells_and_canonical :
    (∀ source expression, parse source = .ok expression ↔ Spells expression source.toList) ∧
      (∀ source expression, parse source = .ok expression →
        expression.canonical =
          String.ofList (source.toList.filter fun c => !isWhiteSpace c)) ∧
      (∀ expression, WellNamed expression → parse expression.canonical = .ok expression) ∧
      ∀ expression other, WellNamed expression → WellNamed other →
        expression.canonical = other.canonical → expression = other := by
  refine ⟨fun _ _ => parse_eq_ok_iff_spells, ?_, ?_, ?_⟩
  · intro source expression parsed
    have spells := parse_eq_ok_iff_spells.mp parsed
    exact String.ofList_toList.symm.trans (congrArg String.ofList spells.toList_canonical)
  · intro expression wellNamed
    exact parse_eq_ok_iff_spells.mpr wellNamed.spells_canonical
  · intro expression other wellNamed otherNamed same
    exact wellNamed.spells_canonical.unique (same ▸ otherNamed.spells_canonical)

/-- Pages of members in envelopes. -/
def memberPages : Expression :=
  apply "page" [apply "envelope" [apply "member" []]]

theorem spells_memberPages : Spells memberPages " page < envelope<member> > ".toList := by
  have blank : ∀ c ∈ [' '], isWhiteSpace c = true := List.forall_mem_singleton.mpr rfl
  have member : Spells (apply "member" []) "member".toList := .word (by decide) (.refl _)
  have envelope : Spells (apply "envelope" [apply "member" []])
      ("envelope".toList ++ ['<'] ++ "member".toList ++ ['>']) :=
    .application (by decide) (.refl _) (.refl _) (.last member) (.refl _)
  have page : Padded "page".toList " page ".toList := ⟨[' '], [' '], by decide, blank, blank⟩
  have opening : Padded ['<'] "< ".toList := ⟨[], [' '], by decide, nofun, blank⟩
  have closing : Padded ['>'] " > ".toList := ⟨[' '], [' '], by decide, blank, blank⟩
  have text : " page < envelope<member> > ".toList = " page ".toList ++ "< ".toList ++
      ("envelope".toList ++ ['<'] ++ "member".toList ++ ['>']) ++ " > ".toList := by decide
  rw [text]
  exact .application (by decide) page opening (.last envelope) closing

theorem wellNamed_memberPages : WellNamed memberPages := by
  have member : WellNamed (apply "member" []) := .apply (by decide) nofun
  have envelope : WellNamed (apply "envelope" [apply "member" []]) :=
    .apply (by decide) (List.forall_mem_singleton.mpr member)
  exact .apply (by decide) (List.forall_mem_singleton.mpr envelope)

theorem parse_memberPages :
    parse " page < envelope<member> > " = .ok memberPages ∧
      memberPages.canonical = "page<envelope<member>>" ∧
      parse "page<envelope<member>>" = .ok memberPages := by
  have parsed : parse " page < envelope<member> > " = .ok memberPages :=
    (parse_iff_spells_and_canonical.1 _ _).mpr spells_memberPages
  have canonical : memberPages.canonical = "page<envelope<member>>" :=
    (parse_iff_spells_and_canonical.2.1 _ _ parsed).trans rfl
  refine ⟨parsed, canonical, ?_⟩
  rw [← canonical]
  exact parse_iff_spells_and_canonical.2.2.1 _ wellNamed_memberPages

end Tenancy.Expression
