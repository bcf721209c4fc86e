import Tenancy.Proofs.Contract.Parsing

/-!
# Where reading breaks off

A text that starts with an expression may go on with something else. It is then refused at the first
character that no expression could have there (`Expression.BreaksOff`): what stands before is an
expression, and no expression starts with that and the character. A character is reported as
unexpected exactly there, with its offset in bytes
(`Expression.reports_unexpected_iff_breaksOff`).

The reason is how little the reader looks ahead: what it takes from a text depends on one further
character at most (`Expression.Reads.undisturbed`).
-/

namespace Tenancy

open Text

/-- A character of a text and what stands before it, by position and by parts. -/
theorem Text.exists_pos_iff {source : String} {c : Char} {offset : Nat}
    {passes : List Char → Prop} :
    (∃ position : source.Pos, position.offset.byteIdx = offset ∧
        (∃ inside : position ≠ source.endPos, position.get inside = c) ∧
        passes (source.sliceTo position).copy.toList) ↔
      ∃ before after, source.toList = before ++ c :: after ∧
        (String.ofList before).utf8ByteSize = offset ∧ passes before := by
  constructor
  · rintro ⟨position, rfl, ⟨inside, rfl⟩, passed⟩
    have splits := position.splits_next_right inside
    have whole := congrArg String.toList splits.eq_append
    refine ⟨_, _, by simpa using whole, ?_, passed⟩
    rw [String.ofList_toList, splits.offset_eq_rawEndPos, String.byteIdx_rawEndPos]
  · rintro ⟨before, after, split, rfl, passed⟩
    have whole : source =
        String.ofList before ++ (String.singleton c ++ String.ofList after) := by
      rw [← String.toList_inj, split]
      simp
    have splits := String.Pos.splits_ofEqAppend whole
    refine ⟨_, ?_, ⟨splits.ne_endPos_of_singleton, splits.next.get_eq_of_singleton⟩, ?_⟩
    · rw [splits.offset_eq_rawEndPos, String.byteIdx_rawEndPos]
    · rwa [splits.copy_sliceTo_eq, String.toList_ofList]

namespace Expression

variable {input rest : List Char} {name : String} {c : Char}

/-! ### What is read and what comes after it -/

/-- Of what follows a word only the first character matters. -/
theorem ReadsWord.undisturbed (reads : ReadsWord input name rest) :
    ∃ text, input = text ++ rest ∧
      ∀ other, other.head? = rest.head? → ReadsWord (text ++ other) name other := by
  obtain ⟨before, after, split, isWord, blankBefore, blankAfter, solid, ends⟩ :=
    readsWord_iff_exists.mp reads
  refine ⟨before ++ name.toList ++ after, split, fun other same => ?_⟩
  exact readsWord_iff_exists.mpr
    ⟨before, after, rfl, isWord, blankBefore, blankAfter, same ▸ solid, same ▸ ends⟩

mutual

-- Along the recursion of the readers. An application ends with its bracket, so that only a bare word
-- has to see what comes next.
theorem Reads.undisturbed {input rest : List Char} {expression : Expression}
    (reads : Reads input expression rest) :
    ∃ text, input = text ++ rest ∧
      ∀ other, (∀ name, expression = apply name [] → other.head? = rest.head?) →
        Reads (text ++ other) expression other := by
  obtain ⟨name, after, word, shape⟩ := reads_iff.mp reads
  have shorter := word.shorter
  obtain ⟨text, split, again⟩ := word.undisturbed
  rcases shape with ⟨inside, arguments, rfl, read, rfl⟩ | ⟨bare, rfl, rfl⟩
  · obtain ⟨texts, rfl, againInside⟩ := read.undisturbed
    refine ⟨text ++ '<' :: texts, by simp [split], fun other _ => reads_iff.mpr ?_⟩
    refine ⟨name, '<' :: (texts ++ other), ?_, .inl ⟨_, arguments, rfl, againInside other, rfl⟩⟩
    rw [List.append_assoc]
    exact again _ rfl
  · refine ⟨text, split, fun other same => reads_iff.mpr ?_⟩
    have same := same name rfl
    refine ⟨name, other, again other same, .inr ⟨?_, rfl, rfl⟩⟩
    rintro inside rfl
    obtain ⟨more, opening⟩ := List.head?_eq_some_iff.mp same.symm
    exact bare more opening
  termination_by 2 * input.length

theorem ReadsArguments.undisturbed {input rest : List Char} {arguments : List Expression}
    (reads : ReadsArguments input arguments rest) :
    ∃ text, input = text ++ rest ∧ ∀ other, ReadsArguments (text ++ other) arguments other := by
  obtain ⟨argument, after, first, sign⟩ := readsArguments_iff.mp reads
  have shorter := first.shorter
  obtain ⟨text, taken, again⟩ := first.undisturbed
  obtain ⟨spaces, split, blank⟩ := exists_append_skipSpace after
  rcases sign with ⟨more, others, comma, read, rfl⟩ | ⟨closing, rfl⟩
  · have fewer : more.length < after.length := by
      simpa [comma, Nat.succ_le_iff] using skipSpace_length after
    obtain ⟨texts, rfl, againMore⟩ := read.undisturbed
    rw [comma] at split
    subst split
    refine ⟨text ++ (spaces ++ ',' :: texts), by simp [taken], fun other => ?_⟩
    have first := again (spaces ++ ',' :: (texts ++ other)) fun _ _ => by simp [List.head?_append]
    refine readsArguments_iff.mpr
      ⟨argument, _, by simpa using first, .inl ⟨texts ++ other, others, ?_, againMore other, rfl⟩⟩
    exact (skipSpace_append blank _).trans (skipSpace_cons rfl _)
  · rw [closing] at split
    subst split
    refine ⟨text ++ (spaces ++ ['>']), by simp [taken], fun other => ?_⟩
    have first := again (spaces ++ '>' :: other) fun _ _ => by simp [List.head?_append]
    refine readsArguments_iff.mpr ⟨argument, _, by simpa using first, .inr ⟨?_, rfl⟩⟩
    exact (skipSpace_append blank _).trans (skipSpace_cons rfl _)
  termination_by 2 * input.length + 1

end

theorem Reads.unique {expression other : Expression} {left : List Char}
    (reads : Reads input expression rest) (again : Reads input other left) : rest = left := by
  obtain ⟨after, given, rfl⟩ := reads
  obtain ⟨_, same, rfl⟩ := again
  cases given.symm.trans same
  rfl

/-! ### Faults of the readers -/

theorem readWord_eq_error {fault : Fault} (failed : readWord input = .error fault) :
    fault = .nameExpected := by
  unfold readWord at failed
  dsimp only at failed
  split at failed
  · exact (Except.error.inj failed).symm
  · cases failed

mutual

/-- While an expression is read, a name or a sign is missing; no character is unexpected. -/
theorem read_ne_unexpected (input : List Char) (c : Char) (offset : Nat) :
    read input ≠ .error (.unexpected c offset) := by
  intro failed
  rw [read] at failed
  split at failed
  · next fault word =>
      obtain rfl := readWord_eq_error word
      cases failed
  · next name after word =>
      have shorter := after.property
      dsimp only at failed
      split at failed
      · next inside opening =>
          have fewer : inside.length < after.val.length := by simp [opening]
          split at failed
          · next fault arguments =>
              obtain rfl := Except.error.inj failed
              exact readArguments_ne_unexpected inside c offset arguments
          · cases failed
      · cases failed
  termination_by 2 * input.length

theorem readArguments_ne_unexpected (input : List Char) (c : Char) (offset : Nat) :
    readArguments input ≠ .error (.unexpected c offset) := by
  intro failed
  rw [readArguments] at failed
  split at failed
  · next fault first =>
      obtain rfl := Except.error.inj failed
      exact read_ne_unexpected input c offset first
  · next argument after first =>
      have shorter := after.property
      have left := skipSpace_length after.val
      dsimp only at failed
      split at failed
      · next more sign =>
          have fewer : more.length < (skipSpace after.val).length := by simp [sign]
          split at failed
          · next fault others =>
              obtain rfl := Except.error.inj failed
              exact readArguments_ne_unexpected more c offset others
          · cases failed
      · cases failed
      · cases failed
  termination_by 2 * input.length + 1

end

theorem parse_eq_error_unexpected_iff {source : String} {offset : Nat} :
    parse source = .error (.unexpected c offset) ↔
      ∃ expression rest more, Reads source.toList expression rest ∧ skipSpace rest = c :: more ∧
        offset = offsetOf source (c :: more) := by
  unfold parse Reads
  cases taken : read source.toList with
  | error fault =>
      refine iff_of_false ?_ (by simp)
      rintro ⟨⟩
      exact read_ne_unexpected source.toList c offset taken
  | ok given =>
      obtain ⟨expression, left⟩ := given
      dsimp only
      split
      · next blank =>
          refine iff_of_false nofun ?_
          rintro ⟨_, _, more, ⟨_, ⟨⟩, rfl⟩, trailing, -⟩
          cases blank.symm.trans trailing
      · next other more trailing =>
          constructor
          · rintro ⟨⟩
            exact ⟨expression, left, more, ⟨left, rfl, rfl⟩, trailing, rfl⟩
          · rintro ⟨_, _, _, ⟨_, ⟨⟩, rfl⟩, again, rfl⟩
            obtain ⟨rfl, rfl⟩ := List.cons.inj (trailing.symm.trans again)
            rfl

theorem toList_message_unexpected (c : Char) (offset : Nat) :
    (Fault.unexpected c offset).message.toList =
      "unexpected '".toList ++ c :: ("' at ".toList ++ Nat.toDigits 10 offset) := by
  simp [Fault.message, ToString.toString]

/-- The message tells the character and the offset. -/
theorem Fault.message_eq_unexpected_iff {fault : Fault} {offset : Nat} :
    fault.message = (unexpected c offset).message ↔ fault = .unexpected c offset := by
  refine ⟨fun same => ?_, congrArg message⟩
  have same := congrArg String.toList same
  rw [toList_message_unexpected] at same
  cases fault with
  | nameExpected | separatorExpected => cases congrArg List.head? same
  | unexpected other place =>
      rw [toList_message_unexpected] at same
      obtain ⟨rfl, tail⟩ := List.cons.inj (List.append_cancel_left same)
      have digits := congrArg (Nat.ofDigitChars 10 · 0) (List.append_cancel_left tail)
      simp only [Nat.ofDigitChars_ten_toDigits] at digits
      rw [digits]

/-! ### What cannot go on -/

/-- Some expression is spelled by a text that starts like this. -/
def Viable (text : List Char) : Prop :=
  ∃ continuation expression, Spells expression (text ++ continuation)

theorem isWhiteSpace_of_skipSpace_eq_cons {more : List Char}
    (trailing : skipSpace rest = c :: more) : isWhiteSpace c = false := by
  have first : c ∈ (skipSpace rest).head? := congrArg List.head? trailing
  exact head?_dropWhile_eq_false c first

/-- Where the reader stops before the end, nothing that starts in the same way is spelled. -/
theorem Reads.exists_stuck {expression : Expression} {more : List Char}
    (reads : Reads input expression rest) (trailing : skipSpace rest = c :: more) :
    ∃ before, input = before ++ c :: more ∧ Spells expression before ∧
      ¬Viable (before ++ [c]) := by
  obtain ⟨spaces, split, blank⟩ := exists_append_skipSpace rest
  rw [trailing] at split
  subst split
  obtain ⟨text, taken, spells⟩ := reads.exists_spells
  obtain ⟨_, takenAgain, again⟩ := reads.undisturbed
  obtain rfl := List.append_cancel_right (taken.symm.trans takenAgain)
  refine ⟨text ++ spaces, by simp [taken], spells.append blank, ?_⟩
  rintro ⟨continuation, other, whole⟩
  obtain ⟨left, readsWhole, ended⟩ := whole.exists_reads_whole
  have stops : Reads (text ++ spaces ++ [c] ++ continuation) expression
      (spaces ++ c :: continuation) := by
    have same := again (spaces ++ c :: continuation) fun _ _ => by simp [List.head?_append]
    simpa using same
  rw [readsWhole.unique stops, skipSpace_append blank,
    skipSpace_cons (isWhiteSpace_of_skipSpace_eq_cons trailing)] at ended
  cases ended

/-- A word can go on with the bracket of arguments, and with a character of words if no white space
is between them. Anything else that is no white space stops the reader. -/
theorem Padded.reads_or_viable {before : List Char} (padded : Padded name.toList before)
    (isWord : IsWord name.toList) (solid : isWhiteSpace c = false) (after : List Char) :
    Reads (before ++ c :: after) (apply name []) (c :: after) ∨ Viable (before ++ [c]) := by
  by_cases opens : c = '<'
  · subst opens
    have argument : Spells (apply name []) name.toList := .word isWord (.refl _)
    have applied : Spells (apply name [apply name []]) (before ++ ['<'] ++ name.toList ++ ['>']) :=
      .application isWord padded (.refl _) (.last argument) (.refl _)
    exact .inr ⟨name.toList ++ ['>'], _, by simpa using applied⟩
  · obtain ⟨spaces, tail, rfl, blankBefore, blankAfter⟩ := padded
    by_cases grows : tail = [] ∧ isWordChar c = true
    · obtain ⟨rfl, wordChar⟩ := grows
      have longer : IsWord (name.push c).toList := by
        rw [String.toList_push]
        exact ⟨by simp, List.forall_mem_append.mpr
          ⟨isWord.2, List.forall_mem_singleton.mpr (isWordChar_iff.mp wordChar)⟩⟩
      exact .inr ⟨[], _, .word longer ⟨spaces, [], by simp, blankBefore, List.forall_mem_nil _⟩⟩
    · refine .inl (reads_iff.mpr ⟨name, c :: after, ?_, .inr ⟨?_, rfl, rfl⟩⟩)
      · refine readsWord_iff_exists.mpr
          ⟨spaces, tail, rfl, isWord, blankBefore, blankAfter, ?_, ?_⟩
        · rintro _ ⟨⟩
          exact solid
        · rintro rfl _ ⟨⟩
          exact Bool.eq_false_iff.mpr fun wordChar => grows ⟨rfl, wordChar⟩
      · rintro inside ⟨⟩
        exact opens rfl

/-- After an expression the reader stops at what is no white space, or an expression goes on. -/
theorem Spells.reads_or_viable {expression : Expression} {before : List Char}
    (spells : Spells expression before) (solid : isWhiteSpace c = false) (after : List Char) :
    (∃ rest, Reads (before ++ c :: after) expression rest ∧ skipSpace rest = c :: after) ∨
      Viable (before ++ [c]) := by
  cases spells with
  | word isWord padded =>
      refine (padded.reads_or_viable isWord solid after).imp_left fun reads => ?_
      exact ⟨c :: after, reads, skipSpace_cons solid after⟩
  | application isWord padded opening inside closing =>
      obtain ⟨left, reads, ended⟩ :=
        (Spells.application isWord padded opening inside closing).exists_reads_whole
      obtain ⟨text, split, again⟩ := reads.undisturbed
      refine .inl ⟨left ++ c :: after, ?_, ?_⟩
      · rw [split, List.append_assoc]
        refine again _ fun name bare => ?_
        cases bare
        exact absurd rfl inside.ne_nil
      · rw [skipSpace_append (List.dropWhile_eq_nil_iff.mp ended)]
        exact skipSpace_cons solid after

/-! ### What is reported -/

theorem offsetOf_eq {source : String} {before rest : List Char}
    (split : source.toList = before ++ rest) :
    offsetOf source rest = (String.ofList before).utf8ByteSize := by
  obtain rfl : source = String.ofList before ++ String.ofList rest := by
    rw [← String.ofList_append, ← split, String.ofList_toList]
  rw [offsetOf, String.utf8ByteSize_append, Nat.add_sub_cancel]

/-- A character is unexpected where an expression ends and none goes on with the character. -/
theorem parse_eq_error_unexpected_iff_stuck {source : String} {offset : Nat} :
    parse source = .error (.unexpected c offset) ↔
      ∃ before after, source.toList = before ++ c :: after ∧
        (String.ofList before).utf8ByteSize = offset ∧ isWhiteSpace c = false ∧
        (∃ expression, Spells expression before) ∧ ¬Viable (before ++ [c]) := by
  rw [parse_eq_error_unexpected_iff]
  constructor
  · rintro ⟨expression, rest, more, reads, trailing, rfl⟩
    obtain ⟨before, split, spells, stuck⟩ := reads.exists_stuck trailing
    exact ⟨before, more, split, (offsetOf_eq split).symm,
      isWhiteSpace_of_skipSpace_eq_cons trailing, ⟨expression, spells⟩, stuck⟩
  · rintro ⟨before, after, split, rfl, solid, ⟨expression, spells⟩, stuck⟩
    obtain ⟨rest, reads, trailing⟩ := (spells.reads_or_viable solid after).resolve_right stuck
    exact ⟨expression, rest, after, split ▸ reads, trailing, (offsetOf_eq split).symm⟩

theorem viable_iff_exists_parse {text : String} : Viable (text.toList ++ [c]) ↔
    ∃ continuation expression,
      parse (text ++ String.singleton c ++ continuation) = .ok expression := by
  simp only [parse_eq_ok_iff_spells, String.toList_append, String.toList_singleton]
  constructor
  · rintro ⟨continuation, expression, spells⟩
    exact ⟨String.ofList continuation, expression, by rwa [String.toList_ofList]⟩
  · rintro ⟨continuation, expression, spells⟩
    exact ⟨continuation.toList, expression, spells⟩

/-- Reading a text breaks off at a character: what stands before it is an expression, and no
expression starts with that and the character. -/
structure BreaksOff (source : String) (position : source.Pos) (c : Char) : Prop where
  here : ∃ inside : position ≠ source.endPos, position.get inside = c
  solid : isWhiteSpace c = false
  accepted : ∃ expression, parse (source.sliceTo position).copy = .ok expression
  stuck : ∀ continuation expression,
    parse ((source.sliceTo position).copy ++ String.singleton c ++ continuation) ≠ .ok expression

theorem exists_breaksOff_iff {source : String} {offset : Nat} :
    (∃ position, position.offset.byteIdx = offset ∧ BreaksOff source position c) ↔
      ∃ before after, source.toList = before ++ c :: after ∧
        (String.ofList before).utf8ByteSize = offset ∧ isWhiteSpace c = false ∧
        (∃ expression, Spells expression before) ∧ ¬Viable (before ++ [c]) := by
  rw [← exists_pos_iff]
  refine exists_congr fun position => and_congr_right fun _ => ?_
  simp only [viable_iff_exists_parse, ← parse_eq_ok_iff_spells, not_exists]
  exact ⟨fun breaks => ⟨breaks.here, breaks.solid, breaks.accepted, breaks.stuck⟩,
    fun ⟨here, solid, accepted, stuck⟩ => ⟨here, solid, accepted, stuck⟩⟩

/-- A text is refused for an unexpected character exactly when reading it breaks off there. -/
theorem reports_unexpected_iff_breaksOff (source : String) (c : Char) (offset : Nat) :
    (∃ fault, parse source = .error fault ∧ fault.message = s!"unexpected '{c}' at {offset}") ↔
      ∃ position : source.Pos, position.offset.byteIdx = offset ∧ BreaksOff source position c := by
  have reported (fault : Fault) : fault.message = s!"unexpected '{c}' at {offset}" ↔
      fault = .unexpected c offset := Fault.message_eq_unexpected_iff
  simp only [reported, exists_eq_right]
  rw [parse_eq_error_unexpected_iff_stuck, exists_breaksOff_iff]

/-- The ideographic space before the character is one character of three bytes. -/
theorem reports_unexpected_after_ideographicSpace :
    (∃ fault, parse "a\u3000b" = .error fault ∧ fault.message = "unexpected 'b' at 4") ∧
      ∃ position : String.Pos "a\u3000b", position.offset.byteIdx = 4 ∧
        BreaksOff "a\u3000b" position 'b' := by
  have word : ReadsWord ['a', '\u3000', 'b'] "a" ['b'] := by
    refine readsWord_iff_exists.mpr ⟨[], ['\u3000'], rfl, by decide, List.forall_mem_nil _,
      List.forall_mem_singleton.mpr rfl, ?_, ?_⟩
    · rintro _ ⟨⟩
      rfl
    · rintro ⟨⟩
  have reads : Reads "a\u3000b".toList (apply "a" []) ['b'] :=
    reads_iff.mpr ⟨"a", ['b'], word, .inr ⟨by simp, rfl, rfl⟩⟩
  have refused : parse "a\u3000b" = .error (.unexpected 'b' 4) :=
    parse_eq_error_unexpected_iff.mpr ⟨_, _, [], reads, rfl, rfl⟩
  refine ⟨⟨_, refused, by decide⟩, ?_⟩
  exact (reports_unexpected_iff_breaksOff _ _ _).mp ⟨_, refused, rfl⟩

end Expression

end Tenancy
