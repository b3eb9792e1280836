import Mathlib.Data.List.TakeWhile
import TensorIR.Source.Scan

/-!
# Tokens cover their text

Scanning loses nothing. A text that has been scanned consists of the tokens, in their order, and of what stands
between them: spaces, tabs, carriage returns, line feeds, and comments up to the end of their line. Every token
knows the place of its first character, which is where what stands before it ends.

A step of the scanner looks at the beginning of a text. What it finds there takes up some characters, none of which
is a line feed unless the line feed is all that is found; so the place only moves along the line, and a line feed
begins a new one.

## Main definitions

* `Location.behind` — the place behind a text
* `Scan.Gap` — what may stand between tokens
* `Scan.Step.Stands` — what a step says of the text at which it is found
* `Scan.Cover` — a text consists of pieces, each of which ends in a token

## Main results

* `Scan.stands_of_step` — what a step of the scanner finds stands there
* `Scan.covers_tokensFrom` — so do all tokens, one after the other
* `Scan.exists_cover_of_tokens` — a text consists of its tokens and of what stands between them
-/

namespace TensorIR

/-! ### Places -/

namespace Location

/-- The place behind a text: the number of its line feeds, and the number of characters behind the last of them. -/
def behind (text : List Char) : Location :=
  ⟨text.count '\n', (text.reverse.takeWhile (· ≠ '\n')).length⟩

theorem behind_concat_newline (text : List Char) : behind (text ++ ['\n']) = ⟨(behind text).line + 1, 0⟩ := by
  simp [behind]

/-- On the same line the column counts the characters. -/
theorem behind_append {word : List Char} (unbroken : '\n' ∉ word) (text : List Char) :
    behind (text ++ word) = ⟨(behind text).line, (behind text).column + word.length⟩ := by
  have line : (text ++ word).count '\n' = text.count '\n' := by
    rw [List.count_append, List.count_eq_zero.mpr unbroken, Nat.add_zero]
  have column : (text ++ word).reverse.takeWhile (· ≠ '\n') = word.reverse ++ text.reverse.takeWhile (· ≠ '\n') := by
    rw [List.reverse_append, List.takeWhile_append_of_pos]
    intro c member
    exact decide_eq_true fun isBreak => unbroken (isBreak ▸ List.mem_reverse.mp member)
  rw [behind, line, column, List.length_append, List.length_reverse, Nat.add_comm]
  rfl

end Location

namespace Scan

open Location (behind)

/-! ### Characters on one line -/

/-- A text has so many characters at its beginning that are no line feeds. -/
def OnLine (count : Nat) (text : List Char) : Prop :=
  count ≤ text.length ∧ '\n' ∉ text.take count

section OnLine

variable {count later : Nat} {text rest : List Char} {c : Char}

theorem OnLine.zero (text : List Char) : OnLine 0 text :=
  ⟨Nat.zero_le _, by simp⟩

theorem OnLine.succ (distinct : c ≠ '\n') (onLine : OnLine count rest) : OnLine (count + 1) (c :: rest) :=
  ⟨Nat.succ_le_succ onLine.1, by simp [distinct.symm, onLine.2]⟩

theorem OnLine.add (first : OnLine count text) (second : OnLine later (text.drop count)) :
    OnLine (count + later) text := by
  obtain ⟨within, unbroken⟩ := first
  obtain ⟨withinToo, unbrokenToo⟩ := second
  rw [List.length_drop] at withinToo
  refine ⟨by omega, ?_⟩
  rw [List.take_add, List.mem_append]
  exact fun member => member.elim unbroken unbrokenToo

/-- Characters of a kind that a line feed is not of. -/
theorem onLine_takeWhile {kind : Char → Bool} (isNot : kind '\n' = false) (text : List Char) :
    OnLine (text.takeWhile kind).length text := by
  refine ⟨(List.takeWhile_prefix kind).length_le, fun member => ?_⟩
  rw [← List.prefix_iff_eq_take.mp (List.takeWhile_prefix kind)] at member
  have isOf := List.mem_takeWhile_imp member
  rw [isNot] at isOf
  cases isOf

theorem drop_length_takeWhile (kind : Char → Bool) (text : List Char) :
    text.drop (text.takeWhile kind).length = text.dropWhile kind := by
  induction text with
  | nil => rfl
  | cons c rest ih => by_cases isOf : kind c <;> simp [isOf, ih]

theorem onLine_digitsLength (text : List Char) : OnLine (digitsLength text) text :=
  onLine_takeWhile (by decide) text

theorem onLine_fractionLength (text : List Char) : OnLine (fractionLength text) text := by
  unfold fractionLength
  split
  case h_1 rest =>
    split
    · exact .zero _
    · exact .succ (by decide) (onLine_digitsLength rest)
  case h_2 => exact .zero _

theorem onLine_exponentLength (text : List Char) : OnLine (exponentLength text) text := by
  unfold exponentLength
  split
  case h_2 => exact .zero _
  case h_1 e rest =>
    by_cases isExponent : e ≠ 'e' ∧ e ≠ 'E'
    · rw [if_pos isExponent]
      exact .zero _
    rw [if_neg isExponent]
    have distinct : e ≠ '\n' := by
      rintro rfl
      exact isExponent (by decide)
    split
    case h_2 => exact .zero _
    case h_1 sign digits =>
      by_cases signed : sign = '+' ∨ sign = '-'
      · rw [if_pos signed]
        have distinctToo : sign ≠ '\n' := by rcases signed with rfl | rfl <;> decide
        split
        · exact .zero _
        · exact .succ distinct (.succ distinctToo (onLine_digitsLength digits))
      · rw [if_neg signed]
        split
        · exact .zero _
        · exact .succ distinct (onLine_digitsLength (sign :: digits))

theorem onLine_stringLength (closed : stringLength? text = some count) : OnLine count text := by
  fun_induction stringLength? text generalizing count with
  | case1 | case3 | case4 | case5 => cases closed
  | case2 rest =>
    cases closed
    exact .succ (by decide) (.zero rest)
  | case6 c rest isNot ih =>
    obtain ⟨inner, closedLater, rfl⟩ := Option.map_eq_some_iff.mp closed
    exact .succ (by decide) (.succ isNot (ih closedLater))
  | case7 c rest _ isNot _ _ _ ih =>
    obtain ⟨inner, closedLater, rfl⟩ := Option.map_eq_some_iff.mp closed
    exact .succ isNot (ih closedLater)

/-- Characters on the same line move the place along it. -/
theorem OnLine.behind_append (onLine : OnLine count rest) (distinct : c ≠ '\n') (before : List Char) :
    behind (before ++ c :: rest.take count) = ⟨(behind before).line, (behind before).column + 1 + count⟩ := by
  have unbroken : '\n' ∉ c :: rest.take count := List.not_mem_cons_of_ne_of_not_mem (Ne.symm distinct) onLine.2
  rw [Location.behind_append unbroken, List.length_cons, List.length_take_of_le onLine.1, Nat.add_comm count,
    Nat.add_assoc]

end OnLine

/-! ### What a step finds -/

/-- What a step says of the text at which it is found. Behind a comment stands the end of its line. -/
def Step.Stands (c : Char) (rest : List Char) : Step → Prop
  | .blank => c = ' ' ∨ c = '\r' ∨ c = '\t'
  | .newline => c = '\n'
  | .comment extra => OnLine extra rest ∧ (∃ body, c :: rest.take extra = '/' :: '/' :: body) ∧
      ∀ d ∈ (rest.drop extra).head?, d = '\n'
  | .token kind extra => kind ≠ .eof ∧ c ≠ '\n' ∧ OnLine extra rest

theorem stands_sign {c : Char} {kind : TokenKind} (rest : List Char) (isSign : TokenKind.sign? c = some kind) :
    (Step.token kind 0).Stands c rest := by
  refine ⟨?_, ?_, .zero rest⟩
  all_goals
    unfold TokenKind.sign? at isSign
    split at isSign <;> cases isSign <;> decide

theorem stands_comment {c : Char} {rest : List Char} (slashes : c = '/' ∧ rest.head? = some '/') :
    (Step.comment (rest.takeWhile (· ≠ '\n')).length).Stands c rest := by
  obtain ⟨rfl, second⟩ := slashes
  obtain ⟨tail, rfl⟩ := List.head?_eq_some_iff.mp second
  refine ⟨onLine_takeWhile (by decide) _, ⟨tail.takeWhile (· ≠ '\n'), ?_⟩, fun d member => ?_⟩
  · rw [← List.prefix_iff_eq_take.mp (List.takeWhile_prefix _)]
    rfl
  · rw [drop_length_takeWhile, ← List.find?_not_eq_head?_dropWhile] at member
    simpa using List.find?_some member

theorem stands_minus {c : Char} (isNot : c ≠ '\n') (rest : List Char) :
    (if rest.head? = some '>' then Step.token .arrow 1 else .token .minus 0).Stands c rest := by
  split
  case isTrue arrow =>
    obtain ⟨tail, rfl⟩ := List.head?_eq_some_iff.mp arrow
    exact ⟨by decide, isNot, .succ (by decide) (.zero tail)⟩
  case isFalse => exact ⟨by decide, isNot, .zero rest⟩

theorem stands_number {c : Char} (isDigit : c.isDigit = true) (rest : List Char) : (number rest).Stands c rest := by
  refine ⟨by split <;> decide, ?_, ?_⟩
  · rintro rfl
    revert isDigit
    decide
  · -- Digits, fraction and exponent each begin where the part before them ends.
    have whole := onLine_digitsLength rest
    have withFraction := whole.add (onLine_fractionLength _)
    exact withFraction.add (onLine_exponentLength _)

theorem stands_identifier {c : Char} {rest : List Char} {here : Step} (begins : beginsIdentifier c = true)
    (found : identifier c (rest.takeWhile continuesIdentifier) = .ok here) : here.Stands c rest := by
  unfold identifier at found
  split at found
  · cases found
  cases found
  refine ⟨?_, ?_, onLine_takeWhile (by decide) rest⟩
  · unfold identifierKind
    split <;> decide
  · rintro rfl
    revert begins
    decide

/-- What a step of the scanner finds stands there. -/
theorem stands_of_step {c : Char} {rest : List Char} {here : Step} (found : step c rest = .ok here) :
    here.Stands c rest := by
  -- The cases come in the order in which the scanner tries its tokens.
  unfold step at found
  split at found
  case h_1 kind isSign =>
    cases found
    exact stands_sign rest isSign
  split at found
  case isTrue isBlank =>
    cases found
    exact isBlank
  split at found
  case isTrue isBreak =>
    cases found
    exact isBreak
  rename_i isBreak
  split at found
  case isTrue slashes =>
    cases found
    exact stands_comment slashes
  split at found
  case isTrue =>
    cases found
    exact stands_minus isBreak rest
  split at found
  case isTrue =>
    split at found <;> cases found
    case h_1 extra closed => exact ⟨by decide, isBreak, onLine_stringLength closed⟩
  dsimp only at found
  split at found
  case isTrue =>
    cases found
    exact ⟨by decide, isBreak, onLine_takeWhile (by decide) rest⟩
  split at found
  case isTrue isDigit =>
    cases found
    exact stands_number isDigit rest
  split at found
  case isTrue begins => exact stands_identifier begins found
  case isFalse => cases found

/-! ### What stands between tokens -/

/-- What may stand between tokens. A comment goes on up to the end of its line. -/
inductive Gap : List Char → Prop
  | nil : Gap []
  | blank {c : Char} {rest : List Char} : c = ' ' ∨ c = '\t' ∨ c = '\r' ∨ c = '\n' → Gap rest → Gap (c :: rest)
  | comment {body rest : List Char} : '\n' ∉ body → Gap rest → Gap ('/' :: '/' :: (body ++ '\n' :: rest))

theorem Gap.of_newline {rest : List Char} (gap : Gap ('\n' :: rest)) : Gap rest := by
  cases gap
  assumption

/-- The tokens are those of the text, which stands behind another text: in front of each of them there is a gap, and
behind the last one there is what is a gap once its line is ended. -/
inductive Covers : List Char → List Char → List Token → Prop
  | done {before text : List Char} : Gap (text ++ ['\n']) → Covers before text [⟨.eof, "", behind (before ++ text)⟩]
  | token {before text gap word rest : List Char} {kind : TokenKind} {found : List Token} :
      text = gap ++ word ++ rest → Gap gap → kind ≠ .eof → word ≠ [] → '\n' ∉ word →
        Covers (before ++ gap ++ word) rest found →
          Covers before text (⟨kind, String.ofList word, behind (before ++ gap)⟩ :: found)

namespace Covers

variable {before text : List Char} {found : List Token}

theorem blank {c : Char} (isBlank : c = ' ' ∨ c = '\t' ∨ c = '\r' ∨ c = '\n')
    (covers : Covers (before ++ [c]) text found) : Covers before (c :: text) found := by
  cases covers with
  | done gap =>
    rw [List.append_assoc]
    exact .done (.blank isBlank gap)
  | token text_eq gap isToken nonempty unbroken later =>
    rw [List.append_assoc before] at later ⊢
    exact .token (congrArg (c :: ·) text_eq) (.blank isBlank gap) isToken nonempty unbroken later

/-- The gap behind a comment begins with the end of the line, since no token does. -/
theorem comment {body : List Char} (unbroken : '\n' ∉ body) (ends : ∀ d ∈ text.head?, d = '\n')
    (covers : Covers (before ++ '/' :: '/' :: body) text found) :
    Covers before ('/' :: '/' :: (body ++ text)) found := by
  cases covers with
  | done gap =>
    rw [List.append_assoc]
    refine .done ?_
    cases text with
    | nil =>
      rw [List.append_nil]
      exact .comment unbroken .nil
    | cons d text =>
      obtain rfl := ends d rfl
      rw [List.cons_append, List.cons_append, List.append_assoc]
      exact .comment unbroken gap.of_newline
  | @token _ _ gap word rest kind found text_eq isGap isToken nonempty wordUnbroken later =>
    cases gap with
    | nil =>
      -- Without a gap the token would begin with the line feed.
      obtain ⟨d, word, rfl⟩ := List.exists_cons_of_ne_nil nonempty
      obtain rfl := ends d (text_eq ▸ rfl)
      exact absurd List.mem_cons_self wordUnbroken
    | cons d gap =>
      obtain rfl := ends d (text_eq ▸ rfl)
      have regrouped : before ++ '/' :: '/' :: body ++ '\n' :: gap =
          before ++ '/' :: '/' :: (body ++ '\n' :: gap) := by simp
      rw [regrouped] at later ⊢
      exact .token (by simp [text_eq]) (.comment unbroken isGap.of_newline) isToken nonempty wordUnbroken later

end Covers

/-- The tokens that are found behind a text are those of the text that is scanned. -/
theorem covers_tokensFrom {location : Location} {text : List Char} {found : List Token}
    (scans : tokensFrom location text = .ok found) {before : List Char} (here : location = behind before) :
    Covers before text found := by
  -- The invariant is `here`: whatever a step takes up moves the place as far as the text in front of what is left.
  fun_induction tokensFrom location text generalizing found before with
  | case1 location =>
    cases scans
    have ending : location = behind (before ++ []) := by rw [here, List.append_nil]
    rw [ending]
    exact .done (.blank (by decide) .nil)
  | case2 => cases scans
  | case3 location c rest isFound ih =>
    have blank : c = ' ' ∨ c = '\r' ∨ c = '\t' := stands_of_step isFound
    have unbroken : '\n' ∉ [c] := by rcases blank with rfl | rfl | rfl <;> decide
    refine .blank (by grind) (ih scans ?_)
    rw [Location.behind_append unbroken, here]
    rfl
  | case4 location c rest isFound ih =>
    obtain rfl : c = '\n' := stands_of_step isFound
    refine .blank (by decide) (ih scans ?_)
    rw [Location.behind_concat_newline, here]
  | case5 location c rest extra isFound ih =>
    obtain ⟨onLine, ⟨body, slashes⟩, ends⟩ := stands_of_step isFound
    obtain ⟨rfl, inside⟩ := List.cons.inj slashes
    have unbroken : '\n' ∉ body := fun member => onLine.2 (inside ▸ List.mem_cons_of_mem _ member)
    have whole : '/' :: rest = '/' :: '/' :: (body ++ rest.drop extra) := by
      rw [← List.cons_append, ← inside, List.take_append_drop]
    rw [whole]
    refine .comment unbroken ends (ih scans ?_)
    rw [← inside, onLine.behind_append (by decide), here]
  | case6 location c rest kind extra isFound token =>
    rename_i ih
    obtain ⟨isToken, isNot, onLine⟩ := stands_of_step isFound
    rcases later : tokensFrom ⟨location.line, location.column + 1 + extra⟩ (rest.drop extra) with _ | others
    · rw [later] at scans
      cases scans
    rw [later] at scans
    cases scans
    have covers : Covers (before ++ [] ++ c :: rest.take extra) (rest.drop extra) others := by
      refine ih later ?_
      rw [List.append_nil, onLine.behind_append isNot, here]
    have unbroken : '\n' ∉ c :: rest.take extra :=
      List.not_mem_cons_of_ne_of_not_mem (Ne.symm isNot) onLine.2
    have begins : token = ⟨kind, String.ofList (c :: rest.take extra), behind (before ++ [])⟩ := by
      rw [List.append_nil, ← here]
    rw [begins]
    exact .token (by simp) .nil isToken (List.cons_ne_nil _ _) unbroken covers

/-! ### The text in pieces -/

/-- A token with the gap in front of it. -/
structure Piece where
  gap : List Char
  token : Token

/-- The characters of a piece. -/
def Piece.text (piece : Piece) : List Char :=
  piece.gap ++ piece.token.lexeme.toList

/-- A text that stands behind another one consists of pieces, each with one of the tokens, and of what is left
behind the last of them, where the end mark stands. -/
structure Cover (before text : List Char) (found : List Token) (pieces : List Piece) (last : List Char) : Prop where
  text_eq : text = pieces.flatMap Piece.text ++ last
  found_eq : found = pieces.map Piece.token ++ [⟨.eof, "", behind (before ++ text)⟩]
  gaps : ∀ piece ∈ pieces, Gap piece.gap
  /-- What is left is a gap whose last line need not be ended. -/
  last_gap : Gap (last ++ ['\n'])
  words : ∀ piece ∈ pieces, piece.token.kind ≠ .eof ∧ piece.token.lexeme ≠ "" ∧ '\n' ∉ piece.token.lexeme.toList
  /-- A token stands where the pieces before it and its own gap end. -/
  places : ∀ front piece back, pieces = front ++ piece :: back →
    piece.token.location = behind (before ++ front.flatMap Piece.text ++ piece.gap)

theorem Covers.exists_cover {before text : List Char} {found : List Token} (covers : Covers before text found) :
    ∃ pieces last, Cover before text found pieces last := by
  induction covers with
  | @done before text gap =>
    exact ⟨[], text, rfl, rfl, by simp, gap, by simp, by simp⟩
  | @token before text gap word rest kind found text_eq isGap isToken nonempty unbroken later ih =>
    obtain ⟨pieces, last, cover⟩ := ih
    let first : Piece := ⟨gap, ⟨kind, String.ofList word, behind (before ++ gap)⟩⟩
    have first_text : first.text = gap ++ word := by simp [first, Piece.text]
    have rest_eq := cover.text_eq
    refine ⟨first :: pieces, last, ?_, ?_, ?_, cover.last_gap, ?_, ?_⟩
    · rw [List.flatMap_cons, first_text, text_eq, rest_eq, List.append_assoc (gap ++ word)]
    · have whole : before ++ gap ++ word ++ rest = before ++ text := by simp [text_eq]
      rw [cover.found_eq, whole]
      rfl
    · exact List.forall_mem_cons.mpr ⟨isGap, cover.gaps⟩
    · exact List.forall_mem_cons.mpr ⟨⟨isToken, by simpa [first] using nonempty, by simpa [first] using unbroken⟩,
        cover.words⟩
    · intro front piece back split
      -- Either it is the first piece, or the first piece is among those in front of it.
      cases front with
      | nil =>
        obtain ⟨rfl, -⟩ := List.cons.inj split
        rw [List.flatMap_nil, List.append_nil]
      | cons _ front =>
        obtain ⟨rfl, behindFirst⟩ := List.cons.inj split
        rw [cover.places front piece back behindFirst, List.flatMap_cons, first_text]
        simp only [List.append_assoc]

/-- A text that has been scanned consists of its tokens, in their order and each on one line, and of what stands
between them. Every token has the place of its first character, and the end mark has the place behind the text. -/
theorem exists_cover_of_tokens {source : String} {found : List Token} (scans : tokens source = .ok found) :
    ∃ pieces last, Cover [] source.toList found pieces last :=
  (covers_tokensFrom scans rfl).exists_cover

/-- Comments before and behind, and between them a string with a quote in it and a number with an exponent. -/
def commented : String := "// note\n%0 = \"a\\\"b\" 1.5e-3\t->x // end"

/-- The tokens of the commented text. -/
def commentedTokens : List Token :=
  [⟨.percentIdentifier, "%0", ⟨1, 0⟩⟩, ⟨.equal, "=", ⟨1, 3⟩⟩, ⟨.string, "\"a\\\"b\"", ⟨1, 5⟩⟩,
    ⟨.floatLiteral, "1.5e-3", ⟨1, 12⟩⟩, ⟨.arrow, "->", ⟨1, 19⟩⟩, ⟨.bareIdentifier, "x", ⟨1, 21⟩⟩,
    ⟨.eof, "", ⟨1, 29⟩⟩]

theorem exists_cover_commented : tokens commented = .ok commentedTokens ∧
    ∃ pieces last, Cover [] commented.toList commentedTokens pieces last := by
  have scans : tokens commented = .ok commentedTokens := by decide +kernel
  exact ⟨scans, exists_cover_of_tokens scans⟩

end Scan

end TensorIR
