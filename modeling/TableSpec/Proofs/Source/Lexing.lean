import TableSpec.Proofs.Source.StringLiteral

/-!
# `Proofs.Source.Lexing` — printed tokens read back

The lexer takes the text of a tree back into the tokens that it was spelled from. A word or a string ends where
something begins that neither continues it nor is a quote; so the text of a tree is read back in front of any
such text, inside of any number of brackets.

## Contents
- `Lexes`, `Lexes.run`: several steps of the lexer in front of a text.
- `Loose`, `lexes_word`: words, and what may follow one. `lexes_bracket`, `lexes_quoted`: marks and strings.
- `Lexable`: tokens that are read back, and how they compose (`Lexable.append`, `lexable_joined`,
  `lexable_between`).
- `lexable_tokens`, `lexemes?_print`: trees and files.
-/

namespace TableSpec
namespace Source

/-! ## Steps -/

/-- In front of `rest` the lexer reads the given text as the given lexemes, going from one state to another.
    Every step takes at least one character, and none is the character with code 0. -/
inductive Lexes (rest : List Char) : Lexer.State → List Char → List Lexeme → Lexer.State → Prop where
  | done (s : Lexer.State) : Lexes rest s [] [] s
  | step {s s' s'' : Lexer.State} {used more : List Char} {lexemes after : List Lexeme} (hused : used ≠ [])
      (hsound : ∀ c ∈ used, c.toNat ≠ 0)
      (hstep : Lexer.step s (used ++ (more ++ rest)) = some (lexemes, s', more ++ rest))
      (hmore : Lexes rest s' more after s'') : Lexes rest s (used ++ more) (lexemes ++ after) s''

namespace Lexes

variable {rest text more : List Char} {s s' s'' : Lexer.State} {lexemes after : List Lexeme}

/-- One step of the lexer that takes all of the text. -/
theorem single (hused : text ≠ []) (hsound : ∀ c ∈ text, c.toNat ≠ 0)
    (hstep : Lexer.step s (text ++ rest) = some (lexemes, s', rest)) : Lexes rest s text lexemes s' := by
  have h := @Lexes.step rest s s' s' text [] lexemes [] hused hsound hstep (.done s')
  rwa [List.append_nil, List.append_nil] at h

theorem char {c : Char} (hc : c.toNat ≠ 0)
    (hstep : Lexer.step s (c :: rest) = some (lexemes, s', rest)) : Lexes rest s [c] lexemes s' := by
  apply single (List.cons_ne_nil c []) _ hstep
  intro d hd
  rw [List.mem_singleton.mp hd]
  exact hc

/-- Texts that are read one behind the other are read together. -/
theorem append (first : Lexes (more ++ rest) s text lexemes s') (second : Lexes rest s' more after s'') :
    Lexes rest s (text ++ more) (lexemes ++ after) s'' := by
  induction first with
  | done s => exact second
  | step hused hsound hstep _ ih =>
    rw [List.append_assoc, List.append_assoc]
    rw [← List.append_assoc] at hstep
    exact .step hused hsound (by simpa using hstep) (ih second)

/-- A text that is read holds no character with code 0, which the lexer refuses wherever it stands. -/
theorem sound (h : Lexes rest s text lexemes s') : ∀ c ∈ text, c.toNat ≠ 0 := by
  induction h with
  | done s => simp
  | step _ hsound _ _ ih =>
    intro c hc
    rcases List.mem_append.mp hc with hc | hc
    · exact hsound c hc
    · exact ih c hc

/-- The steps to the end of the text are those that the lexer makes. -/
theorem run (h : Lexes [] s text lexemes s') {fuel : Nat} (hfuel : text.length < fuel) :
    Lexer.run fuel s text = some (lexemes ++ [s'.emit .finish]) := by
  induction h generalizing fuel with
  | done s =>
    obtain ⟨k, rfl⟩ : ∃ k, fuel = k + 1 := Nat.exists_eq_add_one.mpr hfuel
    rfl
  | @step s s' s'' used more lexemes after hused _ hstep _ ih =>
    obtain ⟨k, rfl⟩ : ∃ k, fuel = k + 1 := Nat.exists_eq_add_one.mpr (Nat.lt_of_le_of_lt (Nat.zero_le _) hfuel)
    have hpos : 0 < used.length := List.length_pos_iff.mpr hused
    have hnonempty : (used ++ more).isEmpty = false := by
      cases used with
      | nil => exact absurd rfl hused
      | cons c cs => rfl
    rw [List.length_append] at hfuel
    rw [List.append_nil] at hstep
    rw [Lexer.run, hstep]
    simp only [hnonempty, Bool.false_eq_true, if_false]
    rw [ih (by omega), Option.map_some, List.append_assoc]

end Lexes

/-- The lexer inside of `n` brackets, with no joint pending. -/
def inside (n : Nat) : Lexer.State := ⟨List.replicate n .bracket, 0⟩

/-- A whole text is read when it is read up to its end. -/
theorem lexemes?_of_lexes {text : List Char} {lexemes : List Lexeme}
    (h : Lexes [] (inside 0) text lexemes (inside 0)) : lexemes? text = some (lexemes ++ [⟨0, .finish⟩]) := by
  have hsound : text.any (fun c => c.toNat == 0) = false := by
    simpa using h.sound
  rw [lexemes?, hsound, if_neg Bool.false_ne_true]
  exact h.run (Nat.lt_succ_self _)

/-! ## Words -/

/-- The characters that may follow a word or a string: they neither continue the word nor are a quote. -/
def isLoose (c : Char) : Bool := !Identifier.isContinue c && !isQuote c

/-- Text that may follow a word or a string. -/
def Loose (rest : List Char) : Prop := ∀ c, rest.head? = some c → isLoose c = true

/-- A loose character neither continues a word nor makes it the prefix of a string. -/
theorem not_of_isLoose {c : Char} (h : isLoose c = true) :
    Identifier.isContinue c = false ∧ isQuote c = false := by
  simpa [isLoose] using h

theorem loose_cons {c : Char} (hc : isLoose c = true) (cs : List Char) : Loose (c :: cs) := by
  intro d hd
  cases hd
  exact hc

/-- No quote follows, so the word in front is no prefix of a string. -/
theorem head?_isQuote_of_loose {rest : List Char} (h : Loose rest) : rest.head?.any isQuote = false := by
  cases rest with
  | nil => rfl
  | cons c cs => simpa using (not_of_isLoose (h c rfl)).2

/-- Letters, digits and the underscore are ASCII. -/
theorem toNat_lt_of_isWordChar {c : Char} (h : (c.isAlphanum || c == '_') = true) : c.toNat < 128 := by
  rcases Bool.or_eq_true_iff.mp h with h | h
  · change (decide (c.val ≥ 'A'.val ∧ c.val ≤ 'Z'.val) ||
      (decide (c.val ≥ 'a'.val) && decide (c.val ≤ 'z'.val)) ||
      (decide (c.val ≥ '0'.val) && decide (c.val ≤ '9'.val))) = true at h
    simp only [Bool.or_eq_true, Bool.and_eq_true, decide_eq_true_eq, UInt32.le_iff_toNat_le, ge_iff_le] at h
    have hcode : c.toNat = c.val.toNat := rfl
    have hupper : 'Z'.val.toNat = 90 := rfl
    have hlower : 'z'.val.toNat = 122 := rfl
    have hdigit : '9'.val.toNat = 57 := rfl
    omega
  · rw [eq_of_beq h]
    decide

/-- Words of ASCII characters are words of the lexer, which takes more than these. -/
theorem isContinue_of_isWordChar {c : Char} (h : (c.isAlphanum || c == '_') = true) :
    Identifier.isContinue c = true := by
  rw [Identifier.isContinue_ascii (toNat_lt_of_isWordChar h)]
  rw [Char.isAlphanum, Bool.or_right_comm] at h
  exact h

/-- What the lexer asks of a character before it takes it as the beginning of a word. -/
def BeginsWord (c : Char) : Prop :=
  c ≠ '\n' ∧ Lexer.isBlank c = false ∧ c ≠ '#' ∧ c ≠ '\\' ∧ isQuote c = false ∧ c.isDigit = false ∧ c ≠ '.' ∧
    Identifier.isStart c = true

instance (c : Char) : Decidable (BeginsWord c) := inferInstanceAs (Decidable (_ ∧ _))

theorem beginsWord_ofNat : ∀ n, n < 128 → ((Char.ofNat n).isAlpha || Char.ofNat n == '_') = true →
    BeginsWord (Char.ofNat n) := by
  decide

/-- A letter or an underscore begins a word and nothing else. -/
theorem beginsWord {c : Char} (h : (c.isAlpha || c == '_') = true) : BeginsWord c := by
  have hchar : (c.isAlphanum || c == '_') = true := by
    rw [Char.isAlphanum, Bool.or_right_comm, h, Bool.true_or]
  have hcode := beginsWord_ofNat c.toNat (toNat_lt_of_isWordChar hchar)
  rw [Char.ofNat_toNat] at hcode
  exact hcode h

theorem isWord_cons {c : Char} {cs : List Char} (h : isWord (c :: cs) = true) :
    (c.isAlpha || c == '_') = true ∧ ∀ d ∈ c :: cs, (d.isAlphanum || d == '_') = true := by
  unfold isWord at h
  obtain ⟨hhead, hall⟩ := Bool.and_eq_true_iff.mp h
  exact ⟨hhead, List.all_eq_true.mp hall⟩

/-- A word ends where something loose follows. -/
theorem takeName_append {word rest : List Char} (h : isWord word = true) (hrest : Loose rest) :
    Lexer.takeName (word ++ rest) = (word, rest) := by
  have hword : ∀ c ∈ word, Identifier.isContinue c = true := by
    intro d hd
    cases word with
    | nil => cases hd
    | cons c cs => exact isContinue_of_isWordChar ((isWord_cons h).2 d hd)
  have htake : rest.takeWhile Identifier.isContinue = [] := by
    cases rest with
    | nil => rfl
    | cons c cs => rw [List.takeWhile_cons, if_neg (by simp [(not_of_isLoose (hrest c rfl)).1])]
  have hdrop : rest.dropWhile Identifier.isContinue = rest := by
    cases rest with
    | nil => rfl
    | cons c cs => rw [List.dropWhile_cons, if_neg (by simp [(not_of_isLoose (hrest c rfl)).1])]
  rw [Lexer.takeName, List.takeWhile_append_of_pos hword, List.dropWhile_append_of_pos hword, htake, hdrop,
    List.append_nil]

/-- The step that reads a word: nothing but the word goes, in whichever state the lexer is. -/
theorem step_word {word rest : List Char} (h : isWord word = true) (hrest : Loose rest) (s : Lexer.State) :
    Lexer.step s (word ++ rest) =
      some ([s.emit (Lexer.wordToken (String.ofList word))], { s with joints := 0 }, rest) := by
  cases word with
  | nil => exact absurd h (by decide)
  | cons c cs =>
    have htake := takeName_append h hrest
    obtain ⟨hline, hblank, hcomment, hslash, hquote, hdigit, hpoint, hstart⟩ :=
      beginsWord (isWord_cons h).1
    rw [List.cons_append] at htake ⊢
    unfold Lexer.step
    simp only [hline, hblank, hcomment, hslash, hquote, hdigit, hpoint, hstart, htake,
      head?_isQuote_of_loose hrest, Bool.and_false, Bool.false_eq_true, if_false, if_true, Bool.or_self,
      decide_false, Bool.false_and]

/-- A word is read between brackets, and gives the token of its spelling. -/
theorem lexes_word {word rest : List Char} (h : isWord word = true) (hrest : Loose rest) (n : Nat) :
    Lexes rest (inside n) word [⟨0, Lexer.wordToken (String.ofList word)⟩] (inside n) := by
  cases word with
  | nil => exact absurd h (by decide)
  | cons c cs =>
    have hsound : ∀ d ∈ c :: cs, d.toNat ≠ 0 := by
      intro d hd hzero
      have hchar := (isWord_cons h).2 d hd
      rw [← Char.ofNat_toNat d, hzero] at hchar
      exact absurd hchar (by decide)
    exact .single (List.cons_ne_nil c cs) hsound (step_word h hrest (inside n))

/-! ## Marks and strings -/

theorem lexes_blank (rest : List Char) (s : Lexer.State) : Lexes rest s [' '] [] s :=
  .char (by decide) rfl

/-- The two kinds of brackets that a tree is written with. -/
def IsBracket (opening closing : String) : Prop :=
  (opening = "(" ∧ closing = ")") ∨ (opening = "[" ∧ closing = "]")

/-- An opening bracket puts the lexer inside, and the closing one puts it outside again. -/
theorem lexes_bracket {opening closing : String} (h : IsBracket opening closing) (rest : List Char) (n : Nat) :
    Lexes rest (inside n) (spelling (.symbol opening)) [⟨0, .symbol opening⟩] (inside (n + 1)) ∧
      Lexes rest (inside (n + 1)) (spelling (.symbol closing)) [⟨0, .symbol closing⟩] (inside n) := by
  rcases h with ⟨rfl, rfl⟩ | ⟨rfl, rfl⟩
  · constructor
    · exact .char (by decide) rfl
    · exact .char (by decide) rfl
  · constructor
    · exact .char (by decide) rfl
    · exact .char (by decide) rfl

/-- The marks that are written with a blank behind them. -/
theorem lexes_spaced {mark : String} (hmark : mark = "," ∨ mark = ":") (rest : List Char) (n : Nat) :
    Lexes rest (inside n) (spelling (.symbol mark)) [⟨0, .symbol mark⟩] (inside n) := by
  have hread : Lexes ([' '] ++ rest) (inside n) mark.toList [⟨0, .symbol mark⟩] (inside n) := by
    rcases hmark with rfl | rfl
    · apply Lexes.char (by decide)
      cases n <;> rfl
    · apply Lexes.char (by decide)
      cases n <;> rfl
  have hspelling : spelling (.symbol mark) = mark.toList ++ [' '] := if_pos hmark
  rw [hspelling]
  exact hread.append (lexes_blank rest (inside n))

/-- Before another such sign the sign would be one half of a comparison. -/
theorem takeSymbol_equals {c : Char} (hc : c ≠ '=') (cs : List Char) :
    Lexer.takeSymbol ('=' :: c :: cs) = some ("=", c :: cs) := by
  have hne : '=' ≠ c := Ne.symm hc
  simp [Lexer.takeSymbol, Lexer.marks, hne]

/-- A sign of equality is read alone when there is not a second one, which would make a comparison. -/
theorem lexes_equals {c : Char} (hc : c ≠ '=') (cs : List Char) (n : Nat) :
    Lexes (c :: cs) (inside n) ['='] [⟨0, .symbol "="⟩] (inside n) := by
  apply Lexes.char (by decide)
  show Lexer.takeMark (inside n) ('=' :: c :: cs) = _
  rw [Lexer.takeMark, takeSymbol_equals hc]
  cases n <;> rfl

/-- A connective is spelled with a blank on either side, which leaves no token. -/
theorem lexes_connective (op : Connective) (rest : List Char) (n : Nat) :
    Lexes rest (inside n) (spelling (.keyword op.word)) [⟨0, .keyword op.word⟩] (inside n) := by
  have hword : isWord op.word.toList = true ∧ Lexer.wordToken op.word = .keyword op.word ∧
      spelling (.keyword op.word) = [' '] ++ (op.word.toList ++ [' ']) := by
    cases op <;> decide
  obtain ⟨hshape, htoken, hspelling⟩ := hword
  have hread := lexes_word hshape (loose_cons (c := ' ') (by decide) rest) n
  rw [String.ofList_toList, htoken] at hread
  rw [hspelling]
  exact (lexes_blank _ _).append (hread.append (lexes_blank rest (inside n)))

theorem ne_zero_of_isShown {c : Char} (h : isShown c = true) : c.toNat ≠ 0 := by
  intro hzero
  rw [isShown, hzero] at h
  exact absurd h (by decide)

/-- A string in quotes is read as its value. -/
theorem lexes_quoted (value : String) {rest : List Char} (hrest : Loose rest) (n : Nat) :
    Lexes rest (inside n) (quoted value.toList) [⟨0, .str value⟩] (inside n) := by
  have hquote : rest.head? ≠ some '"' := by
    intro h
    exact absurd (hrest _ h) (by decide)
  have hsound : ∀ c ∈ quoted value.toList, c.toNat ≠ 0 := by
    intro c hc
    unfold quoted at hc
    rcases List.mem_cons.mp hc with rfl | hc
    · decide
    rcases List.mem_append.mp hc with hc | hc
    · obtain ⟨d, _, hd⟩ := List.mem_flatMap.mp hc
      exact ne_zero_of_isShown (isShown_of_writtenAs (writtenAs_escapedChar d) c hd)
    · rw [List.mem_singleton.mp hc]
      decide
  have hstep := takeString_quoted (inside n) value.toList hquote
  rw [String.ofList_toList] at hstep
  exact .single (List.cons_ne_nil _ _) hsound hstep

/-! ## Tokens that are read back -/

/-- The tokens are read back from their text, in front of any text that may follow a word. -/
def Lexable (ts : List Token) : Prop :=
  ∀ n rest, Loose rest → Lexes rest (inside n) (spell ts) (unjoined ts) (inside n)

/-- The text of the tokens may follow a word. -/
def MayFollow (ts : List Token) : Prop := ∀ rest, Loose rest → Loose (spell ts ++ rest)

theorem lexable_nil : Lexable [] := by
  intro n rest _
  exact .done (inside n)

/-- Tokens are read back together when the second ones may follow a word. -/
theorem Lexable.append {ts us : List Token} (hts : Lexable ts) (hus : Lexable us) (hfollow : MayFollow us) :
    Lexable (ts ++ us) := by
  intro n rest hrest
  rw [spell_append, unjoined_append]
  exact (hts n _ (hfollow rest hrest)).append (hus n rest hrest)

/-- A mark and what it stands before. -/
theorem Lexable.cons {t : Token} {ts : List Token}
    (ht : ∀ n rest, Lexes rest (inside n) (spelling t) [⟨0, t⟩] (inside n)) (hts : Lexable ts) :
    Lexable (t :: ts) := by
  intro n rest hrest
  rw [spell_cons, unjoined_cons]
  exact (ht n _).append (hts n rest hrest)

/-- Only the first character of the text decides what it may follow. -/
theorem mayFollow_cons {t : Token} (ht : (spelling t).head?.any isLoose = true) (ts : List Token) :
    MayFollow (t :: ts) := by
  intro rest _
  rw [spell_cons]
  cases hspelling : spelling t with
  | nil =>
    rw [hspelling] at ht
    exact absurd ht Bool.false_ne_true
  | cons c cs =>
    rw [hspelling] at ht
    exact loose_cons ht _

/-- A mark that may stand between two parts. -/
structure Separates (mark : Token) : Prop where
  lexes : ∀ n rest, Lexes rest (inside n) (spelling mark) [⟨0, mark⟩] (inside n)
  loose : (spelling mark).head?.any isLoose = true

theorem separates_comma : Separates (.symbol ",") where
  lexes n rest := lexes_spaced (.inl rfl) rest n
  loose := by decide

theorem separates_connective (op : Connective) : Separates (.keyword op.word) where
  lexes n rest := lexes_connective op rest n
  loose := by cases op <;> decide

/-- Parts that each have a mark in front of them. The induction is on the parts. -/
theorem lexable_flatMap {mark : Token} (hmark : Separates mark) {parts : List (List Token)}
    (hparts : ∀ part ∈ parts, Lexable part) :
    Lexable (parts.flatMap (mark :: ·)) ∧ MayFollow (parts.flatMap (mark :: ·)) := by
  induction parts with
  | nil => exact ⟨lexable_nil, fun rest hrest => hrest⟩
  | cons part more ih =>
    obtain ⟨hpart, hothers⟩ := List.forall_mem_cons.mp hparts
    obtain ⟨hmore, hfollow⟩ := ih hothers
    rw [List.flatMap_cons, List.cons_append]
    constructor
    · exact .cons hmark.lexes (hpart.append hmore hfollow)
    · exact mayFollow_cons hmark.loose _

/-- Parts with marks between them are a first part, and the others with a mark in front of each. -/
theorem lexable_joined {mark : Token} (hmark : Separates mark) {parts : List (List Token)}
    (hparts : ∀ part ∈ parts, Lexable part) : Lexable (joined mark parts) := by
  cases parts with
  | nil => exact lexable_nil
  | cons part more =>
    obtain ⟨hpart, hothers⟩ := List.forall_mem_cons.mp hparts
    obtain ⟨hmore, hfollow⟩ := lexable_flatMap hmark hothers
    exact hpart.append hmore hfollow

/-- A closing bracket may follow a word. -/
theorem loose_closing {opening closing : String} (h : IsBracket opening closing) (rest : List Char) :
    Loose (spell [.symbol closing] ++ rest) := by
  rcases h with ⟨-, rfl⟩ | ⟨-, rfl⟩
  · exact loose_cons (by decide) rest
  · exact loose_cons (by decide) rest

/-- Between brackets the lexer is one bracket deeper, and behind them where it was. -/
theorem lexable_between {opening closing : String} (hbracket : IsBracket opening closing) {ts : List Token}
    (h : Lexable ts) : Lexable (between opening closing ts) := by
  intro n rest _
  have hinner := h (n + 1) _ (loose_closing hbracket rest)
  have hopen := (lexes_bracket hbracket (spell (ts ++ [.symbol closing]) ++ rest) n).1
  have hclose := (lexes_bracket hbracket rest n).2
  rw [between, spell_cons, unjoined_cons, unjoined_append]
  apply hopen.append
  rw [spell_append]
  apply hinner.append
  simpa [spell, unjoined] using hclose

/-! ## Trees -/

/-- A token that is spelled as a word is read back, when the word stands for it. -/
theorem lexable_word {t : Token} (hword : isWord (spelling t) = true)
    (htoken : Lexer.wordToken (String.ofList (spelling t)) = t) : Lexable [t] := by
  intro n rest hrest
  have hread := lexes_word hword hrest n
  rw [htoken] at hread
  simpa [spell, unjoined] using hread

/-- A name is no keyword, so that its spelling stands for it. -/
theorem lexable_name {id : String} (hid : IsName id) : Lexable [.name id] := by
  have hordinary : Lexer.reserved.contains id = false := by
    have hnot : id ∉ Lexer.reserved := fun h => hid.ordinary (List.mem_append_right _ h)
    simpa using hnot
  have htoken : Lexer.wordToken (String.ofList id.toList) = .name id := by
    rw [String.ofList_toList, Lexer.wordToken, hordinary]
    rfl
  exact lexable_word (t := .name id) hid.word htoken

theorem lexable_constant (value : Constant) : Lexable [.keyword value.word] := by
  cases value <;> exact lexable_word (by decide) (by decide)

/-- A lambda has no parameters here, so that a colon follows the keyword. -/
theorem lexable_lambda {ts : List Token} (hts : Lexable ts) :
    Lexable (.keyword "lambda" :: .symbol ":" :: ts) := by
  have hword : Lexable [.keyword "lambda"] := lexable_word (by decide) (by decide)
  have hbody : Lexable (.symbol ":" :: ts) := .cons (fun n rest => lexes_spaced (.inr rfl) rest n) hts
  exact hword.append hbody (mayFollow_cons (by decide) ts)

/-- The characters that an expression may begin with. -/
def isOpening (c : Char) : Bool := c.isAlpha || c == '_' || c == '"' || c == '(' || c == '['

theorem ne_of_isOpening {c d : Char} (hc : isOpening c = true) (hd : isOpening d = false) : c ≠ d := by
  rintro rfl
  rw [hc] at hd
  cases hd

/-- A token that begins an expression is spelled with an opening character in front. -/
theorem exists_isOpening {t : Token} (h : Opens t) : ∃ c cs, spelling t = c :: cs ∧ isOpening c = true := by
  cases h with
  | @name id hid =>
    cases hchars : id.toList with
    | nil => exact absurd (hchars ▸ hid.word) (by decide)
    | cons c cs =>
      refine ⟨c, cs, hchars, ?_⟩
      have hhead := (isWord_cons (hchars ▸ hid.word)).1
      simp only [isOpening, hhead, Bool.true_or]
  | str value => exact ⟨'"', _, rfl, by decide⟩
  | constant value =>
    cases value with
    | true => exact ⟨'T', ['r', 'u', 'e'], by decide, by decide⟩
    | false => exact ⟨'F', ['a', 'l', 's', 'e'], by decide, by decide⟩
    | none => exact ⟨'N', ['o', 'n', 'e'], by decide, by decide⟩
  | lambda => exact ⟨'l', ['a', 'm', 'b', 'd', 'a'], by decide, by decide⟩
  | parenthesis => exact ⟨'(', [], by decide, by decide⟩
  | bracket => exact ⟨'[', [], by decide, by decide⟩

/-- The text of an expression begins with a character that cannot be taken for something else. -/
theorem exists_spell {node : Node} (h : Expression node) :
    ∃ c cs, spell (tokens node) = c :: cs ∧ isOpening c = true := by
  obtain ⟨t, ts, htokens, ht⟩ := exists_opens h
  obtain ⟨c, cs, hspelling, hc⟩ := exists_isOpening ht
  refine ⟨c, cs ++ spell ts, ?_, hc⟩
  rw [htokens, spell_cons, hspelling, List.cons_append]

/-- An argument with a keyword is read back like the one without, behind the name and the sign of equality. -/
theorem lexable_argument {a : Option String × Node} (hname : ∀ id, a.1 = some id → IsName id)
    (hnode : Expression a.2) (hvalue : Lexable (tokens a.2)) : Lexable (argumentTokens a) := by
  obtain ⟨keyword, node⟩ := a
  cases keyword with
  | none => exact hvalue
  | some id =>
    -- no expression begins with a sign that would make a comparison of the one before it
    have hequals : Lexable (.symbol "=" :: tokens node) := by
      intro n rest hrest
      obtain ⟨c, cs, hspell, hc⟩ := exists_spell hnode
      have hread := hvalue n rest hrest
      have hmark := lexes_equals (ne_of_isOpening hc (by decide : isOpening '=' = false)) (cs ++ rest) n
      rw [spell_cons, unjoined_cons]
      rw [← List.cons_append, ← hspell] at hmark
      exact hmark.append hread
    exact (lexable_name (hname id rfl)).append hequals (mayFollow_cons (by decide) _)

/-- An operand that is a chain itself is read back in its parentheses. -/
theorem lexable_operand {op : Connective} {node : Node} (h : Lexable (tokens node)) :
    Lexable (operandTokens op node) := by
  unfold operandTokens
  split
  · exact lexable_between (.inl ⟨rfl, rfl⟩) h
  · exact h

/-- The text of an expression is read back as its tokens. -/
theorem lexable_tokens {node : Node} (h : Expression node) : Lexable (tokens node) := by
  induction h with
  | @call callee args keywords _ _ hargs hnames hvalues ihcallee ihargs ihvalues =>
    have hparts : ∀ part ∈ (writtenArguments args keywords).map argumentTokens, Lexable part := by
      rw [List.forall_mem_map]
      apply forall_mem_writtenArguments
      · intro arg harg
        exact lexable_argument (by simp) (hargs arg harg) (ihargs arg harg)
      · intro kw hkw
        have hname : ∀ id, some kw.1 = some id → IsName id := by
          rintro id ⟨⟩
          exact hnames kw hkw
        exact lexable_argument hname (hvalues kw hkw) (ihvalues kw hkw)
    rw [tokens_call]
    exact ihcallee.append (lexable_between (.inl ⟨rfl, rfl⟩) (lexable_joined separates_comma hparts))
      (mayFollow_cons (by decide) _)
  | name hid => exact lexable_name hid
  | str value =>
    intro n rest hrest
    simpa [spell, unjoined, tokens, spelling] using lexes_quoted value hrest n
  | constant value => exact lexable_constant value
  | @list items _ ih =>
    have hparts : ∀ part ∈ items.map tokens, Lexable part := by
      rw [List.forall_mem_map]
      exact ih
    rw [tokens_list]
    exact lexable_between (.inr ⟨rfl, rfl⟩) (lexable_joined separates_comma hparts)
  | lambda _ ih => exact lexable_lambda ih
  | @chain op operands _ _ ih =>
    have hparts : ∀ part ∈ operands.map (operandTokens op), Lexable part := by
      rw [List.forall_mem_map]
      exact fun node hnode => lexable_operand (ih node hnode)
    rw [tokens_chain]
    exact lexable_joined (separates_connective op) hparts

/-! ## Files -/

/-- A line that begins with an opening character is not indented. -/
theorem indentation_of_isOpening {c : Char} (hc : isOpening c = true) (cs : List Char) :
    Lexer.indentation 0 (c :: cs) false = 0 := by
  have hline : c ≠ '\n' := ne_of_isOpening hc (by decide)
  have hblank : c ≠ ' ' := ne_of_isOpening hc (by decide)
  have htab : c ≠ '\t' := ne_of_isOpening hc (by decide)
  have hreturn : c ≠ '\r' := ne_of_isOpening hc (by decide)
  have hpage : c ≠ '\x0c' := ne_of_isOpening hc (by decide)
  have hcomment : c ≠ '#' := ne_of_isOpening hc (by decide)
  simp [Lexer.indentation, hline, hblank, htab, hreturn, hpage, hcomment]

/-- Statements begin where their lines begin. -/
theorem indentation_fileTokens {statements : List Node} (h : ∀ stmt ∈ statements, Expression stmt) :
    Lexer.indentation 0 (spell (fileTokens statements)) false = 0 := by
  cases statements with
  | nil => rfl
  | cons stmt more =>
    obtain ⟨c, cs, hspell, hc⟩ := exists_spell (h stmt List.mem_cons_self)
    rw [fileTokens, List.flatMap_cons, spell_append, spell_append, hspell]
    exact indentation_of_isOpening hc _

/-- The end of a line outside of brackets is a token, in front of a line that is not indented. -/
theorem lexes_newline {rest : List Char} (h : Lexer.indentation 0 rest false = 0) :
    Lexes rest (inside 0) ['\n'] [⟨0, .newline 0⟩] (inside 0) := by
  apply Lexes.char (by decide)
  have hstep : Lexer.step (inside 0) ('\n' :: rest) =
      some ([⟨0, .newline (Lexer.indentation 0 rest false)⟩], inside 0, rest) := rfl
  rw [hstep, h]

/-- The text of a file is read statement by statement, each at the beginning of its line. -/
theorem lexes_fileTokens {statements : List Node} (h : ∀ stmt ∈ statements, Expression stmt) :
    Lexes [] (inside 0) (spell (fileTokens statements)) (unjoined (fileTokens statements)) (inside 0) := by
  induction statements with
  | nil => exact .done _
  | cons stmt more ih =>
    obtain ⟨hexpression, hmore⟩ := List.forall_mem_cons.mp h
    have hnewline := lexes_newline (indentation_fileTokens hmore)
    have hstmt := lexable_tokens hexpression 0 ('\n' :: spell (fileTokens more)) (loose_cons (by decide) _)
    rw [fileTokens, List.flatMap_cons, List.append_assoc, spell_append, unjoined_append]
    rw [← List.append_nil (spell (fileTokens more))] at hstmt hnewline
    exact hstmt.append (hnewline.append (ih hmore))

/-- The text of a file is read back as its tokens. -/
theorem lexemes?_print {statements : List Node} (h : ∀ stmt ∈ statements, Expression stmt) :
    lexemes? (print statements).toList = some (unjoined (fileTokens statements ++ [.finish])) := by
  rw [print, String.toList_ofList, lexemes?_of_lexes (lexes_fileTokens h), unjoined_append]
  rfl

end Source
end TableSpec
