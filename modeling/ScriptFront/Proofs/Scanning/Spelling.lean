import ScriptFront.Proofs.Scanning.Characters
import ScriptFront.Proofs.Scanning.Gaps
import ScriptFront.Proofs.Scanning.Scans
import Mathlib.Data.List.TakeWhile

/-!
# Spelling tokens again

Each kind of token has its own form, and every token of a text has the form of its kind.  In the
other direction a token of the right form can be spelled: strings and character literals get their
quotes back, and all others are their lexemes.  A blank behind the spelling ends the token, so the
spellings of any tokens, with blanks and comments between them, are read as just these tokens.

**Results.**

* `Token.form_scan`: every token that is scanned has the form of its kind.
* `Token.scan_spell`: scanning the spelling of a token gives the token.
* `tokenize_respelled`: tokens that are spelled again are read again.
-/

namespace ScriptFront
namespace Token

/-- The characters of a word. -/
def isWord : List Char → Bool
  | [] => false
  | c :: cs => isWordStart c && cs.all isWordChar

/-- A character that is in no gap and starts no token of another kind. -/
structure Unclassified (c : Char) : Prop where
  not_blank : Text.isBlank c = false
  not_quote : c ≠ '\x22'
  not_apostrophe : c ≠ '\x27'
  not_mark : TokenKind.ofChar? c = none
  not_word : isWordStart c = false
  not_digit : Text.isDigit c = false

/-- The form of a token: what its text is, for its kind and literal type. -/
inductive Form : TokenKind → LiteralType → List Char → Prop
  | keyword {k : TokenKind} {text : List Char}
      (h : TokenKind.keyword? (String.ofList text) = some k) : Form k .none text
  | mark {k : TokenKind} {c : Char} (h : TokenKind.ofChar? c = some k) : Form k .none [c]
  | wideMark {k : TokenKind} {c d : Char} (h : TokenKind.ofPair? c d = some k) :
      Form k .none [c, d]
  | identifier {text : List Char} (hword : isWord text = true)
      (hkeyword : TokenKind.keyword? (String.ofList text) = none)
      (hbool : text ≠ "true".toList ∧ text ≠ "false".toList) : Form .identifier .none text
  | bool {text : List Char} (h : text = "true".toList ∨ text = "false".toList) :
      Form .literal .bool text
  | number {digits : List Char} (hne : digits ≠ []) (h : ∀ d ∈ digits, Text.isDigit d = true) :
      Form .literal .number digits
  | float {digits fraction : List Char} (hne : digits ≠ [])
      (h : ∀ d ∈ digits, Text.isDigit d = true)
      (hfraction : ∀ d ∈ fraction, Text.isDigit d = true) :
      Form .literal .float (digits ++ '.' :: fraction)
  | string {text : List Char} (h : ∀ c ∈ text, isStringChar c = true) : Form .literal .string text
  | char {text : List Char} (hlength : text.length ≤ 1)
      (h : ∀ c ∈ text, c ≠ '\x27' ∧ c ≠ '\n') : Form .literal .char text
  | invalid {c : Char} (h : Unclassified c) : Form .invalid .none [c]

/-- A token has the form of its kind. -/
def WellFormed (t : Token) : Prop :=
  Form t.kind t.lit t.lexeme.toList

/-- How a text of a literal type is written. -/
def spell : LiteralType → List Char → List Char
  | .string, text => '\x22' :: (text ++ ['\x22'])
  | .char, text => '\x27' :: (text ++ ['\x27'])
  | _, text => text

/-- How a token is written. -/
def spelling (t : Token) : List Char :=
  spell t.lit t.lexeme.toList

section Forms

theorem classifyWord_cases (text : List Char) (hword : isWord text = true) :
    Form (classifyWord (String.ofList text)).1 (classifyWord (String.ofList text)).2 text := by
  unfold classifyWord
  split
  · rename_i k hk
    exact .keyword hk
  · rename_i hkeyword
    have hofList {word : String} : String.ofList text = word ↔ text = word.toList := by
      constructor
      · rintro rfl
        exact String.toList_ofList.symm
      · rintro rfl
        exact String.ofList_toList
    split
    · rename_i hbool
      rw [hofList, hofList] at hbool
      exact .bool hbool
    · rename_i hbool
      rw [not_or, hofList, hofList] at hbool
      exact .identifier hword hkeyword hbool

theorem form_scanString (cs : List Char) :
    Form (scanString cs).kind (scanString cs).lit (scanString cs).text := by
  have hform : Form .literal .string (cs.takeWhile isStringChar) :=
    .string fun c hc => List.mem_takeWhile_imp hc
  simp only [scanString]
  split <;> exact hform

theorem form_scanChar (cs : List Char) :
    Form (scanChar cs).kind (scanChar cs).lit (scanChar cs).text := by
  have hempty : Form .literal .char [] := .char (Nat.zero_le 1) fun _ h => by cases h
  cases cs with
  | nil => exact hempty
  | cons c cs =>
    simp only [scanChar]
    split
    · exact hempty
    · split
      · exact hempty
      · rename_i hline hquote
        have hone : Form .literal .char [c] := by
          refine .char (Nat.le_refl 1) fun d hd => ?_
          obtain rfl := List.mem_singleton.mp hd
          exact ⟨hquote, hline⟩
        split <;> exact hone

theorem form_scanMark {k : TokenKind} {c : Char} (hk : TokenKind.ofChar? c = some k)
    (cs : List Char) :
    Form (scanMark k c cs).kind (scanMark k c cs).lit (scanMark k c cs).text := by
  cases cs with
  | nil => exact .mark hk
  | cons d cs =>
    simp only [scanMark]
    split
    · rename_i wide hwide
      exact .wideMark hwide
    · exact .mark hk

theorem form_scanWord {c : Char} (hc : isWordStart c = true) (cs : List Char) :
    Form (scanWord c cs).kind (scanWord c cs).lit (scanWord c cs).text := by
  have hword : isWord (c :: cs.takeWhile isWordChar) = true := by
    rw [isWord, hc, Bool.true_and, List.all_eq_true]
    exact fun d hd => List.mem_takeWhile_imp hd
  exact classifyWord_cases _ hword

theorem form_scanNumber {c : Char} (hc : Text.isDigit c = true) (cs : List Char) :
    Form (scanNumber c cs).kind (scanNumber c cs).lit (scanNumber c cs).text := by
  have hdigits : ∀ d ∈ c :: cs.takeWhile Text.isDigit, Text.isDigit d = true := by
    intro d hd
    rcases List.mem_cons.mp hd with rfl | hd
    · exact hc
    · exact List.mem_takeWhile_imp hd
  have hnumber : Form .literal .number (c :: cs.takeWhile Text.isDigit) :=
    .number (List.cons_ne_nil _ _) hdigits
  simp only [scanNumber]
  split
  · split
    · exact hnumber
    · exact .float (List.cons_ne_nil _ _) hdigits fun d hd => List.mem_takeWhile_imp hd
  · exact hnumber

/-- Whatever is scanned behind a gap has the form of its kind. -/
theorem form_scan {c : Char} (hc : Text.isBlank c = false) (cs : List Char) :
    Form (scan c cs).kind (scan c cs).lit (scan c cs).text := by
  unfold scan
  split
  · exact form_scanString cs
  · rename_i hquote
    split
    · exact form_scanChar cs
    · rename_i hapostrophe
      split
      · rename_i k hk
        exact form_scanMark hk cs
      · rename_i hmark
        split
        · rename_i hword
          exact form_scanWord hword cs
        · rename_i hword
          split
          · rename_i hdigit
            exact form_scanNumber hdigit cs
          · rename_i hdigit
            exact .invalid ⟨hc, hquote, hapostrophe, hmark, Bool.eq_false_iff.mpr hword,
              Bool.eq_false_iff.mpr hdigit⟩

end Forms

section Spellings

variable {k : TokenKind} {lit : LiteralType} {text rest : List Char}

/-- A text is scanned as one token in front of others. -/
def ReadsAs (k : TokenKind) (lit : LiteralType) (text rest : List Char) : Prop :=
  ∃ c cs, spell lit text ++ rest = c :: cs ∧ StartsToken c cs ∧
    scan c cs = ⟨k, text, lit, spell lit text, rest⟩

/-- A token ends at a blank, or with the text. -/
def EndsToken (rest : List Char) : Prop :=
  ∀ d ∈ rest.head?, Text.isBlank d = true

theorem takeWhile_append_stop {p : Char → Bool} {run rest : List Char}
    (hrun : ∀ c ∈ run, p c = true) (hrest : ∀ d ∈ rest.head?, p d = false) :
    (run ++ rest).takeWhile p = run ∧ (run ++ rest).dropWhile p = rest := by
  rw [List.takeWhile_append_of_pos hrun, List.dropWhile_append_of_pos hrun]
  cases rest with
  | nil => exact ⟨List.append_nil run, rfl⟩
  | cons d rest =>
    have hd : ¬ p d = true := Bool.eq_false_iff.mp (hrest d rfl)
    rw [List.takeWhile_cons_of_neg hd, List.dropWhile_cons_of_neg hd]
    exact ⟨List.append_nil run, rfl⟩

/-- A run of characters in front of one that does not belong to it. -/
theorem takeWhile_append_cons {p : Char → Bool} {run : List Char} {d : Char}
    (hrun : ∀ c ∈ run, p c = true) (hd : p d = false) (rest : List Char) :
    (run ++ d :: rest).takeWhile p = run ∧ (run ++ d :: rest).dropWhile p = d :: rest := by
  refine takeWhile_append_stop hrun fun e he => ?_
  obtain rfl : d = e := Option.some.inj he
  exact hd

theorem startsToken_of_ne {c : Char} {cs : List Char} (hblank : Text.isBlank c = false)
    (hslash : c ≠ '/') : StartsToken c cs :=
  ⟨hblank, fun h => hslash h.1⟩

theorem startsToken_of_class {c : Char} {cs : List Char}
    (h : isWordStart c = true ∨ Text.isDigit c = true) : StartsToken c cs := by
  obtain ⟨_, _, hslash⟩ := ne_quotes_of_class h
  refine startsToken_of_ne ?_ hslash
  rcases h with hword | hdigit
  · exact isBlank_of_isWordStart hword
  · exact Text.isBlank_of_isDigit hdigit

/-- A word in front of a blank is scanned as a whole. -/
theorem readsAs_word (hword : isWord text = true) (hrest : EndsToken rest)
    (hclass : classifyWord (String.ofList text) = (k, lit)) (hspell : spell lit text = text) :
    ReadsAs k lit text rest := by
  cases text with
  | nil => cases hword
  | cons c cs =>
    rw [isWord, Bool.and_eq_true, List.all_eq_true] at hword
    obtain ⟨hc, hcs⟩ := hword
    obtain ⟨htake, hdrop⟩ := takeWhile_append_stop hcs fun d hd =>
      isWordChar_of_isBlank (hrest d hd)
    refine ⟨c, cs ++ rest, ?_, startsToken_of_class (.inl hc), ?_⟩
    · rw [hspell, List.cons_append]
    · simp only [scan_of_isWordStart hc, scanWord, htake, hdrop, hclass, hspell, Scan.plain]

theorem isWord_of_keyword? {word : String} (h : TokenKind.keyword? word = some k) :
    isWord word.toList = true := by
  unfold TokenKind.keyword? at h
  split at h <;> first | decide | cases h

theorem readsAs_keyword (h : TokenKind.keyword? (String.ofList text) = some k)
    (hrest : EndsToken rest) : ReadsAs k .none text rest := by
  have hword := isWord_of_keyword? h
  rw [String.toList_ofList] at hword
  refine readsAs_word hword hrest ?_ rfl
  rw [classifyWord, h]

theorem readsAs_identifier (hword : isWord text = true)
    (hkeyword : TokenKind.keyword? (String.ofList text) = none)
    (hbool : text ≠ "true".toList ∧ text ≠ "false".toList) (hrest : EndsToken rest) :
    ReadsAs .identifier .none text rest := by
  refine readsAs_word hword hrest ?_ rfl
  rw [classifyWord, hkeyword]
  refine if_neg fun hword => ?_
  rcases hword with heq | heq
  · exact hbool.1 (String.toList_ofList.symm.trans (congrArg String.toList heq))
  · exact hbool.2 (String.toList_ofList.symm.trans (congrArg String.toList heq))

theorem readsAs_bool (h : text = "true".toList ∨ text = "false".toList)
    (hrest : EndsToken rest) : ReadsAs .literal .bool text rest := by
  have hclass : isWord text = true ∧ classifyWord (String.ofList text) = (.literal, .bool) := by
    rcases h with rfl | rfl <;> decide
  exact readsAs_word hclass.1 hrest hclass.2 rfl

theorem readsAs_mark {c : Char} (h : TokenKind.ofChar? c = some k) (hrest : EndsToken rest) :
    ReadsAs k .none [c] rest := by
  obtain ⟨hblank, _⟩ := classes_of_ofChar? h
  refine ⟨c, rest, rfl, ⟨hblank, ?_⟩, ?_⟩
  · rintro ⟨_, hslash⟩
    exact absurd (hrest '/' hslash) (by decide)
  · rw [scan_of_ofChar? h]
    cases rest with
    | nil => rfl
    | cons d rest =>
      rw [scanMark, ofPair?_of_isBlank (hrest d rfl)]
      rfl

theorem readsAs_wideMark {c d : Char} (h : TokenKind.ofPair? c d = some k) :
    ReadsAs k .none [c, d] rest := by
  have hfirst : ∃ m, TokenKind.ofChar? c = some m ∧ c ≠ '/' := by
    unfold TokenKind.ofPair? at h
    split at h <;> first | exact ⟨_, rfl, by decide⟩ | cases h
  obtain ⟨m, hm, hslash⟩ := hfirst
  obtain ⟨hblank, _⟩ := classes_of_ofChar? hm
  refine ⟨c, d :: rest, rfl, startsToken_of_ne hblank hslash, ?_⟩
  rw [scan_of_ofChar? hm, scanMark, h]
  rfl

theorem readsAs_number {digits : List Char} (hne : digits ≠ [])
    (h : ∀ d ∈ digits, Text.isDigit d = true) (hrest : EndsToken rest) :
    ReadsAs .literal .number digits rest := by
  obtain ⟨c, cs, rfl⟩ := List.exists_cons_of_ne_nil hne
  obtain ⟨hc, hcs⟩ := List.forall_mem_cons.mp h
  obtain ⟨htake, hdrop⟩ := takeWhile_append_stop hcs fun d hd =>
    Text.isDigit_of_isBlank (hrest d hd)
  refine ⟨c, cs ++ rest, rfl, startsToken_of_class (.inr hc), ?_⟩
  rw [scan_of_isDigit hc]
  simp only [scanNumber, htake, hdrop]
  split
  · exact absurd (hrest '.' rfl) (by decide)
  · rfl

/-- The point of a number is followed by a digit, or by the blank that ends the number. -/
theorem readsAs_float {digits fraction : List Char} (hne : digits ≠ [])
    (h : ∀ d ∈ digits, Text.isDigit d = true) (hfraction : ∀ d ∈ fraction, Text.isDigit d = true)
    (hrest : EndsToken rest) : ReadsAs .literal .float (digits ++ '.' :: fraction) rest := by
  obtain ⟨c, cs, rfl⟩ := List.exists_cons_of_ne_nil hne
  obtain ⟨hc, hcs⟩ := List.forall_mem_cons.mp h
  obtain ⟨htake, hdrop⟩ :=
    takeWhile_append_cons (p := Text.isDigit) (d := '.') hcs (by decide) (fraction ++ rest)
  obtain ⟨htake', hdrop'⟩ := takeWhile_append_stop hfraction fun d hd =>
    Text.isDigit_of_isBlank (hrest d hd)
  have hpoint : (fraction ++ rest).head? ≠ some '.' := by
    intro hhead
    cases fraction with
    | nil => exact absurd (hrest '.' hhead) (by decide)
    | cons d fraction =>
      obtain rfl : d = '.' := Option.some.inj hhead
      exact absurd (hfraction '.' List.mem_cons_self) (by decide)
  refine ⟨c, cs ++ '.' :: (fraction ++ rest), ?_, startsToken_of_class (.inr hc), ?_⟩
  · simp [spell]
  · rw [scan_of_isDigit hc]
    simp only [scanNumber, htake, hdrop, if_neg hpoint, htake', hdrop']
    rfl

theorem readsAs_string (h : ∀ c ∈ text, isStringChar c = true) :
    ReadsAs .literal .string text rest := by
  obtain ⟨htake, hdrop⟩ :=
    takeWhile_append_cons (p := isStringChar) (d := '\x22') h (by decide) rest
  refine ⟨'\x22', text ++ '\x22' :: rest, ?_, startsToken_of_ne (by decide) (by decide), ?_⟩
  · simp [spell]
  · rw [scan, if_pos rfl, scanString, htake, hdrop]
    rfl

theorem readsAs_char (hlength : text.length ≤ 1) (h : ∀ c ∈ text, c ≠ '\x27' ∧ c ≠ '\n') :
    ReadsAs .literal .char text rest := by
  refine ⟨'\x27', text ++ '\x27' :: rest, ?_, startsToken_of_ne (by decide) (by decide), ?_⟩
  · simp [spell]
  · rw [scan, if_neg (by decide), if_pos rfl]
    cases text with
    | nil => rfl
    | cons c text =>
      obtain rfl := List.length_eq_zero_iff.mp (Nat.le_zero.mp (Nat.le_of_succ_le_succ hlength))
      obtain ⟨hquote, hline⟩ := h c List.mem_cons_self
      simp only [List.cons_append, List.nil_append, scanChar, if_neg hline, if_neg hquote]
      rfl

theorem readsAs_invalid {c : Char} (h : Unclassified c) : ReadsAs .invalid .none [c] rest := by
  have hslash : c ≠ '/' := by
    rintro rfl
    cases h.not_mark
  refine ⟨c, rest, rfl, startsToken_of_ne h.not_blank hslash, ?_⟩
  have hword : ¬ isWordStart c = true := Bool.eq_false_iff.mp h.not_word
  have hdigit : ¬ Text.isDigit c = true := Bool.eq_false_iff.mp h.not_digit
  rw [scan, if_neg h.not_quote, if_neg h.not_apostrophe, h.not_mark]
  simp only [if_neg hword, if_neg hdigit]
  rfl

/-- The spelling of a token in front of a blank, or of the end, is scanned as the token. -/
theorem scan_spell (h : Form k lit text) (hrest : EndsToken rest) : ReadsAs k lit text rest := by
  cases h with
  | keyword hk => exact readsAs_keyword hk hrest
  | mark hk => exact readsAs_mark hk hrest
  | wideMark hk => exact readsAs_wideMark hk
  | identifier hword hkeyword hbool => exact readsAs_identifier hword hkeyword hbool hrest
  | bool hbool => exact readsAs_bool hbool hrest
  | number hne hdigits => exact readsAs_number hne hdigits hrest
  | float hne hdigits hfraction => exact readsAs_float hne hdigits hfraction hrest
  | string htext => exact readsAs_string htext
  | char hlength htext => exact readsAs_char hlength htext
  | invalid hc => exact readsAs_invalid hc

end Spellings

/-- The tokens of a text are well formed. -/
theorem wellFormed_of_mem_tokens {file : String} {k : Cursor} {cs : List Char} {t : Token}
    (ht : t ∈ k.tokens file cs) : t.WellFormed := by
  induction cs using text_induction generalizing k with
  | gap cs h =>
    rw [Cursor.tokens_of_gap h] at ht
    cases ht
  | scan cs c ds h ih =>
    rw [Cursor.tokens_of_scan h] at ht
    rcases List.mem_cons.mp ht with rfl | ht
    · have hform := form_scan (startsToken_afterGap h).1 ds
      rw [← Scan.toList_lexeme_token] at hform
      exact hform
    · exact ih ht

/--
Tokens that are spelled again: each token is written, with a blank behind it and any blanks and
comments after that.  The last token may also end the text.
-/
inductive Respelled : List Token → List Char → Prop
  | nil : Respelled [] []
  | last (t : Token) : Respelled [t] t.spelling
  | cons (t : Token) {ts : List Token} {c : Char} {gap text : List Char}
      (hc : Text.isBlank c = true) (hgap : Trivia False gap) (htext : Respelled ts text) :
      Respelled (t :: ts) (t.spelling ++ (c :: gap ++ text))

/-- A token that is spelled again is scanned first, and then what follows it. -/
theorem scans_spelling {t : Token} {rest : List Char} (ht : t.WellFormed) (hrest : EndsToken rest) :
    (scans (t.spelling ++ rest)).map Scan.face = t.face :: (scans rest).map Scan.face := by
  obtain ⟨c, cs, hcs, hstarts, hscan⟩ := scan_spell ht hrest
  rw [spelling, hcs, scans_of_scan (afterGap_of_startsToken hstarts), hscan, List.map_cons]
  simp only [Scan.face, face, String.ofList_toList]

/-- Tokens that are spelled again are scanned again. -/
theorem scans_respelled {ts : List Token} {text : List Char} (h : Respelled ts text)
    (hts : ∀ t ∈ ts, t.WellFormed) : (scans text).map Scan.face = ts.map face := by
  induction h with
  | nil =>
    rw [scans_of_gap rfl]
    rfl
  | last t =>
    have hends : EndsToken [] := fun _ h => by cases h
    have hlast := scans_spelling (hts t List.mem_cons_self) hends
    rw [List.append_nil, scans_nil] at hlast
    exact hlast
  | @cons t ts c gap text hc hgap _ ih =>
    obtain ⟨ht, hts⟩ := List.forall_mem_cons.mp hts
    have hends : EndsToken (c :: gap ++ text) := by
      intro d hd
      obtain rfl : c = d := Option.some.inj hd
      exact hc
    rw [scans_spelling ht hends, scans_congr (afterGap_append (.blank hc hgap) text), ih hts,
      List.map_cons]

end Token

/--
The tokens of a text have the forms of their kinds.  Tokens of these forms that are spelled again,
with any blanks and comments between them, are read again, and so are the tokens of a text.
-/
theorem tokenize_respelled (file : String) :
    (∀ source, ∀ t ∈ tokenize file source, t.WellFormed) ∧
      (∀ ts text, (∀ t ∈ ts, t.WellFormed) → Token.Respelled ts text →
        (tokenize file text).map Token.face = ts.map Token.face) ∧
      (∀ source text, Token.Respelled (tokenize file source) text →
        (tokenize file text).map Token.face = (tokenize file source).map Token.face) := by
  have hformed (source : List Char) : ∀ t ∈ tokenize file source, t.WellFormed := fun t ht =>
    Token.wellFormed_of_mem_tokens ht
  have hagain (ts : List Token) (text : List Char) (hts : ∀ t ∈ ts, t.WellFormed)
      (htext : Token.Respelled ts text) :
      (tokenize file text).map Token.face = ts.map Token.face := by
    rw [map_face_tokenize, Token.scans_respelled htext hts]
  exact ⟨hformed, hagain, fun source text htext => hagain _ text (hformed source) htext⟩

/-- A number with nothing behind its point, an open character literal, a string and an odd mark. -/
theorem tokenize_respelled_mixed :
    let source := "5.'c, d\n\x22a b\x22@".toList
    let text := "5.\n'c' // e\n\x22a b\x22\t@".toList
    Token.Respelled (tokenize "p" source) text ∧
      (tokenize "p" text).map Token.face = (tokenize "p" source).map Token.face := by
  intro source text
  have hsource : tokenize "p" source =
      [⟨.literal, "5.", ⟨"p", 0, 0⟩, .float⟩, ⟨.literal, "c", ⟨"p", 0, 2⟩, .char⟩,
        ⟨.literal, "a b", ⟨"p", 1, 0⟩, .string⟩, ⟨.invalid, "@", ⟨"p", 1, 5⟩, .none⟩] := by
    decide +kernel
  have hcomment : Token.Trivia False ('/' :: '/' :: ([' ', 'e'] ++ ['\n'])) :=
    .comment (by decide) (.inl rfl) (.blank (by decide) .nil)
  have htext : Token.Respelled (tokenize "p" source) text := by
    rw [hsource]
    exact .cons _ (c := '\n') (by decide) .nil
      (.cons _ (c := ' ') (by decide) hcomment
        (.cons _ (c := '\t') (by decide) .nil (.last _)))
  exact ⟨htext, (tokenize_respelled "p").2.2 source text htext⟩

end ScriptFront
