import ScriptFront.Token.Scan

/-!
# What stands between tokens

Blanks and comments may stand between tokens.  A comment is not closed by anything of its own: it
runs up to the line feed that ends its line, and only the end of the text may come before that.
The scanner splits such a gap off without knowing how it is put together, so both directions are
shown: what is split off is a gap, and a gap is split off as a whole.

**Results.**

* `trivia_gap`: what stands in front of a token, or of the end, is a gap.
* `startsToken_afterGap`: behind a gap comes a character that starts a token.
* `splitGap_append_of_trivia`: a gap in front of a text is split off with the text's own gap.
-/

namespace ScriptFront
namespace Token

/--
Blanks and comments.  A comment runs up to a line feed, or up to the end of the gap if that is the
end of the text.
-/
inductive Trivia (atEnd : Prop) : List Char → Prop
  | nil : Trivia atEnd []
  | blank {c : Char} {cs : List Char} (hc : Text.isBlank c = true) (hcs : Trivia atEnd cs) :
      Trivia atEnd (c :: cs)
  | comment {body tail : List Char} (hbody : '\n' ∉ body)
      (hstop : tail.head? = some '\n' ∨ atEnd ∧ tail = []) (htail : Trivia atEnd tail) :
      Trivia atEnd ('/' :: '/' :: (body ++ tail))

/-- A text whose first character belongs to a token. -/
def StartsToken (c : Char) (cs : List Char) : Prop :=
  Text.isBlank c = false ∧ ¬ (c = '/' ∧ cs.head? = some '/')

section Splitting

variable {c : Char} {cs : List Char}

/-- Inside of a comment every character is passed, and a line feed ends the comment. -/
theorem splitGap_inside (c : Char) (cs : List Char) :
    splitGap true (c :: cs) = (c :: (splitGap (c != '\n') cs).1, (splitGap (c != '\n') cs).2) :=
  rfl

theorem splitGap_blank (hc : Text.isBlank c = true) (cs : List Char) :
    splitGap false (c :: cs) = (c :: gap cs, afterGap cs) := by
  simp [splitGap, hc, gap, afterGap]

theorem splitGap_slashes (cs : List Char) :
    splitGap false ('/' :: '/' :: cs) =
      ('/' :: '/' :: (splitGap true cs).1, (splitGap true cs).2) := by
  have hblank : Text.isBlank '/' = false := by decide
  rw [splitGap]
  simp [hblank, splitGap_inside]

theorem splitGap_of_startsToken (h : StartsToken c cs) :
    splitGap false (c :: cs) = ([], c :: cs) := by
  obtain ⟨hblank, hslashes⟩ := h
  rw [splitGap]
  simp [hblank, hslashes]

/-- The line of a comment is passed up to its line feed. -/
theorem splitGap_body {body tail : List Char} (hbody : '\n' ∉ body)
    (htail : tail.head? = some '\n') :
    splitGap true (body ++ tail) = (body ++ gap tail, afterGap tail) := by
  induction body with
  | nil =>
    obtain ⟨rest, rfl⟩ := List.head?_eq_some_iff.mp htail
    have hline : splitGap false ('\n' :: rest) = ('\n' :: gap rest, afterGap rest) :=
      splitGap_blank (by decide) rest
    rw [List.nil_append, List.nil_append, splitGap_inside, gap, afterGap, hline]
    rfl
  | cons d body ih =>
    obtain ⟨hd, hbody⟩ := not_or.mp (mt List.mem_cons.mpr hbody)
    have hne : (d != '\n') = true := bne_iff_ne.mpr (Ne.symm hd)
    rw [List.cons_append, splitGap_inside, hne, ih hbody]
    rfl

end Splitting

section Shapes

variable {c : Char} {cs ds : List Char}

theorem Trivia.mono {p q : Prop} (hpq : p → q) {g : List Char} (h : Trivia p g) : Trivia q g := by
  induction h with
  | nil => exact .nil
  | blank hc _ ih => exact .blank hc ih
  | comment hbody hstop _ ih =>
    refine .comment hbody ?_ ih
    rcases hstop with hline | ⟨hend, hnil⟩
    · exact .inl hline
    · exact .inr ⟨hpq hend, hnil⟩

/-- The shape of what is split off, in front of a comment and inside of one. -/
def SplitsOff (atEnd : Prop) : Bool → List Char → Prop
  | false, g => Trivia atEnd g
  | true, g => ∃ body tail, g = body ++ tail ∧ '\n' ∉ body ∧
      (tail.head? = some '\n' ∨ atEnd ∧ tail = []) ∧ Trivia atEnd tail

theorem splitsOff_splitGap (comment : Bool) (cs : List Char) :
    SplitsOff ((splitGap comment cs).2 = []) comment (splitGap comment cs).1 := by
  induction cs generalizing comment with
  | nil =>
    cases comment with
    | false => exact .nil
    | true => exact ⟨[], [], rfl, List.not_mem_nil, .inr ⟨rfl, rfl⟩, .nil⟩
  | cons c cs ih =>
    cases comment with
    | true =>
      rw [splitGap_inside]
      by_cases hc : c = '\n'
      · -- The line feed is the first of the blanks behind the comment.
        subst hc
        exact ⟨[], _, rfl, List.not_mem_nil, .inl rfl, .blank (by decide) (ih false)⟩
      · have hne : (c != '\n') = true := bne_iff_ne.mpr hc
        rw [hne]
        obtain ⟨body, tail, hg, hbody, hstop, htail⟩ := ih true
        refine ⟨c :: body, tail, congrArg (c :: ·) hg, ?_, hstop, htail⟩
        rintro (_ | ⟨_, hmem⟩)
        · exact hc rfl
        · exact hbody hmem
    | false =>
      by_cases hblank : Text.isBlank c = true
      · rw [splitGap_blank hblank]
        exact .blank hblank (ih false)
      · by_cases hslashes : c = '/' ∧ cs.head? = some '/'
        · obtain ⟨rfl, hhead⟩ := hslashes
          obtain ⟨ds, rfl⟩ := List.head?_eq_some_iff.mp hhead
          rw [splitGap_slashes]
          -- The second slash is inside of the comment that the first one starts.
          obtain ⟨body, tail, hg, hbody, hstop, htail⟩ := ih true
          rw [splitGap_inside] at hg hstop htail
          cases body with
          | nil =>
            rw [List.nil_append] at hg
            rcases hstop with hline | ⟨_, hnil⟩
            · rw [← hg] at hline
              simp at hline
            · rw [hnil] at hg
              cases hg
          | cons d body =>
            obtain ⟨rfl, hrest⟩ := List.cons.inj hg
            have hslash : ('/' != '\n') = true := rfl
            rw [hslash] at hrest hstop htail
            change Trivia _ ('/' :: '/' :: (splitGap true ds).1)
            rw [hrest]
            exact .comment (fun hmem => hbody (List.mem_cons_of_mem _ hmem)) hstop htail
        · rw [splitGap_of_startsToken ⟨Bool.eq_false_iff.mpr hblank, hslashes⟩]
          exact .nil

/-- What stands in front of a token, or of the end of the text, is a gap. -/
theorem trivia_gap (cs : List Char) : Trivia (afterGap cs = []) (gap cs) :=
  splitsOff_splitGap false cs

/-- Behind a gap comes a character that starts a token. -/
theorem startsToken_splitGap {comment : Bool} (h : (splitGap comment cs).2 = c :: ds) :
    StartsToken c ds := by
  induction cs generalizing comment with
  | nil => cases h
  | cons d cs ih =>
    cases comment with
    | true => exact ih h
    | false =>
      by_cases hblank : Text.isBlank d = true
      · rw [splitGap_blank hblank] at h
        exact ih h
      · by_cases hslashes : d = '/' ∧ cs.head? = some '/'
        · obtain ⟨rfl, hhead⟩ := hslashes
          obtain ⟨es, rfl⟩ := List.head?_eq_some_iff.mp hhead
          have hcomment : (splitGap true ('/' :: es)).2 = c :: ds := by
            rwa [splitGap_slashes] at h
          exact ih hcomment
        · have hstarts : StartsToken d cs := ⟨Bool.eq_false_iff.mpr hblank, hslashes⟩
          rw [splitGap_of_startsToken hstarts] at h
          obtain ⟨rfl, rfl⟩ := List.cons.inj h
          exact hstarts

theorem startsToken_afterGap (h : afterGap cs = c :: ds) : StartsToken c ds :=
  startsToken_splitGap h

/-- A text that starts with a token has no gap in front. -/
theorem afterGap_of_startsToken (h : StartsToken c cs) : afterGap (c :: cs) = c :: cs := by
  rw [afterGap, splitGap_of_startsToken h]

/-- A gap whose comments are all ended by line feeds is split off with what follows it. -/
theorem splitGap_append_of_trivia {g : List Char} (hg : Trivia False g) (cs : List Char) :
    splitGap false (g ++ cs) = (g ++ gap cs, afterGap cs) := by
  induction hg with
  | nil => rfl
  | @blank c g hc _ ih =>
    rw [List.cons_append, splitGap_blank hc, gap, afterGap, ih]
    rfl
  | @comment body tail hbody hstop htail ih =>
    have hline : (tail ++ cs).head? = some '\n' := by
      rcases hstop with hline | ⟨hend, _⟩
      · rw [List.head?_append, hline]
        rfl
      · exact hend.elim
    have hbodies : '/' :: '/' :: (body ++ tail) ++ cs = '/' :: '/' :: (body ++ (tail ++ cs)) := by
      simp
    rw [hbodies, splitGap_slashes, splitGap_body hbody hline, gap, afterGap, ih]
    simp

theorem afterGap_append {g : List Char} (hg : Trivia False g) (cs : List Char) :
    afterGap (g ++ cs) = afterGap cs := by
  rw [afterGap, splitGap_append_of_trivia hg]

end Shapes
end Token
end ScriptFront
