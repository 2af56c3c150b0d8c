import CigaretteSmokers.Toml.Text.Printer
import CigaretteSmokers.Toml.Text.Reader

/-!
Strings of a document that have been written read back, whichever of the four spellings was chosen.
-/

namespace CigaretteSmokers.Toml

open Text.Digits

theorem push_some (c : Char) (s rest : List Char) :
    push (some c) (some (s, rest)) = some (c :: s, rest) := rfl

/-- A backslash before one of these letters does not continue a line. -/
theorem startsLine_cons {e : Char} (he : isBlank e = false) (hn : e ≠ '\n') (hr : e ≠ '\r')
    (text : List Char) : startsLine (e :: text) = false := by
  simp [startsLine, skipBlanks, he, hn, hr]

theorem basic?_escape? {multiline : Bool} {e c : Char} (h : escape? e = some c)
    (text : List Char) :
    basic? multiline false ('\\' :: e :: text) = push (some c) (basic? multiline false text) := by
  have hstart : startsLine (e :: text) = false := by
    refine startsLine_cons ?_ ?_ ?_ text
    all_goals unfold escape? at h; split at h <;> first | decide | cases h
  have hu : e ≠ 'u' := by rintro rfl; cases h
  have hU : e ≠ 'U' := by rintro rfl; cases h
  rw [basic?.eq_def]
  simp [hstart, hu, hU, h]

theorem scalar?_hex {c : Char} (h : isControl c = true) :
    scalar? ['0', '0', upperDigit (c.toNat / 16), upperDigit (c.toNat % 16)] = some c := by
  have hdigits : ∀ n < 128, number? 16 0 ['0', '0', upperDigit (n / 16), upperDigit (n % 16)] =
      some n := by decide
  have hc : c.toNat < 128 := by
    simp only [isControl, Bool.or_eq_true, decide_eq_true_eq] at h
    rcases h with h | rfl
    · omega
    · decide
  have hvalid : c.toNat.isValidChar := c.valid
  simp [scalar?, hdigits _ hc, hvalid]

theorem isPlain_of_not_control {c : Char} (h : isControl c = false) : isPlain c = true := by
  simp only [isControl, Bool.or_eq_false_iff, decide_eq_false_iff_not] at h
  simp [isPlain, h.2]
  omega

theorem basic?_escape (multiline : Bool) (c : Char) (text : List Char) :
    basic? multiline false (escape multiline c ++ text) =
      push (some c) (basic? multiline false text) := by
  unfold escape
  iterate 2
    split
    · rename_i h
      subst h
      exact basic?_escape? rfl text
  split
  · rename_i h
    subst h
    cases multiline with
    | true => rw [if_pos rfl, List.singleton_append, basic?.eq_def]; simp
    | false => exact basic?_escape? rfl text
  iterate 4
    split
    · rename_i h
      subst h
      exact basic?_escape? rfl text
  split
  · rename_i h
    have hstart := startsLine_cons (e := 'u') (by decide) (by decide) (by decide)
      ('0' :: '0' :: upperDigit (c.toNat / 16) :: upperDigit (c.toNat % 16) :: text)
    simp only [List.cons_append, List.nil_append]
    rw [basic?.eq_def]
    simp [hstart, scalar?_hex h]
  · rename_i hb ht hn hf hr hq hs hcontrol
    have hplain := isPlain_of_not_control (Bool.not_eq_true _ ▸ hcontrol)
    rw [List.singleton_append, basic?.eq_def]
    simp [hq, hs, hn, hr, hplain]

theorem basic?_flatMap_escape {multiline : Bool} {closer rest : List Char}
    (h : basic? multiline false (closer ++ rest) = some ([], rest)) (s : List Char) :
    basic? multiline false (s.flatMap (escape multiline) ++ closer ++ rest) = some (s, rest) := by
  induction s with
  | nil => exact h
  | cons c s ih =>
      rw [List.flatMap_cons, List.append_assoc, List.append_assoc, basic?_escape,
        ← List.append_assoc, ih, push_some]

theorem closing?_line (quote : Char) (hquote : quote ≠ '\n') (rest : List Char) :
    closing? quote ('\n' :: rest) = some ([], '\n' :: rest) := by
  simp [closing?, Ne.symm hquote]

/-- What a literal string may hold. -/
def isRaw (c : Char) : Bool := c = '\t' || c = '\n' || !isControl c

theorem literal?_raw {multiline : Bool} {c : Char} (hraw : isRaw c = true)
    (hline : c = '\n' → multiline = true) (hquote : c ≠ '\'') (text : List Char) :
    literal? multiline (c :: text) = push (some c) (literal? multiline text) := by
  by_cases hn : c = '\n'
  · subst hn
    rw [literal?.eq_def]
    simp [hline rfl]
  · have hplain : isPlain c = true := by
      by_cases ht : c = '\t'
      · rw [ht]
        rfl
      · exact isPlain_of_not_control (by simpa [isRaw, ht, hn] using hraw)
    have hr : c ≠ '\r' := by
      rintro rfl
      cases hraw
    rw [literal?.eq_def]
    simp [hquote, hn, hr, hplain]

/-- A literal string on one line holds no quote and no line end. -/
theorem literal?_line {s : List Char} (hraw : ∀ c ∈ s, isRaw c = true) (hline : '\n' ∉ s)
    (hquote : '\'' ∉ s) (rest : List Char) :
    literal? false (s ++ '\'' :: rest) = some (s, rest) := by
  induction s with
  | nil =>
      rw [List.nil_append, literal?.eq_def]
      simp
  | cons c s ih =>
      simp only [List.mem_cons, not_or] at hline hquote
      rw [List.cons_append, literal?_raw (hraw c (by simp)) (fun h => absurd h.symm hline.1)
        (Ne.symm hquote.1), ih (fun d hd => hraw d (List.mem_cons_of_mem _ hd)) hline.2 hquote.2,
        push_some]

/-- Between three quotes, a literal string holds no three quotes and none at its end. -/
theorem literal?_lines {s : List Char} (hraw : ∀ c ∈ s, isRaw c = true)
    (htriple : hasTriple s = false) (hlast : s.getLast? ≠ some '\'') (rest : List Char) :
    literal? true (s ++ '\'' :: '\'' :: '\'' :: '\n' :: rest) = some (s, '\n' :: rest) := by
  induction s with
  | nil => simp [literal?, closing?_line]
  | cons c s ih =>
      have hraw' : ∀ d ∈ s, isRaw d = true := fun d hd => hraw d (List.mem_cons_of_mem _ hd)
      simp only [hasTriple, Bool.or_eq_false_iff] at htriple
      have hlast' : s.getLast? ≠ some '\'' := by
        cases s with
        | nil => simp
        | cons d s => rwa [List.getLast?_cons_cons] at hlast
      rw [List.cons_append]
      by_cases hquote : c = '\''
      · subst hquote
        have hnot : ∀ t, s ++ '\'' :: '\'' :: '\'' :: '\n' :: rest ≠ '\'' :: '\'' :: t := by
          intro t ht
          cases s with
          | nil => exact hlast rfl
          | cons d s =>
              cases s with
              | nil =>
                  cases ht
                  exact hlast rfl
              | cons e s =>
                  cases ht
                  simp at htriple
        rw [← push_some, ← ih hraw' htriple.2 hlast', literal?.eq_def]
        simp
      · rw [literal?_raw (hraw c (by simp)) (fun _ => rfl) hquote, ih hraw' htriple.2 hlast',
          push_some]

theorem escape_starts (multiline : Bool) (c : Char) :
    ∃ d text, escape multiline c = d :: text ∧ d ≠ '"' := by
  unfold escape
  iterate 2
    split
    · exact ⟨_, _, rfl, by decide⟩
  split
  · split <;> exact ⟨_, _, rfl, by decide⟩
  iterate 5
    split
    · exact ⟨_, _, rfl, by decide⟩
  rename_i h _ _
  exact ⟨_, _, rfl, h⟩

/-- After one quote a string is basic, unless two more quotes follow. -/
theorem text?_basic {text : List Char} (h : ∀ t, text ≠ '"' :: '"' :: t) :
    text? ('"' :: text) =
      (basic? false false text).map fun (s, rest) => (String.ofList s, rest) := by
  unfold text?
  simp

theorem text?_literal {text : List Char} (h : ∀ t, text ≠ '\'' :: '\'' :: t) :
    text? ('\'' :: text) =
      (literal? false text).map fun (s, rest) => (String.ofList s, rest) := by
  unfold text?
  simp

section

variable (s rest : List Char)

theorem text?_basicLine :
    text? ('"' :: (s.flatMap (escape false) ++ '"' :: '\n' :: rest)) =
      some (String.ofList s, '\n' :: rest) := by
  have hclose : basic? false false (['"'] ++ '\n' :: rest) = some ([], '\n' :: rest) := by
    rw [List.singleton_append, basic?.eq_def]
    simp
  have hread := basic?_flatMap_escape hclose s
  rw [List.append_assoc, List.singleton_append] at hread
  have hnot : ∀ t, s.flatMap (escape false) ++ '"' :: '\n' :: rest ≠ '"' :: '"' :: t := by
    intro t ht
    cases s with
    | nil => cases ht
    | cons c s =>
        obtain ⟨d, text, hescape, hd⟩ := escape_starts false c
        rw [List.flatMap_cons, hescape] at ht
        exact hd (List.cons.inj ht).1
  rw [text?_basic hnot, hread, Option.map_some]

theorem text?_basicLines :
    text? ('"' :: '"' :: '"' :: '\n' ::
        (s.flatMap (escape true) ++ '"' :: '"' :: '"' :: '\n' :: rest)) =
      some (String.ofList s, '\n' :: rest) := by
  have hclose : basic? true false (['"', '"', '"'] ++ '\n' :: rest) = some ([], '\n' :: rest) := by
    rw [List.cons_append, basic?.eq_def]
    simp [closing?_line]
  have hread := basic?_flatMap_escape hclose s
  rw [List.append_assoc] at hread
  simp only [text?, skipLineEnd]
  exact congrArg _ hread

variable {s}

theorem text?_literalLine (hne : s ≠ []) (hraw : ∀ c ∈ s, isRaw c = true) (hline : '\n' ∉ s)
    (hquote : '\'' ∉ s) :
    text? ('\'' :: (s ++ '\'' :: rest)) = some (String.ofList s, rest) := by
  have hnot : ∀ t, s ++ '\'' :: rest ≠ '\'' :: '\'' :: t := by
    intro t ht
    cases s with
    | nil => exact hne rfl
    | cons c s => exact hquote (by simp [(List.cons.inj ht).1])
  rw [text?_literal hnot, literal?_line hraw hline hquote, Option.map_some]

theorem text?_literalLines (opening : List Char) (hraw : ∀ c ∈ s, isRaw c = true)
    (htriple : hasTriple s = false) (hlast : s.getLast? ≠ some '\'')
    (hopening : ∀ text, skipLineEnd (opening ++ (s ++ text)) = s ++ text) :
    text? ('\'' :: '\'' :: '\'' ::
        (opening ++ (s ++ '\'' :: '\'' :: '\'' :: '\n' :: rest))) =
      some (String.ofList s, '\n' :: rest) := by
  simp only [text?, hopening, literal?_lines hraw htriple hlast, Option.map_some]

theorem skipLineEnd_append (hne : s ≠ []) (hraw : ∀ c ∈ s, isRaw c = true) (hline : '\n' ∉ s)
    (text : List Char) : skipLineEnd (s ++ text) = s ++ text := by
  cases s with
  | nil => exact absurd rfl hne
  | cons c s =>
      have hn : c ≠ '\n' := by
        rintro rfl
        exact hline (by simp)
      have hr : c ≠ '\r' := by
        rintro rfl
        exact absurd (hraw '\r' (by simp)) (by decide)
      simp [skipLineEnd, hn, hr]

end

/-- A string that has been written reads back. -/
theorem text?_quote (s rest : List Char) :
    text? (quote s ++ '\n' :: rest) = some (String.ofList s, '\n' :: rest) := by
  unfold quote
  dsimp only
  by_cases hliteral : isLiteral s = true
  · rw [if_pos hliteral]
    simp only [isLiteral, Bool.and_eq_true, Bool.not_eq_true', List.contains_eq_mem,
      List.all_eq_true, decide_eq_true_eq] at hliteral
    obtain ⟨⟨⟨hbackslash, hraw⟩, htriple⟩, hlast⟩ := hliteral
    have hne : s ≠ [] := by
      rintro rfl
      cases hbackslash
    cases hlines : s.contains '\n' with
    | true =>
        have hread := text?_literalLines rest ['\n'] hraw htriple hlast
          fun _ => rfl
        simpa [List.replicate] using hread
    | false =>
        have hline : '\n' ∉ s := by simpa using hlines
        cases hquote : s.contains '\'' with
        | true =>
            have hread := text?_literalLines rest [] hraw htriple hlast
              (skipLineEnd_append hne hraw hline)
            simpa [List.replicate, hquote] using hread
        | false =>
            have hread := text?_literalLine (s := s) ('\n' :: rest) hne hraw hline
              (by simpa using hquote)
            simpa [List.replicate, hquote] using hread
  · rw [if_neg hliteral]
    cases hlines : s.contains '\n' with
    | true => simpa [List.replicate] using text?_basicLines s rest
    | false => simpa [List.replicate] using text?_basicLine s rest

end CigaretteSmokers.Toml
