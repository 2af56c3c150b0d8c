import CigaretteSmokers.Settings.Document
import CigaretteSmokers.Proofs.DigitRuns
import CigaretteSmokers.Proofs.TomlStrings

/-!
The lines of a document read back one by one: a key with its value, and a header after an empty
line.
-/

namespace CigaretteSmokers.Toml

open Text.Digits

/-- The text stands for the value at the end of a line. -/
structure Spells (text : List Char) (v : Value) : Prop where
  starts : ∃ c t, text = c :: t ∧ isBlank c = false ∧ c ≠ '[' ∧ c ≠ '\x7b'
  value : ∀ rest, scalarValue? (text ++ '\n' :: rest) = some (v, '\n' :: rest)

theorem quote_starts (s : List Char) : ∃ c t, quote s = c :: t ∧ (c = '"' ∨ c = '\'') := by
  unfold quote
  dsimp only
  split
  · split <;> exact ⟨_, _, rfl, .inr rfl⟩
  · split <;> exact ⟨_, _, rfl, .inl rfl⟩

theorem spells_quote (s : List Char) : Spells (quote s) (.text (String.ofList s)) := by
  obtain ⟨c, t, hquote, hc⟩ := quote_starts s
  refine ⟨⟨c, t, hquote, ?_⟩, fun rest => ?_⟩
  · rcases hc with rfl | rfl <;> decide
  · have hread := text?_quote s rest
    have ht : c ≠ 't' := by rcases hc with rfl | rfl <;> decide
    have hf : c ≠ 'f' := by rcases hc with rfl | rfl <;> decide
    rw [hquote, List.cons_append] at hread ⊢
    simp [scalarValue?, ht, hf, hread]

section Keys

variable {key : String} {c : Char} {rest tail : List Char}

/-- A name that needs no quotes. -/
def IsBare (key : String) : Prop := key.toList ≠ [] ∧ key.toList.all isBareKey = true

instance (key : String) : Decidable (IsBare key) :=
  inferInstanceAs (Decidable (_ ≠ _ ∧ _))

theorem IsBare.of_mem (h : IsBare key) (hc : c ∈ key.toList) : isBareKey c = true :=
  List.all_eq_true.1 h.2 c hc

theorem isBlank_of_isBareKey (h : isBareKey c = true) : isBlank c = false := by
  cases hc : isBlank c with
  | false => rfl
  | true =>
      simp only [isBlank, Bool.or_eq_true, decide_eq_true_eq] at hc
      rcases hc with rfl | rfl <;> cases h

theorem IsBare.eq_cons (h : IsBare key) :
    ∃ c tail, key.toList = c :: tail ∧ isBareKey c = true := by
  cases hk : key.toList with
  | nil => exact absurd hk h.1
  | cons c tail => exact ⟨c, tail, rfl, h.of_mem (by simp [hk])⟩

theorem ne_of_isBareKey {d : Char} (hc : isBareKey c = true) (hd : isBareKey d = false) :
    c ≠ d := by
  rintro rfl
  rw [hc] at hd
  cases hd

theorem skipBlanks_key (h : IsBare key) (rest : List Char) :
    skipBlanks (key.toList ++ rest) = key.toList ++ rest := by
  obtain ⟨d, k, hk, hd⟩ := h.eq_cons
  simp [hk, skipBlanks, isBlank_of_isBareKey hd]

theorem name?_key (h : IsBare key) (hrest : rest.head?.any isBareKey = false) :
    name? (key.toList ++ rest) = some (key, rest) := by
  have hspan := span_append_self (fun _ => h.of_mem) hrest
  obtain ⟨d, k, hk, hd⟩ := h.eq_cons
  have hquote : d ≠ '"' := ne_of_isBareKey hd rfl
  have hapostrophe : d ≠ '\'' := ne_of_isBareKey hd rfl
  have hkey : String.ofList (d :: k) = key := by rw [← hk, String.ofList_toList]
  rw [hk, List.cons_append] at hspan ⊢
  unfold name?
  split
  · rename_i h
    exact absurd (List.cons.inj h).1 hquote
  · rename_i h
    exact absurd (List.cons.inj h).1 hapostrophe
  · simp only [hspan, hkey]

theorem path?_key (h : IsBare key) (hrest : rest.head?.any isBareKey = false)
    (hskip : skipBlanks rest = c :: tail) (hc : c ≠ '.') :
    path? longestPath (key.toList ++ rest) = some ([key], c :: tail) := by
  rw [longestPath, path?, skipBlanks_key h, name?_key h hrest]
  simp [hskip, hc]

end Keys

/-- The lines of a text. -/
def Reads (text : List Char) (lines : List Line) : Prop :=
  ∀ fuel, text.length ≤ fuel → lines? fuel text = some lines

theorem reads_nil : Reads [] [] := fun _ _ => by rw [lines?]

theorem lineEnd?_newline (rest : List Char) : lineEnd? ('\n' :: rest) = some rest := by
  simp [lineEnd?, skipBlanks, isBlank]

/-- What begins with a name is not the end of a line. -/
theorem lineEnd?_key {key : String} (hkey : IsBare key) (rest : List Char) :
    lineEnd? (key.toList ++ rest) = none := by
  have hskip := skipBlanks_key hkey rest
  obtain ⟨d, k, hk, hd⟩ := hkey.eq_cons
  have hcomment : d ≠ '#' := ne_of_isBareKey hd rfl
  have hn : d ≠ '\n' := ne_of_isBareKey hd rfl
  have hr : d ≠ '\r' := ne_of_isBareKey hd rfl
  rw [hk, List.cons_append] at hskip ⊢
  rw [lineEnd?, hskip]
  simp [hcomment, hn, hr]

/-- A scalar needs no depth. -/
theorem value?_scalar {text : List Char} {v : Value} (h : Spells text v) (fuel depth : Nat)
    (rest : List Char) :
    value? (fuel + 1) (depth + 1) (text ++ '\n' :: rest) = some (v, '\n' :: rest) := by
  obtain ⟨c, t, ht, -, hbracket, hbrace⟩ := h.starts
  have hvalue := h.value rest
  rw [ht, List.cons_append] at hvalue ⊢
  rw [value?]
  · exact hvalue
  · exact fun _ h => hbracket (List.cons.inj h).1
  · exact fun _ h => hbrace (List.cons.inj h).1

theorem line?_entry {key : String} {text : List Char} {v : Value} (hkey : IsBare key)
    (htext : Spells text v) (rest : List Char) :
    line? (key.toList ++ ' ' :: '=' :: ' ' :: (text ++ '\n' :: rest)) =
      some (.entry [key] v, '\n' :: rest) := by
  have hskip := skipBlanks_key hkey (' ' :: '=' :: ' ' :: (text ++ '\n' :: rest))
  have hpath : path? longestPath (key.toList ++ ' ' :: '=' :: ' ' :: (text ++ '\n' :: rest)) =
      some ([key], '=' :: ' ' :: (text ++ '\n' :: rest)) := path?_key hkey rfl rfl (by decide)
  have hblank : skipBlanks (' ' :: (text ++ '\n' :: rest)) = text ++ '\n' :: rest := by
    obtain ⟨c, t, rfl, hc, -⟩ := htext.starts
    simp [skipBlanks, hc, show isBlank ' ' = true from rfl]
  have hvalue := value?_scalar htext (2 * (' ' :: (text ++ '\n' :: rest)).length + 1) 126 rest
  obtain ⟨d, k, hk, hd⟩ := hkey.eq_cons
  have hbracket : d ≠ '[' := ne_of_isBareKey hd rfl
  rw [hk, List.cons_append] at hskip hpath ⊢
  unfold line?
  rw [hskip]
  split
  · rename_i h
    exact absurd (List.cons.inj h).1 hbracket
  · rename_i h
    exact absurd (List.cons.inj h).1 hbracket
  · simp only [hpath, hblank, deepest, hvalue, Option.bind_eq_bind, Option.bind_some]
    rfl

theorem lines?_of_line {n : Nat} {text rest tail : List Char} {line : Line} {lines : List Line}
    (hne : text ≠ []) (hend : lineEnd? text = none) (hline : line? text = some (line, rest))
    (hrest : lineEnd? rest = some tail) (hlines : lines? n tail = some lines) :
    lines? (n + 1) text = some (line :: lines) := by
  rw [lines?, hend]
  · simp [hline, hrest, hlines]
  · exact hne

/-- The text is that of a line, whatever comes after it. -/
def SpellsLine (text : List Char) (line : Line) : Prop :=
  ∀ rest lines, Reads rest lines → Reads (text ++ rest) (line :: lines)

theorem reads_flatMap {parts : List (List Char × Line)}
    (h : ∀ p ∈ parts, SpellsLine p.1 p.2) : Reads (parts.flatMap Prod.fst) (parts.map Prod.snd) := by
  induction parts with
  | nil => exact reads_nil
  | cons p parts ih =>
      exact h p (by simp) _ _ (ih fun q hq => h q (List.mem_cons_of_mem _ hq))

theorem spellsLine_entry {key : String} {text : List Char} {v : Value} (hkey : IsBare key)
    (htext : Spells text v) : SpellsLine (Settings.entry key text) (.entry [key] v) := by
  intro rest lines hrest fuel hfuel
  have hentry : Settings.entry key text ++ rest =
      key.toList ++ ' ' :: '=' :: ' ' :: (text ++ '\n' :: rest) := by
    simp [Settings.entry]
  rw [hentry] at hfuel ⊢
  obtain ⟨n, rfl⟩ : ∃ n, fuel = n + 1 := ⟨fuel - 1, by simp at hfuel; omega⟩
  exact lines?_of_line (by simp) (lineEnd?_key hkey _) (line?_entry hkey htext rest)
    (lineEnd?_newline rest) (hrest n (by simp at hfuel; omega))

theorem line?_header {key : String} (hkey : IsBare key) (rest : List Char) :
    line? ('[' :: (key.toList ++ ']' :: rest)) = some (.header [key], rest) := by
  have hpath : path? longestPath (key.toList ++ ']' :: rest) = some ([key], ']' :: rest) :=
    path?_key hkey rfl rfl (by decide)
  obtain ⟨d, k, hk, hd⟩ := hkey.eq_cons
  have hbracket : d ≠ '[' := ne_of_isBareKey hd rfl
  rw [hk, List.cons_append] at hpath ⊢
  rw [line?]
  simp [skipBlanks, show isBlank '[' = false from rfl, hbracket, hpath]

theorem spellsLine_header {key : String} (hkey : IsBare key) :
    SpellsLine ('\n' :: '[' :: (key.toList ++ [']', '\n'])) (.header [key]) := by
  intro rest lines hrest fuel hfuel
  simp only [List.cons_append, List.append_assoc, List.nil_append] at hfuel ⊢
  obtain ⟨n, rfl⟩ : ∃ n, fuel = n + 2 := ⟨fuel - 2, by simp at hfuel; omega⟩
  rw [lines?, lineEnd?_newline]
  · refine lines?_of_line (by simp) ?_ (line?_header hkey _) (lineEnd?_newline rest)
      (hrest n (by simp at hfuel; omega))
    simp [lineEnd?, skipBlanks, isBlank]
  · simp

end CigaretteSmokers.Toml
