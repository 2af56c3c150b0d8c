import CigaretteSmokers.Json.Printer
import CigaretteSmokers.Json.Reader
import CigaretteSmokers.Proofs.DigitRuns

/-!
What is written as JSON is read as what was written, piece by piece: strings, whole numbers, lists
and objects.
-/

namespace CigaretteSmokers.Json

open Text.Digits

/-- What may follow a value inside a list or an object, or at the end. -/
def isCloser (c : Char) : Bool := c = ',' || c = ']' || c = '\x7d'

theorem skipBlanks_cons {c : Char} (h : isBlank c = false) (text : List Char) :
    skipBlanks (c :: text) = c :: text := by
  simp [skipBlanks, h]

/-- The text `s` stands for `v` wherever a value may stand. -/
structure Reads (s : List Char) (v : Value) : Prop where
  starts : ∃ c t, s = c :: t ∧ isBlank c = false ∧ c ≠ ']'
  value : ∀ fuel rest, 2 * s.length ≤ fuel → rest.head?.all isCloser = true →
    value? fuel (s ++ rest) = some (v, rest)

theorem Reads.ofChars {s : List Char} {v : Value} (h : Reads s v) : ofChars? s = some v := by
  have hv := h.value (2 * s.length + 2) [] (by omega) rfl
  rw [List.append_nil] at hv
  simp [ofChars?, hv, skipBlanks]

/-- The piece that stands for a character. -/
def piece (c : Char) : Piece :=
  if c.toNat < 0x20 ∧ c ≠ '\x08' ∧ c ≠ '\x0c' ∧ c ≠ '\n' ∧ c ≠ '\r' ∧ c ≠ '\t' then .unit c.toNat
  else .char c

theorem pieces?_escape (c : Char) (text : List Char) :
    pieces? (escape c ++ text) = (pieces? text).map fun (ps, rest) => (piece c :: ps, rest) := by
  unfold escape
  split
  · rename_i h
    rcases h with rfl | rfl <;> cases h : pieces? text <;> simp [pieces?, escape?, piece, h]
  iterate 5
    split
    · rename_i h
      subst h
      cases h : pieces? text <;> simp [pieces?, escape?, piece, h]
  split
  · rename_i h
    have hdigits : number? 16 0
        ['0', '0', Nat.digitChar (c.toNat / 16), Nat.digitChar (c.toNat % 16)] = some c.toNat := by
      revert h
      generalize c.toNat = n
      revert n
      decide
    have hpiece : piece c = .unit c.toNat := by simp_all [piece]
    cases h : pieces? text <;> simp [pieces?, hdigits, hpiece, h]
  · have hpiece : piece c = .char c := by simp_all [piece]
    rw [hpiece, List.singleton_append, pieces?.eq_def]
    split <;> simp_all [Nat.not_lt.2]
    rw [Option.map_eq_bind]
    rfl

theorem pieces?_flatMap_escape (s rest : List Char) :
    pieces? (s.flatMap escape ++ '"' :: rest) = some (s.map piece, rest) := by
  induction s with
  | nil => simp [pieces?]
  | cons c s ih =>
      rw [List.flatMap_cons, List.append_assoc, pieces?_escape, ih]
      rfl

/-- A unit below the surrogates is a character by itself. -/
theorem assemble?_unit {n : Nat} (h : n < 0xd800) (ps : List Piece) :
    assemble? (.unit n :: ps) = (assemble? ps).map (Char.ofNat n :: ·) := by
  have hlow : isLowUnit n = false := by
    simp only [isLowUnit, Bool.and_eq_false_iff, decide_eq_false_iff_not]
    omega
  have hhigh : isHighUnit n = false := by
    simp only [isHighUnit, Bool.and_eq_false_iff, decide_eq_false_iff_not]
    omega
  rw [assemble?.eq_def]
  simp [hlow, hhigh]

theorem assemble?_map_piece (s : List Char) : assemble? (s.map piece) = some s := by
  induction s with
  | nil => rfl
  | cons c s ih =>
      rw [List.map_cons, piece]
      split
      · rename_i h
        rw [assemble?_unit (by omega), ih]
        simp
      · simp [assemble?, ih]

theorem string?_quote (s : String) (rest : List Char) :
    string? (s.toList.flatMap escape ++ '"' :: rest) = some (some s, rest) := by
  simp [string?, pieces?_flatMap_escape, assemble?_map_piece]

theorem reads_quote (s : String) : Reads (quote s) (.text (some s)) := by
  refine ⟨⟨'"', _, rfl, by decide, by decide⟩, fun fuel rest hfuel _ => ?_⟩
  obtain ⟨n, rfl⟩ : ∃ n, fuel = n + 1 := ⟨fuel - 1, by simp [quote] at hfuel; omega⟩
  simp [value?, quote, skipBlanks_cons (c := '"') (by decide), string?_quote]

theorem reads_boolean (b : Bool) : Reads (if b then "true" else "false").toList (.boolean b) := by
  refine ⟨by cases b <;> exact ⟨_, _, rfl, by decide, by decide⟩, fun fuel rest hfuel _ => ?_⟩
  obtain ⟨n, rfl⟩ : ∃ n, fuel = n + 1 := ⟨fuel - 1, by cases b <;> simp at hfuel <;> omega⟩
  cases b
  · simp [value?, skipBlanks_cons (c := 'f') (by decide)]
  · simp [value?, skipBlanks_cons (c := 't') (by decide)]

theorem whole?_toDigits (n : Nat) {rest : List Char} (hr : rest.head?.any Char.isDigit = false) :
    whole? (Nat.toDigits 10 n ++ rest) = some (Nat.toDigits 10 n, rest) := by
  unfold whole?
  rw [run?_append (isRun_toDigits n) hr]
  by_cases hn : n = 0
  · simp [hn]
  · simp [head_toDigits hn]

theorem not_digit_of_closer {rest : List Char} (h : rest.head?.all isCloser = true) :
    rest.head?.any Char.isDigit = false ∧ fraction? rest = some (false, rest) ∧
      exponent? rest = some (false, rest) := by
  cases rest with
  | nil => exact ⟨rfl, rfl, rfl⟩
  | cons c rest =>
      simp only [List.head?_cons, Option.all_some, isCloser, Bool.or_eq_true, decide_eq_true_eq] at h
      rcases h with (rfl | rfl) | rfl <;> exact ⟨rfl, rfl, rfl⟩

theorem numeral?_ofInt (n : Int) {rest : List Char} (h : rest.head?.all isCloser = true) :
    numeral? (ofInt n ++ rest) = some (.integer n, rest) := by
  obtain ⟨hdigit, hfraction, hexponent⟩ := not_digit_of_closer h
  unfold ofInt
  split
  · rename_i hn
    have hsize : (n.natAbs : Int) = -n := by omega
    simp only [List.cons_append, numeral?, whole?_toDigits _ hdigit, hfraction, hexponent,
      Option.bind_eq_bind, Option.bind_some, Nat.ofDigitChars_ten_toDigits, hsize]
    simp [Int.ne_of_lt hn]
  · rename_i hn
    have hvalue := Nat.ofDigitChars_ten_toDigits (n := n.natAbs)
    have hwhole := whole?_toDigits n.natAbs hdigit
    obtain ⟨c, ds, hd, hc, -⟩ := (isRun_toDigits n.natAbs).eq_cons
    have hminus : c ≠ '-' := ne_of_isDigit hc rfl
    rw [hd] at hvalue hwhole ⊢
    rw [List.cons_append] at hwhole ⊢
    simp [numeral?, hminus, hwhole, hfraction, hexponent, hvalue,
      Int.natAbs_of_nonneg (Int.not_lt.1 hn)]

theorem ofInt_starts (n : Int) : ∃ c t, ofInt n = c :: t ∧ (c = '-' ∨ c.isDigit = true) := by
  unfold ofInt
  split
  · exact ⟨_, _, rfl, .inl rfl⟩
  · obtain ⟨c, ds, hd, hc, -⟩ := (isRun_toDigits n.natAbs).eq_cons
    exact ⟨c, ds, hd, .inr hc⟩

theorem reads_integer (n : Int) : Reads (ofInt n) (.integer n) := by
  obtain ⟨c, t, ht, hc⟩ := ofInt_starts n
  have hne := @ne_of_starts c
  have hblank : isBlank c = false := by
    simp only [isBlank, Bool.or_eq_false_iff, decide_eq_false_iff_not]
    exact ⟨⟨⟨hne hc (by decide) rfl, hne hc (by decide) rfl⟩, hne hc (by decide) rfl⟩,
      hne hc (by decide) rfl⟩
  refine ⟨⟨c, t, ht, hblank, hne hc (by decide) rfl⟩, fun fuel rest hfuel hrest => ?_⟩
  obtain ⟨m, rfl⟩ : ∃ m, fuel = m + 1 := ⟨fuel - 1, by simp [ht] at hfuel; omega⟩
  have hnumeral := numeral?_ofInt n hrest
  rw [ht, List.cons_append] at hnumeral ⊢
  rw [value?, skipBlanks_cons hblank]
  split <;> simp_all

theorem joined_singleton (s : List Char) : joined [s] = s := by
  simp [joined]

theorem joined_cons_cons (s u : List Char) (parts : List (List Char)) :
    joined (s :: u :: parts) = s ++ ',' :: joined (u :: parts) := by
  simp [joined, List.intercalate]

theorem joined_cons (s : List Char) (parts : List (List Char)) :
    ∃ t, joined (s :: parts) = s ++ t := by
  cases parts with
  | nil => exact ⟨[], by rw [joined_singleton, List.append_nil]⟩
  | cons u parts => exact ⟨_, joined_cons_cons s u parts⟩

/-- The items of a list up to its end, each with a comma before the next. -/
theorem items?_joined {parts : List (List Char × Value)} (hne : parts ≠ [])
    (h : ∀ p ∈ parts, Reads p.1 p.2) (fuel : Nat) (rest : List Char)
    (hfuel : 2 * (joined (parts.map Prod.fst)).length < fuel) :
    items? fuel (joined (parts.map Prod.fst) ++ ']' :: rest) = some (parts.map Prod.snd, rest) := by
  induction parts generalizing fuel with
  | nil => exact absurd rfl hne
  | cons p parts ih =>
      obtain ⟨n, rfl⟩ : ∃ n, fuel = n + 1 := ⟨fuel - 1, by omega⟩
      have hp := (h p (by simp)).value
      cases parts with
      | nil =>
          simp only [List.map_cons, List.map_nil, joined_singleton] at hfuel ⊢
          rw [items?, hp n _ (by omega) rfl]
          simp [skipBlanks_cons (c := ']') (by decide)]
      | cons q parts =>
          have hq := ih (by simp) (fun r hr => h r (List.mem_cons_of_mem _ hr)) n
          simp only [List.map_cons, joined_cons_cons, List.length_append, List.length_cons,
            List.append_assoc, List.cons_append] at hfuel hq ⊢
          rw [items?, hp n _ (by omega) rfl]
          simp [skipBlanks_cons (c := ',') (by decide), hq (by omega)]

theorem reads_array {parts : List (List Char × Value)} (hne : parts ≠ [])
    (h : ∀ p ∈ parts, Reads p.1 p.2) :
    Reads (array (parts.map Prod.fst)) (.array (parts.map Prod.snd)) := by
  refine ⟨⟨'[', _, rfl, by decide, by decide⟩, fun fuel rest hfuel _ => ?_⟩
  obtain ⟨n, rfl⟩ : ∃ n, fuel = n + 1 := ⟨fuel - 1, by simp [array] at hfuel; omega⟩
  have hitems := items?_joined hne h n rest (by simp [array] at hfuel; omega)
  have hstart : ∃ c t, joined (parts.map Prod.fst) ++ ']' :: rest = c :: t ∧
      isBlank c = false ∧ c ≠ ']' := by
    cases parts with
    | nil => exact absurd rfl hne
    | cons p parts =>
        obtain ⟨c, t, hp, hc⟩ := (h p (by simp)).starts
        obtain ⟨u, hu⟩ := joined_cons p.1 (parts.map Prod.fst)
        exact ⟨c, _, by rw [List.map_cons, hu, hp]; rfl, hc⟩
  obtain ⟨c, t, ht, hblank, hbracket⟩ := hstart
  rw [ht] at hitems
  simp only [array, List.cons_append, List.append_assoc, List.nil_append, ht]
  rw [value?, skipBlanks_cons (c := '[') (by decide)]
  simp [skipBlanks_cons hblank, hbracket, hitems]

/-- The text of an entry, and what it says. -/
def entryText (e : String × List Char × Value) : List Char := quote e.1 ++ ':' :: e.2.1

theorem entries?_joined {fields : List (String × List Char × Value)} (hne : fields ≠ [])
    (h : ∀ e ∈ fields, Reads e.2.1 e.2.2) (fuel : Nat) (rest : List Char)
    (hfuel : 2 * (joined (fields.map entryText)).length < fuel) :
    entries? fuel (joined (fields.map entryText) ++ '\x7d' :: rest) =
      some (fields.map fun e => (some e.1, e.2.2), rest) := by
  induction fields generalizing fuel with
  | nil => exact absurd rfl hne
  | cons e fields ih =>
      obtain ⟨n, rfl⟩ : ∃ n, fuel = n + 1 := ⟨fuel - 1, by omega⟩
      have he := (h e (by simp)).value
      have hkey : ∀ text, string? (e.1.toList.flatMap escape ++ '"' :: text) =
          some (some e.1, text) := string?_quote e.1
      cases fields with
      | nil =>
          simp only [List.map_cons, List.map_nil, joined_singleton, entryText, quote,
            List.cons_append, List.append_assoc, List.nil_append, List.length_cons,
            List.length_append] at hfuel ⊢
          rw [entries?, skipBlanks_cons (c := '"') (by decide)]
          simp only [hkey, Option.bind_eq_bind, Option.bind_some,
            skipBlanks_cons (c := ':') (by decide)]
          rw [he n _ (by omega) rfl]
          simp [skipBlanks_cons (c := '\x7d') (by decide)]
      | cons q fields =>
          have hq := ih (by simp) (fun r hr => h r (List.mem_cons_of_mem _ hr)) n
          simp only [List.map_cons, joined_cons_cons, entryText, quote, List.cons_append,
            List.append_assoc, List.nil_append, List.length_cons, List.length_append] at hfuel hq ⊢
          rw [entries?, skipBlanks_cons (c := '"') (by decide)]
          simp only [hkey, Option.bind_eq_bind, Option.bind_some,
            skipBlanks_cons (c := ':') (by decide)]
          rw [he n _ (by omega) rfl]
          simp [skipBlanks_cons (c := ',') (by decide), hq (by omega)]

theorem reads_object (fields : List (String × List Char × Value)) (hne : fields ≠ [])
    (h : ∀ e ∈ fields, Reads e.2.1 e.2.2) :
    Reads (object (fields.map fun e => (e.1, e.2.1)))
      (.object (fields.map fun e => (some e.1, e.2.2))) := by
  refine ⟨⟨'\x7b', _, rfl, by decide, by decide⟩, fun fuel rest hfuel _ => ?_⟩
  have hobject : object (fields.map fun e => (e.1, e.2.1)) =
      '\x7b' :: (joined (fields.map entryText) ++ ['\x7d']) := by
    rw [object, List.map_map]
    rfl
  rw [hobject] at hfuel ⊢
  obtain ⟨n, rfl⟩ : ∃ n, fuel = n + 1 := ⟨fuel - 1, by simp at hfuel; omega⟩
  have hentries := entries?_joined hne h n rest (by simp at hfuel; omega)
  have hstart : ∃ t, joined (fields.map entryText) ++ '\x7d' :: rest = '"' :: t := by
    cases fields with
    | nil => exact absurd rfl hne
    | cons e fields =>
        obtain ⟨u, hu⟩ := joined_cons (entryText e) (fields.map entryText)
        exact ⟨_, by rw [List.map_cons, hu]; rfl⟩
  obtain ⟨t, ht⟩ := hstart
  rw [ht] at hentries
  simp only [List.cons_append, List.append_assoc, List.nil_append, ht]
  rw [value?, skipBlanks_cons (c := '\x7b') (by decide)]
  simp [skipBlanks_cons (c := '"') (by decide), hentries]

end CigaretteSmokers.Json
