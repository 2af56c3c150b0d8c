import CigaretteSmokers.Program
import CigaretteSmokers.Proofs.DocumentRoundTrip
import Mathlib.Data.List.Forall2
import Mathlib.Data.Nat.Digits.Defs
import Mathlib.Tactic.Ring

/-!
Which texts are access keys: a grammar of the spellings of a number, and that the reader of keys takes
the numbers below 2³² in these spellings and nothing else.
-/

namespace CigaretteSmokers

namespace Text.Digits

/-- `c` is the digit of a radix that stands for `d`; a letter may be of either case. -/
def Stands (radix : Nat) (c : Char) (d : Nat) : Prop :=
  d < radix ∧ (c = d.digitChar ∨ c = d.digitChar.toUpper)

/-- The digits of the text are those of `n` in a radix, with zeros in front or without. -/
def Writes (radix : Nat) (text : List Char) (n : Nat) : Prop :=
  ∃ ds, text.Forall₂ (Stands radix) ds ∧ n = Nat.ofDigits radix ds.reverse

variable {radix n k d : Nat} {c : Char} {text : List Char}

theorem digit?_eq_some (hd : d < 16) :
    digit? c = some d ↔ c = d.digitChar ∨ c = d.digitChar.toUpper := by
  constructor
  · intro h
    have hc : Char.ofNat c.toNat = c := Char.ofNat_toNat c
    have hdigit : ∀ d < 10, Char.ofNat (48 + d) = d.digitChar := by decide
    have hlower : ∀ d < 6, Char.ofNat (97 + d) = (d + 10).digitChar := by decide
    have hupper : ∀ d < 6, Char.ofNat (65 + d) = (d + 10).digitChar.toUpper := by decide
    unfold digit? at h
    split at h
    · rename_i hrange
      have hlo : 48 ≤ c.toNat := hrange.1
      have hhi : c.toNat ≤ 57 := hrange.2
      obtain rfl : c.toNat - 48 = d := Option.some.inj h
      left
      rw [← hdigit _ (by omega), Nat.add_sub_cancel' hlo, hc]
    split at h
    · rename_i hrange
      have hlo : 97 ≤ c.toNat := hrange.1
      obtain rfl : c.toNat - 97 + 10 = d := Option.some.inj h
      left
      rw [← hlower _ (by omega), Nat.add_sub_cancel' hlo, hc]
    split at h
    · rename_i hrange
      have hlo : 65 ≤ c.toNat := hrange.1
      obtain rfl : c.toNat - 65 + 10 = d := Option.some.inj h
      right
      rw [← hupper _ (by omega), Nat.add_sub_cancel' hlo, hc]
    · cases h
  · rintro (rfl | rfl)
    · exact digit?_digitChar hd
    · revert d
      decide

theorem number?_eq_some (hr : radix ≤ 16) : number? radix k text = some n ↔
    ∃ ds, text.Forall₂ (Stands radix) ds ∧
      n = k * radix ^ ds.length + Nat.ofDigits radix ds.reverse := by
  induction text generalizing k with
  | nil => simp [number?, eq_comm]
  | cons c text ih =>
      have hstep : number? radix k (c :: text) = some n ↔
          ∃ d, Stands radix c d ∧ number? radix (k * radix + d) text = some n := by
        simp only [number?, Option.bind_eq_bind, Option.bind_eq_some_iff]
        constructor
        · rintro ⟨d, hd, h⟩
          split at h
          · rename_i hlt
            exact ⟨d, ⟨hlt, (digit?_eq_some (by omega)).1 hd⟩, h⟩
          · cases h
        · rintro ⟨d, ⟨hlt, hd⟩, h⟩
          exact ⟨d, (digit?_eq_some (by omega)).2 hd, by rwa [if_pos hlt]⟩
      have hvalue : ∀ (d : Nat) (ds : List Nat),
          (k * radix + d) * radix ^ ds.length + Nat.ofDigits radix ds.reverse =
            k * radix ^ (d :: ds).length + Nat.ofDigits radix (d :: ds).reverse := by
        intro d ds
        rw [List.reverse_cons, Nat.ofDigits_append, List.length_cons, List.length_reverse,
          Nat.ofDigits_singleton]
        ring
      rw [hstep]
      simp only [ih, hvalue]
      constructor
      · rintro ⟨d, hd, ds, hds, hn⟩
        exact ⟨d :: ds, .cons hd hds, hn⟩
      · rintro ⟨_, h, hn⟩
        cases h with
        | cons hd hds => exact ⟨_, hd, _, hds, hn⟩

theorem writes_iff (hr : radix ≤ 16) : Writes radix text n ↔ number? radix 0 text = some n := by
  rw [number?_eq_some hr]
  simp only [Writes, Nat.zero_mul, Nat.zero_add]

theorem Stands.toUpper (hr : radix ≤ 16) (h : Stands radix c d) : Stands radix c.toUpper d := by
  obtain ⟨hd, hc⟩ := h
  have hupper : ∀ d < 16, d.digitChar.toUpper.toUpper = d.digitChar.toUpper := by decide
  refine ⟨hd, .inr ?_⟩
  rcases hc with rfl | rfl
  · rfl
  · exact hupper d (by omega)

theorem Writes.toUpper (hr : radix ≤ 16) (h : Writes radix text n) :
    Writes radix (text.map Char.toUpper) n := by
  obtain ⟨ds, hds, hn⟩ := h
  exact ⟨ds, List.forall₂_map_left_iff.2 (hds.imp fun _ _ => Stands.toUpper hr), hn⟩

theorem writes_toDigits (h : 1 < radix) (hr : radix ≤ 16) (n : Nat) :
    Writes radix (Nat.toDigits radix n) n :=
  (writes_iff hr).2 (number?_toDigits h hr n)

end Text.Digits

open Text.Digits

namespace AccessKey

/-- The spellings of a number without a sign: in hexadecimal after a mark, in octal after a zero, or
in decimal, where only zero itself begins with a zero. -/
inductive Unsigned (n : Nat) : List Char → Prop
  | hexadecimal {mark digits} (hm : mark = 'x' ∨ mark = 'X') (hne : digits ≠ [])
      (h : Writes 16 digits n) : Unsigned n ('0' :: mark :: digits)
  | octal {digits} (hne : digits ≠ []) (h : Writes 8 digits n) : Unsigned n ('0' :: digits)
  | zero (h : n = 0) : Unsigned n ['0']
  | decimal {c digits} (hc : c ≠ '0') (h : Writes 10 (c :: digits) n) : Unsigned n (c :: digits)

/-- The spellings of a number, with a plus sign or without. -/
inductive Spells (n : Nat) : List Char → Prop
  | plain {text} (h : Unsigned n text) : Spells n text
  | plus {text} (h : Unsigned n text) : Spells n ('+' :: text)

variable {n : Nat} {text : List Char}

theorem radixOf_of_mark {mark : Char} (hm : mark = 'x' ∨ mark = 'X') (digits : List Char) :
    radixOf ('0' :: mark :: digits) = (16, digits) := by
  rcases hm with rfl | rfl <;> rfl

theorem radixOf_of_no_mark {c : Char} (hm : ¬ (c = 'x' ∨ c = 'X')) (digits : List Char) :
    radixOf ('0' :: c :: digits) = (8, c :: digits) := by
  rw [not_or] at hm
  simp [radixOf, hm.1, hm.2]

theorem radixOf_of_ne {c : Char} (hc : c ≠ '0') (digits : List Char) :
    radixOf (c :: digits) = (10, c :: digits) := by
  unfold radixOf
  split <;> simp_all

/-- The reader tells the radix by the first two characters, as the grammar does. -/
theorem unsigned_iff : Unsigned n text ↔
    (radixOf text).2 ≠ [] ∧ number? (radixOf text).1 0 (radixOf text).2 = some n := by
  rcases text with _ | ⟨c, text⟩
  · constructor
    · intro h
      cases h
    · rintro ⟨hne, -⟩
      exact absurd rfl hne
  by_cases hc : c = '0'
  · subst hc
    rcases text with _ | ⟨d, digits⟩
    · have hzero : number? 10 0 ['0'] = some 0 := rfl
      constructor
      · intro h
        cases h with
        | octal hne => exact absurd rfl hne
        | zero h => exact ⟨by simp [radixOf], h ▸ hzero⟩
        | decimal hc => exact absurd rfl hc
      · rintro ⟨-, h⟩
        exact .zero (Option.some.inj (h.symm.trans hzero))
    · by_cases hm : d = 'x' ∨ d = 'X'
      · rw [radixOf_of_mark hm, ← writes_iff (by decide : 16 ≤ 16)]
        constructor
        · intro h
          cases h with
          | hexadecimal _ hne h => exact ⟨hne, h⟩
          | octal _ h =>
              -- The mark is no octal digit.
              rw [writes_iff (by decide)] at h
              rcases hm with rfl | rfl <;> cases h
          | decimal hc => exact absurd rfl hc
        · rintro ⟨hne, h⟩
          exact .hexadecimal hm hne h
      · rw [radixOf_of_no_mark hm, ← writes_iff (by decide : 8 ≤ 16)]
        constructor
        · intro h
          cases h with
          | hexadecimal hm' => exact absurd hm' hm
          | octal hne h => exact ⟨hne, h⟩
          | decimal hc => exact absurd rfl hc
        · rintro ⟨hne, h⟩
          exact .octal hne h
  · rw [radixOf_of_ne hc, ← writes_iff (by decide : 10 ≤ 16)]
    constructor
    · intro h
      cases h with
      | hexadecimal | octal | zero => exact absurd rfl hc
      | decimal _ h => exact ⟨by simp, h⟩
    · rintro ⟨-, h⟩
      exact .decimal hc h

theorem Unsigned.ne_plus (h : Unsigned n ('+' :: text)) : False := by
  cases h with
  | decimal _ h =>
      rw [writes_iff (by decide)] at h
      cases h

theorem spells_iff : Spells n text ↔ Unsigned n (unsigned text) := by
  constructor
  · intro h
    cases h with
    | plain h =>
        rw [unsigned]
        · exact h
        · rintro rest rfl
          exact h.ne_plus
    | plus h => exact h
  · intro h
    unfold unsigned at h
    split at h
    · exact .plus h
    · exact .plain h

theorem ofChars?_eq_some {k : AccessKey} : ofChars? text = some k ↔ Spells k.value.toNat text := by
  rw [spells_iff, unsigned_iff]
  unfold ofChars?
  rcases radixOf (AccessKey.unsigned text) with ⟨radix, _ | ⟨c, digits⟩⟩
  · simp
  · simp only [Option.bind_eq_bind, Option.bind_eq_some_iff, ne_eq, reduceCtorEq,
      not_false_eq_true, true_and]
    constructor
    · rintro ⟨n, hn, h⟩
      split at h
      · rename_i hlt
        cases h
        rw [hn, UInt32.toNat_ofNat_of_lt' hlt]
      · cases h
    · intro h
      refine ⟨_, h, ?_⟩
      rw [if_pos k.value.toNat_lt_size, UInt32.ofNat_toNat]

/-- Some spellings of a key: as it is displayed, in decimal, in hexadecimal and in octal. -/
def spellings (k : AccessKey) : List (List Char) :=
  [k.render.toList, Nat.toDigits 10 k.value.toNat, '0' :: 'x' :: Nat.toDigits 16 k.value.toNat,
    '0' :: 'X' :: (Nat.toDigits 16 k.value.toNat).map Char.toUpper,
    '0' :: Nat.toDigits 8 k.value.toNat]

theorem unsigned_of_mem_spellings {k : AccessKey} (h : text ∈ k.spellings) :
    Unsigned k.value.toNat text := by
  have hlower : Unsigned k.value.toNat ('0' :: 'x' :: Nat.toDigits 16 k.value.toNat) :=
    .hexadecimal (.inl rfl) Nat.toDigits_ne_nil (writes_toDigits (by decide) (by decide) _)
  simp only [spellings, List.mem_cons, List.not_mem_nil, or_false] at h
  rcases h with rfl | rfl | rfl | rfl | rfl
  · simpa [render] using hlower
  · rcases Nat.eq_zero_or_pos k.value.toNat with hzero | hpos
    · rw [hzero]
      exact .zero rfl
    · have hhead := head_toDigits hpos.ne'
      have hwrites := writes_toDigits (by decide : 1 < 10) (by decide) k.value.toNat
      cases hd : Nat.toDigits 10 k.value.toNat with
      | nil => exact absurd hd Nat.toDigits_ne_nil
      | cons c digits =>
          rw [hd] at hhead hwrites
          exact .decimal (fun hc => hhead (congrArg some hc)) hwrites
  · exact hlower
  · exact .hexadecimal (.inr rfl) (by simp [Nat.toDigits_ne_nil])
      ((writes_toDigits (by decide) (by decide) _).toUpper (by decide))
  · exact .octal Nat.toDigits_ne_nil (writes_toDigits (by decide) (by decide) _)

/-- A text is read as the key `k` if it spells the value of `k`, and every other text is refused by
name, be it an option or a value in a document. Whatever way a key is spelled, it is read. -/
theorem reads_spellings_only (text : String) (s : Settings) :
    (∀ k, parse? text = some k ↔ Spells k.value.toNat text.toList) ∧
    ((∀ n < UInt32.size, ¬ Spells n text.toList) → parse? text = none ∧
      s.withKey (some text) = .error (.invalidKey text) ∧
      Settings.setKey (.text text) s = .error (.badKey text)) ∧
    ∀ k : AccessKey, Settings.setKey (.integer (.ofNat k.value.toNat)) s = .ok { s with key := k } ∧
      ∀ t ∈ k.spellings, ∀ sign ∈ [[], ['+']],
        parse? (String.ofList (sign ++ t)) = some k ∧
        Settings.setKey (.text (String.ofList (sign ++ t))) s = .ok { s with key := k } := by
  have hparse : ∀ {text : String} k, parse? text = some k ↔ Spells k.value.toNat text.toList :=
    fun _ => ofChars?_eq_some
  refine ⟨hparse, fun hnone => ?_, fun k => ⟨?_, fun t ht sign hsign => ?_⟩⟩
  · have hp : parse? text = none := by
      rw [Option.eq_none_iff_forall_ne_some]
      intro k hk
      exact hnone _ k.value.toNat_lt_size ((hparse k).1 hk)
    exact ⟨hp, by simp only [Settings.withKey, hp], by simp only [Settings.setKey, hp]⟩
  · have hlt : k.value.toNat < 2 ^ 32 := k.value.toNat_lt
    have hint : (Int64.ofNat k.value.toNat).toInt = k.value.toNat :=
      Int64.toInt_ofNat_of_lt (by omega)
    have hrange : 0 ≤ (k.value.toNat : Int) ∧ (k.value.toNat : Int) < UInt32.size :=
      ⟨by omega, by exact_mod_cast k.value.toNat_lt_size⟩
    simp only [Settings.setKey, hint, if_pos hrange, Int.toNat_natCast, UInt32.ofNat_toNat]
  · have hspells : Spells k.value.toNat (sign ++ t) := by
      have hu := unsigned_of_mem_spellings ht
      simp only [List.mem_cons, List.not_mem_nil, or_false] at hsign
      rcases hsign with rfl | rfl
      · exact .plain hu
      · exact .plus hu
    have hp : parse? (String.ofList (sign ++ t)) = some k :=
      (hparse k).2 (by simpa only [String.toList_ofList] using hspells)
    exact ⟨hp, by simp only [Settings.setKey, hp]⟩

theorem reads_spellings_only_bounds :
    parse? "+0xFFFFFFFF" = some ⟨4294967295⟩ ∧
    Settings.withKey {} (some "0x+0") = .error (.invalidKey "0x+0") ∧
    parse? "+00" = some ⟨0⟩ := by
  refine ⟨?_, ?_, ?_⟩
  · obtain ⟨hspells, -⟩ := reads_spellings_only "+0xFFFFFFFF" {}
    refine (hspells _).2 (.plus (.hexadecimal (.inl rfl) (by simp) ?_))
    exact (writes_iff (by decide)).2 (by decide)
  · obtain ⟨-, hother, -⟩ := reads_spellings_only "0x+0" {}
    refine (hother fun n _ h => ?_).2.1
    rw [spells_iff, unsigned_iff] at h
    cases h.2
  · exact ((reads_spellings_only "" {}).2.2 ⟨0⟩).2 ['0', '0'] (by decide) ['+'] (by decide) |>.1

end AccessKey

end CigaretteSmokers
