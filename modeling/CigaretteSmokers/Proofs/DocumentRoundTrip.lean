import CigaretteSmokers.Proofs.TomlLines
import CigaretteSmokers.Proofs.TomlNumbers

/-!
Settings that make sense and fit a document are written to a document that loads as these very
settings, and whatever loads can be written so.
-/

namespace CigaretteSmokers

open Text.Digits

namespace AccessKey

/-- A key that has been written reads back. -/
theorem parse?_render (k : AccessKey) : parse? k.render = some k := by
  have hne : Nat.toDigits 16 k.value.toNat ≠ [] := Nat.toDigits_ne_nil
  have hnumber := number?_toDigits (show 1 < 16 by decide) (by decide) k.value.toNat
  have htext : k.render.toList = '0' :: 'x' :: Nat.toDigits 16 k.value.toNat := by
    simp [render]
  rw [parse?, htext, ofChars?, unsigned, radixOf]
  · cases hd : Nat.toDigits 16 k.value.toNat with
    | nil => exact absurd hd hne
    | cons c ds =>
        rw [hd] at hnumber
        simp [hnumber, k.value.toNat_lt]
  · simp

end AccessKey

namespace Settings

open Toml (Value Entries Line Spells Reads IsBare)

/-- The greatest number of a document. -/
def greatest : Nat := 0x7fffffffffffffff

/-- The numbers of the settings fit a document. -/
def Writable (s : Settings) : Prop :=
  s.cigarettes.toNat ≤ greatest ∧ ∀ seed ∈ s.seed, seed.toNat ≤ greatest

theorem signed_of_le {n : UInt64} (h : n.toNat ≤ greatest) :
    Checked.signed n.toNat = some (Int64.ofInt n.toNat) := by
  have hlow : Int64.minValue.toInt = -9223372036854775808 := rfl
  have hhigh : Int64.maxValue.toInt = 9223372036854775807 := rfl
  rw [Checked.signed, if_pos]
  unfold greatest at h
  omega

theorem signed_of_gt {n : UInt64} (h : ¬ n.toNat ≤ greatest) : Checked.signed n.toNat = none := by
  have hhigh : Int64.maxValue.toInt = 9223372036854775807 := rfl
  rw [Checked.signed, if_neg]
  unfold greatest at h
  omega

theorem natural?_ofInt {n : UInt64} (h : n.toNat ≤ greatest) :
    natural? (.integer (Int64.ofInt n.toNat)) = some n := by
  have hvalue := Checked.toInt_of_signed (signed_of_le h)
  simp [natural?, hvalue]

section Spelling

theorem starts_of_isDigit {c : Char} (h : c = '-' ∨ c.isDigit = true) :
    Toml.isBlank c = false ∧ c ≠ '[' ∧ c ≠ '\x7b' := by
  have hspace : c ≠ ' ' := ne_of_starts h (by decide) rfl
  have htab : c ≠ '\t' := ne_of_starts h (by decide) rfl
  exact ⟨by simp [Toml.isBlank, hspace, htab], ne_of_starts h (by decide) rfl,
    ne_of_starts h (by decide) rfl⟩

theorem spells_natural {n : UInt64} (h : n.toNat ≤ greatest) :
    Spells (Nat.toDigits 10 n.toNat) (.integer (Int64.ofInt n.toNat)) := by
  refine ⟨?_, Toml.scalarValue?_toDigits (signed_of_le h)⟩
  obtain ⟨c, ds, hd, hc, -⟩ := (isRun_toDigits n.toNat).eq_cons
  exact ⟨c, ds, hd, starts_of_isDigit (.inr hc)⟩

theorem spells_float {x : Binary64} (hx : x.isFinite = true) :
    Spells (floatText x) (.float x) := by
  refine ⟨?_, scalarValue?_floatText hx⟩
  obtain ⟨w, f, htext, hw, -⟩ :=
    x.shortest.positional_eq (Binary64.shortest_power_eq_zero hx)
  rw [floatText_eq hx, htext]
  cases x.signed with
  | true => exact ⟨'-', _, rfl, starts_of_isDigit (.inl rfl)⟩
  | false =>
      obtain ⟨c, tail, rfl, hc, -⟩ := hw.eq_cons
      exact ⟨c, _, rfl, starts_of_isDigit (.inr hc)⟩

theorem spells_text (text : String) : Spells (Toml.quote text.toList) (.text text) := by
  have h := Toml.spells_quote text.toList
  rwa [String.ofList_toList] at h

end Spelling

/-- The lines of a document, each with its text. -/
def parts (s : Settings) : List (List Char × Line) :=
  [(entry "key" (Toml.quote s.key.render.toList), .entry ["key"] (.text s.key.render)),
   (entry "cigarettes" (Nat.toDigits 10 s.cigarettes.toNat),
      .entry ["cigarettes"] (.integer (Int64.ofInt s.cigarettes.toNat)))] ++
  (s.seed.toList.map fun seed => (entry "seed" (Nat.toDigits 10 seed.toNat),
      .entry ["seed"] (.integer (Int64.ofInt seed.toNat)))) ++
  [("\n[delay]\n".toList, .header ["delay"]),
   (entry "base" (floatText s.delay.base), .entry ["base"] (.float s.delay.base)),
   (entry "stddev" (floatText s.delay.stddev), .entry ["stddev"] (.float s.delay.stddev)),
   (entry "unit" (Toml.quote s.delay.unit.name.toList), .entry ["unit"] (.text s.delay.unit.name)),
   ("\n[log]\n".toList, .header ["log"]),
   (entry "path" (Toml.quote s.log.path.toList), .entry ["path"] (.text s.log.path)),
   (entry "format" (Toml.quote s.log.format.name.toList),
      .entry ["format"] (.text s.log.format.name))]

theorem toChars_of_writable {s : Settings} (h : s.Writable) :
    s.toChars = .ok (s.parts.flatMap Prod.fst) := by
  obtain ⟨hcigarettes, hseed⟩ := h
  have hnumber : ∀ {n : UInt64}, n.toNat ≤ greatest → naturalText n = .ok (Nat.toDigits 10 n.toNat) :=
    fun h => by simp [naturalText, signed_of_le h]
  unfold toChars parts
  rw [hnumber hcigarettes]
  cases hs : s.seed with
  | none => simp [bind, Except.bind, pure, Except.pure]
  | some seed =>
      simp [hnumber (hseed seed hs), bind, Except.bind, pure, Except.pure]

theorem toDocument_of_writable {s : Settings} (h : s.Writable) :
    s.toDocument = .ok (String.ofList (s.parts.flatMap Prod.fst)) := by
  rw [toDocument, toChars_of_writable h]
  rfl

theorem toChars_of_not_writable {s : Settings} (h : ¬ s.Writable) :
    s.toChars = .error .unwritable := by
  have hnumber : ∀ {n : UInt64}, ¬ n.toNat ≤ greatest → naturalText n = .error .unwritable :=
    fun h => by simp [naturalText, signed_of_gt h]
  unfold toChars
  by_cases hcigarettes : s.cigarettes.toNat ≤ greatest
  · cases hs : s.seed with
    | none => exact absurd ⟨hcigarettes, by simp [hs]⟩ h
    | some seed =>
        have hseed : ¬ seed.toNat ≤ greatest := fun hle => h ⟨hcigarettes, by simpa [hs] using hle⟩
        simp [naturalText, signed_of_le hcigarettes, signed_of_gt hseed, bind, Except.bind]
  · simp [hnumber hcigarettes, bind, Except.bind]

theorem spellsLine_parts {s : Settings} (hs : s.Writable) (hbase : s.delay.base.isFinite = true)
    (hstddev : s.delay.stddev.isFinite = true) : ∀ p ∈ s.parts, Toml.SpellsLine p.1 p.2 := by
  have hentry := @Toml.spellsLine_entry
  have hdelay := Toml.spellsLine_header (show IsBare "delay" by decide)
  have hlog := Toml.spellsLine_header (show IsBare "log" by decide)
  simp only [parts, List.forall_mem_append, List.forall_mem_cons, List.not_mem_nil, false_imp_iff,
    implies_true, and_true, List.forall_mem_map, Option.mem_toList]
  exact ⟨⟨⟨hentry (by decide) (spells_text _), hentry (by decide) (spells_natural hs.1)⟩,
      fun seed hseed => hentry (by decide) (spells_natural (hs.2 seed hseed))⟩,
    hdelay, hentry (by decide) (spells_float hbase), hentry (by decide) (spells_float hstddev),
    hentry (by decide) (spells_text _), hlog, hentry (by decide) (spells_text _),
    hentry (by decide) (spells_text _)⟩

/-- The entries of a document. -/
def entries (s : Settings) : Entries :=
  [("key", .text s.key.render), ("cigarettes", .integer (Int64.ofInt s.cigarettes.toNat))] ++
  (s.seed.toList.map fun seed => ("seed", .integer (Int64.ofInt seed.toNat))) ++
  [("delay", .table .header
      [("base", .float s.delay.base), ("stddev", .float s.delay.stddev),
       ("unit", .text s.delay.unit.name)]),
   ("log", .table .header [("path", .text s.log.path), ("format", .text s.log.format.name)])]

theorem ofLines?_parts (s : Settings) :
    Toml.ofLines? (s.parts.map Prod.snd) = some s.entries := by
  unfold parts entries
  cases s.seed with
  | none =>
      simp [Toml.ofLines?, Toml.Draft.addLine, Toml.Entries.within, Toml.Entries.assign,
        Toml.Entries.openTable, Toml.Entries.add, Toml.Entries.modify]
  | some seed =>
      simp [Toml.ofLines?, Toml.Draft.addLine, Toml.Entries.within, Toml.Entries.assign,
        Toml.Entries.openTable, Toml.Entries.add, Toml.Entries.modify]

theorem find?_unit (u : TimeUnit) : TimeUnit.all.find? (·.name = u.name) = some u := by
  cases u <;> rfl

theorem find?_format (f : LogFormat) : LogFormat.all.find? (·.name = f.name) = some f := by
  cases f <;> rfl

theorem setRecord_delay (d : DelayModel) : setRecord delayFields (.table .header
    [("base", .float d.base), ("stddev", .float d.stddev), ("unit", .text d.unit.name)]) {} =
      .ok d := by
  simp [setRecord, setEntries, delayFields, List.lookup_cons, orMalformed, float?, unit?, Value.choice?,
    find?_unit, bind, Except.bind]

theorem setRecord_log (l : LogSettings) : setRecord logFields (.table .header
    [("path", .text l.path), ("format", .text l.format.name)]) {} = .ok l := by
  simp [setRecord, setEntries, logFields, List.lookup_cons, orMalformed, text?, format?, Value.choice?,
    find?_format, bind, Except.bind]

/-- Every field of a document takes the place of its default. -/
theorem setEntries_entries {s : Settings} (hs : s.Writable) :
    setEntries fields s.entries {} = .ok s := by
  obtain ⟨key, cigarettes, seed, delay, log⟩ := s
  obtain ⟨hcigarettes, hseed⟩ := hs
  unfold entries
  dsimp only at *
  cases seed with
  | none =>
      simp [setEntries, fields, List.lookup_cons, setKey, AccessKey.parse?_render, orMalformed,
        natural?_ofInt hcigarettes, setRecord_delay, setRecord_log, bind, Except.bind, pure,
        Except.pure]
  | some seed =>
      simp [setEntries, fields, List.lookup_cons, setKey, AccessKey.parse?_render, orMalformed,
        natural?_ofInt hcigarettes, natural?_ofInt (hseed seed rfl), setRecord_delay,
        setRecord_log, bind, Except.bind, pure, Except.pure]

theorem ofDocument_parts {s : Settings} (hs : s.Writable) (hbase : s.delay.base.isFinite = true)
    (hstddev : s.delay.stddev.isFinite = true) :
    ofDocument (String.ofList (s.parts.flatMap Prod.fst)) = .ok s := by
  have hreads := Toml.reads_flatMap (spellsLine_parts hs hbase hstddev)
  have hmark : Toml.skipMark (s.parts.flatMap Prod.fst) = s.parts.flatMap Prod.fst := by
    simp [parts, entry, Toml.skipMark]
  have hparse : Toml.parse? (String.ofList (s.parts.flatMap Prod.fst)) = some s.entries := by
    rw [Toml.parse?, String.toList_ofList, Toml.ofChars?, hmark, hreads _ (Nat.le_refl _)]
    exact ofLines?_parts s
  simp only [ofDocument, hparse, setEntries_entries hs]

theorem natural?_le {v : Value} {n : UInt64} (h : natural? v = some n) : n.toNat ≤ greatest := by
  unfold natural? at h
  split at h
  · rename_i k
    split at h
    · cases h
      have hle : k.toInt ≤ 9223372036854775807 := Int64.toInt_le k
      rw [UInt64.toNat_ofNat_of_lt' (by unfold UInt64.size; omega)]
      unfold greatest
      omega
    · cases h
  · cases h

theorem writable_default : Writable {} :=
  ⟨by decide, by simp⟩

theorem eq_of_orMalformed {f : Value → Option (Settings → Settings)} {v : Value} {s t : Settings}
    (h : orMalformed f v s = .ok t) : ∃ g, f v = some g ∧ t = g s := by
  unfold orMalformed at h
  split at h
  · rename_i g hg
    cases h
    exact ⟨g, hg, rfl⟩
  · cases h

/-- No field of a document makes the settings too large for one. -/
theorem writable_of_field {e : String × Setter Settings} (he : e ∈ fields) {v : Value}
    {s t : Settings} (hs : s.Writable) (h : e.2 v s = .ok t) : t.Writable := by
  simp only [fields, List.mem_cons, List.not_mem_nil, or_false] at he
  rcases he with rfl | rfl | rfl | rfl | rfl
  all_goals dsimp only at h
  · unfold setKey at h
    split at h
    · split at h <;> cases h
      exact hs
    · split at h <;> cases h
      exact hs
    · cases h
  · obtain ⟨g, hg, rfl⟩ := eq_of_orMalformed h
    obtain ⟨n, hn, rfl⟩ := Option.map_eq_some_iff.1 hg
    exact ⟨natural?_le hn, hs.2⟩
  · obtain ⟨g, hg, rfl⟩ := eq_of_orMalformed h
    obtain ⟨n, hn, rfl⟩ := Option.map_eq_some_iff.1 hg
    exact ⟨hs.1, by simpa using natural?_le hn⟩
  · dsimp only [bind, Except.bind] at h
    split at h <;> cases h
    exact hs
  · dsimp only [bind, Except.bind] at h
    split at h <;> cases h
    exact hs

theorem writable_of_setEntries {es : Entries} {s t : Settings} (hs : s.Writable)
    (h : setEntries fields es s = .ok t) : t.Writable := by
  induction es generalizing s with
  | nil =>
      cases h
      exact hs
  | cons e es ih =>
      obtain ⟨k, v⟩ := e
      rw [setEntries] at h
      split at h
      · rename_i set hset
        cases hv : set v s with
        | error flaw => simp [hv, bind, Except.bind] at h
        | ok u =>
            simp only [hv, bind, Except.bind] at h
            obtain ⟨before, after, hfields, -⟩ := List.lookup_eq_some_iff.1 hset
            have hmem : (k, set) ∈ fields := by simp [hfields]
            exact ih (writable_of_field hmem hs hv) h
      · exact ih hs h

theorem load_eq_ok {path : String} {content : Except FileError String} {s : Settings} :
    load path content = .ok s ↔
      ∃ text, content = .ok text ∧ ofDocument text = .ok s ∧ s.validate = .ok () := by
  constructor
  · intro h
    unfold load at h
    cases content with
    | error e => simp [Except.mapError, bind, Except.bind] at h
    | ok text =>
        cases hdocument : ofDocument text with
        | error flaw => simp [hdocument, Except.mapError, bind, Except.bind] at h
        | ok t =>
            cases hvalid : t.validate with
            | error e => simp [hdocument, hvalid, Except.mapError, bind, Except.bind] at h
            | ok u =>
                simp only [hdocument, hvalid, Except.mapError, bind, Except.bind] at h
                cases h
                exact ⟨text, rfl, hdocument, hvalid⟩
  · rintro ⟨text, rfl, hdocument, hvalid⟩
    simp [load, hdocument, hvalid, Except.mapError, bind, Except.bind, pure, Except.pure]

/-- Settings that have been loaded make sense and fit a document. -/
theorem writable_of_load {path : String} {content : Except FileError String} {s : Settings}
    (h : load path content = .ok s) : s.Writable := by
  obtain ⟨text, -, hdocument, -⟩ := load_eq_ok.1 h
  unfold ofDocument at hdocument
  split at hdocument
  · exact writable_of_setEntries writable_default hdocument
  · cases hdocument

theorem finite_of_validate {s : Settings} (h : s.validate = .ok ()) :
    s.delay.base.isFinite = true ∧ s.delay.stddev.isFinite = true := by
  unfold validate at h
  split at h
  · cases h
  · split at h
    · cases h
    · split at h
      · cases h
      · simp_all [isAmount]

theorem load_toDocument {s : Settings} (hvalid : s.validate = .ok ()) (hs : s.Writable) :
    ∃ text, s.toDocument = .ok text ∧ ∀ path, load path (.ok text) = .ok s := by
  obtain ⟨hbase, hstddev⟩ := finite_of_validate hvalid
  exact ⟨_, toDocument_of_writable hs, fun path =>
    load_eq_ok.2 ⟨_, rfl, ofDocument_parts hs hbase hstddev, hvalid⟩⟩

/-- Settings that make sense and fit a document are written, and what is written loads as the same
settings; others are not written. Whatever loads makes sense and fits, so it survives a round
trip. -/
theorem document_round_trip :
    (∀ s : Settings, s.validate = .ok () → s.Writable →
      ∃ text, s.toDocument = .ok text ∧ ∀ path, load path (.ok text) = .ok s) ∧
    (∀ s : Settings, ¬ s.Writable → s.toDocument = .error .unwritable) ∧
    ∀ path content s, load path content = .ok s → s.validate = .ok () ∧ s.Writable ∧
      ∃ text, s.toDocument = .ok text ∧ ∀ path, load path (.ok text) = .ok s := by
  refine ⟨fun s => load_toDocument, fun s hs => ?_, fun path content s h => ?_⟩
  · rw [toDocument, toChars_of_not_writable hs]
    rfl
  · obtain ⟨-, -, -, hvalid⟩ := load_eq_ok.1 h
    have hs := writable_of_load h
    exact ⟨hvalid, hs, load_toDocument hvalid hs⟩

/-- The least float, a zero with a sign, the greatest numbers, and a path that needs care. -/
def awkward : Settings where
  key := ⟨0xffffffff⟩
  cigarettes := 0x7fffffffffffffff
  seed := some 0x7fffffffffffffff
  delay := { base := ⟨1⟩, stddev := ⟨0x8000000000000000⟩, unit := .milliseconds }
  log := { path := "''\\\n\"\x7fé'", format := .json }

theorem document_round_trip_awkward : awkward.validate = .ok () ∧ awkward.Writable ∧
    ∃ text, awkward.toDocument = .ok text ∧ load "smokers.toml" (.ok text) = .ok awkward := by
  have hvalid : awkward.validate = .ok () := by decide
  have hs : awkward.Writable := ⟨by decide, by simp [awkward, greatest]⟩
  obtain ⟨text, htext, hload⟩ := document_round_trip.1 awkward hvalid hs
  exact ⟨hvalid, hs, text, htext, hload _⟩

end Settings

end CigaretteSmokers
