import CigaretteSmokers.Disk.FileTree
import CigaretteSmokers.Program
import CigaretteSmokers.Proofs.DocumentRoundTrip
import Mathlib

/-!
How settings come about: each field by itself from its option, else from the file, else from the
defaults; and what is left alone when the settings cannot be had.
-/

namespace CigaretteSmokers

namespace Settings

open Toml (Value Entries)

/-- What a document has under a name. If it were there twice, the last would count. -/
def said (name : String) (es : Entries) : Option Value := es.reverse.lookup name

theorem said_cons (name k : String) (v : Value) (es : Entries) :
    said name ((k, v) :: es) = (said name es).or (if k = name then some v else none) := by
  rw [said, List.reverse_cons, List.lookup_append, ← said, List.lookup_cons, List.lookup_nil]
  by_cases h : k = name
  · simp [h]
  · have hne : (name == k) = false := by simpa using Ne.symm h
    simp [h, hne]

/-- The value that is read where something is said, and else the default. -/
def Given {β : Type} (read : Value → Option β) (default : β) : Option Value → β → Prop
  | none, b => b = default
  | some v, b => read v = some b

section

variable {α β : Type} {fields : Fields α} {name : String} {view : α → β} {read : Value → Option β}

/-- One part of a record is set under one name, and is what is read there. -/
structure Field (fields : Fields α) (name : String) (view : α → β) (read : Value → Option β) :
    Prop where
  known : (fields.lookup name).isSome = true
  sets : ∀ {k set v a b}, (k, set) ∈ fields → set v a = .ok b →
    if k = name then read v = some (view b) else view b = view a

theorem mem_of_lookup {k : String} {set : Setter α} (h : fields.lookup k = some set) :
    (k, set) ∈ fields := by
  obtain ⟨before, after, rfl, -⟩ := List.lookup_eq_some_iff.1 h
  simp

theorem Field.given (hfield : Field fields name view read) {es : Entries} {a b : α}
    (h : setEntries fields es a = .ok b) : Given read (view a) (said name es) (view b) := by
  induction es generalizing a with
  | nil =>
      cases h
      rfl
  | cons e es ih =>
      obtain ⟨k, v⟩ := e
      rw [setEntries] at h
      rw [said_cons]
      cases hlookup : fields.lookup k with
      | none =>
          have hne : k ≠ name := by
            rintro rfl
            simpa [hlookup] using hfield.known
          simp only [hlookup] at h
          simpa [hne] using ih h
      | some set =>
          have hmem := mem_of_lookup hlookup
          cases hset : set v a with
          | error flaw => simp [hlookup, hset, bind, Except.bind] at h
          | ok a' =>
              simp only [hlookup, hset, bind, Except.bind] at h
              have hrest := ih h
              have hsets := hfield.sets hmem hset
              by_cases hk : k = name
              · subst hk
                rw [if_pos rfl] at hsets
                cases hsaid : said k es with
                | none =>
                    -- nothing comes later, so what is read here stays
                    rw [hsaid] at hrest
                    have hlast : view b = view a' := hrest
                    simpa [Given, hlast] using hsets
                | some w =>
                    rw [hsaid] at hrest
                    exact hrest
              · rw [if_neg hk] at hsets
                simpa [hk, hsets] using hrest

end

/-- A key is a number, or one of its spellings. -/
def key? : Value → Option AccessKey
  | .integer n =>
      if 0 ≤ n.toInt ∧ n.toInt < UInt32.size then some ⟨UInt32.ofNat n.toInt.toNat⟩ else none
  | .text t => AccessKey.parse? t
  | _ => none

def delay? (v : Value) : Option DelayModel := (setRecord delayFields v {}).toOption

def log? (v : Value) : Option LogSettings := (setRecord logFields v {}).toOption

theorem eq_of_setKey {v : Value} {s t : Settings} (h : setKey v s = .ok t) :
    key? v = some t.key ∧ t = { s with key := t.key } := by
  unfold setKey at h
  split at h
  · split at h
    · rename_i hn
      cases h
      exact ⟨if_pos hn, rfl⟩
    · cases h
  · split at h
    · rename_i key hkey
      cases h
      exact ⟨hkey, rfl⟩
    · cases h
  · cases h

theorem eq_of_orMalformed_map {α β : Type} {read : Value → Option β} {put : β → α → α} {v : Value}
    {a b : α} (h : orMalformed (fun v => (read v).map put) v a = .ok b) :
    ∃ x, read v = some x ∧ b = put x a := by
  unfold orMalformed at h
  cases hread : read v with
  | none => simp [hread] at h
  | some x =>
      simp only [hread, Option.map_some, Except.ok.injEq] at h
      exact ⟨x, rfl, h.symm⟩

/-- What each entry of a document does to the settings. -/
theorem of_field {k : String} {set : Setter Settings} {v : Value} {s t : Settings}
    (hmem : (k, set) ∈ fields) (h : set v s = .ok t) :
    (k = "key" ∧ key? v = some t.key ∧ t = { s with key := t.key }) ∨
    (k = "cigarettes" ∧ natural? v = some t.cigarettes ∧ t = { s with cigarettes := t.cigarettes }) ∨
    (k = "seed" ∧ (natural? v).map some = some t.seed ∧ t = { s with seed := t.seed }) ∨
    (k = "delay" ∧ delay? v = some t.delay ∧ t = { s with delay := t.delay }) ∨
    (k = "log" ∧ log? v = some t.log ∧ t = { s with log := t.log }) := by
  simp only [fields, List.mem_cons, Prod.mk.injEq, List.not_mem_nil, or_false] at hmem
  rcases hmem with ⟨rfl, rfl⟩ | ⟨rfl, rfl⟩ | ⟨rfl, rfl⟩ | ⟨rfl, rfl⟩ | ⟨rfl, rfl⟩
  · exact .inl ⟨rfl, eq_of_setKey h⟩
  · obtain ⟨n, hn, rfl⟩ := eq_of_orMalformed_map h
    exact .inr (.inl ⟨rfl, hn, rfl⟩)
  · obtain ⟨n, hn, rfl⟩ := eq_of_orMalformed_map h
    exact .inr (.inr (.inl ⟨rfl, by simp [hn], rfl⟩))
  · cases hd : setRecord delayFields v {} with
    | error flaw => simp [hd, bind, Except.bind] at h
    | ok d =>
        simp only [hd, bind, Except.bind, pure, Except.pure, Except.ok.injEq] at h
        subst h
        exact .inr (.inr (.inr (.inl ⟨rfl, by simp [delay?, hd, Except.toOption], rfl⟩)))
  · cases hl : setRecord logFields v {} with
    | error flaw => simp [hl, bind, Except.bind] at h
    | ok l =>
        simp only [hl, bind, Except.bind, pure, Except.pure, Except.ok.injEq] at h
        subst h
        exact .inr (.inr (.inr (.inr ⟨rfl, by simp [log?, hl, Except.toOption], rfl⟩)))

theorem field_key : Field fields "key" Settings.key key? where
  known := rfl
  sets hmem h := by
    have := of_field hmem h
    grind

theorem field_cigarettes : Field fields "cigarettes" Settings.cigarettes natural? where
  known := rfl
  sets hmem h := by
    have := of_field hmem h
    grind

theorem field_seed : Field fields "seed" Settings.seed (fun v => (natural? v).map some) where
  known := rfl
  sets hmem h := by
    have := of_field hmem h
    grind

theorem field_delay : Field fields "delay" Settings.delay delay? where
  known := rfl
  sets hmem h := by
    have := of_field hmem h
    grind

theorem field_log : Field fields "log" Settings.log log? where
  known := rfl
  sets hmem h := by
    have := of_field hmem h
    grind

/-- What each entry of a table does to the settings of the log. -/
theorem of_logField {k : String} {set : Setter LogSettings} {v : Value} {l m : LogSettings}
    (hmem : (k, set) ∈ logFields) (h : set v l = .ok m) :
    (k = "path" ∧ text? v = some m.path ∧ m = { l with path := m.path }) ∨
    (k = "format" ∧ format? v = some m.format ∧ m = { l with format := m.format }) := by
  simp only [logFields, List.mem_cons, Prod.mk.injEq, List.not_mem_nil, or_false] at hmem
  rcases hmem with ⟨rfl, rfl⟩ | ⟨rfl, rfl⟩
  · obtain ⟨path, hpath, rfl⟩ := eq_of_orMalformed_map h
    exact .inl ⟨rfl, hpath, rfl⟩
  · obtain ⟨format, hformat, rfl⟩ := eq_of_orMalformed_map h
    exact .inr ⟨rfl, hformat, rfl⟩

theorem field_path : Field logFields "path" LogSettings.path text? where
  known := rfl
  sets hmem h := by
    have := of_logField hmem h
    grind

theorem field_format : Field logFields "format" LogSettings.format format? where
  known := rfl
  sets hmem h := by
    have := of_logField hmem h
    grind

/-- Settings as a document gives them, with the defaults for what it leaves out. -/
structure Filled (es : Entries) (s : Settings) : Prop where
  key : Given key? .default (said "key" es) s.key
  cigarettes : Given natural? 10 (said "cigarettes" es) s.cigarettes
  seed : Given (fun v => (natural? v).map some) none (said "seed" es) s.seed
  delay : Given delay? {} (said "delay" es) s.delay
  log : Given log? {} (said "log" es) s.log
  path : ∀ form inner, said "log" es = some (.table form inner) →
    Given text? "smokers.log" (said "path" inner) s.log.path
  format : ∀ form inner, said "log" es = some (.table form inner) →
    Given format? .table (said "format" inner) s.log.format

theorem filled_of_setEntries {es : Entries} {s : Settings} (h : setEntries fields es {} = .ok s) :
    Filled es s := by
  have hlog := field_log.given h
  have hentries : ∀ form inner, said "log" es = some (.table form inner) →
      setEntries logFields inner {} = .ok s.log := by
    intro form inner hsaid
    rw [hsaid] at hlog
    have hread : (setEntries logFields inner {}).toOption = some s.log := hlog
    cases hset : setEntries logFields inner {} with
    | error flaw => simp [hset, Except.toOption] at hread
    | ok l => simpa [hset, Except.toOption] using hread
  exact {
    key := field_key.given h
    cigarettes := field_cigarettes.given h
    seed := field_seed.given h
    delay := field_delay.given h
    log := hlog
    path := fun form inner hsaid => field_path.given (hentries form inner hsaid)
    format := fun form inner hsaid => field_format.given (hentries form inner hsaid) }

theorem filled_of_ofDocument {text : String} {s : Settings} (h : ofDocument text = .ok s) :
    ∃ es, Toml.parse? text = some es ∧ Filled es s := by
  unfold ofDocument at h
  split at h
  · rename_i es hes
    exact ⟨es, hes, filled_of_setEntries h⟩
  · cases h

section Override

variable {s : Settings} {o : RunOptions}

/-- The settings with every option that is given in the place of its field. -/
def overlaid (s : Settings) (o : RunOptions) : Settings where
  key := (o.key.bind AccessKey.parse?).getD s.key
  cigarettes := o.cigarettes.getD s.cigarettes
  seed := o.seed <|> s.seed
  delay := s.delay
  log := { path := o.log.getD s.log.path, format := o.format.getD s.log.format }

theorem override_of_badKey {text : String} (hkey : o.key = some text)
    (hbad : AccessKey.parse? text = none) : s.override o = .error (.invalidKey text) := by
  simp [override, withKey, hkey, hbad, bind, Except.bind]

theorem withKey_of_good (hkey : ∀ text ∈ o.key, (AccessKey.parse? text).isSome = true) :
    s.withKey o.key = .ok { s with key := (o.key.bind AccessKey.parse?).getD s.key } := by
  unfold withKey
  cases h : o.key with
  | none => rfl
  | some text =>
      obtain ⟨key, hparse⟩ := Option.isSome_iff_exists.1 (hkey text h)
      simp [hparse]

/-- Once the key is read, only the check of the settings is left. -/
theorem override_of_good (hkey : ∀ text ∈ o.key, (AccessKey.parse? text).isSome = true) :
    s.override o = (s.overlaid o).validate.map fun _ => s.overlaid o := by
  unfold override
  rw [withKey_of_good hkey]
  change ((s.overlaid o).validate >>= fun _ => .ok (s.overlaid o)) = _
  cases (s.overlaid o).validate <;> rfl

theorem validate_overlaid (hs : s.validate = .ok ()) : (s.overlaid o).validate =
    if o.cigarettes = some 0 then .error (.invalid .noCigarettes) else .ok () := by
  have hcigarettes : (s.overlaid o).cigarettes = 0 ↔ o.cigarettes = some 0 := by
    have hbase : s.cigarettes ≠ 0 := by
      rintro h
      simp [validate, h] at hs
    cases h : o.cigarettes with
    | none => simp [overlaid, h, hbase]
    | some n => simp [overlaid, h]
  -- the other checks read the delay, which no option changes
  unfold validate at hs ⊢
  simp only [hcigarettes]
  split at hs
  · cases hs
  · split
    · rfl
    · exact hs

/-- Every key that is given can be read. -/
def KeyGood (o : RunOptions) : Prop := ∀ text ∈ o.key, (AccessKey.parse? text).isSome = true

theorem keyGood_or_bad (o : RunOptions) :
    KeyGood o ∨ ∃ text ∈ o.key, AccessKey.parse? text = none := by
  unfold KeyGood
  cases o.key with
  | none => simp
  | some text => cases h : AccessKey.parse? text <;> simp [h]

theorem override_eq_ok (hs : s.validate = .ok ()) {t : Settings} : s.override o = .ok t ↔
    KeyGood o ∧ o.cigarettes ≠ some 0 ∧ t = s.overlaid o := by
  rcases keyGood_or_bad o with hkey | ⟨text, htext, hbad⟩
  · rw [override_of_good hkey, validate_overlaid hs]
    split <;> simp_all [Except.map, eq_comm]
  · have hnot : ¬ KeyGood o := fun hkey => by simpa [hbad] using hkey text htext
    simp [override_of_badKey htext hbad, hnot]

theorem override_eq_error (hs : s.validate = .ok ()) {e : SettingsError} : s.override o = .error e ↔
    (∃ text ∈ o.key, AccessKey.parse? text = none ∧ e = .invalidKey text) ∨
      (KeyGood o ∧ o.cigarettes = some 0 ∧ e = .invalid .noCigarettes) := by
  rcases keyGood_or_bad o with hkey | ⟨text, htext, hbad⟩
  · have hnot : ∀ text ∈ o.key, AccessKey.parse? text ≠ none := fun text htext hbad => by
      simpa [hbad] using hkey text htext
    rw [override_of_good hkey, validate_overlaid hs]
    split <;> simp_all [Except.map, eq_comm]
  · have hnot : ¬ KeyGood o := fun hkey => by simpa [hbad] using hkey text htext
    rw [Option.mem_def] at htext
    simp [override_of_badKey htext hbad, hnot, htext, hbad, eq_comm]

end Override

end Settings

namespace Program

variable {σ : Type} [Disk (StateM σ)]

/-- What a file system holds at a path. -/
def content (disk : σ) (path : String) : Except FileError String :=
  ((Disk.read path : StateM σ (Except FileError String)) disk).1

/-- How a file system is left by a look at the file, if one is named. -/
def consulted (disk : σ) : Option String → σ
  | none => disk
  | some path => ((Disk.read path : StateM σ (Except FileError String)) disk).2

/-- What the options are laid over. -/
def base (disk : σ) : Option String → Except CommandError Settings
  | none => .ok {}
  | some path => (Settings.load path (content disk path)).mapError (.configuration path)

variable {disk : σ}

theorem mapError_eq_ok {ε δ α : Type} {f : ε → δ} {r : Except ε α} {a : α} :
    r.mapError f = .ok a ↔ r = .ok a := by
  cases r <;> simp [Except.mapError]

theorem mapError_eq_error {ε δ α : Type} {f : ε → δ} {r : Except ε α} {d : δ} :
    r.mapError f = .error d ↔ ∃ e, r = .error e ∧ f e = d := by
  cases r <;> simp [Except.mapError]

omit [Disk (StateM σ)] in
/-- One command after another, as a change to the file system. -/
theorem bind_apply {ε α β : Type} (x : ExceptT ε (StateM σ) α) (f : α → ExceptT ε (StateM σ) β) :
    (x >>= f) disk = match x disk with
      | (.ok a, after) => f a after
      | (.error e, after) => (.error e, after) := by
  simp only [bind, ExceptT.bind, ExceptT.mk, StateT.bind]
  rcases x disk with ⟨e | a, after⟩ <;> rfl

theorem configuration_apply (config : Option String) :
    (configuration config : ExceptT CommandError (StateM σ) Settings) disk =
      (base disk config, consulted disk config) := by
  cases config with
  | none => rfl
  | some path =>
      have hread : (liftM (Disk.read path : StateM σ (Except FileError String)) :
          ExceptT CommandError (StateM σ) _) disk =
            (.ok (content disk path), consulted disk (some path)) := rfl
      rw [configuration, bind_apply, hread]
      simp only [base]
      cases Settings.load path (content disk path) <;> rfl

theorem resolve_apply (o : RunOptions) :
    (resolve o : ExceptT CommandError (StateM σ) Settings) disk =
      (base disk o.config >>= fun s => (s.override o).mapError .settings,
        consulted disk o.config) := by
  rw [resolve, bind_apply, configuration_apply]
  cases base disk o.config <;> rfl

/-- The file, if one is named, can be read, is a document and makes sense by itself. -/
def FileGood (disk : σ) (config : Option String) : Prop :=
  ∀ path ∈ config, ∃ text s, content disk path = .ok text ∧ Settings.ofDocument text = .ok s ∧
    s.validate = .ok ()

/-- The settings before any option: the defaults, or what the file says, filled up from them. -/
def Based (disk : σ) (config : Option String) (s : Settings) : Prop :=
  match config with
  | none => s = {}
  | some path => ∃ text es, content disk path = .ok text ∧ Toml.parse? text = some es ∧
      Settings.Filled es s

theorem base_some_eq_ok {path : String} {s : Settings} :
    base disk (some path) = .ok s ↔ Settings.load path (content disk path) = .ok s := mapError_eq_ok

theorem exists_base_iff {config : Option String} :
    (∃ s, base disk config = .ok s) ↔ FileGood disk config := by
  cases config with
  | none => simp [base, FileGood]
  | some path =>
      simp only [base_some_eq_ok, Settings.load_eq_ok, FileGood, Option.mem_some_iff, forall_eq']
      exact exists_comm

theorem base_ok {config : Option String} {s : Settings} (h : base disk config = .ok s) :
    s.validate = .ok () ∧ Based disk config s := by
  cases config with
  | none =>
      cases h
      exact ⟨by decide, rfl⟩
  | some path =>
      obtain ⟨text, htext, hdocument, hvalid⟩ := Settings.load_eq_ok.1 (base_some_eq_ok.1 h)
      obtain ⟨es, hes, hfilled⟩ := Settings.filled_of_ofDocument hdocument
      exact ⟨hvalid, text, es, htext, hes, hfilled⟩

theorem base_eq_error {config : Option String} {e : CommandError} : base disk config = .error e ↔
    ∃ path ∈ config, ∃ cause, Settings.load path (content disk path) = .error cause ∧
      e = .configuration path cause := by
  cases config with
  | none => simp [base]
  | some path =>
      simp only [base, mapError_eq_error, Option.mem_some_iff, exists_eq_left', @eq_comm _ e]

/-- A run that finds no settings ends there. -/
theorem execute_of_error {o : RunOptions} {c : Circumstances} {e : CommandError}
    (h : ((resolve o : ExceptT CommandError (StateM σ) Settings) disk).1 = .error e) :
    (execute c (.run o) : StateM σ Outcome) disk = ({ error := some e }, consulted disk o.config) := by
  have hresolve : (resolve o : ExceptT CommandError (StateM σ) Settings) disk =
      (.error e, consulted disk o.config) := by
    rw [resolve_apply] at h ⊢
    exact Prod.ext h rfl
  have hrun : ((do simulate (← resolve o) c : ExceptT CommandError (StateM σ) Report)) disk =
      (.error e, consulted disk o.config) := by
    rw [bind_apply, hresolve]
  have hbind : ∀ {α β : Type} (x : StateM σ α) (f : α → StateM σ β),
      (x >>= f) disk = f (x disk).1 (x disk).2 := fun _ _ => rfl
  rw [execute, hbind, hrun]
  rfl

theorem simulate_of_invalid {s : Settings} {c : Circumstances} {e : SettingsError}
    (h : s.validate = .error e) : (simulate s c : ExceptT CommandError (StateM σ) Report) disk =
      (.error (.settings e), disk) := by
  have hvalidate : (orSettingsError s.validate : ExceptT CommandError (StateM σ) Unit) disk =
      (.error (.settings e), disk) := by
    rw [h]
    rfl
  rw [simulate, bind_apply, hvalidate]

/-- Options override the file, and the file the defaults, field by field. What fails first is told: the
file, the key, a count of zero. Where there are no settings, or where they make no sense, nothing
happens but a look at the file: no log is made or emptied, and there is no run that could take a step or
save a table. -/
theorem options_override (disk : σ) (o : RunOptions) :
    let resolved := ((resolve o : ExceptT CommandError (StateM σ) Settings) disk).1
    ((∃ s, resolved = .ok s) ↔
      FileGood disk o.config ∧ Settings.KeyGood o ∧ o.cigarettes ≠ some 0) ∧
    (∀ s, resolved = .ok s → s.validate = .ok () ∧ ∃ b, Based disk o.config b ∧
      s.key = (o.key.bind AccessKey.parse?).getD b.key ∧
      s.cigarettes = o.cigarettes.getD b.cigarettes ∧ s.seed = (o.seed <|> b.seed) ∧
      s.log.path = o.log.getD b.log.path ∧ s.log.format = o.format.getD b.log.format ∧
      s.delay = b.delay) ∧
    (∀ e, resolved = .error e ↔
      (∃ path ∈ o.config, ∃ cause, Settings.load path (content disk path) = .error cause ∧
        e = .configuration path cause) ∨
      (FileGood disk o.config ∧ ∃ text ∈ o.key, AccessKey.parse? text = none ∧
        e = .settings (.invalidKey text)) ∨
      (FileGood disk o.config ∧ Settings.KeyGood o ∧ o.cigarettes = some 0 ∧
        e = .settings (.invalid .noCigarettes))) ∧
    (∀ e c, resolved = .error e → (execute c (.run o) : StateM σ Outcome) disk =
      ({ error := some e }, consulted disk o.config)) ∧
    ∀ s e, s.validate = .error e →
      (∀ c, (simulate s c : ExceptT CommandError (StateM σ) Report) disk =
        (.error (.settings e), disk)) ∧
      ∀ (L : Type) (seed : UInt64) (log : L), withLog s seed log = .error e := by
  intro resolved
  have hresolved : resolved =
      (base disk o.config >>= fun s => (s.override o).mapError .settings) := by
    simp only [resolved, resolve_apply]
  refine ⟨?_, fun s hs => ?_, fun e => ?_, fun e c he => execute_of_error he, fun s e he => ?_⟩
  · rw [hresolved, ← exists_base_iff]
    cases hb : base disk o.config with
    | error e => simp [bind, Except.bind]
    | ok b =>
        have hok := fun s => Settings.override_eq_ok (o := o) (base_ok hb).1 (t := s)
        simp [bind, Except.bind, mapError_eq_ok, hok]
  · rw [hresolved] at hs
    cases hb : base disk o.config with
    | error e => simp [hb, bind, Except.bind] at hs
    | ok b =>
        obtain ⟨hvalid, hbased⟩ := base_ok hb
        simp only [hb, bind, Except.bind, mapError_eq_ok] at hs
        obtain ⟨hkey, hcigarettes, rfl⟩ := (Settings.override_eq_ok hvalid).1 hs
        refine ⟨?_, b, hbased, rfl, rfl, rfl, rfl, rfl, rfl⟩
        rw [Settings.validate_overlaid hvalid, if_neg hcigarettes]
  · rw [hresolved, ← base_eq_error, ← exists_base_iff]
    cases hb : base disk o.config with
    | error e => simp [bind, Except.bind]
    | ok b =>
        have herror := fun e => Settings.override_eq_error (o := o) (base_ok hb).1 (e := e)
        simp only [bind, Except.bind, mapError_eq_error, herror]
        constructor
        · rintro ⟨_, ⟨text, htext, hbad, rfl⟩ | ⟨hkey, hzero, rfl⟩, rfl⟩
          · exact .inr (.inl ⟨⟨b, rfl⟩, text, htext, hbad, rfl⟩)
          · exact .inr (.inr ⟨⟨b, rfl⟩, hkey, hzero, rfl⟩)
        · rintro (hfile | ⟨-, text, htext, hbad, rfl⟩ | ⟨-, hkey, hzero, rfl⟩)
          · cases hfile
          · exact ⟨_, .inl ⟨text, htext, hbad, rfl⟩, rfl⟩
          · exact ⟨_, .inr ⟨hkey, hzero, rfl⟩, rfl⟩
  · refine ⟨fun c => simulate_of_invalid he, fun L seed log => ?_⟩
    rw [withLog, he]
    rfl

/-- A file with two fields, beside the log of an earlier run. -/
def beside (text : String) : FileTree :=
  { nodes := [(["c"], .text text), (["smokers.log"], .text "old")] }

/-- The option of the count overrides that of the file, and one of zero leaves the log as it is. -/
theorem options_override_count :
    let disk := beside "cigarettes = 7\nseed = 1\n"
    (∃ s, ((resolve { config := some "c", cigarettes := some 2 } :
        ExceptT CommandError (StateM FileTree) Settings) disk).1 = .ok s ∧
      s.cigarettes = 2 ∧ s.seed = some 1 ∧ s.log.path = "smokers.log") ∧
    (execute {} (.run { config := some "c", cigarettes := some 0 }) : StateM FileTree Outcome) disk =
      ({ error := some (.settings (.invalid .noCigarettes)) }, disk) := by
  intro disk
  have hread : ∀ text, (beside text).read "c" = .ok text := by
    intro text
    cbv
  have hparse : Toml.parse? "cigarettes = 7\nseed = 1\n" =
      some [("cigarettes", .integer 7), ("seed", .integer 1)] := by cbv
  have hdocument : Settings.ofDocument "cigarettes = 7\nseed = 1\n" =
      .ok { cigarettes := 7, seed := some 1 } := by cbv
  have hfile : FileGood disk (some "c") := by
    rintro _ ⟨⟩
    exact ⟨_, _, hread _, hdocument, by decide⟩
  constructor
  · obtain ⟨hok, hfields, -, -, -⟩ := options_override disk { config := some "c", cigarettes := some 2 }
    obtain ⟨s, hs⟩ := hok.2 ⟨hfile, by simp [Settings.KeyGood], by simp⟩
    obtain ⟨-, b, ⟨text, es, htext, hes, hfilled⟩, -, hcigarettes, hseed, hpath, -⟩ := hfields s hs
    obtain rfl : _ = text := Except.ok.inj ((hread _).symm.trans htext)
    obtain rfl : _ = es := Option.some.inj (hparse.symm.trans hes)
    have hone : some (some 1) = some b.seed := hfilled.seed
    have hlog : b.log = {} := hfilled.log
    refine ⟨s, hs, hcigarettes, hseed.trans (Option.some.inj hone).symm, ?_⟩
    rw [hpath, hlog]
    rfl
  · obtain ⟨-, -, herror, hleft, -⟩ :=
      options_override disk { config := some "c", cigarettes := some 0 }
    exact hleft _ {} ((herror _).2 (.inr (.inr ⟨hfile, by simp [Settings.KeyGood], rfl, rfl⟩)))

end Program

end CigaretteSmokers
