import CigaretteSmokers.Proofs.Resolution

/-!
What a validation shows, beside what a run starts with. The words that a validation takes are also
those of a run, and mean the same there; but a run takes its key from the environment where no word
gives one, and a validation does not.
-/

namespace CigaretteSmokers

namespace CommandLine

/-- The parameters of every command. -/
def Parameter.isShared : Parameter → Bool
  | .errorLog | .config | .key => true
  | _ => false

/-- Nothing is given but shared parameters. -/
structure Given.Shared (g : Given) : Prop where
  log : g.log = none := by rfl
  cigarettes : g.cigarettes = none := by rfl
  seed : g.seed = none := by rfl
  format : g.format = none := by rfl
  failOnViolation : g.failOnViolation = false := by rfl

theorem Given.Shared.set {g g' : Given} (hg : g.Shared) {q : Parameter} (hq : q.isShared = true)
    {text : String} (h : g.set text q = .ok g') : g'.Shared := by
  cases q with
  | errorLog | config | key =>
      simp only [Given.set, bind, Except.bind, pure, Except.pure] at h
      split at h <;> cases h
      exact ⟨hg.log, hg.cigarettes, hg.seed, hg.format, hg.failOnViolation⟩
  | log | cigarettes | seed | format => cases hq

def Item.isShared : Item → Bool
  | .parameter q => q.isShared
  | .switch s => s = .help

/-- An option of a validation is one of a run. -/
theorem long?_run {name : String} {item : Item} (h : Scope.validate.long? name = some item) :
    Scope.run.long? name = some item ∧ item.isShared = true := by
  unfold Scope.long? at h
  split at h <;> cases h
  all_goals first | contradiction | exact ⟨rfl, rfl⟩

theorem short?_run {c : Char} {item : Item} (h : Scope.validate.short? c = some item) :
    Scope.run.short? c = some item ∧ item.isShared = true := by
  unfold Scope.short? at h
  split at h <;> cases h
  all_goals first | contradiction | exact ⟨rfl, rfl⟩

namespace Progress

structure Shared (p : Progress) : Prop where
  given : p.given.Shared
  last : ∀ q ∈ p.last, q.1.isShared = true

variable {p p' : Progress}

theorem Shared.settled (hp : p.Shared) {g : Given} (h : p.settled = .ok g) : g.Shared := by
  unfold Progress.settled at h
  split at h
  · cases h
    exact hp.given
  · cases h
  · rename_i q text hlast
    exact hp.given.set (hp.last _ hlast) h

theorem Shared.parameter (hp : p.Shared) {q : Parameter} (hq : q.isShared = true)
    {value : Option String} (h : p.parameter q value = .ok p') : p'.Shared := by
  unfold Progress.parameter at h
  cases hg : p.settled with
  | error e => simp [hg, bind, Except.bind] at h
  | ok g =>
      have hshared := hp.settled hg
      simp only [hg, bind, Except.bind] at h
      cases value with
      | none =>
          cases h
          exact ⟨hshared, by simpa using hq⟩
      | some text =>
          dsimp only at h
          split at h
          · cases h
          · rename_i g' hg'
            cases h
            exact ⟨hshared.set hq hg', by simp⟩

/-- Asking for help ends the reading. -/
theorem switch_shared {s : Switch} (hs : Item.isShared (.switch s) = true)
    (h : p.switch s = .ok p') : False := by
  obtain rfl : s = .help := by simpa [Item.isShared] using hs
  unfold Progress.switch at h
  cases hg : p.settled <;> simp [hg, bind, Except.bind, Given.turn] at h

theorem Shared.long (hp : p.Shared) {text : List Char} (h : p.long .validate text = .ok p') :
    p.long .run text = .ok p' ∧ p'.Shared := by
  unfold Progress.long at h ⊢
  split at h
  rename_i name value _
  cases hitem : Scope.validate.long? (String.ofList name) with
  | none => simp [hitem] at h
  | some item =>
      obtain ⟨hrun, hshared⟩ := long?_run hitem
      simp only [hitem] at h
      simp only [hrun]
      cases item with
      | parameter q => exact ⟨h, hp.parameter hshared h⟩
      | switch s =>
          cases value with
          | some value => cases h
          | none => exact (switch_shared hshared h).elim

theorem Shared.short (hp : p.Shared) {text : List Char} (h : p.short .validate text = .ok p') :
    p.short .run text = .ok p' ∧ p'.Shared := by
  induction text generalizing p with
  | nil =>
      cases h
      exact ⟨rfl, hp⟩
  | cons c rest ih =>
      unfold Progress.short at h ⊢
      cases hitem : Scope.validate.short? c with
      | none => simp [hitem] at h
      | some item =>
          obtain ⟨hrun, hshared⟩ := short?_run hitem
          simp only [hitem] at h
          simp only [hrun]
          cases item with
          | parameter q => exact ⟨h, hp.parameter hshared h⟩
          | switch s =>
              cases hturned : p.switch s with
              | error e => simp [hturned, bind, Except.bind] at h
              | ok p₁ => exact (switch_shared hshared hturned).elim

theorem Shared.word (hp : p.Shared) {text : String} (h : p.word .validate text = .ok p') :
    p.word .run text = .ok p' ∧ p'.Shared := by
  unfold Progress.word at h ⊢
  split at h
  · rename_i q hlast
    cases h
    exact ⟨rfl, hp.given, by simpa using hp.last _ hlast⟩
  · cases h

theorem Shared.read (hp : p.Shared) {args : List String} {command}
    (h : p.read .validate args = .ok (p', command)) :
    p.read .run args = .ok (p', command) ∧ command = none ∧ p'.Shared := by
  induction args generalizing p with
  | nil =>
      cases h
      exact ⟨rfl, rfl, hp⟩
  | cons arg rest ih =>
      unfold Progress.read at h ⊢
      have hvalidate : ∀ text, Scope.validate.command? text = none := fun _ => rfl
      have hrun : ∀ text, Scope.run.command? text = none := fun _ => rfl
      have hstep : ∀ {x y : Except Refusal Progress},
          (∀ p₁, x = .ok p₁ → y = .ok p₁ ∧ p₁.Shared) →
          (x >>= fun p₁ => p₁.read .validate rest) = .ok (p', command) →
          (y >>= fun p₁ => p₁.read .run rest) = .ok (p', command) ∧ command = none ∧ p'.Shared := by
        intro x y hxy hx
        cases x with
        | error e => cases hx
        | ok p₁ =>
            obtain ⟨rfl, hp₁⟩ := hxy p₁ rfl
            exact ih hp₁ hx
      simp only [hvalidate, ite_self] at h
      simp only [hrun, ite_self]
      split at h
      · split at h
        · cases h
          exact ⟨rfl, rfl, hp⟩
        · cases h
      · exact hstep (fun _ => hp.long) h
      · exact hstep (fun _ => hp.short) h
      · exact hstep (fun _ => hp.word) h

theorem shared_empty : Shared {} := ⟨{}, by simp⟩

end Progress

/-- The words after a validation are taken by a run too, which looks into the environment for a key
that they leave out. -/
theorem parse_run {env : Environment} {args : List String} {o : ValidateOptions}
    {errorLog : Option String}
    (h : parse env ("validate" :: args) = .ok ⟨.validate o, errorLog⟩) :
    parse env ("run" :: args) =
      .ok ⟨.run { config := o.config, key := o.key <|> env.key }, errorLog⟩ := by
  have hvalidate : Progress.read .general {} ("validate" :: args) =
      .ok ({}, some (.validate, args)) := rfl
  have hrun : Progress.read .general {} ("run" :: args) = .ok ({}, some (.run, args)) := rfl
  unfold parse at h ⊢
  simp only [hvalidate, bind, Except.bind] at h
  simp only [hrun, bind, Except.bind]
  cases hread : Progress.read .validate {} args with
  | error e => simp [hread] at h
  | ok read =>
      obtain ⟨p, command⟩ := read
      obtain ⟨hagain, -, hshared⟩ := Progress.shared_empty.read hread
      cases hsettled : p.settled with
      | error e => simp [hread, hsettled] at h
      | ok g =>
          have hg := hshared.settled hsettled
          simp only [hread, hsettled, if_neg (show ¬ CommandWord.validate = .run by decide)] at h
          simp only [hagain, hsettled, if_true]
          have hrunOf : commandOf env .run g =
              .run { config := g.config, key := g.key <|> env.key } := by
            simp [commandOf, hg.log, hg.cigarettes, hg.seed, hg.format, hg.failOnViolation]
          have hvalidateOf : commandOf env .validate g =
              .validate { config := g.config, key := g.key } := rfl
          rw [hrunOf]
          rw [hvalidateOf] at h
          split at h
          · cases h
          · dsimp only [Progress.settled] at h ⊢
            split at h
            · cases h
            · cases h
              rfl

end CommandLine

namespace Settings

theorem eq_of_withKey {s t : Settings} {text : Option String} (h : s.withKey text = .ok t) :
    t = { s with key := t.key } := by
  unfold withKey at h
  split at h
  · cases h
    rfl
  · split at h
    · cases h
      rfl
    · cases h

/-- Where one key stands in for another, the settings differ in the key only. -/
theorem withKey_of_orElse {s t : Settings} {key other : Option String}
    (h : s.withKey (key <|> other) = .ok t) : ∃ u, s.withKey key = .ok u ∧
      t = { u with key := t.key } ∧ (key.isSome ∨ other = none → t = u) := by
  cases key with
  | some key => exact ⟨t, h, rfl, fun _ => rfl⟩
  | none =>
      refine ⟨s, rfl, eq_of_withKey h, fun hnone => ?_⟩
      obtain rfl : other = none := by simpa using hnone
      cases h
      rfl

/-- A key makes sense whatever it is, so settings that did still do. -/
theorem override_key {s : Settings} (hs : s.validate = .ok ()) (config key : Option String) :
    s.override { config, key } = s.withKey key := by
  unfold override
  cases h : s.withKey key with
  | error e => rfl
  | ok t =>
      rw [eq_of_withKey h]
      exact congrArg (fun valid => valid >>= fun _ => Except.ok _) hs

end Settings

namespace Program

open CommandLine (parse)

variable (disk : FileTree)

/-- The settings in a file, or the defaults, when the files are these. -/
def configured (config : Option String) : Except CommandError Settings :=
  match config with
  | none => .ok {}
  | some path => (Settings.load path (disk.read path)).mapError (.configuration path)

variable {disk} in
/-- Steps that leave the files alone, one after the other. -/
theorem bind_reads {α β : Type} {x : ExceptT CommandError (StateM FileTree) α}
    {f : α → ExceptT CommandError (StateM FileTree) β} {r : Except CommandError α}
    {g : α → Except CommandError β} (hx : x disk = (r, disk))
    (hf : ∀ a, r = .ok a → f a disk = (g a, disk)) : (x >>= f) disk = (r >>= g, disk) := by
  rw [bind_apply, hx]
  cases r with
  | error e => rfl
  | ok a => exact hf a rfl

theorem orSettingsError_eq {α : Type} (r : Except SettingsError α) :
    (orSettingsError r : ExceptT CommandError (StateM FileTree) α) disk =
      (r.mapError .settings, disk) := rfl

theorem configured_eq (config : Option String) : configured disk config = base disk config := by
  cases config <;> rfl

theorem configuration_eq (config : Option String) :
    (configuration config : ExceptT CommandError (StateM FileTree) Settings) disk =
      (configured disk config, disk) := by
  rw [configuration_apply, configured_eq]
  cases config <;> rfl

/-- The settings that commands start from make sense and fit a document. -/
theorem configured_ok {config : Option String} {s : Settings} (h : configured disk config = .ok s) :
    s.validate = .ok () ∧ s.Writable := by
  rw [configured_eq] at h
  refine ⟨(base_ok h).1, ?_⟩
  cases config with
  | none =>
      cases h
      exact Settings.writable_default
  | some path => exact Settings.writable_of_load (base_some_eq_ok.1 h)

theorem resolve_eq (config key : Option String) :
    (resolve { config, key } : ExceptT CommandError (StateM FileTree) Settings) disk =
      (configured disk config >>= fun s => (s.withKey key).mapError .settings, disk) := by
  refine bind_reads (configuration_eq disk config) fun s hs => ?_
  rw [Settings.override_key (configured_ok disk hs).1, orSettingsError_eq]

theorem eq_of_resolve {config key : Option String} {s : Settings}
    (h : ((resolve { config, key } : ExceptT CommandError (StateM FileTree) Settings) disk).1 =
      .ok s) : ∃ base, configured disk config = .ok base ∧ base.withKey key = .ok s := by
  rw [resolve_eq] at h
  cases hbase : configured disk config with
  | error e => simp [hbase, bind, Except.bind] at h
  | ok base =>
      refine ⟨base, rfl, ?_⟩
      cases hkey : base.withKey key with
      | error e => simp [hbase, hkey, bind, Except.bind, Except.mapError] at h
      | ok t => simpa [hbase, hkey, bind, Except.bind, Except.mapError] using h

/-- A validation shows what its own words resolve to. -/
theorem validate_eq (o : ValidateOptions) :
    (validate o : ExceptT CommandError (StateM FileTree) String) disk =
      (((resolve { config := o.config, key := o.key } :
        ExceptT CommandError (StateM FileTree) Settings) disk).1 >>= fun s =>
          s.toDocument.mapError .settings, disk) := by
  rw [resolve_eq, bind_assoc]
  refine bind_reads (configuration_eq disk o.config) fun s hs => ?_
  refine bind_reads (orSettingsError_eq disk _) fun t ht => ?_
  have hvalid : t.validate = .ok () := by
    cases hkey : s.withKey o.key with
    | error e => simp [hkey, Except.mapError] at ht
    | ok u =>
        obtain rfl : u = t := by simpa [hkey, Except.mapError] using ht
        rw [Settings.eq_of_withKey hkey]
        exact (configured_ok disk hs).1
  rw [hvalid]
  rfl

/-- A validation shows the settings that a run starts with after the same words, but for the key:
where the words give none and the environment does, the run takes the key of the environment. -/
theorem validate_shows_run {env : Environment} {args : List String} {o : ValidateOptions}
    {errorLog : Option String}
    (h : parse env ("validate" :: args) = .ok ⟨.validate o, errorLog⟩) :
    let r : RunOptions := { config := o.config, key := o.key <|> env.key }
    let resolved := ((resolve r : ExceptT CommandError (StateM FileTree) Settings) disk).1
    let shown := ((validate o : ExceptT CommandError (StateM FileTree) String) disk).1
    parse env ("run" :: args) = .ok ⟨.run r, errorLog⟩ ∧
    (∀ s, resolved = .ok s → ∃ t text, t.toDocument = .ok text ∧ shown = .ok text ∧
      s = { t with key := s.key } ∧ (o.key.isSome ∨ env.key = none → s = t)) ∧
    (o.key.isSome ∨ env.key = none → ∀ e, resolved = .error e → shown = .error e) := by
  intro r resolved shown
  have hshown : shown = (((resolve { config := o.config, key := o.key } :
      ExceptT CommandError (StateM FileTree) Settings) disk).1 >>= fun s =>
        s.toDocument.mapError .settings) := by
    simp only [shown, validate_eq]
  refine ⟨CommandLine.parse_run h, fun s hs => ?_, fun hkey e he => ?_⟩
  · obtain ⟨base, hbase, hwith⟩ := eq_of_resolve disk hs
    obtain ⟨t, ht, hst, hsame⟩ := Settings.withKey_of_orElse hwith
    have hfits : t.Writable := by
      rw [Settings.eq_of_withKey ht]
      exact (configured_ok disk hbase).2
    have htext := Settings.toDocument_of_writable hfits
    refine ⟨t, _, htext, ?_, hst, hsame⟩
    simp only [hshown, resolve_eq, hbase, ht, htext, bind, Except.bind, Except.mapError]
  · have hsame : (o.key <|> env.key) = o.key := by
      cases hk : o.key <;> simp_all
    simp only [resolved, r, hsame] at he
    rw [hshown, he]
    rfl

theorem validate_shows_run_option :
    parse { key := some "7" } ["validate", "-k", "0x20"] =
      .ok ⟨.validate { key := some "0x20" }, none⟩ ∧
    parse { key := some "7" } ["run", "-k", "0x20"] = .ok ⟨.run { key := some "0x20" }, none⟩ ∧
    ∃ text, ({ key := ⟨0x20⟩ } : Settings).toDocument = .ok text ∧
      ((validate { key := some "0x20" } : ExceptT CommandError (StateM FileTree) String) {}).1 =
        .ok text := by
  have hparse : parse { key := some "7" } ["validate", "-k", "0x20"] =
      .ok ⟨.validate { key := some "0x20" }, none⟩ := rfl
  obtain ⟨hrun, hshown, -⟩ := validate_shows_run {} hparse
  have hresolved : ((resolve { key := some "0x20" } :
      ExceptT CommandError (StateM FileTree) Settings) {}).1 = .ok { key := ⟨0x20⟩ } := by
    rw [resolve_eq]
    rfl
  obtain ⟨t, text, htext, hvalidate, -, hst⟩ := hshown _ hresolved
  rw [← hst (.inl rfl)] at htext
  exact ⟨hparse, hrun, text, htext, hvalidate⟩

/-- With a key in the environment and no other word, a validation shows the key of the defaults, and
a run starts with that of the environment. -/
theorem validate_ignores_environment :
    parse { key := some "0x10" } ["validate"] = .ok ⟨.validate {}, none⟩ ∧
    parse { key := some "0x10" } ["run"] = .ok ⟨.run { key := some "0x10" }, none⟩ ∧
    ∃ s text shown,
      ((resolve { key := some "0x10" } : ExceptT CommandError (StateM FileTree) Settings) {}).1 =
        .ok s ∧ s.toDocument = .ok text ∧
      ((validate {} : ExceptT CommandError (StateM FileTree) String) {}).1 = .ok shown ∧
      shown ≠ text := by
  obtain ⟨text, htext, hload⟩ := Settings.load_toDocument (s := { key := ⟨0x10⟩ }) (by decide)
    Settings.writable_default
  obtain ⟨shown, hshown, hagain⟩ := Settings.load_toDocument (s := {}) (by decide)
    Settings.writable_default
  refine ⟨rfl, rfl, { key := ⟨0x10⟩ }, text, shown, ?_, htext, ?_, ?_⟩
  · rw [resolve_eq]
    rfl
  · rw [validate_eq]
    simp only [resolve_eq, configured, Settings.withKey, bind, Except.bind, Except.mapError,
      hshown]
  · rintro rfl
    have hkeys := (hload "").symm.trans (hagain "")
    exact absurd hkeys (by decide)

end Program

end CigaretteSmokers
