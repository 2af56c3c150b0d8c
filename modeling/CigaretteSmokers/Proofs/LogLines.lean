import CigaretteSmokers.Disk.FileTree
import CigaretteSmokers.Log.Settling
import CigaretteSmokers.Proofs.EntryTexts
import CigaretteSmokers.Proofs.TextFiles
import Mathlib

/-!
The file of a JSON log. Saves that go well leave one line each, in their order, and each line reads
back as the number of the save, its moment and the table that was saved.
-/

namespace CigaretteSmokers.FileLog

/-- Saves one after another, each a clock and a table: what each came to, and the log then. -/
def saveAll (log : FileLog) : List (Nat × Table) → List (Except SaveFault Unit) × FileLog
  | [] => ([], log)
  | (clock, t) :: saves =>
      let (result, log) := log.save clock t
      let (results, log) := log.saveAll saves
      (result :: results, log)

/-- A save that goes well adds one line, under a number that has room. -/
theorem save_ok {log : FileLog} {clock : Nat} {t : Table} (h : (log.save clock t).1 = .ok ()) :
    log.lines.size < UInt64.size ∧ (log.save clock t).2 = { log with
      lines := log.lines.push (line log.format log.lines.size (log.time clock) t) } := by
  unfold save at h ⊢
  dsimp only at h ⊢
  split at h
  · cases h
  · split at h
    · cases h
    · rename_i hpoisoned _ number hnumber
      have hroom : log.lines.size + 1 < UInt64.size := by
        unfold Checked.unsigned at hnumber
        split at hnumber
        · assumption
        · cases hnumber
      rw [if_neg hpoisoned]
      exact ⟨by omega, rfl⟩

theorem saveAll_ok {log : FileLog} {saves : List (Nat × Table)}
    (h : ∀ r ∈ (log.saveAll saves).1, r = .ok ()) :
    (∀ i < saves.length, log.lines.size + i < UInt64.size) ∧
      (log.saveAll saves).2.lines.toList = log.lines.toList ++
        saves.mapIdx fun i s => line log.format (log.lines.size + i) (log.time s.1) s.2 := by
  induction saves generalizing log with
  | nil => exact ⟨fun _ hi => absurd hi (Nat.not_lt_zero _), by simp [saveAll]⟩
  | cons s saves ih =>
      simp only [saveAll, List.forall_mem_cons] at h ⊢
      obtain ⟨hroom, hsave⟩ := save_ok h.1
      obtain ⟨hrooms, hlines⟩ := ih h.2
      rw [hsave] at hrooms hlines ⊢
      simp only [Array.size_push, Array.toList_push] at hrooms hlines
      refine ⟨fun i hi => ?_, ?_⟩
      · cases i with
        | zero => exact hroom
        | succ i =>
            have := hrooms i (by simpa using hi)
            omega
      · rw [hlines, List.mapIdx_cons]
        simp [Nat.add_assoc, Nat.add_comm 1]

section Disk

variable {t : FileTree} {path : String}

/-- A file of text takes every line. -/
theorem appendLines_of_holds {content : String} (h : t.Holds path content) (lines : List String) :
    ∃ t', (appendLines path lines : StateM FileTree _) t = (List.replicate lines.length none, t') ∧
      t'.Holds path (content ++ String.join lines) := by
  induction lines generalizing t content with
  | nil => exact ⟨t, rfl, by simpa using h⟩
  | cons line lines ih =>
      obtain ⟨t₁, happend, h₁⟩ := FileTree.append_of_holds h line
      obtain ⟨t₂, hrest, h₂⟩ := ih h₁
      refine ⟨t₂, ?_, by simpa [String.append_assoc] using h₂⟩
      have hdisk : (Disk.append path line : StateM FileTree _) t = (.ok (), t₁) := by
        simp [Disk.append, FileTree.change, happend]
      simp only [appendLines, bind, StateT.bind, hdisk, hrest]
      rfl

/-- A file that takes every line settles the first trial. -/
theorem settle_of_holds {α : Type} {content : String} (h : t.Holds path content)
    (lines : α → List String) (trial : (Nat → Option FileError) → α) (attempts : Nat) :
    ∃ t', (settle path lines trial (attempts + 1) [] : StateM FileTree α) t =
        (trial fun _ => none, t') ∧
      t'.Holds path (content ++ String.join (lines (trial fun _ => none))) := by
  obtain ⟨t', happend, h'⟩ := appendLines_of_holds h (lines (trial fun _ => none))
  refine ⟨t', ?_, h'⟩
  simp only [settle, bind, StateT.bind, List.getElem?_nil, Option.join_none, List.length_nil,
    List.drop_zero, happend]
  rw [if_pos (by simp)]
  rfl

theorem create_json (key : AccessKey) :
    (create path key .json : ExceptT LogError (StateM FileTree) Unit) t =
      match FileTree.create path t with
      | .ok made => (.ok (), made)
      | .error e => (.error (.file e), t) := by
  have hdisk : (Disk.create path : StateM FileTree _) t =
      FileTree.change (FileTree.create path) t := rfl
  simp only [create, ExceptT.adapt, ExceptT.mk, bind, ExceptT.bind, StateT.bind, Functor.map,
    StateT.map, hdisk, FileTree.change]
  cases FileTree.create path t <;> rfl

theorem holds_of_create {key : AccessKey} {created : FileTree}
    (hdevice : ∀ accepts, t.target? path ≠ some (.device accepts))
    (h : (create path key .json : ExceptT LogError (StateM FileTree) Unit) t = (.ok (), created)) :
    created.Holds path "" := by
  rw [create_json] at h
  split at h
  · rename_i made hmade
    cases h
    exact FileTree.holds_of_create hdevice hmade
  · cases h

theorem join_lines (texts : List (List Char)) :
    String.join (texts.map fun text => String.ofList (text ++ ['\n'])) =
      String.ofList (texts.flatMap (· ++ ['\n'])) := by
  induction texts with
  | nil => rfl
  | cons text texts ih =>
      rw [List.map_cons, String.join_cons, ih, List.flatMap_cons, ← String.ofList_append]

/-- The file of a JSON log, once every save has gone well: one line for each save, which reads back
as its number, its moment and its table. A device holds nothing, so the path must not lead to one. -/
theorem json_log_reads_back {created logged : FileTree} {key : AccessKey} {time : Nat → Timestamp}
    {saves : List (Nat × Table)} {attempts : Nat} {results : List (Except SaveFault Unit)}
    {log : FileLog} (hdevice : ∀ accepts, t.target? path ≠ some (.device accepts))
    (hcreate : (create path key .json : ExceptT LogError (StateM FileTree) Unit) t =
      (.ok (), created))
    (hsaves : (settle path (fun r => r.2.lines.toList)
        (fun refusal => saveAll { format := .json, time, refusal } saves) (attempts + 1) [] :
        StateM FileTree (List (Except SaveFault Unit) × FileLog)) created = ((results, log), logged))
    (hok : ∀ r ∈ results, r = .ok ()) :
    (∃ lines : List (List Char),
      logged.read path = .ok (String.ofList (lines.flatMap (· ++ ['\n']))) ∧
      lines.length = saves.length ∧ (∀ l ∈ lines, '\n' ∉ l) ∧
      ∀ i clock s, saves[i]? = some (clock, s) → ∃ l e, lines[i]? = some l ∧
        (Json.ofChars? l).bind Entry.ofJson? = some e ∧
        e.number.toNat = i ∧ e.time = time clock ∧ e.table = s) ∧
    ∀ s : Table, (Json.ofChars? s.toJson).bind Table.ofJson? = some s := by
  refine ⟨?_, Table.ofJson?_toJson⟩
  have hempty := holds_of_create hdevice hcreate
  obtain ⟨t', hsettle, hholds⟩ := settle_of_holds hempty (fun r => r.2.lines.toList)
    (fun refusal => saveAll { format := .json, time, refusal } saves) attempts
  rw [hsettle, Prod.mk.injEq] at hsaves
  obtain ⟨hresults, rfl⟩ := hsaves
  have hsaved : (saveAll { format := .json, time, refusal := fun _ => none } saves).1 = results := by
    rw [hresults]
  obtain ⟨hrooms, hlines⟩ := saveAll_ok (hsaved ▸ hok)
  have htexts : (saves.mapIdx fun i s => line .json i (time s.1) s.2) =
      (saves.mapIdx fun i s => Entry.toJson ⟨UInt64.ofNat i, time s.1, s.2⟩).map
        fun text => String.ofList (text ++ ['\n']) := by
    refine List.ext_getElem (by simp) fun i _ _ => ?_
    simp only [List.getElem_map, List.getElem_mapIdx]
    rfl
  simp only [hlines, List.nil_append, String.empty_append] at hholds
  refine ⟨saves.mapIdx fun i s => Entry.toJson ⟨UInt64.ofNat i, time s.1, s.2⟩, ?_, by simp, ?_, ?_⟩
  · rw [FileTree.read_of_holds hholds, ← join_lines, ← htexts]
    simp
  · simp only [List.mem_mapIdx]
    rintro - ⟨i, hi, rfl⟩
    exact Entry.newline_not_mem_toJson _
  · intro i clock s hs
    have hi : i < saves.length := (List.getElem?_eq_some_iff.1 hs).1
    refine ⟨_, ⟨UInt64.ofNat i, time clock, s⟩, by simp [hs], Entry.ofJson?_toJson _, ?_, rfl, rfl⟩
    exact UInt64.toNat_ofNat_of_lt' (by simpa using hrooms i hi)

/-- A file is there already, and it is emptied. -/
def oldLog : FileTree := { nodes := [(["a"], .text "old")] }

/-- The least and the greatest numbers that a table may hold. -/
def extremes : List (Nat × Table) :=
  [(0, { ingredients := ⟨Int64.minValue, 0, Int64.maxValue⟩, smokers := .replicate .rolling }),
   (7, { cigarettes := .replicate 0xffffffffffffffff, agent := .closing, closing := true })]

theorem json_log_reads_back_extremes :
    let created := (create "a" .default .json : ExceptT LogError (StateM FileTree) Unit) oldLog
    let saved := (settle "a" (fun r => r.2.lines.toList)
      (fun refusal => saveAll { format := .json, refusal } extremes) 1 [] : StateM FileTree _) created.2
    created.1 = .ok () ∧ saved.1.1 = [.ok (), .ok ()] ∧ ∃ lines : List (List Char),
      saved.2.read "a" = .ok (String.ofList (lines.flatMap (· ++ ['\n']))) ∧ lines.length = 2 ∧
      ∃ l e, lines[1]? = some l ∧ (Json.ofChars? l).bind Entry.ofJson? = some e ∧
        e.number.toNat = 1 ∧ e.table.cigarettes.paper = 0xffffffffffffffff := by
  intro created saved
  have htarget : oldLog.target? "a" = some (.text "old") := by cbv
  have hdevice : ∀ accepts, oldLog.target? "a" ≠ some (.device accepts) := by simp [htarget]
  have hmade : FileTree.create "a" oldLog = .ok { nodes := [(["a"], .text "")] } := by cbv
  have hcreated : created = (.ok (), { nodes := [(["a"], .text "")] }) := by
    simp only [created, create_json, hmade]
  have hok : saved.1.1 = [.ok (), .ok ()] := by
    obtain ⟨_, hsettle, -⟩ := settle_of_holds (holds_of_create hdevice hcreated)
      (fun r => r.2.lines.toList) (fun refusal => saveAll { format := .json, refusal } extremes) 0
    simp only [saved, hcreated, hsettle]
    rfl
  have hsaved : (settle "a" (fun r => r.2.lines.toList)
      (fun refusal => saveAll { format := .json, refusal } extremes) 1 [] : StateM FileTree _)
        { nodes := [(["a"], .text "")] } = ((saved.1.1, saved.1.2), saved.2) := by
    simp only [saved, hcreated]
    rfl
  obtain ⟨⟨lines, hread, hlength, -, hback⟩, -⟩ :=
    json_log_reads_back hdevice hcreated hsaved (by simp [hok])
  obtain ⟨l, e, hl, he, hnumber, -, htable⟩ := hback 1 7 _ rfl
  exact ⟨by rw [hcreated], hok, lines, hread, hlength, l, e, hl, he, hnumber, by rw [htable]; rfl⟩

end Disk

end CigaretteSmokers.FileLog
