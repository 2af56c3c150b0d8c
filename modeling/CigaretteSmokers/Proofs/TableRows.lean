import CigaretteSmokers.Proofs.DocumentRoundTrip
import CigaretteSmokers.Proofs.LogLines

/-!
The file of a table log. Every table leaves one row of eleven words, however wide its numbers are, and
the words give the table back; so the file tells the key and all that has been saved.
-/

namespace CigaretteSmokers

open Text.Digits (ofInt number? digit?)

theorem splitOn_lines {ls : List (List Char)} (h : ∀ l ∈ ls, '\n' ∉ l) :
    (ls.flatMap (· ++ ['\n'])).splitOn '\n' = ls ++ [[]] := by
  induction ls with
  | nil => rfl
  | cons l ls ih =>
      rw [List.forall_mem_cons] at h
      simp only [List.flatMap_cons, List.append_assoc, List.singleton_append]
      rw [List.splitOn_append_cons_self_of_not_mem h.1, ih h.2]
      rfl

namespace Text.Digits

theorem not_mem_ofInt {c : Char} (hminus : c ≠ '-') (hdigit : c.isDigit = false) (n : Int) :
    c ∉ ofInt n := by
  have hdigits : c ∉ Nat.toDigits 10 n.natAbs := fun hmem => by
    simpa [hdigit] using (isRun_toDigits _).isDigit c hmem
  unfold ofInt
  split
  · simp [hminus, hdigits]
  · exact hdigits

theorem ofInt_ne_nil (n : Int) : ofInt n ≠ [] := by
  unfold ofInt
  split
  · simp
  · exact Nat.toDigits_ne_nil

theorem digit?_ne_none {radix n k : Nat} {text : List Char} (h : number? radix n text = some k) :
    ∀ c ∈ text, digit? c ≠ none := by
  induction text generalizing n with
  | nil => simp
  | cons c text ih =>
      rw [number?] at h
      cases hc : digit? c with
      | none => simp [hc] at h
      | some d =>
          simp only [hc, Option.bind_eq_bind, Option.bind_some] at h
          split at h
          · rw [List.forall_mem_cons]
            exact ⟨by simp [hc], ih h⟩
          · cases h

/-- The whole number that a text of decimal digits denotes, after a minus sign or without. -/
def integer? : List Char → Option Int
  | '-' :: digits => (number? 10 0 digits).map fun n : Nat => -(n : Int)
  | digits => (number? 10 0 digits).map fun n : Nat => (n : Int)

theorem integer?_ofInt (n : Int) : integer? (ofInt n) = some n := by
  have hread : number? 10 0 (Nat.toDigits 10 n.natAbs) = some n.natAbs :=
    number?_toDigits (by decide) (by decide) _
  unfold ofInt
  split
  · rename_i hneg
    simp only [integer?, hread, Option.map_some, Option.some.injEq]
    omega
  · rename_i hpos
    obtain ⟨d, tail, hdigits, hd, -⟩ := (isRun_toDigits n.natAbs).eq_cons
    have hminus : d ≠ '-' := ne_of_isDigit hd (by decide)
    rw [hdigits] at hread ⊢
    rw [integer?]
    · simp only [hread, Option.map_some, Option.some.injEq]
      omega
    · intro digits heq
      exact hminus (List.cons.inj heq).1

end Text.Digits

namespace Columns

/-- The words of a line, which stand between blanks. -/
def words (text : List Char) : List (List Char) := (text.splitOn ' ').filter (· ≠ [])

theorem words_blank (rest : List Char) : words (' ' :: rest) = words rest := by
  have hsplit : (' ' :: rest).splitOn ' ' = [] :: rest.splitOn ' ' :=
    List.splitOn_append_cons_self_of_not_mem List.not_mem_nil _
  rw [words, hsplit, List.filter_cons_of_neg (by simp)]
  rfl

theorem words_blanks (n : Nat) (rest : List Char) :
    words (List.replicate n ' ' ++ rest) = words rest := by
  induction n with
  | zero => rfl
  | succ n ih => rw [List.replicate_succ, List.cons_append, words_blank, ih]

variable {w : List Char}

theorem words_word (hw : w ≠ []) (hblank : ' ' ∉ w) (rest : List Char) :
    words (w ++ ' ' :: rest) = w :: words rest := by
  rw [words, List.splitOn_append_cons_self_of_not_mem hblank, List.filter_cons_of_pos (by simpa)]
  rfl

theorem words_last (hw : w ≠ []) (hblank : ' ' ∉ w) : words w = [w] := by
  rw [words, List.splitOn_eq_singleton hblank, List.filter_cons_of_pos (by simpa)]
  rfl

/-- Words, each after one blank and so many more. -/
def spaced (cells : List (Nat × List Char)) : List Char :=
  cells.flatMap fun c => ' ' :: (List.replicate c.1 ' ' ++ c.2)

theorem words_spaced {cells : List (Nat × List Char)}
    (h : ∀ c ∈ cells, c.2 ≠ [] ∧ ' ' ∉ c.2) : words (spaced cells) = cells.map Prod.snd := by
  induction cells with
  | nil => rfl
  | cons c cells ih =>
      rw [List.forall_mem_cons] at h
      obtain ⟨⟨hne, hblank⟩, hcells⟩ := h
      rw [List.map_cons, ← ih hcells, spaced, List.flatMap_cons, List.cons_append, words_blank,
        List.append_assoc, words_blanks]
      cases cells with
      | nil => rw [List.flatMap_nil, List.append_nil, words_last hne hblank]; rfl
      | cons d cells =>
          rw [List.flatMap_cons, List.cons_append, words_word hne hblank, spaced, List.flatMap_cons,
            List.cons_append, words_blank]

/-- The words of a row. -/
def cellTexts (t : Table) : List (List Char) :=
  t.smokers.toList.map (·.mnemonic.toList) ++ [t.agent.mnemonic.toList] ++
  t.ingredients.toList.map (fun n => ofInt n.toInt) ++
  t.cigarettes.toList.map (fun n => ofInt n.toNat) ++ [[if t.closing then 'Y' else 'N']]

/-- The blanks before the words of a row, without the one that each of them has at least. -/
def cellBlanks (t : Table) : List Nat :=
  let narrow (width : Nat) (n : Int) := width - (ofInt n).length
  [0, 0, 0, 0] ++
  [narrow 3 t.ingredients.tobacco.toInt + 1, narrow 3 t.ingredients.paper.toInt,
    narrow 3 t.ingredients.matchstick.toInt] ++
  t.cigarettes.toList.map (fun n => narrow 4 n.toNat) ++ [1]

theorem row_eq (t : Table) : row t = spaced ((cellBlanks t).zip (cellTexts t)) := by
  simp [row, spaced, cellBlanks, cellTexts, Trio.toList, alignRight, List.replicate_succ]

/-- A word has neither a blank nor the end of a line in it. -/
theorem of_mem_cellTexts {t : Table} {w : List Char} (hw : w ∈ cellTexts t) :
    w ≠ [] ∧ ' ' ∉ w ∧ '\n' ∉ w := by
  have hnumber : ∀ n : Int, ofInt n ≠ [] ∧ ' ' ∉ ofInt n ∧ '\n' ∉ ofInt n := fun n =>
    ⟨Text.Digits.ofInt_ne_nil n, Text.Digits.not_mem_ofInt (by decide) (by decide) n,
      Text.Digits.not_mem_ofInt (by decide) (by decide) n⟩
  simp only [cellTexts, List.mem_append, List.mem_map, List.mem_singleton] at hw
  rcases hw with (((⟨s, -, rfl⟩ | rfl) | ⟨n, -, rfl⟩) | ⟨n, -, rfl⟩) | rfl
  · cases s <;> decide
  · cases t.agent <;> decide
  · exact hnumber _
  · exact hnumber _
  · cases t.closing <;> decide

theorem words_row (t : Table) : words (row t) = cellTexts t := by
  have hlength : (cellTexts t).length ≤ (cellBlanks t).length := Nat.le_refl 11
  rw [row_eq, words_spaced, List.map_snd_zip hlength]
  intro c hc
  obtain ⟨hne, hblank, -⟩ := of_mem_cellTexts (List.of_mem_zip hc).2
  exact ⟨hne, hblank⟩

theorem newline_not_mem_row (t : Table) : '\n' ∉ row t := by
  rw [row_eq, spaced, List.mem_flatMap]
  rintro ⟨c, hc, hmem⟩
  obtain ⟨-, -, hline⟩ := of_mem_cellTexts (List.of_mem_zip hc).2
  simp [hline] at hmem

def signed? (text : List Char) : Option Int64 := (Text.Digits.integer? text).bind Checked.signed

def unsigned? (text : List Char) : Option UInt64 := (number? 10 0 text).bind Checked.unsigned

def smoker? (text : List Char) : Option SmokerStatus :=
  SmokerStatus.all.find? (·.mnemonic.toList = text)

def agent? (text : List Char) : Option AgentStatus :=
  AgentStatus.all.find? (·.mnemonic.toList = text)

/-- The table that eleven words tell. -/
def table? : List (List Char) → Option Table
  | [s, s', s'', a, i, i', i'', c, c', c'', closing] => do
      return {
        smokers := ⟨← smoker? s, ← smoker? s', ← smoker? s''⟩
        agent := ← agent? a
        ingredients := ⟨← signed? i, ← signed? i', ← signed? i''⟩
        cigarettes := ⟨← unsigned? c, ← unsigned? c', ← unsigned? c''⟩
        closing := closing = ['Y'] }
  | _ => none

theorem smoker?_mnemonic (s : SmokerStatus) : smoker? s.mnemonic.toList = some s := by
  cases s <;> decide

theorem agent?_mnemonic (a : AgentStatus) : agent? a.mnemonic.toList = some a := by
  cases a <;> decide

theorem signed?_ofInt (n : Int64) : signed? (ofInt n.toInt) = some n := by
  rw [signed?, Text.Digits.integer?_ofInt, Option.bind_some, Checked.signed_toInt]

theorem unsigned?_ofInt (n : UInt64) : unsigned? (ofInt n.toNat) = some n := by
  have hdigits : ofInt (n.toNat : Int) = Nat.toDigits 10 n.toNat := by
    rw [ofInt, if_neg (by omega), Int.natAbs_natCast]
  rw [unsigned?, hdigits, Text.Digits.number?_toDigits (by decide) (by decide), Option.bind_some,
    Checked.unsigned_toNat]

/-- Every field of a table can be told from its row. -/
theorem table?_words (t : Table) : table? (words (row t)) = some t := by
  rw [words_row]
  simp only [cellTexts, Trio.toList, List.map_cons, List.map_nil, List.cons_append, List.nil_append,
    table?, smoker?_mnemonic, agent?_mnemonic, signed?_ofInt, unsigned?_ofInt]
  obtain ⟨ingredients, smokers, cigarettes, agent, closing⟩ := t
  cases closing <;> rfl

theorem row_injective : Function.Injective row := by
  intro t u h
  have hread := table?_words t
  rw [h, table?_words] at hread
  exact (Option.some.inj hread).symm

/-- What stands before the key in the heading, and after the bracket that follows it. -/
def beforeKey : List Char :=
  List.replicate 20 ' ' ++ "Smokers - Description of the internal state (key ".toList

def afterKey : List Char :=
  ['\n', '\n'] ++ Ingredient.all.flatMap (label [' ', 'S'] 3) ++ " AG  ".toList ++
  Ingredient.all.flatMap (label [' ', 'I'] 2) ++
  Ingredient.all.flatMap (label [' ', ' ', 'C'] 2) ++ " CL\n".toList

theorem header_eq (key : AccessKey) :
    header key = beforeKey ++ (key.render.toList ++ ')' :: afterKey) := by
  simp [header, beforeKey, afterKey]

theorem bracket_not_mem_render (key : AccessKey) : ')' ∉ key.render.toList := by
  have hdigits : number? 16 0 (Nat.toDigits 16 key.value.toNat) = some key.value.toNat :=
    Text.Digits.number?_toDigits (by decide) (by decide) _
  have hbracket : ')' ∉ Nat.toDigits 16 key.value.toNat := fun h =>
    Text.Digits.digit?_ne_none hdigits _ h (by decide)
  simpa [AccessKey.render] using hbracket

/-- A log file of a key and of tables, as a text. -/
def file (key : AccessKey) (ts : List Table) : List Char :=
  header key ++ ts.flatMap (row · ++ ['\n'])

theorem file_inj {key key' : AccessKey} {ts us : List Table} (h : file key ts = file key' us) :
    key = key' ∧ ts = us := by
  simp only [file, header_eq, List.append_assoc, List.cons_append, List.append_cancel_left_eq] at h
  -- the key ends at the first bracket, since it has none of its own
  have hsplit := congrArg (List.splitOn ')') h
  rw [List.splitOn_append_cons_self_of_not_mem (bracket_not_mem_render key),
    List.splitOn_append_cons_self_of_not_mem (bracket_not_mem_render key')] at hsplit
  have hkey : key = key' := by
    have hrender := String.toList_inj.1 (List.cons.inj hsplit).1
    have hread := AccessKey.parse?_render key
    rw [hrender, AccessKey.parse?_render] at hread
    exact (Option.some.inj hread).symm
  subst hkey
  refine ⟨rfl, ?_⟩
  -- what follows the heading ends its lines only where rows end
  have hrows : (ts.map row).flatMap (· ++ ['\n']) = (us.map row).flatMap (· ++ ['\n']) := by
    simpa [List.flatMap_map] using h
  have hlines := congrArg (List.splitOn '\n') hrows
  rw [splitOn_lines (by simp [newline_not_mem_row]), splitOn_lines (by simp [newline_not_mem_row]),
    List.append_cancel_right_eq] at hlines
  exact row_injective.list_map hlines

end Columns

namespace FileLog

variable {path : String} {key : AccessKey}

theorem create_table {t : FileTree} :
    (create path key .table : ExceptT LogError (StateM FileTree) Unit) t =
      match FileTree.create path t with
      | .error e => (.error (.file e), t)
      | .ok made => match FileTree.append path (String.ofList (Columns.header key)) made with
        | .error e => (.error (.file e), made)
        | .ok appended => (.ok (), appended) := by
  have hcreate : (Disk.create path : StateM FileTree _) t =
      FileTree.change (FileTree.create path) t := rfl
  have happend : ∀ made : FileTree,
      (Disk.append path (String.ofList (Columns.header key)) : StateM FileTree _) made =
        FileTree.change (FileTree.append path (String.ofList (Columns.header key))) made :=
    fun _ => rfl
  simp only [create, ExceptT.adapt, ExceptT.mk, bind, ExceptT.bind, StateT.bind, Functor.map,
    StateT.map, hcreate, FileTree.change, if_true]
  cases FileTree.create path t with
  | error e => rfl
  | ok made =>
      simp only [pure, ExceptT.bindCont, Except.mapError, StateT.map, header, happend,
        FileTree.change]
      cases FileTree.append path (String.ofList (Columns.header key)) made <;> rfl

/-- A table log begins with its heading. -/
theorem holds_heading {t created : FileTree}
    (hdevice : ∀ accepts, t.target? path ≠ some (.device accepts))
    (h : (create path key .table : ExceptT LogError (StateM FileTree) Unit) t = (.ok (), created)) :
    created.Holds path (String.ofList (Columns.header key)) := by
  rw [create_table] at h
  split at h
  · cases h
  · rename_i made hmade
    obtain ⟨appended, happend, hholds⟩ := FileTree.append_of_holds
      (FileTree.holds_of_create hdevice hmade) (String.ofList (Columns.header key))
    rw [happend] at h
    cases h
    simpa using hholds

/-- A table log has been made at a path that leads to no device, and every save has gone well. -/
structure TableLogged (path : String) (key : AccessKey) (saves : List (Nat × Table))
    (before after : FileTree) : Prop where
  place : ∀ accepts, before.target? path ≠ some (.device accepts)
  saved : ∃ (time : Nat → Timestamp) (attempts : Nat) (created : FileTree)
      (results : List (Except SaveFault Unit)) (log : FileLog),
    (create path key .table : ExceptT LogError (StateM FileTree) Unit) before = (.ok (), created) ∧
    (settle path (fun r => r.2.lines.toList)
        (fun refusal => saveAll { format := .table, time, refusal } saves) (attempts + 1) [] :
        StateM FileTree (List (Except SaveFault Unit) × FileLog)) created = ((results, log), after) ∧
    ∀ r ∈ results, r = .ok ()

theorem read_of_tableLogged {saves : List (Nat × Table)} {before after : FileTree}
    (h : TableLogged path key saves before after) :
    after.read path = .ok (String.ofList (Columns.file key (saves.map Prod.snd))) := by
  obtain ⟨time, attempts, created, results, log, hcreate, hsaves, hok⟩ := h.saved
  obtain ⟨settled, hsettle, hholds⟩ := settle_of_holds (holds_heading h.place hcreate)
    (fun r => r.2.lines.toList) (fun refusal => saveAll { format := .table, time, refusal } saves)
    attempts
  rw [hsettle, Prod.mk.injEq] at hsaves
  obtain ⟨hresults, rfl⟩ := hsaves
  have hsaved : (saveAll { format := .table, time, refusal := fun _ => none } saves).1 = results := by
    rw [hresults]
  obtain ⟨-, hlines⟩ := saveAll_ok (hsaved ▸ hok)
  have hrows : (saves.mapIdx fun i s => line .table i (time s.1) s.2) =
      ((saves.map Prod.snd).map Columns.row).map fun text => String.ofList (text ++ ['\n']) := by
    refine List.ext_getElem (by simp) fun i _ _ => ?_
    simp only [List.getElem_map, List.getElem_mapIdx]
    rfl
  have hzero : (saves.mapIdx fun i s => line .table (0 + i) (time s.1) s.2) =
      saves.mapIdx fun i s => line .table i (time s.1) s.2 := by
    simp
  simp only [hlines, List.nil_append, List.size_toArray, List.length_nil, hzero, hrows,
    join_lines] at hholds
  rw [FileTree.read_of_holds hholds, ← String.ofList_append, List.flatMap_map]
  rfl

/-- A table log tells its key and the tables that have been saved: its file is the heading and then one
line for each save. The line is a row of eleven words, which are the fields of the table, and the
table reads back from them. -/
theorem table_log_determines {saves : List (Nat × Table)} {before after : FileTree}
    (h : TableLogged path key saves before after) :
    after.read path = .ok (String.ofList (Columns.header key ++
      (saves.map Prod.snd).flatMap (Columns.row · ++ ['\n']))) ∧
    (∀ t : Table, '\n' ∉ Columns.row t ∧ Columns.words (Columns.row t) = Columns.cellTexts t ∧
      (Columns.cellTexts t).length = 11 ∧ (∀ w ∈ Columns.cellTexts t, w ≠ []) ∧
      Columns.table? (Columns.cellTexts t) = some t) ∧
    ∀ path' key' saves' before' after', TableLogged path' key' saves' before' after' →
      after.read path = after'.read path' →
        key = key' ∧ saves.map Prod.snd = saves'.map Prod.snd := by
  refine ⟨read_of_tableLogged h, fun t => ?_, fun path' key' saves' before' after' h' heq => ?_⟩
  · refine ⟨Columns.newline_not_mem_row t, Columns.words_row t, rfl, fun w hw => ?_, ?_⟩
    · exact (Columns.of_mem_cellTexts hw).1
    · rw [← Columns.words_row, Columns.table?_words]
  · rw [read_of_tableLogged h, read_of_tableLogged h'] at heq
    exact Columns.file_inj (String.ofList_injective (Except.ok.inj heq))

theorem table_log_determines_extremes : ∃ after, TableLogged "a" .default extremes oldLog after ∧
    ∀ key saves after', TableLogged "a" key saves oldLog after' →
      after.read "a" = after'.read "a" →
        AccessKey.default = key ∧ extremes.map Prod.snd = saves.map Prod.snd := by
  have htarget : oldLog.target? "a" = some (.text "old") := by cbv
  have hdevice : ∀ accepts, oldLog.target? "a" ≠ some (.device accepts) := by simp [htarget]
  have hmade : FileTree.create "a" oldLog = .ok { nodes := [(["a"], .text "")] } := by cbv
  obtain ⟨created, happend, hholds⟩ := FileTree.append_of_holds
    (FileTree.holds_of_create hdevice hmade) (String.ofList (Columns.header .default))
  obtain ⟨after, hsettle, -⟩ := settle_of_holds hholds (fun r => r.2.lines.toList)
    (fun refusal => saveAll { format := .table, refusal } extremes) 0
  have hlogged : TableLogged "a" .default extremes oldLog after := by
    refine ⟨hdevice, fun _ => .epoch, 0, created, _, _, ?_, hsettle, ?_⟩
    · rw [create_table, hmade]
      simp only [happend]
    · decide
  exact ⟨after, hlogged, fun key saves after' h' heq =>
    (table_log_determines hlogged).2.2 "a" key saves oldLog after' h' heq⟩

end FileLog

end CigaretteSmokers
