import CigaretteSmokers.Log.Entry
import CigaretteSmokers.Proofs.JsonTexts
import CigaretteSmokers.Proofs.Moments

/-!
A table, and an entry of a log, written as JSON and read back. What is written has no line break
in it.
-/

namespace CigaretteSmokers

open Text.Digits (ofInt)

namespace Json

theorem newline_not_mem_escape (c : Char) : '\n' ∉ escape c := by
  unfold escape
  split
  · rename_i h
    rcases h with rfl | rfl <;> decide
  iterate 5
    split
    · decide
  split
  · rename_i h
    revert h
    generalize c.toNat = n
    revert n
    decide
  · rename_i h _ _ _
    simpa using Ne.symm h

theorem newline_not_mem_quote (s : String) : '\n' ∉ quote s := by
  simp [quote, newline_not_mem_escape]

theorem newline_not_mem_ofInt (n : Int) : '\n' ∉ ofInt n := by
  have hdigits : '\n' ∉ Nat.toDigits 10 n.natAbs := fun h => by
    simpa using (Text.Digits.isRun_toDigits _).isDigit _ h
  unfold ofInt
  split
  · simpa using hdigits
  · exact hdigits

theorem newline_not_mem_joined {parts : List (List Char)} (h : ∀ p ∈ parts, '\n' ∉ p) :
    '\n' ∉ joined parts := by
  induction parts with
  | nil => simp [joined]
  | cons p parts ih =>
      cases parts with
      | nil => simpa [joined_singleton] using h
      | cons q parts =>
          rw [joined_cons_cons]
          simp [h p (by simp), ih fun r hr => h r (List.mem_cons_of_mem _ hr)]

theorem newline_not_mem_array {items : List (List Char)} (h : ∀ p ∈ items, '\n' ∉ p) :
    '\n' ∉ array items := by
  simp [array, newline_not_mem_joined h]

theorem newline_not_mem_object {fields : List (String × List Char)} (h : ∀ f ∈ fields, '\n' ∉ f.2) :
    '\n' ∉ object fields := by
  have hparts : ∀ p ∈ fields.map fun f => quote f.1 ++ ':' :: f.2, '\n' ∉ p := by
    simp only [List.mem_map]
    rintro - ⟨f, hf, rfl⟩
    simp [newline_not_mem_quote, h f hf]
  simp [object, newline_not_mem_joined hparts]

end Json

namespace Table

open Json (Value Reads)

theorem ofCode?_smoker (s : SmokerStatus) : SmokerStatus.ofCode? s.code = some s := by
  cases s <;> rfl

theorem ofCode?_agent (s : AgentStatus) : AgentStatus.ofCode? s.code = some s := by
  cases s <;> rfl

section

variable {α : Type} (text : α → List Char) (value : α → Value)

theorem reads_trio (h : ∀ a, Reads (text a) (value a)) (t : Trio α) :
    Reads (Json.array (t.toList.map text)) (.array (t.toList.map value)) := by
  have hread : ∀ p ∈ t.toList.map fun a => (text a, value a), Reads p.1 p.2 := by
    simp only [List.mem_map]
    rintro - ⟨a, -, rfl⟩
    exact h a
  have hparts := Json.reads_array (by simp [Trio.toList]) hread
  simpa only [List.map_map, Function.comp_def] using hparts

theorem trioOfJson?_array {read : Value → Option α} (h : ∀ a, read (value a) = some a) (t : Trio α) :
    trioOfJson? read (.array (t.toList.map value)) = some t := by
  simp [trioOfJson?, Value.items?, Trio.toList, h, Trio.ofList?]

end

/-- The fields of a table, each as its text and as what the text denotes. -/
def fields (t : Table) : List (String × List Char × Value) :=
  [("ingredient_count", Json.array (t.ingredients.toList.map fun n => ofInt n.toInt),
      .array (t.ingredients.toList.map fun n => .integer n.toInt)),
   ("smoker_status", Json.array (t.smokers.toList.map fun s => Json.quote s.code),
      .array (t.smokers.toList.map fun s => .text (some s.code))),
   ("cigarette_count", Json.array (t.cigarettes.toList.map fun n => ofInt n.toNat),
      .array (t.cigarettes.toList.map fun n => .integer n.toNat)),
   ("agent_status", Json.quote t.agent.code, .text (some t.agent.code)),
   ("closing", (if t.closing then "true" else "false").toList, .boolean t.closing)]

def toValue (t : Table) : Value := .object (t.fields.map fun e => (some e.1, e.2.2))

theorem toJson_eq (t : Table) : t.toJson = Json.object (t.fields.map fun e => (e.1, e.2.1)) := rfl

theorem reads_toJson (t : Table) : Reads t.toJson t.toValue := by
  rw [toJson_eq]
  refine Json.reads_object t.fields (List.cons_ne_nil _ _) ?_
  simp only [fields, List.forall_mem_cons, List.not_mem_nil, false_imp_iff, implies_true, and_true]
  have hingredients := reads_trio (fun n : Int64 => ofInt n.toInt) (fun n => .integer n.toInt)
    (fun _ => Json.reads_integer _) t.ingredients
  have hsmokers := reads_trio (fun s : SmokerStatus => Json.quote s.code)
    (fun s => .text (some s.code)) (fun _ => Json.reads_quote _) t.smokers
  have hcigarettes := reads_trio (fun n : UInt64 => ofInt n.toNat) (fun n => .integer n.toNat)
    (fun _ => Json.reads_integer _) t.cigarettes
  exact ⟨hingredients, hsmokers, hcigarettes, Json.reads_quote _, Json.reads_boolean _⟩

theorem newline_not_mem_toJson (t : Table) : '\n' ∉ t.toJson := by
  refine Json.newline_not_mem_object ?_
  simp only [List.forall_mem_cons, List.not_mem_nil, false_imp_iff, implies_true, and_true]
  refine ⟨Json.newline_not_mem_array ?_, Json.newline_not_mem_array ?_,
    Json.newline_not_mem_array ?_, Json.newline_not_mem_quote _, ?_⟩
  · simp [Json.newline_not_mem_ofInt]
  · simp [Json.newline_not_mem_quote]
  · simp [Json.newline_not_mem_ofInt]
  · cases t.closing <;> decide

theorem ofJson?_toValue (t : Table) : ofJson? t.toValue = some t := by
  have hfields : t.toValue.fields? fieldNames = some
      [.array (t.ingredients.toList.map fun n => .integer n.toInt),
       .array (t.smokers.toList.map fun s => .text (some s.code)),
       .array (t.cigarettes.toList.map fun n => .integer n.toNat),
       .text (some t.agent.code), .boolean t.closing] := by
    simp [Value.fields?, toValue, fields, fieldNames]
  simp only [ofJson?, hfields]
  rw [trioOfJson?_array _ fun n => Checked.signed_toInt n,
    trioOfJson?_array _ fun s => ofCode?_smoker s,
    trioOfJson?_array _ fun n => Checked.unsigned_toNat n]
  simp [Value.choice?, Value.boolean?, ofCode?_agent]

/-- A table that has been written reads back, with every number in full. -/
theorem ofJson?_toJson (t : Table) : (Json.ofChars? t.toJson).bind ofJson? = some t := by
  rw [t.reads_toJson.ofChars, Option.bind_some, ofJson?_toValue]

end Table

namespace Entry

open Json (Value Reads)

def fields (e : Entry) : List (String × List Char × Value) :=
  [("seq", ofInt e.number.toNat, .integer e.number.toNat),
   ("at", Json.quote e.time.render, .text (some e.time.render)),
   ("state", e.table.toJson, e.table.toValue)]

def toValue (e : Entry) : Value := .object (e.fields.map fun f => (some f.1, f.2.2))

theorem toJson_eq (e : Entry) : e.toJson = Json.object (e.fields.map fun f => (f.1, f.2.1)) := rfl

theorem reads_toJson (e : Entry) : Reads e.toJson e.toValue := by
  rw [toJson_eq]
  refine Json.reads_object e.fields (List.cons_ne_nil _ _) ?_
  simp only [fields, List.forall_mem_cons, List.not_mem_nil, false_imp_iff, implies_true, and_true]
  exact ⟨Json.reads_integer e.number.toNat, Json.reads_quote e.time.render, e.table.reads_toJson⟩

theorem newline_not_mem_toJson (e : Entry) : '\n' ∉ e.toJson := by
  refine Json.newline_not_mem_object ?_
  simp only [List.forall_mem_cons, List.not_mem_nil, false_imp_iff, implies_true, and_true]
  exact ⟨Json.newline_not_mem_ofInt _, Json.newline_not_mem_quote _, e.table.newline_not_mem_toJson⟩

theorem ofJson?_toValue (e : Entry) : ofJson? e.toValue = some e := by
  have hfields : e.toValue.fields? ["seq", "at", "state"] = some
      [.integer e.number.toNat, .text (some e.time.render), e.table.toValue] := by
    simp [Value.fields?, toValue, fields]
  have hnumber : (Value.natural? (.integer e.number.toNat)).bind Checked.unsigned = some e.number :=
    Checked.unsigned_toNat e.number
  simp [ofJson?, hfields, hnumber, Value.string?, Timestamp.parse?_render, Table.ofJson?_toValue]

/-- An entry that has been written reads back. -/
theorem ofJson?_toJson (e : Entry) : (Json.ofChars? e.toJson).bind ofJson? = some e := by
  rw [e.reads_toJson.ofChars, Option.bind_some, ofJson?_toValue]

end Entry

end CigaretteSmokers
