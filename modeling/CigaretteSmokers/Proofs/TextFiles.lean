import CigaretteSmokers.Disk.FileTree

/-!
Files of text in a tree: what a path leads to, and what a file holds once it has been made and
appended to.
-/

namespace CigaretteSmokers.FileTree

variable {t : FileTree}

/-- What is at the end of a path, if anything is. -/
def target? (path : String) (t : FileTree) : Option FileNode :=
  match names path >>= t.walk (t.start path) with
  | .ok place => t.node? place
  | .error _ => none

/-- The path leads to a file of text that holds `content`. -/
def Holds (path content : String) (t : FileTree) : Prop := t.target? path = some (.text content)

theorem read_of_holds {path content : String} (h : t.Holds path content) :
    t.read path = .ok content := by
  unfold Holds target? at h
  unfold read
  cases hn : names path with
  | error e => simp [hn, bind, Except.bind] at h
  | ok ns =>
      simp only [hn, bind, Except.bind] at h ⊢
      split at h
      · rename_i place hplace
        simp [hplace, h, pure, Except.pure]
      · cases h

section Put

variable {place : List String} {n : FileNode}

theorem node?_put_self (h : place ≠ []) : (t.put place n).node? place = some n := by
  cases place with
  | nil => exact absurd rfl h
  | cons name place => simp [node?, put]

theorem node?_put_of_ne {here : List String} (h : here ≠ place) :
    (t.put place n).node? here = t.node? here := by
  have hlookup : ∀ nodes : List (List String × FileNode),
      (nodes.filter (·.1 ≠ place)).lookup here = nodes.lookup here := by
    intro nodes
    induction nodes with
    | nil => rfl
    | cons node nodes ih =>
        by_cases hp : node.1 = place
        · have hne : (here == node.1) = false := by simpa [hp] using h
          rw [List.filter_cons_of_neg (by simpa using hp), ih, List.lookup_cons, hne]
        · rw [List.filter_cons_of_pos (by simpa using hp), List.lookup_cons, List.lookup_cons, ih]
  have hne : (here == place) = false := by simpa using h
  cases here with
  | nil => rfl
  | cons name here => simp only [node?, put, List.lookup_cons, hne, hlookup]

/-- A walk goes through directories only, so what is put elsewhere does not turn it. -/
theorem walk_put (hplace : t.node? place ≠ some .directory) {here end_ : List String}
    {names : List String} (h : t.walk here names = .ok end_) :
    (t.put place n).walk here names = .ok end_ := by
  induction names generalizing here with
  | nil => exact h
  | cons name names ih =>
      have hhere : t.node? here = some .directory := by
        rw [walk] at h
        split at h
        · cases h
        · assumption
        · cases h
      have hne : here ≠ place := by
        rintro rfl
        exact hplace hhere
      have hput : (t.put place n).node? here = some .directory := by
        rw [node?_put_of_ne hne, hhere]
      simp only [walk, hhere] at h
      simp only [walk, hput]
      grind

end Put

theorem walk_append (here : List String) (ns ms : List String) :
    t.walk here (ns ++ ms) = t.walk here ns >>= fun there => t.walk there ms := by
  induction ns generalizing here with
  | nil => rfl
  | cons name ns ih =>
      simp only [List.cons_append, walk]
      split
      · rfl
      · split
        · exact ih _
        · split
          · exact ih _
          · split
            · rfl
            · exact ih _
      · rfl

theorem put_holds {path : String} {names' place : List String} (hnames : names path = .ok names')
    (hwalk : t.walk (t.start path) names' = .ok place) (hplace : t.node? place ≠ some .directory)
    (content : String) : (t.put place (.text content)).Holds path content := by
  have hne : place ≠ [] := by
    rintro rfl
    exact hplace rfl
  have hstart : (t.put place (.text content)).start path = t.start path := rfl
  simp only [Holds, target?, hnames, bind, Except.bind, hstart, walk_put hplace hwalk,
    node?_put_self hne]

/-- Without a slash at the end, the last name is just that. -/
theorem eq_of_lastName {path above : List String} {name : String} (hpath : path ≠ [])
    (h : lastName path = (some (above, name), false)) : path = above ++ [name] := by
  obtain ⟨init, last, rfl⟩ := (List.eq_nil_or_concat path).resolve_left hpath
  rw [List.concat_eq_append] at h ⊢
  unfold lastName at h
  split at h
  · simp at h
  · rename_i name' above' hrev
    simp only [Prod.mk.injEq, Option.some.injEq, decide_eq_false_iff_not] at h
    obtain ⟨⟨rfl, rfl⟩, hlast⟩ := h
    have hne : last ≠ "" := by simpa using hlast
    simp [hne] at hrev
    simp [← hrev.1, ← hrev.2]

theorem holds_of_create {path : String} {created : FileTree}
    (hdevice : ∀ accepts, t.target? path ≠ some (.device accepts))
    (h : create path t = .ok created) : created.Holds path "" := by
  unfold create at h
  cases hnames : names path with
  | error e => simp [hnames, bind, Except.bind] at h
  | ok names' =>
      simp only [hnames, bind, Except.bind] at h
      split at h
      · cases h
      · rename_i above name slash hlast
        split at h
        · cases h
        · rename_i folder hfolder
          split at h
          · cases h
          · rename_i hdirectory
            cases slash with
            | true => cases h
            | false =>
                have hne : names' ≠ [] := by
                  rintro rfl
                  cases hlast
                simp only [Bool.false_eq_true, if_false] at h
                split at h
                · cases h
                · rename_i place hplace
                  have hwalk : t.walk (t.start path) names' = .ok place := by
                    rw [eq_of_lastName hne hlast, walk_append, hfolder]
                    exact hplace
                  have htarget : t.target? path = t.node? place := by
                    simp only [target?, hnames, bind, Except.bind, hwalk]
                  split at h
                  · cases h
                  · rename_i accepts hnode
                    exact absurd (htarget.trans hnode) (hdevice accepts)
                  · rename_i hnode _
                    cases h
                    exact put_holds hnames hwalk hnode ""
          · cases h

theorem append_of_holds {path content : String} (h : t.Holds path content) (more : String) :
    ∃ appended, append path more t = .ok appended ∧ appended.Holds path (content ++ more) := by
  unfold Holds target? at h
  unfold append
  cases hnames : names path with
  | error e => simp [hnames, bind, Except.bind] at h
  | ok names' =>
      simp only [hnames, bind, Except.bind] at h ⊢
      split at h
      · rename_i place hplace
        simp only [hplace, h]
        exact ⟨_, rfl, put_holds hnames hplace (by simp [h]) _⟩
      · cases h

end CigaretteSmokers.FileTree
