import DotGraph.Attribute.Edit

/-!
Edits of a table entry by entry.  Entering several values writes one after the other, behind a trial
on an empty table.  An entry is refused for its key and its value alone, so the trial finds every
refusal before anything is written, and an edit comes to all of its entries or to none.
-/

namespace DotGraph

namespace AttrTable

variable {t u : AttrTable}

theorem keys_underNames (attrs : Entries String Datum) :
    (underNames attrs).keys = attrs.keys.map .text := by
  simp [underNames, Entries.keys]

theorem assignAll_underNames (t : AttrTable) (attrs : Entries String Datum) :
    t.assignAll (underNames attrs) = t.update attrs := by
  induction attrs generalizing t with
  | nil => rfl
  | cons entry rest ih =>
    obtain ⟨name, given⟩ := entry
    have hassign : t.assign (.text name) given = t.set name given := rfl
    simp only [underNames, List.map_cons, assignAll, update, hassign]
    cases t.set name given with
    | error e => rfl
    | ok t' => exact ih t'

/-- Two tables that differ in their entries at most. -/
def Alike (t u : AttrTable) : Prop :=
  t.schema = u.schema ∧ t.owner = u.owner

/-- Two results of the same edit on tables that are alike: the same refusal, or tables alike. -/
inductive AlikeResults : Except AttrError AttrTable → Except AttrError AttrTable → Prop
  | error (e : AttrError) : AlikeResults (.error e) (.error e)
  | ok {t u : AttrTable} (h : t.Alike u) : AlikeResults (.ok t) (.ok u)

theorem Alike.set (h : t.Alike u) (name : String) (given : Datum) :
    AlikeResults (t.set name given) (u.set name given) := by
  obtain ⟨hs, ho⟩ := h
  unfold AttrTable.set
  rw [hs, ho]
  cases u.schema.get? name with
  | none => exact .error _
  | some spec =>
    cases given with
    | absent => exact .ok ⟨rfl, rfl⟩
    | _ =>
      dsimp only
      split
      · exact .error _
      · exact .ok ⟨rfl, rfl⟩

theorem Alike.assign (h : t.Alike u) (key given : Datum) :
    AlikeResults (t.assign key given) (u.assign key given) := by
  unfold AttrTable.assign
  cases name? key with
  | error e => exact .error e
  | ok name =>
    cases name with
    | some name => exact h.set name given
    | none =>
      rw [h.2]
      exact .error _

theorem Alike.assignAll (h : t.Alike u) (attrs : Entries Datum Datum) :
    AlikeResults (t.assignAll attrs) (u.assignAll attrs) := by
  induction attrs generalizing t u with
  | nil => exact .ok h
  | cons entry rest ih =>
    obtain ⟨key, given⟩ := entry
    have hstep := h.assign key given
    simp only [AttrTable.assignAll]
    generalize t.assign key given = x, u.assign key given = y at hstep
    cases hstep with
    | error e => exact .error e
    | ok h' => exact ih h'

/-- What is refused depends on the schema and the owner alone, so a trial finds all of it. -/
theorem trial (t : AttrTable) (attrs : Entries Datum Datum) :
    AlikeResults ((empty t.schema t.owner).assignAll attrs) (t.assignAll attrs) := by
  have halike : (empty t.schema t.owner).Alike t := ⟨rfl, rfl⟩
  exact halike.assignAll attrs

end AttrTable

namespace TableEdit

variable {t t' : AttrTable} {attrs : Entries Datum Datum} {e : AttrError} {edit : TableEdit Unit}

/-- An edit that comes to all of some entries, or is refused and comes to nothing. -/
def Enters (edit : TableEdit Unit) (attrs : Entries Datum Datum) : Prop :=
  ∀ t : AttrTable, edit.run.run t =
    match t.assignAll attrs with
    | .error e => (.error e, t)
    | .ok t' => (.ok (), t')

theorem Enters.run_of_ok (h : edit.Enters attrs) (ht : t.assignAll attrs = .ok t') :
    edit.run.run t = (.ok (), t') := by
  rw [h t, ht]

theorem Enters.run_of_error (h : edit.Enters attrs) (ht : t.assignAll attrs = .error e) :
    edit.run.run t = (.error e, t) := by
  rw [h t, ht]

theorem run_get_bind (f : AttrTable → TableEdit Unit) (t : AttrTable) :
    (get >>= f).run.run t = (f t).run.run t := rfl

theorem run_write (key given : Datum) (t : AttrTable) :
    (write key given).run.run t =
      match t.assign key given with
      | .error e => (.error e, t)
      | .ok t' => (.ok (), t') := by
  rw [write, run_get_bind]
  cases t.assign key given <;> rfl

theorem enters_write (key given : Datum) : (write key given).Enters [(key, given)] := by
  intro t
  rw [run_write]
  simp only [AttrTable.assignAll]
  cases t.assign key given <;> rfl

theorem run_writeAll_cons (key given : Datum) (rest : Entries Datum Datum) (t : AttrTable) :
    (writeAll ((key, given) :: rest)).run.run t =
      match t.assign key given with
      | .error e => (.error e, t)
      | .ok t' => (writeAll rest).run.run t' := by
  have hbind : (writeAll ((key, given) :: rest)).run.run t =
      match (write key given).run.run t with
      | (.error e, t') => (.error e, t')
      | (.ok (), t') => (writeAll rest).run.run t' := by
    show (write key given >>= fun _ => writeAll rest).run.run t = _
    simp only [ExceptT.run_bind, StateT.run_bind]
    rcases (write key given).run.run t with ⟨e | _, t'⟩ <;> rfl
  rw [hbind, run_write]
  cases t.assign key given <;> rfl

theorem run_writeAll_of_ok (h : t.assignAll attrs = .ok t') :
    (writeAll attrs).run.run t = (.ok (), t') := by
  induction attrs generalizing t with
  | nil =>
    cases h
    rfl
  | cons entry rest ih =>
    obtain ⟨key, given⟩ := entry
    rw [run_writeAll_cons]
    simp only [AttrTable.assignAll] at h
    cases hstep : t.assign key given with
    | error e =>
      rw [hstep] at h
      cases h
    | ok t₁ =>
      rw [hstep] at h
      exact ih h

theorem run_writeAll_of_error (h : t.assignAll attrs = .error e) :
    ((writeAll attrs).run.run t).1 = .error e := by
  induction attrs generalizing t with
  | nil => cases h
  | cons entry rest ih =>
    obtain ⟨key, given⟩ := entry
    rw [run_writeAll_cons]
    simp only [AttrTable.assignAll] at h
    cases hstep : t.assign key given with
    | error e' =>
      rw [hstep] at h
      cases h
      rfl
    | ok t₁ =>
      rw [hstep] at h
      exact ih h

theorem enters_enter (attrs : Entries Datum Datum) : (enter attrs).Enters attrs := by
  intro t
  rw [enter, run_get_bind]
  have hresults := t.trial attrs
  cases ha : t.assignAll attrs with
  | error e =>
    rw [ha] at hresults
    generalize htrial : (AttrTable.empty t.schema t.owner).assignAll attrs = trial at hresults
    cases hresults
    rw [run_writeAll_of_error htrial]
    rfl
  | ok t' =>
    rw [ha] at hresults
    generalize htrial : (AttrTable.empty t.schema t.owner).assignAll attrs = trial at hresults
    cases hresults
    rw [run_writeAll_of_ok htrial]
    exact run_writeAll_of_ok ha

end TableEdit

namespace TableCall

/-- What a call writes. -/
def entries : TableCall → Entries Datum Datum
  | set key given => [(key, given)]
  | unset key => [(key, .absent)]
  | update mapping named => AttrTable.merged mapping named

theorem enters_perform (call : TableCall) : call.perform.Enters call.entries := by
  cases call with
  | set key given => exact TableEdit.enters_write key given
  | unset key => exact TableEdit.enters_write key .absent
  | update mapping named => exact TableEdit.enters_enter _

end TableCall

end DotGraph
