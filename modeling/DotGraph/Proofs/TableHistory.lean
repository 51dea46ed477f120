import DotGraph.Proofs.TableUpdates
import DotGraph.Proofs.Tables

/-!
Tables over whole runs.  A run of calls comes to the changes of the calls that were not refused, one
after the other.  So it is their log that tells which keys a table holds, with which values and in
which order, and what an attribute has accepted once it accepts again.
-/

namespace DotGraph

theorem AttrDomain.coerce_toDatum {d : AttrDomain} {value : AttrValue} (h : d.Takes value)
    (name : Datum) : d.coerce name value.toDatum = .ok value := by
  cases d <;> cases value <;> first | exact h.elim | rfl | exact if_pos h

namespace TableCall

/-- What a call assigns.  An update assigns what a mapping has and what is given under names, where
a key that comes again keeps its first place and takes what comes for it last. -/
def assigned : TableCall → Entries Datum Datum
  | set key given => [(key, given)]
  | unset key => [(key, .absent)]
  | update mapping named =>
    Entries.settled (mapping.getD [] ++ named.map fun entry => (Datum.text entry.1, entry.2))

/-- What is written under texts alone is what a call assigns. -/
theorem entries_eq_assigned {call : TableCall} (h : ∀ key ∈ call.entries.keys, ∃ s, key = .text s) :
    call.entries = call.assigned := by
  cases call with
  | set key given => rfl
  | unset key => rfl
  | update mapping named =>
    have hmerge : AttrTable.merged mapping named =
        Entries.ofList (mapping.getD [] ++ AttrTable.underNames named) :=
      (List.foldl_append ..).symm
    refine hmerge.trans (Entries.ofList_eq_settled fun key hkey => ?_)
    obtain ⟨key', hmem, hequal⟩ := Entries.exists_mem_keys_merge hkey
    obtain ⟨s, rfl⟩ : ∃ s, key' = .text s := h key' (by rw [entries, hmerge]; exact hmem)
    obtain rfl | hequal := hequal
    · exact Datum.isExact_text s
    · rw [← (Datum.isExact_text s key).1.1 hequal]
      exact Datum.isExact_text s

theorem perform_eq_error_iff (call : TableCall) (t : AttrTable) (e : AttrError) :
    (call.perform.run.run t).1 = .error e ↔ t.schema.FirstRefusal t.owner call.entries e := by
  rw [call.enters_perform, ← AttrTable.assignAll_eq_error_iff]
  cases t.assignAll call.entries <;> simp

/-- A call makes the changes of all that it assigns, or it is refused and makes none. -/
theorem perform_cases (call : TableCall) (t : AttrTable) :
    (∃ changes : Entries String (Option AttrValue),
      call.assigned.map t.schema.change? = changes.map some ∧
        call.perform.run.run t = (.ok (), t.changed changes)) ∨
      ∃ e, call.perform.run.run t = (.error e, t) := by
  rw [call.enters_perform]
  obtain ⟨changes, hchanges⟩ | ⟨e, he⟩ :=
    Schema.changes_or_firstRefusal t.schema t.owner call.entries
  · have htexts : ∀ key ∈ call.entries.keys, ∃ s, key = .text s := by
      intro key hkey
      rw [AttrTable.keys_of_changes hchanges] at hkey
      obtain ⟨name, -, rfl⟩ := List.mem_map.1 hkey
      exact ⟨name, rfl⟩
    rw [AttrTable.assignAll_of_changes hchanges]
    rw [entries_eq_assigned htexts] at hchanges
    exact .inl ⟨changes, hchanges, rfl⟩
  · rw [AttrTable.assignAll_of_firstRefusal he]
    exact .inr ⟨e, rfl⟩

end TableCall

namespace AttrTable

variable {t : AttrTable} {calls : List TableCall} {name : String} {value : AttrValue}

/-- The table after a run of calls, refused ones among them. -/
def after (t : AttrTable) : List TableCall → AttrTable
  | [] => t
  | call :: rest => (call.perform.run.run t).2.after rest

/-- What the calls of a run that are not refused assign to attributes, in order. -/
def log (t : AttrTable) : List TableCall → Entries String (Option AttrValue)
  | [] => []
  | call :: rest =>
    match call.perform.run.run t with
    | (.ok (), t') => call.assigned.filterMap t.schema.change? ++ t'.log rest
    | (.error _, t') => t'.log rest

/-- A run of calls comes to what its log says. -/
theorem after_eq (t : AttrTable) (calls : List TableCall) :
    t.after calls = t.changed (t.log calls) := by
  induction calls generalizing t with
  | nil => rfl
  | cons call rest ih =>
    obtain ⟨changes, hchanges, hrun⟩ | ⟨e, hrun⟩ := call.perform_cases t
    · rw [after, log, hrun, Schema.filterMap_of_changes hchanges]
      show (t.changed changes).after rest = _
      rw [ih]
      simp [changed]
    · rw [after, log, hrun]
      exact ih t

/-- What a log enters is what a declared attribute made of a value. -/
theorem takes_of_mem_log (h : (name, some value) ∈ t.log calls) :
    ∃ spec, t.schema.get? name = some spec ∧ spec.domain.Takes value := by
  induction calls generalizing t with
  | nil => cases h
  | cons call rest ih =>
    obtain ⟨changes, -, hrun⟩ | ⟨e, hrun⟩ := call.perform_cases t
    · rw [log, hrun] at h
      rcases List.mem_append.1 h with h | h
      · obtain ⟨entry, -, hentry⟩ := List.mem_filterMap.1 h
        obtain ⟨-, spec, hspec, hv⟩ := Schema.change?_eq_some_iff.1 hentry
        exact ⟨spec, hspec, AttrDomain.takes_of_coerce hv⟩
      · exact ih (t := t.changed changes) h
    · rw [log, hrun] at h
      exact ih h

/-- After any run of calls on a fresh table, refused ones among them, the table holds under each key
what the last call that set the key made of the value, and nothing under a key that was removed
last.  Each key stands there once, in the order in which the keys came in to stay.  Every key is
declared, and every value is one that its attribute accepts again as it is.  Whether the next call
is refused, and why, depends on the call alone. -/
theorem entries_after_calls (schema : Schema) (owner : String) (calls : List TableCall) :
    (∀ name value, (name, value) ∈ ((empty schema owner).after calls).entries ↔
        Entries.last? name ((empty schema owner).log calls) = some (some value)) ∧
      ((empty schema owner).after calls).entries.keys.Nodup ∧
      (∀ name ∈ ((empty schema owner).after calls).entries.keys,
        ∃ i, Entries.EntersAt ((empty schema owner).log calls) name i) ∧
      (((empty schema owner).after calls).entries.keys.Pairwise fun name later =>
        ∀ i j, Entries.EntersAt ((empty schema owner).log calls) name i →
          Entries.EntersAt ((empty schema owner).log calls) later j → i < j) ∧
      (∀ entry ∈ ((empty schema owner).after calls).entries,
        ∃ spec, schema.get? entry.1 = some spec ∧
          spec.coerce entry.2.toDatum = .ok entry.2 ∧
          entry.2.toDatum ≠ .absent ∧
          ∀ x, entry.2.toDatum = .float x → ∃ y, x = .finite y) ∧
      ∀ (next : TableCall) e,
        (next.perform.run.run ((empty schema owner).after calls)).1 = .error e ↔
          schema.FirstRefusal owner next.entries e := by
  have hentries : ((empty schema owner).after calls).entries =
      Entries.changeAll [] ((empty schema owner).log calls) :=
    congrArg entries (after_eq (empty schema owner) calls)
  have hrefused : ∀ (next : TableCall) e,
      (next.perform.run.run ((empty schema owner).after calls)).1 = .error e ↔
        schema.FirstRefusal owner next.entries e := by
    intro next e
    rw [next.perform_eq_error_iff, after_eq]
    rfl
  rw [hentries]
  refine ⟨fun name value => Entries.mem_changeAll_iff, Entries.nodup_keys_log _, ?_,
    Entries.pairwise_entersAt _, ?_, hrefused⟩
  · exact fun name hname => Entries.exists_entersAt (Entries.mem_keys_changeAll_iff.1 hname)
  · rintro ⟨name, value⟩ hmem
    have hlast := Entries.mem_changeAll_iff.1 hmem
    have hlog : (name, some value) ∈ (empty schema owner).log calls :=
      List.mem_reverse.1 (Entries.mem_of_get? hlast)
    obtain ⟨spec, hspec, htakes⟩ := takes_of_mem_log hlog
    refine ⟨spec, hspec, AttrDomain.coerce_toDatum htakes _, ?_, ?_⟩
    · cases value <;> nofun
    · cases value <;> intro x hx <;> cases hx
      exact ⟨_, rfl⟩

/-- Calls on a node's table.  The update gives the label a name of its own beside that of its
mapping, and takes the colour back that the mapping has; the call behind it is refused. -/
def overridingCalls : List TableCall :=
  [.set (.text "width") (.integer 2),
    .update (some [(.text "label", .text "b"), (.text "color", .text "red")])
      [("color", .absent), ("label", .text "c"), ("style", .text "bold")],
    .set (.text "width") (.text "wide")]

theorem entries_after_calls_overriding :
    ("label", .text "c") ∈ ((empty Schema.node "node").after overridingCalls).entries ∧
      (∀ value, ("color", value) ∉ ((empty Schema.node "node").after overridingCalls).entries) ∧
      ((empty Schema.node "node").after overridingCalls).entries.keys =
        ["width", "label", "style"] ∧
      ∀ i j, Entries.EntersAt ((empty Schema.node "node").log overridingCalls) "width" i →
        Entries.EntersAt ((empty Schema.node "node").log overridingCalls) "label" j → i < j := by
  obtain ⟨hmem, -, -, horder, -⟩ := entries_after_calls Schema.node "node" overridingCalls
  have hlabel : Entries.last? "label" ((empty Schema.node "node").log overridingCalls) =
      some (some (.text "c")) := by
    decide +kernel
  have hcolor : Entries.last? "color" ((empty Schema.node "node").log overridingCalls) =
      some none := by
    decide +kernel
  have hkeys : ((empty Schema.node "node").after overridingCalls).entries.keys =
      ["width", "label", "style"] := by
    decide +kernel
  refine ⟨(hmem _ _).2 hlabel, fun value hvalue => ?_, hkeys, ?_⟩
  · rw [hmem, hcolor] at hvalue
    cases hvalue
  · rw [hkeys] at horder
    exact (List.pairwise_cons.1 horder).1 "label" (by simp)

end AttrTable

end DotGraph
