import DotGraph.Proofs.Admission
import DotGraph.Proofs.Coercion
import DotGraph.Proofs.EntryChanges
import DotGraph.Proofs.TableEdits

/-!
Updates of one table.  An entry of an update is refused for its key and its value alone, or it is a
change of the table.  An update is tried on an empty table before it is written, so it comes to all
of its changes or to none.
-/

namespace DotGraph

theorem Datum.text_same (s s' : String) : (Datum.text s == Datum.text s') = (s == s') := by
  show Datum.same (.text s) (.text s') = _
  simp [Datum.same, attrValue?, AttrValue.same, AttrValue.identity]

theorem Datum.isExact_text (s : String) : Entries.IsExact (Datum.text s) := by
  intro d
  cases d with
  | text s' => simp [Datum.text_same]
  | float x => cases x <;> exact ⟨⟨nofun, nofun⟩, nofun, nofun⟩
  | _ => exact ⟨⟨nofun, nofun⟩, nofun, nofun⟩

namespace Schema

/-- The change that an entry of an update stands for, unless the entry is refused. -/
def change? (schema : Schema) : Datum × Datum → Option (String × Option AttrValue)
  | (.text name, given) =>
    match schema.get? name, given with
    | none, _ => none
    | some _, .absent => some (name, none)
    | some spec, given =>
      match spec.coerce given with
      | .ok value => some (name, some value)
      | .error _ => none
  | _ => none

/-- Why an entry of an update is refused: its key is not declared, or cannot be looked up at all, or
its value is there and is none that the attribute takes. -/
inductive Refuses (schema : Schema) (owner : String) : Datum × Datum → AttrError → Prop
  | undeclared {key given : Datum} (hashable : key.isHashable = true)
      (unknown : ∀ name, key = .text name → schema.get? name = none) :
      Refuses schema owner (key, given) (.undeclared owner key)
  | notAKey {key given : Datum} (unhashable : key.isHashable = false) :
      Refuses schema owner (key, given) (.notAKey key)
  | value {name : String} {given : Datum} {spec : AttrSpec} {e : AttrError}
      (declared : schema.get? name = some spec) (present : given ≠ .absent)
      (refused : spec.coerce given = .error e) : Refuses schema owner (.text name, given) e

variable {schema : Schema} {entry : Datum × Datum} {c : String × Option AttrValue}

/-- A change removes a declared key, or enters under it what its attribute makes of the value. -/
theorem change?_eq_some_iff {name : String} {value : Option AttrValue} :
    schema.change? entry = some (name, value) ↔
      entry.1 = .text name ∧ ∃ spec, schema.get? name = some spec ∧
        match value with
        | none => entry.2 = .absent
        | some v => spec.coerce entry.2 = .ok v := by
  obtain ⟨key, given⟩ := entry
  constructor
  · intro h
    unfold change? at h
    split at h
    · rename_i name' given' heq
      cases heq
      split at h
      · cases h
      · rename_i spec hspec
        cases h
        exact ⟨rfl, spec, hspec, rfl⟩
      · rename_i spec hspec _
        split at h
        · rename_i hv
          cases h
          exact ⟨rfl, spec, hspec, hv⟩
        · cases h
    · cases h
  · rintro ⟨rfl, spec, hspec, hvalue⟩
    cases value with
    | none =>
      obtain rfl : given = .absent := hvalue
      simp [change?, hspec]
    | some v =>
      have hv : spec.coerce given = .ok v := hvalue
      cases given with
      | absent => exact absurd hv (AttrDomain.coerce_absent_ne_ok _ _ _)
      | _ => simp [change?, hspec, hv]

theorem change_or_refusal (schema : Schema) (owner : String) (entry : Datum × Datum) :
    (∃ c, schema.change? entry = some c) ∨ ∃ e, schema.Refuses owner entry e := by
  obtain ⟨key, given⟩ := entry
  cases hkey : key.isHashable with
  | false => exact .inr ⟨_, .notAKey hkey⟩
  | true =>
    by_cases hunknown : ∀ name, key = .text name → schema.get? name = none
    · exact .inr ⟨_, .undeclared hkey hunknown⟩
    push Not at hunknown
    obtain ⟨name, rfl, hdeclared⟩ := hunknown
    obtain ⟨spec, hspec⟩ := Option.ne_none_iff_exists'.1 hdeclared
    by_cases hgiven : given = .absent
    · exact .inl ⟨(name, none), change?_eq_some_iff.2 ⟨rfl, spec, hspec, hgiven⟩⟩
    cases hv : spec.coerce given with
    | error e => exact .inr ⟨e, .value hspec hgiven hv⟩
    | ok v => exact .inl ⟨(name, some v), change?_eq_some_iff.2 ⟨rfl, spec, hspec, hv⟩⟩

/-- The error of the first entry that is refused. -/
def FirstRefusal (schema : Schema) (owner : String) (attrs : Entries Datum Datum) (e : AttrError) :
    Prop :=
  ∃ before entry after, attrs = before ++ entry :: after ∧
    (∀ earlier ∈ before, ∀ e', ¬schema.Refuses owner earlier e') ∧ schema.Refuses owner entry e

variable {owner : String} {attrs : Entries Datum Datum} {e : AttrError}

theorem FirstRefusal.here (h : schema.Refuses owner entry e) :
    schema.FirstRefusal owner (entry :: attrs) e :=
  ⟨[], entry, attrs, rfl, by simp, h⟩

theorem FirstRefusal.later (hentry : ∀ e', ¬schema.Refuses owner entry e')
    (h : schema.FirstRefusal owner attrs e) : schema.FirstRefusal owner (entry :: attrs) e := by
  obtain ⟨before, entry', after, rfl, hbefore, hrefused⟩ := h
  exact ⟨entry :: before, entry', after, rfl, List.forall_mem_cons.2 ⟨hentry, hbefore⟩, hrefused⟩

theorem firstRefusal_cons (h : schema.FirstRefusal owner (entry :: attrs) e) :
    schema.Refuses owner entry e ∨
      (∀ e', ¬schema.Refuses owner entry e') ∧ schema.FirstRefusal owner attrs e := by
  obtain ⟨before, entry', after, heq, hbefore, hrefused⟩ := h
  cases before with
  | nil =>
    cases heq
    exact .inl hrefused
  | cons earlier before =>
    cases heq
    obtain ⟨hentry, hbefore⟩ := List.forall_mem_cons.1 hbefore
    exact .inr ⟨hentry, before, entry', after, rfl, hbefore, hrefused⟩

theorem exists_firstRefusal_iff :
    (∃ e, schema.FirstRefusal owner attrs e) ↔
      ∃ entry ∈ attrs, ∃ e, schema.Refuses owner entry e := by
  constructor
  · rintro ⟨e, before, entry, after, rfl, -, hrefused⟩
    exact ⟨entry, by simp, e, hrefused⟩
  · rintro ⟨entry, hmem, e, hrefused⟩
    induction attrs with
    | nil => cases hmem
    | cons first rest ih =>
      by_cases hfirst : ∃ e, schema.Refuses owner first e
      · obtain ⟨e', he'⟩ := hfirst
        exact ⟨e', .here he'⟩
      · rcases List.mem_cons.1 hmem with rfl | hmem
        · exact absurd ⟨e, hrefused⟩ hfirst
        · obtain ⟨e', he'⟩ := ih hmem
          exact ⟨e', .later (not_exists.1 hfirst) he'⟩

/-- All entries are changes, or one of them is the first that is refused. -/
theorem changes_or_firstRefusal (schema : Schema) (owner : String) (attrs : Entries Datum Datum) :
    (∃ changes : Entries String (Option AttrValue), attrs.map schema.change? = changes.map some) ∨
      ∃ e, schema.FirstRefusal owner attrs e := by
  induction attrs with
  | nil => exact .inl ⟨[], rfl⟩
  | cons entry rest ih =>
    by_cases hentry : ∃ e, schema.Refuses owner entry e
    · obtain ⟨e, he⟩ := hentry
      exact .inr ⟨e, .here he⟩
    have hnone := not_exists.1 hentry
    obtain ⟨c, hc⟩ := (change_or_refusal schema owner entry).resolve_right hentry
    obtain ⟨changes, hchanges⟩ | ⟨e, he⟩ := ih
    · exact .inl ⟨c :: changes, by simp [hc, hchanges]⟩
    · exact .inr ⟨e, .later hnone he⟩

theorem filterMap_of_changes {changes : Entries String (Option AttrValue)}
    (h : attrs.map schema.change? = changes.map some) :
    attrs.filterMap schema.change? = changes :=
  calc attrs.filterMap schema.change?
      = (attrs.map schema.change?).filterMap id := by simp [List.filterMap_map]
    _ = (changes.map some).filterMap id := by rw [h]
    _ = changes := by simp [List.filterMap_map]

end Schema

namespace AttrTable

variable {t t' : AttrTable} {key given : Datum} {attrs : Entries Datum Datum} {e : AttrError}

/-- The table after changes in a row. -/
def changed (t : AttrTable) (changes : Entries String (Option AttrValue)) : AttrTable :=
  { t with entries := t.entries.changeAll changes }

theorem assign_of_change? {c : String × Option AttrValue}
    (h : t.schema.change? (key, given) = some c) : t.assign key given = .ok (t.changed [c]) := by
  obtain ⟨name, value⟩ := c
  obtain ⟨rfl, spec, hspec, hvalue⟩ := Schema.change?_eq_some_iff.1 h
  show t.set name given = _
  cases value with
  | none =>
    obtain rfl : given = .absent := hvalue
    simp [set, hspec, changed, Entries.change]
  | some v => exact set_eq hspec hvalue

theorem assign_of_refuses (h : t.schema.Refuses t.owner (key, given) e) :
    t.assign key given = .error e := by
  cases h with
  | undeclared hashable unknown =>
    cases key with
    | text name =>
      show t.set name given = _
      simp [set, unknown name rfl]
    | _ =>
      simp only [assign, name?, hashable]
      rfl
  | notAKey unhashable =>
    have hname : name? key = .error (.notAKey key) := by
      cases key <;> simp_all [name?, Datum.isHashable]
    simp only [assign, hname]
    rfl
  | value declared present refused =>
    rename_i name spec
    show t.set name given = _
    unfold set
    rw [declared]
    cases given with
    | absent => exact absurd rfl present
    | _ => simp only [refused]

theorem assignAll_of_changes {changes : Entries String (Option AttrValue)}
    (h : attrs.map t.schema.change? = changes.map some) :
    t.assignAll attrs = .ok (t.changed changes) := by
  induction attrs generalizing t changes with
  | nil =>
    obtain rfl : changes = [] := by simpa using h.symm
    rfl
  | cons entry rest ih =>
    obtain ⟨key, given⟩ := entry
    cases changes with
    | nil => cases h
    | cons c changes =>
      obtain ⟨hc, hrest⟩ := List.cons.inj h
      have hstep := ih (t := t.changed [c]) hrest
      simp only [assignAll, assign_of_change? hc]
      exact hstep

theorem assignAll_of_firstRefusal (h : t.schema.FirstRefusal t.owner attrs e) :
    t.assignAll attrs = .error e := by
  induction attrs generalizing t with
  | nil =>
    obtain ⟨before, entry, after, heq, -⟩ := h
    cases before <;> cases heq
  | cons entry rest ih =>
    obtain ⟨key, given⟩ := entry
    obtain hrefused | ⟨hentry, hrest⟩ := Schema.firstRefusal_cons h
    · simp only [assignAll, assign_of_refuses hrefused]
      rfl
    · obtain ⟨c, hc⟩ :=
        (Schema.change_or_refusal t.schema t.owner (key, given)).resolve_right (not_exists.2 hentry)
      simp only [assignAll, assign_of_change? hc]
      exact ih (t := t.changed [c]) hrest

theorem assignAll_eq_error_iff :
    t.assignAll attrs = .error e ↔ t.schema.FirstRefusal t.owner attrs e := by
  refine ⟨fun h => ?_, assignAll_of_firstRefusal⟩
  obtain ⟨changes, hc⟩ | ⟨e', he'⟩ := Schema.changes_or_firstRefusal t.schema t.owner attrs
  · rw [assignAll_of_changes hc] at h
    cases h
  · rw [assignAll_of_firstRefusal he'] at h
    cases h
    exact he'

theorem assignAll_eq_ok_iff :
    t.assignAll attrs = .ok t' ↔ ∃ changes : Entries String (Option AttrValue),
      attrs.map t.schema.change? = changes.map some ∧ t' = t.changed changes := by
  constructor
  · intro h
    obtain ⟨changes, hc⟩ | ⟨e, he⟩ := Schema.changes_or_firstRefusal t.schema t.owner attrs
    · rw [assignAll_of_changes hc] at h
      cases h
      exact ⟨changes, hc, rfl⟩
    · rw [assignAll_of_firstRefusal he] at h
      cases h
  · rintro ⟨changes, hc, rfl⟩
    exact assignAll_of_changes hc

theorem apart_merged (mapping : Option (List (Datum × Datum))) (named : Entries String Datum) :
    (merged mapping named).Apart :=
  Entries.Apart.merge (Entries.Apart.merge .nil)

theorem isExact_underNames {named : Entries String Datum} :
    ∀ key ∈ (underNames named).keys, Entries.IsExact key := by
  intro key hkey
  rw [keys_underNames] at hkey
  obtain ⟨name, -, rfl⟩ := List.mem_map.1 hkey
  exact Datum.isExact_text name

/-- An update sets under a key what is given last under its name, or else what the mapping has. -/
theorem get?_merged (mapping : Option (List (Datum × Datum))) (named : Entries String Datum)
    (key : Datum) :
    (merged mapping named).get? key =
      ((underNames named).last? key).or ((Entries.ofList (mapping.getD [])).get? key) :=
  Entries.get?_merge isExact_underNames key

/-- The keys of the mapping stay in their places, and new names go behind them. -/
theorem keys_merged (mapping : Option (List (Datum × Datum))) (named : Entries String Datum) :
    (merged mapping named).keys =
      (Entries.ofList (mapping.getD [])).keys ++
        ((named.keys.map Datum.text).filter fun key =>
          !(Entries.ofList (mapping.getD [])).has key).eraseDups := by
  rw [← keys_underNames]
  exact Entries.keys_merge isExact_underNames

theorem keys_of_changes {schema : Schema} {changes : Entries String (Option AttrValue)}
    (h : attrs.map schema.change? = changes.map some) : attrs.keys = changes.keys.map .text := by
  induction attrs generalizing changes with
  | nil =>
    obtain rfl : changes = [] := by simpa using h.symm
    rfl
  | cons entry rest ih =>
    cases changes with
    | nil => cases h
    | cons c changes =>
      obtain ⟨hc, hrest⟩ := List.cons.inj h
      rw [Entries.keys_cons, Entries.keys_cons, List.map_cons, ih hrest]
      rw [(Schema.change?_eq_some_iff.1 hc).1]

theorem nodup_keys_changes {schema : Schema} {changes : Entries String (Option AttrValue)}
    (hapart : attrs.Apart) (h : attrs.map schema.change? = changes.map some) :
    changes.keys.Nodup := by
  unfold Entries.Apart at hapart
  rw [keys_of_changes h, List.pairwise_map] at hapart
  refine hapart.imp fun {name name'} hne heq => ?_
  subst heq
  simp [Datum.text_same] at hne

end AttrTable

namespace AttrTable

/-- An update raises the error of the first entry that is refused, and then leaves the table as it
was, or no entry is refused.  Then the values of entries that are there are replaced in their
places, entries that are given nothing are dropped, and the rest goes behind them in the order
given. -/
theorem update_all_or_nothing (t : AttrTable) (distinct : t.entries.keys.Nodup)
    (mapping : Option (List (Datum × Datum))) (named : Entries String Datum) :
    ((TableCall.update mapping named).perform.run.run t =
        match t.assignAll (merged mapping named) with
        | .error e => (.error e, t)
        | .ok t' => (.ok (), t')) ∧
      (∀ e, t.assignAll (merged mapping named) = .error e ↔
        t.schema.FirstRefusal t.owner (merged mapping named) e) ∧
      ((∃ e, t.assignAll (merged mapping named) = .error e) ↔
        ∃ entry ∈ merged mapping named, ∃ e, t.schema.Refuses t.owner entry e) ∧
      ∀ t', t.assignAll (merged mapping named) = .ok t' →
        ∃ changes : Entries String (Option AttrValue),
          (merged mapping named).map t.schema.change? = changes.map some ∧
          t' = ⟨t.schema, t.owner,
            t.entries.filterMap (Entries.kept changes) ++
              changes.filterMap (Entries.added t.entries)⟩ := by
  have henters := (TableCall.update mapping named).enters_perform t
  refine ⟨henters, fun e => assignAll_eq_error_iff, ?_, ?_⟩
  · simp only [assignAll_eq_error_iff]
    exact Schema.exists_firstRefusal_iff
  · intro t' ht'
    obtain ⟨changes, hchanges, rfl⟩ := assignAll_eq_ok_iff.1 ht'
    have hnames := nodup_keys_changes (apart_merged mapping named) hchanges
    exact ⟨changes, hchanges, by rw [changed, Entries.changeAll_eq distinct hnames]⟩

/-- A node's table with three entries. -/
def paintedNode : AttrTable :=
  { ofNode with entries := [("color", .text "red"), ("label", .text "a"), ("style", .text "bold")] }

/-- What an update of the table sets: it drops two entries, writes one anew and adds two. -/
def repainting : Entries Datum Datum :=
  merged (some [(.text "style", .absent), (.text "label", .text "b"), (.text "width", .integer 3)])
    [("label", .text "c"), ("color", .absent), ("group", .text "g")]

theorem update_all_or_nothing_paintedNode :
    ∃ t' changes, paintedNode.assignAll repainting = .ok t' ∧
      repainting.map paintedNode.schema.change? = changes.map some ∧
      t' = ⟨paintedNode.schema, paintedNode.owner,
        paintedNode.entries.filterMap (Entries.kept changes) ++
          changes.filterMap (Entries.added paintedNode.entries)⟩ ∧
      t'.entries = [("label", .text "c"), ("width", .integer 3), ("group", .text "g")] := by
  obtain ⟨-, -, -, hok⟩ := update_all_or_nothing paintedNode (by decide)
    (some [(.text "style", .absent), (.text "label", .text "b"), (.text "width", .integer 3)])
    [("label", .text "c"), ("color", .absent), ("group", .text "g")]
  have hentries : (paintedNode.assignAll repainting).toOption.map entries =
      some [("label", .text "c"), ("width", .integer 3), ("group", .text "g")] := by
    decide +kernel
  obtain ⟨t', ht', hwritten⟩ := Option.map_eq_some_iff.1 hentries
  obtain ⟨changes, hchanges, hclosed⟩ := hok t' (eq_ok_of_toOption ht')
  exact ⟨t', changes, eq_ok_of_toOption ht', hchanges, hclosed, hwritten⟩

end AttrTable

end DotGraph
