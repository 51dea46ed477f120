import DotGraph.Network.NodeLink
import DotGraph.Proofs.Admission
import DotGraph.Proofs.EntryLists

/-!
What is wrong with a node-link object that cannot be read.  An error that names null comes from a
node or from an end of a link, and one that names a torn text from a torn text.  What is read has
data of its own, unless these are given as something else than a record.
-/

namespace DotGraph

namespace Json

def member? (name : String) : Json → Option Json
  | object members => Entries.get? name members
  | _ => none

def elements : Json → List Json
  | array items => items
  | _ => []

/-- What a member of an object lists. -/
def listed (name : String) (value : Json) : List Json :=
  ((value.member? name).map elements).getD []

/-- Whether a node, or an end of a link, is given as null. -/
def HasNullNode (value : Json) : Prop :=
  (∃ node ∈ value.listed "nodes", node.member? "id" = some null) ∨
    ∃ link ∈ value.listed "links",
      link.member? "source" = some null ∨ link.member? "target" = some null

/-- Whether the data of the graph, where there are any, are a record. -/
def DataAreRecord (value : Json) : Prop :=
  ∀ data, value.member? "graph" = some data → ∃ members, data = object members

/-- No text in the value is torn. -/
def IsWhole (value : Json) : Prop :=
  value.toDatum?.isSome

variable {items : List Json} {fields : List (String × Json)}

theorem isWhole_array_iff : (array items).IsWhole ↔ ∀ item ∈ items, item.IsWhole := by
  have hitems : (itemsToData? items).isSome ↔ ∀ item ∈ items, item.IsWhole := by
    induction items with
    | nil => simp [itemsToData?]
    | cons item rest ih =>
      rw [List.forall_mem_cons, ← ih, itemsToData?, IsWhole]
      cases item.toDatum? <;> cases itemsToData? rest <;> simp
  rw [← hitems, IsWhole, toDatum?, Option.isSome_map]

theorem isWhole_object_iff : (object fields).IsWhole ↔ ∀ entry ∈ fields, entry.2.IsWhole := by
  have hfields : (membersToData? fields).isSome ↔ ∀ entry ∈ fields, entry.2.IsWhole := by
    induction fields with
    | nil => simp [membersToData?]
    | cons entry rest ih =>
      obtain ⟨key, value⟩ := entry
      rw [List.forall_mem_cons, ← ih, membersToData?, IsWhole]
      cases value.toDatum? <;> cases membersToData? rest <;> simp
  rw [← hfields, IsWhole, toDatum?, Option.isSome_map]

theorem IsWhole.member {name : String} {value : Json} (h : (object fields).IsWhole)
    (hg : Entries.get? name fields = some value) : value.IsWhole :=
  isWhole_object_iff.1 h _ (Entries.mem_of_get? hg)

theorem IsWhole.listed {name : String} {value item : Json} (h : value.IsWhole)
    (hm : item ∈ value.listed name) : item.IsWhole := by
  cases value with
  | object fields =>
    change item ∈ ((Entries.get? name fields).map elements).getD [] at hm
    cases hg : Entries.get? name fields with
    | none => simp [hg] at hm
    | some found =>
      have hfound := h.member hg
      rw [hg, Option.map_some, Option.getD_some] at hm
      cases found with
      | array items => exact isWhole_array_iff.1 hfound item hm
      | _ => simp [elements] at hm
  | _ => simp [Json.listed, member?] at hm

end Json

namespace Network

/-- What an error of reading a value says of the value: that something in it is null, or that it
holds a torn text. -/
structure NodeLinkError.Blames (e : NodeLinkError) (value : Json) (isNull : Prop) : Prop where
  null : e = .key .null → isNull
  torn : e = .torn → ¬ value.IsWhole

/-- An error that says neither. -/
def NodeLinkError.IsPlain (e : NodeLinkError) : Prop :=
  e ≠ .key .null ∧ e ≠ .torn

theorem NodeLinkError.IsPlain.blames {e : NodeLinkError} (h : e.IsPlain) (value : Json)
    (isNull : Prop) : e.Blames value isNull :=
  ⟨fun he => absurd he h.1, fun he => absurd he h.2⟩

namespace NodeLink

variable {n n' : Network} {e : NodeLinkError} {fields : List (String × Json)}

/-! ### What errors say -/

theorem eq_object_of_members {value : Json} (h : members value = .ok fields) :
    value = .object fields := by
  cases value with
  | object fields' =>
    cases h
    rfl
  | null => cases h
  | flag b => cases h
  | integer n => cases h
  | float x => cases h
  | text s => cases h
  | torn pieces => cases h
  | array items => cases h

theorem plain_of_members {value : Json} (h : members value = .error e) : e.IsPlain := by
  cases value <;> cases h <;> exact ⟨nofun, nofun⟩

theorem plain_of_required {name : String} (h : required name fields = .error e) : e.IsPlain := by
  unfold required at h
  split at h <;> cases h
  exact ⟨nofun, nofun⟩

theorem plain_of_entriesOf {name : String} {value : Json} (h : entriesOf name value = .error e) :
    e.IsPlain := by
  unfold entriesOf at h
  split at h
  · cases h
  · cases h
  · cases h
    exact ⟨nofun, nofun⟩
  · split at h <;> cases h
    exact ⟨nofun, nofun⟩
  · cases h
    exact ⟨nofun, nofun⟩

theorem plain_of_checkNames {taken : List String} {data : NetData}
    (h : checkNames taken data = .error e) : e.IsPlain := by
  unfold checkNames at h
  split at h <;> cases h
  exact ⟨nofun, nofun⟩

theorem eq_torn_of_orTorn {α : Type} {x : Option α} (h : orTorn x = .error e) :
    x = none ∧ e = .torn := by
  cases x <;> cases h
  exact ⟨rfl, rfl⟩

theorem eq_some_of_orTorn {α : Type} {x : Option α} {a : α} (h : orTorn x = .ok a) :
    x = some a := by
  cases x <;> cases h
  rfl

theorem absent_of_keyOf {d : Datum} (h : keyOf d = .error e) :
    e ≠ .torn ∧ (e = .key .null → d = .absent) := by
  unfold keyOf nodeKey at h
  cases d with
  | absent =>
    cases h
    exact ⟨nofun, fun _ => rfl⟩
  | _ =>
    dsimp only at h
    split at h
    · cases h
    · rename_i e' he'
      cases h
      split at he'
      · cases he'
      · cases he'
        exact ⟨nofun, nofun⟩

mutual

theorem isSome_idDatum? : ∀ value : Json, value.IsWhole → (idDatum? value).isSome
  | .array items, h => by
    rw [idDatum?, Option.isSome_map]
    exact isSome_idData? items (Json.isWhole_array_iff.1 h)
  | .null, h => h
  | .flag b, h => h
  | .integer n, h => h
  | .float x, h => h
  | .text s, h => h
  | .torn pieces, h => h
  | .object fields, h => h

theorem isSome_idData? : ∀ items : List Json, (∀ item ∈ items, item.IsWhole) →
    (idData? items).isSome
  | [], _ => rfl
  | item :: rest, h => by
    obtain ⟨hitem, hrest⟩ := List.forall_mem_cons.1 h
    obtain ⟨d, hd⟩ := Option.isSome_iff_exists.1 (isSome_idDatum? item hitem)
    obtain ⟨ds, hds⟩ := Option.isSome_iff_exists.1 (isSome_idData? rest hrest)
    simp [idData?, hd, hds]

end

theorem isSome_endDatum? {value : Json} (h : value.IsWhole) : (endDatum? value).isSome := by
  cases value with
  | array items =>
    have hitems : (Json.itemsToData? items).isSome := by
      rwa [Json.IsWhole, Json.toDatum?, Option.isSome_map] at h
    rwa [endDatum?, Option.isSome_map]
  | _ => exact h

theorem null_of_toDatum? {value : Json} (h : value.toDatum? = some .absent) : value = .null := by
  cases value <;> simp_all [Json.toDatum?]

theorem null_of_idDatum? {value : Json} (h : idDatum? value = some .absent) : value = .null := by
  cases value with
  | array items => simp [idDatum?] at h
  | _ => exact null_of_toDatum? h

theorem null_of_endDatum? {value : Json} (h : endDatum? value = some .absent) : value = .null := by
  cases value with
  | array items => simp [endDatum?] at h
  | _ => exact null_of_toDatum? h

theorem exists_mem_of_mapM_eq_error {α β : Type} {f : α → Except NodeLinkError β} {as : List α}
    (h : as.mapM f = .error e) : ∃ a ∈ as, f a = .error e := by
  induction as with
  | nil => cases h
  | cons a rest ih =>
    rw [List.mapM_cons] at h
    rcases bind_eq_error_iff.1 h with h | ⟨b, -, h⟩
    · exact ⟨a, by simp, h⟩
    rcases bind_eq_error_iff.1 h with h | ⟨bs, -, h⟩
    · obtain ⟨a', hm, ha⟩ := ih h
      exact ⟨a', by simp [hm], ha⟩
    · cases h

theorem torn_of_dataWithout {names : List String} (h : dataWithout names fields = .error e) :
    e = .torn ∧ ¬ (Json.object fields).IsWhole := by
  obtain ⟨entry, hm, h⟩ := exists_mem_of_mapM_eq_error h
  rcases bind_eq_error_iff.1 h with h | ⟨d, -, h⟩
  · obtain ⟨hnone, rfl⟩ := eq_torn_of_orTorn h
    refine ⟨rfl, fun hwhole => ?_⟩
    have hsome := Json.isWhole_object_iff.1 hwhole entry (List.mem_of_mem_filter hm)
    rw [Json.IsWhole, hnone] at hsome
    cases hsome
  · cases h

theorem get?_of_required {name : String} {value : Json} (h : required name fields = .ok value) :
    Entries.get? name fields = some value := by
  unfold required at h
  split at h
  · rename_i value' hg
    cases h
    exact hg
  · cases h

theorem blames_readNode {position : Nat} {node : Json} (h : readNode n position node = .error e) :
    e.Blames node (node.member? "id" = some .null) := by
  rcases bind_eq_error_iff.1 h with h | ⟨fields, hfields, h⟩
  · exact (plain_of_members h).blames node _
  rw [eq_object_of_members hfields]
  rcases bind_eq_error_iff.1 h with h | ⟨id, hid, h⟩
  · obtain ⟨hnone, rfl⟩ := eq_torn_of_orTorn h
    refine ⟨nofun, fun _ hwhole => ?_⟩
    cases hg : Entries.get? "id" fields with
    | none => simp [hg] at hnone
    | some value =>
      have hsome := isSome_idDatum? value (hwhole.member hg)
      rw [hg, Option.map_some, Option.getD_some] at hnone
      rw [hnone] at hsome
      cases hsome
  rcases bind_eq_error_iff.1 h with h | ⟨data, -, h⟩
  · obtain ⟨rfl, hwhole⟩ := torn_of_dataWithout h
    exact ⟨nofun, fun _ => hwhole⟩
  rcases bind_eq_error_iff.1 h with h | ⟨-, -, h⟩
  · exact (plain_of_checkNames h).blames _ _
  rcases bind_eq_error_iff.1 h with h | ⟨k, -, h⟩
  · obtain ⟨htorn, hnull⟩ := absent_of_keyOf h
    refine ⟨fun he => ?_, fun he => absurd he htorn⟩
    obtain rfl := hnull he
    show Entries.get? "id" fields = some .null
    have hsome := eq_some_of_orTorn hid
    cases hg : Entries.get? "id" fields with
    | none => simp [hg] at hsome
    | some value =>
      rw [hg, Option.map_some, Option.getD_some] at hsome
      rw [null_of_idDatum? hsome]
  · cases h

theorem exists_blames_readNodes {position : Nat} {nodes : List Json}
    (h : readNodes n position nodes = .error e) :
    ∃ node ∈ nodes, e.Blames node (node.member? "id" = some .null) := by
  induction nodes generalizing n position with
  | nil => cases h
  | cons node rest ih =>
    rcases bind_eq_error_iff.1 h with h | ⟨n', -, h⟩
    · exact ⟨node, by simp, blames_readNode h⟩
    · obtain ⟨node', hm, hn⟩ := ih h
      exact ⟨node', by simp [hm], hn⟩

theorem blames_strandOf {isNull : Prop} (h : strandOf fields = .error e) :
    e.Blames (.object fields) isNull := by
  unfold strandOf at h
  split at h
  · cases h
  · cases h
  · rename_i value hne hg
    rcases bind_eq_error_iff.1 h with h | ⟨d, hd, h⟩
    · obtain ⟨hnone, rfl⟩ := eq_torn_of_orTorn h
      refine ⟨nofun, fun _ hwhole => ?_⟩
      have hsome := hwhole.member hg
      rw [Json.IsWhole, hnone] at hsome
      cases hsome
    rcases bind_eq_error_iff.1 h with h | ⟨k, -, h⟩
    · obtain ⟨htorn, hnull⟩ := absent_of_keyOf h
      refine ⟨fun he => ?_, fun he => absurd he htorn⟩
      obtain rfl := hnull he
      exact absurd (null_of_toDatum? (eq_some_of_orTorn hd)) hne
    · cases h

theorem not_isWhole_of_end {name : String} {value : Json}
    (hvalue : required name fields = .ok value) (h : orTorn (endDatum? value) = .error e) :
    e = .torn ∧ ¬ (Json.object fields).IsWhole := by
  obtain ⟨hnone, rfl⟩ := eq_torn_of_orTorn h
  refine ⟨rfl, fun hwhole => ?_⟩
  have hsome := isSome_endDatum? (hwhole.member (get?_of_required hvalue))
  rw [hnone] at hsome
  cases hsome

theorem null_of_end {name : String} {value : Json} {d : Datum}
    (hvalue : required name fields = .ok value) (hd : orTorn (endDatum? value) = .ok d)
    (h : keyOf d = .error e) :
    e ≠ .torn ∧ (e = .key .null → Entries.get? name fields = some .null) := by
  obtain ⟨htorn, hnull⟩ := absent_of_keyOf h
  refine ⟨htorn, fun he => ?_⟩
  obtain rfl := hnull he
  rw [get?_of_required hvalue, null_of_endDatum? (eq_some_of_orTorn hd)]

theorem blames_readLink {link : Json} (h : readLink n link = .error e) :
    e.Blames link (link.member? "source" = some .null ∨ link.member? "target" = some .null) := by
  rcases bind_eq_error_iff.1 h with h | ⟨fields, hfields, h⟩
  · exact (plain_of_members h).blames link _
  rw [eq_object_of_members hfields]
  rcases bind_eq_error_iff.1 h with h | ⟨tail, htail, h⟩
  · exact (plain_of_required h).blames _ _
  rcases bind_eq_error_iff.1 h with h | ⟨source, hsource, h⟩
  · obtain ⟨rfl, hwhole⟩ := not_isWhole_of_end htail h
    exact ⟨nofun, fun _ => hwhole⟩
  rcases bind_eq_error_iff.1 h with h | ⟨head, hhead, h⟩
  · exact (plain_of_required h).blames _ _
  rcases bind_eq_error_iff.1 h with h | ⟨target, htarget, h⟩
  · obtain ⟨rfl, hwhole⟩ := not_isWhole_of_end hhead h
    exact ⟨nofun, fun _ => hwhole⟩
  rcases bind_eq_error_iff.1 h with h | ⟨data, -, h⟩
  · obtain ⟨rfl, hwhole⟩ := torn_of_dataWithout h
    exact ⟨nofun, fun _ => hwhole⟩
  rcases bind_eq_error_iff.1 h with h | ⟨-, -, h⟩
  · exact (plain_of_checkNames h).blames _ _
  rcases bind_eq_error_iff.1 h with h | ⟨u, -, h⟩
  · obtain ⟨htorn, hnull⟩ := null_of_end htail hsource h
    exact ⟨fun he => .inl (hnull he), fun he => absurd he htorn⟩
  rcases bind_eq_error_iff.1 h with h | ⟨v, -, h⟩
  · obtain ⟨htorn, hnull⟩ := null_of_end hhead htarget h
    exact ⟨fun he => .inr (hnull he), fun he => absurd he htorn⟩
  split at h
  · rcases bind_eq_error_iff.1 h with h | ⟨strand, -, h⟩
    · exact blames_strandOf h
    · cases h
  · cases h

theorem exists_blames_readLinks {links : List Json} (h : readLinks n links = .error e) :
    ∃ link ∈ links, e.Blames link
      (link.member? "source" = some .null ∨ link.member? "target" = some .null) := by
  induction links generalizing n with
  | nil => cases h
  | cons link rest ih =>
    rcases bind_eq_error_iff.1 h with h | ⟨n', -, h⟩
    · exact ⟨link, by simp, blames_readLink h⟩
    · obtain ⟨link', hm, hl⟩ := ih h
      exact ⟨link', by simp [hm], hl⟩

theorem mem_listed_of_entriesOf {name : String} {fields : List (String × Json)} {value item : Json}
    {items : List Json} (hvalue : required name fields = .ok value)
    (hitems : entriesOf name value = .ok items) (hm : item ∈ items) :
    item ∈ (Json.object fields).listed name := by
  have hlisted : (Json.object fields).listed name = value.elements := by
    show ((Entries.get? name fields).map Json.elements).getD [] = _
    rw [get?_of_required hvalue]
    rfl
  rw [hlisted]
  unfold entriesOf at hitems
  split at hitems
  · cases hitems
    exact hm
  · cases hitems
    cases hm
  · cases hitems
  · split at hitems
    · cases hitems
      cases hm
    · cases hitems
  · cases hitems

/-! ### The data of the network -/

theorem data_of_readNode {position : Nat} {node : Json} (h : readNode n position node = .ok n') :
    n'.data = n.data := by
  obtain ⟨fields, -, h⟩ := bind_eq_ok_iff.1 h
  obtain ⟨id, -, h⟩ := bind_eq_ok_iff.1 h
  obtain ⟨data, -, h⟩ := bind_eq_ok_iff.1 h
  obtain ⟨-, -, h⟩ := bind_eq_ok_iff.1 h
  obtain ⟨k, -, h⟩ := bind_eq_ok_iff.1 h
  cases h
  rfl

theorem data_of_readNodes {position : Nat} {nodes : List Json}
    (h : readNodes n position nodes = .ok n') : n'.data = n.data := by
  induction nodes generalizing n position with
  | nil =>
    cases h
    rfl
  | cons node rest ih =>
    obtain ⟨n₁, hnode, h⟩ := bind_eq_ok_iff.1 h
    exact (ih h).trans (data_of_readNode hnode)

theorem data_of_readLink {link : Json} (h : readLink n link = .ok n') : n'.data = n.data := by
  obtain ⟨fields, -, h⟩ := bind_eq_ok_iff.1 h
  obtain ⟨tail, -, h⟩ := bind_eq_ok_iff.1 h
  obtain ⟨source, -, h⟩ := bind_eq_ok_iff.1 h
  obtain ⟨head, -, h⟩ := bind_eq_ok_iff.1 h
  obtain ⟨target, -, h⟩ := bind_eq_ok_iff.1 h
  obtain ⟨data, -, h⟩ := bind_eq_ok_iff.1 h
  obtain ⟨-, -, h⟩ := bind_eq_ok_iff.1 h
  obtain ⟨u, -, h⟩ := bind_eq_ok_iff.1 h
  obtain ⟨v, -, h⟩ := bind_eq_ok_iff.1 h
  split at h
  · obtain ⟨strand, -, h⟩ := bind_eq_ok_iff.1 h
    cases h
    rfl
  · cases h
    rfl

theorem data_of_readLinks {links : List Json} (h : readLinks n links = .ok n') :
    n'.data = n.data := by
  induction links generalizing n with
  | nil =>
    cases h
    rfl
  | cons link rest ih =>
    obtain ⟨n₁, hlink, h⟩ := bind_eq_ok_iff.1 h
    exact (ih h).trans (data_of_readLink hlink)

end NodeLink

open NodeLink

variable {value : Json}

theorem torn_of_graphData {data : Json} {e : NodeLinkError} (h : graphData data = .error e) :
    e = .torn ∧ ¬ data.IsWhole := by
  cases data with
  | object fields =>
    rcases bind_eq_error_iff.1 h with h | ⟨d, -, h⟩
    · exact torn_of_dataWithout h
    · cases h
  | _ => cases h

/-- Reading a value is refused for a null node only where there is one, and for a torn text only
where there is one. -/
theorem blames_ofNodeLink {e : NodeLinkError} (h : ofNodeLink value = .error e) :
    e.Blames value value.HasNullNode := by
  rcases bind_eq_error_iff.1 h with h | ⟨fields, hfields, h⟩
  · exact (plain_of_members h).blames value _
  rw [eq_object_of_members hfields]
  rcases bind_eq_error_iff.1 h with h | ⟨data, -, h⟩
  · cases hg : Entries.get? "graph" fields with
    | none =>
      rw [hg] at h
      cases h
    | some data =>
      rw [hg, Option.map_some, Option.getD_some] at h
      obtain ⟨rfl, hdata⟩ := torn_of_graphData h
      exact ⟨nofun, fun _ hwhole => hdata (hwhole.member hg)⟩
  rcases bind_eq_error_iff.1 h with h | ⟨nodeList, hnodeList, h⟩
  · exact (plain_of_required h).blames _ _
  rcases bind_eq_error_iff.1 h with h | ⟨nodes, hnodes, h⟩
  · exact (plain_of_entriesOf h).blames _ _
  rcases bind_eq_error_iff.1 h with h | ⟨n, -, h⟩
  · obtain ⟨node, hm, hnull, htorn⟩ := exists_blames_readNodes h
    have hlisted := mem_listed_of_entriesOf hnodeList hnodes hm
    exact ⟨fun he => .inl ⟨node, hlisted, hnull he⟩,
      fun he hwhole => htorn he (hwhole.listed hlisted)⟩
  rcases bind_eq_error_iff.1 h with h | ⟨linkList, hlinkList, h⟩
  · exact (plain_of_required h).blames _ _
  rcases bind_eq_error_iff.1 h with h | ⟨links, hlinks, h⟩
  · exact (plain_of_entriesOf h).blames _ _
  · obtain ⟨link, hm, hnull, htorn⟩ := exists_blames_readLinks h
    have hlisted := mem_listed_of_entriesOf hlinkList hlinks hm
    exact ⟨fun he => .inr ⟨link, hlisted, hnull he⟩,
      fun he hwhole => htorn he (hwhole.listed hlisted)⟩

/-- The data of a network that is read are none only where they are given as something else than a
record. -/
theorem data_ne_none_of_ofNodeLink {n : Network} (h : ofNodeLink value = .ok n)
    (hdata : value.DataAreRecord) : n.data ≠ none := by
  obtain ⟨fields, hfields, h⟩ := bind_eq_ok_iff.1 h
  rw [eq_object_of_members hfields] at hdata
  obtain ⟨data, hgiven, h⟩ := bind_eq_ok_iff.1 h
  obtain ⟨nodeList, -, h⟩ := bind_eq_ok_iff.1 h
  obtain ⟨nodes, -, h⟩ := bind_eq_ok_iff.1 h
  obtain ⟨n₁, hnodes, h⟩ := bind_eq_ok_iff.1 h
  obtain ⟨linkList, -, h⟩ := bind_eq_ok_iff.1 h
  obtain ⟨links, -, h⟩ := bind_eq_ok_iff.1 h
  rw [data_of_readLinks h, data_of_readNodes hnodes]
  show data ≠ none
  cases hg : Entries.get? "graph" fields with
  | none =>
    rw [hg] at hgiven
    cases hgiven
    simp
  | some given =>
    obtain ⟨members, rfl⟩ := hdata given hg
    rw [hg, Option.map_some, Option.getD_some] at hgiven
    obtain ⟨found, -, hfound⟩ := bind_eq_ok_iff.1 hgiven
    cases hfound
    simp

end Network

end DotGraph
