import DotGraph.Outline
import DotGraph.Proofs.Acyclicity
import DotGraph.Proofs.Outcomes
import DotGraph.Proofs.Ownership
import DotGraph.Proofs.Tables

/-!
Appending a statement.  A body takes a statement that its constructor made exactly if the statement
has no owner, stands alone if it sets defaults, has the operator of the body, and leaves the links
between bodies acyclic.  All else is a structure error, and nothing but list and owner change.
-/

namespace DotGraph

open Relation

namespace Store

variable {σ σ' : Store} {b : BodyRef} {body : Body} {m : Member}

/-! ### Links behind an append -/

theorem memberLinks_attach (m' : Member) : (σ.attach b m).memberLinks m' = σ.memberLinks m' := by
  cases m' with
  | subgraph s => rfl
  | statement i => rw [memberLinks_statement, memberLinks_statement, clause?_attach]

theorem links_attach (hb : σ.body? b = some body) (c : BodyRef) :
    (σ.attach b m).links c = if b = c then σ.links b ++ σ.memberLinks m else σ.links c := by
  have hlinks : (σ.attach b m).memberLinks = σ.memberLinks := funext memberLinks_attach
  unfold links
  rw [hlinks, members_attach hb]
  split <;> simp

theorem leads_attach_iff (hb : σ.body? b = some body) {x y : BodyRef} :
    (σ.attach b m).Leads x y ↔
      σ.Leads x y ∨ (x = b ∧ ∃ s ∈ σ.memberLinks m, y = .subgraph s) := by
  unfold Leads Linked
  rw [links_attach hb]
  by_cases hx : b = x
  · subst hx
    constructor
    · rintro ⟨s, rfl, hs⟩
      rw [if_pos rfl] at hs
      rcases List.mem_append.1 hs with hs | hs
      · exact .inl ⟨s, rfl, hs⟩
      · exact .inr ⟨rfl, s, hs, rfl⟩
    · rw [if_pos rfl]
      rintro (⟨s, rfl, hs⟩ | ⟨-, s, hs, rfl⟩)
      · exact ⟨s, rfl, List.mem_append_left _ hs⟩
      · exact ⟨s, rfl, List.mem_append_right _ hs⟩
  · have hx' : ¬ x = b := fun h => hx h.symm
    simp [hx, hx']

/-- An append closes a cycle exactly if something that it links to writes the body.  The search goes
through the links from before, and of those that are added only the first can be of use. -/
theorem acyclic_attach_iff (ha : σ.Acyclic) (hb : σ.body? b = some body) :
    (σ.attach b m).Acyclic ↔ ∀ s ∈ σ.memberLinks m, σ.renders s b = false := by
  constructor
  · intro hacyclic s hs
    refine Bool.eq_false_iff.2 fun hr => ?_
    have hold : ReflTransGen σ.Leads (.subgraph s) b := (σ.renders_iff s b).1 hr
    have hback : ReflTransGen (σ.attach b m).Leads (.subgraph s) b :=
      hold.lift id fun _ _ h => (leads_attach_iff hb).2 (.inl h)
    have hstep : (σ.attach b m).Leads b (.subgraph s) :=
      (leads_attach_iff hb).2 (.inr ⟨rfl, s, hs, rfl⟩)
    exact hacyclic b (.head' hstep hback)
  · intro hr
    have hnew : ∀ x y, (σ.attach b m).Leads x y →
        σ.Leads x y ∨ (x = b ∧ ∃ s ∈ σ.memberLinks m, y = .subgraph s) :=
      fun x y => (leads_attach_iff hb).1
    refine acyclic_of_new hnew ?_ ha
    rintro y ⟨s, hs, rfl⟩ hp
    have hwrites : σ.renders s b = true := (σ.renders_iff s b).2 hp
    simp [hr s hs] at hwrites

/-! ### Statements as constructors make them -/

/-- An edge that the constructor of edges has made, in this store or in one before it. -/
def MadeEdge (σ : Store) (e : Edge) : Prop :=
  ∃ (σ₀ σ₁ : Store) (tail head : Vertex) (directed : Bool),
    (Build.newEdge (.ofVertex tail) (.ofVertex head) (.ofDirected directed)).Yields σ₀ e σ₁ ∧
      ReflTransGen Change σ₁ σ

/-- A statement that is there, of a kind that has a constructor and made of what that takes. -/
inductive Constructed (σ : Store) : Member → Prop
  | subgraph {s : SubgraphId} {g : Subgraph} (h : σ.subgraph? s = some g) :
    Constructed σ (.subgraph s)
  | node {i : StatementId} {id : NodeId} (h : σ.clause? i = some (.node id)) :
    Constructed σ (.statement i)
  | edge {i : StatementId} {e : Edge} (h : σ.clause? i = some (.edge e)) (made : σ.MadeEdge e) :
    Constructed σ (.statement i)
  | defaults {i : StatementId} {kind : DefaultKind} {standalone : Datum}
    (h : σ.clause? i = some (.defaults kind standalone)) : Constructed σ (.statement i)

theorem hasOperator_of_edgeEnd {operator : EdgeOperator} {v v' : Vertex}
    (h : (Build.edgeEnd operator (.ofVertex v)).Yields σ v' σ') :
    v' = v ∧ σ' = σ ∧ ∀ s ∈ v.links, σ.HasOperator (.subgraph s) operator := by
  cases v with
  | node id =>
    cases h
    exact ⟨rfl, rfl, by simp [Vertex.links]⟩
  | subgraph s =>
    have hlook : (Build.edgeEnd operator (.object (.subgraph s))).run.run σ = _ := h
    simp only [Build.edgeEnd] at hlook
    replace hlook := (Build.yields_bind_iff (x := get)).1 hlook
    obtain ⟨σ₀, σ₁, hget, hlook⟩ := hlook
    cases hget
    cases hs : σ.subgraph? s with
    | none =>
      rw [hs] at hlook
      exact absurd hlook Build.not_yields_throw
    | some g =>
      rw [hs] at hlook
      by_cases ho : g.body.operator = operator
      · simp only [ho, ne_eq, not_true_eq_false, if_false] at hlook
        cases hlook
        exact ⟨rfl, rfl, by simp [Vertex.links, HasOperator, body?, hs, ho]⟩
      · simp only [ne_eq, ho, not_false_eq_true, if_true] at hlook
        obtain ⟨u, σ₁, hthrow, -⟩ := Build.yields_bind_iff.1 hlook
        exact absurd hthrow Build.not_yields_throw

theorem MadeEdge.hasOperator {e : Edge} (h : σ.MadeEdge e) :
    ∀ s ∈ e.tail.links ++ e.head.links, σ.HasOperator (.subgraph s) e.operator := by
  obtain ⟨σ₀, σ₁, tail, head, directed, hmade, hlater⟩ := h
  obtain ⟨tail', σ₂, hlookTail, hrest⟩ := Build.yields_bind_iff.1 hmade
  obtain ⟨head', σ₃, hlookHead, hcounted⟩ := Build.yields_bind_iff.1 hrest
  obtain ⟨ht, rfl, htail⟩ := hasOperator_of_edgeEnd hlookTail
  obtain ⟨hh, rfl, hhead⟩ := hasOperator_of_edgeEnd hlookHead
  cases hcounted
  have hcount : ReflTransGen Change σ₃ σ := .head .edge hlater
  intro s hs
  rw [ht, hh] at hs
  rcases List.mem_append.1 hs with hs | hs
  · exact (htail s hs).of_changes hcount
  · exact (hhead s hs).of_changes hcount

/-! ### What an append needs -/

/-- The operator that a statement brings along: subgraphs and edges have one. -/
def memberOperator? (σ : Store) : Member → Option EdgeOperator
  | .subgraph s => (σ.body? (.subgraph s)).map Body.operator
  | .statement i =>
    match σ.clause? i with
    | some (.edge e) => some e.operator
    | _ => none

/-- All that is asked of a statement that a body is to take. -/
structure Appendable (σ : Store) (b : BodyRef) (m : Member) : Prop where
  unowned : σ.parent? m = none
  standalone : ∀ kind given, σ.memberClause? m = some (.defaults kind given) → given.counts = true
  operator : ∀ operator, σ.memberOperator? m = some operator → σ.HasOperator b operator
  acyclic : (σ.attach b m).Acyclic

theorem Constructed.holds (hm : σ.Constructed m) : σ.Holds m := by
  cases hm with
  | subgraph h => exact ⟨_, by simp [HasOperator, body?, h]; rfl⟩
  | node h => exact ⟨_, h⟩
  | edge h made => exact ⟨_, h⟩
  | defaults h => exact ⟨_, h⟩

theorem Constructed.suits_iff (hm : σ.Constructed m) {o : EdgeOperator}
    (ho : σ.HasOperator b o) :
    σ.Suits o m ↔
      (∀ kind given, σ.memberClause? m = some (.defaults kind given) → given.counts = true) ∧
        ∀ o', σ.memberOperator? m = some o' → σ.HasOperator b o' := by
  have hsame : ∀ o', σ.HasOperator b o' ↔ o' = o := fun o' =>
    ⟨fun h => h.unique ho, fun h => h ▸ ho⟩
  simp only [hsame]
  cases hm with
  | @subgraph s g h =>
    have hbody : σ.body? (.subgraph s) = some g.body := by simp [body?, h]
    simp [Suits, memberClause?, memberOperator?, HasOperator, hbody]
  | @node i id h => simp [Suits, ClauseSuits, memberClause?, memberOperator?, h]
  | @edge i e h made =>
    have hends := made.hasOperator
    have hsuits : σ.Suits o (.statement i) ↔ e.operator = o := by
      constructor
      · rintro ⟨clause, hc, hs⟩
        obtain rfl := Option.some.inj (hc.symm.trans h)
        exact hs.1
      · rintro rfl
        exact ⟨.edge e, h, rfl, hends⟩
    rw [hsuits]
    simp [memberClause?, memberOperator?, h]
  | @defaults i kind given h => simp [Suits, ClauseSuits, memberClause?, memberOperator?, h]

theorem checkMember_ok_iff_appendable (hacyclic : σ.Acyclic) (hb : σ.body? b = some body)
    (hm : σ.Constructed m) : σ.checkMember b m = .ok () ↔ σ.Appendable b m := by
  have ho : σ.HasOperator b body.operator := by simp [HasOperator, hb]
  have hsuits : (∃ o, σ.HasOperator b o ∧ σ.Suits o m) ↔ σ.Suits body.operator m := by
    constructor
    · rintro ⟨o, ho', hs⟩
      obtain rfl := ho'.unique ho
      exact hs
    · exact fun hs => ⟨body.operator, ho, hs⟩
  rw [checkMember_ok_iff, hsuits, hm.suits_iff ho, ← acyclic_attach_iff hacyclic hb]
  constructor
  · rintro ⟨hfree, ⟨hstandalone, hoperator⟩, hacyclic'⟩
    exact ⟨hfree, hstandalone, hoperator, hacyclic'⟩
  · rintro ⟨hfree, hstandalone, hoperator, hacyclic'⟩
    exact ⟨hfree, ⟨hstandalone, hoperator⟩, hacyclic'⟩

/-! ### Refusals -/

/-- A check whose message, should there be one, has a text. -/
def Told (check : Except StructureError Unit) : Prop :=
  ∀ e, check = .error e → e.isTold = true

theorem told_bind {x y : Except StructureError Unit} (hx : Told x) (hy : Told y) :
    Told (x >>= fun _ => y) := by
  intro e he
  rcases bind_eq_error_iff.1 he with he | ⟨-, -, he⟩
  · exact hx e he
  · exact hy e he

theorem Reachable.told_checkUnowned (h : σ.Reachable) (m : Member) : Told (σ.checkUnowned m) := by
  intro e he
  unfold checkUnowned at he
  cases hp : σ.parent? m with
  | none =>
    rw [hp] at he
    cases he
  | some owner =>
    rw [hp] at he
    cases he
    have hmem : m ∈ σ.members owner := (h.owned.mem_members_iff owner m).2 hp
    cases owner with
    | subgraph s => rfl
    | root r =>
      obtain ⟨o, ho⟩ := exists_hasOperator_of_mem hmem
      obtain ⟨g, hg, -⟩ : ∃ g, σ.root? r = some g ∧ _ := by
        simpa [HasOperator, body?] using ho
      obtain ⟨word, hword⟩ := (h.typed hg).exists_keyword
      have hshown : (σ.rootShown? r).isSome = true := by simp [rootShown?, hg, hword]
      exact hshown

theorem told_checkLink {o o' : EdgeOperator} {s : SubgraphId}
    (hs : σ.HasOperator (.subgraph s) o') : Told (σ.checkLink b o s) := by
  intro e he
  obtain ⟨g, hg, -⟩ : ∃ g, σ.subgraph? s = some g ∧ _ := by simpa [HasOperator, body?] using hs
  simp only [checkLink, hg] at he
  split at he
  · cases he
    rfl
  · split at he
    · cases he
      rfl
    · cases he

theorem told_checkEnd {o o' : EdgeOperator} {v : Vertex}
    (hv : ∀ s ∈ v.links, σ.HasOperator (.subgraph s) o') : Told (σ.checkEnd b o v) := by
  cases v with
  | node id =>
    intro e he
    cases he
  | subgraph s => exact told_checkLink (hv s (by simp [Vertex.links]))

theorem told_checkStandalone (clause : Clause) : Told clause.checkStandalone := by
  intro e he
  cases clause with
  | defaults kind standalone =>
    simp only [Clause.checkStandalone] at he
    split at he
    · cases he
    · cases he
      rfl
  | node id => cases he
  | edge edge => cases he
  | noEdge given => cases he

theorem Reachable.told_checkMember (h : σ.Reachable) (hb : σ.body? b = some body)
    (hm : σ.Constructed m) : Told (σ.checkMember b m) := by
  have hunowned := h.told_checkUnowned m
  have hnothing : Told (.ok ()) := fun e he => by cases he
  have hstatement : ∀ {i clause}, m = .statement i → σ.clause? i = some clause →
      Told (σ.checkClause b body.operator clause) → Told (σ.checkMember b m) := by
    intro i clause hi hc hclause
    subst hi
    simp only [checkMember, hb, show (σ.statement? i).map Statement.clause = some clause from hc]
    exact told_bind (told_checkStandalone clause) (told_bind hunowned hclause)
  cases hm with
  | @subgraph s g hs =>
    have hlink : σ.HasOperator (.subgraph s) g.body.operator := by simp [HasOperator, body?, hs]
    simp only [checkMember, hb]
    exact told_bind hunowned (told_checkLink hlink)
  | node hc => exact hstatement rfl hc hnothing
  | defaults hc => exact hstatement rfl hc hnothing
  | @edge i e hc made =>
    have hends := made.hasOperator
    refine hstatement rfl hc ?_
    have htail : Told (σ.checkEnd b body.operator e.tail) :=
      told_checkEnd fun s hs => hends s (List.mem_append_left _ hs)
    have hhead : Told (σ.checkEnd b body.operator e.head) :=
      told_checkEnd fun s hs => hends s (List.mem_append_right _ hs)
    have hother : Told (.error (.edgeOperator e.operator body.operator)) := by
      intro e' he
      cases he
      rfl
    by_cases ho : e.operator = body.operator
    · simpa [checkClause, ho] using told_bind htail hhead
    · simp only [checkClause, ne_eq, ho, not_false_eq_true, if_true]
      exact hother

/-! ### What an append changes -/

/-- The statement is the last one of its body and owned by it.  All else that a store keeps is as it
was: other lists and owners, what bodies and statements say, the tables, who holds which of them,
and the counts. -/
structure Appended (σ : Store) (b : BodyRef) (m : Member) (σ' : Store) : Prop where
  last : σ'.members b = σ.members b ++ [m]
  owner : σ'.parent? m = some b
  otherMembers : ∀ c, c ≠ b → σ'.members c = σ.members c
  otherOwners : ∀ m', m' ≠ m → σ'.parent? m' = σ.parent? m'
  headers : ∀ c, (σ'.body? c).map (σ'.headerOf c) = (σ.body? c).map (σ.headerOf c)
  strictness : ∀ r, (σ'.root? r).map Root.strict = (σ.root? r).map Root.strict
  clauses : ∀ i, σ'.clause? i = σ.clause? i
  tables : ∀ t, σ'.table? t = σ.table? t
  held : ∀ o, σ'.held? o = σ.held? o
  edgeCount : σ'.edgeCount = σ.edgeCount
  creations : σ'.creations = σ.creations

theorem header_attach (b : BodyRef) (m : Member) (c : BodyRef) :
    ((σ.attach b m).body? c).map ((σ.attach b m).headerOf c) =
      (σ.body? c).map (σ.headerOf c) := by
  rw [body?_attach, Option.map_map]
  congr 1
  funext body
  by_cases h : b = c <;> simp [h, headerOf, attrsAt]

theorem strict_attach (b : BodyRef) (m : Member) (r : RootId) :
    ((σ.attach b m).root? r).map Root.strict = (σ.root? r).map Root.strict := by
  rw [root?_attach, Option.map_map]
  congr 1
  funext g
  by_cases h : b = .root r <;> simp [h]

theorem appended_attach (hb : σ.body? b = some body) (hm : σ.Holds m) :
    σ.Appended b m (σ.attach b m) where
  last := by simp [members_attach hb]
  owner := by simp [parent?_attach hm]
  otherMembers c hc := by simp [members_attach hb, Ne.symm hc]
  otherOwners m' hm' := by simp [parent?_attach hm, Ne.symm hm']
  headers := header_attach b m
  strictness := strict_attach b m
  clauses := σ.clause?_attach b m
  tables := table?_attach b m
  held := held?_attach b m
  edgeCount := by cases b <;> cases m <;> rfl
  creations := by cases b <;> cases m <;> rfl

/-- Whatever calls came before, a body takes a statement exactly if the statement has no owner,
stands alone if it sets defaults, brings no other operator, and closes no cycle of links.  What it
takes becomes its last statement, and nothing else changes; anything else is a structure error, with
a text for its message, and nothing changes. -/
theorem Reachable.add_iff_appendable (h : σ.Reachable) (hb : σ.body? b = some body)
    (hm : σ.Constructed m) :
    let add := Build.add b (.object (.ofMember m))
    ((∃ o σ', add.Yields σ o σ') ↔ σ.Appendable b m) ∧
      (∀ o σ', add.Yields σ o σ' → o = .ofMember m ∧ σ.Appended b m σ') ∧
      (¬ σ.Appendable b m →
        ∃ e : StructureError, e.isTold = true ∧ add.Fails σ (.structural e) σ) := by
  intro add
  have happendable := checkMember_ok_iff_appendable h.acyclic hb hm
  have htold := h.told_checkMember hb hm
  cases hcheck : σ.checkMember b m with
  | ok u =>
    have htakes : add.Yields σ (.ofMember m) (σ.attach b m) := Build.yields_add hcheck
    have ha : σ.Appendable b m := happendable.1 hcheck
    refine ⟨⟨fun _ => ha, fun _ => ⟨_, _, htakes⟩⟩, fun o σ' hy => ?_, fun hn => absurd ha hn⟩
    have hsame : (Except.ok o, σ') = (Except.ok (Object.ofMember m), σ.attach b m) :=
      hy.symm.trans htakes
    cases hsame
    exact ⟨rfl, appended_attach hb hm.holds⟩
  | error e =>
    have hrefuses : add.Fails σ (.structural e) σ := Build.fails_add hcheck
    have hnever : ∀ o σ', ¬ add.Yields σ o σ' := fun o σ' hy => hy.not_fails hrefuses
    have hn : ¬ σ.Appendable b m := by
      intro ha
      rw [happendable.2 ha] at hcheck
      cases hcheck
    refine ⟨⟨fun ⟨o, σ', hy⟩ => absurd hy (hnever o σ'), fun ha => absurd ha hn⟩, ?_, ?_⟩
    · exact fun o σ' hy => absurd hy (hnever o σ')
    · exact fun _ => ⟨e, htold e hcheck, hrefuses⟩

/-- A directed graph, a subgraph that floats, and an edge from the subgraph to itself. -/
def loopRun : List Call :=
  [.ask (.newRoot .absent false true), .ask (.newSubgraph .absent true),
    .ask (.newEdge (.object (.subgraph ⟨0⟩)) (.object (.subgraph ⟨0⟩)) true),
    .ask (.newStatement (.edge ⟨0, .subgraph ⟨0⟩, .subgraph ⟨0⟩, .directed⟩) none)]

/-- The graph takes the edge, and the subgraph does not: it would be written in itself. -/
theorem add_iff_appendable_loop :
    let σ := empty.after loopRun
    let i : Member := .statement ⟨0⟩
    σ.Constructed i ∧
      (∃ o σ', (Build.add (.root ⟨0⟩) (.object (.ofMember i))).Yields σ o σ' ∧
        σ.Appended (.root ⟨0⟩) i σ') ∧
      ∃ e : StructureError, e.isTold = true ∧
        (Build.add (.subgraph ⟨0⟩) (.object (.ofMember i))).Fails σ (.structural e) σ := by
  intro σ i
  have hreach : σ.Reachable := ⟨loopRun, rfl⟩
  have hmade : σ.Constructed i := by
    refine .edge (e := ⟨0, .subgraph ⟨0⟩, .subgraph ⟨0⟩, .directed⟩) rfl ?_
    exact ⟨empty.after (loopRun.take 2), empty.after (loopRun.take 3), .subgraph ⟨0⟩, .subgraph ⟨0⟩,
      true, rfl, Call.changing_runAll (loopRun.drop 3) (empty.after (loopRun.take 3))⟩
  have htakes : σ.Appendable (.root ⟨0⟩) i := by
    have hcheck : σ.checkMember (.root ⟨0⟩) i = .ok () := by
      refine (checkMember_root_ok_iff _ _).2 ⟨rfl, .directed, rfl, _, rfl, rfl, ?_⟩
      intro s hs
      obtain rfl : s = ⟨0⟩ := by simpa [Vertex.links] using hs
      rfl
    exact (checkMember_ok_iff_appendable hreach.acyclic rfl hmade).1 hcheck
  have hrefuses : ¬ σ.Appendable (.subgraph ⟨0⟩) i := by
    intro ha
    have hloop : (σ.attach (.subgraph ⟨0⟩) i).Leads (.subgraph ⟨0⟩) (.subgraph ⟨0⟩) :=
      ⟨⟨0⟩, rfl, .head _⟩
    exact ha.acyclic _ (.single hloop)
  obtain ⟨hroot, hroot', -⟩ := hreach.add_iff_appendable (b := .root ⟨0⟩) rfl hmade
  obtain ⟨-, -, hsubgraph⟩ := hreach.add_iff_appendable (b := .subgraph ⟨0⟩) rfl hmade
  obtain ⟨o, σ', hy⟩ := hroot.2 htakes
  exact ⟨hmade, ⟨o, σ', hy, (hroot' o σ' hy).2⟩, hsubgraph hrefuses⟩

end Store

end DotGraph
