import DotGraph.Network.Import
import DotGraph.Proofs.Refusal
import DotGraph.Proofs.Uniformity

/-!
Graphs of networks as graphs of the construction interface.  All that the making of one does can be
called for, so whatever holds after every run of calls holds of the graph of a network too.
-/

namespace DotGraph

namespace Build

variable {α β : Type}

/-- What a step leaves, refused or not, some run of calls leaves too. -/
def Called (x : Build α) : Prop :=
  ∀ σ : Store, ∃ calls, x.after σ = σ.after calls

theorem Still.called {x : Build α} (hx : Still x) : Called x :=
  fun σ => ⟨[], hx σ⟩

theorem Called.bind {x : Build α} {f : α → Build β} (hx : Called x) (hf : ∀ a, Called (f a)) :
    Called (x >>= f) := by
  intro σ
  obtain ⟨calls, hcalls⟩ := hx σ
  rw [after_bind]
  unfold Build.after at hcalls
  split
  · rename_i a σ' hr
    obtain ⟨more, hmore⟩ := hf a σ'
    rw [hr] at hcalls
    obtain rfl : σ' = σ.after calls := hcalls
    exact ⟨calls ++ more, by rw [hmore, Store.after_append]⟩
  · rename_i e σ' hr
    rw [hr] at hcalls
    exact ⟨calls, hcalls⟩

theorem Called.forM {f : α → Build Unit} (hf : ∀ a, Called (f a)) (as : List α) :
    Called (as.forM f) := by
  induction as with
  | nil => exact (still_pure ()).called
  | cons a rest ih => exact (hf a).bind fun _ => ih

theorem called_of_ask {x : Build α} (op : Operation) (answer : α → Object)
    (h : op.run = (x >>= fun a => pure (answer a))) : Called x := by
  intro σ
  refine ⟨[.ask op], ?_⟩
  rw [Store.after_ask, h, after_bind_of_still fun _ _ => rfl]

theorem called_newRoot (name : Datum) (strict directed : Bool) :
    Called (newRoot name (.flag strict) (.ofDirected directed)) :=
  called_of_ask (.newRoot name strict directed) .root rfl

theorem called_node (b : BodyRef) (name : String) (attrs : Entries String Datum) :
    Called (node b (.text name) .absent attrs) :=
  called_of_ask (.insert b (.node (.text name) .absent) attrs) .statement rfl

theorem called_edge (b : BodyRef) (tail head : String) (attrs : Entries String Datum) :
    Called (edge b (.datum (.text tail)) (.datum (.text head)) attrs) :=
  called_of_ask (.insert b (.edge (.datum (.text tail)) (.datum (.text head))) attrs) .statement rfl

theorem called_setAttrs (o : Object) (attrs : Entries String Datum) :
    Called (setAttrs o attrs) :=
  called_of_ask (.set o attrs) (fun _ => o) rfl

theorem hasOperator_of_newRoot {name strict : Datum} {operator : EdgeOperator} {σ σ' : Store}
    {r : RootId} (h : (newRoot name strict operator).Yields σ r σ') :
    σ'.HasOperator (.root r) operator := by
  cases hn : graphName name with
  | error e =>
    have hfail : (newRoot name strict operator).Fails σ (.naming e) σ := by
      simp only [newRoot, hn]
      rfl
    exact absurd hfail h.not_fails
  | ok nm =>
    have hmade : (newRoot name strict operator).Yields σ _ _ := yields_newRoot operator hn σ
    cases Eq.trans (Eq.symm h) hmade
    simp [Store.HasOperator, Store.makeRoot, Store.body?_pushRoot, Store.pushTable]

end Build

namespace Store

theorem HasOperator.after {σ : Store} {b : BodyRef} {operator : EdgeOperator}
    (h : σ.HasOperator b operator) (calls : List Call) :
    (σ.after calls).HasOperator b operator :=
  h.of_changes (Call.changing_runAll calls σ)

end Store

namespace Network

theorem called_importNode (r : RootId) (k : Key) (data : NetData) :
    Build.Called (importNode r k data) :=
  (Build.called_node (.root r) k.name []).bind fun i => Build.called_setAttrs (.statement i) _

theorem called_importEdge (r : RootId) (e : NetEdge) : Build.Called (importEdge r e) :=
  (Build.called_edge (.root r) e.tail.name e.head.name []).bind fun i =>
    Build.called_setAttrs (.statement i) _

/-- All that is put into the root graph of a network once there is one. -/
def filling (n : Network) (r : RootId) (data : NetData) : Build Unit := do
  Build.setAttrs (.root r) (declared Schema.rootGraph data)
  n.nodes.forM fun node => importNode r node.1 node.2
  n.edges.forM (importEdge r)

theorem called_filling (n : Network) (r : RootId) (data : NetData) :
    Build.Called (n.filling r data) := by
  have hnode (node : Key × NetData) : Build.Called (importNode r node.1 node.2) :=
    called_importNode r node.1 node.2
  have hset := Build.called_setAttrs (.root r) (declared Schema.rootGraph data)
  exact hset.bind fun _ => (Build.Called.forM hnode n.nodes).bind fun _ =>
    Build.Called.forM (called_importEdge r) n.edges

theorem run_building_eq {α : Type} (x : Build α) (σ : Store) :
    (building x).run.run σ = ((x.run.run σ).1.mapError .build, (x.run.run σ).2) := rfl

/-- Making the graph of a network is refused at one of its steps, or because the data of the
network are no record, or else comes through. -/
theorem toGraph_cases (n : Network) (name strict : Datum) :
    (∃ e, n.toGraph name strict = .error (.build e)) ∨
      (n.data = none ∧ n.toGraph name strict = .error .noRecord) ∨
      ∃ data r σ₁ σ, n.data = some data ∧
        (Build.newRoot name strict (.ofDirected n.directed)).Yields Store.empty r σ₁ ∧
        (n.filling r data).Yields σ₁ () σ ∧ n.toGraph name strict = .ok (σ, r) := by
  have hroot : (if n.directed = true then EdgeOperator.directed else .undirected) =
      .ofDirected n.directed := rfl
  rcases hr : (Build.newRoot name strict (.ofDirected n.directed)).run.run Store.empty with
    ⟨e | r, σ₁⟩
  · have hrun : (n.importing name strict).run.run Store.empty = (.error (.build e), σ₁) := by
      unfold importing
      rw [hroot, ExceptT.run_bind, StateT.run_bind, run_building_eq, hr]
      rfl
    exact .inl ⟨e, by rw [toGraph, hrun]⟩
  cases hdata : n.data with
  | none =>
    have hrun : (n.importing name strict).run.run Store.empty = (.error .noRecord, σ₁) := by
      unfold importing
      rw [hroot, hdata, ExceptT.run_bind, StateT.run_bind, run_building_eq, hr]
      rfl
    exact .inr (.inl ⟨rfl, by rw [toGraph, hrun]⟩)
  | some data =>
    have hrun : (n.importing name strict).run.run Store.empty =
        ((building (n.filling r data) >>= fun _ => pure r).run.run σ₁ :
          Except ImportError RootId × Store) := by
      unfold importing
      rw [hroot, hdata, ExceptT.run_bind, StateT.run_bind, run_building_eq, hr]
      rfl
    rw [ExceptT.run_bind, StateT.run_bind, run_building_eq] at hrun
    rcases hf : (n.filling r data).run.run σ₁ with ⟨e | u, σ⟩
    · rw [hf] at hrun
      exact .inl ⟨e, by rw [toGraph, hrun]; rfl⟩
    · rw [hf] at hrun
      exact .inr (.inr ⟨data, r, σ₁, σ, rfl, hr, hf, by rw [toGraph, hrun]; rfl⟩)

theorem reachable_of_toGraph {n : Network} {name : Option String} {strict : Bool} {σ : Store}
    {r : RootId} (h : n.toGraph (.ofName name) (.flag strict) = .ok (σ, r)) :
    σ.Reachable ∧ ∃ g, σ.root? r = some g := by
  rcases n.toGraph_cases (.ofName name) (.flag strict) with
    ⟨e, he⟩ | ⟨-, he⟩ | ⟨data, r, σ₁, σ, -, hroot, hfill, he⟩
  · cases h.symm.trans he
  · cases h.symm.trans he
  · cases h.symm.trans he
    obtain ⟨calls, hcalls⟩ := Build.called_newRoot (.ofName name) strict n.directed Store.empty
    obtain ⟨more, hmore⟩ := n.called_filling r data σ₁
    rw [hroot.after_eq] at hcalls
    rw [hfill.after_eq] at hmore
    refine ⟨⟨calls ++ more, by rw [Store.after_append, ← hcalls, ← hmore]⟩, ?_⟩
    have hstart : σ₁.HasOperator (.root r) (.ofDirected n.directed) :=
      Build.hasOperator_of_newRoot hroot
    obtain ⟨body, hbody, -⟩ := Option.map_eq_some_iff.1 (hmore ▸ hstart.after more)
    obtain ⟨g, hg, -⟩ := Option.map_eq_some_iff.1 hbody
    exact ⟨g, hg⟩

end Network

end DotGraph
