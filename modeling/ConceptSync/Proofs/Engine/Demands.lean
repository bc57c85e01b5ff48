import ConceptSync.Proofs.Engine.Simulation

set_option autoImplicit false
set_option relaxedAutoImplicit false

/-!
A run as its caller drives it: demand by demand, each met whole, or turn by turn with other runs in
between. Whoever it shares its store with, every demand and every turn comes to what it comes to in
a run alone.
-/

namespace ConceptSync

variable {σ : Type}

namespace Run

/-- What a caller asks of a run. A completion to be delivered again is named by its place among the
records of the run. -/
inductive Demand where
  | invoke (action : ActionId) (input : Payload)
  | deliver (place : Nat)

namespace Demand

def meet (engine : Engine σ) (p : Progress σ RecordStore) : Demand → Progress σ RecordStore
  | .invoke action input => (Run.invoke engine action input p).2
  | .deliver place =>
    match p.records[place]? with
    | some record => (Run.deliver engine record p).2
    | none => p

def begin (engine : Engine σ) (p : Progress σ RecordStore) : Demand → Loop σ RecordStore
  | .invoke action input =>
    (opening engine action input p).getD ⟨[], (Run.invoke engine action input p).2⟩
  | .deliver place =>
    (p.records[place]?.bind fun record => redelivery engine record p).getD ⟨[], p⟩

theorem drain_begin (engine : Engine σ) (p : Progress σ RecordStore) (c : Demand) :
    (drain engine (c.begin engine p).stack (c.begin engine p).progress).2 = c.meet engine p := by
  cases c with
  | invoke action input =>
    simp only [begin, meet]
    cases hopening : opening engine action input p with
    | none => simp only [Option.getD_none, drain]
    | some l => exact (invoke_of_opening hopening).symm
  | deliver place =>
    simp only [begin, meet]
    cases p.records[place]? with
    | none => simp only [Option.bind_none, Option.getD_none, drain]
    | some record =>
      simp only [Option.bind_some, deliver_eq]
      cases redelivery engine record p with
      | none => simp only [Option.getD_none, drain]
      | some l => rfl

end Demand

def alone (engine : Engine σ) (world : σ) (asked : List Demand) : Progress σ RecordStore :=
  asked.foldl (Demand.meet engine) (start ⟨world, .empty, 0⟩ none)

end Run

namespace Loop

def advance {π : Type} [RecordKeeper π] (engine : Engine σ) (l : Loop σ π) : Loop σ π :=
  match l.turn engine with
  | .inl l' => l'
  | .inr (_, p) => ⟨[], p⟩

private theorem drain_advance {π : Type} [RecordKeeper π] (engine : Engine σ) (l : Loop σ π) :
    (drain engine (l.advance engine).stack (l.advance engine).progress).2 =
      (drain engine l.stack l.progress).2 := by
  rw [drain_eq_turn engine l]
  unfold advance
  cases l.turn engine with
  | inl l' => rfl
  | inr ended => simp only [drain]

/-- A run at some moment in two executions. -/
structure Alike (engine : Engine σ) (ts : Twins) (l l' : Loop σ RecordStore) : Prop where
  progress : l.progress.Alike ts l'.progress
  stack : List.Forall₂ (Work.Alike engine ts) l.stack l'.stack
  store : l.progress.stage.store.Reachable
  store' : l'.progress.stage.store.Reachable

namespace Alike

variable {engine : Engine σ} {ts : Twins} {l l' : Loop σ RecordStore}

private theorem advance (hpure : engine.Pure) (h : l.Alike engine ts l')
    (hsupply : l.progress.stage.store.latest < Uuid.supply) :
    ∃ new, (l.advance engine).Alike engine (ts ++ new) (l'.advance engine) := by
  obtain ⟨stack, p⟩ := l
  obtain ⟨stack', p'⟩ := l'
  have hflag : p.run.cancel = none := h.progress.run.unflagged
  have hflag' : p'.run.cancel = none := h.progress.run.unflagged'
  have hgoes : p.isCancelled = false := by simp [Progress.isCancelled, hflag]
  have hgoes' : p'.isCancelled = false := by simp [Progress.isCancelled, hflag']
  have hstack := h.stack
  cases hstack with
  | nil => exact ⟨[], by simpa [Loop.advance, turn] using h⟩
  | @cons work work' rest rest' hwork hrest =>
    obtain ⟨new, hstepped⟩ :=
      stepped_of_alike hpure h.progress h.store h.store' hsupply hwork
    have hstore := (RecordStore.KeptBy.reachable _).step engine h.store work
    have hstore' := (RecordStore.KeptBy.reachable _).step engine h.store' work'
    refine ⟨new, ?_⟩
    simp only [Loop.advance, turn, hgoes, hgoes', Bool.false_eq_true, if_false]
    generalize step engine work p = stepped at hstepped hstore ⊢
    generalize step engine work' p' = stepped' at hstepped hstore' ⊢
    cases hstepped with
    | goes hnext hprogress =>
      have hbelow : List.Forall₂ (Work.Alike engine (ts ++ new)) rest rest' :=
        hrest.imp fun _ _ => Work.Alike.mono fun _ ht => List.mem_append_left _ ht
      exact ⟨hprogress, List.rel_append hnext hbelow, hstore, hstore'⟩
    | halts hprogress => exact ⟨hprogress, .nil, hstore, hstore'⟩

end Alike

end Loop

namespace Run

variable {engine : Engine σ} {ts : Twins} {p p' : Progress σ RecordStore}

private theorem latest_opening {action : ActionId} {input : Payload} {l : Loop σ RecordStore}
    (h : opening engine action input p = some l) :
    l.progress.stage.store.latest = p.stage.store.latest + 1 := by
  obtain ⟨_, _, _, _, hkeep, _⟩ := opening_cases h
  exact (RecordStore.seq_append (RecordStore.append_of_persist hkeep)).2

private theorem begin_invoke_alike (hpure : engine.Pure) (h : p.Alike ts p')
    (hstore : p.stage.store.Reachable) (hstore' : p'.stage.store.Reachable) (action : ActionId)
    (input : Payload) :
    ∃ new, ((Demand.invoke action input).begin engine p).Alike engine (ts ++ new)
      ((Demand.invoke action input).begin engine p') := by
  have hanswer := hpure.performs action input p.stage.world p'.stage.world
  have hfails : opening engine action input p = none → opening engine action input p' = none →
      ∃ new, ((Demand.invoke action input).begin engine p).Alike engine (ts ++ new)
        ((Demand.invoke action input).begin engine p') := by
    intro hnone hnone'
    simp only [Demand.begin, hnone, hnone', Option.getD_none, invoke_of_no_opening hnone,
      invoke_of_no_opening hnone']
    exact ⟨[], by simpa using ⟨{ h with run := h.run }, .nil, hstore, hstore'⟩⟩
  by_cases hkind : engine.registry.kind? action = some .action
  · rcases hfirst : engine.registry.perform action input p.stage.world with ⟨outcome, world⟩
    rcases hsecond : engine.registry.perform action input p'.stage.world with ⟨outcome', world'⟩
    rw [hfirst, hsecond] at hanswer
    cases hanswer
    cases outcome with
    | broken b => exact hfails (by simp [opening, hfirst]) (by simp [opening, hsecond])
    | failed failure => exact hfails (by simp [opening, hfirst]) (by simp [opening, hsecond])
    | ok output =>
      obtain ⟨l, hopening⟩ := opening_of_perform hkind hfirst
      obtain ⟨l', hopening'⟩ := opening_of_perform hkind hsecond
      obtain ⟨root, hopened⟩ := opened hstore hopening
      obtain ⟨root', hopened'⟩ := opened hstore' hopening'
      have houtput : root.output = root'.output := by
        have hperformed := hfirst.symm.trans hopened.performed
        have hperformed' := hsecond.symm.trans hopened'.performed
        rw [← Outcome.ok.inj (Prod.mk.inj hperformed).1, Outcome.ok.inj (Prod.mk.inj hperformed').1]
      have halike : root.Alike (ts.Names Record.seq) root' :=
        .root hopened.isRoot hopened'.isRoot (hopened.action.trans hopened'.action.symm)
          (hopened.input.trans hopened'.input.symm) houtput
      have hgrown : Grown l.progress.records := hopened.records ▸
        (h.records ▸ h.grown.first).root hopened.latest hopened.isRoot
      have hgrown' : Grown l'.progress.records := hopened'.records ▸
        (h.records' ▸ h.grown.second).root hopened'.latest hopened'.isRoot
      simp only [Demand.begin, hopening, hopening', Option.getD_some]
      refine ⟨[(root, root')], h.grow hopened.run hopened'.run hopened.records hopened'.records
        hgrown hgrown' halike ?_, ?_, hopened.store, hopened'.store⟩
      · rw [latest_opening hopening, latest_opening hopening']
        exact Nat.succ_le_succ h.latest
      · rw [hopened.stack, hopened'.stack]
        exact .cons (.complete action (t := (root, root')) (by simp)) .nil
  · exact hfails (by simp [opening, hkind]) (by simp [opening, hkind])

private theorem redelivery_of_mem {record : Record} (h : record ∈ p.records) :
    redelivery engine record p =
      (engine.registry.lookup record.action).map fun action => ⟨[.complete action record], p⟩ := by
  simp [redelivery, (Progress.mem_records.mp h).2]

private theorem begin_deliver_alike (h : p.Alike ts p') (hstore : p.stage.store.Reachable)
    (hstore' : p'.stage.store.Reachable) (place : Nat) :
    ((Demand.deliver place).begin engine p).Alike engine ts
      ((Demand.deliver place).begin engine p') := by
  have hidle : Loop.Alike engine ts ⟨[], p⟩ ⟨[], p'⟩ := ⟨h, .nil, hstore, hstore'⟩
  have hfirst : p.records[place]? = ts[place]?.map Prod.fst := by
    rw [← h.records, List.getElem?_map]
  have hsecond : p'.records[place]? = ts[place]?.map Prod.snd := by
    rw [← h.records', List.getElem?_map]
  simp only [Demand.begin, hfirst, hsecond]
  cases hplace : ts[place]? with
  | none => exact hidle
  | some t =>
    have ht : t ∈ ts := List.mem_of_getElem? hplace
    have hmem : t.1 ∈ p.records := h.records ▸ List.mem_map_of_mem ht
    have hmem' : t.2 ∈ p'.records := h.records' ▸ List.mem_map_of_mem ht
    simp only [Option.map_some, Option.bind_some, redelivery_of_mem hmem, redelivery_of_mem hmem',
      (h.grown.alike t ht).action]
    cases engine.registry.lookup t.2.action with
    | none => exact hidle
    | some action => exact ⟨h, .cons (.complete action ht) .nil, hstore, hstore'⟩

private theorem Demand.begin_alike (hpure : engine.Pure) (h : p.Alike ts p')
    (hstore : p.stage.store.Reachable) (hstore' : p'.stage.store.Reachable) (c : Demand) :
    ∃ new, (c.begin engine p).Alike engine (ts ++ new) (c.begin engine p') := by
  cases c with
  | invoke action input => exact begin_invoke_alike hpure h hstore hstore' action input
  | deliver place => exact ⟨[], by simpa using begin_deliver_alike h hstore hstore' place⟩

end Run

def Loop.LikeAlone (engine : Engine σ) (world : σ) (asked : List Run.Demand)
    (l : Loop σ RecordStore) : Prop :=
  ∃ ts l', l.Alike engine ts l' ∧
    (drain engine l'.stack l'.progress).2 = Run.alone engine world asked

namespace Loop.LikeAlone

variable {engine : Engine σ} {world : σ} {asked : List Run.Demand} {l : Loop σ RecordStore}
  {p : Progress σ RecordStore}

private theorem fresh_alike (id id' : String) :
    (Run.fresh id none : Run σ).Alike [] (Run.fresh id' none) :=
  ⟨.nil, .nil, .nil, rfl, rfl, rfl, rfl⟩

theorem start (engine : Engine σ) (world : σ) {stage : Stage σ RecordStore}
    (hstore : stage.store.Reachable)
    (hfresh : ∀ r ∈ stage.store.records, r.run ≠ (Run.start stage none).run.id) :
    Loop.LikeAlone engine world [] ⟨[], Run.start stage none⟩ := by
  have hempty : RecordStore.empty.Reachable := ⟨[], rfl⟩
  have halone : (Run.start ⟨world, .empty, 0⟩ none).records = [] :=
    Run.records_start (by simp [RecordStore.empty])
  have halike : (Run.start stage none).Alike [] (Run.start ⟨world, .empty, 0⟩ none) :=
    ⟨⟨.nil, .nil, by simp⟩, (Run.records_start hfresh).symm, halone.symm, Nat.zero_le _,
      fresh_alike _ _⟩
  refine ⟨[], ⟨[], Run.start ⟨world, .empty, 0⟩ none⟩, ⟨halike, .nil, hstore, hempty⟩, ?_⟩
  simp only [drain, Run.alone, List.foldl_nil]

theorem idle (h : Loop.LikeAlone engine world asked ⟨[], p⟩) :
    ∃ ts, p.Alike ts (Run.alone engine world asked) ∧ p.stage.store.Reachable ∧
      (Run.alone engine world asked).stage.store.Reachable := by
  obtain ⟨ts, ⟨stack, p'⟩, halike, halone⟩ := h
  cases List.forall₂_nil_left_iff.mp halike.stack
  simp only [drain] at halone
  subst halone
  exact ⟨ts, halike.progress, halike.store, halike.store'⟩

theorem ask (hpure : engine.Pure) (h : Loop.LikeAlone engine world asked ⟨[], p⟩)
    (d : Run.Demand) : (d.begin engine p).LikeAlone engine world (asked ++ [d]) := by
  obtain ⟨ts, halike, hstore, hstore'⟩ := h.idle
  obtain ⟨new, hbegin⟩ := d.begin_alike hpure halike hstore hstore'
  refine ⟨ts ++ new, _, hbegin, ?_⟩
  rw [Run.Demand.drain_begin, Run.alone, Run.alone, List.foldl_append]
  rfl

theorem turn (hpure : engine.Pure) (hsupply : l.progress.stage.store.latest < Uuid.supply)
    (h : l.LikeAlone engine world asked) : (l.advance engine).LikeAlone engine world asked := by
  obtain ⟨ts, l', halike, halone⟩ := h
  obtain ⟨new, hadvance⟩ := halike.advance hpure hsupply
  exact ⟨ts ++ new, _, hadvance, (Loop.drain_advance engine l').trans halone⟩

end Loop.LikeAlone

end ConceptSync
