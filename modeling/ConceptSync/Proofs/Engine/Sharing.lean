import Mathlib.Logic.Function.Basic
import ConceptSync.Proofs.Engine.Demands

set_option autoImplicit false
set_option relaxedAutoImplicit false

/-!
Runs that share a store. Callers start runs, make demands of them, settle and drop them in whatever
order, and between any two turns of one run others may take theirs. What others do while a turn
waits for its action comes to the same: every event is one call of the store by one run at most, so
a run finds its own records as it left them.
-/

namespace ConceptSync

variable {σ : Type}

namespace RecordStore

def TouchedBy (own : String) (s s' : RecordStore) : Prop :=
  ∃ call : Call, s.after call = s' ∧ ∀ other, own ≠ other → call.Elsewhere other

namespace TouchedBy

variable {own : String} {s s' : RecordStore}

private theorem refl (own : String) (s : RecordStore) : TouchedBy own s s :=
  ⟨.tick s.clock, rfl, fun _ _ => trivial⟩

private theorem append {d : Draft} (h : d.run = some own) : TouchedBy own s (s.append d).2 :=
  ⟨.append d, rfl, fun _ hne heq => hne (Option.some.inj (h.symm.trans heq))⟩

private theorem appendChild (parent : Int) {d : Draft} (h : d.run = some own) :
    TouchedBy own s (s.appendChild parent d).2 :=
  ⟨.appendChild parent d, rfl, fun _ hne => ⟨own, h, hne⟩⟩

theorem forgetRun (own : String) (s : RecordStore) : TouchedBy own s (s.forgetRun own).2 :=
  ⟨.forgetRun own, rfl, fun _ hne => hne⟩

private theorem reachable (h : TouchedBy own s s') (hs : s.Reachable) : s'.Reachable := by
  obtain ⟨call, rfl, _⟩ := h
  exact hs.after call

theorem readRun (h : TouchedBy own s s') {other : String} (hne : own ≠ other) :
    s'.readRun other = s.readRun other := by
  obtain ⟨call, rfl, helsewhere⟩ := h
  exact readRun_after (helsewhere other hne)

private theorem mem (h : TouchedBy own s s') {r : Record} (hr : r ∈ s'.records) :
    r ∈ s.records ∨ r.run = own := by
  obtain ⟨call, rfl, helsewhere⟩ := h
  rcases mem_after hr with hold | ⟨_, hnew⟩
  · exact .inl hold
  · right
    by_contra hne
    exact hnew r.run (helsewhere r.run (Ne.symm hne)) rfl

private theorem latest_le (h : TouchedBy own s s') : s.latest ≤ s'.latest := by
  obtain ⟨call, rfl, _⟩ := h
  cases call with
  | append d =>
    simp only [after, RecordStore.append]
    split
    · exact Nat.le_refl _
    · exact Nat.le_succ _
  | appendChild parent d =>
    simp only [after, RecordStore.appendChild]
    split
    · exact Nat.le_refl _
    · exact Nat.le_succ _
  | forgetRun run => exact Nat.le_refl _
  | tick now => exact Nat.le_refl _

end TouchedBy

end RecordStore

private theorem touchedBy_step (engine : Engine σ) (work : Work σ) (p : Progress σ RecordStore) :
    RecordStore.TouchedBy p.run.id p.stage.store (step engine work p).2.stage.store := by
  rcases keeper_step engine work p with ⟨hsame, _⟩ |
    ⟨_, _, _, trigger, _, _, draft, _, _, hdraft, _, hstore, _⟩
  · rw [hsame]
    exact .refl _ _
  · rw [← hstore]
    exact .appendChild trigger.seq (by rw [hdraft])

structure Progress.Acts (p q : Progress σ RecordStore) : Prop where
  continues : p.Continues q
  touched : RecordStore.TouchedBy p.run.id p.stage.store q.stage.store

private theorem Progress.acts_step (engine : Engine σ) (work : Work σ)
    (p : Progress σ RecordStore) :
    p.Acts (step engine work p).2 :=
  ⟨continues_step engine work p, touchedBy_step engine work p⟩

private theorem Loop.acts_advance (engine : Engine σ) (l : Loop σ RecordStore) :
    l.progress.Acts (l.advance engine).progress := by
  unfold advance
  rcases hturn : l.turn engine with l' | ⟨result, p⟩
  · obtain ⟨work, _, _, _, _, hstep, _⟩ := turn_cases hturn
    have hacts := Progress.acts_step engine work l.progress
    rwa [hstep] at hacts
  · rcases turn_ends hturn with ⟨_, _, heq⟩ | ⟨_, _, heq⟩ | ⟨work, _, halt, _, _, hstep, _⟩
    · cases heq
      exact ⟨.refl _, .refl _ _⟩
    · cases heq
      exact ⟨⟨rfl, rfl, rfl⟩, .refl _ _⟩
    · have hacts := Progress.acts_step engine work l.progress
      rwa [hstep] at hacts

private theorem Run.acts_opening {engine : Engine σ} {action : ActionId} {input : Payload}
    {p : Progress σ RecordStore} {l : Loop σ RecordStore}
    (h : opening engine action input p = some l) : p.Acts l.progress := by
  unfold opening at h
  split at h
  · cases h
  · split at h
    · split at h
      · next record store hkeep =>
        have hadded := congrArg Prod.snd (RecordStore.append_of_persist hkeep)
        dsimp only at hadded
        cases h
        refine ⟨⟨rfl, rfl, rfl⟩, ?_⟩
        simp only [Progress.withStore, Progress.withWorld]
        rw [← hadded]
        exact .append rfl
      · cases h
    · cases h
    · cases h

private theorem Run.Demand.acts_begin (engine : Engine σ) (p : Progress σ RecordStore)
    (d : Demand) :
    p.Acts (d.begin engine p).progress := by
  cases d with
  | invoke action input =>
    simp only [begin]
    cases hopening : opening engine action input p with
    | none =>
      rw [Option.getD_none, invoke_of_no_opening hopening]
      exact ⟨⟨rfl, rfl, rfl⟩, .refl _ _⟩
    | some l => exact acts_opening hopening
  | deliver place =>
    simp only [begin]
    cases hdelivery : p.records[place]?.bind fun record => redelivery engine record p with
    | none => exact ⟨.refl _, .refl _ _⟩
    | some l =>
      obtain ⟨record, _, hdelivery⟩ := Option.bind_eq_some_iff.mp hdelivery
      obtain ⟨_, rfl⟩ := redelivery_cases hdelivery
      exact ⟨.refl _, .refl _ _⟩

/-- A run that its caller holds: the work it has to do and what was asked of it so far. -/
structure Held (σ : Type) where
  run : Run σ
  stack : List (Work σ)
  asked : List Run.Demand

/-- How a run was settled, after all that was asked of it. -/
structure Settlement where
  asked : List Run.Demand
  result : Except Failure Report

/-- Runs that share a stage, each held by a caller, and how others were settled before. -/
structure Sharing (σ : Type) where
  stage : Stage σ RecordStore
  held : Nat → Option (Held σ)
  settled : List Settlement

def Held.loop (h : Held σ) (stage : Stage σ RecordStore) : Loop σ RecordStore :=
  ⟨h.stack, ⟨h.run, stage⟩⟩

namespace Sharing

/-- What may happen next. A caller starts a run and makes demands of it, one at a time; the run
takes a turn; the caller settles it once it has nothing to do, or drops it at any time. Meanwhile
the world changes and time passes. -/
inductive Event (σ : Type) where
  | start (caller : Nat)
  | ask (caller : Nat) (demand : Run.Demand)
  | turn (caller : Nat)
  | finish (caller : Nat)
  | drop (caller : Nat)
  | pass (world : σ) (now : Timestamp)

def goOn (s : Sharing σ) (caller : Nat) (asked : List Run.Demand) (l : Loop σ RecordStore) :
    Sharing σ :=
  { s with
    stage := l.progress.stage
    held := Function.update s.held caller (some ⟨l.progress.run, l.stack, asked⟩) }

def letGo (s : Sharing σ) (caller : Nat) (stage : Stage σ RecordStore) : Sharing σ :=
  { s with stage, held := Function.update s.held caller none }

/-- What an event makes of the runs. An event that cannot happen changes nothing. -/
def after (engine : Engine σ) (s : Sharing σ) : Event σ → Sharing σ
  | .start caller =>
    match s.held caller with
    | none => s.goOn caller [] ⟨[], Run.start s.stage none⟩
    | some _ => s
  | .ask caller demand =>
    match s.held caller with
    | some ⟨run, [], asked⟩ =>
      s.goOn caller (asked ++ [demand]) (demand.begin engine ⟨run, s.stage⟩)
    | _ => s
  | .turn caller =>
    match s.held caller with
    | some h => s.goOn caller h.asked ((h.loop s.stage).advance engine)
    | none => s
  | .finish caller =>
    match s.held caller with
    | some ⟨run, [], asked⟩ =>
      let (result, stage) := Run.finish ⟨run, s.stage⟩
      { s.letGo caller stage with settled := s.settled ++ [⟨asked, result⟩] }
    | _ => s
  | .drop caller =>
    match s.held caller with
    | some h => s.letGo caller (Run.drop ⟨h.run, s.stage⟩)
    | none => s
  | .pass world now =>
    { s with stage := ⟨world, s.stage.store.after (.tick now), s.stage.runs⟩ }

def happens (engine : Engine σ) (world : σ) (events : List (Event σ)) : Sharing σ :=
  events.foldl (after engine) ⟨⟨world, .empty, 0⟩, fun _ => none, []⟩

/-- What an event can do. -/
inductive Step (engine : Engine σ) (s : Sharing σ) : Sharing σ → Prop
  | nothing : Step engine s s
  | start {caller : Nat} : s.held caller = none →
      Step engine s (s.goOn caller [] ⟨[], Run.start s.stage none⟩)
  | ask {caller : Nat} {run : Run σ} {asked : List Run.Demand} (demand : Run.Demand) :
      s.held caller = some ⟨run, [], asked⟩ →
      Step engine s (s.goOn caller (asked ++ [demand]) (demand.begin engine ⟨run, s.stage⟩))
  | turn {caller : Nat} {h : Held σ} : s.held caller = some h →
      Step engine s (s.goOn caller h.asked ((h.loop s.stage).advance engine))
  | finish {caller : Nat} {run : Run σ} {asked : List Run.Demand} :
      s.held caller = some ⟨run, [], asked⟩ →
      Step engine s
        { s.letGo caller (Run.finish ⟨run, s.stage⟩).2 with
          settled := s.settled ++ [⟨asked, (Run.finish ⟨run, s.stage⟩).1⟩] }
  | drop {caller : Nat} {h : Held σ} : s.held caller = some h →
      Step engine s (s.letGo caller (Run.drop ⟨h.run, s.stage⟩))
  | pass (world : σ) (now : Timestamp) :
      Step engine s { s with stage := ⟨world, s.stage.store.after (.tick now), s.stage.runs⟩ }

private theorem step_after (engine : Engine σ) (s : Sharing σ) (e : Event σ) :
    Step engine s (s.after engine e) := by
  cases e with
  | start caller =>
    cases hheld : s.held caller <;> simp only [after, hheld]
    · exact .start hheld
    · exact .nothing
  | ask caller demand =>
    rcases hheld : s.held caller with _ | ⟨run, _ | ⟨work, rest⟩, asked⟩ <;>
      simp only [after, hheld]
    · exact .nothing
    · exact .ask demand hheld
    · exact .nothing
  | turn caller =>
    cases hheld : s.held caller <;> simp only [after, hheld]
    · exact .nothing
    · exact .turn hheld
  | finish caller =>
    rcases hheld : s.held caller with _ | ⟨run, _ | ⟨work, rest⟩, asked⟩ <;>
      simp only [after, hheld]
    · exact .nothing
    · exact .finish hheld
    · exact .nothing
  | drop caller =>
    cases hheld : s.held caller <;> simp only [after, hheld]
    · exact .nothing
    · exact .drop hheld
  | pass world now => exact .pass world now

end Sharing

/-- Fewer identifiers were issued than there are. -/
structure Stage.InSupply (stage : Stage σ RecordStore) : Prop where
  records : stage.store.latest < Uuid.supply
  runs : stage.runs < Uuid.supply

private theorem Loop.LikeAlone.elsewhere {engine : Engine σ} {world : σ} {asked : List Run.Demand}
    {h : Held σ} {stage stage' : Stage σ RecordStore}
    (hlike : (h.loop stage).LikeAlone engine world asked) {own : String}
    (htouched : RecordStore.TouchedBy own stage.store stage'.store) (hne : own ≠ h.run.id) :
    (h.loop stage').LikeAlone engine world asked := by
  obtain ⟨ts, l, halike, halone⟩ := hlike
  refine ⟨ts, l, ⟨?_, halike.stack, htouched.reachable halike.store, halike.store'⟩, halone⟩
  exact { halike.progress with
    records := halike.progress.records.trans (htouched.readRun hne).symm
    latest := Nat.le_trans halike.progress.latest htouched.latest_le }

namespace Sharing

/-- What holds of runs that share a store: every record belongs to a run that is held, different
runs have different identifiers, and each run comes to what it comes to alone, also if it was
settled. -/
structure Isolated (engine : Engine σ) (world : σ) (s : Sharing σ) : Prop where
  store : s.stage.store.Reachable
  owned : ∀ r ∈ s.stage.store.records, ∃ caller h, s.held caller = some h ∧ r.run = h.run.id
  issued : ∀ caller h, s.held caller = some h →
    ∃ n ≤ s.stage.runs, h.run.id = (Uuid.issue .run n).text
  apart : ∀ caller other h h', s.held caller = some h → s.held other = some h' →
    h.run.id = h'.run.id → caller = other
  likeAlone : ∀ caller h, s.held caller = some h →
    (h.loop s.stage).LikeAlone engine world h.asked
  settled : ∀ e ∈ s.settled, ∃ ts p, Progress.Alike ts p (Run.alone engine world e.asked) ∧
    e.result = (Run.finish p).1

section

variable {engine : Engine σ} {world : σ} {s : Sharing σ} {caller other : Nat}
  {asked : List Run.Demand} {l : Loop σ RecordStore} {stage : Stage σ RecordStore} {h : Held σ}

private theorem held_goOn : (s.goOn caller asked l).held other = some h ↔
    (other = caller ∧ h = ⟨l.progress.run, l.stack, asked⟩) ∨
      (other ≠ caller ∧ s.held other = some h) := by
  by_cases hsame : other = caller <;> simp [goOn, hsame, eq_comm]

theorem held_letGo : (s.letGo caller stage).held other = some h ↔
    other ≠ caller ∧ s.held other = some h := by
  by_cases hsame : other = caller <;> simp [letGo, hsame]

private theorem Step.grows {s' : Sharing σ} (h : Step engine s s') :
    s.stage.store.latest ≤ s'.stage.store.latest ∧ s.stage.runs ≤ s'.stage.runs := by
  cases h with
  | start _ => exact ⟨Nat.le_refl _, Nat.le_succ _⟩
  | @ask _ run _ demand _ =>
    have hacts := demand.acts_begin engine ⟨run, s.stage⟩
    exact ⟨hacts.touched.latest_le, Nat.le_of_eq hacts.continues.runs.symm⟩
  | @turn _ h _ =>
    have hacts := (h.loop s.stage).acts_advance engine
    exact ⟨hacts.touched.latest_le, Nat.le_of_eq hacts.continues.runs.symm⟩
  | nothing | finish _ | drop _ | pass _ _ => exact ⟨Nat.le_refl _, Nat.le_refl _⟩

namespace Isolated

private theorem goOn (hs : s.Isolated engine world)
    (hissued : ∃ n ≤ l.progress.stage.runs, l.progress.run.id = (Uuid.issue .run n).text)
    (hruns : s.stage.runs ≤ l.progress.stage.runs)
    (hold : ∀ h, s.held caller = some h → h.run.id = l.progress.run.id)
    (hother : ∀ other h, other ≠ caller → s.held other = some h → l.progress.run.id ≠ h.run.id)
    (htouched : RecordStore.TouchedBy l.progress.run.id s.stage.store l.progress.stage.store)
    (hlike : l.LikeAlone engine world asked) : (s.goOn caller asked l).Isolated engine world where
  store := htouched.reachable hs.store
  owned r hr := by
    rcases htouched.mem hr with hbefore | hown
    · obtain ⟨owner, h, hheld, hrun⟩ := hs.owned r hbefore
      by_cases hsame : owner = caller
      · subst hsame
        exact ⟨owner, _, held_goOn.mpr (.inl ⟨rfl, rfl⟩), hrun.trans (hold h hheld)⟩
      · exact ⟨owner, h, held_goOn.mpr (.inr ⟨hsame, hheld⟩), hrun⟩
    · exact ⟨caller, _, held_goOn.mpr (.inl ⟨rfl, rfl⟩), hown⟩
  issued other h hheld := by
    rcases held_goOn.mp hheld with ⟨_, rfl⟩ | ⟨_, hheld⟩
    · exact hissued
    · obtain ⟨n, hn, hid⟩ := hs.issued other h hheld
      exact ⟨n, Nat.le_trans hn hruns, hid⟩
  apart a b h h' ha hb hid := by
    rcases held_goOn.mp ha with ⟨hown, rfl⟩ | ⟨hne, ha⟩ <;>
      rcases held_goOn.mp hb with ⟨hown', rfl⟩ | ⟨hne', hb⟩
    · exact hown.trans hown'.symm
    · exact absurd hid (hother b h' hne' hb)
    · exact absurd hid.symm (hother a h hne ha)
    · exact hs.apart a b h h' ha hb hid
  likeAlone other h hheld := by
    rcases held_goOn.mp hheld with ⟨_, rfl⟩ | ⟨hne, hheld⟩
    · exact hlike
    · exact (hs.likeAlone other h hheld).elsewhere htouched (hother other h hne hheld)
  settled := hs.settled

private theorem acts (hs : s.Isolated engine world) (hheld : s.held caller = some h)
    (hacts : (h.loop s.stage).progress.Acts l.progress)
    (hlike : l.LikeAlone engine world asked) : (s.goOn caller asked l).Isolated engine world := by
  have hid : l.progress.run.id = h.run.id := hacts.continues.id
  have hruns : l.progress.stage.runs = s.stage.runs := hacts.continues.runs
  refine hs.goOn ?_ (Nat.le_of_eq hruns.symm) ?_ ?_ (hid ▸ hacts.touched) hlike
  · obtain ⟨n, hn, hissued⟩ := hs.issued caller h hheld
    exact ⟨n, hruns ▸ hn, hid.trans hissued⟩
  · intro h' hheld'
    cases hheld.symm.trans hheld'
    exact hid.symm
  · intro other h' hne hheld' heq
    exact hne (hs.apart other caller h' h hheld' hheld (heq.symm.trans hid))

private theorem start (hs : s.Isolated engine world) (hfree : s.held caller = none)
    (hsupply : s.stage.runs + 1 < Uuid.supply) :
    (s.goOn caller [] ⟨[], Run.start s.stage none⟩).Isolated engine world := by
  have hnew : ∀ other h, s.held other = some h → (Run.start s.stage none).run.id ≠ h.run.id := by
    intro other h hheld heq
    obtain ⟨n, hn, hid⟩ := hs.issued other h hheld
    have hissued := Uuid.text_injective (heq.trans hid)
    have := Uuid.issue_inj hsupply (by omega) hissued
    omega
  have hfresh : ∀ r ∈ s.stage.store.records, r.run ≠ (Run.start s.stage none).run.id := by
    intro r hr heq
    obtain ⟨owner, h, hheld, hrun⟩ := hs.owned r hr
    exact hnew owner h hheld (heq.symm.trans hrun)
  exact hs.goOn ⟨s.stage.runs + 1, Nat.le_refl _, rfl⟩ (Nat.le_succ _) (by simp [hfree])
    (fun other h _ hheld => hnew other h hheld) (.refl _ _)
    (Loop.LikeAlone.start engine world hs.store hfresh)

private theorem letGo (hs : s.Isolated engine world) (hheld : s.held caller = some h)
    (hstore : stage.store = (s.stage.store.forgetRun h.run.id).2)
    (hruns : stage.runs = s.stage.runs) : (s.letGo caller stage).Isolated engine world := by
  have htouched : RecordStore.TouchedBy h.run.id s.stage.store stage.store :=
    hstore ▸ .forgetRun h.run.id s.stage.store
  constructor
  · exact htouched.reachable hs.store
  · intro r hr
    change r ∈ stage.store.records at hr
    rw [hstore] at hr
    obtain ⟨hbefore, hother⟩ := List.mem_filter.mp hr
    obtain ⟨owner, h', hheld', hrun⟩ := hs.owned r hbefore
    refine ⟨owner, h', held_letGo.mpr ⟨?_, hheld'⟩, hrun⟩
    rintro rfl
    cases hheld.symm.trans hheld'
    simp [hrun] at hother
  · intro other h' hheld'
    exact hruns ▸ hs.issued other h' (held_letGo.mp hheld').2
  · intro a b ha hb hheldA hheldB
    exact hs.apart a b ha hb (held_letGo.mp hheldA).2 (held_letGo.mp hheldB).2
  · intro other h' hheld'
    obtain ⟨hne, hheld'⟩ := held_letGo.mp hheld'
    refine (hs.likeAlone other h' hheld').elsewhere htouched fun heq => ?_
    exact hne (hs.apart other caller h' h hheld' hheld heq.symm)
  · exact hs.settled

private theorem step (hpure : engine.Pure) (hs : s.Isolated engine world) {s' : Sharing σ}
    (hstep : Step engine s s') (hsupply : s'.stage.InSupply) : s'.Isolated engine world := by
  have hbefore := Nat.lt_of_le_of_lt hstep.grows.1 hsupply.records
  cases hstep with
  | nothing => exact hs
  | start hfree => exact hs.start hfree hsupply.runs
  | ask demand hheld =>
    exact hs.acts hheld (demand.acts_begin engine _) ((hs.likeAlone _ _ hheld).ask hpure demand)
  | turn hheld =>
    exact hs.acts hheld (Loop.acts_advance engine _)
      ((hs.likeAlone _ _ hheld).turn hpure hbefore)
  | @finish caller run asked hheld =>
    obtain ⟨ts, halike, _⟩ := (hs.likeAlone _ _ hheld).idle
    have hletGo : (s.letGo caller (Run.finish ⟨run, s.stage⟩).2).Isolated engine world :=
      hs.letGo hheld rfl rfl
    refine ⟨hletGo.store, hletGo.owned, hletGo.issued, hletGo.apart, hletGo.likeAlone,
      fun e he => ?_⟩
    rcases List.mem_append.mp he with hearlier | hnow
    · exact hs.settled e hearlier
    · obtain rfl := List.mem_singleton.mp hnow
      exact ⟨ts, ⟨run, s.stage⟩, halike, rfl⟩
  | drop hheld => exact hs.letGo hheld rfl rfl
  | pass world' now =>
    have hstore := hs.store.after (.tick now)
    refine ⟨hstore, hs.owned, hs.issued, hs.apart, fun caller h hheld => ?_, hs.settled⟩
    obtain ⟨ts, l, halike, halone⟩ := hs.likeAlone caller h hheld
    exact ⟨ts, l, ⟨{ halike.progress with run := halike.progress.run }, halike.stack, hstore,
      halike.store'⟩, halone⟩

end Isolated

theorem isolated_happens (hpure : engine.Pure) (start : σ) (events : List (Event σ))
    (hsupply : (happens engine start events).stage.InSupply) :
    (happens engine start events).Isolated engine world := by
  induction events using List.reverseRecOn with
  | nil => exact ⟨⟨[], rfl⟩, by simp [happens, RecordStore.empty], by simp [happens],
      by simp [happens], by simp [happens], by simp [happens]⟩
  | append_singleton events e ih =>
    rw [happens, List.foldl_append] at hsupply ⊢
    have hstep := step_after engine (happens engine start events) e
    have hearlier : (happens engine start events).stage.InSupply :=
      ⟨Nat.lt_of_le_of_lt hstep.grows.1 hsupply.records,
        Nat.lt_of_le_of_lt hstep.grows.2 hsupply.runs⟩
    exact (ih hearlier).step hpure hstep hsupply

end

end Sharing

end ConceptSync
