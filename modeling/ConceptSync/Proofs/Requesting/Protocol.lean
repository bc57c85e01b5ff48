import Mathlib.Data.List.Infix
import Mathlib.Logic.Function.Basic
import ConceptSync.Proofs.Requesting.Entries
import ConceptSync.World

set_option autoImplicit false
set_option relaxedAutoImplicit false

/-!
The protocol of the table of open requests under any interleaving. Every event is what one caller
does while it holds the table: opening, answering and showing requests, counting them, and the steps
of callers who wait, with time passing in between. Whatever happens with one request reads: opened,
answered, shown any number of times, handed out; and every prefix of this is all that has happened
so far.
-/

namespace ConceptSync

structure Waiting where
  id : String
  deadline : Nat
deriving DecidableEq

/-- The table with the time and with the callers who wait. -/
structure Exchange where
  table : RequestTable
  now : Nat
  waiting : Nat → Option Waiting

namespace Exchange

/-- What a caller does while it holds the table, and what it is told. -/
inductive Event where
  | request (time : Nat) (id : String) (input output : Payload)
  | respond (input output : Payload)
  | peek (id : String) (response : Option Payload)
  | count (open_ : Nat)
  /-- Someone who starts to wait, or wakes up, looks for the answer. -/
  | look (caller : Nat) (id : String) (found : Collected)
  /-- Someone who waited until the deadline closes the request. -/
  | expiry (caller : Nat) (id : String)
  | pass (milliseconds : Nat)

def look (timeout caller : Nat) (id : String) (s : Exchange) : Event × Exchange :=
  let (found, table) := s.table.collect timeout id
  let wait := match found with
    | .pending deadline => some ⟨id, deadline⟩
    | _ => none
  (.look caller id found, { s with table, waiting := Function.update s.waiting caller wait })

/-- One event. Those who wait wake up whenever they like. -/
inductive Step (timeout : Nat) (s : Exchange) : Event → Exchange → Prop
  | request (id : String) (input : Payload) :
      Step timeout s (.request s.now id input (s.table.request timeout s.now id input).1)
        { s with table := (s.table.request timeout s.now id input).2 }
  | respond (input : Payload) :
      Step timeout s (.respond input (s.table.respond input).1)
        { s with table := (s.table.respond input).2 }
  | peek (id : String) : Step timeout s (.peek id (s.table.peek id)) s
  | count :
      Step timeout s (.count (s.table.openCount timeout s.now).1)
        { s with table := (s.table.openCount timeout s.now).2 }
  | await (caller : Nat) (id : String) : s.waiting caller = none →
      Step timeout s (s.look timeout caller id).1 (s.look timeout caller id).2
  | wake {caller : Nat} {w : Waiting} : s.waiting caller = some w →
      Step timeout s (s.look timeout caller w.id).1 (s.look timeout caller w.id).2
  | expire {caller : Nat} {w : Waiting} : s.waiting caller = some w → w.deadline ≤ s.now →
      Step timeout s (.expiry caller w.id)
        { s with table := s.table.remove w.id, waiting := Function.update s.waiting caller none }
  | pass (milliseconds : Nat) :
      Step timeout s (.pass milliseconds) { s with now := s.now + milliseconds }

/-- The events that lead from one exchange to another. -/
inductive Goes (timeout : Nat) (s : Exchange) : List Event → Exchange → Prop
  | refl : Goes timeout s [] s
  | snoc {es : List Event} {e : Event} {s' s'' : Exchange} :
      Goes timeout s es s' → Step timeout s' e s'' → Goes timeout s (es ++ [e]) s''

def start (now : Nat) : Exchange := ⟨.empty, now, fun _ => none⟩

/-- What an event means to a request. -/
inductive Mark where
  | opened (time : Nat)
  | accepted (response : Payload)
  | shown (response : Payload)
  | handed (response : Payload)

def Event.opens? : Event → Option String
  | .request _ id _ output => if output.isError then none else some id
  | _ => none

def Event.mark? (id : String) : Event → Option Mark
  | .request time i _ output =>
    if i = id ∧ output.isError = false then some (.opened time) else none
  | .respond input output =>
    if input.string? "request" = some id ∧ output.isError = false
    then some (.accepted (input.erase "request")) else none
  | .peek i (some response) => if i = id then some (.shown response) else none
  | .look _ i (.answer response) => if i = id then some (.handed response) else none
  | _ => none

/-- What happened with the request of an identifier, in order. -/
def marks (id : String) (es : List Event) : List Mark := es.filterMap (Event.mark? id)

def opened (es : List Event) : List String := es.filterMap Event.opens?

/-- The events that may close a request without handing out its answer: those that reap, and the
expiry of someone who waited for it. -/
def Event.MayDrop (id : String) : Event → Prop
  | .request _ _ _ _ => True
  | .count _ => True
  | .expiry _ i => i = id
  | _ => False

/-- What an event makes of the entry of one identifier, and what it means to its request. -/
inductive Change (timeout : Nat) (id : String) (s : Exchange) (e : Event) (s' : Exchange) : Prop
  | quiet : s'.table.find? id = s.table.find? id → e.mark? id = none → Change timeout id s e s'
  | shown {response : Payload} : s'.table.find? id = s.table.find? id →
      s.table.peek id = some response → e.mark? id = some (.shown response) →
      Change timeout id s e s'
  | opened {entry : OpenRequest} : s'.table.find? id = some entry → entry.response = none →
      e.opens? = some id → e.mark? id = some (.opened entry.opened) → Change timeout id s e s'
  | answered {entry : OpenRequest} {response : Payload} : s.table.find? id = some entry →
      entry.response = none → s'.table.find? id = some { entry with response := some response } →
      e.mark? id = some (.accepted response) → Change timeout id s e s'
  | handed {entry : OpenRequest} {response : Payload} : s.table.find? id = some entry →
      entry.response = some response → s'.table.find? id = none →
      e.mark? id = some (.handed response) → Change timeout id s e s'
  | dropped {entry : OpenRequest} : s.table.find? id = some entry →
      timeout ≤ s.now - entry.opened → s'.table.find? id = none → e.MayDrop id →
      e.mark? id = none → Change timeout id s e s'

def Punctual (timeout : Nat) (s : Exchange) : Prop :=
  ∀ caller w entry, s.waiting caller = some w → s.table.find? w.id = some entry →
    w.deadline = entry.opened + timeout

section

variable {timeout : Nat} {s s' : Exchange} {e : Event}

private theorem change_of_look (caller : Nat) (own id : String) :
    Change timeout id s (s.look timeout caller own).1 (s.look timeout caller own).2 := by
  rcases s.table.collect_cases timeout own with
    ⟨_, hcollect⟩ | ⟨_, _, _, hcollect⟩ | ⟨entry, response, hfound, hresponse, hcollect⟩
  · simp only [look, hcollect]
    exact .quiet rfl rfl
  · simp only [look, hcollect]
    exact .quiet rfl rfl
  · simp only [look, hcollect]
    by_cases hid : id = own
    · subst hid
      exact .handed hfound hresponse (by simp [RequestTable.find?_remove]) (by simp [Event.mark?])
    · exact .quiet (by simp [RequestTable.find?_remove, hid])
        (by simp [Event.mark?, Ne.symm hid])

private theorem change_of_reap (hdistinct : s.table.Distinct) {id : String}
    (hs' : s'.table.find? id = (s.table.reap timeout s.now).find? id) (hdrops : e.MayDrop id)
    (hmark : e.mark? id = none) : Change timeout id s e s' := by
  rcases hdistinct.reap_cases timeout s.now id with hsame | ⟨entry, hfound, hexpired, hnone⟩
  · exact .quiet (hs'.trans hsame) hmark
  · exact .dropped hfound hexpired (hs'.trans hnone) hdrops hmark

private theorem Step.change (h : Step timeout s e s') (hdistinct : s.table.Distinct)
    (hpunctual : s.Punctual timeout) (id : String) : Change timeout id s e s' := by
  cases h with
  | request own input =>
    rcases hpath : input.string? "path" with _ | path
    · simp only [RequestTable.request, hpath]
      exact .quiet rfl (by simp [Event.mark?, Payload.isError, Payload.error, Payload.single,
        Table.contains, Table.get?])
    · simp only [RequestTable.request, hpath]
      by_cases hid : id = own
      · subst hid
        have hput : ((s.table.reap timeout s.now).put ⟨id, path, s.now, none⟩).find? id =
            some ⟨id, path, s.now, none⟩ := by simp [RequestTable.find?_put]
        exact .opened hput rfl rfl
          (by simp [Event.mark?, Payload.isError, Payload.single, Table.contains, Table.get?])
      · exact change_of_reap hdistinct (by simp [RequestTable.find?_put, hid]) trivial
          (by simp [Event.mark?, Ne.symm hid])
  | respond input =>
    rcases s.table.respond_cases input with
      ⟨herror, hsame⟩ | ⟨own, entry, hinput, hfound, hresponse, hok, hattach⟩
    · exact .quiet (by rw [hsame]) (by simp [Event.mark?, herror])
    · by_cases hid : id = own
      · subst hid
        refine .answered hfound hresponse ?_ (by simp only [Event.mark?, hinput, hok]; rfl)
        simp [hattach, RequestTable.find?_attach, hfound]
      · refine .quiet (by simp [hattach, RequestTable.find?_attach, hid]) ?_
        simp [Event.mark?, hinput, Ne.symm hid]
  | peek own =>
    by_cases hid : own = id
    · subst hid
      cases hpeek : s.table.peek own with
      | none => exact .quiet rfl rfl
      | some response => exact .shown rfl hpeek (by simp [Event.mark?])
    · refine .quiet rfl ?_
      cases s.table.peek own <;> simp [Event.mark?, hid]
  | count => exact change_of_reap hdistinct rfl trivial rfl
  | await caller own _ => exact change_of_look caller own id
  | @wake caller w _ => exact change_of_look caller w.id id
  | @expire caller w hwaiting hdeadline =>
    by_cases hid : w.id = id
    · subst hid
      cases hfound : s.table.find? w.id with
      | none => exact .quiet (by simp [RequestTable.find?_remove, hfound]) rfl
      | some entry =>
        have hopened := hpunctual caller w entry hwaiting hfound
        exact .dropped hfound (by omega) (by simp [RequestTable.find?_remove]) rfl rfl
    · exact .quiet (by simp [RequestTable.find?_remove, Ne.symm hid]) rfl
  | pass milliseconds => exact .quiet rfl rfl

private theorem Step.distinct (h : Step timeout s e s') (hdistinct : s.table.Distinct) :
    s'.table.Distinct := by
  have hlook : ∀ caller id, (s.look timeout caller id).2.table.Distinct :=
    fun caller id => hdistinct.collect timeout id
  cases h with
  | request id input => exact hdistinct.request timeout s.now id input
  | respond input => exact hdistinct.respond input
  | peek _ => exact hdistinct
  | count => exact hdistinct.openCount timeout s.now
  | await caller id _ => exact hlook caller id
  | wake _ => exact hlook _ _
  | expire _ _ => exact hdistinct.remove _
  | pass _ => exact hdistinct

private theorem Step.now_le (h : Step timeout s e s') : s.now ≤ s'.now := by
  cases h <;> simp [look]

/-- Where the request of an identifier stands after what happened with it. -/
inductive Standing (timeout : Nat) (s : Exchange) (id : String) : List Mark → Prop
  | unopened : s.table.find? id = none → Standing timeout s id []
  | unanswered {entry : OpenRequest} : s.table.find? id = some entry → entry.response = none →
      Standing timeout s id [.opened entry.opened]
  | answered {entry : OpenRequest} {response : Payload} (n : Nat) :
      s.table.find? id = some entry → entry.response = some response →
      Standing timeout s id
        (.opened entry.opened :: .accepted response :: List.replicate n (.shown response))
  | collected {time : Nat} {response : Payload} (n : Nat) : s.table.find? id = none →
      Standing timeout s id (.opened time :: .accepted response ::
        (List.replicate n (.shown response) ++ [.handed response]))
  | neglected {time : Nat} : s.table.find? id = none → timeout ≤ s.now - time →
      Standing timeout s id [.opened time]
  | dropped {time : Nat} {response : Payload} (n : Nat) : s.table.find? id = none →
      timeout ≤ s.now - time →
      Standing timeout s id
        (.opened time :: .accepted response :: List.replicate n (.shown response))

namespace Standing

variable {id : String} {ms : List Mark}

private theorem congr (h : Standing timeout s id ms) (hsame : s'.table.find? id = s.table.find? id)
    (hnow : s.now ≤ s'.now) : Standing timeout s' id ms := by
  cases h with
  | unopened hnone => exact .unopened (hsame.trans hnone)
  | unanswered hfound hresponse => exact .unanswered (hsame.trans hfound) hresponse
  | answered n hfound hresponse => exact .answered n (hsame.trans hfound) hresponse
  | collected n hnone => exact .collected n (hsame.trans hnone)
  | neglected hnone hexpired => exact .neglected (hsame.trans hnone) (by omega)
  | dropped n hnone hexpired => exact .dropped n (hsame.trans hnone) (by omega)

private theorem of_found (h : Standing timeout s id ms) {entry : OpenRequest}
    (hfound : s.table.find? id = some entry) :
    (entry.response = none ∧ ms = [.opened entry.opened]) ∨
      ∃ response n, entry.response = some response ∧
        ms = .opened entry.opened :: .accepted response :: List.replicate n (.shown response) := by
  have hother : ∀ {P : Prop}, s.table.find? id = none → P := fun hnone => by
    cases hfound.symm.trans hnone
  cases h with
  | unopened hnone => exact hother hnone
  | unanswered hentry hresponse =>
    obtain rfl := Option.some.inj (hfound.symm.trans hentry)
    exact .inl ⟨hresponse, rfl⟩
  | answered n hentry hresponse =>
    obtain rfl := Option.some.inj (hfound.symm.trans hentry)
    exact .inr ⟨_, n, hresponse, rfl⟩
  | collected _ hnone => exact hother hnone
  | neglected hnone _ => exact hother hnone
  | dropped _ hnone _ => exact hother hnone

private theorem opened_iff (h : Standing timeout s id ms) {entry : OpenRequest}
    (hfound : s.table.find? id = some entry) (time : Nat) :
    .opened time ∈ ms ↔ time = entry.opened := by
  rcases h.of_found hfound with ⟨_, rfl⟩ | ⟨response, n, _, rfl⟩
  · simp
  · simp [List.mem_replicate]

private theorem step (h : Standing timeout s id ms) (hchange : Change timeout id s e s')
    (hnow : s.now ≤ s'.now) (hfresh : e.opens? = some id → ms = []) :
    Standing timeout s' id (ms ++ (e.mark? id).toList) := by
  cases hchange with
  | quiet hsame hmark => simpa [hmark] using h.congr hsame hnow
  | @shown response hsame hpeek hmark =>
    obtain ⟨entry, hfound, hresponse⟩ := Option.bind_eq_some_iff.mp hpeek
    rcases h.of_found hfound with ⟨hnone, _⟩ | ⟨r, n, hr, rfl⟩
    · cases hresponse.symm.trans hnone
    · obtain rfl := Option.some.inj (hresponse.symm.trans hr)
      have hstanding : Standing timeout s' id _ := .answered (n + 1) (hsame.trans hfound) hresponse
      simpa [hmark, List.replicate_succ'] using hstanding
  | opened hfound hresponse hopens hmark =>
    have hstanding : Standing timeout s' id _ := .unanswered hfound hresponse
    simpa [hmark, hfresh hopens] using hstanding
  | @answered entry response hfound hresponse hanswered hmark =>
    rcases h.of_found hfound with ⟨_, rfl⟩ | ⟨_, _, hr, _⟩
    · have hstanding : Standing timeout s' id _ := .answered 0 hanswered rfl
      simpa [hmark] using hstanding
    · cases hresponse.symm.trans hr
  | @handed entry response hfound hresponse hnone hmark =>
    rcases h.of_found hfound with ⟨hr, _⟩ | ⟨r, n, hr, rfl⟩
    · cases hresponse.symm.trans hr
    · obtain rfl := Option.some.inj (hresponse.symm.trans hr)
      have hstanding := @Standing.collected timeout s' id entry.opened response n hnone
      simpa [hmark] using hstanding
  | dropped hfound hexpired hnone _ hmark =>
    rw [hmark, Option.toList_none, List.append_nil]
    rcases h.of_found hfound with ⟨_, rfl⟩ | ⟨_, n, _, rfl⟩
    · exact .neglected hnone (by omega)
    · exact .dropped n hnone (by omega)

private theorem one_course (h : Standing timeout s id ms) :
    ∃ time response n, ms <+: .opened time :: .accepted response ::
      (List.replicate n (.shown response) ++ [.handed response]) := by
  cases h with
  | unopened _ => exact ⟨0, [], 0, List.nil_prefix⟩
  | @unanswered entry _ _ => exact ⟨entry.opened, [], 0, by simp⟩
  | @answered entry response n _ _ => exact ⟨entry.opened, response, n, by simp⟩
  | @collected time response n _ => exact ⟨time, response, n, List.prefix_refl _⟩
  | @neglected time _ _ => exact ⟨time, [], 0, by simp⟩
  | @dropped time response n _ _ => exact ⟨time, response, n, by simp⟩

private theorem early (h : Standing timeout s id ms) {time : Nat} {response : Payload}
    (hopened : .opened time ∈ ms) (haccepted : .accepted response ∈ ms)
    (hearly : s.now - time < timeout) :
    s.table.peek id = some response ∨ .handed response ∈ ms := by
  cases h with
  | unopened _ => cases hopened
  | unanswered _ _ => simp at haccepted
  | answered n hfound hresponse =>
    obtain rfl : response = _ := by simpa [List.mem_replicate] using haccepted
    exact .inl (by rw [RequestTable.peek, hfound, Option.bind_some, hresponse])
  | collected n _ =>
    obtain rfl : response = _ := by simpa [List.mem_replicate] using haccepted
    exact .inr (by simp)
  | neglected _ _ => simp at haccepted
  | dropped n _ hexpired =>
    obtain rfl : time = _ := by simpa [List.mem_replicate] using hopened
    omega

end Standing

end

private theorem marks_append (id : String) (es fs : List Event) :
    marks id (es ++ fs) = marks id es ++ marks id fs :=
  List.filterMap_append

private theorem marks_singleton (id : String) (e : Event) : marks id [e] = (e.mark? id).toList := by
  cases hmark : e.mark? id <;> simp [marks, hmark]

private theorem mem_opened {id : String} {time : Nat} {es : List Event}
    (h : .opened time ∈ marks id es) : id ∈ opened es := by
  obtain ⟨e, he, hmark⟩ := List.mem_filterMap.mp h
  refine List.mem_filterMap.mpr ⟨e, he, ?_⟩
  cases e with
  | request _ own _ output =>
    simp only [Event.mark?] at hmark
    split at hmark
    · next hopened => simp [Event.opens?, hopened.1, hopened.2]
    · cases hmark
  | respond _ _ =>
    simp only [Event.mark?] at hmark
    split at hmark <;> cases hmark
  | peek _ response =>
    cases response with
    | none => cases hmark
    | some _ =>
      simp only [Event.mark?] at hmark
      split at hmark <;> cases hmark
  | count _ => cases hmark
  | look _ _ found =>
    cases found with
    | absent => cases hmark
    | pending _ => cases hmark
    | answer _ =>
      simp only [Event.mark?] at hmark
      split at hmark <;> cases hmark
  | expiry _ _ => cases hmark
  | pass _ => cases hmark

private theorem nodup_opened_left {es fs : List Event} (h : (opened (es ++ fs)).Nodup) :
    (opened es).Nodup :=
  h.sublist ((List.sublist_append_left es fs).filterMap Event.opens?)

private theorem not_mem_opened {es : List Event} {e : Event} {id : String}
    (hfresh : (opened (es ++ [e])).Nodup) (hopens : e.opens? = some id) : id ∉ opened es := by
  intro hold
  rw [opened, List.filterMap_append] at hfresh
  exact List.disjoint_of_nodup_append hfresh hold (by simp [hopens])

structure Consistent (timeout : Nat) (es : List Event) (s : Exchange) : Prop where
  distinct : s.table.Distinct
  standing : ∀ id, Standing timeout s id (marks id es)
  waits : ∀ caller w, s.waiting caller = some w →
    ∃ time, .opened time ∈ marks w.id es ∧ w.deadline = time + timeout

namespace Consistent

variable {timeout : Nat} {es : List Event} {s s' : Exchange} {e : Event}

private theorem start (now : Nat) : Consistent timeout [] (start now) where
  distinct := .empty
  standing id := .unopened (RequestTable.find?_empty id)
  waits := nofun

private theorem punctual (h : Consistent timeout es s) : s.Punctual timeout := by
  intro caller w entry hwaiting hfound
  obtain ⟨time, hopened, hdeadline⟩ := h.waits caller w hwaiting
  rw [hdeadline, ((h.standing w.id).opened_iff hfound time).mp hopened]

private theorem waiting_step (h : Step timeout s e s') {caller : Nat} {w : Waiting}
    (hwaiting : s'.waiting caller = some w) :
    s.waiting caller = some w ∨
      ∃ entry, s.table.find? w.id = some entry ∧ w.deadline = entry.opened + timeout := by
  have hlook : ∀ own id, (s.look timeout own id).2.waiting caller = some w →
      s.waiting caller = some w ∨
        ∃ entry, s.table.find? w.id = some entry ∧ w.deadline = entry.opened + timeout := by
    intro own id hlooked
    by_cases hcaller : caller = own
    · subst hcaller
      rcases s.table.collect_cases timeout id with
        ⟨_, hcollect⟩ | ⟨entry, hfound, _, hcollect⟩ | ⟨_, _, _, _, hcollect⟩
      · simp [look, hcollect] at hlooked
      · simp only [look, hcollect, Function.update_self, Option.some.injEq] at hlooked
        subst hlooked
        exact .inr ⟨entry, hfound, rfl⟩
      · simp [look, hcollect] at hlooked
    · simp only [look, Function.update_of_ne hcaller] at hlooked
      exact .inl hlooked
  cases h with
  | request _ _ => exact .inl hwaiting
  | respond _ => exact .inl hwaiting
  | peek _ => exact .inl hwaiting
  | count => exact .inl hwaiting
  | await own id _ => exact hlook own id hwaiting
  | wake _ => exact hlook _ _ hwaiting
  | @expire own _ _ _ =>
    by_cases hcaller : caller = own
    · simp [hcaller] at hwaiting
    · exact .inl (by simpa [Function.update_of_ne hcaller] using hwaiting)
  | pass _ => exact .inl hwaiting

private theorem step (h : Consistent timeout es s) (hstep : Step timeout s e s')
    (hfresh : (opened (es ++ [e])).Nodup) : Consistent timeout (es ++ [e]) s' where
  distinct := hstep.distinct h.distinct
  standing id := by
    rw [marks_append, marks_singleton]
    refine (h.standing id).step (hstep.change h.distinct h.punctual id) hstep.now_le fun hopens => ?_
    by_contra hmarks
    obtain ⟨time, response, n, hprefix⟩ := (h.standing id).one_course
    obtain ⟨m, ms, hcons⟩ := List.exists_cons_of_ne_nil hmarks
    rw [hcons, List.cons_prefix_cons] at hprefix
    have hopened : .opened time ∈ marks id es := by
      rw [hcons, hprefix.1]
      exact List.mem_cons_self ..
    exact not_mem_opened hfresh hopens (mem_opened hopened)
  waits caller w hwaiting := by
    rw [marks_append]
    rcases waiting_step hstep hwaiting with hold | ⟨entry, hfound, hdeadline⟩
    · obtain ⟨time, hopened, hdeadline⟩ := h.waits caller w hold
      exact ⟨time, List.mem_append_left _ hopened, hdeadline⟩
    · have hopened := ((h.standing w.id).opened_iff hfound entry.opened).mpr rfl
      exact ⟨entry.opened, List.mem_append_left _ hopened, hdeadline⟩

private theorem goes (h : Consistent timeout es s) {more : List Event}
    (hgoes : Goes timeout s more s')
    (hfresh : (opened (es ++ more)).Nodup) : Consistent timeout (es ++ more) s' := by
  induction hgoes with
  | refl => simpa using h
  | snoc _ hstep ih =>
    rw [← List.append_assoc] at hfresh ⊢
    exact (ih (nodup_opened_left hfresh)).step hstep hfresh

private theorem leaves (h : Consistent timeout es s) (hstep : Step timeout s e s') {id : String}
    (hopens : e.opens? ≠ some id) {entry : OpenRequest} {response : Payload}
    (hfound : s.table.find? id = some entry) (hresponse : entry.response = some response) :
    s'.table.find? id = some entry ∨ s'.table.find? id = none ∧
      (e.mark? id = some (.handed response) ∨ e.MayDrop id ∧ timeout ≤ s.now - entry.opened) := by
  cases hstep.change h.distinct h.punctual id with
  | quiet hsame _ => exact .inl (hsame.trans hfound)
  | shown hsame _ _ => exact .inl (hsame.trans hfound)
  | opened _ _ hopened _ => exact absurd hopened hopens
  | answered hfound' hnone _ _ =>
    obtain rfl := Option.some.inj (hfound.symm.trans hfound')
    cases hresponse.symm.trans hnone
  | handed hfound' hresponse' hgone hmark =>
    obtain rfl := Option.some.inj (hfound.symm.trans hfound')
    obtain rfl := Option.some.inj (hresponse.symm.trans hresponse')
    exact .inr ⟨hgone, .inl hmark⟩
  | dropped hfound' hexpired hgone hdrops _ =>
    obtain rfl := Option.some.inj (hfound.symm.trans hfound')
    exact .inr ⟨hgone, .inr ⟨hdrops, hexpired⟩⟩

private theorem stays_gone (h : Consistent timeout es s) {id : String} (hopened : id ∈ opened es)
    (hgone : s.table.find? id = none) {more : List Event} (hgoes : Goes timeout s more s')
    (hfresh : (opened (es ++ more)).Nodup) :
    marks id more = [] ∧ s'.table.find? id = none := by
  induction hgoes with
  | refl => exact ⟨rfl, hgone⟩
  | @snoc more e s₁ s₂ hgoes hstep ih =>
    rw [← List.append_assoc] at hfresh
    obtain ⟨hmarks, hnone⟩ := ih (nodup_opened_left hfresh)
    have hconsistent := h.goes hgoes (nodup_opened_left hfresh)
    have hother : ∀ {entry} {P : Prop}, s₁.table.find? id = some entry → P := fun hfound => by
      cases hnone.symm.trans hfound
    rw [marks_append, marks_singleton, hmarks, List.nil_append]
    cases hstep.change hconsistent.distinct hconsistent.punctual id with
    | quiet hsame hmark => exact ⟨by rw [hmark]; rfl, hsame.trans hnone⟩
    | shown _ hpeek _ =>
      obtain ⟨_, hfound, _⟩ := Option.bind_eq_some_iff.mp hpeek
      exact hother hfound
    | opened _ _ hopens _ =>
      refine absurd ?_ (not_mem_opened hfresh hopens)
      rw [opened, List.filterMap_append]
      exact List.mem_append_left _ hopened
    | answered hfound _ _ _ => exact hother hfound
    | handed hfound _ _ _ => exact hother hfound
    | dropped hfound _ _ _ _ => exact hother hfound

end Consistent

/-- The protocol of the table, whatever the callers do and in whatever order, as long as no
identifier is used twice. What happens with a request is the beginning of one course: it is opened,
answered once, shown some number of times with that answer, and the answer is handed out once. It
is answered only while its entry is in the table. An answer leaves the table by being handed out,
or by reaping or the expiry of someone who waited once the whole timeout has passed; until then it
is there or was handed out. Nothing happens with a request any more once its entry has left. -/
theorem Goes.keeps_protocol {timeout now : Nat} {es : List Event} {s : Exchange}
    (h : Goes timeout (start now) es s) (hfresh : (opened es).Nodup) (id : String) :
    (∃ time response n, marks id es <+: .opened time :: .accepted response ::
      (List.replicate n (.shown response) ++ [.handed response])) ∧
    (∀ e s' response, Step timeout s e s' → e.mark? id = some (.accepted response) →
      ∃ entry, s.table.find? id = some entry ∧ entry.response = none) ∧
    (∀ e s' entry response, Step timeout s e s' → (opened (es ++ [e])).Nodup →
      s.table.find? id = some entry → entry.response = some response →
      s'.table.find? id = some entry ∨ s'.table.find? id = none ∧
        (e.mark? id = some (.handed response) ∨
          e.MayDrop id ∧ timeout ≤ s.now - entry.opened)) ∧
    (∀ time response, .opened time ∈ marks id es → .accepted response ∈ marks id es →
      s.now - time < timeout →
      s.table.peek id = some response ∨ .handed response ∈ marks id es) ∧
    (id ∈ opened es → s.table.find? id = none → ∀ more s', Goes timeout s more s' →
      (opened (es ++ more)).Nodup → marks id more = [] ∧ s'.table.find? id = none) := by
  have hconsistent : Consistent timeout es s := by
    simpa using (Consistent.start now).goes h (by simpa using hfresh)
  have hstanding := hconsistent.standing id
  refine ⟨hstanding.one_course, ?_, ?_, ?_, ?_⟩
  · intro e s' response hstep haccepted
    cases hstep.change hconsistent.distinct hconsistent.punctual id with
    | quiet _ hmark => cases haccepted.symm.trans hmark
    | shown _ _ hmark => cases haccepted.symm.trans hmark
    | opened _ _ _ hmark => cases haccepted.symm.trans hmark
    | answered hfound hresponse _ _ => exact ⟨_, hfound, hresponse⟩
    | handed _ _ _ hmark => cases haccepted.symm.trans hmark
    | dropped _ _ _ _ hmark => cases haccepted.symm.trans hmark
  · intro e s' entry response hstep hfresh' hfound hresponse
    refine hconsistent.leaves hstep (fun hopens => ?_) hfound hresponse
    have hopened := (hstanding.opened_iff hfound entry.opened).mpr rfl
    exact not_mem_opened hfresh' hopens (mem_opened hopened)
  · intro time response hopened haccepted hearly
    exact hstanding.early hopened haccepted hearly
  · intro hopened hgone more s' hgoes hfresh'
    exact hconsistent.stays_gone hopened hgone hgoes hfresh'

/-- Two callers wait for a request when its answer comes. One wakes up and gets it; a second answer
is refused, and the other caller waits until the deadline in vain. -/
theorem twoCallers_keep_protocol :
    let answer : Payload := [("message", .string "hello"), ("request", .string "r")]
    ∃ es s, Goes 30 (start 0) es s ∧ (opened es).Nodup ∧
      marks "r" es = [.opened 0, .accepted (answer.erase "request"),
        .shown (answer.erase "request"), .handed (answer.erase "request")] ∧
      ∀ more s', Goes 30 s more s' → (opened (es ++ more)).Nodup → marks "r" more = [] := by
  intro answer
  let input : Payload := [("path", .string "/say")]
  have hrun : ∃ es s, Goes 30 (start 0) es s ∧ opened es = ["r"] ∧
      marks "r" es = [.opened 0, .accepted (answer.erase "request"),
        .shown (answer.erase "request"), .handed (answer.erase "request")] ∧
      s.table.find? "r" = none := by
    refine ⟨_, _, ((((((((Goes.refl.snoc (.request "r" input)).snoc (.await 0 "r" rfl)).snoc
      (.await 1 "r" rfl)).snoc (.respond answer)).snoc (.peek "r")).snoc
      (@Step.wake 30 _ 0 ⟨"r", 30⟩ rfl)).snoc (.respond answer)).snoc (.pass 30)).snoc
      (@Step.expire 30 _ 1 ⟨"r", 30⟩ rfl (by decide)), ?_, ?_, ?_⟩
    · rfl
    · rfl
    · rfl
  obtain ⟨es, s, hgoes, hopened, hmarks, hgone⟩ := hrun
  have hfresh : (opened es).Nodup := by simp [hopened]
  obtain ⟨_, _, _, _, hstays⟩ := hgoes.keeps_protocol hfresh "r"
  refine ⟨es, s, hgoes, hfresh, hmarks, fun more s' hmore hfresh' => ?_⟩
  exact (hstays (by simp [hopened]) hgone more s' hmore hfresh').1

end Exchange

end ConceptSync
