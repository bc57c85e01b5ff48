import ConceptSync.Proofs.Engine.Following

set_option autoImplicit false
set_option relaxedAutoImplicit false

/-!
Runs that have the store for themselves. As long as nobody else adds records, those of a run are the
latest of the store; so what it keeps next has an identifier of its own, as long as the run is not
as long as there are identifiers.
-/

namespace ConceptSync

variable {σ : Type} {engine : Engine σ}

private theorem Run.latest_of_opening {action : ActionId} {input : Payload}
    {p : Progress σ RecordStore}
    {l : Loop σ RecordStore} {root : Record} (h : opening engine action input p = some l)
    (hstack : l.stack = [.complete action root]) : root.seq = l.progress.stage.store.latest := by
  obtain ⟨record, output, hrecord, _, hkeep, _⟩ := opening_cases h
  rw [hstack] at hrecord
  cases hrecord
  obtain ⟨hseq, hlatest⟩ := RecordStore.seq_append (RecordStore.append_of_persist hkeep)
  rw [hseq, hlatest, Int.natCast_add]
  rfl

private theorem latest_of_kept {rule : Rule σ} {action : ActionId} {input : Payload}
    {trigger child : Record} {p q : Progress σ RecordStore}
    (h : step engine (.invoke rule action input trigger) p = (.ok [.complete action child], q)) :
    child.Issued ∧ child.seq = p.stage.store.latest + 1 ∧
      q.stage.store.latest = p.stage.store.latest + 1 := by
  rcases keeper_step engine (.invoke rule action input trigger) p with
    ⟨_, hnone⟩ | ⟨_, _, _, _, _, _, draft, hwork, _, _, _, hstore, hnext⟩
  · exact absurd rfl ((hnone _ (by rw [h]) _ (List.mem_cons_self ..)).2 action child)
  · cases hwork
    obtain ⟨record, hkeep, heq⟩ := hnext _ (by rw [h])
    cases heq
    rw [h] at hstore
    have happend := RecordStore.appendChild_of_persistChild hkeep
    exact ⟨(RecordStore.appendChild_ok happend).1,
      RecordStore.seq_appendChild (Prod.ext happend hstore)⟩

def Loop.Undisturbed (l : Loop σ RecordStore) : Prop :=
  ∀ r ∈ l.progress.records, l.progress.stage.store.latest < r.seq + l.progress.records.length

namespace Loop.Undisturbed

variable {l l' : Loop σ RecordStore}

theorem opening {action : ActionId} {input : Payload} {p : Progress σ RecordStore} {root : Record}
    (hopening : Run.opening engine action input p = some l)
    (hstack : l.stack = [.complete action root]) (hrecords : l.progress.records = [root]) :
    l.Undisturbed := by
  intro r hr
  rw [hrecords] at hr ⊢
  obtain rfl := List.mem_singleton.mp hr
  rw [Run.latest_of_opening hopening hstack]
  exact Int.lt_succ _

theorem turn {ms : List (Matching σ)} (h : l.Undisturbed) (hcourse : Run.Course engine False ms l)
    (hturn : l.turn engine = .inl l') : l'.Undisturbed := by
  obtain ⟨work, rest, next, hstack, _, hstep, _⟩ := Loop.turn_cases hturn
  obtain ⟨stack, q⟩ := l'
  change step engine work l.progress = (.ok next, q) at hstep
  have hkeeper := keeper_step engine work l.progress
  have hcontinues := continues_step engine work l.progress
  rw [hstep] at hkeeper hcontinues
  rcases hkeeper with ⟨hstore, -⟩ | ⟨rule, action, input, trigger, _, _, _, rfl, -⟩
  · have hrecords : q.records = l.progress.records := by
      rw [Progress.records, Progress.records, hstore, hcontinues.id]
    intro r hr
    change q.stage.store.latest < r.seq + q.records.length
    rw [hstore, hrecords]
    exact h r (hrecords ▸ hr)
  · have htrigger : trigger ∈ l.progress.records :=
      hcourse.queued (.invoke rule action input trigger) (by simp [hstack])
    have hdispatched := Progress.dispatched engine rule action input hcourse.reachable htrigger
    rw [hstep] at hdispatched
    cases hdispatched with
    | refused _ _ => exact h
    | failed _ _ _ _ => exact h
    | @kept child _ hkept =>
      obtain ⟨-, hseq, hlatest⟩ := latest_of_kept hstep
      intro r hr
      simp only [hkept.records, List.length_append, List.length_singleton] at hr ⊢
      rcases List.mem_append.mp hr with hold | hnew
      · have hfirst := h r hold
        omega
      · obtain rfl := List.mem_singleton.mp hnew
        omega

theorem reaches {ms : List (Matching σ)} (h : l.Undisturbed)
    (hcourse : Run.Course engine False ms l) (hreach : Loop.Reaches engine l l') :
    l'.Undisturbed := by
  induction hreach with
  | refl => exact h
  | tail hreach hturn ih =>
    obtain ⟨_, hreached⟩ := hcourse.reaches hreach
    exact ih.turn hreached hturn

theorem unseen {ms : List (Matching σ)} (h : l.Undisturbed) (hcourse : Run.Course engine False ms l)
    (hshort : l.progress.records.length < Uuid.supply) {rule : Rule σ} {action : ActionId}
    {input : Payload} {trigger child : Record} {q : Progress σ RecordStore}
    (hstep : step engine (.invoke rule action input trigger) l.progress =
      (.ok [.complete action child], q))
    (hkept : Kept engine action input trigger child l.progress q) :
    child.id ∉ q.run.seen := by
  rw [hkept.run, hcourse.matched.mem_seen]
  rintro ⟨m, hm, hid⟩
  have hold := hcourse.mem_records_of_matching m hm
  have hlatest := h m.record hold
  obtain ⟨hissued, hseq, -⟩ := latest_of_kept hstep
  have hlater := hkept.latest m.record hold
  exact (hcourse.issued m hm).id_ne_of_lt hissued hlater (by omega) hid.symm

end Loop.Undisturbed

end ConceptSync
