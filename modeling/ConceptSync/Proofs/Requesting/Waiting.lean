import ConceptSync.Proofs.Requesting.Protocol

set_option autoImplicit false
set_option relaxedAutoImplicit false

/-!
Waiting for an answer as the programs do it. A caller who waits alone, and several callers who wait
while the answer comes later, do nothing but what the protocol of the table allows.
-/

namespace ConceptSync

namespace Exchange

private theorem Goes.trans {timeout : Nat} {s s' s'' : Exchange} {es more : List Event}
    (h : Goes timeout s es s') (hmore : Goes timeout s' more s'') :
    Goes timeout s (es ++ more) s'' := by
  induction hmore with
  | refl => simpa using h
  | snoc _ hstep ih => exact List.append_assoc .. ▸ ih.snoc hstep

private theorem Goes.single {timeout : Nat} {s s' : Exchange} {e : Event}
    (h : Step timeout s e s') :
    Goes timeout s [e] s' :=
  Goes.refl.snoc h

def waits? (id : String) : Waiter → Option Waiting
  | .done _ => none
  | .waiting deadline => some ⟨id, deadline⟩

def Seated (id : String) (first : Nat) (ws : List Waiter) (s : Exchange) : Prop :=
  ∀ i, s.waiting (first + i) = ws[i]?.bind (waits? id)

private theorem seated_cons {id : String} {first : Nat} {w : Waiter} {ws : List Waiter}
    {s : Exchange} :
    Seated id first (w :: ws) s ↔ s.waiting first = waits? id w ∧ Seated id (first + 1) ws s := by
  constructor
  · intro h
    refine ⟨by simpa using h 0, fun i => ?_⟩
    have hnext := h (i + 1)
    rwa [List.getElem?_cons_succ, ← Nat.add_assoc, Nat.add_right_comm] at hnext
  · rintro ⟨hhead, htail⟩ i
    cases i with
    | zero => simpa using hhead
    | succ i =>
      rw [List.getElem?_cons_succ, ← Nat.add_assoc, Nat.add_right_comm]
      exact htail i

def Comes (timeout : Nat) (id : String) (first : Nat) (s : Exchange)
    (result : List Waiter × RequestTable) : Prop :=
  ∃ es s', Goes timeout s es s' ∧ s'.now = s.now ∧ s'.table = result.2 ∧
    Seated id first result.1 s' ∧ ∀ caller < first, s'.waiting caller = s.waiting caller

variable {timeout : Nat} {id : String}

private theorem Comes.refl {first : Nat} {s : Exchange} {ws : List Waiter}
    (h : Seated id first ws s) :
    Comes timeout id first s (ws, s.table) :=
  ⟨[], s, .refl, rfl, rfl, h, fun _ _ => rfl⟩

private theorem Comes.cons {first : Nat} {s s' : Exchange} {es : List Event} {w : Waiter}
    {result : List Waiter × RequestTable} (hgoes : Goes timeout s es s') (hnow : s'.now = s.now)
    (hwaits : s'.waiting = Function.update s.waiting first (waits? id w))
    (h : Comes timeout id (first + 1) s' result) :
    Comes timeout id first s (w :: result.1, result.2) := by
  obtain ⟨more, s'', hmore, hnow', htable, hseated, hbefore⟩ := h
  refine ⟨_, s'', hgoes.trans hmore, hnow'.trans hnow, htable, seated_cons.mpr ⟨?_, hseated⟩,
    fun caller hcaller => ?_⟩
  · rw [hbefore first (Nat.lt_succ_self first), hwaits, Function.update_self]
  · rw [hbefore caller (Nat.lt_succ_of_lt hcaller), hwaits,
      Function.update_of_ne (Nat.ne_of_lt hcaller)]

private theorem Comes.skip {first : Nat} {s : Exchange} {w : Waiter}
    {result : List Waiter × RequestTable} (hwaits : s.waiting first = waits? id w)
    (h : Comes timeout id (first + 1) s result) :
    Comes timeout id first s (w :: result.1, result.2) :=
  .cons .refl rfl (by rw [← hwaits, Function.update_eq_self]) h

private theorem goes_startWaiting (timeout : Nat) (id : String) (s : Exchange) (caller : Nat)
    (hfree : s.waiting caller = none) : ∃ es s', Goes timeout s es s' ∧ s'.now = s.now ∧
      s'.table = (s.table.startWaiting timeout s.now id).2 ∧
      s'.waiting = Function.update s.waiting caller
        (waits? id (s.table.startWaiting timeout s.now id).1) := by
  have hlook : Step timeout s _ _ := .await caller id hfree
  rcases s.table.collect_cases timeout id with
    ⟨_, hcollect⟩ | ⟨entry, _, _, hcollect⟩ | ⟨_, _, _, _, hcollect⟩
  · simp only [look, hcollect, RequestTable.startWaiting] at hlook ⊢
    exact ⟨_, _, .single hlook, rfl, rfl, rfl⟩
  · simp only [look, hcollect, RequestTable.startWaiting] at hlook ⊢
    split
    · exact ⟨_, _, .single hlook, rfl, rfl, rfl⟩
    · next hlate =>
      refine ⟨_, _, (Goes.single hlook).snoc (@Step.expire timeout _ caller
        ⟨id, entry.opened + timeout⟩ (by simp) (Nat.not_lt.mp hlate)), rfl, rfl, ?_⟩
      simp [waits?]
  · simp only [look, hcollect, RequestTable.startWaiting] at hlook ⊢
    exact ⟨_, _, .single hlook, rfl, rfl, rfl⟩

private theorem comes_startAll (timeout : Nat) (id : String) (n first : Nat) {s : Exchange}
    (hfree : ∀ i, s.waiting (first + i) = none) :
    Comes timeout id first s (RequestTable.startAll timeout s.now id n s.table) := by
  induction n generalizing first s with
  | zero => exact .refl fun i => by simpa using hfree i
  | succ n ih =>
    obtain ⟨es, s', hgoes, hnow, htable, hwaits⟩ :=
      goes_startWaiting timeout id s first (hfree 0)
    have hbehind : ∀ i, s'.waiting (first + 1 + i) = none := fun i => by
      rw [hwaits, Function.update_of_ne (by omega), Nat.add_assoc]
      exact hfree (1 + i)
    have hrest := ih _ hbehind
    rw [hnow, htable] at hrest
    exact .cons hgoes hnow hwaits hrest

private theorem comes_giveUp (timeout now : Nat) (ws : List Waiter) {first : Nat} {s : Exchange}
    (hnow : now ≤ s.now + 1) (hseated : Seated id first ws s) :
    Comes timeout id first s (RequestTable.giveUp timeout now id ws s.table) := by
  induction ws generalizing first s with
  | nil => exact .refl hseated
  | cons w ws ih =>
    obtain ⟨hhead, htail⟩ := seated_cons.mp hseated
    cases w with
    | done response => exact .skip hhead (ih hnow htail)
    | waiting deadline =>
      simp only [RequestTable.giveUp]
      split
      · next hlate =>
        refine .cons (w := .done _) (.single (.expire hhead (by simp only; omega))) rfl rfl
          (ih (s := ⟨s.table.remove id, s.now, Function.update s.waiting first none⟩) hnow
            fun i => ?_)
        have hne : first + 1 + i ≠ first := by omega
        simpa [Function.update_of_ne hne] using htail i
      · exact .skip hhead (ih hnow htail)

private theorem comes_wake (timeout : Nat) (ws : List Waiter) {first : Nat} {s : Exchange}
    (hseated : Seated id first ws s) :
    Comes timeout id first s (RequestTable.wake timeout id ws s.table) := by
  induction ws generalizing first s with
  | nil => exact .refl hseated
  | cons w ws ih =>
    obtain ⟨hhead, htail⟩ := seated_cons.mp hseated
    cases w with
    | done response => exact .skip hhead (ih htail)
    | waiting deadline =>
      simp only [RequestTable.wake]
      rcases s.table.collect_cases timeout id with
        ⟨_, hcollect⟩ | ⟨_, _, _, hcollect⟩ | ⟨_, _, _, _, hcollect⟩
      · simp only [hcollect]
        exact .refl hseated
      · simp only [hcollect]
        exact .refl hseated
      · have hwake : Step timeout s _ _ := .wake hhead
        simp only [look, hcollect] at hwake ⊢
        refine .cons (w := .done _) (.single hwake) rfl rfl (.refl fun i => ?_)
        have hne : first + 1 + i ≠ first := by omega
        simpa [Function.update_of_ne hne] using htail i

theorem goes_awaitWhileResponding (t : RequestTable) (timeout now : Nat) (id : String)
    (callers delay : Nat) (input : Payload) :
    ∃ es s, Goes timeout ⟨t, now, fun _ => none⟩ es s ∧
      s.table = (t.awaitWhileResponding timeout now id callers delay input).2 ∧
      .respond input (t.awaitWhileResponding timeout now id callers delay input).1.2.1 ∈ es := by
  rcases hstarted : RequestTable.startAll timeout now id callers t with ⟨ws₁, t₁⟩
  rcases htired : RequestTable.giveUp timeout (now + delay) id ws₁ t₁ with ⟨ws₂, t₂⟩
  rcases hanswered : t₂.respond input with ⟨answer, t₃⟩
  rcases hwoken : RequestTable.wake timeout id ws₂ t₃ with ⟨ws₃, t₄⟩
  let finished := RequestTable.lastDeadline (now + delay) ws₃
  simp only [RequestTable.awaitWhileResponding, hstarted, htired, hanswered, hwoken]
  have hstart := comes_startAll timeout id callers 0 (s := ⟨t, now, fun _ => none⟩) fun _ => rfl
  simp only [hstarted] at hstart
  obtain ⟨_, s₁, hstart, hnow₁, rfl, hseated₁, _⟩ := hstart
  have htire := comes_giveUp timeout (now + delay) ws₁
    (s := { s₁ with now := s₁.now + delay }) (by simp [hnow₁]) hseated₁
  simp only [htired] at htire
  obtain ⟨_, s₂, htire, _, rfl, hseated₂, _⟩ := htire
  have hrespond : Step timeout s₂ _ _ := .respond input
  simp only [hanswered] at hrespond
  have hwake := comes_wake timeout ws₂ (s := { s₂ with table := t₃ }) hseated₂
  simp only [hwoken] at hwake
  obtain ⟨_, s₃, hwake, _, rfl, hseated₃, _⟩ := hwake
  obtain ⟨_, s₄, hend, _, htable, _, _⟩ := comes_giveUp timeout (finished + 1) ws₃
    (s := { s₃ with now := s₃.now + (finished - s₃.now) }) (by simp only; omega) hseated₃
  refine ⟨_, s₄, (((((hstart.snoc (.pass delay)).trans htire).snoc hrespond).trans hwake).snoc
    (.pass (finished - s₃.now))).trans hend, htable, ?_⟩
  simp

theorem goes_awaitResponse {κ : Type} (timeout : Nat) (id : String) (w : World κ) :
    ∃ es s, Goes timeout ⟨w.requests, w.clock.now, fun _ => none⟩ es s ∧
      s.table = (World.awaitResponse timeout id w).2.requests ∧
      s.now = (World.awaitResponse timeout id w).2.clock.now := by
  have hlook : Step timeout ⟨w.requests, w.clock.now, fun _ => none⟩ _ _ := .await 0 id rfl
  rcases w.requests.collect_cases timeout id with
    ⟨_, hcollect⟩ | ⟨entry, _, _, hcollect⟩ | ⟨_, _, _, _, hcollect⟩
  · simp only [look, hcollect] at hlook
    refine ⟨_, _, .single hlook, ?_⟩
    simp [World.awaitResponse, World.onRequests, bind, Effect.bind, Effect.step, hcollect, pure]
  · simp only [look, hcollect] at hlook
    have hpass : ∀ time, Goes timeout _ _ _ := fun time =>
      (Goes.single hlook).snoc (.pass (max w.clock.now time - w.clock.now))
    have hnow : ∀ time, w.clock.now + (max w.clock.now time - w.clock.now) = max w.clock.now time :=
      fun time => by omega
    have hexpire := (hpass (entry.opened + timeout)).snoc (@Step.expire timeout _ 0
      ⟨id, entry.opened + timeout⟩ (by simp) (by simp only [hnow]; omega))
    rcases hdeadline : w.clock.deadline with _ | deadline
    · refine ⟨_, _, hexpire, ?_⟩
      simp [World.awaitResponse, World.onRequests, World.waitUntil, bind, Effect.bind, Effect.step,
        hcollect, hdeadline, hnow]
    · by_cases hearly : deadline < entry.opened + timeout
      · refine ⟨_, _, hpass deadline, ?_⟩
        simp [World.awaitResponse, World.onRequests, World.waitUntil, bind, Effect.bind,
          Effect.step, hcollect, hdeadline, hnow, hearly]
      · refine ⟨_, _, hexpire, ?_⟩
        simp [World.awaitResponse, World.onRequests, World.waitUntil, bind, Effect.bind,
          Effect.step, hcollect, hdeadline, hnow, hearly]
  · simp only [look, hcollect] at hlook
    refine ⟨_, _, .single hlook, ?_⟩
    simp [World.awaitResponse, World.onRequests, bind, Effect.bind, Effect.step, hcollect, pure]

end Exchange

end ConceptSync
