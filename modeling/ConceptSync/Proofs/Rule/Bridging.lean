import ConceptSync.Proofs.Effect
import ConceptSync.Proofs.Frame.Resolving
import ConceptSync.Rule

set_option autoImplicit false
set_option relaxedAutoImplicit false

/-!
Bridging a query whose answers depend on its arguments alone. The walk over the frames either gets
an answer for each of them and makes one frame of each row that matches, or ends at the first frame
without an answer. What the query was called with is read off the world it was called in.
-/

namespace ConceptSync

def Outcome.map {α β : Type} (g : α → β) : Outcome α → Outcome β
  | .ok a => .ok (g a)
  | .failed failure => .failed failure
  | .broken b => .broken b

namespace Frame

def asked (answer : Payload → Outcome (List Payload)) (input : Template) (f : Frame) :
    Outcome (List Payload) :=
  match f.resolve input with
  | .error e => .failed (.engine e)
  | .ok args => answer args

def Answered (answer : Payload → Outcome (List Payload)) (input : Template) (f : Frame) : Prop :=
  ∃ rows, f.asked answer input = .ok rows

/-- A variable of the input is unbound, or the query fails. -/
def Fails (answer : Payload → Outcome (List Payload)) (input : Template) (f : Frame)
    (failure : Failure) : Prop :=
  (∃ v, f.missing? input.vars = some v ∧ failure = .engine (.unbound v)) ∨
    ∃ args, f.resolve input = .ok args ∧ answer args = .failed failure

def rows (answer : Payload → Outcome (List Payload)) (input : Template) (f : Frame) :
    List Payload :=
  match f.asked answer input with
  | .ok rows => rows
  | _ => []

/-- One frame for each row that matches. -/
def fanOut (answer : Payload → Outcome (List Payload)) (input output : Template) (f : Frame) :
    List Frame :=
  (f.rows answer input).filterMap (f.match? output)

def questions (input : Template) (frames : List Frame) : List Payload :=
  frames.filterMap fun f => (f.resolve input).toOption

def called {σ : Type} (call : Payload → Effect σ (List Payload)) (questions : List Payload)
    (s : σ) : σ :=
  questions.foldl (fun s args => (call args s).2) s

section Bridging

variable {σ : Type} {call : Payload → Effect σ (List Payload)}
  {answer : Payload → Outcome (List Payload)} {input output : Template} {f : Frame}

private theorem asked_eq_failed_iff {failure : Failure} :
    f.asked answer input = .failed failure ↔ f.Fails answer input failure := by
  unfold asked Fails
  cases hresolve : f.resolve input with
  | error e =>
    obtain ⟨v, hv, rfl⟩ := resolve_eq_error_iff.mp hresolve
    simp [hv, eq_comm]
  | ok args => simp [missing?_of_resolve hresolve]

private theorem questions_append (earlier later : List Frame) :
    questions input (earlier ++ later) = questions input earlier ++ questions input later :=
  List.filterMap_append

private theorem called_append (earlier later : List Payload) (s : σ) :
    called call (earlier ++ later) s = called call later (called call earlier s) :=
  List.foldl_append

private theorem bridge_cons_of_answered (hanswer : ∀ args s, (call args s).1 = answer args)
    (hf : f.Answered answer input) (rest : List Frame) (s : σ) :
    bridge call input output (f :: rest) s =
      let walked := bridge call input output rest (called call (questions input [f]) s)
      (walked.1.map (f.fanOut answer input output ++ ·), walked.2) := by
  obtain ⟨given, hgiven⟩ := hf
  have hmade : f.fanOut answer input output = given.filterMap (f.match? output) := by
    simp only [fanOut, rows, hgiven]
  unfold asked at hgiven
  cases hresolve : f.resolve input with
  | error e =>
    rw [hresolve] at hgiven
    cases hgiven
  | ok args =>
    rw [hresolve] at hgiven
    have hasked : questions input [f] = [args] := by simp [questions, hresolve, Except.toOption]
    have hcall : call args s = (.ok given, called call [args] s) :=
      Prod.ext ((hanswer args s).trans hgiven) rfl
    simp only [bridge, hresolve, hasked, hmade]
    refine (Effect.bind_of_ok hcall).trans ?_
    change Effect.bind (bridge call input output rest) _ _ = _
    unfold Effect.bind
    rcases bridge call input output rest (called call [args] s) with ⟨made | failure | b, last⟩ <;>
      rfl

private theorem bridge_cons_of_unanswered (hanswer : ∀ args s, (call args s).1 = answer args)
    (hf : ¬f.Answered answer input) (rest : List Frame) (s : σ) :
    bridge call input output (f :: rest) s =
      ((f.asked answer input).map fun _ => [], called call (questions input [f]) s) := by
  unfold Answered asked at hf
  unfold asked
  cases hresolve : f.resolve input with
  | error e =>
    have hasked : questions input [f] = [] := by simp [questions, hresolve, Except.toOption]
    simp only [bridge, hresolve, hasked]
    rfl
  | ok args =>
    rw [hresolve] at hf
    have hasked : questions input [f] = [args] := by simp [questions, hresolve, Except.toOption]
    have hafter : called call [args] s = (call args s).2 := rfl
    simp only [← hanswer args s, bridge, hresolve, hasked, hafter] at hf ⊢
    change Effect.bind (call args) _ s = _
    unfold Effect.bind
    rcases hcall : call args s with ⟨given | failure | b, last⟩
    · exact absurd ⟨given, by rw [hcall]⟩ hf
    · rfl
    · rfl

private theorem bridge_append (hanswer : ∀ args s, (call args s).1 = answer args)
    {earlier : List Frame} (hearlier : ∀ f ∈ earlier, f.Answered answer input)
    (later : List Frame) (s : σ) :
    bridge call input output (earlier ++ later) s =
      let walked := bridge call input output later (called call (questions input earlier) s)
      (walked.1.map (earlier.flatMap (fanOut answer input output) ++ ·), walked.2) := by
  induction earlier generalizing s with
  | nil =>
    have hmap : ∀ o : Outcome (List Frame), o.map ([] ++ ·) = o := by
      intro o
      cases o <;> rfl
    exact Prod.ext (hmap _).symm rfl
  | cons f rest ih =>
    obtain ⟨hf, hrest⟩ := List.forall_mem_cons.mp hearlier
    have hmap : ∀ (front back : List Frame) (o : Outcome (List Frame)),
        (o.map (back ++ ·)).map (front ++ ·) = o.map ((front ++ back) ++ ·) := by
      intro front back o
      cases o <;> simp [Outcome.map]
    have hquestions : questions input (f :: rest) = questions input [f] ++ questions input rest :=
      questions_append [f] rest
    rw [List.cons_append, bridge_cons_of_answered hanswer hf, ih hrest, hquestions, called_append]
    exact Prod.ext (hmap _ _ _) rfl

private theorem bridge_of_answered (hanswer : ∀ args s, (call args s).1 = answer args)
    {frames : List Frame} (h : ∀ f ∈ frames, f.Answered answer input) (s : σ) :
    bridge call input output frames s =
      (.ok (frames.flatMap (fanOut answer input output)),
        called call (questions input frames) s) := by
  have hall : bridge call input output (frames ++ []) s = _ := bridge_append hanswer h [] s
  rw [List.append_nil] at hall
  rw [hall]
  simp only [bridge]
  exact Prod.ext (congrArg Outcome.ok (List.append_nil _)) rfl

private theorem bridge_of_unanswered (hanswer : ∀ args s, (call args s).1 = answer args)
    {earlier : List Frame} (hearlier : ∀ f ∈ earlier, f.Answered answer input)
    (hf : ¬f.Answered answer input) (later : List Frame) (s : σ) :
    bridge call input output (earlier ++ f :: later) s =
      ((f.asked answer input).map fun _ => [],
        called call (questions input (earlier ++ [f])) s) := by
  rw [bridge_append hanswer hearlier, bridge_cons_of_unanswered hanswer hf, questions_append,
    called_append]
  refine Prod.ext ?_ rfl
  cases hasked : f.asked answer input with
  | ok given => exact absurd ⟨given, hasked⟩ hf
  | failed failure => rfl
  | broken b => rfl

private theorem answered_or_split (answer : Payload → Outcome (List Payload)) (input : Template)
    (frames : List Frame) :
    (∀ f ∈ frames, f.Answered answer input) ∨
      ∃ earlier f later, frames = earlier ++ f :: later ∧
        (∀ g ∈ earlier, g.Answered answer input) ∧ ¬f.Answered answer input := by
  induction frames with
  | nil => exact .inl (List.forall_mem_nil _)
  | cons f rest ih =>
    by_cases hf : f.Answered answer input
    · rcases ih with hrest | ⟨earlier, g, later, rfl, hearlier, hg⟩
      · exact .inl (List.forall_mem_cons.mpr ⟨hf, hrest⟩)
      · exact .inr ⟨f :: earlier, g, later, rfl, List.forall_mem_cons.mpr ⟨hf, hearlier⟩, hg⟩
    · exact .inr ⟨[], f, rest, rfl, List.forall_mem_nil _, hf⟩

private theorem Fails.not_answered {failure : Failure} (h : f.Fails answer input failure) :
    ¬f.Answered answer input := by
  rintro ⟨given, hgiven⟩
  rw [asked_eq_failed_iff.mpr h] at hgiven
  cases hgiven

private theorem bridge_eq_ok_iff (hanswer : ∀ args s, (call args s).1 = answer args)
    {frames : List Frame} {s s' : σ} {made : List Frame} :
    bridge call input output frames s = (.ok made, s') ↔
      (∀ f ∈ frames, f.Answered answer input) ∧
        made = frames.flatMap (fanOut answer input output) ∧
        s' = called call (questions input frames) s := by
  constructor
  · intro h
    rcases answered_or_split answer input frames with hall | ⟨earlier, f, later, rfl, hearlier, hf⟩
    · rw [bridge_of_answered hanswer hall] at h
      cases h
      exact ⟨hall, rfl, rfl⟩
    · rw [bridge_of_unanswered hanswer hearlier hf] at h
      cases hasked : f.asked answer input with
      | ok given => exact absurd ⟨given, hasked⟩ hf
      | failed failure => simp [hasked, Outcome.map] at h
      | broken b => simp [hasked, Outcome.map] at h
  · rintro ⟨hall, rfl, rfl⟩
    exact bridge_of_answered hanswer hall s

private theorem bridge_eq_failed_iff (hanswer : ∀ args s, (call args s).1 = answer args)
    {frames : List Frame} {s s' : σ} {failure : Failure} :
    bridge call input output frames s = (.failed failure, s') ↔
      ∃ earlier f later, frames = earlier ++ f :: later ∧
        (∀ g ∈ earlier, g.Answered answer input) ∧ f.Fails answer input failure ∧
        s' = called call (questions input (earlier ++ [f])) s := by
  constructor
  · intro h
    rcases answered_or_split answer input frames with hall | ⟨earlier, f, later, rfl, hearlier, hf⟩
    · rw [bridge_of_answered hanswer hall] at h
      cases h
    · rw [bridge_of_unanswered hanswer hearlier hf] at h
      cases hasked : f.asked answer input with
      | ok given => exact absurd ⟨given, hasked⟩ hf
      | failed failure' =>
        rw [hasked] at h
        cases h
        exact ⟨earlier, f, later, rfl, hearlier, asked_eq_failed_iff.mp hasked, rfl⟩
      | broken b => simp [hasked, Outcome.map] at h
  · rintro ⟨earlier, f, later, rfl, hearlier, hfails, rfl⟩
    rw [bridge_of_unanswered hanswer hearlier hfails.not_answered, asked_eq_failed_iff.mpr hfails]
    rfl

private theorem answered_or_fails (hends : ∀ args b, answer args ≠ .broken b) (f : Frame) :
    f.Answered answer input ∨ ∃ failure, f.Fails answer input failure := by
  cases hasked : f.asked answer input with
  | ok given => exact .inl ⟨given, hasked⟩
  | failed failure => exact .inr ⟨failure, asked_eq_failed_iff.mp hasked⟩
  | broken b =>
    unfold asked at hasked
    split at hasked
    · cases hasked
    · exact absurd hasked (hends _ b)

private theorem fanOut_eq_filter (answer : Payload → Outcome (List Payload))
    (input output : Template) (f : Frame) :
    f.fanOut answer input output =
      ((f.rows answer input).filter fun row => (f.match? output row).isSome).filterMap
        (f.match? output) := by
  rw [fanOut, List.filterMap_filter]
  refine List.filterMap_congr fun row _ => ?_
  cases f.match? output row <;> rfl

/-- The bridge of a query whose answers depend on the arguments alone. It fails exactly if the first
frame that has no answer leaves a variable of the input unbound or has its call fail, with that
failure, and the query is called for no later frame. Otherwise it makes one frame of each row that
matches, frame by frame and row by row, and each extends the frame it comes from. So bridging two
lists of frames in one go is bridging each of them, and two queries that differ in rows that do not
match make the same frames. -/
theorem bridge_spec (hanswer : ∀ args s, (call args s).1 = answer args) (input output : Template)
    (frames : List Frame) (s : σ) :
    (∀ failure s', bridge call input output frames s = (.failed failure, s') ↔
      ∃ earlier f later, frames = earlier ++ f :: later ∧
        (∀ g ∈ earlier, g.Answered answer input) ∧ f.Fails answer input failure ∧
        s' = called call (questions input (earlier ++ [f])) s) ∧
    ((∀ args b, answer args ≠ .broken b) →
      ((∃ failure s', bridge call input output frames s = (.failed failure, s')) ↔
        ∃ f ∈ frames, ∃ failure, f.Fails answer input failure)) ∧
    (∀ made s', bridge call input output frames s = (.ok made, s') ↔
      (∀ f ∈ frames, f.Answered answer input) ∧
        made = frames.flatMap (fanOut answer input output) ∧
        s' = called call (questions input frames) s) ∧
    (∀ f : Frame, ∀ g ∈ f.fanOut answer input output, g.Extends f) ∧
    (∀ others s₁ s₂ made made', (bridge call input output frames s).1 = .ok made →
      (bridge call input output others s₁).1 = .ok made' →
        (bridge call input output (frames ++ others) s₂).1 = .ok (made ++ made')) ∧
    ∀ (call' : Payload → Effect σ (List Payload)) (answer' : Payload → Outcome (List Payload)),
      (∀ args s, (call' args s).1 = answer' args) →
      (∀ f ∈ frames, (f.rows answer input).filter (fun row => (f.match? output row).isSome) =
        (f.rows answer' input).filter fun row => (f.match? output row).isSome) →
      ∀ s' made made', (bridge call input output frames s).1 = .ok made →
        (bridge call' input output frames s').1 = .ok made' → made = made' := by
  refine ⟨fun failure s' => bridge_eq_failed_iff hanswer, fun hends => ?_,
    fun made s' => bridge_eq_ok_iff hanswer, fun f g hg => ?_,
    fun others s₁ s₂ made made' hmade hmade' => ?_,
    fun call' answer' hanswer' hrows s' made made' hmade hmade' => ?_⟩
  · constructor
    · rintro ⟨failure, s', h⟩
      obtain ⟨earlier, f, later, rfl, _, hfails, _⟩ := (bridge_eq_failed_iff hanswer).mp h
      exact ⟨f, List.mem_append_right _ (List.mem_cons_self ..), failure, hfails⟩
    · rintro ⟨f, hf, failure, hfails⟩
      rcases answered_or_split answer input frames with
        hall | ⟨earlier, g, later, rfl, hearlier, hg⟩
      · exact absurd (hall f hf) hfails.not_answered
      · obtain ⟨failure', hfails'⟩ := (answered_or_fails hends g).resolve_left hg
        exact ⟨failure', _, (bridge_eq_failed_iff hanswer).mpr
          ⟨earlier, g, later, rfl, hearlier, hfails', rfl⟩⟩
  · obtain ⟨row, _, hmatch⟩ := List.mem_filterMap.mp hg
    exact (match?_sound hmatch).1
  · obtain ⟨hall, rfl, _⟩ := (bridge_eq_ok_iff hanswer).mp (Prod.ext hmade rfl)
    obtain ⟨hall', rfl, _⟩ := (bridge_eq_ok_iff hanswer).mp (Prod.ext hmade' rfl)
    have hboth : ∀ f ∈ frames ++ others, f.Answered answer input := by
      intro f hf
      rcases List.mem_append.mp hf with hf | hf
      · exact hall f hf
      · exact hall' f hf
    rw [bridge_of_answered hanswer hboth, List.flatMap_append]
  · obtain ⟨_, rfl, _⟩ := (bridge_eq_ok_iff hanswer).mp (Prod.ext hmade rfl)
    obtain ⟨_, rfl, _⟩ := (bridge_eq_ok_iff hanswer').mp (Prod.ext hmade' rfl)
    refine List.flatMap_congr fun f hf => ?_
    rw [fanOut_eq_filter, fanOut_eq_filter, hrows f hf]

/-- A query that keeps a list of its arguments. Of its three rows one has another number than the
second frame; a frame between the two that does not bind the key ends the walk. -/
theorem bridge_spec_recorded :
    let call : Payload → Effect (List Payload) (List Payload) := fun args asked =>
      (.ok [[("n", .ofInt 1)], [("n", .ofInt 2)], [("n", .ofDouble (.ofInt 1))]], asked ++ [args])
    let walk := bridge call [("k", .var ⟨0⟩)] [("n", .var ⟨1⟩)]
    (∃ made, walk [[(⟨0⟩, .string "a")], [(⟨0⟩, .string "b"), (⟨1⟩, .ofInt 1)]] [] =
      (.ok made, [[("k", .string "a")], [("k", .string "b")]]) ∧ made.length = 5) ∧
    walk [[(⟨0⟩, .string "a")], empty, [(⟨0⟩, .string "b"), (⟨1⟩, .ofInt 1)]] [] =
      (.failed (.engine (.unbound ⟨0⟩)), [[("k", .string "a")]]) := by
  intro call walk
  have hanswer : ∀ args s, (call args s).1 =
      .ok [[("n", .ofInt 1)], [("n", .ofInt 2)], [("n", .ofDouble (.ofInt 1))]] := fun _ _ => rfl
  constructor
  · obtain ⟨_, _, hmade, _⟩ := bridge_spec hanswer [("k", .var ⟨0⟩)] [("n", .var ⟨1⟩)]
      [[(⟨0⟩, .string "a")], [(⟨0⟩, .string "b"), (⟨1⟩, .ofInt 1)]] []
    refine ⟨_, (hmade _ _).mpr ⟨fun f hf => ?_, rfl, rfl⟩, by decide +kernel⟩
    rcases List.mem_cons.mp hf with rfl | hf
    · exact ⟨_, rfl⟩
    · obtain rfl := List.mem_singleton.mp hf
      exact ⟨_, rfl⟩
  · obtain ⟨hfails, _⟩ := bridge_spec hanswer [("k", .var ⟨0⟩)] [("n", .var ⟨1⟩)]
      [[(⟨0⟩, .string "a")], empty, [(⟨0⟩, .string "b"), (⟨1⟩, .ofInt 1)]] []
    refine (hfails _ _).mpr ⟨[[(⟨0⟩, .string "a")]], empty, _, rfl, fun f hf => ?_,
      .inl ⟨⟨0⟩, rfl, rfl⟩, rfl⟩
    obtain rfl := List.mem_singleton.mp hf
    exact ⟨_, rfl⟩

end Bridging

end Frame

end ConceptSync
