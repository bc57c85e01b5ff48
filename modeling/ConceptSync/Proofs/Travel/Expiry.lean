import Mathlib.Data.List.Induction
import Mathlib.Data.List.Nodup
import ConceptSync.Proofs.Effect
import ConceptSync.Proofs.Store.Identifiers
import ConceptSync.Proofs.Table
import ConceptSync.Proofs.Travel.Actions

set_option autoImplicit false
set_option relaxedAutoImplicit false

/-!
Sessions under a clock that does not go back. Looking a session up may forget it, but never one that
a later look could find: what a lookup answers is told by the creations and destructions before it
and by the time, whatever was looked up in between. Who is refused once is refused ever after.
-/

namespace ConceptSync

namespace Travel

/-- Whether a session lasts until a time. At the instant of its end it does. -/
def Session.Lasts (session : Session) (now : Int) : Prop :=
  ∀ expiry, session.expiry = some expiry → now ≤ expiry

private theorem Session.Lasts.of_le {session : Session} {now later : Int} (h : session.Lasts later)
    (hle : now ≤ later) : session.Lasts now :=
  fun expiry hexpiry => le_trans hle (h expiry hexpiry)

namespace Sessions

inductive Ask where
  | create (input : Payload)
  | validate (input : Payload)
  | destroy (input : Payload)
  | userOf (token : String)

def Ask.effect : Ask → Effect TravelWorld (Option String)
  | .create input => do
    let output ← perform State.sessionsPart "create" input
    return output.string? "session"
  | .validate input => do
    let output ← perform State.sessionsPart "validate" input
    return output.string? "user"
  | .destroy input => do
    let _ ← perform State.sessionsPart "destroy" input
    return none
  | .userOf token => resolve State.sessionsPart token

/-- A call, in a world of its own but for the sessions. -/
structure Call where
  world : TravelWorld
  ask : Ask

/-- When a session ends that an input asks for at a time. Without a positive number of seconds it
never does; the seconds count in whole milliseconds, what is left over is cut off, and 64 bits hold
the most of them. -/
inductive EndsAt (now : Int) (input : Payload) : Option Int → Prop
  | absent : input.get? "ttlSeconds" = none → EndsAt now input none
  | notNumber {value : Value} : input.get? "ttlSeconds" = some value →
      (∀ n, value ≠ .number n) → EndsAt now input none
  | notPositive {n : Number} : input.get? "ttlSeconds" = some (.number n) →
      n.toDouble.value ≤ 0 → EndsAt now input none
  | positive {n : Number} : input.get? "ttlSeconds" = some (.number n) → 0 < n.toDouble.value →
      EndsAt now input (some (now +
        min (n.toDouble.mul (Double.ofInt 1000)).truncate 0x7FFFFFFFFFFFFFFF * 1000))

namespace Call

def time (call : Call) : Int := call.world.clock.wall + 1

def offered (call : Call) : String := (Uuid.issue .item (call.world.issued + 1)).text

def entered (call : Call) (sessions : Sessions) : TravelWorld :=
  { call.world with state := State.sessionsPart.set call.world.state sessions }

def outcome (call : Call) (sessions : Sessions) : Outcome (Option String) :=
  (call.ask.effect (call.entered sessions)).1

def asked? (call : Call) : Option String :=
  match call.ask with
  | .validate input => input.string? "session"
  | .userOf token => some token
  | _ => none

def destroyed? (call : Call) : Option String :=
  match call.ask with
  | .destroy input => input.string? "session"
  | _ => none

def issued? (call : Call) : Option String :=
  match call.ask, call.outcome [] with
  | .create _, .ok token => token
  | _, _ => none

/-- A call issues a token for a session of a user, to end when the input asks for it. -/
def Issues (call : Call) (token : String) (session : Session) : Prop :=
  call.issued? = some token ∧ ∃ input, call.ask = .create input ∧
    input.text? "user" = some session.user ∧ EndsAt call.time input session.expiry

end Call

def after (sessions : Sessions) (call : Call) : Sessions :=
  State.sessionsPart.get (call.ask.effect (call.entered sessions)).2.state

def run (calls : List Call) : Sessions := calls.foldl after []

/-- A token was issued for a session and not destroyed since. -/
def Holds (calls : List Call) (token : String) (session : Session) : Prop :=
  ∃ earlier call later, calls = earlier ++ call :: later ∧ call.Issues token session ∧
    ∀ other ∈ later, other.destroyed? ≠ some token

variable {calls before later : List Call} {call : Call} {sessions : Sessions} {input : Payload}
  {token other user : String} {session : Session} {now : Int}

private theorem run_concat (calls : List Call) (call : Call) :
    run (calls ++ [call]) = (run calls).after call := by
  simp [run, List.foldl_append]

/-- How a call ends, told by what it answers and by the sessions that it leaves. -/
inductive Does (call : Call) (sessions : Sessions) : Outcome (Option String) → Sessions → Prop
  | opens {input : Payload} {user : String} {expiry : Option Int} :
      call.ask = .create input → input.text? "user" = some user →
      expiry? call.time input = some expiry →
      Does call sessions (.ok (some call.offered)) (opened call.offered user expiry sessions)
  | declines {input : Payload} {outcome : Outcome (Option String)} : call.ask = .create input →
      (∀ user expiry, input.text? "user" = some user → expiry? call.time input ≠ some expiry) →
      (∀ told, outcome ≠ .ok (some told)) → Does call sessions outcome sessions
  | resolves {token : String} : call.asked? = some token →
      Does call sessions (.ok (userOf call.time token sessions).1)
        (userOf call.time token sessions).2
  | destroys {token : String} : call.destroyed? = some token →
      Does call sessions (.ok none) (sessions.erase token)
  /-- A token that is missing or blank is not looked for. -/
  | ignores : (∀ input, call.ask ≠ .create input) →
      (∀ token, call.asked? = some token ∨ call.destroyed? = some token →
        Text.isAllBlank token = true) →
      Does call sessions (.ok none) sessions

private theorem text?_eq_none {field : String} : input.text? field = none ↔
    ∀ text, input.string? field = some text → Text.isAllBlank text = true := by
  simp [Payload.text?, Option.filter_eq_none_iff]

private theorem string?_of_text? {field text : String} (h : input.text? field = some text) :
    input.string? field = some text :=
  (Option.filter_eq_some_iff.mp h).1

private theorem wallTime_entered (call : Call) (sessions : Sessions) :
    World.wallTime (call.entered sessions) =
      (.ok call.time,
        { call.entered sessions with clock := { call.world.clock with wall := call.time } }) :=
  rfl

private theorem create_opens (huser : input.text? "user" = some user) {expiry : Option Int}
    (hexpiry : expiry? call.time input = some expiry) (sessions : Sessions) :
    ∃ w, create State.sessionsPart input (call.entered sessions) =
        (.ok (.single "session" (.string call.offered)), w) ∧
      w.state.sessions = opened call.offered user expiry sessions := by
  simp only [create, huser]
  rw [Effect.bind_of_ok (wallTime_entered call sessions)]
  simp only [hexpiry]
  exact ⟨_, rfl, rfl⟩

private theorem create_breaks (huser : input.text? "user" = some user)
    (hexpiry : expiry? call.time input = none) (sessions : Sessions) :
    ∃ b w, create State.sessionsPart input (call.entered sessions) = (.broken b, w) ∧
      w.state.sessions = sessions := by
  simp only [create, huser]
  rw [Effect.bind_of_ok (wallTime_entered call sessions)]
  simp only [hexpiry]
  exact ⟨_, _, rfl, rfl⟩

private theorem resolve_entered (call : Call) (token : String) (sessions : Sessions) :
    resolve State.sessionsPart token (call.entered sessions) =
      (.ok (userOf call.time token sessions).1,
        { call.entered (userOf call.time token sessions).2 with
          clock := { call.world.clock with wall := call.time } }) :=
  rfl

private theorem validate_resolves (call : Call) (htoken : input.text? "session" = some token)
    (sessions : Sessions) :
    ∃ output w, validate State.sessionsPart input (call.entered sessions) = (.ok output, w) ∧
      output.string? "user" = (userOf call.time token sessions).1 ∧
      w.state.sessions = (userOf call.time token sessions).2 := by
  simp only [validate, htoken]
  rw [Effect.bind_of_ok (resolve_entered call token sessions)]
  cases (userOf call.time token sessions).1 with
  | none => exact ⟨_, _, rfl, rfl, rfl⟩
  | some user => exact ⟨_, _, rfl, rfl, rfl⟩

private theorem does_create (hask : call.ask = .create input) (sessions : Sessions) :
    Does call sessions (call.outcome sessions) (sessions.after call) := by
  unfold Call.outcome after
  rw [hask]
  simp only [Ask.effect, perform]
  cases huser : input.text? "user" with
  | none =>
    simp only [create, huser]
    exact .declines hask (by simp [huser]) nofun
  | some user =>
    cases hexpiry : expiry? call.time input with
    | none =>
      obtain ⟨b, w, hw, hstate⟩ := create_breaks huser hexpiry sessions
      rw [Effect.bind_of_broken hw]
      change Does call sessions (.broken b) w.state.sessions
      rw [hstate]
      exact .declines hask (by simp [hexpiry]) nofun
    | some expiry =>
      obtain ⟨w, hw, hstate⟩ := create_opens huser hexpiry sessions
      rw [Effect.bind_of_ok hw]
      change Does call sessions (.ok (some call.offered)) w.state.sessions
      rw [hstate]
      exact .opens hask huser hexpiry

private theorem does_validate (hask : call.ask = .validate input) (sessions : Sessions) :
    Does call sessions (call.outcome sessions) (sessions.after call) := by
  have hasked : call.asked? = input.string? "session" := by rw [Call.asked?, hask]
  unfold Call.outcome after
  rw [hask]
  simp only [Ask.effect, perform]
  cases htoken : input.text? "session" with
  | none =>
    simp only [validate, htoken]
    refine .ignores (by simp [hask]) fun token htoken' => ?_
    rcases htoken' with htoken' | htoken'
    · exact text?_eq_none.mp htoken token (hasked ▸ htoken')
    · simp [Call.destroyed?, hask] at htoken'
  | some token =>
    obtain ⟨output, w, hw, houtput, hstate⟩ := validate_resolves call htoken sessions
    rw [Effect.bind_of_ok hw]
    change Does call sessions (.ok (output.string? "user")) w.state.sessions
    rw [houtput, hstate]
    exact .resolves (hasked.trans (string?_of_text? htoken))

private theorem does_destroy (hask : call.ask = .destroy input) (sessions : Sessions) :
    Does call sessions (call.outcome sessions) (sessions.after call) := by
  have hdestroyed : call.destroyed? = input.string? "session" := by rw [Call.destroyed?, hask]
  unfold Call.outcome after
  rw [hask]
  simp only [Ask.effect, perform]
  cases htoken : input.text? "session" with
  | none =>
    simp only [destroy, htoken]
    refine .ignores (by simp [hask]) fun token htoken' => ?_
    rcases htoken' with htoken' | htoken'
    · simp [Call.asked?, hask] at htoken'
    · exact text?_eq_none.mp htoken token (hdestroyed ▸ htoken')
  | some token =>
    simp only [destroy, htoken]
    exact .destroys (hdestroyed.trans (string?_of_text? htoken))

private theorem does (call : Call) (sessions : Sessions) :
    Does call sessions (call.outcome sessions) (sessions.after call) := by
  cases hask : call.ask with
  | create input => exact does_create hask sessions
  | validate input => exact does_validate hask sessions
  | destroy input => exact does_destroy hask sessions
  | userOf token =>
    have hasked : call.asked? = some token := by rw [Call.asked?, hask]
    unfold Call.outcome after
    rw [hask]
    exact .resolves hasked

private theorem lifetime?_of_number {n : Number} (h : input.get? "ttlSeconds" = some (.number n)) :
    lifetime? input = if 0 < n.toDouble.value then
      some (min (n.toDouble.mul (Double.ofInt 1000)).truncate 0x7FFFFFFFFFFFFFFF) else none := by
  have hzero : Double.zero.value = 0 := by decide
  have hnumber : input.number? "ttlSeconds" = some n.toDouble := by
    rw [Payload.number?, h, Option.bind_some, Value.asDouble?]
  rw [lifetime?, hnumber, Option.filter_some, Double.lt, hzero]
  by_cases hpositive : 0 < n.toDouble.value
  · rw [if_pos (decide_eq_true hpositive), if_pos hpositive, Option.map_some]
  · rw [if_neg (by simpa using hpositive), if_neg hpositive, Option.map_none]

private theorem lifetime?_of_not_number (h : ∀ n, input.get? "ttlSeconds" ≠ some (.number n)) :
    lifetime? input = none := by
  have hnumber : input.number? "ttlSeconds" = none := by
    rw [Payload.number?, Option.bind_eq_none_iff]
    intro value hvalue
    cases value with
    | number n => exact absurd hvalue (h n)
    | _ => rfl
  rw [lifetime?, hnumber, Option.filter_none, Option.map_none]

private theorem endsAt_iff {expiry : Option Int} : EndsAt now input expiry ↔
    expiry = (lifetime? input).map fun ms => now + ms * 1000 := by
  constructor
  · intro h
    cases h with
    | absent hnone => rw [lifetime?_of_not_number (by simp [hnone]), Option.map_none]
    | notNumber hvalue hno =>
      rw [lifetime?_of_not_number (by simpa [hvalue] using hno), Option.map_none]
    | notPositive hvalue hle =>
      rw [lifetime?_of_number hvalue, if_neg (not_lt.mpr hle), Option.map_none]
    | positive hvalue hlt => rw [lifetime?_of_number hvalue, if_pos hlt, Option.map_some]
  · rintro rfl
    cases hvalue : input.get? "ttlSeconds" with
    | none =>
      rw [lifetime?_of_not_number (by simp [hvalue])]
      exact .absent hvalue
    | some value =>
      by_cases hnumber : ∃ n, value = .number n
      · obtain ⟨n, rfl⟩ := hnumber
        rw [lifetime?_of_number hvalue]
        split
        · next hlt => exact .positive hvalue hlt
        · next hle => exact .notPositive hvalue (not_lt.mp hle)
      · have hno := not_exists.mp hnumber
        rw [lifetime?_of_not_number (by simpa [hvalue] using hno)]
        exact .notNumber hvalue hno

private theorem eq_of_expiry? {expiry : Option Int} (h : expiry? now input = some expiry) :
    expiry = (lifetime? input).map fun ms => now + ms * 1000 := by
  unfold expiry? at h
  split at h
  · next hnone => rw [hnone, ← Option.some.inj h, Option.map_none]
  · next ms hsome =>
    split at h
    · cases h
    · rw [hsome, ← Option.some.inj h, Option.map_some]

private theorem Call.issues_of_opens {expiry : Option Int} (hask : call.ask = .create input)
    (huser : input.text? "user" = some user) (hexpiry : expiry? call.time input = some expiry) :
    call.Issues call.offered ⟨user, expiry⟩ := by
  refine ⟨?_, input, hask, huser, endsAt_iff.mpr (eq_of_expiry? hexpiry)⟩
  obtain ⟨w, hw, _⟩ := create_opens huser hexpiry []
  have houtcome : call.outcome [] = .ok (some call.offered) := by
    unfold Call.outcome
    simp only [hask, Ask.effect, perform]
    rw [Effect.bind_of_ok hw]
    rfl
  simp only [Call.issued?, hask, houtcome]

private theorem Call.Issues.opens (h : call.Issues token session) : token = call.offered ∧
    ∃ input, call.ask = .create input ∧ input.text? "user" = some session.user ∧
      expiry? call.time input = some session.expiry := by
  obtain ⟨hissued, input, hask, huser, hexpiry⟩ := h
  have htold : call.outcome [] = .ok (some token) := by
    unfold Call.issued? at hissued
    rw [hask] at hissued
    split at hissued
    · next houtcome => rw [houtcome, hissued]
    · cases hissued
  have hdoes := does call []
  generalize call.outcome [] = outcome at hdoes htold
  generalize after [] call = left at hdoes
  cases hdoes with
  | @opens input' user expiry hask' huser' hexpiry' =>
    obtain rfl : input = input' := Ask.create.inj (hask.symm.trans hask')
    have htoken : call.offered = token := Option.some.inj (Outcome.ok.inj htold)
    refine ⟨htoken.symm, input, hask, huser, ?_⟩
    rw [hexpiry', eq_of_expiry? hexpiry', endsAt_iff.mp hexpiry]
  | declines _ _ hnone => exact absurd htold (hnone token)
  | resolves hasked => simp [Call.asked?, hask] at hasked
  | destroys hdestroyed => simp [Call.destroyed?, hask] at hdestroyed
  | ignores hno _ => exact absurd hask (hno input)

private theorem issues_iff_of_opens {expiry : Option Int} (hask : call.ask = .create input)
    (huser : input.text? "user" = some user) (hexpiry : expiry? call.time input = some expiry) :
    call.Issues token session ↔ call.offered = token ∧ ⟨user, expiry⟩ = session := by
  constructor
  · intro hissues
    obtain ⟨htoken, input', hask', huser', hexpiry'⟩ := hissues.opens
    obtain rfl : input = input' := Ask.create.inj (hask.symm.trans hask')
    refine ⟨htoken.symm, ?_⟩
    rw [Option.some.inj (huser.symm.trans huser'), Option.some.inj (hexpiry.symm.trans hexpiry')]
  · rintro ⟨rfl, rfl⟩
    exact Call.issues_of_opens hask huser hexpiry

private theorem not_issues_of_declines (hask : call.ask = .create input)
    (hdeclined : ∀ user expiry, input.text? "user" = some user →
      expiry? call.time input ≠ some expiry) : ¬call.Issues token session := by
  intro hissues
  obtain ⟨-, input', hask', huser, hexpiry⟩ := hissues.opens
  obtain rfl : input = input' := Ask.create.inj (hask.symm.trans hask')
  exact hdeclined _ _ huser hexpiry

private theorem destroyed?_of_create (hask : call.ask = .create input) :
    call.destroyed? = none := by
  rw [Call.destroyed?, hask]

private theorem Call.Issues.not_blank (h : call.Issues token session) :
    Text.isAllBlank token = false := by
  rw [h.opens.1]
  exact Uuid.not_isAllBlank_text _

private theorem not_issues_of_ask (h : ∀ input, call.ask ≠ .create input) :
    ¬call.Issues token session := by
  rintro ⟨-, input, hask, -⟩
  exact h input hask

private theorem ask_ne_create_of_asked? (h : call.asked? = some token) :
    ∀ input, call.ask ≠ .create input := by
  intro input hask
  simp [Call.asked?, hask] at h

private theorem ask_ne_create_of_destroyed? (h : call.destroyed? = some token) :
    ∀ input, call.ask ≠ .create input := by
  intro input hask
  simp [Call.destroyed?, hask] at h

private theorem destroyed?_of_asked? (h : call.asked? = some token) : call.destroyed? = none := by
  cases hask : call.ask with
  | destroy input => simp [Call.asked?, hask] at h
  | _ => simp [Call.destroyed?, hask]

private theorem Holds.issued (h : Holds calls token session) :
    ∃ call ∈ calls, call.Issues token session := by
  obtain ⟨earlier, call, later, rfl, hissues, _⟩ := h
  exact ⟨call, List.mem_append_right _ (List.mem_cons_self ..), hissues⟩

private theorem holds_append : Holds (before ++ later) token session ↔
    Holds later token session ∨
      Holds before token session ∧ ∀ call ∈ later, call.destroyed? ≠ some token := by
  constructor
  · rintro ⟨earlier, call, rest, heq, hissues, hrest⟩
    rcases List.append_eq_append_iff.mp heq with ⟨middle, rfl, hlater⟩ | ⟨middle, hbefore, hcall⟩
    · exact .inl ⟨middle, call, rest, hlater, hissues, hrest⟩
    · cases middle with
      | nil => exact .inl ⟨[], call, rest, hcall.symm, hissues, hrest⟩
      | cons first middle =>
        obtain ⟨rfl, rfl⟩ := List.cons.inj hcall
        refine .inr ⟨⟨earlier, call, middle, hbefore, hissues, ?_⟩, ?_⟩
        · exact fun other hother => hrest other (List.mem_append_left _ hother)
        · exact fun other hother => hrest other (List.mem_append_right _ hother)
  · rintro (⟨earlier, call, rest, rfl, hissues, hrest⟩ |
      ⟨⟨earlier, call, rest, rfl, hissues, hrest⟩, hlater⟩)
    · exact ⟨before ++ earlier, call, rest, by simp, hissues, hrest⟩
    · refine ⟨earlier, call, rest ++ later, by simp, hissues, fun other hother => ?_⟩
      exact (List.mem_append.mp hother).elim (hrest other) (hlater other)

private theorem holds_concat : Holds (calls ++ [call]) token session ↔
    call.Issues token session ∨ Holds calls token session ∧ call.destroyed? ≠ some token := by
  have hsingle : Holds [call] token session ↔ call.Issues token session := by
    constructor
    · rintro ⟨earlier, other, later, heq, hissues, _⟩
      obtain ⟨rfl, hnil⟩ | ⟨first, hfirst⟩ := List.cons_eq_append_iff.mp heq
      · exact (List.cons.inj hnil).1 ▸ hissues
      · exact absurd hfirst.2 (by simp)
    · exact fun hissues => ⟨[], call, [], rfl, hissues, nofun⟩
  rw [holds_append, hsingle]
  simp

private theorem Holds.of_issued (h : Holds (before ++ later) token session)
    (htokens : ((before ++ later).filterMap Call.issued?).Nodup)
    (hissued : ∃ call ∈ before, call.issued? = some token) : Holds before token session := by
  rcases holds_append.mp h with hlater | ⟨hbefore, _⟩
  · obtain ⟨first, hfirst, htoken⟩ := hissued
    obtain ⟨second, hsecond, hissues⟩ := hlater.issued
    rw [List.filterMap_append] at htokens
    exact absurd (List.mem_filterMap.mpr ⟨second, hsecond, hissues.1⟩)
      (List.disjoint_of_nodup_append htokens (List.mem_filterMap.mpr ⟨first, hfirst, htoken⟩))
  · exact hbefore

private theorem get?_userOf {asked : String} (hsorted : sessions.Sorted)
    (hlasts : session.Lasts now) :
    (userOf now asked sessions).2.get? token = some session ↔
      sessions.get? token = some session := by
  unfold userOf
  split
  · exact Iff.rfl
  · next found hfound =>
    split
    · exact Iff.rfl
    · next expiry hexpiry =>
      split
      · next hover =>
        by_cases heq : asked = token
        · subst heq
          rw [Table.get?_erase_self hsorted, hfound]
          constructor
          · intro hnone
            cases hnone
          · intro hsame
            have hle := hlasts expiry (Option.some.inj hsame ▸ hexpiry)
            omega
        · rw [Table.get?_erase_of_ne sessions heq]
      · exact Iff.rfl

private theorem userOf_eq_some : (userOf now token sessions).1 = some user ↔
    ∃ session, sessions.get? token = some session ∧ session.Lasts now ∧ session.user = user := by
  unfold userOf
  cases sessions.get? token with
  | none => simp
  | some found =>
    cases hexpiry : found.expiry with
    | none => simp [Session.Lasts, hexpiry]
    | some expiry =>
      by_cases hover : expiry < now
      · simp [Session.Lasts, hexpiry, hover]
      · have hlasts : found.Lasts now := by
          intro other hother
          rw [hexpiry] at hother
          cases hother
          omega
        simp [hexpiry, hover, hlasts]

example : (userOf 7 "t" [("t", ⟨"ana", some 7⟩)]).1 = some "ana" := by decide

example : (userOf 8 "t" [("t", ⟨"ana", some 7⟩)]).1 = none := by decide

structure Records (calls : List Call) (sessions : Sessions) : Prop where
  sorted : sessions.Sorted
  holds : ∀ now, (∀ call ∈ calls, call.time ≤ now) → ∀ token session, session.Lasts now →
    (sessions.get? token = some session ↔ Holds calls token session)

namespace Records

private theorem start : Records [] [] := by
  refine ⟨.nil, fun now _ token session _ => ⟨nofun, ?_⟩⟩
  rintro ⟨earlier, call, later, heq, _⟩
  simp at heq

private theorem sorted_after (h : sessions.Sorted) (call : Call) :
    (sessions.after call).Sorted := by
  have hdoes := does call sessions
  generalize call.outcome sessions = outcome at hdoes
  generalize sessions.after call = left at hdoes ⊢
  cases hdoes with
  | opens _ _ _ => exact h.insert _ _
  | declines _ _ _ => exact h
  | @resolves token _ =>
    unfold userOf
    split
    · exact h
    · split
      · exact h
      · split
        · exact Table.sorted_erase h token
        · exact h
  | destroys _ => exact Table.sorted_erase h _
  | ignores _ _ => exact h

private theorem after (h : Records calls sessions)
    (hnew : ∀ token, call.issued? = some token → token ∉ calls.filterMap Call.issued?) :
    Records (calls ++ [call]) (sessions.after call) := by
  refine ⟨sorted_after h.sorted call, fun now hnow token session hlasts => ?_⟩
  have htime : call.time ≤ now := hnow call (by simp)
  have hold : sessions.get? token = some session ↔ Holds calls token session :=
    h.holds now (fun earlier hearlier => hnow earlier (by simp [hearlier])) token session hlasts
  rw [holds_concat]
  have hdoes := does call sessions
  generalize call.outcome sessions = outcome at hdoes
  generalize sessions.after call = left at hdoes ⊢
  cases hdoes with
  | @opens input user expiry hask huser hexpiry =>
    rw [opened, Table.get?_insert, issues_iff_of_opens hask huser hexpiry,
      destroyed?_of_create hask]
    by_cases heq : call.offered = token
    · subst heq
      have hunused : ¬Holds calls call.offered session := by
        intro hholds
        obtain ⟨other, hother, hissues⟩ := hholds.issued
        exact hnew _ (Call.issues_of_opens hask huser hexpiry).1
          (List.mem_filterMap.mpr ⟨other, hother, hissues.1⟩)
      simp [hunused]
    · rw [if_neg heq, hold]
      simp [heq]
  | @declines input _ hask hdeclined _ =>
    rw [hold, destroyed?_of_create hask]
    simp [not_issues_of_declines hask hdeclined]
  | resolves hasked =>
    have hissues : ¬call.Issues token session := not_issues_of_ask (ask_ne_create_of_asked? hasked)
    rw [get?_userOf h.sorted (hlasts.of_le htime), hold, destroyed?_of_asked? hasked]
    simp [hissues]
  | @destroys gone hdestroyed =>
    have hissues : ¬call.Issues token session :=
      not_issues_of_ask (ask_ne_create_of_destroyed? hdestroyed)
    rw [hdestroyed]
    by_cases heq : gone = token
    · subst heq
      rw [Table.get?_erase_self h.sorted]
      simp [hissues]
    · rw [Table.get?_erase_of_ne sessions heq, hold]
      simp [hissues, heq]
  | ignores hno hblank =>
    have hissues : ¬call.Issues token session := not_issues_of_ask hno
    have hkept : Holds calls token session → call.destroyed? ≠ some token := by
      intro hholds hdestroyed
      obtain ⟨_, _, hissues'⟩ := hholds.issued
      exact absurd (hissues'.not_blank.symm.trans (hblank token (.inr hdestroyed))) (by decide)
    rw [hold]
    simp only [hissues, false_or]
    exact ⟨fun hholds => ⟨hholds, hkept hholds⟩, And.left⟩

private theorem run (htokens : (calls.filterMap Call.issued?).Nodup) :
    Records calls (run calls) := by
  induction calls using List.reverseRecOn with
  | nil => exact start
  | append_singleton calls call ih =>
    rw [List.filterMap_append, List.nodup_append'] at htokens
    rw [run_concat]
    refine (ih htokens.1).after fun token htoken hmem => ?_
    exact htokens.2.2 hmem (by simp [htoken])

private theorem answers (h : Records calls sessions)
    (hclock : ∀ earlier ∈ calls, earlier.time ≤ call.time)
    (hasked : call.asked? = some token) : ∃ told, call.outcome sessions = .ok told ∧
      ∀ user, told = some user ↔
        ∃ session, Holds calls token session ∧ session.Lasts call.time ∧ session.user = user := by
  have hdoes := does call sessions
  generalize call.outcome sessions = outcome at hdoes ⊢
  generalize sessions.after call = left at hdoes
  cases hdoes with
  | opens hask _ _ => exact absurd hask (ask_ne_create_of_asked? hasked _)
  | declines hask _ _ => exact absurd hask (ask_ne_create_of_asked? hasked _)
  | resolves hasked' =>
    cases hasked.symm.trans hasked'
    refine ⟨_, rfl, fun user => ?_⟩
    rw [userOf_eq_some]
    refine exists_congr fun session => ?_
    constructor
    · rintro ⟨hthere, hlasts, huser⟩
      exact ⟨(h.holds _ hclock token session hlasts).mp hthere, hlasts, huser⟩
    · rintro ⟨hholds, hlasts, huser⟩
      exact ⟨(h.holds _ hclock token session hlasts).mpr hholds, hlasts, huser⟩
  | destroys hdestroyed => cases (destroyed?_of_asked? hasked).symm.trans hdestroyed
  | ignores _ hblank =>
    refine ⟨none, rfl, fun user => ⟨nofun, ?_⟩⟩
    rintro ⟨session, hholds, _⟩
    obtain ⟨_, _, hissues⟩ := hholds.issued
    exact absurd (hissues.not_blank.symm.trans (hblank token (.inl hasked))) (by decide)

end Records

/-- How the lookups of a run are answered: with the user of a session that was issued, not destroyed
since, and lasts until now. A token that was issued and is refused stays refused. -/
structure Steadfast (calls : List Call) : Prop where
  answers : ∀ before call, before ++ [call] <+: calls → ∀ token, call.asked? = some token →
    ∃ told, call.outcome (run before) = .ok told ∧ ∀ user, told = some user ↔
      ∃ session, Holds before token session ∧ session.Lasts call.time ∧ session.user = user
  refuses : ∀ before first between second, before ++ first :: between ++ [second] <+: calls →
    ∀ token, first.asked? = some token → second.asked? = some token →
      (∃ call ∈ before, call.issued? = some token) →
      first.outcome (run before) = .ok none →
        second.outcome (run (before ++ first :: between)) = .ok none

/-- Whatever is asked while the clock does not go back, as long as no token is issued twice,
lookups are answered so. -/
theorem steadfast_run (calls : List Call) (hclock : (calls.map Call.time).Pairwise (· ≤ ·))
    (htokens : (calls.filterMap Call.issued?).Nodup) : Steadfast calls := by
  have hanswers : ∀ before call, before ++ [call] <+: calls → ∀ token, call.asked? = some token →
      ∃ told, call.outcome (run before) = .ok told ∧ ∀ user, told = some user ↔
        ∃ session, Holds before token session ∧ session.Lasts call.time ∧ session.user = user := by
    intro before call hpart token hasked
    have hclock' := hclock.sublist (hpart.sublist.map Call.time)
    have htokens' := htokens.sublist (hpart.sublist.filterMap Call.issued?)
    rw [List.map_append, List.pairwise_append] at hclock'
    rw [List.filterMap_append] at htokens'
    have hrecords := Records.run htokens'.of_append_left
    refine hrecords.answers (fun earlier hearlier => ?_) hasked
    exact hclock'.2.2 _ (List.mem_map_of_mem hearlier) _ (by simp)
  refine ⟨hanswers, ?_⟩
  intro before first between second hpart token hfirst hsecond hissued hrefused
  obtain ⟨told, htold, hfound⟩ := hanswers _ second hpart token hsecond
  cases told with
  | none => exact htold
  | some user =>
    have hpart' : before ++ [first] <+: calls := by
      refine List.IsPrefix.trans ?_ hpart
      exact ⟨between ++ [second], by simp⟩
    have hle : first.time ≤ second.time := by
      have hclock' := hclock.sublist (hpart.sublist.map Call.time)
      rw [List.map_append, List.pairwise_append] at hclock'
      exact hclock'.2.2 _ (by simp) _ (by simp)
    have htokens' : ((before ++ first :: between).filterMap Call.issued?).Nodup := by
      have hsublist := (List.sublist_append_left _ [second]).trans hpart.sublist
      exact htokens.sublist (hsublist.filterMap Call.issued?)
    obtain ⟨session, hholds, hlasts, huser⟩ := (hfound user).mp rfl
    have hheld := hholds.of_issued htokens' hissued
    obtain ⟨told', htold', hfound'⟩ := hanswers before first hpart' token hfirst
    have hsome := (hfound' user).mpr ⟨session, hheld, hlasts.of_le hle, huser⟩
    rw [hrefused, hsome] at htold'
    cases htold'

private def opening : Call :=
  ⟨.start 0 .empty, .create [("ttlSeconds", .ofNat 2), ("user", .string "ana")]⟩

private def lastInstant : Call :=
  ⟨.start 2000000 .empty, .userOf opening.offered⟩

private def justOver : Call :=
  ⟨.start 2000001 .empty, .validate [("session", .string opening.offered)]⟩

private def afterwards : Call :=
  ⟨.start 2000001 .empty, .userOf opening.offered⟩

private def twoSeconds : List Call := [opening, lastInstant, justOver, afterwards]

set_option maxRecDepth 4000 in
theorem steadfast_run_twoSeconds : (twoSeconds.map Call.time).Pairwise (· ≤ ·) ∧
    (twoSeconds.filterMap Call.issued?).Nodup ∧ Steadfast twoSeconds ∧
    opening.Issues opening.offered ⟨"ana", some lastInstant.time⟩ ∧
    lastInstant.outcome (run [opening]) = .ok (some "ana") ∧
    justOver.outcome (run [opening, lastInstant]) = .ok none ∧
    afterwards.outcome (run [opening, lastInstant, justOver]) = .ok none := by
  have hclock : (twoSeconds.map Call.time).Pairwise (· ≤ ·) := by decide
  have htokens : (twoSeconds.filterMap Call.issued?).Nodup := by
    have hissued : twoSeconds.filterMap Call.issued? = [opening.offered] := by
      decide +kernel
    rw [hissued]
    exact List.nodup_singleton _
  have hexpiry : expiry? opening.time [("ttlSeconds", .ofNat 2), ("user", .string "ana")] =
      some (some lastInstant.time) := by decide +kernel
  exact ⟨hclock, htokens, steadfast_run twoSeconds hclock htokens,
    Call.issues_of_opens rfl rfl hexpiry, rfl, rfl, rfl⟩

end Sessions

end Travel

end ConceptSync
