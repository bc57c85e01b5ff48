import ConceptSync.Proofs.Machine
import ConceptSync.Proofs.Table
import ConceptSync.Proofs.Travel.Actions

set_option autoImplicit false
set_option relaxedAutoImplicit false

/-!
Votes on polls. A poll has the options that its creator adds one after the other, and for each user
the vote that was accepted last from that user, which is for one of these options. From the moment
when the creator closes it no vote is accepted.
-/

namespace ConceptSync

namespace Travel

namespace Poll

def opened (name creator : String) : Poll := ⟨name, creator, [], [], false⟩

def withOption (poll : Poll) (label : String) : Poll :=
  { poll with options := poll.options ++ [label] }

def withVote (poll : Poll) (user option : String) : Poll :=
  { poll with votes := poll.votes.insert user option }

def shut (poll : Poll) : Poll := { poll with closed := true }

structure Valid (poll : Poll) : Prop where
  named : Text.isAllBlank poll.name = false
  options : poll.options.Nodup
  sorted : poll.votes.Sorted
  votes : ∀ vote ∈ poll.votes, vote.2 ∈ poll.options

structure Keeps (before after : Poll) : Prop where
  name : after.name = before.name
  creator : after.creator = before.creator
  options : before.options <+: after.options
  closed : before.closed = true → after.closed = true

private theorem Valid.opened {name : String} (hname : Text.isAllBlank name = false)
    (creator : String) :
    (opened name creator).Valid :=
  ⟨hname, List.nodup_nil, .nil, nofun⟩

private theorem Valid.withOption {poll : Poll} (h : poll.Valid) {label : String}
    (hnew : label ∉ poll.options) : (poll.withOption label).Valid where
  named := h.named
  options := List.nodup_append_comm.mpr (List.nodup_cons.mpr ⟨hnew, h.options⟩)
  sorted := h.sorted
  votes vote hvote := List.mem_append_left _ (h.votes vote hvote)

private theorem Valid.withVote {poll : Poll} (h : poll.Valid) (user : String) {option : String}
    (hoption : option ∈ poll.options) : (poll.withVote user option).Valid where
  named := h.named
  options := h.options
  sorted := h.sorted.insert user option
  votes vote hvote := by
    rcases Table.mem_insert hvote with rfl | hold
    · exact hoption
    · exact h.votes vote hold

private theorem Valid.shut {poll : Poll} (h : poll.Valid) : poll.shut.Valid :=
  ⟨h.named, h.options, h.sorted, h.votes⟩

private theorem Keeps.refl (poll : Poll) : poll.Keeps poll := ⟨rfl, rfl, List.prefix_refl _, id⟩

private theorem Keeps.trans {before middle after : Poll} (h : before.Keeps middle)
    (h' : middle.Keeps after) : before.Keeps after where
  name := h'.name.trans h.name
  creator := h'.creator.trans h.creator
  options := h.options.trans h'.options
  closed hclosed := h'.closed (h.closed hclosed)

end Poll

/-- A vote of a user for an option of a poll. -/
structure Ballot where
  poll : String
  user : String
  option : String

namespace Polling

variable {polls : Polling} {call : Machine.Call} {key user name label option : String} {poll : Poll}
  {ids : List String} {log : List Ballot}

def cast? (input : Payload) : Option Ballot := do
  let user ← input.text? "user"
  let poll ← input.text? "poll"
  let option ← input.text? "option"
  return ⟨poll, user, option⟩

def accepts (polls : Polling) (call : Machine.Call) : Bool :=
  (machine.answer? polls call).any fun output => !output.isError

def ballot? (polls : Polling) (call : Machine.Call) : Option Ballot :=
  if call.action = "addVote" ∧ polls.accepts call then cast? call.input else none

def ballots (polls : Polling) : List Machine.Call → List Ballot
  | [] => []
  | call :: rest => (polls.ballot? call).toList ++ ballots (machine.after polls call) rest

def lastVote? (log : List Ballot) (key user : String) : Option String :=
  ((log.filter fun b => b.poll = key ∧ b.user = user).getLast?).map Ballot.option

structure Creates (call : Machine.Call) (key name user : String) : Prop where
  action : call.action = "create"
  id : call.id = key
  name : call.input.text? "name" = some name
  user : call.input.text? "user" = some user

/-- A call by which the creator of a poll adds an option to it. -/
structure Extends (call : Machine.Call) (key : String) (poll : Poll) (label : String) :
    Prop where
  action : call.action = "addOption"
  actingUser : call.input.text? "actingUser" = some poll.creator
  poll_key : call.input.text? "poll" = some key
  label_text : call.input.text? "label" = some label
  new : label ∉ poll.options

/-- A call by which a user votes for an option of an open poll. -/
structure Votes (call : Machine.Call) (key : String) (poll : Poll) (user option : String) :
    Prop where
  action : call.action = "addVote"
  user_text : call.input.text? "user" = some user
  poll_key : call.input.text? "poll" = some key
  option_text : call.input.text? "option" = some option
  opened : poll.closed = false
  listed : option ∈ poll.options

structure Closes (call : Machine.Call) (key : String) (poll : Poll) : Prop where
  action : call.action = "close"
  actingUser : call.input.text? "actingUser" = some poll.creator
  poll_key : call.input.text? "poll" = some key

/-- What a call makes of the poll of an identifier, if there is one. -/
inductive Becomes (call : Machine.Call) (key : String) : Option Poll → Option Poll → Prop
  | created {name user : String} : Creates call key name user →
      Becomes call key none (some (.opened name user))
  | lacking : (∀ name user, ¬Creates call key name user) → Becomes call key none none
  | extended {poll : Poll} {label : String} : Extends call key poll label →
      Becomes call key (some poll) (some (poll.withOption label))
  | voted {poll : Poll} {user option : String} : Votes call key poll user option →
      Becomes call key (some poll) (some (poll.withVote user option))
  | closed {poll : Poll} : Closes call key poll → Becomes call key (some poll) (some poll.shut)
  | kept {poll : Poll} : (∀ label, ¬Extends call key poll label) →
      (∀ user option, ¬Votes call key poll user option) → ¬Closes call key poll →
      Becomes call key (some poll) (some poll)

private theorem Creates.after (h : Creates call key name user) (polls : Polling) :
    machine.after polls call = polls.insert key (.opened name user) := by
  have hact : machine.action? call.action = some create := by rw [h.action]; rfl
  rw [Machine.after_of_action hact, h.id]
  simp only [create, h.user, h.name]
  rfl

private theorem Extends.after (h : Extends call key poll label)
    (hthere : polls.get? key = some poll) :
    machine.after polls call = polls.insert key (poll.withOption label) := by
  have hact : machine.action? call.action = some addOption := by rw [h.action]; rfl
  rw [Machine.after_of_action hact]
  simp only [addOption, h.actingUser, h.poll_key, h.label_text, hthere, ne_eq, not_true_eq_false,
    if_false, h.new]
  rfl

private theorem Votes.addVote (h : Votes call key poll user option)
    (hthere : polls.get? key = some poll) (id : String) :
    addVote id call.input polls = ([], polls.insert key (poll.withVote user option)) := by
  simp only [Polling.addVote, h.user_text, h.poll_key, h.option_text, hthere, h.opened,
    Bool.false_eq_true, if_false, h.listed, if_true, Poll.withVote]

private theorem Votes.after (h : Votes call key poll user option)
    (hthere : polls.get? key = some poll) :
    machine.after polls call = polls.insert key (poll.withVote user option) := by
  have hact : machine.action? call.action = some Polling.addVote := by rw [h.action]; rfl
  rw [Machine.after_of_action hact, h.addVote hthere]

private theorem Closes.after (h : Closes call key poll) (hthere : polls.get? key = some poll) :
    machine.after polls call = polls.insert key poll.shut := by
  have hact : machine.action? call.action = some close := by rw [h.action]; rfl
  rw [Machine.after_of_action hact]
  simp only [close, h.actingUser, h.poll_key, hthere, if_true]
  rfl

private theorem get?_after_of_calm (hcreates : ∀ name user, ¬Creates call key name user)
    (hcalm : ∀ poll, polls.get? key = some poll → (∀ label, ¬Extends call key poll label) ∧
      (∀ user option, ¬Votes call key poll user option) ∧ ¬Closes call key poll) :
    (machine.after polls call).get? key = polls.get? key := by
  refine Machine.after_keeps (P := fun after => Table.get? after key = polls.get? key)
    (fun act hact => ?_) rfl
  have hacts := acts hact call.id call.input polls
  generalize hended : act call.id call.input polls = ended at hacts
  generalize haction : call.action = action at hacts
  cases hacts with
  | declines _ => rfl
  | creates huser hname =>
    have hne : call.id ≠ key := fun heq => hcreates _ _ ⟨haction, heq, hname, huser⟩
    exact (Table.get?_insert ..).trans (if_neg hne)
  | @adds user other label poll huser hkey hlabel hthere hcreator hnew =>
    have hne : other ≠ key := by
      rintro rfl
      exact (hcalm poll hthere).1 label ⟨haction, hcreator ▸ huser, hkey, hlabel, hnew⟩
    exact (Table.get?_insert ..).trans (if_neg hne)
  | @votes user other option poll huser hkey hoption hthere hopen hlisted =>
    have hne : other ≠ key := by
      rintro rfl
      exact (hcalm poll hthere).2.1 user option ⟨haction, huser, hkey, hoption, hopen, hlisted⟩
    exact (Table.get?_insert ..).trans (if_neg hne)
  | @closes other poll huser hkey hthere =>
    have hne : other ≠ key := by
      rintro rfl
      exact (hcalm poll hthere).2.2 ⟨haction, huser, hkey⟩
    exact (Table.get?_insert ..).trans (if_neg hne)

private theorem accepts_iff (haction : call.action = "addVote") : polls.accepts call = true ↔
    ∃ key poll user option, polls.get? key = some poll ∧ Votes call key poll user option := by
  have hact : machine.action? call.action = some Polling.addVote := by rw [haction]; rfl
  have haccepts : polls.accepts call = !(Polling.addVote call.id call.input polls).1.isError := by
    simp only [accepts, Machine.answer?, hact, Option.map_some, Option.any_some]
  rw [haccepts, Bool.not_eq_true']
  constructor
  · intro haccepted
    have hacts := acts hact call.id call.input polls
    rw [haction] at hacts
    generalize Polling.addVote call.id call.input polls = ended at hacts haccepted
    generalize hname : "addVote" = action at hacts
    cases hacts with
    | declines herror => exact absurd (herror.symm.trans haccepted) (by decide)
    | votes huser hkey hoption hthere hopen hlisted =>
      exact ⟨_, _, _, _, hthere, haction, huser, hkey, hoption, hopen, hlisted⟩
    | _ => exact absurd hname (by decide)
  · rintro ⟨key, poll, user, option, hthere, hvotes⟩
    rw [hvotes.addVote hthere]
    rfl

private theorem ballot?_eq_some {ballot : Ballot} : polls.ballot? call = some ballot ↔
    ∃ poll, polls.get? ballot.poll = some poll ∧
      Votes call ballot.poll poll ballot.user ballot.option := by
  have hcast : ∀ {key user option : String} {poll : Poll}, Votes call key poll user option →
      cast? call.input = some ⟨key, user, option⟩ := fun hvotes => by
    simp [cast?, hvotes.user_text, hvotes.poll_key, hvotes.option_text]
  constructor
  · intro h
    obtain ⟨⟨haction, haccepted⟩, hballot⟩ : (call.action = "addVote" ∧ polls.accepts call) ∧
        cast? call.input = some ballot := by simpa [ballot?] using h
    obtain ⟨key, poll, user, option, hthere, hvotes⟩ := (accepts_iff haction).mp haccepted
    have hsame := (hcast hvotes).symm.trans hballot
    obtain rfl := Option.some.inj hsame
    exact ⟨poll, hthere, hvotes⟩
  · rintro ⟨poll, hthere, hvotes⟩
    have haccepted := (accepts_iff hvotes.action).mpr ⟨_, poll, _, _, hthere, hvotes⟩
    rw [ballot?, if_pos ⟨hvotes.action, haccepted⟩, hcast hvotes]

private theorem lastVote?_concat (log : List Ballot) (ballot : Ballot) (key user : String) :
    lastVote? (log ++ [ballot]) key user =
      if ballot.poll = key ∧ ballot.user = user then some ballot.option
      else lastVote? log key user := by
  unfold lastVote?
  split
  · next hof => simp [List.filter_append, hof]
  · next hother => simp [List.filter_append, hother]

private theorem lastVote?_of_not_votes
    (h : ∀ poll, polls.get? key = some poll → ∀ user option, ¬Votes call key poll user option)
    (log : List Ballot) (user : String) :
    lastVote? (log ++ (polls.ballot? call).toList) key user = lastVote? log key user := by
  cases hballot : polls.ballot? call with
  | none => rw [Option.toList_none, List.append_nil]
  | some ballot =>
    have hother : ¬(ballot.poll = key ∧ ballot.user = user) := by
      rintro ⟨rfl, -⟩
      obtain ⟨poll, hthere, hvotes⟩ := ballot?_eq_some.mp hballot
      exact h poll hthere _ _ hvotes
    rw [Option.toList_some, lastVote?_concat, if_neg hother]

private theorem lastVote?_of_unused (h : ∀ ballot ∈ log, ballot.poll ≠ key) (user : String) :
    lastVote? log key user = none := by
  have hnone : (log.filter fun b => b.poll = key ∧ b.user = user) = [] := by
    refine List.filter_eq_nil_iff.mpr fun ballot hballot => ?_
    simp [h ballot hballot]
  rw [lastVote?, hnone]
  rfl

/-- The polls that are there after some identifiers were used and some votes accepted. -/
structure Recorded (polls : Polling) (ids : List String) (log : List Ballot) : Prop where
  sorted : polls.Sorted
  used : ∀ key poll, polls.get? key = some poll → key ∈ ids
  cast : ∀ ballot ∈ log, ballot.poll ∈ ids
  valid : ∀ key poll, polls.get? key = some poll → poll.Valid
  last : ∀ key poll, polls.get? key = some poll →
    ∀ user, poll.votes.get? user = lastVote? log key user

namespace Recorded

private theorem start : Recorded [] [] [] := ⟨.nil, nofun, nofun, nofun, nofun⟩

private theorem becomes (h : polls.Recorded ids log) (hnew : call.id ∉ ids) (key : String) :
    Becomes call key (polls.get? key) ((machine.after polls call).get? key) := by
  cases hthere : polls.get? key with
  | none =>
    by_cases hcreates : ∃ name user, Creates call key name user
    · obtain ⟨name, user, hcreates⟩ := hcreates
      rw [hcreates.after polls, Table.get?_insert_self]
      exact .created hcreates
    · have hcalm : ∀ name user, ¬Creates call key name user :=
        fun name user hcreates' => hcreates ⟨name, user, hcreates'⟩
      rw [get?_after_of_calm hcalm (by simp [hthere]), hthere]
      exact .lacking hcalm
  | some poll =>
    by_cases hextends : ∃ label, Extends call key poll label
    · obtain ⟨label, hextends⟩ := hextends
      rw [hextends.after hthere, Table.get?_insert_self]
      exact .extended hextends
    by_cases hvotes : ∃ user option, Votes call key poll user option
    · obtain ⟨user, option, hvotes⟩ := hvotes
      rw [hvotes.after hthere, Table.get?_insert_self]
      exact .voted hvotes
    by_cases hcloses : Closes call key poll
    · rw [hcloses.after hthere, Table.get?_insert_self]
      exact .closed hcloses
    · simp only [not_exists] at hextends hvotes
      have hcreates : ∀ name user, ¬Creates call key name user :=
        fun _ _ hcreates => hnew (hcreates.id ▸ h.used key poll hthere)
      rw [get?_after_of_calm hcreates, hthere]
      · exact .kept hextends hvotes hcloses
      · intro found hfound
        rw [hthere] at hfound
        exact Option.some.inj hfound ▸ ⟨hextends, hvotes, hcloses⟩

private theorem sorted_after (h : polls.Sorted) (call : Machine.Call) :
    (machine.after polls call).Sorted := by
  refine Machine.after_keeps (fun act hact => ?_) h
  have hacts := acts hact call.id call.input polls
  generalize act call.id call.input polls = ended at hacts ⊢
  generalize call.action = action at hacts
  cases hacts with
  | declines _ => exact h
  | creates _ _ => exact h.insert _ _
  | adds _ _ _ _ _ _ => exact h.insert _ _
  | votes _ _ _ _ _ _ => exact h.insert _ _
  | closes _ _ _ => exact h.insert _ _

private theorem last_of_not_votes (h : polls.Recorded ids log) {key : String} {poll : Poll}
    (hthere : polls.get? key = some poll)
    (hvotes : ∀ user option, ¬Votes call key poll user option) (user : String) :
    poll.votes.get? user = lastVote? (log ++ (polls.ballot? call).toList) key user := by
  rw [lastVote?_of_not_votes _ log user]
  · exact h.last key poll hthere user
  · intro found hfound
    rw [hthere] at hfound
    exact Option.some.inj hfound ▸ hvotes

private theorem last_of_creates (h : polls.Recorded ids log) (hnew : call.id ∉ ids)
    {key name creator : String} (hnone : polls.get? key = none)
    (hcreates : Creates call key name creator) (user : String) :
    lastVote? (log ++ (polls.ballot? call).toList) key user = none := by
  have hunused : ∀ ballot ∈ log, ballot.poll ≠ key := by
    rintro ballot hballot rfl
    exact hnew (hcreates.id ▸ h.cast ballot hballot)
  rw [lastVote?_of_not_votes (by simp [hnone]), lastVote?_of_unused hunused]

private theorem last_of_votes (h : polls.Recorded ids log) {key user option : String}
    {poll : Poll} (hthere : polls.get? key = some poll) (hvotes : Votes call key poll user option)
    (other : String) : (poll.withVote user option).votes.get? other =
      lastVote? (log ++ (polls.ballot? call).toList) key other := by
  have hballot : polls.ballot? call = some ⟨key, user, option⟩ :=
    ballot?_eq_some.mpr ⟨poll, hthere, hvotes⟩
  rw [hballot, Option.toList_some, lastVote?_concat, Poll.withVote, Table.get?_insert]
  by_cases heq : user = other
  · simp [heq]
  · simp only [heq, if_false, and_false]
    exact h.last key poll hthere other

private theorem entry (h : polls.Recorded ids log) (hnew : call.id ∉ ids) {key : String}
    {poll : Poll} (hthere : (machine.after polls call).get? key = some poll) :
    key ∈ ids ++ [call.id] ∧ poll.Valid ∧ ∀ user,
      poll.votes.get? user = lastVote? (log ++ (polls.ballot? call).toList) key user := by
  have hbecomes := h.becomes hnew key
  rw [hthere] at hbecomes
  generalize hfound : polls.get? key = found at hbecomes
  cases hbecomes with
  | @created name user hcreates =>
    have hname := (Payload.text?_eq_some.mp hcreates.name).2
    exact ⟨by simp [hcreates.id], .opened hname user,
      fun user => (h.last_of_creates hnew hfound hcreates user).symm⟩
  | @extended poll label hextends =>
    have hvotes : ∀ user option, ¬Votes call key poll user option := fun _ _ hvotes =>
      absurd (hextends.action.symm.trans hvotes.action) (by decide)
    have hlast := h.last_of_not_votes hfound hvotes
    exact ⟨List.mem_append_left _ (h.used key _ hfound),
      (h.valid key _ hfound).withOption hextends.new, hlast⟩
  | @voted poll user option hvotes =>
    exact ⟨List.mem_append_left _ (h.used key _ hfound),
      (h.valid key _ hfound).withVote user hvotes.listed, h.last_of_votes hfound hvotes⟩
  | @closed poll hcloses =>
    have hvotes : ∀ user option, ¬Votes call key poll user option := fun _ _ hvotes =>
      absurd (hcloses.action.symm.trans hvotes.action) (by decide)
    have hlast := h.last_of_not_votes hfound hvotes
    exact ⟨List.mem_append_left _ (h.used key _ hfound), (h.valid key _ hfound).shut, hlast⟩
  | kept _ hvotes _ =>
    exact ⟨List.mem_append_left _ (h.used key _ hfound), h.valid key _ hfound,
      h.last_of_not_votes hfound hvotes⟩

private theorem after (h : polls.Recorded ids log) (hnew : call.id ∉ ids) :
    (machine.after polls call).Recorded (ids ++ [call.id])
      (log ++ (polls.ballot? call).toList) where
  sorted := sorted_after h.sorted call
  used _ _ hthere := (h.entry hnew hthere).1
  cast ballot hballot := by
    rcases List.mem_append.mp hballot with hold | hlast
    · exact List.mem_append_left _ (h.cast ballot hold)
    · obtain ⟨poll, hthere, _⟩ := ballot?_eq_some.mp (Option.mem_toList.mp hlast)
      exact List.mem_append_left _ (h.used _ poll hthere)
  valid _ _ hthere := (h.entry hnew hthere).2.1
  last _ _ hthere := (h.entry hnew hthere).2.2

private theorem run (h : polls.Recorded ids log) {calls : List Machine.Call}
    (hfresh : (ids ++ calls.map Machine.Call.id).Nodup) :
    (machine.run polls calls).Recorded (ids ++ calls.map Machine.Call.id)
      (log ++ polls.ballots calls) := by
  induction calls generalizing polls ids log with
  | nil => simpa [ballots, Machine.run] using h
  | cons call rest ih =>
    have hnew : call.id ∉ ids := by
      intro hmem
      exact List.disjoint_of_nodup_append hfresh hmem (by simp)
    have hrest := ih (h.after hnew) (by simpa using hfresh)
    simpa [ballots, Machine.run_cons] using hrest

private theorem keeps (h : polls.Recorded ids log) {later : List Machine.Call}
    (hfresh : (ids ++ later.map Machine.Call.id).Nodup) {key : String} {before : Poll}
    (hbefore : polls.get? key = some before) :
    ∃ after, (machine.run polls later).get? key = some after ∧ before.Keeps after := by
  let Still (polls : Polling) (ids : List String) : Prop :=
    (∃ log, polls.Recorded ids log) ∧ ∃ after, polls.get? key = some after ∧ before.Keeps after
  have hstart : Still polls ids := ⟨⟨log, h⟩, before, hbefore, .refl before⟩
  have hstep : ∀ polls ids (call : Machine.Call), Still polls ids → call.id ∉ ids →
      Still (machine.after polls call) (ids ++ [call.id]) := by
    rintro polls ids call ⟨⟨log, hrecorded⟩, poll, hpoll, hkeeps⟩ hnew
    refine ⟨⟨_, hrecorded.after hnew⟩, ?_⟩
    have hbecomes := hrecorded.becomes hnew key
    rw [hpoll] at hbecomes
    generalize (machine.after polls call).get? key = found at hbecomes ⊢
    cases hbecomes with
    | extended _ =>
      exact ⟨_, rfl, hkeeps.trans ⟨rfl, rfl, List.prefix_append _ _, id⟩⟩
    | voted _ => exact ⟨_, rfl, hkeeps.trans ⟨rfl, rfl, List.prefix_refl _, id⟩⟩
    | closed _ => exact ⟨_, rfl, hkeeps.trans ⟨rfl, rfl, List.prefix_refl _, fun _ => rfl⟩⟩
    | kept _ _ _ => exact ⟨_, rfl, hkeeps⟩
  exact (Machine.run_fresh hstep hfresh hstart).2

end Recorded

private theorem Votes.key_eq (h : Votes call key poll user option) {other : String}
    (hother : call.input.string? "poll" = some other) : key = other := by
  have htext := h.poll_key
  rw [Payload.text?, hother] at htext
  exact (Option.some.inj (Option.filter_eq_some_iff.mp htext).1).symm

private theorem not_accepts_of_closed (hthere : polls.get? key = some poll)
    (hclosed : poll.closed = true)
    (haction : call.action = "addVote") (hkey : call.input.string? "poll" = some key) :
    polls.accepts call = false := by
  refine Bool.eq_false_iff.mpr fun haccepted => ?_
  obtain ⟨other, found, user, option, hfound, hvotes⟩ := (accepts_iff haction).mp haccepted
  obtain rfl := hvotes.key_eq hkey
  rw [hthere] at hfound
  cases hfound
  exact absurd (hvotes.opened.symm.trans hclosed) (by decide)

/-- What is found under a text: the poll of that identifier, else a poll of that name, else
nothing. -/
inductive Finds (polls : Polling) (text : String) : List Payload → Prop
  | identified {poll : Poll} : polls.get? text = some poll →
      Finds polls text [.single "poll" (poll.document text)]
  | named {key : String} {poll : Poll} : polls.get? text = none → polls.get? key = some poll →
      poll.name = text → Finds polls text [.single "poll" (poll.document key)]
  | nothing : polls.get? text = none →
      (∀ key poll, polls.get? key = some poll → poll.name ≠ text) → Finds polls text []

private theorem Recorded.finds (h : polls.Recorded ids log)
    (hids : ∀ id ∈ ids, Text.isAllBlank id = false) {input : Payload} {text : String}
    (htext : input.string? "poll" = some text) : polls.Finds text (getPoll input polls) := by
  cases hblank : Text.isAllBlank text with
  | true =>
    have hnone : input.text? "poll" = none := by simp [Payload.text?, htext, hblank]
    have hnothing : getPoll input polls = [] := by simp [getPoll, hnone]
    rw [hnothing]
    refine .nothing (Option.eq_none_iff_forall_ne_some.mpr fun poll hthere => ?_) ?_
    · exact absurd ((hids text (h.used text poll hthere)).symm.trans hblank) (by decide)
    · rintro key poll hthere rfl
      exact absurd ((h.valid key poll hthere).named.symm.trans hblank) (by decide)
  | false =>
    have hsome : input.text? "poll" = some text := by simp [Payload.text?, htext, hblank]
    simp only [getPoll, hsome, Option.bind_some, find?]
    cases hthere : polls.get? text with
    | some poll => exact .identified hthere
    | none =>
      cases hfound : List.find? (fun e => e.2.name == text) polls with
      | none =>
        refine .nothing hthere fun key poll hpoll => ?_
        have hother := List.find?_eq_none.mp hfound _ (Table.mem_of_get? hpoll)
        exact fun hname => hother (beq_iff_eq.mpr hname)
      | some entry =>
        have hkey := Table.get?_of_mem h.sorted.nodup_keys (List.mem_of_find?_eq_some hfound)
        have hname := List.find?_some hfound
        exact .named hthere hkey (beq_iff_eq.mp hname)

/-- How the votes of a state stand, and what any later calls make of them. The log has the votes
that were accepted, in order. -/
structure Upright (polls : Polling) (ids : List String) (log : List Ballot) : Prop where
  valid : ∀ key poll, polls.get? key = some poll → poll.Valid
  last : ∀ key poll, polls.get? key = some poll →
    ∀ user, poll.votes.get? user = lastVote? log key user
  accepts : ∀ call : Machine.Call, call.action = "addVote" → (polls.accepts call = true ↔
    ∃ key poll user option, polls.get? key = some poll ∧ Votes call key poll user option)
  becomes : ∀ call : Machine.Call, call.id ∉ ids → ∀ key,
    Becomes call key (polls.get? key) ((machine.after polls call).get? key)
  /-- The vote of a user is changed by that user alone. -/
  others : ∀ call : Machine.Call, call.id ∉ ids → ∀ key before after,
    polls.get? key = some before → (machine.after polls call).get? key = some after →
    ∀ user, after.votes.get? user ≠ before.votes.get? user →
      ∃ option, Votes call key before user option
  keeps : ∀ later : List Machine.Call, (ids ++ later.map Machine.Call.id).Nodup →
    ∀ key before, polls.get? key = some before →
      ∃ after, (machine.run polls later).get? key = some after ∧ before.Keeps after
  refuses : ∀ key poll, polls.get? key = some poll → poll.closed = true →
    ∀ call : Machine.Call, call.action = "addVote" → call.input.string? "poll" = some key →
      polls.accepts call = false
  finds : ∀ input text, input.string? "poll" = some text →
    polls.Finds text (getPoll input polls)

private theorem Becomes.votes_of_ne {before after : Poll}
    (h : Becomes call key (some before) (some after)) {user : String}
    (hne : after.votes.get? user ≠ before.votes.get? user) :
    ∃ option, Votes call key before user option := by
  cases h with
  | extended _ => exact absurd rfl hne
  | @voted _ voter option hvotes =>
    by_cases heq : voter = user
    · exact ⟨option, heq ▸ hvotes⟩
    · simp [Poll.withVote, Table.get?_insert, heq] at hne
  | closed _ => exact absurd rfl hne
  | kept _ _ _ => exact absurd rfl hne

/-- Whatever calls are made, as long as no identifier is issued twice, votes are valid: each user
has the vote on each poll that was accepted last. -/
theorem upright_run (calls : List Machine.Call) (hfresh : (calls.map Machine.Call.id).Nodup)
    (hnamed : ∀ call ∈ calls, Text.isAllBlank call.id = false) :
    (machine.run [] calls).Upright (calls.map Machine.Call.id) (ballots [] calls) := by
  have hrecorded : (machine.run [] calls).Recorded (calls.map Machine.Call.id)
      (ballots [] calls) := by
    have hnew : ([] ++ calls.map Machine.Call.id).Nodup := hfresh
    exact Recorded.start.run hnew
  exact
    { valid := hrecorded.valid
      last := hrecorded.last
      accepts := fun _ haction => accepts_iff haction
      becomes := fun _ hnew key => hrecorded.becomes hnew key
      others := fun call hnew key before after hbefore hafter user hne => by
        have hbecomes := hrecorded.becomes hnew key
        rw [hbefore, hafter] at hbecomes
        exact hbecomes.votes_of_ne hne
      keeps := fun _ hlater _ _ hbefore => hrecorded.keeps hlater hbefore
      refuses := fun _ _ hthere hclosed _ haction hkey =>
        not_accepts_of_closed hthere hclosed haction hkey
      finds := fun _ _ htext =>
        hrecorded.finds (List.forall_mem_map.mpr hnamed) htext }

private def lunchPoll : List Machine.Call :=
  [⟨"p1", "create", [("name", .string "Lunch"), ("user", .string "ana")]⟩,
    ⟨"n1", "addOption", [("actingUser", .string "ana"), ("label", .string "Pasta"),
      ("poll", .string "p1")]⟩,
    ⟨"n2", "addOption", [("actingUser", .string "ana"), ("label", .string "Soup"),
      ("poll", .string "p1")]⟩,
    ⟨"n3", "addVote", [("option", .string "Pasta"), ("poll", .string "p1"),
      ("user", .string "ben")]⟩,
    ⟨"n4", "addVote", [("option", .string "Soup"), ("poll", .string "p1"),
      ("user", .string "ben")]⟩,
    ⟨"n5", "close", [("actingUser", .string "ana"), ("poll", .string "p1")]⟩,
    ⟨"n6", "addVote", [("option", .string "Soup"), ("poll", .string "p1"),
      ("user", .string "cleo")]⟩]

theorem upright_run_lunchPoll : (lunchPoll.map Machine.Call.id).Nodup ∧
    (∀ call ∈ lunchPoll, Text.isAllBlank call.id = false) ∧
    (machine.run [] lunchPoll).Upright (lunchPoll.map Machine.Call.id)
      [⟨"p1", "ben", "Pasta"⟩, ⟨"p1", "ben", "Soup"⟩] := by
  have hballots : ballots [] lunchPoll = [⟨"p1", "ben", "Pasta"⟩, ⟨"p1", "ben", "Soup"⟩] := by
    rfl
  refine ⟨by decide, by decide, ?_⟩
  rw [← hballots]
  exact upright_run lunchPoll (by decide) (by decide)

end Polling

end Travel

end ConceptSync
