import Mathlib.Algebra.Group.Nat.Defs
import Mathlib.Data.List.Dedup
import Mathlib.Logic.Function.Basic
import ConceptSync.Scope

set_option autoImplicit false
set_option relaxedAutoImplicit false

/-!
Variables of many scopes at once. All scopes take new tokens from one counter of 32 bits, which
starts again after its last value. As long as fewer names are met than it has values, a name has one
variable in its scope and no other name has it, in that scope or elsewhere. The next one after that
gets the token of the first.
-/

namespace ConceptSync

namespace Scope

variable {scope : Scope} {name : String} {v : Var}

private theorem find?_eq_some
    (hnames : ∀ e ∈ scope.entries, ∀ e' ∈ scope.entries, e.1 = e'.1 → e = e') :
    scope.find? name = some v ↔ (name, v) ∈ scope.entries := by
  constructor
  · intro h
    obtain ⟨e, he, rfl⟩ := Option.map_eq_some_iff.mp h
    have hname : e.1 = name := by simpa using List.find?_some he
    exact hname ▸ List.mem_of_find?_eq_some he
  · intro h
    have hthere : ∃ e ∈ scope.entries, (e.1 == name) = true := ⟨_, h, beq_self_eq_true name⟩
    obtain ⟨e, he⟩ := Option.isSome_iff_exists.mp (List.find?_isSome.mpr hthere)
    have hname : e.1 = name := by simpa using List.find?_some he
    have hsame := hnames e (List.mem_of_find?_eq_some he) _ h hname
    simp [find?, he, hsame]

private theorem name?_eq_some
    (hvars : ∀ e ∈ scope.entries, ∀ e' ∈ scope.entries, e.2 = e'.2 → e = e') :
    scope.name? v = some name ↔ (name, v) ∈ scope.entries := by
  constructor
  · intro h
    obtain ⟨e, he, rfl⟩ := Option.map_eq_some_iff.mp h
    have hvar : e.2 = v := by simpa using List.find?_some he
    exact hvar ▸ List.mem_of_find?_eq_some he
  · intro h
    have hthere : ∃ e ∈ scope.entries, (e.2 == v) = true := ⟨_, h, beq_self_eq_true v⟩
    obtain ⟨e, he⟩ := Option.isSome_iff_exists.mp (List.find?_isSome.mpr hthere)
    have hvar : e.2 = v := by simpa using List.find?_some he
    have hsame := hvars e (List.mem_of_find?_eq_some he) _ h hvar
    simp [name?, he, hsame]

end Scope

/-- All scopes, by number, and the counter that gives them tokens. -/
structure Scopes where
  scope : Nat → Scope
  counter : UInt32

/-- A name and the scope in which it is asked for. -/
@[ext]
structure Ask where
  scope : Nat
  name : String
deriving DecidableEq

namespace Scopes

def fresh (counter : UInt32) : Scopes := ⟨fun _ => .empty, counter⟩

def var (p : Scopes) (ask : Ask) : Var × Scopes :=
  let (v, scope, next) := (p.scope ask.scope).var p.counter.toNat ask.name
  (v, ⟨Function.update p.scope ask.scope scope, .ofNat next⟩)

def vars (p : Scopes) : List Ask → List Var × Scopes
  | [] => ([], p)
  | ask :: rest =>
    let (v, p) := p.var ask
    let (vs, p) := p.vars rest
    (v :: vs, p)

/-- A scope is asked for the variable of one name, or of several in order. -/
inductive Call where
  | var (scope : Nat) (name : String)
  | many (scope : Nat) (names : List String)

def Call.asks : Call → List Ask
  | var scope name => [⟨scope, name⟩]
  | many scope names => names.map (Ask.mk scope)

def run (p : Scopes) : List Call → List (Ask × Var) × Scopes
  | [] => ([], p)
  | call :: rest =>
    let (vs, p) := p.vars call.asks
    let (later, p) := p.run rest
    (call.asks.zip vs ++ later, p)

def created (calls : List Call) : Nat := (calls.flatMap Call.asks).dedup.length

def note (known : List Ask) (ask : Ask) : List Ask :=
  if ask ∈ known then known else known ++ [ask]

def token (counter : UInt32) (known : List Ask) (ask : Ask) : Var :=
  ⟨(counter + .ofNat (known.idxOf ask)).toNat⟩

structure Numbered (counter : UInt32) (known : List Ask) (p : Scopes) : Prop where
  nodup : known.Nodup
  drawn : p.counter = counter + .ofNat known.length
  entries : ∀ scope name v, (name, v) ∈ (p.scope scope).entries ↔
    ⟨scope, name⟩ ∈ known ∧ v = token counter known ⟨scope, name⟩

variable {p : Scopes} {counter : UInt32} {known : List Ask} {ask other : Ask} {calls : List Call}

private theorem mem_note : other ∈ note known ask ↔ other = ask ∨ other ∈ known := by
  unfold note
  split
  · next hknown => exact ⟨.inr, by rintro (rfl | h) <;> assumption⟩
  · simp [or_comm]

private theorem mem_notes {asks : List Ask} :
    other ∈ asks.foldl note known ↔ other ∈ asks ∨ other ∈ known := by
  induction asks generalizing known with
  | nil => simp
  | cons ask rest ih => rw [List.foldl_cons, ih, mem_note, List.mem_cons, or_left_comm, or_assoc]

private theorem token_note (h : other ∈ known) :
    token counter (note known ask) other = token counter known other := by
  unfold note
  split
  · rfl
  · rw [token, List.idxOf_append_of_mem h, token]

private theorem token_notes {asks : List Ask} (h : other ∈ known) :
    token counter (asks.foldl note known) other = token counter known other := by
  induction asks generalizing known with
  | nil => rfl
  | cons ask rest ih => rw [List.foldl_cons, ih (mem_note.mpr (.inr h)), token_note h]

private theorem token_new (h : ask ∉ known) :
    token counter (note known ask) ask = ⟨(counter + .ofNat known.length).toNat⟩ := by
  rw [note, if_neg h, token, List.idxOf_append_of_notMem h]
  simp

private theorem token_inj (hfew : known.length ≤ 2 ^ 32) (hask : ask ∈ known)
    (hother : other ∈ known) :
    token counter known ask = token counter known other ↔ ask = other := by
  refine ⟨fun h => ?_, fun h => h ▸ rfl⟩
  have hsum := UInt32.toNat_inj.mp (Var.mk.inj h)
  have hplace : (UInt32.ofNat (known.idxOf ask)).toNat = (UInt32.ofNat (known.idxOf other)).toNat :=
    congrArg UInt32.toNat ((UInt32.add_right_inj counter).mp hsum)
  have hask' := List.idxOf_lt_length_of_mem hask
  have hother' := List.idxOf_lt_length_of_mem hother
  rw [UInt32.toNat_ofNat_of_lt' (by simp only [UInt32.size]; omega),
    UInt32.toNat_ofNat_of_lt' (by simp only [UInt32.size]; omega)] at hplace
  exact (List.idxOf_inj hask).mp hplace

namespace Numbered

private theorem fresh (counter : UInt32) : Numbered counter [] (fresh counter) where
  nodup := List.nodup_nil
  drawn := (UInt32.add_zero counter).symm
  entries := by simp [Scopes.fresh, Scope.empty]

private theorem find? (h : Numbered counter known p) {scope : Nat} {name : String} {v : Var} :
    (p.scope scope).find? name = some v ↔
      ⟨scope, name⟩ ∈ known ∧ v = token counter known ⟨scope, name⟩ := by
  rw [Scope.find?_eq_some, h.entries]
  rintro ⟨name, v⟩ he ⟨name', v'⟩ he' (rfl : name = name')
  rw [((h.entries ..).mp he).2, ((h.entries ..).mp he').2]

private theorem name? (h : Numbered counter known p) (hfew : known.length ≤ 2 ^ 32) {scope : Nat}
    {name : String} {v : Var} : (p.scope scope).name? v = some name ↔
      ⟨scope, name⟩ ∈ known ∧ v = token counter known ⟨scope, name⟩ := by
  rw [Scope.name?_eq_some, h.entries]
  rintro ⟨name, v⟩ he ⟨name', v'⟩ he' (rfl : v = v')
  obtain ⟨hknown, htoken⟩ := (h.entries ..).mp he
  obtain ⟨hknown', htoken'⟩ := (h.entries ..).mp he'
  have hsame := (token_inj hfew hknown hknown').mp (htoken.symm.trans htoken')
  rw [(Ask.mk.inj hsame).2]

private theorem var (h : Numbered counter known p) (ask : Ask) :
    (p.var ask).1 = token counter (note known ask) ask ∧
      Numbered counter (note known ask) (p.var ask).2 := by
  cases hfind : (p.scope ask.scope).find? ask.name with
  | some v =>
    obtain ⟨hknown, rfl⟩ := h.find?.mp hfind
    have hvar : p.var ask = (token counter known ask, p) := by
      simp [Scopes.var, Scope.var, hfind]
    rw [hvar, note, if_pos hknown]
    exact ⟨rfl, h⟩
  | none =>
    have hnew : ask ∉ known := fun hknown => by
      have hsome := h.find?.mpr ⟨hknown, rfl⟩
      simp [hfind] at hsome
    have htoken : token counter (note known ask) ask = ⟨p.counter.toNat⟩ := by
      rw [token_new hnew, h.drawn]
    have hvar : p.var ask = (⟨p.counter.toNat⟩,
        ⟨Function.update p.scope ask.scope
          ⟨(p.scope ask.scope).entries ++ [(ask.name, ⟨p.counter.toNat⟩)]⟩,
        p.counter + 1⟩) := by
      simp [Scopes.var, Scope.var, hfind, UInt32.ofNat_add]
    rw [hvar, htoken]
    refine ⟨rfl, ?_, ?_, fun scope name v => ?_⟩
    · rw [note, if_neg hnew]
      exact List.nodup_append_comm.mpr (List.nodup_cons.mpr ⟨hnew, h.nodup⟩)
    · simp [note, hnew, h.drawn, UInt32.ofNat_add, UInt32.add_assoc]
    · have hold : ⟨scope, name⟩ ∈ known →
          token counter (note known ask) ⟨scope, name⟩ = token counter known ⟨scope, name⟩ :=
        token_note
      by_cases hsame : (⟨scope, name⟩ : Ask) = ask
      · subst hsame
        have hnone : ∀ v, (name, v) ∉ (p.scope scope).entries :=
          fun v hmem => hnew ((h.entries ..).mp hmem).1
        simp [mem_note, htoken, hnone]
      · have hentry : (name, v) ∈ (Function.update p.scope ask.scope
              ⟨(p.scope ask.scope).entries ++ [(ask.name, ⟨p.counter.toNat⟩)]⟩ scope).entries ↔
            (name, v) ∈ (p.scope scope).entries := by
          by_cases hscope : scope = ask.scope
          · subst hscope
            have hname : name ≠ ask.name := fun hname => hsame (by rw [hname])
            simp [hname]
          · rw [Function.update_of_ne hscope]
        rw [hentry, h.entries, mem_note, or_iff_right hsame]
        exact and_congr_right fun hknown => by rw [hold hknown]

private theorem vars (h : Numbered counter known p) (asks : List Ask) :
    (p.vars asks).1 = asks.map (token counter (asks.foldl note known)) ∧
      Numbered counter (asks.foldl note known) (p.vars asks).2 := by
  induction asks generalizing p known with
  | nil => exact ⟨rfl, h⟩
  | cons ask rest ih =>
    obtain ⟨hvar, hnext⟩ := h.var ask
    obtain ⟨hvars, hlast⟩ := ih hnext
    refine ⟨?_, hlast⟩
    simp only [Scopes.vars, hvar, hvars, List.map_cons, List.foldl_cons]
    rw [token_notes (mem_note.mpr (.inl rfl))]

private theorem run (h : Numbered counter known p) (calls : List Call) :
    (p.run calls).1 = (calls.flatMap Call.asks).map (fun ask =>
        (ask, token counter ((calls.flatMap Call.asks).foldl note known) ask)) ∧
      Numbered counter ((calls.flatMap Call.asks).foldl note known) (p.run calls).2 := by
  induction calls generalizing p known with
  | nil => exact ⟨rfl, h⟩
  | cons call rest ih =>
    obtain ⟨hvars, hnext⟩ := h.vars call.asks
    obtain ⟨hrun, hlast⟩ := ih hnext
    rw [List.flatMap_cons, List.foldl_append]
    refine ⟨?_, hlast⟩
    simp only [Scopes.run, hvars, hrun, List.map_append]
    congr 1
    rw [← List.map_prod_left_eq_zip]
    refine List.map_congr_left fun ask hask => ?_
    rw [token_notes (mem_notes.mpr (.inl hask))]

end Numbered

/-- After these calls the scopes have a variable of its own for each name that was asked for. -/
structure Interns (calls : List Call) (given : List (Ask × Var)) (p : Scopes) : Prop where
  /-- Every call is answered, and the scope keeps the answer. -/
  answers : given.map Prod.fst = calls.flatMap Call.asks
  keeps : ∀ a ∈ given, (p.scope a.1.scope).find? a.1.name = some a.2
  /-- Two answers are the same variable for the same name in the same scope alone. -/
  same_iff : ∀ a ∈ given, ∀ b ∈ given,
    a.2 = b.2 ↔ a.1.scope = b.1.scope ∧ a.1.name = b.1.name
  inverse : ∀ scope name v, (p.scope scope).find? name = some v ↔
    (p.scope scope).name? v = some name
  describes : ∀ a ∈ given, ∀ scope,
    (p.scope scope).describe a.2 = if scope = a.1.scope then a.1.name else a.2.token

private theorem length_notes (calls : List Call) :
    ((calls.flatMap Call.asks).foldl note []).length = created calls := by
  have hnodup := ((Numbered.fresh 0).run calls).2.nodup
  refine ((List.perm_ext_iff_of_nodup hnodup (List.nodup_dedup _)).mpr fun ask => ?_).length_eq
  rw [mem_notes, List.mem_dedup]
  simp

private theorem counter_run (counter : UInt32) (calls : List Call) :
    ((fresh counter).run calls).2.counter = counter + .ofNat (created calls) := by
  rw [((Numbered.fresh counter).run calls).2.drawn, length_notes]

theorem vars_of_many {scope : Nat} {names : List String}
    (hroom : p.counter.toNat + names.length ≤ 2 ^ 32) :
    p.vars (names.map (Ask.mk scope)) =
      let (vs, s, next) := (p.scope scope).vars p.counter.toNat names
      (vs, ⟨Function.update p.scope scope s, .ofNat next⟩) := by
  induction names generalizing p with
  | nil => simp [vars, Scope.vars]
  | cons name rest ih =>
    rw [List.length_cons] at hroom
    obtain ⟨next, hnext, hle⟩ : ∃ next, ((p.scope scope).var p.counter.toNat name).2.2 = next ∧
        next ≤ p.counter.toNat + 1 := by
      refine ⟨_, rfl, ?_⟩
      unfold Scope.var
      split <;> simp
    simp only [List.map_cons, vars, Scope.vars, var, hnext]
    cases rest with
    | nil => simp [vars, Scope.vars]
    | cons name' rest =>
      rw [List.length_cons] at hroom
      have hfits : (UInt32.ofNat next).toNat = next :=
        UInt32.toNat_ofNat_of_lt' (by simp only [UInt32.size]; omega)
      rw [ih (by rw [hfits, List.length_cons]; omega)]
      simp [hfits]

/-- Whatever names scopes are asked for in whatever order, if the counter has a value for each of
them, every one has one variable in its scope and shares it with no other. -/
theorem interns_run (counter : UInt32) (calls : List Call) (hfew : created calls < 2 ^ 32) :
    Interns calls ((fresh counter).run calls).1 ((fresh counter).run calls).2 := by
  obtain ⟨hgiven, hp⟩ := (Numbered.fresh counter).run calls
  have hroom : ((calls.flatMap Call.asks).foldl note []).length ≤ 2 ^ 32 := by
    rw [length_notes]
    omega
  generalize hknown : (calls.flatMap Call.asks).foldl note [] = known at hgiven hp hroom
  have hmem : ∀ a ∈ ((fresh counter).run calls).1,
      a.1 ∈ known ∧ a.2 = token counter known a.1 := by
    rw [hgiven]
    intro a ha
    obtain ⟨ask, hask, rfl⟩ := List.mem_map.mp ha
    exact ⟨hknown ▸ mem_notes.mpr (.inl hask), rfl⟩
  refine ⟨?_, fun a ha => hp.find?.mpr (hmem a ha), ?_, ?_, ?_⟩
  · rw [hgiven, List.map_map]
    exact List.map_id _
  · intro a ha b hb
    rw [(hmem a ha).2, (hmem b hb).2, token_inj hroom (hmem a ha).1 (hmem b hb).1]
    exact Ask.ext_iff
  · exact fun scope name v => hp.find?.trans (hp.name? hroom).symm
  · intro a ha scope
    obtain ⟨hask, hvar⟩ := hmem a ha
    split
    · next hscope =>
      have hname := (hp.name? hroom).mpr ⟨hask, hvar⟩
      rw [Scope.describe, hscope, hname, Option.getD_some]
    · next hscope =>
      have hnone : (((fresh counter).run calls).2.scope scope).name? a.2 = none := by
        refine Option.eq_none_iff_forall_ne_some.mpr fun name hname => hscope ?_
        obtain ⟨hother, htoken⟩ := (hp.name? hroom).mp hname
        have hsame := (token_inj hroom hother hask).mp (htoken.symm.trans hvar)
        exact congrArg Ask.scope hsame
      rw [Scope.describe, hnone, Option.getD_none]

/-- Two scopes take turns, and a name comes again in each of them. -/
theorem interns_run_twoScopes :
    let calls := [.many 0 ["trip", "user", "trip"], .var 1 "trip", .var 0 "user", .many 1 ["", "user"]]
    created calls < 2 ^ 32 ∧ Interns calls ((fresh 1).run calls).1 ((fresh 1).run calls).2 :=
  ⟨by decide, interns_run 1 _ (by decide)⟩

/-- With as many names as the counter has values, the next one shares its token with the first. -/
theorem shares_of_wrapped {counter : UInt32} (hall : created calls = 2 ^ 32)
    (hnew : ((((fresh counter).run calls).2.scope ask.scope).find? ask.name) = none) :
    (((fresh counter).run calls).2.var ask).1 = ⟨counter.toNat⟩ := by
  have hround : ((fresh counter).run calls).2.counter = counter := by
    rw [counter_run, hall]
    exact UInt32.add_zero counter
  simp [var, Scope.var, hnew, hround]

end Scopes

end ConceptSync
