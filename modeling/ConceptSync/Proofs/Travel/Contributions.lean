import Mathlib.Algebra.BigOperators.Ring.List
import ConceptSync.Proofs.Machine
import ConceptSync.Proofs.Number.Rounding
import ConceptSync.Proofs.Table
import ConceptSync.Proofs.Travel.Actions

set_option autoImplicit false
set_option relaxedAutoImplicit false

/-!
Contributions and costs. A contribution is tested against the sum that it adds to, and the total is
then summed up anew, with other roundings. So the total can come to lie above the cost, by no more
than these roundings make up; where nothing is rounded it never does.
-/

namespace ConceptSync

namespace Travel

open Double

namespace Expense

def NearlyWithin (e : Expense) : Prop :=
  (e.covered.magnitude : ℚ) * (1 - roundoff) ^ (e.contributions.length + 1) ≤
    e.cost.magnitude * (1 + roundoff) ^ (e.contributions.length + 1)

structure Sound (e : Expense) : Prop where
  cost_pos : zero.lt e.cost = true
  contributions_pos : ∀ x ∈ e.contributions.values, zero.lt x = true
  sorted : e.contributions.Sorted
  nearlyWithin : e.NearlyWithin

structure Exact (k : Nat) (e : Expense) : Prop where
  multiples : ∀ x ∈ e.contributions.values, 2 ^ k ∣ x.magnitude
  within : total e.contributions.values ≤ e.cost.magnitude
  cost_lt : e.cost.magnitude < 2 ^ (53 + k)

def before (e : Expense) (user : String) : Double := (e.contributions.get? user).getD .zero

variable {e : Expense} {amount : Double}

private theorem before_mem (e : Expense) (user : String) :
    e.before user ∈ e.contributions.values ∨ e.before user = zero := by
  unfold before
  cases hfound : e.contributions.get? user with
  | none => exact .inr rfl
  | some x => exact .inl (List.mem_map_of_mem (Table.mem_of_get? hfound))

private theorem mem_values_contribute {user : String} {x : Double}
    (h : x ∈ (e.contribute user amount).contributions.values) :
    x = (e.before user).add amount ∨ x ∈ e.contributions.values := by
  obtain ⟨c, hc, rfl⟩ := List.mem_map.mp h
  rcases Table.mem_insert hc with rfl | hold
  · exact .inl rfl
  · exact .inr (List.mem_map_of_mem hold)

private theorem total_values_insert {t : Table String Double} (h : t.Sorted) (key : String)
    (x : Double) :
    total (t.insert key x).values + ((t.get? key).getD .zero).magnitude =
      total t.values + x.magnitude := by
  have hzero : zero.magnitude = 0 := rfl
  induction t with
  | nil => simp [Table.insert, Table.values, Table.get?, total, hzero]
  | cons c rest ih =>
    obtain ⟨k, y⟩ := c
    by_cases heq : k = key
    · simp only [Table.insert, Table.get?, if_pos heq, Table.values, List.map_cons, total_cons,
        Option.getD_some]
      omega
    · by_cases hlt : key < k
      · rw [h.get?_of_lt_head hlt]
        simp only [Table.insert, if_neg heq, if_pos hlt, Table.values, List.map_cons, total_cons,
          Option.getD_none, hzero]
        omega
      · have hrest := ih (List.pairwise_cons.mp h).2
        simp only [Table.insert, if_neg heq, if_neg hlt, Table.values, Table.get?, List.map_cons,
          total_cons] at hrest ⊢
        omega

private theorem total_contribute (hsorted : e.contributions.Sorted) (user : String)
    (amount : Double) :
    total (e.contribute user amount).contributions.values + (e.before user).magnitude =
      total e.contributions.values + ((e.before user).add amount).magnitude :=
  total_values_insert hsorted user _

private theorem before_le_total (e : Expense) (user : String) :
    (e.before user).magnitude ≤ total e.contributions.values := by
  rcases e.before_mem user with hmem | hzero
  · exact List.le_sum_of_mem (List.mem_map_of_mem hmem)
  · rw [hzero]
    exact Nat.zero_le _

private theorem magnitude_negativeZero : negativeZero.magnitude = 0 := by decide +kernel

private theorem negativeZero_nonneg : 0 ≤ negativeZero.value := by decide +kernel

private theorem magnitude_covered_nil (item : String) (cost : Double) :
    (covered ⟨item, cost, []⟩).magnitude = 0 := magnitude_negativeZero

private theorem covered_le (h : ∀ x ∈ e.contributions.values, 0 ≤ x.value) :
    (e.covered.magnitude : ℚ) ≤
      total e.contributions.values * (1 + roundoff) ^ e.contributions.length := by
  have hsummed := foldl_add_le negativeZero_nonneg h
  rwa [magnitude_negativeZero, Nat.cast_zero, zero_add, Table.values, List.length_map] at hsummed

private theorem le_covered (h : ∀ x ∈ e.contributions.values, 0 ≤ x.value)
    (hfinite : e.covered.isInfinite = false) :
    (total e.contributions.values : ℚ) * (1 - roundoff) ^ e.contributions.length ≤
      e.covered.magnitude := by
  have hsummed := le_foldl_add negativeZero_nonneg h hfinite
  rwa [magnitude_negativeZero, Nat.cast_zero, zero_add, Table.values, List.length_map] at hsummed

private theorem Sound.contributions_nonneg (h : e.Sound) :
    ∀ x ∈ e.contributions.values, 0 ≤ x.value :=
  fun x hx => (zero_lt_iff.mp (h.contributions_pos x hx)).le

private theorem Sound.covered_nonneg (h : e.Sound) : 0 ≤ e.covered.value :=
  foldl_add_nonneg negativeZero_nonneg h.contributions_nonneg

private theorem Sound.before_nonneg (h : e.Sound) (user : String) : 0 ≤ (e.before user).value := by
  rcases e.before_mem user with hmem | hzero
  · exact (zero_lt_iff.mp (h.contributions_pos _ hmem)).le
  · rw [hzero]
    decide +kernel

private theorem finite_of_not_lt {cost x : Double} (hcost : 0 ≤ cost.value) (hx : 0 ≤ x.value)
    (hfinite : cost.isInfinite = false) (h : cost.lt x = false) :
    x.magnitude ≤ cost.magnitude ∧ cost.magnitude < limit ∧ x.isInfinite = false := by
  have hle : x.magnitude ≤ cost.magnitude := by
    have hnot := mt (lt_iff_of_nonneg hcost hx).mpr (by simp [h])
    omega
  have hlimit := isFinite_iff.mp hfinite
  exact ⟨hle, hlimit, isFinite_iff.mpr (by omega)⟩

namespace Sound

private theorem contributions_pos_contribute (h : e.Sound) (hamount : zero.lt amount = true)
    (user : String) : ∀ x ∈ (e.contribute user amount).contributions.values, zero.lt x = true := by
  intro x hx
  rcases mem_values_contribute hx with rfl | hold
  · exact zero_lt_add (h.before_nonneg user) hamount
  · exact h.contributions_pos x hold

private theorem total_contribute_le (h : e.Sound) (hamount : zero.lt amount = true)
    (user : String) :
    (total (e.contribute user amount).contributions.values : ℚ) ≤
      (total e.contributions.values + amount.magnitude) * (1 + roundoff) := by
  have hrounded := magnitude_add_le (h.before_nonneg user) (zero_lt_iff.mp hamount).le
  have hchange : (total (e.contribute user amount).contributions.values : ℚ) +
      (e.before user).magnitude =
        total e.contributions.values + ((e.before user).add amount).magnitude := by
    exact_mod_cast total_contribute h.sorted user amount
  have hbefore : ((e.before user).magnitude : ℚ) ≤ total e.contributions.values := by
    exact_mod_cast e.before_le_total user
  have hgain : ((e.before user).magnitude : ℚ) * roundoff ≤
      total e.contributions.values * roundoff :=
    mul_le_mul_of_nonneg_right hbefore roundoff_pos.le
  linarith

private theorem total_add_le (h : e.Sound) (hamount : zero.lt amount = true)
    (hguard : e.cost.lt (e.covered.add amount) = false) (hfinite : e.cost.isInfinite = false) :
    (total e.contributions.values + amount.magnitude : ℚ) *
      (1 - roundoff) ^ (e.contributions.length + 1) ≤ e.cost.magnitude := by
  have hone := roundoff_lt_one
  have hroundoff := roundoff_pos
  have hamount' := (zero_lt_iff.mp hamount).le
  have hcovered := h.covered_nonneg
  have hsum := (add_of_nonneg hcovered hamount').1
  obtain ⟨hle, _, hsumfinite⟩ :=
    finite_of_not_lt (zero_lt_iff.mp h.cost_pos).le hsum hfinite hguard
  have hcoveredfinite : e.covered.isInfinite = false := by
    by_contra hinfinite
    rw [Bool.not_eq_false] at hinfinite
    have hadd : e.covered.add amount = e.covered := if_pos hinfinite
    rw [hadd, hinfinite] at hsumfinite
    cases hsumfinite
  have htotal := le_covered h.contributions_nonneg hcoveredfinite
  have htested := le_magnitude_add hcovered hamount' hsumfinite
  have hpower : (1 - roundoff) ^ e.contributions.length ≤ 1 :=
    pow_le_one₀ (by linarith) (by linarith)
  have hterm : (amount.magnitude : ℚ) * (1 - roundoff) ^ e.contributions.length ≤
      amount.magnitude := mul_le_of_le_one_right (Nat.cast_nonneg _) hpower
  calc (total e.contributions.values + amount.magnitude : ℚ) *
        (1 - roundoff) ^ (e.contributions.length + 1)
      = (total e.contributions.values * (1 - roundoff) ^ e.contributions.length +
          amount.magnitude * (1 - roundoff) ^ e.contributions.length) * (1 - roundoff) := by ring
    _ ≤ (e.covered.magnitude + amount.magnitude) * (1 - roundoff) := by
        have hless : 0 ≤ 1 - roundoff := by linarith
        gcongr
    _ ≤ (e.covered.add amount).magnitude := htested
    _ ≤ e.cost.magnitude := by exact_mod_cast hle

private theorem nearlyWithin_contribute (h : e.Sound) (hamount : zero.lt amount = true)
    (hguard : e.cost.lt (e.covered.add amount) = false) (user : String) :
    (e.contribute user amount).NearlyWithin := by
  have hone := roundoff_lt_one
  have hroundoff := roundoff_pos
  have hlength : e.contributions.length ≤ (e.contribute user amount).contributions.length :=
    Table.length_le_length_insert _ _ _
  have hcovered := covered_le fun x hx =>
    (zero_lt_iff.mp (h.contributions_pos_contribute hamount user x hx)).le
  unfold NearlyWithin
  generalize (e.contribute user amount).contributions.length = n at hlength hcovered ⊢
  have hless : 0 ≤ 1 - roundoff := by linarith
  by_cases hfinite : e.cost.isInfinite = false
  · have hpower : (1 - roundoff) ^ (n + 1) ≤ (1 - roundoff) ^ (e.contributions.length + 1) :=
      pow_le_pow_of_le_one hless (by linarith) (by omega)
    have htested := h.total_add_le hamount hguard hfinite
    calc ((e.contribute user amount).covered.magnitude : ℚ) * (1 - roundoff) ^ (n + 1)
        ≤ (total e.contributions.values + amount.magnitude) * (1 + roundoff) *
            (1 + roundoff) ^ n * (1 - roundoff) ^ (n + 1) := by
          have hgain := h.total_contribute_le hamount user
          refine mul_le_mul_of_nonneg_right (hcovered.trans ?_) (pow_nonneg hless _)
          gcongr
      _ = (total e.contributions.values + amount.magnitude) * (1 - roundoff) ^ (n + 1) *
            (1 + roundoff) ^ (n + 1) := by ring
      _ ≤ (total e.contributions.values + amount.magnitude) *
            (1 - roundoff) ^ (e.contributions.length + 1) * (1 + roundoff) ^ (n + 1) := by gcongr
      _ ≤ e.cost.magnitude * (1 + roundoff) ^ (n + 1) := by gcongr
  · rw [Bool.not_eq_false, isInfinite_iff] at hfinite
    have hmost : (e.contribute user amount).covered.magnitude ≤ e.cost.magnitude := by
      rw [hfinite]
      exact magnitude_le_limit _
    calc ((e.contribute user amount).covered.magnitude : ℚ) * (1 - roundoff) ^ (n + 1)
        ≤ (e.contribute user amount).covered.magnitude :=
          mul_le_of_le_one_right (Nat.cast_nonneg _) (pow_le_one₀ hless (by linarith))
      _ ≤ e.cost.magnitude := by exact_mod_cast hmost
      _ ≤ e.cost.magnitude * (1 + roundoff) ^ (n + 1) :=
          le_mul_of_one_le_right (Nat.cast_nonneg _) (one_le_pow₀ (by linarith))

private theorem contribute (h : e.Sound) (hamount : zero.lt amount = true)
    (hguard : e.cost.lt (e.covered.add amount) = false) (user : String) :
    (e.contribute user amount).Sound where
  cost_pos := h.cost_pos
  contributions_pos := h.contributions_pos_contribute hamount user
  sorted := h.sorted.insert _ _
  nearlyWithin := h.nearlyWithin_contribute hamount hguard user

private theorem start {cost : Double} (hcost : zero.lt cost = true) (item : String) :
    Sound ⟨item, cost, []⟩ where
  cost_pos := hcost
  contributions_pos := nofun
  sorted := .nil
  nearlyWithin := by
    have hroundoff := roundoff_pos
    rw [NearlyWithin, magnitude_covered_nil, Nat.cast_zero, zero_mul]
    positivity

end Sound

/-! ### Totals that are not rounded -/

namespace Exact

variable {k : Nat}

private theorem start {cost : Double} (hcost : cost.magnitude < 2 ^ (53 + k)) (item : String) :
    Exact k ⟨item, cost, []⟩ where
  multiples := nofun
  within := Nat.zero_le _
  cost_lt := hcost

private theorem dvd_total (hexact : e.Exact k) : 2 ^ k ∣ total e.contributions.values := by
  refine List.dvd_sum fun m hm => ?_
  obtain ⟨x, hx, rfl⟩ := List.mem_map.mp hm
  exact hexact.multiples x hx

private theorem dvd_before (hexact : e.Exact k) (user : String) :
    2 ^ k ∣ (e.before user).magnitude := by
  rcases e.before_mem user with hmem | hzero
  · exact hexact.multiples _ hmem
  · rw [hzero]
    exact Nat.dvd_zero _

private theorem magnitude_covered (hexact : e.Exact k) (h : e.Sound) :
    e.covered.magnitude = total e.contributions.values := by
  have hwithin := hexact.within
  have hcost := hexact.cost_lt
  have hzero := magnitude_negativeZero
  have hlimit := magnitude_le_limit e.cost
  have hsum := foldl_add_of_multiple negativeZero_nonneg h.contributions_nonneg
    (hzero ▸ Nat.dvd_zero _) hexact.multiples (by omega) (by omega)
  rwa [hzero, Nat.zero_add] at hsum

private theorem not_lt (hexact : e.Exact k) (h : e.Sound) : e.cost.lt e.covered = false := by
  have hiff := lt_iff_of_nonneg (zero_lt_iff.mp h.cost_pos).le h.covered_nonneg
  have hwithin := hexact.within
  rw [← Bool.not_eq_true, hiff, hexact.magnitude_covered h]
  omega

private theorem total_add_le (hexact : e.Exact k) (h : e.Sound) (hamount : zero.lt amount = true)
    (hmultiple : 2 ^ k ∣ amount.magnitude) (hguard : e.cost.lt (e.covered.add amount) = false)
    (hfinite : e.cost.isInfinite = false) :
    total e.contributions.values + amount.magnitude ≤ e.cost.magnitude := by
  have hcost := hexact.cost_lt
  have htested := add_of_nonneg h.covered_nonneg (zero_lt_iff.mp hamount).le
  obtain ⟨hle, hlimit, _⟩ :=
    finite_of_not_lt (zero_lt_iff.mp h.cost_pos).le htested.1 hfinite hguard
  rw [htested.2, hexact.magnitude_covered h] at hle
  have hsmall : total e.contributions.values + amount.magnitude < 2 ^ (53 + k) := by
    by_contra hlarge
    have hround := two_pow_le_rounded (Nat.not_lt.mp hlarge)
    omega
  rw [rounded_of_multiple (Nat.dvd_add hexact.dvd_total hmultiple) hsmall.le] at hle
  omega

private theorem contribute (hexact : e.Exact k) (h : e.Sound) (hamount : zero.lt amount = true)
    (hmultiple : 2 ^ k ∣ amount.magnitude) (hguard : e.cost.lt (e.covered.add amount) = false)
    (hfinite : e.cost.isInfinite = false) (user : String) : (e.contribute user amount).Exact k := by
  have htested := hexact.total_add_le h hamount hmultiple hguard hfinite
  have hcost := hexact.cost_lt
  have hlimit := magnitude_le_limit e.cost
  have hbefore := e.before_le_total user
  have hnew := magnitude_add_of_multiple (h.before_nonneg user) (zero_lt_iff.mp hamount).le
    (hexact.dvd_before user) hmultiple (by omega) (by omega)
  have htotal := total_contribute h.sorted user amount
  refine ⟨?_, ?_, hcost⟩
  · intro x hx
    rcases mem_values_contribute hx with rfl | hold
    · rw [hnew]
      exact Nat.dvd_add (hexact.dvd_before user) hmultiple
    · exact hexact.multiples x hold
  · show total (e.contribute user amount).contributions.values ≤ e.cost.magnitude
    omega

end Exact

private theorem Sound.not_lt_of_infinite (h : e.Sound) (hinfinite : e.cost.isInfinite = true) :
    e.cost.lt e.covered = false := by
  have hiff := lt_iff_of_nonneg (zero_lt_iff.mp h.cost_pos).le h.covered_nonneg
  have hlimit := magnitude_le_limit e.covered
  rw [← Bool.not_eq_true, hiff, isInfinite_iff.mp hinfinite]
  omega

end Expense

namespace CostSplitting

variable {s : CostSplitting} {action : String} {input : Payload}

/-- How an action on expenses ends. -/
inductive Acts (id : String) (input : Payload) (s : CostSplitting) :
    String → Payload × CostSplitting → Prop
  | declines {action : String} {output : Payload} : output.isError = true →
      Acts id input s action (output, s)
  | creates {item : String} {cost : Double} : positive? input "cost" = some cost →
      Acts id input s "create"
        (.single "expenseId" (.string id), s.insert id ⟨item, cost, []⟩)
  | removes {key : String} {e : Expense} : s.get? key = some e →
      Acts id input s "remove" ([], s.erase key)
  | contributes {user key : String} {amount : Double} {e : Expense} :
      input.text? "userId" = some user → input.text? "expenseId" = some key →
      positive? input "amount" = some amount → s.get? key = some e →
      e.cost.lt (e.covered.add amount) = false →
      Acts id input s "addContribution" ([], s.insert key (e.contribute user amount))

private theorem acts {act : String → Payload → CostSplitting → Payload × CostSplitting}
    (hact : machine.action? action = some act) (id : String) (input : Payload)
    (s : CostSplitting) : Acts id input s action (act id input s) := by
  unfold machine at hact
  simp only at hact
  split at hact <;> cases hact
  · unfold create
    split
    · exact .declines (Payload.isError_error _)
    · split
      · exact .declines (Payload.isError_error _)
      · next hcost => exact .creates hcost
  · unfold remove
    split
    · exact .declines (Payload.isError_error _)
    · split
      · next hthere => exact .removes hthere
      · exact .declines (Payload.isError_error _)
  · unfold addContribution
    split
    · next huser hkey =>
      split
      · exact .declines (Payload.isError_error _)
      · next hamount =>
        split
        · exact .declines (Payload.isError_error _)
        · next hthere =>
          split
          · exact .declines (Payload.isError_error _)
          · next hguard =>
            rw [Bool.not_eq_true] at hguard
            exact .contributes huser hkey hamount hthere hguard
    · exact .declines (Payload.isError_error _)

private theorem zero_lt_of_positive? {field : String} {x : Double}
    (h : positive? input field = some x) :
    zero.lt x = true := (Option.filter_eq_some_iff.mp h).2

/-- A contribution of a call that is accepted. -/
structure Accepts (s : CostSplitting) (call : Machine.Call) (user key : String) (amount : Double)
    (e : Expense) : Prop where
  isContribution : call.action = "addContribution"
  hasUser : call.input.text? "userId" = some user
  hasKey : call.input.text? "expenseId" = some key
  hasAmount : positive? call.input "amount" = some amount
  there : s.get? key = some e
  guard : e.cost.lt (e.covered.add amount) = false

def All (P : Expense → Prop) (s : CostSplitting) : Prop := ∀ entry ∈ s, P entry.2

private theorem All.after {P : Expense → Prop} {call : Machine.Call} (h : s.All P)
    (hcreate : ∀ item cost, positive? call.input "cost" = some cost → P ⟨item, cost, []⟩)
    (hcontribute : ∀ user key amount e, s.Accepts call user key amount e → P e →
      P (e.contribute user amount)) : All P (machine.after s call) := by
  refine Machine.after_keeps (P := All P) (fun act hact => ?_) h
  have hacts := acts hact call.id call.input s
  generalize act call.id call.input s = ended at hacts ⊢
  generalize haction : call.action = action at hacts
  intro entry hentry
  cases hacts with
  | declines _ => exact h entry hentry
  | creates hcost =>
    rcases Table.mem_insert hentry with rfl | hold
    · exact hcreate _ _ hcost
    · exact h entry hold
  | removes _ => exact h entry ((Table.erase_sublist _ _).subset hentry)
  | contributes huser hkey hamount hthere hguard =>
    rcases Table.mem_insert hentry with rfl | hold
    · exact hcontribute _ _ _ _ ⟨haction, huser, hkey, hamount, hthere, hguard⟩
        (h _ (Table.mem_of_get? hthere))
    · exact h entry hold

private theorem Accepts.get?_after {call : Machine.Call} {user key : String} {amount : Double}
    {e : Expense} (h : s.Accepts call user key amount e) :
    (machine.after s call).get? key = some (e.contribute user amount) := by
  have hact : machine.action? call.action = some addContribution := by
    rw [h.isContribution]
    rfl
  have hthere := h.there
  rw [Machine.after_of_action hact]
  simp [addContribution, h.hasUser, h.hasKey, h.hasAmount, hthere, h.guard]

def Accounts (s : CostSplitting) : Prop :=
  ∀ key e, s.get? key = some e → e.Sound ∧ ∀ input, input.text? "expenseId" = some key →
    getTotalContributions input s = [.single "total" (.ofFinite e.covered)]

def WithinCost (s : CostSplitting) : Prop := s.All fun e => e.cost.lt e.covered = false

instance (s : CostSplitting) : Decidable s.WithinCost :=
  inferInstanceAs (Decidable (∀ entry ∈ s, entry.2.cost.lt entry.2.covered = false))

/-- A contribution is accepted, since the total and the amount are together at most the cost, but
the total that is then summed up is above it. -/
def Overshoots (s : CostSplitting) (call : Machine.Call) : Prop :=
  ∃ user key amount e, s.Accepts call user key amount e ∧
    e.cost.lt (e.contribute user amount).covered = true

/-- The amount of a call is a multiple of `2 ^ k` units, and its cost is less than `2 ^ 53` times as
much. -/
def Coarse (k : Nat) (input : Payload) : Prop :=
  (∀ amount ∈ positive? input "amount", 2 ^ k ∣ amount.magnitude) ∧
    ∀ cost ∈ positive? input "cost", cost.magnitude < 2 ^ (53 + k)

instance (k : Nat) (input : Payload) : Decidable (Coarse k input) :=
  inferInstanceAs (Decidable (_ ∧ _))

private theorem sound_run (calls : List Machine.Call) :
    All Expense.Sound (machine.run [] calls) := by
  refine Machine.run_keeps (fun call _ s hsound => ?_) nofun
  refine hsound.after ?_ ?_
  · intro item cost hcost
    exact .start (zero_lt_of_positive? hcost) item
  · intro user key amount e haccepts he
    exact he.contribute (zero_lt_of_positive? haccepts.hasAmount) haccepts.guard user

private theorem accounts_run (calls : List Machine.Call) : (machine.run [] calls).Accounts := by
  intro key e hthere
  refine ⟨sound_run calls _ (Table.mem_of_get? hthere), fun input hkey => ?_⟩
  simp [getTotalContributions, hkey, hthere]

private theorem WithinCost.after (h : s.WithinCost) {call : Machine.Call}
    (hnot : ¬s.Overshoots call) :
    (machine.after s call).WithinCost := by
  refine All.after h ?_ ?_
  · intro item cost hcost
    have hpos := zero_lt_iff.mp (zero_lt_of_positive? hcost)
    have hsound := Expense.Sound.start (zero_lt_of_positive? hcost) item
    have hiff := lt_iff_of_nonneg hpos.le hsound.covered_nonneg
    rw [← Bool.not_eq_true, hiff, Expense.magnitude_covered_nil]
    exact Nat.not_lt_zero _
  · intro user key amount e haccepts _
    by_contra hover
    rw [Bool.not_eq_false] at hover
    exact hnot ⟨user, key, amount, e, haccepts, hover⟩

private theorem Overshoots.not_withinCost {call : Machine.Call} (h : s.Overshoots call) :
    ¬(machine.after s call).WithinCost := by
  intro hwithin
  obtain ⟨user, key, amount, e, haccepts, hover⟩ := h
  have hkept : e.cost.lt (e.contribute user amount).covered = false :=
    hwithin _ (Table.mem_of_get? haccepts.get?_after)
  rw [hover] at hkept
  cases hkept

private theorem withinCost_iff (calls : List Machine.Call) :
    (∀ before, before <+: calls → (machine.run [] before).WithinCost) ↔
      ∀ before call, before ++ [call] <+: calls → ¬(machine.run [] before).Overshoots call := by
  constructor
  · intro h before call hprefix hover
    have hwithin := h _ hprefix
    rw [Machine.run_concat] at hwithin
    exact hover.not_withinCost hwithin
  · intro h before
    induction before using List.reverseRecOn with
    | nil => exact fun _ => nofun
    | append_singleton before call ih =>
      intro hprefix
      rw [Machine.run_concat]
      exact (ih ((List.prefix_append before [call]).trans hprefix)).after (h before call hprefix)

private theorem withinCost_of_coarse {k : Nat} {calls : List Machine.Call}
    (hcoarse : ∀ call ∈ calls, Coarse k call.input) : (machine.run [] calls).WithinCost := by
  have hexact : All (fun e => e.Sound ∧ (e.cost.isInfinite = false → e.Exact k))
      (machine.run [] calls) := by
    refine Machine.run_keeps (fun call hcall s hs => ?_) nofun
    obtain ⟨hamounts, hcosts⟩ := hcoarse call hcall
    refine hs.after ?_ ?_
    · intro item cost hcost
      exact ⟨.start (zero_lt_of_positive? hcost) item, fun _ => .start (hcosts cost hcost) item⟩
    · rintro user key amount e haccepts ⟨hsound, hexact⟩
      have hpos := zero_lt_of_positive? haccepts.hasAmount
      have hmultiple := hamounts amount haccepts.hasAmount
      refine ⟨hsound.contribute hpos haccepts.guard user, fun hfinite => ?_⟩
      exact (hexact hfinite).contribute hsound hpos hmultiple haccepts.guard hfinite user
  intro entry hentry
  obtain ⟨hsound, hexact⟩ := hexact entry hentry
  by_cases hfinite : entry.2.cost.isInfinite = false
  · exact (hexact hfinite).not_lt hsound
  · rw [Bool.not_eq_false] at hfinite
    exact hsound.not_lt_of_infinite hfinite

/-- Whatever calls are made, every expense has a positive cost and positive contributions, and the
total that is reported of it is at most the cost but for rounding. It is at most the cost itself,
all along, exactly as long as no call overshoots, and whenever nothing has to be rounded. -/
theorem contributions_run (calls : List Machine.Call) :
    (machine.run [] calls).Accounts ∧
      ((∀ before, before <+: calls → (machine.run [] before).WithinCost) ↔
        ∀ before call, before ++ [call] <+: calls → ¬(machine.run [] before).Overshoots call) ∧
      ∀ k, (∀ call ∈ calls, Coarse k call.input) → (machine.run [] calls).WithinCost :=
  ⟨accounts_run calls, withinCost_iff calls, fun _ => withinCost_of_coarse⟩

private def contributes (user : String) (amount : Value) : Machine.Call :=
  ⟨"", "addContribution",
    [("amount", amount), ("expenseId", .string "x1"), ("userId", .string user)]⟩

private def lunch : List Machine.Call :=
  [⟨"x1", "create", [("cost", .ofNat 60), ("item", .string "lunch")]⟩,
    contributes "ana" (.ofNat 40), contributes "ben" (.ofNat 30), contributes "ben" (.ofNat 20)]

theorem contributions_run_lunch :
    (∀ call ∈ lunch, Coarse 1074 call.input) ∧
      (machine.run [] lunch).map (fun e => (e.1, e.2.covered)) = [("x1", ofInt 60)] ∧
      (machine.run [] lunch).Accounts ∧ (machine.run [] lunch).WithinCost := by
  have hcoarse : ∀ call ∈ lunch, Coarse 1074 call.input := by decide +kernel
  obtain ⟨haccounts, _, hwithin⟩ := contributions_run lunch
  exact ⟨hcoarse, by decide +kernel, haccounts, hwithin 1074 hcoarse⟩

private def tenths (n : Int) : Value := .ofDouble ((ofInt n).div (ofInt 10))

private def dinner : List Machine.Call :=
  [⟨"x1", "create", [("cost", tenths 6), ("item", .string "dinner")]⟩,
    contributes "ben" (tenths 2), contributes "cleo" (tenths 3), contributes "ana" (tenths 1)]

/-- The contributions to a dinner are summed up in another order than they were made in, and then
the total is above the cost. -/
theorem not_withinCost_dinner : ∃ e, (machine.run [] dinner).get? "x1" = some e ∧
    getTotalContributions [("expenseId", .string "x1")] (machine.run [] dinner) =
      [.single "total" (.ofDouble e.covered)] ∧ e.cost.lt e.covered = true := by
  have hover : ∃ e ∈ (machine.run [] dinner).get? "x1",
      e.covered.isInfinite = false ∧ e.cost.lt e.covered = true := by decide +kernel
  obtain ⟨e, hthere, hfinite, hover⟩ := hover
  have htotal := (accounts_run dinner "x1" e hthere).2 [("expenseId", .string "x1")] (by decide)
  rw [Value.ofFinite, hfinite, if_neg Bool.false_ne_true] at htotal
  exact ⟨e, hthere, htotal, hover⟩

end CostSplitting

end Travel

end ConceptSync
