import Mathlib.Data.List.Nodup
import ConceptSync.Machine

set_option autoImplicit false
set_option relaxedAutoImplicit false

/-!
Calls of a machine: what it answers to one, and the state that a sequence of them leaves.
-/

namespace ConceptSync

namespace Machine

variable {S : Type}

/-- A call of an action, with the identifier that it may issue. -/
structure Call where
  id : String
  action : String
  input : Payload

def answer? (m : Machine S) (s : S) (call : Call) : Option Payload :=
  (m.action? call.action).map fun act => (act call.id call.input s).1

def after (m : Machine S) (s : S) (call : Call) : S :=
  match m.action? call.action with
  | none => s
  | some act => (act call.id call.input s).2

def run (m : Machine S) (s : S) (calls : List Call) : S := calls.foldl m.after s

variable {m : Machine S} {s : S} {call : Call}

theorem after_of_action {act : String → Payload → S → Payload × S}
    (h : m.action? call.action = some act) : m.after s call = (act call.id call.input s).2 := by
  simp [after, h]

theorem after_of_no_action (h : m.action? call.action = none) : m.after s call = s := by
  simp [after, h]

theorem after_keeps {P : S → Prop}
    (hkeeps : ∀ act, m.action? call.action = some act → P (act call.id call.input s).2)
    (hs : P s) : P (m.after s call) := by
  cases hact : m.action? call.action with
  | none => rwa [after_of_no_action hact]
  | some act =>
    rw [after_of_action hact]
    exact hkeeps act hact

theorem run_cons (m : Machine S) (s : S) (call : Call) (rest : List Call) :
    m.run s (call :: rest) = m.run (m.after s call) rest := rfl

theorem run_concat (m : Machine S) (s : S) (calls : List Call) (call : Call) :
    m.run s (calls ++ [call]) = m.after (m.run s calls) call := by
  simp [run, List.foldl_append]

/-- What every call of a run keeps, the run keeps. -/
theorem run_keeps {P : S → Prop} {calls : List Call}
    (hkeeps : ∀ call ∈ calls, ∀ s, P s → P (m.after s call)) (hs : P s) : P (m.run s calls) := by
  induction calls generalizing s with
  | nil => exact hs
  | cons call rest ih =>
    obtain ⟨hcall, hrest⟩ := List.forall_mem_cons.mp hkeeps
    rw [run_cons]
    exact ih hrest (hcall s hs)

/-- What every call keeps that may issue a new identifier, the run keeps that issues none twice. -/
theorem run_fresh {P : S → List String → Prop} {ids : List String} {calls : List Call}
    (hkeeps : ∀ s ids call, P s ids → call.id ∉ ids → P (m.after s call) (ids ++ [call.id]))
    (hfresh : (ids ++ calls.map Call.id).Nodup) (hs : P s ids) :
    P (m.run s calls) (ids ++ calls.map Call.id) := by
  induction calls generalizing s ids with
  | nil => simpa [run] using hs
  | cons call rest ih =>
    have hnew : call.id ∉ ids := by
      intro hmem
      exact List.disjoint_of_nodup_append hfresh hmem (by simp)
    have hrest := ih (by simpa using hfresh) (hkeeps s ids call hs hnew)
    simpa [run_cons] using hrest

end Machine

end ConceptSync
