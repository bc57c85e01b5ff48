import Mathlib.Data.Option.Basic
import Mathlib.Logic.Relator
import ConceptSync.Proofs.Engine.CycleGuard

set_option autoImplicit false
set_option relaxedAutoImplicit false

/-!
Two executions of one run, record by record. Twins are the records that have the same place in
both; they tell the same completion under two numberings. What the cycle guard asks has the same
answer for twins, because the causes of twins are twins.
-/

namespace ConceptSync

variable {σ : Type}

abbrev Twins := List (Record × Record)

namespace Twins

def Names {α : Type} (f : Record → α) (ts : Twins) (a a' : α) : Prop :=
  ∃ t ∈ ts, f t.1 = a ∧ f t.2 = a'

variable {ts : Twins} {α : Type} {f : Record → α}

theorem names_of_mem {t : Record × Record} (ht : t ∈ ts) : ts.Names f (f t.1) (f t.2) :=
  ⟨t, ht, rfl, rfl⟩

theorem Names.mono {more : Twins} (hsub : ∀ t ∈ ts, t ∈ more) {a a' : α} (h : ts.Names f a a') :
    more.Names f a a' := by
  obtain ⟨t, ht, hnames⟩ := h
  exact ⟨t, hsub t ht, hnames⟩

theorem biUnique_names (h : ((ts.map Prod.fst).map f).Nodup)
    (h' : ((ts.map Prod.snd).map f).Nodup) : Relator.BiUnique (ts.Names f) := by
  rw [List.map_map] at h h'
  constructor
  · rintro _ _ _ ⟨t, ht, rfl, rfl⟩ ⟨u, hu, rfl, heq⟩
    rw [List.inj_on_of_nodup_map h' ht hu heq.symm]
  · rintro _ _ _ ⟨t, ht, rfl, rfl⟩ ⟨u, hu, heq, rfl⟩
    rw [List.inj_on_of_nodup_map h ht hu heq.symm]

end Twins

/-- Two records tell the same completion under two numberings. -/
structure Record.Alike (R : Int → Int → Prop) (r r' : Record) : Prop where
  action : r.action = r'.action
  parent : Option.Rel R r.parent r'.parent
  causedBy : Option.Rel R r.causedBy r'.causedBy
  depth : r.depth = r'.depth
  input : r.input = r'.input
  output : r.output = r'.output

private theorem optionRel_mono {R S : Int → Int → Prop} (hsub : ∀ s s', R s s' → S s s')
    {o o' : Option Int} (h : Option.Rel R o o') : Option.Rel S o o' := by
  cases h with
  | some h => exact .some (hsub _ _ h)
  | none => exact .none

namespace Record.Alike

variable {R S : Int → Int → Prop} {r r' : Record}

private theorem mono (hsub : ∀ s s', R s s' → S s s') (h : r.Alike R r') : r.Alike S r' :=
  { h with parent := optionRel_mono hsub h.parent, causedBy := optionRel_mono hsub h.causedBy }

theorem root (h : r.IsRoot) (h' : r'.IsRoot) (haction : r.action = r'.action)
    (hinput : r.input = r'.input) (houtput : r.output = r'.output) : r.Alike R r' where
  action := haction
  parent := by
    rw [h.parent, h'.parent]
    exact .none
  causedBy := by
    rw [h.causedBy, h'.causedBy]
    exact .none
  depth := h.depth.trans h'.depth.symm
  input := hinput
  output := houtput

theorem child {cause cause' : Record} (hcause : cause.Alike R cause')
    (hseq : R cause.seq cause'.seq) (h : r.ChildOf cause) (h' : r'.ChildOf cause')
    (haction : r.action = r'.action) (hinput : r.input = r'.input)
    (houtput : r.output = r'.output) : r.Alike R r' where
  action := haction
  parent := by
    rw [h.parent, h'.parent]
    exact .some hseq
  causedBy := by
    rw [h.causedBy, h'.causedBy]
    refine .some ?_
    have htop := hcause.causedBy
    generalize cause.causedBy = top, cause'.causedBy = top' at htop ⊢
    cases htop with
    | some htop => exact htop
    | none => exact hseq
  depth := by rw [h.depth, h'.depth, hcause.depth]
  input := hinput
  output := houtput

end Record.Alike

/-- Twins that tell the same completions, each grown as the records of a run are. -/
structure Twins.Grown (ts : Twins) : Prop where
  first : ConceptSync.Grown (ts.map Prod.fst)
  second : ConceptSync.Grown (ts.map Prod.snd)
  alike : ∀ t ∈ ts, t.1.Alike (ts.Names Record.seq) t.2

private theorem causes_along {α : Type} {f g : α → Record} {as : List α}
    (hparent : ∀ a ∈ as, ∀ b ∈ as, (f b).parent = some (f a).seq → (g b).parent = some (g a).seq)
    {x : Record} {b : α} (hb : b ∈ as) (h : Causes (as.map f) x (f b)) :
    ∃ a ∈ as, f a = x ∧ Causes (as.map g) (g a) (g b) := by
  have hstep : ∀ {a b : α}, a ∈ as → b ∈ as → (f b).parent = some (f a).seq →
      Causes (as.map g) (g a) (g b) := fun ha hb h =>
    .single ⟨List.mem_map_of_mem ha, List.mem_map_of_mem hb, hparent _ ha _ hb h⟩
  generalize hr : f b = r at h
  induction h generalizing b with
  | single hlast =>
    subst hr
    obtain ⟨a, ha, rfl⟩ := List.mem_map.mp hlast.1
    exact ⟨a, ha, rfl, hstep ha hb hlast.2.2⟩
  | tail _ hlast ih =>
    subst hr
    obtain ⟨c, hc, rfl⟩ := List.mem_map.mp hlast.1
    obtain ⟨a, ha, rfl, hbefore⟩ := ih hc rfl
    exact ⟨a, ha, rfl, hbefore.trans (hstep hc hb hlast.2.2)⟩

private theorem repeats_along {α : Type} {f g : α → Record} {as : List α}
    (hparent : ∀ a ∈ as, ∀ b ∈ as, (f b).parent = some (f a).seq → (g b).parent = some (g a).seq)
    (hsame : ∀ a ∈ as, (f a).action = (g a).action ∧ (f a).input = (g a).input) {b : α}
    (hb : b ∈ as) {action : String} {input : Payload}
    (h : RepeatsChain (as.map f) action input (f b)) :
    RepeatsChain (as.map g) action input (g b) := by
  obtain ⟨x, rfl | hcauses, haction, hinput⟩ := h
  · obtain ⟨hact, hin⟩ := hsame b hb
    exact ⟨g b, .inl rfl, hact ▸ haction, hin ▸ hinput⟩
  · obtain ⟨a, ha, rfl, hchain⟩ := causes_along hparent hb hcauses
    obtain ⟨hact, hin⟩ := hsame a ha
    exact ⟨g a, .inr hchain, hact ▸ haction, hin ▸ hinput⟩

namespace Twins.Grown

variable {ts : Twins}

theorem biUnique (h : ts.Grown) : Relator.BiUnique (ts.Names Record.seq) :=
  biUnique_names
    (List.pairwise_map.mpr (h.first.increasing.imp fun hlt => Int.ne_of_lt hlt))
    (List.pairwise_map.mpr (h.second.increasing.imp fun hlt => Int.ne_of_lt hlt))

private theorem parent_iff (h : ts.Grown) {t u : Record × Record} (ht : t ∈ ts) (hu : u ∈ ts) :
    u.1.parent = some t.1.seq ↔ u.2.parent = some t.2.seq := by
  have hseq : ts.Names Record.seq t.1.seq t.2.seq := names_of_mem ht
  have hparent := (h.alike u hu).parent
  constructor
  · intro hfirst
    rw [hfirst] at hparent
    generalize u.2.parent = parent at hparent ⊢
    cases hparent with
    | some hnames => rw [h.biUnique.2 hseq hnames]
  · intro hsecond
    rw [hsecond] at hparent
    generalize u.1.parent = parent at hparent ⊢
    cases hparent with
    | some hnames => rw [h.biUnique.1 hseq hnames]

private theorem repeatsChain_iff (h : ts.Grown) {t : Record × Record} (ht : t ∈ ts)
    {action : String} {input : Payload} :
    RepeatsChain (ts.map Prod.fst) action input t.1 ↔
      RepeatsChain (ts.map Prod.snd) action input t.2 := by
  have hsame := fun t ht => (⟨(h.alike t ht).action, (h.alike t ht).input⟩ : _ ∧ _)
  constructor
  · exact repeats_along (fun _ ha _ hb => (h.parent_iff ha hb).mp) hsame ht
  · exact repeats_along (fun _ ha _ hb => (h.parent_iff ha hb).mpr)
      (fun t ht => ⟨(hsame t ht).1.symm, (hsame t ht).2.symm⟩) ht

theorem refusal_eq (h : ts.Grown) {p p' : Progress σ RecordStore}
    (hrecords : ts.map Prod.fst = p.records) (hrecords' : ts.map Prod.snd = p'.records)
    (hstore : p.stage.store.Reachable) (hstore' : p'.stage.store.Reachable)
    {t : Record × Record} (ht : t ∈ ts) (engine : Engine σ) (action : String) (input : Payload) :
    refusal engine action input t.1 p.stage.store =
      refusal engine action input t.2 p'.stage.store := by
  have hmem : t.1 ∈ p.records := hrecords ▸ List.mem_map_of_mem ht
  have hmem' : t.2 ∈ p'.records := hrecords' ▸ List.mem_map_of_mem ht
  have hiff : RepeatsChain p.records action input t.1 ↔ RepeatsChain p'.records action input t.2 :=
    hrecords ▸ hrecords' ▸ h.repeatsChain_iff ht
  have hcauses : repeatsCause p.stage.store action input t.1 =
      repeatsCause p'.stage.store action input t.2 := by
    rw [Progress.repeatsCause_eq hstore (hrecords ▸ h.first) hmem,
      Progress.repeatsCause_eq hstore' (hrecords' ▸ h.second) hmem', decide_eq_decide.mpr hiff]
  unfold refusal
  simp only [hcauses, (h.alike t ht).depth]

theorem snoc (h : ts.Grown) {r r' : Record}
    (hfirst : ConceptSync.Grown (ts.map Prod.fst ++ [r]))
    (hsecond : ConceptSync.Grown (ts.map Prod.snd ++ [r']))
    (halike : r.Alike (ts.Names Record.seq) r') : Twins.Grown (ts ++ [(r, r')]) := by
  have hsub : ∀ s s', ts.Names Record.seq s s' →
      Twins.Names Record.seq (ts ++ [(r, r')]) s s' :=
    fun _ _ => Twins.Names.mono fun t ht => List.mem_append_left _ ht
  refine ⟨by simpa using hfirst, by simpa using hsecond, fun t ht => ?_⟩
  rcases List.mem_append.mp ht with hold | hnew
  · exact (h.alike t hold).mono hsub
  · obtain rfl := List.mem_singleton.mp hnew
    exact halike.mono hsub

end Twins.Grown

end ConceptSync
