import ConceptSync.Frame
import ConceptSync.Proofs.Table
import ConceptSync.Proofs.Value

set_option autoImplicit false
set_option relaxedAutoImplicit false

/-!
Merging frames. Two frames merge exactly when they are compatible, that is, when every variable they
share has equal values in both. The merge is left-biased: it keeps the values of the first frame,
and since equality by value is transitive the bias does not decide what else it is compatible with.
-/

namespace ConceptSync

namespace Var

private theorem ne_of_lt {v w : Var} (h : v < w) : v ≠ w := by
  rintro rfl
  exact Nat.lt_irrefl _ h

private theorem lt_trans {u v w : Var} (huv : u < v) (hvw : v < w) : u < w := Nat.lt_trans huv hvw

private theorem lt_of_ne_of_not_lt {v w : Var} (hne : v ≠ w) (hge : ¬w < v) : v < w := by
  obtain ⟨m⟩ := v
  obtain ⟨n⟩ := w
  exact Nat.lt_of_le_of_ne (Nat.le_of_not_lt hge) fun heq => hne (congrArg Var.mk heq)

end Var

namespace Frame

/-- Every shared variable has equal values, numbers by value. -/
def Compatible (f g : Frame) : Prop :=
  ∀ v a b, f.get? v = some a → g.get? v = some b → a.equals b = true

def adopt (f : Frame) (e : Var × Value) : Frame :=
  if f.contains e.1 then f else f.insert e.1 e.2

/-- The bindings of both frames, those of the first where both have one. -/
def overlay (f g : Frame) : Frame := g.foldl adopt f

variable {f g h : Frame}

theorem Compatible.symm (hfg : f.Compatible g) : g.Compatible f := by
  intro v a b ha hb
  rw [Value.equals_comm]
  exact hfg v b a hb ha

private theorem get?_adopt (f : Frame) (e : Var × Value) (v : Var) :
    (f.adopt e).get? v = (f.get? v).or (if e.1 = v then some e.2 else none) := by
  unfold adopt Table.contains
  by_cases heq : e.1 = v
  · subst heq
    cases hbound : f.get? e.1 <;> simp [hbound]
  · cases hbound : f.get? e.1 <;> simp [heq, Table.get?_insert]

theorem get?_overlay (f g : Frame) (v : Var) :
    (f.overlay g).get? v = (f.get? v).or (g.get? v) := by
  unfold overlay
  induction g generalizing f with
  | nil => simp [Table.get?]
  | cons e rest ih =>
    rw [List.foldl_cons, ih, get?_adopt, Option.or_assoc]
    congr 1
    simp only [Table.get?]
    split <;> rfl

private theorem bind?_eq_some_iff {v : Var} {value : Value} :
    f.bind? v value = some h ↔
      (∀ a, f.get? v = some a → a.equals value = true) ∧ f.adopt (v, value) = h := by
  unfold bind? adopt Table.contains
  cases f.get? v with
  | none => simp
  | some bound => by_cases heq : bound.equals value = true <;> simp [heq]

theorem bindAll?_eq_some_iff {entries : List (Var × Value)} :
    f.bindAll? entries = some h ↔
      (∀ e ∈ entries, ∀ a, (f.overlay entries).get? e.1 = some a → a.equals e.2 = true) ∧
        f.overlay entries = h := by
  induction entries generalizing f with
  | nil => simp [bindAll?, overlay]
  | cons e rest ih =>
    obtain ⟨v, value⟩ := e
    have hrest : f.overlay ((v, value) :: rest) = (f.adopt (v, value)).overlay rest := rfl
    have hfirst : (∀ a, ((f.adopt (v, value)).overlay rest).get? v = some a →
        a.equals value = true) ↔ ∀ a, f.get? v = some a → a.equals value = true := by
      rw [get?_overlay, get?_adopt]
      cases f.get? v <;> simp
    have hbound : f.bindAll? ((v, value) :: rest) = some h ↔
        ∃ g, f.bind? v value = some g ∧ g.bindAll? rest = some h := by
      simp only [bindAll?]
      cases f.bind? v value <;> simp
    rw [hbound, List.forall_mem_cons, hrest, hfirst]
    simp only [bind?_eq_some_iff]
    constructor
    · rintro ⟨_, ⟨hvalue, rfl⟩, hlater⟩
      obtain ⟨hvalues, hframe⟩ := ih.mp hlater
      exact ⟨⟨hvalue, hvalues⟩, hframe⟩
    · rintro ⟨⟨hvalue, hvalues⟩, hframe⟩
      exact ⟨_, ⟨hvalue, rfl⟩, ih.mpr ⟨hvalues, hframe⟩⟩

/-- Frames merge exactly if they are compatible, and the merge has the bindings of both. -/
theorem merge?_eq_some_iff (hkeys : g.keys.Nodup) :
    f.merge? g = some h ↔ f.Compatible g ∧ f.overlay g = h := by
  rw [merge?, bindAll?_eq_some_iff]
  refine and_congr_left fun _ => ⟨fun hentries v a b ha hb => ?_, fun hcompatible e he a ha => ?_⟩
  · exact hentries (v, b) (Table.mem_of_get? hb) a (by rw [get?_overlay, ha, Option.some_or])
  · have hvalue : g.get? e.1 = some e.2 := Table.get?_of_mem hkeys he
    rw [get?_overlay, hvalue] at ha
    cases hbound : f.get? e.1 with
    | none =>
      obtain rfl : e.2 = a := by rwa [hbound, Option.none_or, Option.some.injEq] at ha
      exact Value.equals_refl e.2
    | some bound =>
      obtain rfl : bound = a := by rwa [hbound, Option.some_or, Option.some.injEq] at ha
      exact hcompatible e.1 bound e.2 hbound hvalue

theorem compatible_overlay_iff (hfg : f.Compatible g) :
    (f.overlay g).Compatible h ↔ f.Compatible h ∧ g.Compatible h := by
  constructor
  · intro hmerge
    constructor
    · intro v a c ha hc
      exact hmerge v a c (by rw [get?_overlay, ha, Option.some_or]) hc
    · intro v b c hb hc
      cases ha : f.get? v with
      | none => exact hmerge v b c (by rw [get?_overlay, ha, Option.none_or, hb]) hc
      | some a =>
        have hac := hmerge v a c (by rw [get?_overlay, ha, Option.some_or]) hc
        have hba := hfg.symm v b a hb ha
        exact Value.equals_trans hba hac
  · rintro ⟨hfh, hgh⟩ v a c ha hc
    rw [get?_overlay] at ha
    cases hf : f.get? v with
    | none =>
      rw [hf, Option.none_or] at ha
      exact hgh v a c ha hc
    | some a' =>
      rw [hf, Option.some_or] at ha
      exact hfh v a c (hf.trans ha) hc

def Covers (h f : Frame) : Prop :=
  ∀ v b, f.get? v = some b → ∃ a, h.get? v = some a ∧ (a = b ∨ a.equals b = true)

private theorem covers_refl (f : Frame) : f.Covers f := fun _ b hb => ⟨b, hb, .inl rfl⟩

private theorem covers_overlay_left (hf : f.Covers h) (g : Frame) : (f.overlay g).Covers h := by
  intro v b hb
  obtain ⟨a, ha, heq⟩ := hf v b hb
  exact ⟨a, by rw [get?_overlay, ha, Option.some_or], heq⟩

private theorem Compatible.covers_overlay (hfg : f.Compatible g) : (f.overlay g).Covers g := by
  intro v b hb
  rw [get?_overlay]
  cases ha : f.get? v with
  | none => exact ⟨b, by rw [Option.none_or, hb], .inl rfl⟩
  | some a => exact ⟨a, by rw [Option.some_or], .inr (hfg v a b ha hb)⟩

def overlayAll (f : Frame) (gs : List Frame) : Frame := gs.foldl overlay f

theorem get?_overlayAll (f : Frame) (gs : List Frame) (v : Var) :
    (f.overlayAll gs).get? v = (f :: gs).findSome? (·.get? v) := by
  unfold overlayAll
  induction gs generalizing f with
  | nil => cases hf : f.get? v <;> simp [hf]
  | cons g gs ih =>
    rw [List.foldl_cons, ih, List.findSome?_cons, List.findSome?_cons, List.findSome?_cons,
      get?_overlay]
    cases f.get? v <;> simp

private theorem covers_overlayAll_left (hf : f.Covers h) (gs : List Frame) :
    (f.overlayAll gs).Covers h := by
  induction gs generalizing f with
  | nil => exact hf
  | cons g gs ih => exact ih (covers_overlay_left hf g)

theorem covers_overlayAll {gs : List Frame} (hcompatible : (f :: gs).Pairwise Compatible) :
    ∀ g ∈ f :: gs, (f.overlayAll gs).Covers g := by
  induction gs generalizing f with
  | nil =>
    intro g hg
    obtain rfl := List.mem_singleton.mp hg
    exact covers_refl g
  | cons g gs ih =>
    simp only [List.pairwise_cons, List.forall_mem_cons] at hcompatible
    obtain ⟨⟨hfg, hf⟩, hg, hgs⟩ := hcompatible
    have hlater := ih (f := f.overlay g) (List.pairwise_cons.mpr
      ⟨fun k hk => (compatible_overlay_iff hfg).mpr ⟨hf k hk, hg k hk⟩, hgs⟩)
    simp only [List.forall_mem_cons] at hlater ⊢
    refine ⟨?_, ?_, hlater.2⟩
    · exact covers_overlayAll_left (covers_overlay_left (covers_refl f) g) gs
    · exact covers_overlayAll_left hfg.covers_overlay gs

def Sorted (f : Frame) : Prop := f.Pairwise fun d e => d.1 < e.1

instance (f : Frame) : Decidable f.Sorted :=
  inferInstanceAs (Decidable (f.Pairwise fun d e => d.1 < e.1))

theorem sorted_empty : empty.Sorted := List.Pairwise.nil

namespace Sorted

theorem nodup_keys (hf : f.Sorted) : f.keys.Nodup :=
  List.pairwise_map.mpr (hf.imp Var.ne_of_lt)

protected theorem insert (hf : f.Sorted) (v : Var) (value : Value) :
    Sorted (Table.insert f v value) :=
  Table.pairwise_insert Var.lt_trans Var.lt_of_ne_of_not_lt hf v value

private theorem adopt (hf : f.Sorted) (e : Var × Value) : (f.adopt e).Sorted := by
  unfold Frame.adopt
  split
  · exact hf
  · exact hf.insert e.1 e.2

theorem overlay (hf : f.Sorted) (entries : List (Var × Value)) : (f.overlay entries).Sorted := by
  unfold Frame.overlay
  induction entries generalizing f with
  | nil => exact hf
  | cons e rest ih => exact ih (hf.adopt e)

theorem overlayAll (hf : f.Sorted) (gs : List Frame) : (f.overlayAll gs).Sorted := by
  unfold Frame.overlayAll
  induction gs generalizing f with
  | nil => exact hf
  | cons g gs ih => exact ih (hf.overlay g)

theorem eq_of_get? (hf : f.Sorted) (hg : g.Sorted) (hget : ∀ v, f.get? v = g.get? v) : f = g := by
  have hmem : ∀ {k : Frame}, k.Sorted → ∀ e, e ∈ k ↔ k.get? e.1 = some e.2 := fun hk _ =>
    ⟨Table.get?_of_mem hk.nodup_keys, Table.mem_of_get?⟩
  have hnodup : ∀ {k : Frame}, k.Sorted → List.Nodup k := fun hk =>
    hk.imp fun hlt heq => Var.ne_of_lt hlt (congrArg Prod.fst heq)
  have hperm : f.Perm g := (List.perm_ext_iff_of_nodup (hnodup hf) (hnodup hg)).mpr fun e => by
    rw [hmem hf, hmem hg, hget]
  exact hperm.eq_of_pairwise (fun _ _ _ _ hlt hgt => absurd hgt (Nat.lt_asymm hlt)) hf hg

end Sorted

end Frame

end ConceptSync
