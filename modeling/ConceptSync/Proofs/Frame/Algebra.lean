import ConceptSync.Proofs.Frame.Templates

set_option autoImplicit false
set_option relaxedAutoImplicit false

/-!
The algebra of merging. Frames that are equal by value can stand for one another, and up to that
equality merging is a partial operation that is commutative, associative and idempotent, with the
empty frame as its unit. Merges that are grouped differently are even the same frame, because the
leftmost value wins in all of them.
-/

namespace ConceptSync

namespace Frame

instance (f g : Frame) : Decidable (f.Compatible g) :=
  decidable_of_iff (∀ v ∈ f.keys, ∀ a ∈ f.get? v, ∀ b ∈ g.get? v, a.equals b = true)
    ⟨fun h v a b ha hb => h v (Table.isSome_get?.mp (by rw [ha, Option.isSome_some])) a ha b hb,
      fun h v _ a ha b hb => h v a b ha hb⟩

def Equals (f g : Frame) : Prop := (∀ v, f.contains v = g.contains v) ∧ f.Compatible g

variable {f f' g g' h : Frame}

private theorem compatible_refl (f : Frame) : f.Compatible f := by
  intro v a b ha hb
  obtain rfl : a = b := Option.some.inj (ha.symm.trans hb)
  exact a.equals_refl

private theorem compatible_comm : f.Compatible g ↔ g.Compatible f := ⟨.symm, .symm⟩

private theorem compatible_empty (f : Frame) : f.Compatible empty := nofun

theorem contains_overlay (f g : Frame) (v : Var) :
    (f.overlay g).contains v = (f.contains v || g.contains v) := by
  rw [Table.contains, get?_overlay, Option.isSome_or]
  rfl

private theorem get?_eq_none {v : Var} (h : f.contains v = false) : f.get? v = none := by
  rwa [Table.contains, Option.isSome_eq_false_iff, Option.isNone_iff_eq_none] at h

private theorem Equals.exists_get? (hfg : f.Equals g) {v : Var} {a : Value}
    (ha : f.get? v = some a) :
    ∃ b, g.get? v = some b ∧ a.equals b = true := by
  have hcontains := hfg.1 v
  rw [Table.contains, Table.contains, ha] at hcontains
  obtain ⟨b, hb⟩ := Option.isSome_iff_exists.mp hcontains.symm
  exact ⟨b, hb, hfg.2 v a b ha hb⟩

private theorem Equals.symm (hfg : f.Equals g) : g.Equals f := ⟨fun v => (hfg.1 v).symm, hfg.2.symm⟩

private theorem equals_equivalence : Equivalence Equals where
  refl f := ⟨fun _ => rfl, compatible_refl f⟩
  symm := Equals.symm
  trans {f g k} hfg hgk := by
    refine ⟨fun v => (hfg.1 v).trans (hgk.1 v), fun v a c ha hc => ?_⟩
    obtain ⟨b, hb, hab⟩ := hfg.exists_get? ha
    exact Value.equals_trans hab (hgk.2 v b c hb hc)

private theorem Equals.compatible (hf : f.Equals f') (hfg : f.Compatible g) : f'.Compatible g := by
  intro v a' b ha' hb
  obtain ⟨a, ha, haa⟩ := hf.symm.exists_get? ha'
  exact Value.equals_trans haa (hfg v a b ha hb)

private theorem Equals.compatible_iff (hf : f.Equals f') : f.Compatible g ↔ f'.Compatible g :=
  ⟨hf.compatible, hf.symm.compatible⟩

private theorem Equals.overlay (hf : f.Equals f') (hg : g.Equals g') :
    (f.overlay g).Equals (f'.overlay g') := by
  refine ⟨fun v => by rw [contains_overlay, contains_overlay, hf.1, hg.1], fun v x y hx hy => ?_⟩
  rw [get?_overlay] at hx hy
  cases ha : f.get? v with
  | some a =>
    obtain ⟨a', ha', heq⟩ := hf.exists_get? ha
    rw [ha, Option.some_or] at hx
    rw [ha', Option.some_or] at hy
    cases hx
    cases hy
    exact heq
  | none =>
    have ha' : f'.get? v = none := get?_eq_none (by rw [← hf.1, Table.contains, ha]; rfl)
    rw [ha, Option.none_or] at hx
    rw [ha', Option.none_or] at hy
    exact hg.2 v x y hx hy

private theorem Compatible.equals_overlay (hfg : f.Compatible g) :
    (f.overlay g).Equals (g.overlay f) := by
  refine ⟨fun v => by rw [contains_overlay, contains_overlay, Bool.or_comm], ?_⟩
  rw [compatible_overlay_iff hfg, compatible_comm, compatible_overlay_iff hfg.symm,
    compatible_comm (f := g) (g := g.overlay f), compatible_overlay_iff hfg.symm]
  exact ⟨⟨hfg.symm, compatible_refl f⟩, compatible_refl g, hfg⟩

private theorem overlay_assoc (hf : f.Sorted) (g h : Frame) :
    (f.overlay g).overlay h = f.overlay (g.overlay h) := by
  refine ((hf.overlay g).overlay h).eq_of_get? (hf.overlay _) fun v => ?_
  simp only [get?_overlay, Option.or_assoc]

private theorem overlay_self (hf : f.Sorted) : f.overlay f = f :=
  (hf.overlay f).eq_of_get? hf fun v => by rw [get?_overlay, Option.or_self]

private theorem empty_overlay (hf : f.Sorted) : empty.overlay f = f :=
  (sorted_empty.overlay f).eq_of_get? hf fun v => by
    rw [get?_overlay]
    exact Option.none_or

private theorem merge?_eq_ite (hg : g.Sorted) :
    f.merge? g = if f.Compatible g then some (f.overlay g) else none := by
  refine Option.ext fun m => ?_
  rw [merge?_eq_some_iff hg.nodup_keys]
  split <;> simp [*]

private theorem merge?_comm (hf : f.Sorted) (hg : g.Sorted) :
    Option.Rel Equals (f.merge? g) (g.merge? f) := by
  rw [merge?_eq_ite hg, merge?_eq_ite hf]
  by_cases hfg : f.Compatible g
  · rw [if_pos hfg, if_pos hfg.symm]
    exact .some hfg.equals_overlay
  · rw [if_neg hfg, if_neg fun hgf => hfg hgf.symm]
    exact .none

private theorem merge?_assoc (hf : f.Sorted) (hg : g.Sorted) (hh : h.Sorted) :
    (f.merge? g).bind (·.merge? h) = (g.merge? h).bind (f.merge? ·) := by
  have hleft : ∀ m, (f.merge? g).bind (·.merge? h) = some m ↔
      (f.Compatible g ∧ f.Compatible h ∧ g.Compatible h) ∧ (f.overlay g).overlay h = m := by
    intro m
    simp only [Option.bind_eq_some_iff, merge?_eq_some_iff hg.nodup_keys,
      merge?_eq_some_iff hh.nodup_keys]
    constructor
    · rintro ⟨_, ⟨hfg, rfl⟩, hmerge, rfl⟩
      exact ⟨⟨hfg, (compatible_overlay_iff hfg).mp hmerge⟩, rfl⟩
    · rintro ⟨⟨hfg, hothers⟩, rfl⟩
      exact ⟨_, ⟨hfg, rfl⟩, (compatible_overlay_iff hfg).mpr hothers, rfl⟩
  have hright : ∀ m, (g.merge? h).bind (f.merge? ·) = some m ↔
      (f.Compatible g ∧ f.Compatible h ∧ g.Compatible h) ∧ f.overlay (g.overlay h) = m := by
    intro m
    simp only [Option.bind_eq_some_iff, merge?_eq_some_iff hh.nodup_keys]
    constructor
    · rintro ⟨_, ⟨hgh, rfl⟩, hmerge⟩
      rw [merge?_eq_some_iff (hg.overlay h).nodup_keys, compatible_comm,
        compatible_overlay_iff hgh] at hmerge
      exact ⟨⟨hmerge.1.1.symm, hmerge.1.2.symm, hgh⟩, hmerge.2⟩
    · rintro ⟨⟨hfg, hfh, hgh⟩, rfl⟩
      refine ⟨_, ⟨hgh, rfl⟩, ?_⟩
      rw [merge?_eq_some_iff (hg.overlay h).nodup_keys, compatible_comm,
        compatible_overlay_iff hgh]
      exact ⟨⟨hfg.symm, hfh.symm⟩, rfl⟩
  refine Option.ext fun m => ?_
  rw [hleft, hright, overlay_assoc hf]

private theorem merge?_congr (hg : g.Sorted) (hg' : g'.Sorted) (hf : f.Equals f')
    (hequals : g.Equals g') : Option.Rel Equals (f.merge? g) (f'.merge? g') := by
  have hiff : f.Compatible g ↔ f'.Compatible g' := by
    rw [hf.compatible_iff, compatible_comm, hequals.compatible_iff, compatible_comm]
  rw [merge?_eq_ite hg, merge?_eq_ite hg']
  by_cases hfg : f.Compatible g
  · rw [if_pos hfg, if_pos (hiff.mp hfg)]
    exact .some (hf.overlay hequals)
  · rw [if_neg hfg, if_neg (mt hiff.mpr hfg)]
    exact .none

/-- Merging is a partial commutative idempotent monoid up to equality of values. The merge exists
exactly for compatible frames, binds what either of them binds and keeps the bindings of the first;
the other order exists with it and is equal; the two ways to group three frames exist together and
are the same; the empty frame is neutral and a frame merges with itself to itself. Equality of
values is an equivalence that merging respects. -/
theorem merge?_partial_monoid {a b c : Frame} (ha : a.Sorted) (hb : b.Sorted) (hc : c.Sorted) :
    ((a.merge? b).isSome = true ↔ a.Compatible b) ∧
    (∀ m, a.merge? b = some m → m.Sorted ∧ (∀ v, m.contains v = (a.contains v || b.contains v)) ∧
      m.Extends a ∧ ∀ v, a.contains v = false → m.get? v = b.get? v) ∧
    Option.Rel Equals (a.merge? b) (b.merge? a) ∧
    (a.merge? b).bind (·.merge? c) = (b.merge? c).bind (a.merge? ·) ∧
    a.merge? empty = some a ∧ empty.merge? a = some a ∧ a.merge? a = some a ∧
    Equivalence Equals ∧
    ∀ a' b' : Frame, b'.Sorted → a.Equals a' → b.Equals b' →
      Option.Rel Equals (a.merge? b) (a'.merge? b') := by
  refine ⟨?_, fun m hm => ?_, merge?_comm ha hb, merge?_assoc ha hb hc, rfl, ?_, ?_,
    equals_equivalence, fun a' b' hb' hequals hequals' => merge?_congr hb hb' hequals hequals'⟩
  · rw [merge?_eq_ite hb]
    split <;> simp [*]
  · obtain ⟨_, rfl⟩ := (merge?_eq_some_iff hb.nodup_keys).mp hm
    refine ⟨ha.overlay b, contains_overlay a b, extends_overlay a b, fun v hv => ?_⟩
    rw [get?_overlay, get?_eq_none hv, Option.none_or]
  · rw [merge?_eq_ite ha, if_pos (compatible_empty a).symm, empty_overlay ha]
  · rw [merge?_eq_ite ha, if_pos (compatible_refl a), overlay_self ha]

/-- Frames that share a number in a list, of which one has it as a floating point number, merge in
both orders, and each order keeps the number of its first frame. -/
theorem merge?_partial_monoid_of_kinds :
    ∃ m m', merge? [(⟨0⟩, .array [.ofInt 1]), (⟨1⟩, .null)]
          [(⟨0⟩, .array [.ofDouble (.ofInt 1)])] = some m ∧
        merge? [(⟨0⟩, .array [.ofDouble (.ofInt 1)])]
          [(⟨0⟩, .array [.ofInt 1]), (⟨1⟩, .null)] = some m' ∧
        m.Equals m' ∧ m.get? ⟨0⟩ = some (.array [.ofInt 1]) ∧ m.get? ⟨1⟩ = some .null := by
  obtain ⟨hexists, hbinds, hcomm, _⟩ := merge?_partial_monoid
    (a := [(⟨0⟩, .array [.ofInt 1]), (⟨1⟩, .null)]) (b := [(⟨0⟩, .array [.ofDouble (.ofInt 1)])])
    (c := [(⟨1⟩, .null)]) (by decide) (by decide) (by decide)
  obtain ⟨m, hm⟩ := Option.isSome_iff_exists.mp (hexists.mpr (by decide +kernel))
  obtain ⟨_, _, hextends, _⟩ := hbinds m hm
  rw [hm] at hcomm
  generalize merge? [(⟨0⟩, .array [.ofDouble (.ofInt 1)])]
    [(⟨0⟩, .array [.ofInt 1]), (⟨1⟩, .null)] = other at hcomm ⊢
  cases hcomm with
  | some hequals => exact ⟨m, _, hm, rfl, hequals, hextends _ _ rfl, hextends _ _ rfl⟩

end Frame

end ConceptSync
