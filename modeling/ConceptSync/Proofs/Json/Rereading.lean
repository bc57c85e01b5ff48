import ConceptSync.Proofs.Json.Numerals
import ConceptSync.Proofs.Json.Strings

set_option autoImplicit false
set_option relaxedAutoImplicit false

/-!
Documents that are written and read again. What comes back is the same document with every number
read from its numeral and the fields of every table in the order of their names, unless brackets are
nested too deep or a number is out of range.
-/

namespace ConceptSync

namespace Value

open Json

section

variable (assemble : Assembly)

mutual

def reread? : Nat → Value → Option Value
  | _, .number n => (n.reread? assemble).map .number
  | 0, .array _ => none
  | depth + 1, .array items => (rereadItems? depth items).map .array
  | 0, .object _ => none
  | depth + 1, .object fields =>
    (rereadFields? depth fields).map fun fields => .object (Table.ofList fields)
  | _, .null => some .null
  | _, .bool b => some (.bool b)
  | _, .string s => some (.string s)

def rereadItems? : Nat → List Value → Option (List Value)
  | _, [] => some []
  | depth, v :: rest => do
    let v ← reread? depth v
    let rest ← rereadItems? depth rest
    some (v :: rest)

def rereadFields? : Nat → List (String × Value) → Option (List (String × Value))
  | _, [] => some []
  | depth, (k, v) :: rest => do
    let v ← reread? depth v
    let rest ← rereadFields? depth rest
    some ((k, v) :: rest)

end

end

variable {assemble : Assembly}

mutual

def readingSteps : Value → Nat
  | .array items => itemsSteps items + 1
  | .object fields => fieldsSteps fields + 1
  | _ => 1

def itemsSteps : List Value → Nat
  | [] => 0
  | v :: rest => readingSteps v + itemsSteps rest + 1

def fieldsSteps : List (String × Value) → Nat
  | [] => 0
  | (_, v) :: rest => readingSteps v + fieldsSteps rest + 1

end

/-! ### What is written -/

def itemsChars (items : List Value) : List Char :=
  [','].intercalate ((printItems items).map String.toList)

def fieldsChars (fields : List (String × Value)) : List Char :=
  [','].intercalate ((printFields fields).map String.toList)

private theorem toList_print_array (items : List Value) :
    (print (.array items)).toList = '[' :: (itemsChars items ++ [']']) := by
  simp [print, itemsChars, String.toList_intercalate]

private theorem toList_print_object (fields : List (String × Value)) :
    (print (.object fields)).toList = '\x7b' :: (fieldsChars fields ++ ['\x7d']) := by
  simp [print, fieldsChars, String.toList_intercalate]

private theorem itemsChars_cons_cons (v w : Value) (rest : List Value) :
    itemsChars (v :: w :: rest) = (print v).toList ++ ',' :: itemsChars (w :: rest) := by
  simp [itemsChars, printItems, List.intercalate_cons_cons]

private theorem itemsChars_singleton (v : Value) : itemsChars [v] = (print v).toList := by
  simp [itemsChars, printItems]

def fieldChars (k : String) (v : Value) : List Char :=
  '"' :: (k.toList.flatMap escapeChar ++ '"' :: ':' :: (print v).toList)

private theorem fieldsChars_cons_cons (k : String) (v : Value) (e : String × Value)
    (rest : List (String × Value)) :
    fieldsChars ((k, v) :: e :: rest) = fieldChars k v ++ ',' :: fieldsChars (e :: rest) := by
  simp [fieldsChars, fieldChars, printFields, List.intercalate_cons_cons, toList_quote]

private theorem fieldsChars_singleton (k : String) (v : Value) :
    fieldsChars [(k, v)] = fieldChars k v := by
  simp [fieldsChars, fieldChars, printFields, toList_quote]

private theorem exists_cons_print (v : Value) : ∃ c cs, (print v).toList = c :: cs ∧ Opens c := by
  cases v with
  | null => exact ⟨'n', _, rfl, .inl (by simp)⟩
  | bool b =>
    cases b with
    | true => exact ⟨'t', _, rfl, .inl (by simp)⟩
    | false => exact ⟨'f', _, rfl, .inl (by simp)⟩
  | number n =>
    obtain ⟨negative, m, hm⟩ := exists_numeral n
    obtain ⟨c, cs, hcs, hc⟩ := exists_cons_chars negative m
    exact ⟨c, cs, by rw [print, hm, hcs], hc⟩
  | string s => exact ⟨'"', _, by rw [print, toList_quote], .inl (by simp)⟩
  | array items => exact ⟨'[', _, toList_print_array items, .inl (by simp)⟩
  | object fields => exact ⟨'\x7b', _, toList_print_object fields, .inl (by simp)⟩

/-! ### What is read -/

private theorem skipBlanks_cons {c : Char} (h : isBlank c = false) (cs : List Char) :
    skipBlanks (c :: cs) = c :: cs :=
  List.dropWhile_cons_of_neg (by simp [h])

private theorem skipBlanks_print (v : Value) (rest : List Char) :
    skipBlanks ((print v).toList ++ rest) = (print v).toList ++ rest := by
  obtain ⟨c, cs, hcs, hc⟩ := exists_cons_print v
  rw [hcs, List.cons_append, skipBlanks_cons hc.not_isBlank]

private theorem readValue_items {fuel depth : Nat} {c : Char} (h : Opens c) (cs : List Char) :
    readValue assemble (fuel + 1) (depth + 1) ('[' :: c :: cs) =
      (readItems assemble fuel depth [] (c :: cs)).map fun (vs, rest) => (.array vs, rest) := by
  have hc : c ≠ ']' := by
    rintro rfl
    simp [Opens] at h
  simp only [readValue, skipBlanks_cons h.not_isBlank]
  split
  · next heq => simp at heq
  · split
    · next heq =>
      rw [List.cons.injEq] at heq
      exact absurd heq.1 hc
    · rfl

private theorem readValue_fields {fuel depth : Nat} (cs : List Char) :
    readValue assemble (fuel + 1) (depth + 1) ('\x7b' :: '"' :: cs) =
      (readFields assemble fuel depth [] ('"' :: cs)).map fun (fs, rest) => (.object fs, rest) :=
  rfl

private theorem exists_cons_itemsChars (v : Value) (rest : List Value) :
    ∃ c cs, itemsChars (v :: rest) = c :: cs ∧ Opens c := by
  obtain ⟨c, cs, hcs, hc⟩ := exists_cons_print v
  cases rest with
  | nil => exact ⟨c, cs, by rw [itemsChars_singleton, hcs], hc⟩
  | cons w rest => exact ⟨c, _, by rw [itemsChars_cons_cons, hcs]; rfl, hc⟩

private theorem exists_cons_fieldsChars (e : String × Value) (rest : List (String × Value)) :
    ∃ cs, fieldsChars (e :: rest) = '"' :: cs := by
  obtain ⟨k, v⟩ := e
  cases rest with
  | nil => exact ⟨_, by rw [fieldsChars_singleton]; rfl⟩
  | cons e rest => exact ⟨_, by rw [fieldsChars_cons_cons]; rfl⟩

private theorem readFields_fieldChars {fuel depth : Nat} {done : Payload} (k : String) (v : Value)
    (rest : List Char) :
    readFields assemble (fuel + 1) depth done (fieldChars k v ++ rest) =
      (readValue assemble fuel depth ((print v).toList ++ rest)).bind fun (v, rest) =>
        match skipBlanks rest with
        | ',' :: rest => readFields assemble fuel depth (done.insert k v) rest
        | '\x7d' :: rest => some (done.insert k v, rest)
        | _ => none := by
  have htext : fieldChars k v ++ rest =
      '"' :: (k.toList.flatMap escapeChar ++ '"' :: (':' :: ((print v).toList ++ rest))) := by
    simp [fieldChars]
  rw [htext, readFields]
  simp only [skipBlanks_cons (c := '"') rfl, readText_escaped, Option.bind_eq_bind,
    Option.bind_some, skipBlanks_cons (c := ':') rfl]
  exact congrArg (fun cs => (readValue assemble fuel depth cs).bind _) (skipBlanks_print v rest)

mutual

private theorem readValue_print (v : Value) (fuel depth : Nat) {rest : List Char}
    (hfuel : v.readingSteps ≤ fuel) (h : Closes rest) :
    readValue assemble fuel depth ((print v).toList ++ rest) =
      (v.reread? assemble depth).map fun v => (v, rest) := by
  obtain ⟨fuel, rfl⟩ : ∃ n, fuel = n + 1 :=
    ⟨fuel - 1, by cases v <;> simp [readingSteps] at hfuel <;> omega⟩
  cases v with
  | null => simp [print, readValue, reread?]
  | bool b => cases b <;> simp [print, readValue, reread?]
  | number n =>
    rw [print, Number.readValue_printNumber n fuel depth h]
    simp [reread?, Function.comp_def]
  | string s =>
    rw [print, toList_quote, List.cons_append, List.append_assoc]
    simp [readValue, readText_escaped, reread?]
  | array items =>
    rw [toList_print_array, List.cons_append, List.append_assoc]
    cases depth with
    | zero => simp [readValue, reread?]
    | succ depth =>
      cases items with
      | nil => rfl
      | cons v items =>
        obtain ⟨c, cs, hcs, hc⟩ := exists_cons_itemsChars v items
        have hitems := readItems_print (v :: items) (by simp) fuel depth [] rest
          (by simpa [readingSteps] using hfuel)
        rw [hcs] at hitems ⊢
        rw [List.cons_append] at hitems ⊢
        rw [List.singleton_append, readValue_items hc, hitems]
        simp [reread?, Function.comp_def]
  | object fields =>
    rw [toList_print_object, List.cons_append, List.append_assoc]
    cases depth with
    | zero => simp [readValue, reread?]
    | succ depth =>
      cases fields with
      | nil => rfl
      | cons e fields =>
        obtain ⟨cs, hcs⟩ := exists_cons_fieldsChars e fields
        have hfields := readFields_print (e :: fields) (by simp) fuel depth [] rest
          (by simpa [readingSteps] using hfuel)
        rw [hcs] at hfields ⊢
        rw [List.cons_append] at hfields ⊢
        rw [List.singleton_append, readValue_fields, hfields]
        simp [reread?, Function.comp_def, Table.ofList]

private theorem readItems_print (items : List Value) (hne : items ≠ []) (fuel depth : Nat)
    (done : List Value) (rest : List Char) (hfuel : itemsSteps items ≤ fuel) :
    readItems assemble fuel depth done (itemsChars items ++ ']' :: rest) =
      (rereadItems? assemble depth items).map fun vs => (done.reverse ++ vs, rest) := by
  cases items with
  | nil => exact absurd rfl hne
  | cons v items =>
    rw [itemsSteps] at hfuel
    obtain ⟨fuel, rfl⟩ : ∃ n, fuel = n + 1 := ⟨fuel - 1, by omega⟩
    have hsteps : v.readingSteps ≤ fuel := by omega
    cases items with
    | nil =>
      rw [itemsChars_singleton, readItems, skipBlanks_print,
        readValue_print v fuel depth hsteps (by simp [Closes])]
      cases hv : v.reread? assemble depth <;>
        simp [rereadItems?, skipBlanks_cons (c := ']') rfl, hv]
    | cons w items =>
      rw [itemsChars_cons_cons, List.append_assoc, List.cons_append, readItems, skipBlanks_print,
        readValue_print v fuel depth hsteps (by simp [Closes])]
      cases hv : v.reread? assemble depth with
      | none => simp [rereadItems?, hv]
      | some v' =>
        have hrest := readItems_print (w :: items) (by simp) fuel depth (v' :: done) rest (by omega)
        rw [rereadItems?, hv]
        simp only [Option.map_some, Option.bind_eq_bind, Option.bind_some,
          skipBlanks_cons (c := ',') rfl, hrest]
        cases rereadItems? assemble depth (w :: items) <;> simp

private theorem readFields_print (fields : List (String × Value)) (hne : fields ≠ [])
    (fuel depth : Nat) (done : Payload) (rest : List Char) (hfuel : fieldsSteps fields ≤ fuel) :
    readFields assemble fuel depth done (fieldsChars fields ++ '\x7d' :: rest) =
      (rereadFields? assemble depth fields).map fun fs =>
        (fs.foldl (fun t e => t.insert e.1 e.2) done, rest) := by
  cases fields with
  | nil => exact absurd rfl hne
  | cons e fields =>
    obtain ⟨k, v⟩ := e
    rw [fieldsSteps] at hfuel
    obtain ⟨fuel, rfl⟩ : ∃ n, fuel = n + 1 := ⟨fuel - 1, by omega⟩
    have hsteps : v.readingSteps ≤ fuel := by omega
    cases fields with
    | nil =>
      rw [fieldsChars_singleton, readFields_fieldChars,
        readValue_print v fuel depth hsteps (by simp [Closes])]
      cases hv : v.reread? assemble depth <;>
        simp [rereadFields?, skipBlanks_cons (c := '\x7d') rfl, hv]
    | cons e fields =>
      rw [fieldsChars_cons_cons, List.append_assoc, List.cons_append, readFields_fieldChars,
        readValue_print v fuel depth hsteps (by simp [Closes])]
      cases hv : v.reread? assemble depth with
      | none => simp [rereadFields?, hv]
      | some v' =>
        have hrest := readFields_print (e :: fields) (by simp) fuel depth (done.insert k v') rest
          (by omega)
        rw [rereadFields?, hv]
        simp only [Option.map_some, Option.bind_eq_bind, Option.bind_some,
          skipBlanks_cons (c := ',') rfl, hrest]
        cases rereadFields? assemble depth (e :: fields) <;> simp

end

mutual

private theorem readingSteps_lt (v : Value) : v.readingSteps < 2 * (print v).toList.length := by
  obtain ⟨c, cs, hcs, -⟩ := exists_cons_print v
  have hlength : 0 < (print v).toList.length := by rw [hcs]; simp
  cases v with
  | null | bool | number | string =>
    simp only [readingSteps]
    omega
  | array items =>
    have hitems := itemsSteps_le items
    rw [readingSteps, toList_print_array, List.length_cons, List.length_append]
    omega
  | object fields =>
    have hfields := fieldsSteps_le fields
    rw [readingSteps, toList_print_object, List.length_cons, List.length_append]
    omega

private theorem itemsSteps_le (items : List Value) :
    itemsSteps items ≤ 2 * (itemsChars items).length := by
  match items with
  | [] => simp [itemsSteps]
  | [v] =>
    have hv := readingSteps_lt v
    rw [itemsChars_singleton, itemsSteps, itemsSteps]
    omega
  | v :: w :: rest =>
    have hv := readingSteps_lt v
    have hrest := itemsSteps_le (w :: rest)
    rw [itemsChars_cons_cons, itemsSteps, List.length_append, List.length_cons]
    omega

private theorem fieldsSteps_le (fields : List (String × Value)) :
    fieldsSteps fields ≤ 2 * (fieldsChars fields).length := by
  match fields with
  | [] => simp [fieldsSteps]
  | [(k, v)] =>
    have hv := readingSteps_lt v
    have hchars : (print v).toList.length ≤ (fieldChars k v).length := by simp [fieldChars]; omega
    rw [fieldsChars_singleton, fieldsSteps, fieldsSteps]
    omega
  | (k, v) :: e :: rest =>
    have hv := readingSteps_lt v
    have hchars : (print v).toList.length ≤ (fieldChars k v).length := by simp [fieldChars]; omega
    have hrest := fieldsSteps_le (e :: rest)
    rw [fieldsChars_cons_cons, fieldsSteps, List.length_append, List.length_cons]
    omega

end

theorem readWith?_print (v : Value) :
    readWith? assemble (print v) = v.reread? assemble maxDepth := by
  have hblanks := skipBlanks_print v []
  have hsteps := readingSteps_lt v
  have hread := @readValue_print assemble v (2 * (print v).toList.length + 2) maxDepth [] (by omega)
    Closes.nil
  rw [List.append_nil] at hblanks hread
  simp only [readWith?, hblanks, hread]
  cases v.reread? assemble maxDepth <;> rfl

/-! ### What comes back -/

mutual

def nesting : Value → Nat
  | .array items => itemsNesting items + 1
  | .object fields => fieldsNesting fields + 1
  | _ => 0

def itemsNesting : List Value → Nat
  | [] => 0
  | v :: rest => max (nesting v) (itemsNesting rest)

def fieldsNesting : List (String × Value) → Nat
  | [] => 0
  | (_, v) :: rest => max (nesting v) (fieldsNesting rest)

end

mutual

def floats : Value → List Double
  | .number (.float x) => [x]
  | .array items => itemsFloats items
  | .object fields => fieldsFloats fields
  | _ => []

def itemsFloats : List Value → List Double
  | [] => []
  | v :: rest => floats v ++ itemsFloats rest

def fieldsFloats : List (String × Value) → List Double
  | [] => []
  | (_, v) :: rest => floats v ++ fieldsFloats rest

end

private theorem keys_of_rereadFields? {depth : Nat} {fields fields' : List (String × Value)}
    (h : rereadFields? assemble depth fields = some fields') :
    fields'.map Prod.fst = fields.map Prod.fst := by
  induction fields generalizing fields' with
  | nil =>
    rw [rereadFields?, Option.some.injEq] at h
    rw [← h]
  | cons e fields ih =>
    obtain ⟨k, v⟩ := e
    simp only [rereadFields?, Option.bind_eq_bind, Option.bind_eq_some_iff, Option.some.injEq] at h
    obtain ⟨v', -, rest, hrest, rfl⟩ := h
    simp [ih hrest]

private theorem reread?_object_eq_some_iff {depth : Nat} {fields : Payload}
    (h : Table.Sorted fields) :
    (Value.object fields).reread? assemble (depth + 1) = some (.object fields) ↔
      rereadFields? assemble depth fields = some fields := by
  rw [reread?]
  constructor
  · intro heq
    obtain ⟨fields', hread, hlist⟩ := Option.map_eq_some_iff.mp heq
    have hsorted : Table.Sorted fields' := by
      have hkeys := keys_of_rereadFields? hread
      rw [Table.Sorted, ← List.pairwise_map (f := Prod.fst)] at h ⊢
      rwa [hkeys]
    rw [hsorted.ofList_eq, Value.object.injEq] at hlist
    rw [hread, hlist]
  · intro heq
    rw [heq, Option.map_some, h.ofList_eq]

mutual

theorem reread?_eq_some_iff (hsound : assemble.Sound) {v : Value} (depth : Nat) (h : v.Storable) :
    v.reread? assemble depth = some v ↔ v.nesting ≤ depth ∧ ∀ x ∈ v.floats, x.ReadsBack assemble := by
  cases v with
  | null | bool | string => simp [reread?, nesting, floats]
  | number n =>
    cases n with
    | int n => simp [reread?, nesting, floats, Number.reread?_int hsound h]
    | float x => simp [reread?, nesting, floats, Double.ReadsBack]
  | array items =>
    cases depth with
    | zero => simp [reread?, nesting]
    | succ depth => simp [reread?, nesting, floats, rereadItems?_eq_some_iff hsound depth h]
  | object fields =>
    cases depth with
    | zero => simp [reread?, nesting]
    | succ depth =>
      rw [reread?_object_eq_some_iff h.1, rereadFields?_eq_some_iff hsound depth h.2]
      simp [nesting, floats]

private theorem rereadItems?_eq_some_iff (hsound : assemble.Sound) {items : List Value}
    (depth : Nat) (h : ItemsStorable items) :
    rereadItems? assemble depth items = some items ↔
      itemsNesting items ≤ depth ∧ ∀ x ∈ itemsFloats items, x.ReadsBack assemble := by
  cases items with
  | nil => simp [rereadItems?, itemsNesting, itemsFloats]
  | cons v items =>
    have hv := reread?_eq_some_iff hsound depth h.1
    have hitems := rereadItems?_eq_some_iff hsound depth h.2
    simp only [rereadItems?, itemsNesting, itemsFloats, Option.bind_eq_bind,
      Option.bind_eq_some_iff, Option.some.injEq, List.cons.injEq, Nat.max_le,
      List.forall_mem_append]
    simp [hv, hitems]
    tauto

private theorem rereadFields?_eq_some_iff (hsound : assemble.Sound) {fields : List (String × Value)}
    (depth : Nat) (h : FieldsStorable fields) :
    rereadFields? assemble depth fields = some fields ↔
      fieldsNesting fields ≤ depth ∧ ∀ x ∈ fieldsFloats fields, x.ReadsBack assemble := by
  cases fields with
  | nil => simp [rereadFields?, fieldsNesting, fieldsFloats]
  | cons e fields =>
    obtain ⟨k, v⟩ := e
    have hv := reread?_eq_some_iff hsound depth h.1
    have hfields := rereadFields?_eq_some_iff hsound depth h.2
    simp only [rereadFields?, fieldsNesting, fieldsFloats, Option.bind_eq_bind,
      Option.bind_eq_some_iff, Option.some.injEq, List.cons.injEq, Prod.mk.injEq, true_and,
      Nat.max_le, List.forall_mem_append]
    simp [hv, hfields]
    tauto

end

/-! ### What does not come back -/

mutual

theorem nesting_le_of_reread? {v w : Value} {depth : Nat} (h : v.reread? assemble depth = some w) :
    v.nesting ≤ depth := by
  cases v with
  | null | bool | string | number => exact Nat.zero_le _
  | array items =>
    cases depth with
    | zero => simp [reread?] at h
    | succ depth =>
      rw [reread?] at h
      obtain ⟨items', hitems, -⟩ := Option.map_eq_some_iff.mp h
      exact Nat.succ_le_succ (nesting_le_of_rereadItems? hitems)
  | object fields =>
    cases depth with
    | zero => simp [reread?] at h
    | succ depth =>
      rw [reread?] at h
      obtain ⟨fields', hfields, -⟩ := Option.map_eq_some_iff.mp h
      exact Nat.succ_le_succ (nesting_le_of_rereadFields? hfields)

private theorem nesting_le_of_rereadItems? {items items' : List Value} {depth : Nat}
    (h : rereadItems? assemble depth items = some items') : itemsNesting items ≤ depth := by
  cases items with
  | nil => exact Nat.zero_le _
  | cons v items =>
    simp only [rereadItems?, Option.bind_eq_bind, Option.bind_eq_some_iff] at h
    obtain ⟨v', hv, rest, hrest, -⟩ := h
    exact Nat.max_le.mpr ⟨nesting_le_of_reread? hv, nesting_le_of_rereadItems? hrest⟩

private theorem nesting_le_of_rereadFields? {fields fields' : List (String × Value)} {depth : Nat}
    (h : rereadFields? assemble depth fields = some fields') : fieldsNesting fields ≤ depth := by
  cases fields with
  | nil => exact Nat.zero_le _
  | cons e fields =>
    obtain ⟨k, v⟩ := e
    simp only [rereadFields?, Option.bind_eq_bind, Option.bind_eq_some_iff] at h
    obtain ⟨v', hv, rest, hrest, -⟩ := h
    exact Nat.max_le.mpr ⟨nesting_le_of_reread? hv, nesting_le_of_rereadFields? hrest⟩

end

/-! ### The order of fields -/

private theorem perm_of_rereadFields? {depth : Nat} {fields fields' read : List (String × Value)}
    (hperm : fields.Perm fields') (h : rereadFields? assemble depth fields = some read) :
    ∃ read', rereadFields? assemble depth fields' = some read' ∧ read.Perm read' := by
  induction hperm generalizing read with
  | nil => exact ⟨read, h, .refl _⟩
  | cons e _ ih =>
    simp only [rereadFields?, Option.bind_eq_bind, Option.bind_eq_some_iff, Option.some.injEq] at h
    obtain ⟨v, hv, rest, hrest, rfl⟩ := h
    obtain ⟨rest', hrest', hsame⟩ := ih hrest
    exact ⟨(e.1, v) :: rest', by simp [rereadFields?, hv, hrest'], hsame.cons _⟩
  | swap e f l =>
    simp only [rereadFields?, Option.bind_eq_bind, Option.bind_eq_some_iff, Option.some.injEq] at h
    obtain ⟨v, hv, rest, ⟨w, hw, rest', hrest, rfl⟩, rfl⟩ := h
    exact ⟨_, by simp [rereadFields?, hv, hw, hrest], .swap _ _ _⟩
  | trans _ _ ih ih' =>
    obtain ⟨middle, hmiddle, hsame⟩ := ih h
    obtain ⟨last, hlast, hsame'⟩ := ih' hmiddle
    exact ⟨last, hlast, hsame.trans hsame'⟩

theorem reread?_object_perm {depth : Nat} {fields fields' : List (String × Value)}
    (hnodup : (fields.map Prod.fst).Nodup) (hperm : fields.Perm fields') :
    (Value.object fields).reread? assemble depth = (Value.object fields').reread? assemble depth := by
  cases depth with
  | zero => rw [reread?, reread?]
  | succ depth =>
    rw [reread?, reread?]
    cases hread : rereadFields? assemble depth fields with
    | some read =>
      obtain ⟨read', hread', hsame⟩ := perm_of_rereadFields? hperm hread
      have hkeys : (read.map Prod.fst).Nodup := by rwa [keys_of_rereadFields? hread]
      rw [hread', Option.map_some, Option.map_some, Table.ofList_eq_of_perm hkeys hsame]
    | none =>
      cases hread' : rereadFields? assemble depth fields' with
      | none => rfl
      | some read' =>
        obtain ⟨read, hsome, -⟩ := perm_of_rereadFields? hperm.symm hread'
        rw [hread] at hsome
        cases hsome

end Value

end ConceptSync
