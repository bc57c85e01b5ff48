import ConceptSync.Proofs.Json.Formats
import ConceptSync.Proofs.Record.Identifiers
import ConceptSync.Proofs.Record.Timestamps
import ConceptSync.Record.Invocation

set_option autoImplicit false
set_option relaxedAutoImplicit false

/-!
Records that are written in a lawful format and decoded again. All of them come back whose brackets
are not nested deeper than the format allows, whatever the order of their fields.
-/

namespace ConceptSync

namespace Record

open Value

variable {f : Json.Format} {r : Record} {text : String}

def scalars (r : Record) : List (String × Value) :=
  [("seq", .ofInt r.seq),
    ("id", .string r.id.text),
    ("ts", .string r.ts.text),
    ("action", .string r.action),
    ("parent_seq", seqValue r.parent),
    ("caused_by_seq", seqValue r.causedBy),
    ("run_id", .string r.run),
    ("depth", .ofNat r.depth)]

def fields (r : Record) : List (String × Value) :=
  r.scalars ++ [("input", .object r.input), ("output", .object r.output)]

/-- A text of the record's document, with its fields in any order. -/
def WrittenAs (f : Json.Format) (r : Record) (text : String) : Prop :=
  ∃ fields : List (String × Value), fields.Perm r.fields ∧ text = f.print (.object fields)

def decode? (f : Json.Format) (text : String) : Option Record := (f.read? text).bind ofValue?

def Signed (n : Int) : Prop := -0x8000000000000000 ≤ n ∧ n < 0x8000000000000000

/-- The integers of a record have 64 bits, its depth has 32, its time is one that there is, and its
payloads can be stored. -/
structure Storable (r : Record) : Prop where
  seq : Signed r.seq
  parent : ∀ n ∈ r.parent, Signed n
  causedBy : ∀ n ∈ r.causedBy, Signed n
  depth : r.depth < 0x100000000
  ts : r.ts.isValid = true
  input : (Value.object r.input).Storable
  output : (Value.object r.output).Storable

def nesting (r : Record) : Nat :=
  max (Value.object r.input).nesting (Value.object r.output).nesting + 1

def document (r : Record) : Payload := Table.ofList r.fields

private theorem toValue_eq (r : Record) : r.toValue = .object r.document := rfl

private theorem nodup_fields (r : Record) : (r.fields.map Prod.fst).Nodup :=
  show fieldNames.Nodup by decide

private theorem writtenAs_print (f : Json.Format) (r : Record) :
    WrittenAs f r (f.print r.toValue) :=
  ⟨_, Table.perm_ofList r.nodup_fields, congrArg f.print r.toValue_eq⟩

/-! ### Decoding -/

/-- The parts of a record and the fields that they are decoded from. -/
structure MadeOf (r : Record) (field? : String → Option Value) : Prop where
  seq : (field? "seq").bind asSigned? = some r.seq
  id : ((field? "id").bind asString?).bind Uuid.parse? = some r.id
  ts : ((field? "ts").bind asString?).bind Timestamp.parse? = some r.ts
  action : (field? "action").bind asString? = some r.action
  parent : seqOfValue? (field? "parent_seq") = some r.parent
  causedBy : seqOfValue? (field? "caused_by_seq") = some r.causedBy
  run : (field? "run_id").bind asString? = some r.run
  depth : (field? "depth").bind depthOfValue? = some r.depth
  input : (field? "input").bind asObject? = some r.input
  output : (field? "output").bind asObject? = some r.output

private theorem bind_bind_eq_some_iff {α β γ : Type} {o : Option α} {g : α → Option β}
    {k : β → Option γ} {c : γ} :
    (o.bind fun a => (g a).bind k) = some c ↔ ∃ b, o.bind g = some b ∧ k b = some c := by
  rw [← Option.bind_assoc, Option.bind_eq_some_iff]

private theorem ofFields?_eq_some_iff {field? : String → Option Value} :
    ofFields? field? = some r ↔ r.MadeOf field? := by
  unfold ofFields?
  dsimp only [Option.bind_eq_bind]
  constructor
  · intro h
    obtain ⟨seq, hseq, h⟩ := bind_bind_eq_some_iff.mp h
    obtain ⟨id, hid, h⟩ := bind_bind_eq_some_iff.mp h
    obtain ⟨ts, hts, h⟩ := bind_bind_eq_some_iff.mp h
    obtain ⟨action, haction, h⟩ := bind_bind_eq_some_iff.mp h
    obtain ⟨parent, hparent, h⟩ := Option.bind_eq_some_iff.mp h
    obtain ⟨causedBy, hcausedBy, h⟩ := Option.bind_eq_some_iff.mp h
    obtain ⟨run, hrun, h⟩ := bind_bind_eq_some_iff.mp h
    obtain ⟨depth, hdepth, h⟩ := bind_bind_eq_some_iff.mp h
    obtain ⟨input, hinput, h⟩ := bind_bind_eq_some_iff.mp h
    obtain ⟨output, houtput, h⟩ := bind_bind_eq_some_iff.mp h
    cases h
    exact ⟨hseq, by rwa [Option.bind_assoc], by rwa [Option.bind_assoc], haction, hparent,
      hcausedBy, hrun, hdepth, hinput, houtput⟩
  · rintro ⟨hseq, hid, hts, haction, hparent, hcausedBy, hrun, hdepth, hinput, houtput⟩
    rw [Option.bind_assoc] at hid hts
    refine bind_bind_eq_some_iff.mpr ⟨_, hseq, ?_⟩
    refine bind_bind_eq_some_iff.mpr ⟨_, hid, ?_⟩
    refine bind_bind_eq_some_iff.mpr ⟨_, hts, ?_⟩
    refine bind_bind_eq_some_iff.mpr ⟨_, haction, ?_⟩
    refine Option.bind_eq_some_iff.mpr ⟨_, hparent, ?_⟩
    refine Option.bind_eq_some_iff.mpr ⟨_, hcausedBy, ?_⟩
    refine bind_bind_eq_some_iff.mpr ⟨_, hrun, ?_⟩
    refine bind_bind_eq_some_iff.mpr ⟨_, hdepth, ?_⟩
    refine bind_bind_eq_some_iff.mpr ⟨_, hinput, ?_⟩
    exact bind_bind_eq_some_iff.mpr ⟨_, houtput, rfl⟩

/-! ### Both ways -/

private theorem asSigned?_ofInt {n : Int} (h : Signed n) : (Value.ofInt n).asSigned? = some n :=
  if_pos h

private theorem seqOfValue?_seqValue {seq : Option Int} (h : ∀ n ∈ seq, Signed n) :
    seqOfValue? (some (seqValue seq)) = some seq := by
  cases seq with
  | none => rfl
  | some n =>
    have hread := asSigned?_ofInt (h n rfl)
    exact congrArg (Option.map some) hread

private theorem depthOfValue?_ofNat {n : Nat} (h : n < 0x100000000) :
    depthOfValue? (.ofNat n) = some n := by
  have hwide : (0 : Int) ≤ n ∧ (n : Int) < 0x10000000000000000 := by omega
  have hunsigned : (Value.ofNat n).asUnsigned? = some n := by
    rw [ofNat, asUnsigned?, if_pos hwide, Int.toNat_natCast]
  rw [depthOfValue?, hunsigned, Option.bind_some, if_pos h]

private theorem Storable.madeOf (h : r.Storable) {field? : String → Option Value}
    (hfields : ∀ e ∈ r.fields, field? e.1 = some e.2) : r.MadeOf field? := by
  have hscalars := fun e he => hfields e (List.mem_append_left _ he)
  have hinput := hfields ("input", .object r.input) (by simp [fields])
  have houtput := hfields ("output", .object r.output) (by simp [fields])
  simp only [scalars, List.forall_mem_cons] at hscalars
  obtain ⟨hseq, hid, hts, haction, hparent, hcausedBy, hrun, hdepth, -⟩ := hscalars
  refine ⟨?_, ?_, ?_, ?_, ?_, ?_, ?_, ?_, ?_, ?_⟩
  · rw [hseq, Option.bind_some]
    exact asSigned?_ofInt h.seq
  · rw [hid, Option.bind_some, asString?, Option.bind_some]
    exact Uuid.parse?_text r.id
  · rw [hts, Option.bind_some, asString?, Option.bind_some]
    exact Timestamp.parse?_text h.ts
  · rw [haction]
    rfl
  · rw [hparent]
    exact seqOfValue?_seqValue h.parent
  · rw [hcausedBy]
    exact seqOfValue?_seqValue h.causedBy
  · rw [hrun]
    rfl
  · rw [hdepth, Option.bind_some]
    exact depthOfValue?_ofNat h.depth
  · rw [hinput]
    rfl
  · rw [houtput]
    rfl

private theorem Storable.fits_scalars (h : r.Storable) (depth : Nat) :
    ∀ e ∈ r.scalars, e.2.Fits depth := by
  have hdepth : Signed r.depth := by
    have hbound := h.depth
    exact ⟨by omega, by omega⟩
  have hinteger : ∀ n, Signed n → (Value.ofInt n).Fits depth := fun n hn =>
    ⟨⟨hn.1, hn.2.trans (by decide)⟩, Nat.zero_le _⟩
  have hlink : ∀ seq, (∀ n ∈ seq, Signed n) → (seqValue seq).Fits depth := by
    intro seq hlinked
    cases seq with
    | none => exact ⟨trivial, Nat.zero_le _⟩
    | some n => exact hinteger n (hlinked n rfl)
  have htext : ∀ text, (Value.string text).Fits depth := fun _ => ⟨trivial, Nat.zero_le _⟩
  simp only [scalars, List.forall_mem_cons]
  exact ⟨hinteger _ h.seq, htext _, htext _, htext _, hlink _ h.parent, hlink _ h.causedBy,
    htext _, hinteger _ hdepth, by simp⟩

private theorem Storable.fits_iff (h : r.Storable) (depth : Nat) :
    (Value.object r.document).Fits depth ↔ r.nesting ≤ depth := by
  cases depth with
  | zero => simp [Fits, Value.nesting, nesting]
  | succ depth =>
    have hsorted : Table.Sorted r.document := Table.sorted_ofList r.fields
    have hsame : ∀ e, e ∈ r.document ↔ e ∈ r.fields := fun e =>
      (Table.perm_ofList r.nodup_fields).mem_iff
    have hpayloads : (∀ e ∈ r.fields, e.2.Fits depth) ↔
        (Value.object r.input).nesting ≤ depth ∧ (Value.object r.output).nesting ≤ depth := by
      rw [fields, List.forall_mem_append, and_iff_right (h.fits_scalars depth)]
      simp [Fits, h.input, h.output]
    rw [fits_object_iff, and_iff_right hsorted, nesting]
    simp only [hsame, hpayloads]
    omega

private theorem Storable.ofValue?_document (h : r.Storable) :
    ofValue? (.object r.document) = some r :=
  ofFields?_eq_some_iff.mpr (h.madeOf fun _ he => Table.get?_ofList r.nodup_fields he)

private theorem WrittenAs.read?_eq (h : WrittenAs f r text) (hf : f.Lawful) :
    f.read? text = f.read? (f.print (.object r.document)) := by
  obtain ⟨fields, hperm, rfl⟩ := h
  refine hf.orderless _ _ ((hperm.map Prod.fst).nodup_iff.mpr r.nodup_fields) ?_
  exact hperm.trans (Table.perm_ofList r.nodup_fields).symm

private theorem Storable.decode?_eq_some_iff (h : r.Storable) (hf : f.Lawful)
    (hw : WrittenAs f r text) :
    decode? f text = some r ↔ r.nesting ≤ f.depth := by
  rw [decode?, hw.read?_eq hf]
  constructor
  · intro hsome
    obtain ⟨v, hread, -⟩ := Option.bind_eq_some_iff.mp hsome
    refine (h.fits_iff f.depth).mp ⟨((h.fits_iff r.nesting).mpr (Nat.le_refl _)).1, ?_⟩
    by_contra hdeep
    rw [hf.refuses _ (Nat.not_le.mp hdeep)] at hread
    cases hread
  · intro hnesting
    have hfits := (h.fits_iff f.depth).mpr hnesting
    rw [hf.reads _ hfits.1 hfits.2, Option.bind_some]
    exact h.ofValue?_document

/-! ### What is decoded -/

private theorem signed_of_asSigned? {v : Value} {n : Int} (h : v.asSigned? = some n) :
    Signed n := by
  unfold asSigned? at h
  split at h
  · split at h
    · next hsigned =>
      rw [← Option.some.inj h]
      exact hsigned
    · cases h
  · cases h

private theorem signed_of_seqOfValue? {v : Option Value} {seq : Option Int}
    (h : seqOfValue? v = some seq) : ∀ n ∈ seq, Signed n := by
  unfold seqOfValue? at h
  split at h
  · cases h
    simp
  · cases h
    simp
  · obtain ⟨n, hn, rfl⟩ := Option.map_eq_some_iff.mp h
    intro m hm
    rw [← Option.some.inj hm]
    exact signed_of_asSigned? hn

private theorem lt_of_depthOfValue? {v : Value} {n : Nat} (h : depthOfValue? v = some n) :
    n < 0x100000000 := by
  obtain ⟨m, -, hm⟩ := Option.bind_eq_some_iff.mp h
  split at hm
  · next hlt =>
    rw [← Option.some.inj hm]
    exact hlt
  · cases hm

private theorem fits_of_asObject? {depth : Nat} {v : Option Value} {payload : Payload}
    (hfits : ∀ w ∈ v, w.Fits depth) (h : v.bind asObject? = some payload) :
    (Value.object payload).Fits depth := by
  obtain ⟨w, hw, hobject⟩ := Option.bind_eq_some_iff.mp h
  cases w with
  | object => exact Option.some.inj hobject ▸ hfits _ hw
  | _ => cases hobject

private theorem MadeOf.storable {depth : Nat} {field? : String → Option Value} (h : r.MadeOf field?)
    (hfits : ∀ name, ∀ v ∈ field? name, v.Fits depth) :
    r.Storable ∧ r.nesting ≤ depth + 1 := by
  obtain ⟨_, -, hseq⟩ := Option.bind_eq_some_iff.mp h.seq
  obtain ⟨_, -, hts⟩ := Option.bind_eq_some_iff.mp h.ts
  obtain ⟨_, -, hdepth⟩ := Option.bind_eq_some_iff.mp h.depth
  have hinput := fits_of_asObject? (hfits "input") h.input
  have houtput := fits_of_asObject? (hfits "output") h.output
  refine ⟨⟨signed_of_asSigned? hseq, signed_of_seqOfValue? h.parent,
    signed_of_seqOfValue? h.causedBy, lt_of_depthOfValue? hdepth,
    Timestamp.isValid_of_parse? hts, hinput.1, houtput.1⟩, ?_⟩
  have hin := hinput.2
  have hout := houtput.2
  rw [nesting]
  omega

private theorem storable_of_decode? (hf : f.Lawful) (h : decode? f text = some r) :
    r.Storable ∧ r.nesting ≤ f.depth := by
  obtain ⟨v, hread, hrecord⟩ := Option.bind_eq_some_iff.mp h
  have hfits := hf.fits text v hread
  generalize f.depth = depth at hfits ⊢
  cases v with
  | object fields =>
    cases depth with
    | zero => exact absurd hfits.2 (Nat.not_succ_le_zero _)
    | succ depth =>
      refine (ofFields?_eq_some_iff.mp hrecord).storable fun name w hw => ?_
      exact (fits_object_iff.mp hfits).2 _ (Table.mem_of_get? hw)
  | array items =>
    cases depth with
    | zero => exact absurd hfits.2 (Nat.not_succ_le_zero _)
    | succ depth =>
      unfold ofValue? at hrecord
      dsimp only at hrecord
      split at hrecord
      · refine (ofFields?_eq_some_iff.mp hrecord).storable fun name w hw => ?_
        obtain ⟨before, after, heq, -⟩ := List.lookup_eq_some_iff.mp hw
        have hmem : (name, w) ∈ before ++ (name, w) :: after := by simp
        rw [← heq] at hmem
        exact fits_array_iff.mp hfits w (List.of_mem_zip hmem).2
      · cases hrecord
  | _ => cases hrecord

/-! ### Documents of the same record -/

/-- Two documents whose fields are read as the same parts of a record. -/
structure ReadAlike (field? other? : String → Option Value) : Prop where
  ts : ((field? "ts").bind asString?).bind Timestamp.parse? =
    ((other? "ts").bind asString?).bind Timestamp.parse?
  parent : seqOfValue? (field? "parent_seq") = seqOfValue? (other? "parent_seq")
  causedBy : seqOfValue? (field? "caused_by_seq") = seqOfValue? (other? "caused_by_seq")
  others : ∀ name ∈ ["seq", "id", "action", "run_id", "depth", "input", "output"],
    field? name = other? name

private theorem ReadAlike.symm {field? other? : String → Option Value}
    (h : ReadAlike field? other?) :
    ReadAlike other? field? :=
  ⟨h.ts.symm, h.parent.symm, h.causedBy.symm, fun name hname => (h.others name hname).symm⟩

private theorem ReadAlike.madeOf {field? other? : String → Option Value}
    (h : ReadAlike field? other?) (hr : r.MadeOf field?) : r.MadeOf other? := by
  have hothers := h.others
  simp only [List.forall_mem_cons] at hothers
  obtain ⟨hseq, hid, haction, hrun, hdepth, hinput, houtput, -⟩ := hothers
  exact ⟨hseq ▸ hr.seq, hid ▸ hr.id, h.ts ▸ hr.ts, haction ▸ hr.action, h.parent ▸ hr.parent,
    h.causedBy ▸ hr.causedBy, hrun ▸ hr.run, hdepth ▸ hr.depth, hinput ▸ hr.input,
    houtput ▸ hr.output⟩

private theorem ReadAlike.ofFields?_eq {field? other? : String → Option Value}
    (h : ReadAlike field? other?) : ofFields? field? = ofFields? other? := by
  refine Option.ext fun r => ?_
  simp only [ofFields?_eq_some_iff]
  exact ⟨h.madeOf, h.symm.madeOf⟩

section Fields

variable {fields fields' : Payload}

private theorem ofValue?_congr
    (h : ∀ name ∈ fieldNames, Table.get? fields name = Table.get? fields' name) :
    ofValue? (.object fields) = ofValue? (.object fields') := by
  simp only [fieldNames, List.forall_mem_cons] at h
  obtain ⟨hseq, hid, hts, haction, hparent, hcausedBy, hrun, hdepth, hinput, houtput, -⟩ := h
  refine ReadAlike.ofFields?_eq ⟨by rw [hts], by rw [hparent], by rw [hcausedBy], ?_⟩
  simp only [List.forall_mem_cons]
  exact ⟨hseq, hid, haction, hrun, hdepth, hinput, houtput, by simp⟩

private theorem ofValue?_insert_null {name : String}
    (hname : name ∈ ["parent_seq", "caused_by_seq"]) (h : Table.get? fields name = none) :
    ofValue? (.object (Table.insert fields name .null)) = ofValue? (.object fields) := by
  refine ReadAlike.ofFields?_eq ?_
  simp only [List.mem_cons, List.not_mem_nil, or_false] at hname
  rcases hname with rfl | rfl
  · constructor <;> simp [Table.get?_insert, h, seqOfValue?]
  · constructor <;> simp [Table.get?_insert, h, seqOfValue?]

private theorem ofValue?_insert_ts {s s' : String} (h : Table.get? fields "ts" = some (.string s))
    (hsame : Timestamp.parse? s = Timestamp.parse? s') :
    ofValue? (.object (Table.insert fields "ts" (.string s'))) = ofValue? (.object fields) := by
  refine ReadAlike.ofFields?_eq ?_
  constructor <;> simp [Table.get?_insert, h, hsame, asString?]

private theorem ofValue?_textAt {clock utc : Timestamp} {offset : Int}
    (hclock : clock.isValid = true)
    (hutc : utc.isValid = true) (hlow : -1440 < offset) (hhigh : offset < 1440)
    (hminutes : utc.minutes + offset = clock.minutes) (hsecond : utc.second = clock.second)
    (hnanos : utc.nanos = clock.nanos)
    (h : Table.get? fields "ts" = some (.string (clock.textAt offset))) :
    ofValue? (.object (Table.insert fields "ts" (.string utc.text))) =
      ofValue? (.object fields) := by
  refine ofValue?_insert_ts h ?_
  rw [Timestamp.parse?_text hutc]
  exact (Timestamp.parse?_textAt_iff hclock hutc hlow hhigh).mpr ⟨hminutes, hsecond, hnanos⟩

end Fields

/-- In a lawful format, a record that can be stored comes back from each text of its document just
when its brackets are not nested deeper than the format allows. Every record that is decoded can be
stored and is not nested too deep, so it always comes back. What is decoded depends on the fields of
records only, missing links are null, and local times are moved to UTC. -/
theorem roundTrip (f : Json.Format) (hf : f.Lawful) :
    (∀ (r : Record) (text : String), r.Storable → WrittenAs f r text →
      (decode? f text = some r ↔ r.nesting ≤ f.depth)) ∧
    (∀ (source : String) (r : Record), decode? f source = some r →
      r.Storable ∧ r.nesting ≤ f.depth ∧
        ∀ text, WrittenAs f r text → decode? f text = some r) ∧
    (∀ fields fields' : Payload,
      (∀ name ∈ fieldNames, Table.get? fields name = Table.get? fields' name) →
        ofValue? (.object fields) = ofValue? (.object fields')) ∧
    (∀ fields : Payload, ∀ name ∈ ["parent_seq", "caused_by_seq"],
      Table.get? fields name = none →
        ofValue? (.object (Table.insert fields name .null)) = ofValue? (.object fields)) ∧
    ∀ (fields : Payload) (clock utc : Timestamp) (offset : Int), clock.isValid = true →
      utc.isValid = true → -1440 < offset → offset < 1440 →
      utc.minutes + offset = clock.minutes → utc.second = clock.second →
      utc.nanos = clock.nanos →
      Table.get? fields "ts" = some (.string (clock.textAt offset)) →
        ofValue? (.object (Table.insert fields "ts" (.string utc.text))) =
          ofValue? (.object fields) := by
  refine ⟨fun r text h hw => h.decode?_eq_some_iff hf hw, ?_, fun _ _ => ofValue?_congr,
    fun _ _ => ofValue?_insert_null, ?_⟩
  · intro source r hsource
    obtain ⟨hstorable, hnesting⟩ := storable_of_decode? hf hsource
    exact ⟨hstorable, hnesting, fun text hw => (hstorable.decode?_eq_some_iff hf hw).mpr hnesting⟩
  · intro fields clock utc offset hclock hutc hlow hhigh hminutes hsecond hnanos h
    exact ofValue?_textAt hclock hutc hlow hhigh hminutes hsecond hnanos h

def carrying (v : Value) : Record where
  seq := 7
  id := ⟨List.replicate 32 ⟨10, by decide⟩, by decide⟩
  ts := ⟨2024, 2, 29, 23, 59, 58, 250000000⟩
  action := "TripPlanning.create"
  parent := some 6
  causedBy := none
  run := "run-a"
  depth := 1
  input := [("v", v)]
  output := []

private theorem storable_carrying {v : Value} (h : v.Storable) : (carrying v).Storable where
  seq := by simp [carrying, Signed]
  parent := by simp [carrying, Signed]
  causedBy := by simp [carrying]
  depth := by simp [carrying]
  ts := rfl
  input := ⟨by simp [carrying, Table.Sorted], h, trivial⟩
  output := ⟨.nil, trivial⟩

private theorem nesting_carrying (v : Value) : (carrying v).nesting = v.nesting + 2 := by
  simp [nesting, carrying, Value.nesting, fieldsNesting]

def tenth : Double := ⟨false, 0x3FB999999999999A, by decide⟩

/-- A record with a tenth in its input, and the numerals of a reader that rounds once. The program's
own reader reads the record's text in the same way. -/
theorem roundTrip_tenth :
    let r := carrying (.ofDouble tenth)
    let f := Json.Format.of Json.assembleNearest
    f.Lawful ∧ r.Storable ∧ decode? f (f.print r.toValue) = some r ∧
      decode? f (f.print (.object r.fields)) = some r ∧
      Json.read? (f.print r.toValue) = f.read? (f.print r.toValue) ∧
      ofValue? (.object (Table.insert r.document "note" .null)) =
        ofValue? (.object r.document) ∧
      ofValue? (.object (Table.insert (r.document.erase "parent_seq") "parent_seq" .null)) =
        ofValue? (.object (r.document.erase "parent_seq")) ∧
      ofValue? (.object (Table.insert
        (Table.insert r.document "ts" (.string "2024-03-01T00:29:58.250+00:30"))
        "ts" (.string r.ts.text))) =
        ofValue? (.object (Table.insert r.document "ts"
          (.string "2024-03-01T00:29:58.250+00:30"))) := by
  intro r f
  have hstorable : r.Storable := storable_carrying (v := .ofDouble tenth) (by decide)
  have hnesting : r.nesting ≤ f.depth := by
    rw [nesting_carrying]
    decide
  obtain ⟨hstored, hdecoded, hnames, hlinks, htimes⟩ := roundTrip f Json.lawful_nearest
  have hfirst := (hstored _ _ hstorable (writtenAs_print f r)).mpr hnesting
  obtain ⟨-, -, hagain⟩ := hdecoded _ _ hfirst
  have hsecond := hagain _ ⟨_, .refl _, rfl⟩
  have hfits := (hstorable.fits_iff Json.maxDepth).mpr hnesting
  have hplain : ∀ x ∈ (Value.object r.document).floats, x.ReadsBack Json.assembleNumber := by
    have hfloats : (Value.object r.document).floats = [tenth] := by decide +kernel
    rw [hfloats, List.forall_mem_singleton]
    exact Double.readsBack_of_isPlain (by decide) (by decide +kernel)
  have hsame : Json.read? (f.print r.toValue) = f.read? (f.print r.toValue) :=
    (Json.sound_assembleNumber.reads hfits.1 hfits.2 hplain).trans
      (Json.lawful_nearest.reads _ hfits.1 hfits.2).symm
  have hnote := hnames (Table.insert r.document "note" .null) r.document fun name hname => by
    rw [Table.get?_insert, if_neg]
    rintro rfl
    revert hname
    decide
  have hlink := hlinks (r.document.erase "parent_seq") "parent_seq" (by simp)
    (Table.get?_erase_self (Table.sorted_ofList _) "parent_seq")
  have htext : (⟨2024, 3, 1, 0, 29, 58, 250000000⟩ : Timestamp).textAt 30 =
      "2024-03-01T00:29:58.250+00:30" := by
    decide +kernel
  have htime := htimes (Table.insert r.document "ts" (.string "2024-03-01T00:29:58.250+00:30"))
    ⟨2024, 3, 1, 0, 29, 58, 250000000⟩ r.ts 30 (by decide) rfl (by decide) (by decide) (by decide)
    rfl rfl (by rw [Table.get?_insert_self, htext])
  exact ⟨Json.lawful_nearest, hstorable, hfirst, hsecond, hsame, hnote, hlink, htime⟩

def nested : Nat → Value
  | 0 => .array []
  | n + 1 => .array [nested n]

private theorem nesting_nested (n : Nat) : (nested n).nesting = n + 1 := by
  induction n with
  | zero => rfl
  | succ n ih => simp [nested, Value.nesting, itemsNesting, ih]

private theorem storable_nested (n : Nat) : (nested n).Storable := by
  induction n with
  | zero => trivial
  | succ n ih => exact ⟨ih, trivial⟩

/-- A record without any floating point numbers that is one bracket too deep. It can be stored, and
it comes back neither in a lawful format nor from the program's own reader. -/
theorem not_roundTrip_nested :
    let r := carrying (nested 125)
    let f := Json.Format.of Json.assembleNearest
    f.Lawful ∧ r.Storable ∧ r.nesting = 128 ∧ decode? f (f.print r.toValue) = none ∧
      (Json.read? (Json.print r.toValue)).bind ofValue? = none := by
  intro r f
  have hstorable : r.Storable := storable_carrying (storable_nested 125)
  have hnesting : r.nesting = 128 := by rw [nesting_carrying, nesting_nested]
  have hdeep : Json.maxDepth < (Value.object r.document).nesting := by
    by_contra hfits
    have hstored := ((hstorable.fits_iff r.nesting).mpr (Nat.le_refl _)).1
    have hle := (hstorable.fits_iff Json.maxDepth).mp ⟨hstored, Nat.not_lt.mp hfits⟩
    rw [hnesting] at hle
    exact absurd hle (by decide)
  refine ⟨Json.lawful_nearest, hstorable, hnesting, ?_, ?_⟩
  · exact congrArg (Option.bind · ofValue?) (Json.lawful_nearest.refuses _ hdeep)
  · exact congrArg (Option.bind · ofValue?) (Json.refuses_of_lt_nesting hdeep)

end Record

end ConceptSync
