import RpcFramework.Lib.Wire

/-!
# Schemas and their own bytes

A message type is a list of fields with numbers of their own.  What is written of a message
are the records of its fields, one field after the other, and reading merges them into the
default message in this order.  So reading gives the message back as soon as, for each field,
merging its records takes the value over; and it fails as soon as one of the texts is not UTF-8.

Whatever bytes are read, from whoever they come: a property that each field's merge keeps holds
of the message that is read.  That the values are of their types and the texts are UTF-8 is such
a property.

## Main definitions

* `FieldSpec.Copies`, `Reads` — what merging the records of a field, or of some fields, does.
* `FieldSpec.Keeps` — a property that is kept by what may be merged into a field.
* `RoundTrips` — what is written can be read back, and what was read could have been written.

## Main results

* `Reads.decode_encode`, `Reads.decode_encode_none` — **reading what was written.**
* `Codec.decode_keeps` — what is read, whatever the bytes.
* `RoundTrips.decode_again`, `RoundTrips.encode_injective`.
-/

namespace Wire

variable {μ ν : Type*}

/-! ### Merging a field -/

/-- Merging the records that are written of a field of `m` into `acc` gives `acc'`, or fails if
the text is not UTF-8. -/
structure FieldSpec.Copies (s : FieldSpec μ) (m acc acc' : μ) : Prop where
  number : ∀ f ∈ s.write m, f.number = s.number
  of_text : s.text m → (s.write m).foldlM (fun a f => s.merge a f.value) acc = some acc'
  of_not_text : ¬ s.text m → (s.write m).foldlM (fun a f => s.merge a f.value) acc = none

section Copies

variable {m acc : μ} {number : ℕ}

theorem number_of_mem_intField {x : ℤ} : ∀ f ∈ intField number x, f.number = number := by
  intro f hf
  unfold intField at hf
  split at hf
  · exact absurd hf List.not_mem_nil
  · rw [List.mem_singleton.mp hf]

theorem number_of_mem_boolField {b : Bool} : ∀ f ∈ boolField number b, f.number = number := by
  intro f hf
  unfold boolField at hf
  split at hf
  · rw [List.mem_singleton.mp hf]
  · exact absurd hf List.not_mem_nil

theorem number_of_mem_bytesField {x : Bytes} : ∀ f ∈ bytesField number x, f.number = number := by
  intro f hf
  unfold bytesField at hf
  split at hf
  · exact absurd hf List.not_mem_nil
  · rw [List.mem_singleton.mp hf]

variable [FieldNumber number] {getInt : μ → ℤ} {setInt : μ → ℤ → μ}

theorem FieldSpec.copies_int64 (hrange : InRange 64 (getInt m))
    (hzero : getInt m = 0 → setInt acc (getInt m) = acc) :
    (FieldSpec.int64 number getInt setInt).Copies m acc (setInt acc (getInt m)) where
  number := number_of_mem_intField
  of_text _ := foldlM_intField hzero (by simp only [FieldSpec.int64, toInt_ofInt hrange])
  of_not_text h := absurd trivial h

theorem FieldSpec.copies_int32 (hrange : InRange 32 (getInt m))
    (hzero : getInt m = 0 → setInt acc (getInt m) = acc) :
    (FieldSpec.int32 number getInt setInt).Copies m acc (setInt acc (getInt m)) where
  number := number_of_mem_intField
  of_text _ := foldlM_intField hzero (by simp only [FieldSpec.int32, toInt32_ofInt hrange])
  of_not_text h := absurd trivial h

theorem FieldSpec.copies_bool {get : μ → Bool} {set : μ → Bool → μ}
    (hfalse : get m = false → set acc (get m) = acc) :
    (FieldSpec.bool number get set).Copies m acc (set acc (get m)) where
  number := number_of_mem_boolField
  of_text _ := by
    simp only [FieldSpec.bool, boolField]
    cases hget : get m with
    | false =>
      rw [hget] at hfalse
      exact congrArg some (hfalse rfl).symm
    | true => rfl
  of_not_text h := absurd trivial h

variable {get : μ → Bytes} {set : μ → Bytes → μ}

theorem FieldSpec.copies_bytes (hnil : get m = [] → set acc (get m) = acc) :
    (FieldSpec.bytes number get set).Copies m acc (set acc (get m)) where
  number := number_of_mem_bytesField
  of_text _ := foldlM_bytesField hnil rfl
  of_not_text h := absurd trivial h

theorem FieldSpec.copies_string (hnil : get m = [] → set acc (get m) = acc) :
    (FieldSpec.string number get set).Copies m acc (set acc (get m)) where
  number := number_of_mem_bytesField
  of_text h := foldlM_bytesField hnil (if_pos h)
  of_not_text h := by
    have hne : get m ≠ [] := by
      intro hget
      refine h ?_
      show validUtf8 (get m) = true
      rw [hget]
      rfl
    exact foldlM_bytesField_none hne (if_neg h)

/-- A list of messages is read one after the other, up to the first that cannot be. -/
theorem FieldSpec.copies_repeated {schema : List (FieldSpec ν)} {c : Codec ν}
    {get : μ → List ν} {push : μ → ν → μ} {r : μ}
    (hread : ∀ x ∈ get m, Text schema x → c.decode (c.encode x) = some x)
    (hfail : ∀ x ∈ get m, ¬ Text schema x → c.decode (c.encode x) = none)
    (hpush : (get m).foldl push acc = r) :
    (FieldSpec.repeated number schema c get push).Copies m acc r where
  number f hf := by
    obtain ⟨x, -, rfl⟩ := List.mem_map.mp hf
    rfl
  of_text h := by
    have hall : ∀ (xs : List ν) (acc : μ),
        (∀ x ∈ xs, c.decode (c.encode x) = some x) →
        (xs.map fun x => (⟨number, .lengthDelimited (c.encode x)⟩ : Field)).foldlM
          (fun a f => (FieldSpec.repeated number schema c get push).merge a f.value) acc =
            some (xs.foldl push acc) := by
      intro xs
      induction xs with
      | nil => exact fun acc _ => rfl
      | cons x xs ih =>
        intro acc hxs
        have hx : (FieldSpec.repeated number schema c get push).merge acc
            (.lengthDelimited (c.encode x)) = some (push acc x) := by
          simp only [FieldSpec.repeated, hxs x List.mem_cons_self, Option.map_some]
        rw [List.map_cons, List.foldlM_cons, hx]
        exact ih _ fun y hy => hxs y (List.mem_cons_of_mem _ hy)
    exact (hall _ acc fun x hx => hread x hx (h x hx)).trans (congrArg some hpush)
  of_not_text h := by
    have hsome : ∀ (xs : List ν) (acc : μ),
        (∀ x ∈ xs, Text schema x → c.decode (c.encode x) = some x) →
        (∀ x ∈ xs, ¬ Text schema x → c.decode (c.encode x) = none) →
        (¬ ∀ x ∈ xs, Text schema x) →
        (xs.map fun x => (⟨number, .lengthDelimited (c.encode x)⟩ : Field)).foldlM
          (fun a f => (FieldSpec.repeated number schema c get push).merge a f.value) acc =
            none := by
      intro xs
      induction xs with
      | nil => exact fun acc _ _ hnot => absurd (fun x hx => absurd hx List.not_mem_nil) hnot
      | cons x xs ih =>
        intro acc hxs hfails hnot
        rw [List.map_cons, List.foldlM_cons]
        by_cases hx : Text schema x
        · have hmerge : (FieldSpec.repeated number schema c get push).merge acc
              (.lengthDelimited (c.encode x)) = some (push acc x) := by
            simp only [FieldSpec.repeated, hxs x List.mem_cons_self hx, Option.map_some]
          rw [hmerge]
          refine ih _ (fun y hy => hxs y (List.mem_cons_of_mem _ hy))
            (fun y hy => hfails y (List.mem_cons_of_mem _ hy)) fun hall => hnot ?_
          exact List.forall_mem_cons.mpr ⟨hx, hall⟩
        · have hmerge : (FieldSpec.repeated number schema c get push).merge acc
              (.lengthDelimited (c.encode x)) = none := by
            simp only [FieldSpec.repeated, hfails x List.mem_cons_self hx, Option.map_none]
          rw [hmerge]
          rfl
    exact hsome _ acc hread hfail h

end Copies

/-- A payload is no longer than the bytes it is written in. -/
theorem length_payload_le {fs : List Field} {number : ℕ} {bytes : Bytes}
    (h : (⟨number, .lengthDelimited bytes⟩ : Field) ∈ fs) :
    bytes.length ≤ (encodeFields fs).length := by
  obtain ⟨before, after, rfl⟩ := List.append_of_mem h
  rw [length_encodeFields_append, encodeFields_cons, List.length_append]
  simp only [encodeField, List.length_append]
  omega

/-- A message in a repeated field is no longer than the message around it. -/
theorem length_encode_le_of_mem {empty m : μ} {schema : List (FieldSpec μ)} {number : ℕ}
    [FieldNumber number] {subschema : List (FieldSpec ν)} {c : Codec ν} {get : μ → List ν}
    {push : μ → ν → μ} (hs : FieldSpec.repeated number subschema c get push ∈ schema) {x : ν}
    (hx : x ∈ get m) :
    (c.encode x).length ≤ ((Codec.ofSchema empty schema).encode m).length :=
  length_payload_le (List.mem_flatMap.mpr ⟨_, hs, List.mem_map.mpr ⟨x, hx, rfl⟩⟩)

/-! ### Merging a message -/

/-- Merging the records of these fields of `m`, one after the other. -/
inductive Reads (m : μ) : List (FieldSpec μ) → μ → μ → Prop where
  | nil (acc : μ) : Reads m [] acc acc
  | cons {s : FieldSpec μ} {rest : List (FieldSpec μ)} {acc acc' final : μ}
      (hfirst : s.Copies m acc acc') (hrest : Reads m rest acc' final) :
      Reads m (s :: rest) acc final

section Reads

variable {m acc final : μ} {schema specs : List (FieldSpec μ)}

/-- A record with the number of a field is merged into this field. -/
theorem Codec.mergeField_ofSchema (empty : μ) (hnodup : (schema.map FieldSpec.number).Nodup)
    {s : FieldSpec μ} (hs : s ∈ schema) {f : Field} (hf : f.number = s.number) (acc : μ) :
    (Codec.ofSchema empty schema).mergeField acc f = s.merge acc f.value := by
  have hfind : schema.find? (fun r => r.number == f.number) = some s := by
    rw [hf]
    clear hf
    induction schema with
    | nil => exact absurd hs List.not_mem_nil
    | cons r schema ih =>
      rw [List.map_cons, List.nodup_cons] at hnodup
      rcases List.mem_cons.mp hs with rfl | hrest
      · exact List.find?_cons_of_pos (beq_self_eq_true _)
      · have hne : r.number ≠ s.number :=
          fun heq => hnodup.1 (heq ▸ List.mem_map_of_mem hrest)
        rw [List.find?_cons_of_neg (by simpa using hne)]
        exact ih hnodup.2 hrest
  simp only [Codec.ofSchema, hfind]

/-- Merging alike gives the same. -/
theorem foldlM_congr {fs : List Field} {merge merge' : μ → Field → Option μ}
    (h : ∀ f ∈ fs, ∀ acc, merge acc f = merge' acc f) (acc : μ) :
    fs.foldlM merge acc = fs.foldlM merge' acc := by
  induction fs generalizing acc with
  | nil => rfl
  | cons f fs ih =>
    rw [List.foldlM_cons, List.foldlM_cons, h f List.mem_cons_self]
    cases merge' acc f with
    | none => rfl
    | some acc' => exact ih (fun g hg => h g (List.mem_cons_of_mem _ hg)) acc'

variable {merge : μ → Field → Option μ}
  (hmerge : ∀ s ∈ specs, ∀ f : Field, f.number = s.number →
    ∀ acc, merge acc f = s.merge acc f.value)
include hmerge

theorem Reads.foldlM (h : Reads m specs acc final) (htext : Text specs m) :
    (specs.flatMap fun s => s.write m).foldlM merge acc = some final := by
  induction h with
  | nil acc => rfl
  | @cons s rest acc acc' final hfirst hrest ih =>
    have hthis : (s.write m).foldlM merge acc = some acc' := by
      rw [foldlM_congr fun f hf => hmerge s List.mem_cons_self f (hfirst.number f hf)]
      exact hfirst.of_text (htext s List.mem_cons_self)
    rw [List.flatMap_cons, List.foldlM_append, hthis]
    exact ih (fun r hr => hmerge r (List.mem_cons_of_mem _ hr))
      fun r hr => htext r (List.mem_cons_of_mem _ hr)

theorem Reads.foldlM_none (h : Reads m specs acc final) (htext : ¬ Text specs m) :
    (specs.flatMap fun s => s.write m).foldlM merge acc = none := by
  induction h with
  | nil acc => exact absurd (fun s hs => absurd hs List.not_mem_nil) htext
  | @cons s rest acc acc' final hfirst hrest ih =>
    have hthis : (s.write m).foldlM merge acc =
        (s.write m).foldlM (fun a f => s.merge a f.value) acc :=
      foldlM_congr (fun f hf => hmerge s List.mem_cons_self f (hfirst.number f hf)) acc
    rw [List.flatMap_cons, List.foldlM_append, hthis]
    by_cases hs : s.text m
    · rw [hfirst.of_text hs]
      refine ih (fun r hr => hmerge r (List.mem_cons_of_mem _ hr)) fun hall => htext ?_
      exact List.forall_mem_cons.mpr ⟨hs, hall⟩
    · rw [hfirst.of_not_text hs]
      rfl

end Reads

section DecodeEncode

variable {empty m : μ} {schema : List (FieldSpec μ)}
  (hnodup : (schema.map FieldSpec.number).Nodup)
  (hlen : ((Codec.ofSchema empty schema).encode m).length ≤ maxLength)
include hnodup hlen

/-- **What was written is read back**, if all text is UTF-8. -/
theorem Reads.decode_encode (h : Reads m schema empty m) (htext : Text schema m) :
    (Codec.ofSchema empty schema).decode ((Codec.ofSchema empty schema).encode m) = some m := by
  rw [Codec.decode_encode _ _ hlen]
  exact h.foldlM
    (fun s hs f hf acc => Codec.mergeField_ofSchema empty hnodup hs hf acc) htext

/-- If not, nothing is read. -/
theorem Reads.decode_encode_none (h : Reads m schema empty m) (htext : ¬ Text schema m) :
    (Codec.ofSchema empty schema).decode ((Codec.ofSchema empty schema).encode m) = none := by
  rw [Codec.decode_encode _ _ hlen]
  exact h.foldlM_none
    (fun s hs f hf acc => Codec.mergeField_ofSchema empty hnodup hs hf acc) htext

end DecodeEncode

/-! ### What is read -/

/-- Whatever may be merged into the field keeps the property. -/
def FieldSpec.Keeps (s : FieldSpec μ) (P : μ → Prop) : Prop :=
  ∀ (acc : μ) (v : Value) (acc' : μ), P acc → s.merge acc v = some acc' → P acc'

section Keeps

variable {P : μ → Prop} {number : ℕ} [FieldNumber number]

theorem inRange_toInt64 (n : ℕ) : InRange 64 (toInt 64 n) := by
  unfold InRange toInt
  norm_num
  split <;> omega

variable {getInt : μ → ℤ} {setInt : μ → ℤ → μ}

theorem FieldSpec.keeps_int64 (h : ∀ acc x, P acc → InRange 64 x → P (setInt acc x)) :
    (FieldSpec.int64 number getInt setInt).Keeps P := by
  intro acc v acc' hacc hmerge
  cases v with
  | varint n =>
    obtain rfl := Option.some.inj hmerge
    exact h acc _ hacc (inRange_toInt64 n)
  | fixed64 | lengthDelimited | group | fixed32 => exact Option.some.inj hmerge ▸ hacc

theorem FieldSpec.keeps_int32 (h : ∀ acc x, P acc → InRange 32 x → P (setInt acc x)) :
    (FieldSpec.int32 number getInt setInt).Keeps P := by
  intro acc v acc' hacc hmerge
  cases v with
  | varint n =>
    obtain rfl := Option.some.inj hmerge
    exact h acc _ hacc (inRange_toInt32 n)
  | fixed64 | lengthDelimited | group | fixed32 => exact Option.some.inj hmerge ▸ hacc

theorem FieldSpec.keeps_bool {get : μ → Bool} {set : μ → Bool → μ}
    (h : ∀ acc b, P acc → P (set acc b)) : (FieldSpec.bool number get set).Keeps P := by
  intro acc v acc' hacc hmerge
  cases v with
  | varint n =>
    obtain rfl := Option.some.inj hmerge
    exact h acc _ hacc
  | fixed64 | lengthDelimited | group | fixed32 => exact Option.some.inj hmerge ▸ hacc

variable {get : μ → Bytes} {set : μ → Bytes → μ}

theorem FieldSpec.keeps_bytes (h : ∀ acc x, P acc → P (set acc x)) :
    (FieldSpec.bytes number get set).Keeps P := by
  intro acc v acc' hacc hmerge
  cases v with
  | lengthDelimited x =>
    obtain rfl := Option.some.inj hmerge
    exact h acc _ hacc
  | varint | fixed64 | group | fixed32 => exact Option.some.inj hmerge ▸ hacc

theorem FieldSpec.keeps_string (h : ∀ acc x, P acc → validUtf8 x = true → P (set acc x)) :
    (FieldSpec.string number get set).Keeps P := by
  intro acc v acc' hacc hmerge
  cases v with
  | lengthDelimited x =>
    obtain ⟨htext, heq⟩ := Option.ite_none_right_eq_some.mp hmerge
    obtain rfl := Option.some.inj heq
    exact h acc _ hacc htext
  | varint | fixed64 | group | fixed32 => exact Option.some.inj hmerge ▸ hacc

theorem FieldSpec.keeps_repeated {schema : List (FieldSpec ν)} {c : Codec ν}
    {get : μ → List ν} {push : μ → ν → μ} {Q : ν → Prop}
    (hdecode : ∀ bs x, c.decode bs = some x → Q x)
    (h : ∀ acc x, P acc → Q x → P (push acc x)) :
    (FieldSpec.repeated number schema c get push).Keeps P := by
  intro acc v acc' hacc hmerge
  cases v with
  | lengthDelimited bs =>
    obtain ⟨x, hx, rfl⟩ := Option.map_eq_some_iff.mp hmerge
    exact h acc x hacc (hdecode bs x hx)
  | varint | fixed64 | group | fixed32 => exact Option.some.inj hmerge ▸ hacc

end Keeps

/-- **What is read has the property**, whatever the bytes. -/
theorem Codec.decode_keeps {P : μ → Prop} {empty : μ} {schema : List (FieldSpec μ)}
    (hempty : P empty) (hkeeps : ∀ s ∈ schema, s.Keeps P) {bs : Bytes} {m : μ}
    (h : (Codec.ofSchema empty schema).decode bs = some m) : P m := by
  refine Codec.decode_invariant hempty ?_ h
  intro acc f acc' hacc _ hmerge
  simp only [Codec.ofSchema] at hmerge
  split at hmerge
  · next s hfind => exact hkeeps s (List.mem_of_find?_eq_some hfind) acc f.value acc' hacc hmerge
  · exact Option.some.inj hmerge ▸ hacc

/-! ### Both ways -/

/-- What is written of a message can be read back if its text is UTF-8, and is not read at all
otherwise; and whatever bytes are read as a message, its values are of their types, and its
text is UTF-8. -/
structure RoundTrips (empty : μ) (schema : List (FieldSpec μ)) : Prop where
  decode_encode : ∀ m, Typed schema m → Text schema m →
    ((Codec.ofSchema empty schema).encode m).length ≤ maxLength →
      (Codec.ofSchema empty schema).decode ((Codec.ofSchema empty schema).encode m) = some m
  decode_encode_none : ∀ m, Typed schema m → ¬ Text schema m →
    ((Codec.ofSchema empty schema).encode m).length ≤ maxLength →
      (Codec.ofSchema empty schema).decode ((Codec.ofSchema empty schema).encode m) = none
  of_decode : ∀ bs m, (Codec.ofSchema empty schema).decode bs = some m →
    Typed schema m ∧ Text schema m

namespace RoundTrips

variable {empty : μ} {schema : List (FieldSpec μ)}

/-- From the fields of a message type: their numbers, what merging them does, and what may be
merged into them; `P` says in short what a message looks like. -/
theorem of_schema {P : μ → Prop} (hnodup : (schema.map FieldSpec.number).Nodup)
    (hreads : ∀ m, Typed schema m →
      ((Codec.ofSchema empty schema).encode m).length ≤ maxLength → Reads m schema empty m)
    (hP : ∀ m, Typed schema m ∧ Text schema m ↔ P m) (hempty : P empty)
    (hkeeps : ∀ s ∈ schema, s.Keeps P) : RoundTrips empty schema where
  decode_encode m htyped htext hlen := (hreads m htyped hlen).decode_encode hnodup hlen htext
  decode_encode_none m htyped htext hlen :=
    (hreads m htyped hlen).decode_encode_none hnodup hlen htext
  of_decode _ m h := (hP m).mpr (Codec.decode_keeps hempty hkeeps h)

variable (h : RoundTrips empty schema)
include h

/-- What was read, written again and read again is the same message, however it was written
at first. -/
theorem decode_again {bs : Bytes} {m : μ} (hread : (Codec.ofSchema empty schema).decode bs = some m)
    (hlen : ((Codec.ofSchema empty schema).encode m).length ≤ maxLength) :
    (Codec.ofSchema empty schema).decode ((Codec.ofSchema empty schema).encode m) = some m :=
  h.decode_encode m (h.of_decode bs m hread).1 (h.of_decode bs m hread).2 hlen

/-- Different messages are different bytes. -/
theorem encode_injective {m m' : μ} (hm : Typed schema m ∧ Text schema m)
    (hm' : Typed schema m' ∧ Text schema m')
    (hlen : ((Codec.ofSchema empty schema).encode m).length ≤ maxLength)
    (heq : (Codec.ofSchema empty schema).encode m = (Codec.ofSchema empty schema).encode m') :
    m = m' := by
  have hread := h.decode_encode m hm.1 hm.2 hlen
  rw [heq, h.decode_encode m' hm'.1 hm'.2 (heq ▸ hlen)] at hread
  exact (Option.some.inj hread).symm

end RoundTrips

end Wire
