import NameRecovery.Proofs.Json.Quoted
import NameRecovery.Proofs.Table

/-!
# What is written reads back

A value written on one line is read as itself, lists and objects part by part.  Two things can
be lost.  An integer has to be short enough to be read, and the names of an object have to be
different; and a number that is not whole is read as what its decimal means.

* `Readable`, `reread` — which values read back, and as what;
* `readsBack` — a value is read where it was written, whatever follows;
* `decode_compact` — **what is written is what is read**;
* `reread_of_isExact` — which is the value itself, if its numbers are whole;
* `onLine_compact` — a value stands on one line.
-/

namespace NameRecovery.Json

/-! ## Constants and numbers -/

/-- Does a constant or a number start like this? -/
def startsAtom (c : Char) : Bool :=
  c.isDigit || ['-', 'n', 't', 'f', 'N', 'I'].contains c

/-- Nothing else is read as a constant or a number. -/
theorem readAtom_error {c : Char} (h : startsAtom c = false) (cs : List Char) (index : Nat) :
    readAtom ⟨c :: cs, index⟩ = .error (.expectedValue, index) := by
  simp only [startsAtom, Bool.or_eq_false_iff, List.contains_cons, List.contains_nil,
    Bool.or_false, beq_eq_false_iff_ne] at h
  obtain ⟨hdigit, hminus, hn, ht, hf, hN, hI⟩ := h
  have hnone : (constants.find? fun constant => constant.1.isPrefixOf (c :: cs)) = none := by
    simp [constants, List.isPrefixOf, Ne.symm hminus, Ne.symm hn, Ne.symm ht, Ne.symm hf,
      Ne.symm hN, Ne.symm hI]
  have hzero : c ≠ '0' := by
    rintro rfl
    cases hdigit
  have hwhole : wholeDigits (c :: cs) = [] := by
    rw [wholeDigits]
    · simp [hdigit]
    · intro tail heq
      exact hzero (List.cons.inj heq).1
  rw [readAtom, hnone]
  simp [readNumber, hminus, hwhole]

theorem ReadsAs.starts {text : List Char} {value : Json} (h : ReadsAs text value) :
    ∃ c cs, text = c :: cs ∧ startsAtom c = true := by
  have hread := h [] 0 ends_nil
  cases text with
  | nil => cases hread
  | cons c cs =>
      refine ⟨c, cs, rfl, ?_⟩
      cases hstart : startsAtom c with
      | true => rfl
      | false =>
          rw [List.cons_append, readAtom_error hstart] at hread
          cases hread

theorem startsAtom_ne {c d : Char} (h : startsAtom c = true) (hd : startsAtom d = false) :
    c ≠ d := by
  rintro rfl
  rw [h] at hd
  cases hd

theorem readValue_atom {c : Char} (h : startsAtom c = true) (fuel : Nat) (cs : List Char)
    (index : Nat) : readValue (fuel + 1) ⟨c :: cs, index⟩ = readAtom ⟨c :: cs, index⟩ := by
  have hquote : c ≠ '"' := startsAtom_ne h rfl
  have hbrace : c ≠ '{' := startsAtom_ne h rfl
  have hbracket : c ≠ '[' := startsAtom_ne h rfl
  simp [readValue, hquote, hbrace, hbracket]

theorem ReadsAs.readValue {text : List Char} {value : Json} (h : ReadsAs text value) {fuel : Nat}
    (hfuel : 0 < fuel) {rest : List Char} (hrest : Ends rest) (index : Nat) :
    readValue fuel ⟨text ++ rest, index⟩ = .ok (value, ⟨rest, index + text.length⟩) := by
  obtain ⟨fuel, rfl⟩ : ∃ n, fuel = n + 1 := ⟨fuel - 1, by omega⟩
  obtain ⟨c, cs, rfl, hstart⟩ := h.starts
  rw [List.cons_append, readValue_atom hstart]
  exact h rest index hrest

theorem readsAs_null : ReadsAs "null".toList .null :=
  readsAs_constant fun _ => rfl

theorem readsAs_true : ReadsAs "true".toList (.bool true) :=
  readsAs_constant fun _ => rfl

theorem readsAs_false : ReadsAs "false".toList (.bool false) :=
  readsAs_constant fun _ => rfl

/-! ## Values -/

mutual

/-- Can the value be read back?  Integers have to be short enough, and the names of an object
different. -/
def Readable : Json → Prop
  | .int n => n.natAbs < 10 ^ maxDigits
  | .array items => ReadableItems items
  | .object fields => (fields.map Prod.fst).Nodup ∧ ReadableFields fields
  | .null | .bool _ | .real _ | .text _ => True

/-- Can all items be read back? -/
def ReadableItems : List Json → Prop
  | [] => True
  | item :: rest => item.Readable ∧ ReadableItems rest

/-- Can the values of all fields be read back? -/
def ReadableFields : List (String × Json) → Prop
  | [] => True
  | (_, value) :: rest => value.Readable ∧ ReadableFields rest

end

mutual

/-- What the value is read back as: numbers that are not whole are those their decimals
mean. -/
def reread : Json → Json
  | .real x => .real (rereadReal x)
  | .array items => .array (rereadItems items)
  | .object fields => .object (rereadFields fields)
  | .null => .null
  | .bool b => .bool b
  | .int n => .int n
  | .text s => .text s

/-- What the items are read back as. -/
def rereadItems : List Json → List Json
  | [] => []
  | item :: rest => item.reread :: rereadItems rest

/-- What the fields are read back as. -/
def rereadFields : List (String × Json) → List (String × Json)
  | [] => []
  | (key, value) :: rest => (key, value.reread) :: rereadFields rest

end

mutual

/-- Are all numbers in the value whole? -/
def isExact : Json → Bool
  | .real _ => false
  | .array items => isExactItems items
  | .object fields => isExactFields fields
  | .null | .bool _ | .int _ | .text _ => true

/-- Are all numbers in the items whole? -/
def isExactItems : List Json → Bool
  | [] => true
  | item :: rest => item.isExact && isExactItems rest

/-- Are all numbers in the fields whole? -/
def isExactFields : List (String × Json) → Bool
  | [] => true
  | (_, value) :: rest => value.isExact && isExactFields rest

end

/-- The parts of a list or an object between its brackets. -/
def between (parts : List String) : List Char :=
  (String.intercalate ", " parts).toList

theorem between_singleton (part : String) : between [part] = part.toList := by
  simp [between]

theorem between_cons (part next : String) (rest : List String) :
    between (part :: next :: rest) = part.toList ++ ',' :: ' ' :: between (next :: rest) := by
  simp [between, String.toList_intercalate]

theorem skipGap_cons {c : Char} (h : isGap c = false) (rest : List Char) (index : Nat) :
    Input.skipGap ⟨c :: rest, index⟩ = ⟨c :: rest, index⟩ := by
  simp [Input.skipGap, Input.drop, h]

theorem skipGap_blank {c : Char} (h : isGap c = false) (rest : List Char) (index : Nat) :
    Input.skipGap ⟨' ' :: c :: rest, index⟩ = ⟨c :: rest, index + 1⟩ := by
  have hblank : isGap ' ' = true := rfl
  simp [Input.skipGap, Input.drop, h, hblank]

/-- Does a value start like this? -/
def startsValue (c : Char) : Bool :=
  startsAtom c || ['"', '[', '{'].contains c

theorem startsValue_ne {c d : Char} (h : startsValue c = true) (hd : startsValue d = false) :
    c ≠ d := by
  rintro rfl
  rw [h] at hd
  cases hd

theorem isGap_of_startsValue {c : Char} (h : startsValue c = true) : isGap c = false := by
  have hblank : c ≠ ' ' := startsValue_ne h rfl
  have htab : c ≠ '\t' := startsValue_ne h rfl
  have hfeed : c ≠ '\n' := startsValue_ne h rfl
  have hreturn : c ≠ '\r' := startsValue_ne h rfl
  simp [isGap, hblank, htab, hfeed, hreturn]

theorem compact_starts {v : Json} (h : v.Readable) :
    ∃ c cs, v.compact.toList = c :: cs ∧ startsValue c = true := by
  have hatom : ∀ {text : List Char} {value : Json}, ReadsAs text value →
      ∃ c cs, text = c :: cs ∧ startsValue c = true := by
    intro text value hreads
    obtain ⟨c, cs, htext, hstart⟩ := hreads.starts
    exact ⟨c, cs, htext, by rw [startsValue, hstart, Bool.true_or]⟩
  cases v with
  | null => exact hatom readsAs_null
  | bool b =>
      cases b with
      | true => exact hatom readsAs_true
      | false => exact hatom readsAs_false
  | int n => exact hatom (readsAs_int h)
  | real x => exact hatom (readsAs_real x)
  | text s =>
      obtain ⟨body, hbody, -⟩ := readText_quote s
      exact ⟨'"', body, hbody, rfl⟩
  | array items =>
      exact ⟨'[', between (compactItems items) ++ [']'], by simp [compact, between], rfl⟩
  | object fields =>
      exact ⟨'{', between (compactFields fields) ++ ['}'], by simp [compact, between], rfl⟩

theorem between_starts (part : String) (rest : List String) :
    ∃ tail, between (part :: rest) = part.toList ++ tail := by
  cases rest with
  | nil => exact ⟨[], by rw [between_singleton, List.append_nil]⟩
  | cons next rest => exact ⟨_, between_cons part next rest⟩

theorem items_start {item : Json} (h : item.Readable) (items : List Json) (more : List Char) :
    ∃ c cs, between (compactItems (item :: items)) ++ more = c :: cs ∧ isGap c = false ∧
      c ≠ ']' := by
  obtain ⟨c, cs, htext, hstart⟩ := compact_starts h
  obtain ⟨tail, htail⟩ := between_starts item.compact (compactItems items)
  exact ⟨c, cs ++ tail ++ more, by simp [compactItems, htail, htext], isGap_of_startsValue hstart,
    startsValue_ne hstart rfl⟩

theorem fields_start (key : String) (value : Json) (fields : List (String × Json))
    (more : List Char) :
    ∃ cs, between (compactFields ((key, value) :: fields)) ++ more = '"' :: cs := by
  obtain ⟨body, hbody, -⟩ := readText_quote key
  obtain ⟨tail, htail⟩ := between_starts (quote false key ++ ": " ++ value.compact)
    (compactFields fields)
  refine ⟨body ++ ": ".toList ++ value.compact.toList ++ tail ++ more, ?_⟩
  rw [compactFields, htail]
  simp only [String.toList_append, hbody, List.cons_append]

/-- The value is read where it was written, whatever follows it, with fuel for every
character. -/
def ReadsBack (v : Json) : Prop :=
  ∀ (fuel : Nat), 2 * v.compact.toList.length ≤ fuel → ∀ (rest : List Char) (index : Nat),
    Ends rest → readValue fuel ⟨v.compact.toList ++ rest, index⟩ =
      .ok (v.reread, ⟨rest, index + v.compact.toList.length⟩)

theorem ReadsAs.readsBack {v : Json} (h : ReadsAs v.compact.toList v.reread) : ReadsBack v := by
  intro fuel hfuel rest index hrest
  obtain ⟨c, cs, htext, -⟩ := h.starts
  have hpos : 0 < v.compact.toList.length := by rw [htext]; simp
  exact h.readValue (by omega) hrest index

theorem readsBack_text (s : String) : ReadsBack (.text s) := by
  intro fuel hfuel rest index _
  obtain ⟨body, hbody, hread⟩ := readText_quote s
  rw [compact, hbody] at hfuel ⊢
  obtain ⟨fuel, rfl⟩ : ∃ n, fuel = n + 1 := ⟨fuel - 1, by simp at hfuel; omega⟩
  simp only [List.cons_append, readValue, Input.drop, List.drop_succ_cons, List.drop_zero,
    hread, bind, Except.bind, pure, Except.pure, reread, List.length_cons]
  simp only [Except.ok.injEq, Prod.mk.injEq, true_and, Input.mk.injEq]
  omega

/-- Items that are read back are read one after the other. -/
theorem readItems_compact {item : Json} {items : List Json}
    (hreadable : ∀ v ∈ item :: items, v.Readable) (h : ∀ v ∈ item :: items, ReadsBack v)
    (fuel : Nat) (hfuel : 2 * (between (compactItems (item :: items))).length + 1 ≤ fuel)
    (done : List Json) (rest : List Char) (index : Nat) :
    readItems fuel done ⟨between (compactItems (item :: items)) ++ ']' :: rest, index⟩ =
      .ok (.array (done.reverse ++ rereadItems (item :: items)),
        ⟨rest, index + (between (compactItems (item :: items))).length + 1⟩) := by
  obtain ⟨fuel, rfl⟩ : ∃ n, fuel = n + 1 := ⟨fuel - 1, by omega⟩
  induction items generalizing item fuel done index with
  | nil =>
      rw [compactItems, compactItems, between_singleton] at hfuel ⊢
      have hgap : isGap ']' = false := rfl
      have hread := h item (by simp) fuel (by omega) (']' :: rest) index
        (ends_cons (by decide) rest)
      simp only [readItems, hread, bind, Except.bind, skipGap_cons hgap, Input.drop,
        List.drop_succ_cons, List.drop_zero, pure, Except.pure, rereadItems, List.reverse_cons]
  | cons next items ih =>
      have htext : between (compactItems (item :: next :: items)) =
          item.compact.toList ++ ',' :: ' ' :: between (compactItems (next :: items)) := by
        rw [compactItems, compactItems, between_cons]
      rw [htext] at hfuel ⊢
      simp only [List.length_append, List.length_cons] at hfuel
      obtain ⟨fuel, rfl⟩ : ∃ n, fuel = n + 1 := ⟨fuel - 1, by omega⟩
      have hcomma : isGap ',' = false := rfl
      obtain ⟨c, cs, hstart, hgap, -⟩ :=
        items_start (hreadable next (by simp)) items (']' :: rest)
      have hread := h item (by simp) (fuel + 1) (by omega)
        (',' :: ' ' :: (between (compactItems (next :: items)) ++ ']' :: rest)) index
        (ends_cons (by decide) _)
      have hmore := @ih next (fun v hv => hreadable v (List.mem_cons_of_mem _ hv))
        (fun v hv => h v (List.mem_cons_of_mem _ hv)) (item.reread :: done)
        (index + item.compact.toList.length + 1 + 1) fuel (by omega)
      rw [hstart] at hread hmore
      rw [readItems]
      simp only [List.append_assoc, List.cons_append, hstart, hread, bind, Except.bind,
        skipGap_cons hcomma, Input.drop, List.drop_succ_cons, List.drop_zero, skipGap_blank hgap,
        hmore]
      simp only [rereadItems, List.reverse_cons, List.append_assoc, List.singleton_append,
        List.length_append, List.length_cons, Except.ok.injEq, Prod.mk.injEq, true_and,
        Input.mk.injEq]
      omega

theorem length_value (key : String) (value : Json) :
    value.compact.toList.length ≤ (quote false key ++ ": " ++ value.compact).toList.length := by
  simp only [String.toList_append, List.length_append]
  omega

/-- A field is read up to the end of its value; what follows decides how it goes on. -/
theorem readFields_step (key : String) {value : Json} (h : ReadsBack value)
    (hreadable : value.Readable) {fuel : Nat} (hfuel : 2 * value.compact.toList.length ≤ fuel)
    (done : Table Json) {c : Char} (hc : isGap c = false) {more : List Char}
    (hmore : Ends (c :: more)) (index : Nat) :
    readFields (fuel + 1) done
        ⟨(quote false key ++ ": " ++ value.compact).toList ++ c :: more, index⟩ =
      match c :: more with
      | '}' :: _ => .ok (.object (done.put key value.reread),
          ⟨more, index + (quote false key ++ ": " ++ value.compact).toList.length + 1⟩)
      | ',' :: _ => readFields fuel (done.put key value.reread)
          (Input.skipGap
            ⟨more, index + (quote false key ++ ": " ++ value.compact).toList.length + 1⟩)
      | _ => .error (.expectedComma,
          index + (quote false key ++ ": " ++ value.compact).toList.length) := by
  obtain ⟨body, hbody, htext⟩ := readText_quote key
  obtain ⟨d, ds, hvalue, hstart⟩ := compact_starts hreadable
  have hgap := isGap_of_startsValue hstart
  have hcolon : isGap ':' = false := rfl
  have hread := h fuel hfuel (c :: more) (index + 1 + body.length + 1 + 1) hmore
  have hlength : index + 1 + body.length + 1 + 1 + value.compact.toList.length =
      index + (quote false key ++ ": " ++ value.compact).toList.length := by
    simp only [String.toList_append, hbody, List.length_append, List.length_cons]
    simp
    omega
  have hinput : (quote false key ++ ": " ++ value.compact).toList ++ c :: more =
      '"' :: (body ++ ':' :: ' ' :: (value.compact.toList ++ c :: more)) := by
    simp [String.toList_append, hbody]
  rw [hlength] at hread
  rw [hinput, readFields]
  rw [hvalue] at hread ⊢
  simp only [Input.drop, List.drop_succ_cons, List.drop_zero, htext, bind, Except.bind,
    skipGap_cons hcolon, List.head?_cons, ne_eq, not_true_eq_false, if_false, List.cons_append,
    skipGap_blank hgap]
  rw [List.cons_append] at hread
  simp only [hread, skipGap_cons hc, pure, Except.pure]
  rfl

/-- Fields whose values are read back are read one after the other. -/
theorem readFields_compact {key : String} {value : Json} {fields : List (String × Json)}
    (hreadable : ∀ field ∈ (key, value) :: fields, field.2.Readable)
    (h : ∀ field ∈ (key, value) :: fields, ReadsBack field.2) (fuel : Nat)
    (hfuel : 2 * (between (compactFields ((key, value) :: fields))).length + 1 ≤ fuel)
    (done : Table Json) (hnodup : (done.map Prod.fst ++ key :: fields.map Prod.fst).Nodup)
    (rest : List Char) (index : Nat) :
    readFields fuel done
        ⟨between (compactFields ((key, value) :: fields)) ++ '}' :: rest, index⟩ =
      .ok (.object (done ++ rereadFields ((key, value) :: fields)),
        ⟨rest, index + (between (compactFields ((key, value) :: fields))).length + 1⟩) := by
  obtain ⟨fuel, rfl⟩ : ∃ n, fuel = n + 1 := ⟨fuel - 1, by omega⟩
  induction fields generalizing key value fuel done index with
  | nil =>
      rw [compactFields, compactFields, between_singleton] at hfuel ⊢
      have hkey : key ∉ done.map Prod.fst := fun hmem =>
        (List.nodup_append.1 hnodup).2.2 key hmem key List.mem_cons_self rfl
      have hlength := length_value key value
      have hback : ReadsBack value := h (key, value) (by simp)
      have hvalue : value.Readable := hreadable (key, value) (by simp)
      rw [readFields_step key hback hvalue (by omega) done rfl (ends_cons (by decide) rest)]
      simp only [Table.put_new hkey, rereadFields]
  | cons next fields ih =>
      obtain ⟨key', value'⟩ := next
      have htext : between (compactFields ((key, value) :: (key', value') :: fields)) =
          (quote false key ++ ": " ++ value.compact).toList ++
            ',' :: ' ' :: between (compactFields ((key', value') :: fields)) := by
        rw [compactFields, compactFields, between_cons]
      rw [htext] at hfuel ⊢
      simp only [List.length_append, List.length_cons] at hfuel
      obtain ⟨fuel, rfl⟩ : ∃ n, fuel = n + 1 := ⟨fuel - 1, by omega⟩
      have hkey : key ∉ done.map Prod.fst := fun hmem =>
        (List.nodup_append.1 hnodup).2.2 key hmem key List.mem_cons_self rfl
      have hlength := length_value key value
      have hback : ReadsBack value := h (key, value) (by simp)
      have hvalue : value.Readable := hreadable (key, value) (by simp)
      obtain ⟨cs, hstart⟩ := fields_start key' value' fields ('}' :: rest)
      have hquote : isGap '"' = false := rfl
      have hnodup' : ((done ++ [(key, value.reread)]).map Prod.fst ++
          key' :: fields.map Prod.fst).Nodup := by
        simpa using hnodup
      have hmore := @ih key' value' (fun f hf => hreadable f (List.mem_cons_of_mem _ hf))
        (fun f hf => h f (List.mem_cons_of_mem _ hf)) (done ++ [(key, value.reread)]) hnodup'
        (index + (quote false key ++ ": " ++ value.compact).toList.length + 1 + 1) fuel (by omega)
      rw [List.append_assoc, List.cons_append, List.cons_append,
        readFields_step key hback hvalue (by omega) done rfl (ends_cons (by decide) _)]
      rw [hstart] at hmore ⊢
      simp only [Table.put_new hkey, skipGap_blank hquote, hmore]
      simp only [rereadFields, List.append_assoc, List.singleton_append, List.length_append,
        List.length_cons, Except.ok.injEq, Prod.mk.injEq, true_and, Input.mk.injEq]
      omega

/-! ## All values -/

/-- The values right inside a value. -/
def parts : Json → List Json
  | .array items => items
  | .object fields => fields.map Prod.snd
  | _ => []

theorem sizeOf_part {v w : Json} (h : w ∈ v.parts) : sizeOf w < sizeOf v := by
  cases v with
  | array items =>
      have hlt : sizeOf w < sizeOf items := List.sizeOf_lt_of_mem h
      simp only [Json.array.sizeOf_spec]
      omega
  | object fields =>
      obtain ⟨⟨key, value⟩, hfield, rfl⟩ := List.mem_map.1 h
      have hlt := List.sizeOf_lt_of_mem hfield
      simp only [Prod.mk.sizeOf_spec] at hlt
      simp only [Json.object.sizeOf_spec]
      omega
  | _ => exact absurd h List.not_mem_nil

/-- What holds of a value once it holds of the values inside, holds of all values. -/
@[elab_as_elim]
theorem parts_induction {P : Json → Prop} (v : Json)
    (step : ∀ v, (∀ w ∈ v.parts, P w) → P v) : P v := by
  induction hsize : sizeOf v using Nat.strongRecOn generalizing v with
  | ind n ih =>
      subst hsize
      exact step v fun w hw => ih _ (sizeOf_part hw) w rfl

theorem readableItems_iff {items : List Json} :
    ReadableItems items ↔ ∀ item ∈ items, item.Readable := by
  induction items with
  | nil => simp [ReadableItems]
  | cons item rest ih => simp [ReadableItems, ih]

theorem readableFields_iff {fields : List (String × Json)} :
    ReadableFields fields ↔ ∀ field ∈ fields, field.2.Readable := by
  induction fields with
  | nil => simp [ReadableFields]
  | cons field rest ih => simp [ReadableFields, ih]

theorem readable_array {items : List Json} :
    (Json.array items).Readable ↔ ∀ item ∈ items, item.Readable := by
  rw [Readable, readableItems_iff]

theorem readable_object {fields : List (String × Json)} :
    (Json.object fields).Readable ↔
      (fields.map Prod.fst).Nodup ∧ ∀ field ∈ fields, field.2.Readable := by
  rw [Readable, readableFields_iff]

theorem readsBack_array {items : List Json} (hreadable : ∀ item ∈ items, item.Readable)
    (h : ∀ item ∈ items, ReadsBack item) : ReadsBack (.array items) := by
  intro fuel hfuel rest index _
  have htext : (Json.array items).compact.toList = '[' :: (between (compactItems items) ++ [']']) := by
    simp [compact, between]
  rw [htext] at hfuel ⊢
  simp only [List.length_cons, List.length_append, List.length_nil] at hfuel
  obtain ⟨fuel, rfl⟩ : ∃ n, fuel = n + 1 := ⟨fuel - 1, by omega⟩
  cases items with
  | nil =>
      have hgap : isGap ']' = false := rfl
      simp [readValue, Input.drop, skipGap_cons hgap, reread, rereadItems, compactItems, between]
  | cons item items =>
      obtain ⟨c, cs, hstart, hgap, hc⟩ :=
        items_start (hreadable item (by simp)) items (']' :: rest)
      have hread := readItems_compact hreadable h fuel (by omega) [] rest (index + 1)
      rw [hstart] at hread
      simp only [List.cons_append, List.append_assoc, List.nil_append, hstart, readValue,
        Input.drop, List.drop_succ_cons, List.drop_zero, skipGap_cons hgap, List.head?_cons,
        Option.some.injEq, hc, if_false, hread, List.reverse_nil, reread,
        List.length_cons, List.length_append, List.length_nil]
      simp only [Except.ok.injEq, Prod.mk.injEq, true_and, Input.mk.injEq]
      omega

theorem readsBack_object {fields : List (String × Json)} (hnodup : (fields.map Prod.fst).Nodup)
    (hreadable : ∀ field ∈ fields, field.2.Readable) (h : ∀ field ∈ fields, ReadsBack field.2) :
    ReadsBack (.object fields) := by
  intro fuel hfuel rest index _
  have htext : (Json.object fields).compact.toList =
      '{' :: (between (compactFields fields) ++ ['}']) := by
    simp [compact, between]
  rw [htext] at hfuel ⊢
  simp only [List.length_cons, List.length_append, List.length_nil] at hfuel
  obtain ⟨fuel, rfl⟩ : ∃ n, fuel = n + 1 := ⟨fuel - 1, by omega⟩
  cases fields with
  | nil =>
      have hgap : isGap '}' = false := rfl
      simp [readValue, Input.drop, skipGap_cons hgap, reread, rereadFields, compactFields, between]
  | cons field fields =>
      obtain ⟨key, value⟩ := field
      obtain ⟨cs, hstart⟩ := fields_start key value fields ('}' :: rest)
      have hgap : isGap '"' = false := rfl
      have hread := readFields_compact hreadable h fuel (by omega) [] (by simpa using hnodup) rest
        (index + 1)
      rw [hstart] at hread
      simp only [List.cons_append, List.append_assoc, List.nil_append, hstart, readValue,
        Input.drop, List.drop_succ_cons, List.drop_zero, skipGap_cons hgap, List.head?_cons,
        Option.some.injEq, Char.reduceEq, if_false, hread, reread,
        List.length_cons, List.length_append, List.length_nil]
      simp only [Except.ok.injEq, Prod.mk.injEq, true_and, Input.mk.injEq]
      omega

/-- **A value is read where it was written**, whatever follows it. -/
theorem readsBack {v : Json} (h : v.Readable) : ReadsBack v := by
  induction v using parts_induction with
  | step v ih =>
      cases v with
      | null => exact ReadsAs.readsBack readsAs_null
      | bool b =>
          cases b with
          | true => exact ReadsAs.readsBack readsAs_true
          | false => exact ReadsAs.readsBack readsAs_false
      | int n => exact ReadsAs.readsBack (readsAs_int h)
      | real x => exact ReadsAs.readsBack (readsAs_real x)
      | text s => exact readsBack_text s
      | array items =>
          have hitems := readable_array.1 h
          exact readsBack_array hitems fun item hitem => ih item hitem (hitems item hitem)
      | object fields =>
          obtain ⟨hnodup, hfields⟩ := readable_object.1 h
          exact readsBack_object hnodup hfields fun field hfield =>
            ih field.2 (List.mem_map_of_mem hfield) (hfields field hfield)

/-- **What is written is what is read.** -/
theorem decode_compact {v : Json} (h : v.Readable) : decode v.compact = .ok v.reread := by
  obtain ⟨c, cs, htext, hstart⟩ := compact_starts h
  have hgap := isGap_of_startsValue hstart
  have hmark : c ≠ Char.ofNat 0xfeff := startsValue_ne hstart rfl
  have hread := readsBack h (2 * v.compact.toList.length + 2) (by omega) [] 0 ends_nil
  have hchars : decodeChars v.compact.toList = .ok v.reread := by
    rw [List.append_nil, htext] at hread
    rw [decodeChars, htext, List.head?_cons, if_neg (by simpa using hmark), skipGap_cons hgap,
      hread]
    rfl
  rw [decode, hchars]

theorem rereadItems_eq_map (items : List Json) : rereadItems items = items.map reread := by
  induction items with
  | nil => rfl
  | cons item rest ih => rw [rereadItems, ih, List.map_cons]

theorem rereadFields_eq_map (fields : List (String × Json)) :
    rereadFields fields = fields.map fun field => (field.1, field.2.reread) := by
  induction fields with
  | nil => rfl
  | cons field rest ih => rw [rereadFields, ih, List.map_cons]

theorem isExactItems_iff {items : List Json} :
    isExactItems items = true ↔ ∀ item ∈ items, item.isExact = true := by
  induction items with
  | nil => simp [isExactItems]
  | cons item rest ih => simp [isExactItems, ih]

theorem isExactFields_iff {fields : List (String × Json)} :
    isExactFields fields = true ↔ ∀ field ∈ fields, field.2.isExact = true := by
  induction fields with
  | nil => simp [isExactFields]
  | cons field rest ih => simp [isExactFields, ih]

/-- A value whose numbers are whole is read back as itself. -/
theorem reread_of_isExact {v : Json} (h : v.isExact = true) : v.reread = v := by
  induction v using parts_induction with
  | step v ih =>
      cases v with
      | real x => cases h
      | array items =>
          rw [isExact, isExactItems_iff] at h
          have hitem : ∀ item ∈ items, item.reread = item := fun item hitem =>
            ih item hitem (h item hitem)
          rw [reread, rereadItems_eq_map, List.map_congr_left hitem, List.map_id']
      | object fields =>
          rw [isExact, isExactFields_iff] at h
          have hfield : ∀ field ∈ fields, (field.1, field.2.reread) = field := by
            intro field hfield
            rw [ih field.2 (List.mem_map_of_mem hfield) (h field hfield)]
          rw [reread, rereadFields_eq_map, List.map_congr_left hfield, List.map_id']
      | null | bool | int | text => rfl

/-! ## On one line -/

theorem onLine_between {parts : List String} (h : ∀ part ∈ parts, OnLine part.toList) :
    OnLine (between parts) := by
  induction parts with
  | nil => decide
  | cons part rest ih =>
      have hpart := h part List.mem_cons_self
      have hrest := ih fun p hp => h p (List.mem_cons_of_mem _ hp)
      cases rest with
      | nil =>
          rw [between_singleton]
          exact hpart
      | cons next rest =>
          rw [between_cons]
          exact onLine_append.2 ⟨hpart, onLine_cons.2 ⟨by decide, onLine_cons.2 ⟨by decide, hrest⟩⟩⟩

theorem compactItems_eq_map (items : List Json) : compactItems items = items.map compact := by
  induction items with
  | nil => rfl
  | cons item rest ih => rw [compactItems, ih, List.map_cons]

theorem compactFields_eq_map (fields : List (String × Json)) :
    compactFields fields =
      fields.map fun field => quote false field.1 ++ ": " ++ field.2.compact := by
  induction fields with
  | nil => rfl
  | cons field rest ih => rw [compactFields, ih, List.map_cons]

/-- A value is written without control characters. -/
theorem onLine_compact {v : Json} (h : v.Readable) : OnLine v.compact.toList := by
  induction v using parts_induction with
  | step v ih =>
      cases v with
      | null => decide
      | bool b => cases b <;> decide
      | int n => exact onLine_int h
      | real x => exact onLine_real x
      | text s => exact onLine_quote s
      | array items =>
          have hbetween : OnLine (between (compactItems items)) := by
            refine onLine_between fun part hpart => ?_
            rw [compactItems_eq_map] at hpart
            obtain ⟨item, hitem, rfl⟩ := List.mem_map.1 hpart
            exact ih item hitem (readable_array.1 h item hitem)
          simp only [compact, String.toList_append]
          exact onLine_append.2 ⟨onLine_append.2 ⟨by decide, hbetween⟩, by decide⟩
      | object fields =>
          have hbetween : OnLine (between (compactFields fields)) := by
            refine onLine_between fun part hpart => ?_
            rw [compactFields_eq_map] at hpart
            obtain ⟨field, hfield, rfl⟩ := List.mem_map.1 hpart
            have hvalue := ih field.2 (List.mem_map_of_mem hfield)
              ((readable_object.1 h).2 field hfield)
            simp only [String.toList_append]
            exact onLine_append.2 ⟨onLine_append.2 ⟨onLine_quote field.1, by decide⟩, hvalue⟩
          simp only [compact, String.toList_append]
          exact onLine_append.2 ⟨onLine_append.2 ⟨by decide, hbetween⟩, by decide⟩

end NameRecovery.Json
