import NameRecovery.Mining
import NameRecovery.Proofs.Text.Pieces

/-!
# The shape the miner reads

    (let | var | const | ,) NAME = VALUE

A declaration of this shape is described by its parts, which can be read off its text in
one way only.

* `Declaration` — the parts of a text of the shape;
* `declaration?_text` — the recogniser reads every declaration back;
* `declaration?_cases` — it finds the longest one at the start of a text, or there is none;
* `IsLongest.unique` — there is only one longest one.
-/

namespace NameRecovery.Mining

/-! ## Declarations -/

/-- Is it one to three characters of a name, and then a number? -/
def IsShortName (name : List Char) : Prop :=
  ∃ head number, name = head ++ number ∧ 1 ≤ head.length ∧ head.length ≤ 3 ∧
    (∀ c ∈ head, Text.isNameChar c = true) ∧ ∀ c ∈ number, Text.isSuffixChar c = true

/-- Is it a character that starts a name, and then at least three of a path? -/
def IsValue (value : List Char) : Prop :=
  ∃ first rest, value = first :: rest ∧ Text.isNameStart first = true ∧ 3 ≤ rest.length ∧
    ∀ c ∈ rest, isValueChar c = true

/-- Is it a quote in front of a value? -/
def isQuote (c : Char) : Bool :=
  c == '\'' || c == '"'

/-- The parts of a text of the shape. -/
structure Declaration where
  /-- The word or mark it opens with. -/
  opening : List Char
  /-- The blanks behind that. -/
  gap : List Char
  /-- The name. -/
  name : List Char
  /-- The blanks before the equals sign. -/
  before : List Char
  /-- The blanks behind it. -/
  after : List Char
  /-- The quote, if there is one. -/
  quote : List Char
  /-- The value. -/
  value : List Char
  opening_mem : opening ∈ openings
  gap_ne : gap ≠ []
  gap_blank : ∀ c ∈ gap, Text.isBlank c = true
  name_short : IsShortName name
  before_blank : ∀ c ∈ before, Text.isBlank c = true
  after_blank : ∀ c ∈ after, Text.isBlank c = true
  quote_mem : quote ∈ [[], ['\''], ['"']]
  value_shape : IsValue value

namespace Declaration

/-- The declaration behind its name. -/
def tail (d : Declaration) : List Char :=
  d.before ++ '=' :: (d.after ++ (d.quote ++ d.value))

/-- The declaration as it stands in a text. -/
def text (d : Declaration) : List Char :=
  d.opening ++ (d.gap ++ (d.name ++ d.tail))

/-- The name and the value. -/
def assignment (d : Declaration) : Assignment :=
  ⟨String.ofList d.name, String.ofList d.value⟩

end Declaration

/-! ## Sorts of characters -/

theorem isNameChar_of_isSuffixChar {c : Char} (h : Text.isSuffixChar c = true) :
    Text.isNameChar c = true := by
  simp only [Text.isSuffixChar, Bool.or_eq_true] at h
  simp only [Text.isNameChar, Text.isNameStart, Bool.or_eq_true]
  rcases h with h | h
  · exact .inr h
  · exact .inl (.inr h)

theorem isValueChar_of_isNameChar {c : Char} (h : Text.isNameChar c = true) :
    isValueChar c = true := by
  rw [isValueChar, h, Bool.true_or]

theorem isNameChar_of_isNameStart {c : Char} (h : Text.isNameStart c = true) :
    Text.isNameChar c = true := by
  rw [Text.isNameChar, h, Bool.true_or]

/-- The characters of values have small numbers. -/
theorem toNat_of_isValueChar {c : Char} (h : isValueChar c = true) : c.toNat < 128 := by
  unfold isValueChar Text.isNameChar Text.isNameStart Char.isAlpha Char.isUpper Char.isLower
    Char.isDigit at h
  simp only [Bool.or_eq_true, Bool.and_eq_true, decide_eq_true_eq, UInt32.le_iff_toNat_le,
    beq_iff_eq] at h
  change (((((65 ≤ c.toNat ∧ c.toNat ≤ 90) ∨ (97 ≤ c.toNat ∧ c.toNat ≤ 122)) ∨ c = '$') ∨
    c = '_') ∨ (48 ≤ c.toNat ∧ c.toNat ≤ 57)) ∨ c = '.' at h
  rcases h with (((h | rfl) | rfl) | h) | rfl
  · omega
  · decide
  · decide
  · omega
  · decide

/-- What holds of the characters of values among the first 128 ones holds of all of them. -/
theorem forall_isValueChar (p : Char → Bool)
    (h : ∀ n < 128, isValueChar (Char.ofNat n) = true → p (Char.ofNat n) = true) {c : Char}
    (hc : isValueChar c = true) : p c = true := by
  have hsmall := h c.toNat (toNat_of_isValueChar hc)
  rw [Char.ofNat_toNat] at hsmall
  exact hsmall hc

/-- Is the character no blank, no quote and no equals sign? -/
def IsPlain (c : Char) : Prop :=
  Text.isBlank c = false ∧ isQuote c = false ∧ c ≠ '='

theorem isPlain_of_isValueChar {c : Char} (h : isValueChar c = true) : IsPlain c := by
  have hall := forall_isValueChar (fun c => !Text.isBlank c && !isQuote c && c != '=')
    (by decide +kernel) h
  simpa [IsPlain, and_assoc] using hall

theorem isPlain_of_isNameChar {c : Char} (h : Text.isNameChar c = true) : IsPlain c :=
  isPlain_of_isValueChar (isValueChar_of_isNameChar h)

theorem isBlank_apart {c : Char} (h : Text.isBlank c = true) :
    isValueChar c = false ∧ isQuote c = false ∧ c ≠ '=' := by
  refine ⟨?_, ?_, ?_⟩
  · by_contra hvalue
    rw [(isPlain_of_isValueChar (by simpa using hvalue)).1] at h
    cases h
  · by_contra hquote
    simp only [isQuote, Bool.not_eq_false, Bool.or_eq_true, beq_iff_eq] at hquote
    rcases hquote with rfl | rfl
    · exact absurd h (by decide)
    · exact absurd h (by decide)
  · rintro rfl
    exact absurd h (by decide)

/-- Short names, as they are recognised. -/
theorem isNumberedName_iff {name : List Char} :
    Text.isNumberedName 3 name = true ↔ IsShortName name := by
  simp only [Text.isNumberedName, Bool.and_eq_true, List.all_eq_true, Bool.not_eq_true',
    List.isEmpty_eq_false_iff]
  constructor
  · rintro ⟨⟨hne, hchars⟩, hnumber⟩
    refine ⟨name.take 3, name.drop 3, (List.take_append_drop 3 name).symm, ?_, ?_, ?_, hnumber⟩
    · have hpos := List.length_pos_iff.2 hne
      rw [List.length_take]
      omega
    · rw [List.length_take]
      omega
    · intro c hc
      exact hchars c (List.mem_of_mem_take hc)
  · rintro ⟨head, number, rfl, hpos, hshort, hhead, hnumber⟩
    refine ⟨⟨?_, ?_⟩, ?_⟩
    · rintro hnil
      rw [(List.append_eq_nil_iff.1 hnil).1] at hpos
      exact absurd hpos (by decide)
    · intro c hc
      rcases List.mem_append.1 hc with hc | hc
      · exact hhead c hc
      · exact isNameChar_of_isSuffixChar (hnumber c hc)
    · intro c hc
      rw [List.drop_append, List.drop_eq_nil_of_le hshort, List.nil_append] at hc
      exact hnumber c (List.mem_of_mem_drop hc)

theorem IsShortName.ne_nil {name : List Char} (h : IsShortName name) : name ≠ [] := by
  obtain ⟨head, number, rfl, hpos, -⟩ := h
  intro hnil
  rw [(List.append_eq_nil_iff.1 hnil).1] at hpos
  exact absurd hpos (by decide)

theorem IsShortName.isNameChar {name : List Char} (h : IsShortName name) :
    ∀ c ∈ name, Text.isNameChar c = true := by
  have hnumbered := isNumberedName_iff.2 h
  simp only [Text.isNumberedName, Bool.and_eq_true, List.all_eq_true] at hnumbered
  exact hnumbered.1.2

theorem IsValue.isValueChar {value : List Char} (h : IsValue value) :
    ∀ c ∈ value, isValueChar c = true := by
  obtain ⟨first, rest, rfl, hfirst, -, hrest⟩ := h
  intro c hc
  rcases List.mem_cons.1 hc with rfl | hc
  · exact isValueChar_of_isNameChar (isNameChar_of_isNameStart hfirst)
  · exact hrest c hc

theorem IsValue.ne_nil {value : List Char} (h : IsValue value) : value ≠ [] := by
  obtain ⟨first, rest, rfl, -⟩ := h
  exact List.cons_ne_nil first rest

/-- A value with more characters of a path behind it is a value. -/
theorem IsValue.append {value more : List Char} (h : IsValue value)
    (hmore : ∀ c ∈ more, Mining.isValueChar c = true) : IsValue (value ++ more) := by
  obtain ⟨first, rest, rfl, hfirst, hlength, hrest⟩ := h
  refine ⟨first, rest ++ more, rfl, hfirst, ?_, ?_⟩
  · rw [List.length_append]
    omega
  · intro c hc
    rcases List.mem_append.1 hc with hc | hc
    · exact hrest c hc
    · exact hmore c hc

/-! ## Reading a declaration -/

theorem head_of_ne_nil {p : Char → Bool} {cs rest : List Char} (hne : cs ≠ [])
    (h : ∀ c ∈ cs, p c = true) : ∀ c ∈ (cs ++ rest).head?, p c = true := by
  cases cs with
  | nil => exact absurd rfl hne
  | cons c cs =>
      intro d hd
      obtain rfl : c = d := by simpa using hd
      exact h c List.mem_cons_self

section Reading

variable {cs rest : List Char}

theorem afterOpening_opening {opening gap : List Char} (hopening : opening ∈ openings)
    (hne : gap ≠ []) (hgap : ∀ c ∈ gap, Text.isBlank c = true)
    (hrest : ∀ c ∈ rest.head?, Text.isBlank c = false) :
    afterOpening (opening ++ (gap ++ rest)) = some rest := by
  have hfound : (openings.findSome? fun word => Text.dropExact word (opening ++ (gap ++ rest))) =
      some (gap ++ rest) := by
    simp only [openings, List.map_cons, List.map_nil, List.mem_cons, List.not_mem_nil,
      or_false] at hopening
    rcases hopening with rfl | rfl | rfl | rfl <;> simp [openings, Text.dropExact]
  have hblank : (gap ++ rest).head?.any Text.isBlank = true := by
    cases gap with
    | nil => exact absurd rfl hne
    | cons c gap => simpa using hgap c List.mem_cons_self
  have htrim : Text.trimStart (gap ++ rest) = rest := Text.dropWhile_run hgap hrest
  simp only [afterOpening, hfound, bind, Option.bind_some, hblank, if_true, htrim]

theorem afterOpening_sound (h : afterOpening cs = some rest) :
    ∃ opening gap, opening ∈ openings ∧ gap ≠ [] ∧ (∀ c ∈ gap, Text.isBlank c = true) ∧
      cs = opening ++ (gap ++ rest) := by
  simp only [afterOpening, bind, Option.bind_eq_some_iff] at h
  obtain ⟨behind, hfound, h⟩ := h
  obtain ⟨opening, hopening, hdrop⟩ := List.exists_of_findSome?_eq_some hfound
  obtain rfl := Text.dropExact_eq_some_iff.1 hdrop
  split at h
  · rename_i hblank
    obtain rfl := Option.some.inj h
    refine ⟨opening, behind.takeWhile Text.isBlank, hopening, ?_, ?_, ?_⟩
    · cases behind with
      | nil => cases hblank
      | cons c behind =>
          have hc : Text.isBlank c = true := by simpa using hblank
          simp [hc]
    · exact fun c hc => (List.mem_takeWhile_imp hc)
    · rw [Text.trimStart, List.takeWhile_append_dropWhile]
  · cases h

/-- No blank stands where a quote may stand. -/
theorem quote_head {quote : List Char} (hquote : quote ∈ [[], ['\''], ['"']])
    (hrest : ∀ c ∈ rest.head?, isValueChar c = true) :
    ∀ c ∈ (quote ++ rest).head?, Text.isBlank c = false := by
  simp only [List.mem_cons, List.not_mem_nil, or_false] at hquote
  rcases hquote with rfl | rfl | rfl
  · exact fun c hc => (isPlain_of_isValueChar (hrest c hc)).1
  · rintro c ⟨⟩
    decide
  · rintro c ⟨⟩
    decide

theorem afterEquals_tail {before after quote : List Char}
    (hbefore : ∀ c ∈ before, Text.isBlank c = true) (hafter : ∀ c ∈ after, Text.isBlank c = true)
    (hquote : quote ∈ [[], ['\''], ['"']])
    (hrest : ∀ c ∈ rest.head?, isValueChar c = true) :
    afterEquals (before ++ '=' :: (after ++ (quote ++ rest))) = some rest := by
  have htrim : Text.trimStart (before ++ '=' :: (after ++ (quote ++ rest))) =
      '=' :: (after ++ (quote ++ rest)) :=
    Text.dropWhile_run hbefore (by rintro c ⟨⟩; decide)
  have htrim' : Text.trimStart (after ++ (quote ++ rest)) = quote ++ rest :=
    Text.dropWhile_run hafter (quote_head hquote hrest)
  rw [afterEquals, htrim]
  simp only [Text.dropExact, if_true, bind, Option.bind_some, htrim']
  simp only [List.mem_cons, List.not_mem_nil, or_false] at hquote
  rcases hquote with rfl | rfl | rfl
  · cases rest with
    | nil => rfl
    | cons c rest =>
        have hquote := (isPlain_of_isValueChar (hrest c rfl)).2.1
        rw [List.nil_append]
        split
        · rename_i heq
          rw [(List.cons.inj heq).1] at hquote
          cases hquote
        · rename_i heq
          rw [(List.cons.inj heq).1] at hquote
          cases hquote
        · rfl
  · rfl
  · rfl

theorem afterEquals_sound (h : afterEquals cs = some rest) :
    ∃ before after quote, (∀ c ∈ before, Text.isBlank c = true) ∧
      (∀ c ∈ after, Text.isBlank c = true) ∧ quote ∈ [[], ['\''], ['"']] ∧
        cs = before ++ '=' :: (after ++ (quote ++ rest)) := by
  simp only [afterEquals, bind, Option.bind_eq_some_iff] at h
  obtain ⟨behind, hdrop, h⟩ := h
  have hcs : cs = cs.takeWhile Text.isBlank ++ '=' :: behind := by
    have hsplit := Text.dropExact_eq_some_iff.1 hdrop
    rw [Text.trimStart] at hsplit
    calc cs = cs.takeWhile Text.isBlank ++ cs.dropWhile Text.isBlank :=
          List.takeWhile_append_dropWhile.symm
      _ = cs.takeWhile Text.isBlank ++ '=' :: behind := by rw [hsplit]; rfl
  have hblank : ∀ cs : List Char, ∀ c ∈ cs.takeWhile Text.isBlank, Text.isBlank c = true :=
    fun cs c hc => List.mem_takeWhile_imp hc
  -- Behind the blanks there is one of the quotes, or none.
  have hparts : ∀ quote ∈ [[], ['\''], ['"']], Text.trimStart behind = quote ++ rest →
      ∃ before after quote, (∀ c ∈ before, Text.isBlank c = true) ∧
        (∀ c ∈ after, Text.isBlank c = true) ∧ quote ∈ [[], ['\''], ['"']] ∧
          cs = before ++ '=' :: (after ++ (quote ++ rest)) := by
    intro quote hquote htrim
    refine ⟨_, _, quote, hblank cs, hblank behind, hquote, ?_⟩
    have hbehind : behind.takeWhile Text.isBlank ++ Text.trimStart behind = behind :=
      List.takeWhile_append_dropWhile
    rw [← htrim, hbehind]
    exact hcs
  split at h
  · rename_i heq
    obtain rfl := Option.some.inj h
    exact hparts ['\''] (by simp) heq
  · rename_i heq
    obtain rfl := Option.some.inj h
    exact hparts ['"'] (by simp) heq
  · obtain rfl := Option.some.inj h
    exact hparts [] (by simp) rfl

theorem value?_value {value : List Char} (hvalue : IsValue value)
    (hrest : ∀ c ∈ rest.head?, isValueChar c = false) : value? (value ++ rest) = some value := by
  have htake : (value ++ rest).takeWhile isValueChar = value :=
    Text.takeWhile_run hvalue.isValueChar hrest
  obtain ⟨first, more, rfl, hfirst, hlength, -⟩ := hvalue
  rw [value?, htake]
  have hlong : 4 ≤ more.length + 1 := by omega
  simp [hfirst, hlong]

theorem value?_sound {value : List Char} (h : value? cs = some value) :
    IsValue value ∧ value = cs.takeWhile isValueChar := by
  simp only [value?] at h
  split at h
  · rename_i hshape
    obtain rfl := Option.some.inj h
    refine ⟨?_, rfl⟩
    have hchars : ∀ c ∈ cs.takeWhile isValueChar, isValueChar c = true :=
      fun c hc => List.mem_takeWhile_imp hc
    cases htake : cs.takeWhile isValueChar with
    | nil => simp [htake] at hshape
    | cons first rest =>
        rw [htake] at hshape hchars
        simp only [List.head?_cons, Option.any_some, List.length_cons, Bool.and_eq_true,
          decide_eq_true_eq] at hshape
        refine ⟨first, rest, rfl, hshape.1, ?_, fun c hc => hchars c (List.mem_cons_of_mem _ hc)⟩
        omega
  · cases h

end Reading

namespace Declaration

variable (d : Declaration)

theorem tail_head (rest : List Char) :
    ∀ c ∈ (d.tail ++ rest).head?, Text.isNameChar c = false := by
  intro c hc
  have hvalue : isValueChar c = false := by
    rw [tail, List.append_assoc] at hc
    cases hbefore : d.before with
    | nil =>
        rw [hbefore] at hc
        obtain rfl : '=' = c := by simpa using hc
        decide
    | cons b before =>
        rw [hbefore] at hc
        obtain rfl : b = c := by simpa using hc
        exact (isBlank_apart (d.before_blank b (hbefore ▸ List.mem_cons_self))).1
  by_contra hname
  rw [isValueChar_of_isNameChar (by simpa using hname)] at hvalue
  cases hvalue

theorem name_head (rest : List Char) :
    ∀ c ∈ (d.name ++ rest).head?, Text.isBlank c = false := by
  have hchars : ∀ c ∈ d.name, (fun c => !Text.isBlank c) c = true := fun c hc => by
    simpa using (isPlain_of_isNameChar (d.name_short.isNameChar c hc)).1
  intro c hc
  simpa using head_of_ne_nil d.name_short.ne_nil hchars c hc

theorem value_head (rest : List Char) : ∀ c ∈ (d.value ++ rest).head?, isValueChar c = true :=
  head_of_ne_nil d.value_shape.ne_nil d.value_shape.isValueChar

end Declaration

/-- **Every declaration is read back**, if its value does not go on behind it. -/
theorem declaration?_text (d : Declaration) {rest : List Char}
    (hrest : ∀ c ∈ rest.head?, isValueChar c = false) :
    declaration? (d.text ++ rest) = some (d.assignment, d.text.length) := by
  have htext : d.text ++ rest = d.opening ++ (d.gap ++ (d.name ++ (d.tail ++ rest))) := by
    simp [Declaration.text]
  have hstart : afterOpening (d.text ++ rest) = some (d.name ++ (d.tail ++ rest)) := by
    rw [htext]
    exact afterOpening_opening d.opening_mem d.gap_ne d.gap_blank (d.name_head _)
  have hname : (d.name ++ (d.tail ++ rest)).takeWhile Text.isNameChar = d.name :=
    Text.takeWhile_run d.name_short.isNameChar (d.tail_head rest)
  have htail : afterEquals (d.tail ++ rest) = some (d.value ++ rest) := by
    have hsplit : d.tail ++ rest =
        d.before ++ '=' :: (d.after ++ (d.quote ++ (d.value ++ rest))) := by
      simp [Declaration.tail]
    rw [hsplit]
    exact afterEquals_tail d.before_blank d.after_blank d.quote_mem (d.value_head rest)
  have hvalue : value? (d.value ++ rest) = some d.value := value?_value d.value_shape hrest
  have hshort := isNumberedName_iff.2 d.name_short
  simp only [declaration?, hstart, bind, Option.bind_some, hname, hshort, if_true,
    List.drop_left, htail, hvalue]
  have hsize : (d.text ++ rest).length - rest.length = d.text.length := by
    rw [List.length_append]
    omega
  rw [hsize]
  rfl

/-- What the recogniser finds is a declaration, whose value does not go on behind it. -/
theorem declaration?_sound {cs : List Char} {found : Assignment} {size : Nat}
    (h : declaration? cs = some (found, size)) :
    ∃ (d : Declaration) (rest : List Char), cs = d.text ++ rest ∧
      ∀ c ∈ rest.head?, isValueChar c = false := by
  simp only [declaration?, bind, Option.bind_eq_some_iff] at h
  obtain ⟨start, hstart, h⟩ := h
  split at h
  · rename_i hshort
    simp only [Option.bind_eq_some_iff] at h
    obtain ⟨behind, hbehind, value, hvalue, -⟩ := h
    obtain ⟨opening, gap, hopening, hgap, hblank, rfl⟩ := afterOpening_sound hstart
    obtain ⟨before, after, quote, hbefore, hafter, hquote, htail⟩ := afterEquals_sound hbehind
    obtain ⟨hshape, hsame⟩ := value?_sound hvalue
    refine ⟨⟨opening, gap, start.takeWhile Text.isNameChar, before, after, quote, value, hopening,
      hgap, hblank, isNumberedName_iff.1 hshort, hbefore, hafter, hquote, hshape⟩,
      behind.dropWhile isValueChar, ?_, ?_⟩
    · have hname : start = start.takeWhile Text.isNameChar ++
          start.drop (start.takeWhile Text.isNameChar).length :=
        (List.prefix_iff_eq_append.1 (List.takeWhile_prefix _)).symm
      have hvalue : behind = value ++ behind.dropWhile isValueChar := by
        rw [hsame, List.takeWhile_append_dropWhile]
      simp only [Declaration.text, Declaration.tail, List.append_assoc, List.cons_append]
      rw [← hvalue, ← htail, ← hname]
    · exact Text.head_dropWhile _ _
  · cases h

/-! ## Longest declarations -/

/-- A declaration with a longer value. -/
def Declaration.extend (d : Declaration) (more : List Char)
    (hmore : ∀ c ∈ more, isValueChar c = true) : Declaration :=
  { d with
    value := d.value ++ more
    value_shape := d.value_shape.append hmore }

theorem Declaration.text_extend (d : Declaration) (more : List Char)
    (hmore : ∀ c ∈ more, isValueChar c = true) : (d.extend more hmore).text = d.text ++ more := by
  simp [extend, text, tail]

/-- A declaration at the start of a text is found, or a longer one. -/
theorem declaration?_of_text (d : Declaration) (rest : List Char) :
    ∃ found size, declaration? (d.text ++ rest) = some (found, size) ∧ d.text.length ≤ size := by
  have hmore : ∀ c ∈ rest.takeWhile isValueChar, isValueChar c = true :=
    fun c hc => List.mem_takeWhile_imp hc
  have htext : d.text ++ rest =
      (d.extend (rest.takeWhile isValueChar) hmore).text ++ rest.dropWhile isValueChar := by
    rw [Declaration.text_extend, List.append_assoc, List.takeWhile_append_dropWhile]
  rw [htext]
  refine ⟨_, _, declaration?_text _ (Text.head_dropWhile _ _), ?_⟩
  rw [Declaration.text_extend, List.length_append]
  omega

/-- Is the declaration at the start of the text the longest one there? -/
structure IsLongest (cs : List Char) (d : Declaration) (rest : List Char) : Prop where
  text_eq : cs = d.text ++ rest
  longest : ∀ (d' : Declaration) (rest' : List Char), cs = d'.text ++ rest' →
    d'.text.length ≤ d.text.length

/-- **What the recogniser does**: it finds the longest declaration at the start of a text, or
there is none. -/
theorem declaration?_cases (cs : List Char) :
    (declaration? cs = none ∧ ∀ (d : Declaration) (rest : List Char), cs ≠ d.text ++ rest) ∨
      ∃ d rest, declaration? cs = some (d.assignment, d.text.length) ∧ IsLongest cs d rest := by
  cases hfound : declaration? cs with
  | none =>
      refine .inl ⟨rfl, ?_⟩
      rintro d rest rfl
      obtain ⟨found, size, hsome, -⟩ := declaration?_of_text d rest
      rw [hfound] at hsome
      cases hsome
  | some result =>
      obtain ⟨d, rest, rfl, hrest⟩ := declaration?_sound hfound
      have hread := declaration?_text d hrest
      refine .inr ⟨d, rest, hfound.symm.trans hread, rfl, ?_⟩
      intro d' rest' htext
      obtain ⟨found, size, hsome, hle⟩ := declaration?_of_text d' rest'
      rw [← htext, hread] at hsome
      obtain ⟨-, rfl⟩ := Prod.mk.inj (Option.some.inj hsome)
      exact hle

namespace Declaration

theorem text_ne_nil (d : Declaration) : d.text ≠ [] := by
  intro hnil
  have hgap := (List.append_eq_nil_iff.1 (List.append_eq_nil_iff.1 hnil).2).1
  exact d.gap_ne hgap

/-- The words that open a declaration are told apart by what they are followed by. -/
theorem opening_unique {opening opening' rest rest' : List Char} (h : opening ∈ openings)
    (h' : opening' ∈ openings) (heq : opening ++ rest = opening' ++ rest') :
    opening = opening' ∧ rest = rest' := by
  simp only [openings, List.map_cons, List.map_nil, List.mem_cons, List.not_mem_nil,
    or_false] at h h'
  rcases h with rfl | rfl | rfl | rfl <;> rcases h' with rfl | rfl | rfl | rfl <;>
    simp_all

theorem quote_unique {quote quote' rest rest' : List Char} (h : quote ∈ [[], ['\''], ['"']])
    (h' : quote' ∈ [[], ['\''], ['"']]) (hrest : ∀ c ∈ rest.head?, isValueChar c = true)
    (hrest' : ∀ c ∈ rest'.head?, isValueChar c = true)
    (heq : quote ++ rest = quote' ++ rest') : quote = quote' ∧ rest = rest' := by
  have hquotes : ∀ quote ∈ [[], ['\''], ['"']], ∀ c ∈ quote, isQuote c = true := by
    simp [isQuote]
  have hvalues : ∀ rest : List Char, (∀ c ∈ rest.head?, isValueChar c = true) →
      ∀ c ∈ rest.head?, isQuote c = false := by
    intro rest hrest c hc
    exact (isPlain_of_isValueChar (hrest c hc)).2.1
  exact Text.run_unique (hquotes quote h) (hvalues rest hrest) (hquotes quote' h')
    (hvalues rest' hrest') heq

/-- A text of the shape has its parts in one way only. -/
theorem text_injective {d d' : Declaration} (h : d.text = d'.text) : d = d' := by
  have hnames : ∀ (d : Declaration), ∀ c ∈ d.name, Text.isNameChar c = true :=
    fun d => d.name_short.isNameChar
  have htails : ∀ (d : Declaration), ∀ c ∈ d.tail.head?, Text.isNameChar c = false :=
    fun d => by simpa using d.tail_head []
  have hequals : ∀ cs : List Char, ∀ c ∈ ('=' :: cs).head?, Text.isBlank c = false := by
    rintro cs c ⟨⟩
    decide
  have hvalues : ∀ (d : Declaration), ∀ c ∈ d.value.head?, isValueChar c = true :=
    fun d => by simpa using d.value_head []
  have hquotes : ∀ (d : Declaration), ∀ c ∈ (d.quote ++ d.value).head?, Text.isBlank c = false :=
    fun d => quote_head d.quote_mem (hvalues d)
  obtain ⟨hopening, h⟩ := opening_unique d.opening_mem d'.opening_mem h
  obtain ⟨hgap, h⟩ := Text.run_unique d.gap_blank (d.name_head _) d'.gap_blank (d'.name_head _) h
  obtain ⟨hname, h⟩ := Text.run_unique (hnames d) (htails d) (hnames d') (htails d') h
  obtain ⟨hbefore, h⟩ :=
    Text.run_unique d.before_blank (hequals _) d'.before_blank (hequals _) h
  obtain ⟨hafter, h⟩ := Text.run_unique d.after_blank (hquotes d) d'.after_blank (hquotes d')
    (List.cons.inj h).2
  obtain ⟨hquote, hvalue⟩ := quote_unique d.quote_mem d'.quote_mem (hvalues d) (hvalues d') h
  cases d
  cases d'
  simp only at hopening hgap hname hbefore hafter hquote hvalue
  subst hopening hgap hname hbefore hafter hquote hvalue
  rfl

end Declaration

theorem IsLongest.unique {cs rest rest' : List Char} {d d' : Declaration}
    (h : IsLongest cs d rest) (h' : IsLongest cs d' rest') : d = d' ∧ rest = rest' := by
  have hlength : d.text.length = d'.text.length :=
    Nat.le_antisymm (h'.longest d rest h.text_eq) (h.longest d' rest' h'.text_eq)
  have hsplit := h.text_eq.symm.trans h'.text_eq
  obtain ⟨htext, hrest⟩ := List.append_inj hsplit hlength
  exact ⟨Declaration.text_injective htext, hrest⟩

end NameRecovery.Mining
