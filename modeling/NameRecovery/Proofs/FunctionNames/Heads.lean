import NameRecovery.FunctionNames
import NameRecovery.Proofs.Mining.Shape
import NameRecovery.Proofs.Text.Pieces

/-!
# Heads of anonymous functions

A head is what a function looks like that gets a name: a name, one of two marks and the start
of an anonymous function, with blanks in between.

* `Head` — a head in its parts;
* `head?_eq_some_iff`, `head?_eq_none_iff` — the search for a mark finds the heads with it;
* `Head.eq_of_text` — a text starts with one head at most;
* `Head.not_ends_named` — no head ends where a function has got its name.
-/

namespace NameRecovery.FunctionNames

open Text

/-- What makes the name in front of it the name of a function. -/
inductive Mark
  | assign
  | property
  deriving DecidableEq

namespace Mark

/-- The mark as it is searched for. -/
def char : Mark → Char
  | assign => '='
  | property => ':'

/-- The mark as it is written between the name and the function. -/
def spaced : Mark → String
  | assign => " = "
  | property => ": "

/-- The mark as it is written has one blank behind it. -/
theorem spaced_eq (m : Mark) : ∃ gap, m.spaced.toList = gap ++ m.char :: [' '] := by
  cases m with
  | assign => exact ⟨[' '], rfl⟩
  | property => exact ⟨[], rfl⟩

theorem char_inj {m k : Mark} : m.char = k.char ↔ m = k := by
  cases m <;> cases k <;> decide

end Mark

/-- Is the character one of the two marks? -/
def isMark (c : Char) : Bool :=
  c == '=' || c == ':'

/-- The head of an anonymous function, in its parts. -/
structure Head where
  /-- The name that the function gets. -/
  name : List Char
  /-- The blanks in front of the mark. -/
  before : List Char
  mark : Mark
  /-- The blanks behind the mark. -/
  after : List Char
  /-- The blanks in front of the parenthesis. -/
  inner : List Char
  name_start : name.head?.any isNameStart = true
  name_char : ∀ c ∈ name, isNameChar c = true
  before_blank : ∀ c ∈ before, isBlank c = true
  after_blank : ∀ c ∈ after, isBlank c = true
  inner_blank : ∀ c ∈ inner, isBlank c = true

namespace Head

/-- The head up to its parenthesis. -/
def front (h : Head) : List Char :=
  h.name ++ (h.before ++ h.mark.char :: (h.after ++ ("function".toList ++ h.inner)))

/-- The head as it stands in a text. -/
def text (h : Head) : List Char :=
  h.front ++ ['(']

/-- The head as it is written, up to what is inserted and the parenthesis. -/
def opening (h : Head) : List Char :=
  h.name ++ h.mark.spaced.toList ++ "function ".toList

/-- The head with the sigil and the name inserted, up to its parenthesis. -/
def namedFront (sigil : List Char) (h : Head) : List Char :=
  h.opening ++ (sigil ++ h.name)

/-- The head with the sigil and the name inserted. -/
def named (sigil : List Char) (h : Head) : List Char :=
  h.namedFront sigil ++ ['(']

/-- The head as it is written, with nothing inserted. -/
def unnamed (h : Head) : List Char :=
  h.opening ++ ['(']

end Head

/-! ## The characters of heads -/

theorem isNameChar_apart {c : Char} (h : isNameChar c = true) :
    isBlank c = false ∧ isMark c = false ∧ c ≠ '(' := by
  have hall := Mining.forall_isValueChar (fun c => !isBlank c && !isMark c && c != '(')
    (by decide +kernel) (Mining.isValueChar_of_isNameChar h)
  simpa [and_assoc] using hall

theorem isBlank_apart {c : Char} (h : isBlank c = true) :
    isNameChar c = false ∧ isMark c = false ∧ c ≠ '(' := by
  refine ⟨?_, ?_, ?_⟩
  · rw [Bool.eq_false_iff]
    intro hname
    exact Bool.false_ne_true ((isNameChar_apart hname).1.symm.trans h)
  · rw [Bool.eq_false_iff]
    intro hmark
    simp only [isMark, Bool.or_eq_true, beq_iff_eq] at hmark
    rcases hmark with rfl | rfl <;> exact absurd h (by decide)
  · rintro rfl
    exact absurd h (by decide)

theorem word_char : ∀ c ∈ "function".toList, isNameChar c = true :=
  List.all_eq_true.1 (by decide)

theorem Mark.char_apart (m : Mark) :
    isNameChar m.char = false ∧ isBlank m.char = false ∧ isMark m.char = true ∧ m.char ≠ '(' := by
  cases m <;> decide

namespace Head

variable {h g : Head} {sigil : List Char}

theorem name_ne_nil (h : Head) : h.name ≠ [] := by
  intro hnil
  have hstart := h.name_start
  rw [hnil] at hstart
  cases hstart

/-- A head consists of characters of names, blanks and its mark. -/
theorem of_mem_front {c : Char} (hc : c ∈ h.front) :
    isNameChar c = true ∨ isBlank c = true ∨ c = h.mark.char := by
  simp only [front, List.mem_append, List.mem_cons] at hc
  rcases hc with hc | hc | hc | hc | hc | hc
  · exact .inl (h.name_char c hc)
  · exact .inr (.inl (h.before_blank c hc))
  · exact .inr (.inr hc)
  · exact .inr (.inl (h.after_blank c hc))
  · exact .inl (word_char c hc)
  · exact .inr (.inl (h.inner_blank c hc))

/-- The only mark of a head is its own. -/
theorem mark_of_mem_front {c : Char} (hc : c ∈ h.front) (hmark : isMark c = true) :
    c = h.mark.char := by
  rcases of_mem_front hc with hname | hblank | hc
  · simp [(isNameChar_apart hname).2.1] at hmark
  · simp [(isBlank_apart hblank).2.1] at hmark
  · exact hc

theorem paren_not_mem_front (h : Head) : '(' ∉ h.front := by
  intro hc
  rcases of_mem_front hc with hname | hblank | hmark
  · exact (isNameChar_apart hname).2.2 rfl
  · exact (isBlank_apart hblank).2.2 rfl
  · exact h.mark.char_apart.2.2.2 hmark.symm

theorem paren_not_mem_namedFront (hsigil : '(' ∉ sigil) (h : Head) :
    '(' ∉ h.namedFront sigil := by
  intro hc
  have hspaced : '(' ∉ h.mark.spaced.toList := by cases h.mark <;> decide
  simp only [namedFront, opening, List.mem_append] at hc
  rcases hc with ((hc | hc) | hc) | hc | hc
  · exact (isNameChar_apart (h.name_char _ hc)).2.2 rfl
  · exact hspaced hc
  · exact absurd hc (by decide)
  · exact hsigil hc
  · exact (isNameChar_apart (h.name_char _ hc)).2.2 rfl

/-! ## Reading a head -/

/-- What comes behind a name is no part of it. -/
theorem head_behind_name (h : Head) (rest : List Char) :
    ∀ c ∈ (h.before ++ h.mark.char :: rest).head?, isNameChar c = false := by
  intro c hc
  cases hbefore : h.before with
  | nil =>
      rw [hbefore] at hc
      obtain rfl := Option.some.inj hc
      exact h.mark.char_apart.1
  | cons d ds =>
      rw [hbefore] at hc
      obtain rfl := Option.some.inj hc
      exact (isBlank_apart (h.before_blank d (hbefore ▸ List.mem_cons_self))).1

theorem head_mark (m : Mark) (rest : List Char) :
    ∀ c ∈ (m.char :: rest).head?, isBlank c = false := by
  rintro c ⟨⟩
  exact m.char_apart.2.1

theorem head_word (rest : List Char) :
    ∀ c ∈ ("function".toList ++ rest).head?, isBlank c = false := by
  rintro c ⟨⟩
  decide

theorem head_paren (rest : List Char) : ∀ c ∈ ('(' :: rest).head?, isBlank c = false := by
  rintro c ⟨⟩
  decide

theorem text_append (h : Head) (rest : List Char) :
    h.text ++ rest = h.name ++ (h.before ++ h.mark.char ::
      (h.after ++ ("function".toList ++ (h.inner ++ '(' :: rest)))) := by
  simp only [text, front, List.append_assoc, List.cons_append, List.nil_append]

end Head

/-- A head at the start of a text is found. -/
theorem head?_text (h : Head) (rest : List Char) :
    head? h.mark.char (h.text ++ rest) = some (h.name, h.text.length) := by
  have hlength : (h.text ++ rest).length - rest.length = h.text.length := by
    rw [List.length_append, Nat.add_sub_cancel]
  rw [h.text_append] at hlength ⊢
  have hmark (cs : List Char) : dropExact [h.mark.char] (h.mark.char :: cs) = some cs :=
    dropExact_eq_some_iff.2 List.singleton_append.symm
  have hword (cs : List Char) : dropExact "function".toList ("function".toList ++ cs) = some cs :=
    dropExact_eq_some_iff.2 rfl
  have hparen (cs : List Char) : dropExact ['('] ('(' :: cs) = some cs :=
    dropExact_eq_some_iff.2 List.singleton_append.symm
  simp only [head?, trimStart, takeWhile_run h.name_char (h.head_behind_name _), h.name_start,
    List.drop_left, if_true, dropWhile_run h.before_blank (Head.head_mark _ _), hmark,
    dropWhile_run h.after_blank (Head.head_word _), hword,
    dropWhile_run h.inner_blank (Head.head_paren _), hparen, hlength, Option.bind_eq_bind,
    Option.bind_some, Option.pure_def]

/-- What is found at the start of a text is a head. -/
theorem head?_sound {m : Mark} {cs name : List Char} {size : Nat}
    (hfound : head? m.char cs = some (name, size)) :
    ∃ h : Head, h.mark = m ∧ h.name = name ∧ h.text.length = size ∧ h.text <+: cs := by
  have hname := List.prefix_iff_eq_append.1 (List.takeWhile_prefix (l := cs) isNameChar)
  simp only [head?] at hfound
  split at hfound
  case isFalse => cases hfound
  case isTrue hstart =>
    obtain ⟨afterMark, hmark, hfound⟩ := Option.bind_eq_some_iff.1 hfound
    obtain ⟨afterWord, hword, hfound⟩ := Option.bind_eq_some_iff.1 hfound
    obtain ⟨rest, hparen, hfound⟩ := Option.bind_eq_some_iff.1 hfound
    obtain ⟨rfl, rfl⟩ := Prod.mk.inj (Option.some.inj hfound)
    rw [dropExact_eq_some_iff, trimStart] at hmark hword hparen
    let h : Head :=
      { name := cs.takeWhile isNameChar
        before := (cs.drop (cs.takeWhile isNameChar).length).takeWhile isBlank
        mark := m
        after := afterMark.takeWhile isBlank
        inner := afterWord.takeWhile isBlank
        name_start := hstart
        name_char := fun _ hc => List.mem_takeWhile_imp hc
        before_blank := fun _ hc => List.mem_takeWhile_imp hc
        after_blank := fun _ hc => List.mem_takeWhile_imp hc
        inner_blank := fun _ hc => List.mem_takeWhile_imp hc }
    have htext : h.text ++ rest = cs := by
      rw [h.text_append]
      change _ ++ (_ ++ ([m.char] ++ (_ ++ ("function".toList ++ (_ ++ (['('] ++ rest)))))) = cs
      rw [← hparen, List.takeWhile_append_dropWhile, ← hword, List.takeWhile_append_dropWhile,
        ← hmark, List.takeWhile_append_dropWhile]
      exact hname
    refine ⟨h, rfl, rfl, ?_, rest, htext⟩
    rw [← htext, List.length_append, Nat.add_sub_cancel]

/-- The search for a mark finds the heads with it. -/
theorem head?_eq_some_iff {m : Mark} {cs name : List Char} {size : Nat} :
    head? m.char cs = some (name, size) ↔
      ∃ h : Head, h.mark = m ∧ h.name = name ∧ h.text.length = size ∧ h.text <+: cs := by
  refine ⟨head?_sound, ?_⟩
  rintro ⟨h, rfl, rfl, rfl, rest, rfl⟩
  exact head?_text h rest

theorem head?_eq_none_iff {m : Mark} {cs : List Char} :
    head? m.char cs = none ↔ ∀ h : Head, h.mark = m → ¬ h.text <+: cs := by
  rw [Option.eq_none_iff_forall_ne_some]
  constructor
  · intro hnone h hmark hfirst
    exact hnone _ (head?_eq_some_iff.2 ⟨h, hmark, rfl, rfl, hfirst⟩)
  · rintro hnone ⟨name, size⟩ hfound
    obtain ⟨h, hmark, -, -, hfirst⟩ := head?_sound hfound
    exact hnone h hmark hfirst

namespace Head

variable {h g : Head} {sigil : List Char}

theorem front_eq_of_text {rest : List Char} (hfirst : g.text <+: h.text ++ rest) :
    g.front = h.front := by
  rw [text, text, List.append_assoc, List.singleton_append] at hfirst
  exact upTo_unique g.paren_not_mem_front h.paren_not_mem_front hfirst

/-- A text starts with one head at most. -/
theorem eq_of_text {rest : List Char} (hfirst : g.text <+: h.text ++ rest) : g = h := by
  have hfront := front_eq_of_text hfirst
  obtain ⟨hname, hrest⟩ := run_unique g.name_char (g.head_behind_name _) h.name_char
    (h.head_behind_name _) hfront
  obtain ⟨hbefore, hrest⟩ := run_unique g.before_blank (head_mark _ _) h.before_blank
    (head_mark _ _) hrest
  obtain ⟨hmark, hrest⟩ := List.cons.inj hrest
  obtain ⟨hafter, hrest⟩ := run_unique g.after_blank (head_word _) h.after_blank (head_word _) hrest
  have hinner := List.append_cancel_left hrest
  rw [Mark.char_inj] at hmark
  cases g
  cases h
  simp only at hname hbefore hmark hafter hinner
  subst hname hbefore hmark hafter hinner
  rfl

/-- What comes behind the last mark of a text. -/
theorem behind_mark_unique {m k : Mark} {cs ds tail tail' : List Char}
    (htail : ∀ c ∈ tail, isMark c = false) (htail' : ∀ c ∈ tail', isMark c = false)
    (h : cs ++ m.char :: tail = ds ++ k.char :: tail') : tail = tail' := by
  have hstop (m : Mark) (cs : List Char) : ∀ c ∈ (m.char :: cs).head?, (!isMark c) = false := by
    rintro c ⟨⟩
    rw [m.char_apart.2.2.1]
    rfl
  have hreverse := congrArg List.reverse h
  simp only [List.reverse_append, List.reverse_cons, List.append_assoc, List.singleton_append]
    at hreverse
  refine List.reverse_inj.1 (run_unique (p := fun c => !isMark c) ?_ (hstop m _) ?_ (hstop k _)
    hreverse).1
  · intro c hc
    rw [htail c (List.mem_reverse.1 hc)]
    rfl
  · intro c hc
    rw [htail' c (List.mem_reverse.1 hc)]
    rfl

/-- No head ends where a function has got its name: the name would be among the blanks in front
of the parenthesis. -/
theorem not_ends_named (hsigil : ∀ c ∈ sigil, isMark c = false) (cs ds : List Char) :
    cs ++ g.front ≠ ds ++ h.namedFront sigil := by
  intro heq
  have hblank : ∀ c ∈ [' '], isBlank c = true := List.all_eq_true.1 (by decide)
  obtain ⟨gap, hspaced⟩ := h.mark.spaced_eq
  have hmarks : (cs ++ g.name ++ g.before) ++
        g.mark.char :: (g.after ++ ("function".toList ++ g.inner)) =
      (ds ++ h.name ++ gap) ++
        h.mark.char :: ([' '] ++ ("function".toList ++ ([' '] ++ (sigil ++ h.name)))) := by
    simpa [front, namedFront, opening, hspaced] using heq
  have htail := behind_mark_unique ?_ ?_ hmarks
  · obtain ⟨-, hrest⟩ := run_unique g.after_blank (head_word _) hblank (head_word _) htail
    have hinner : g.inner = [' '] ++ (sigil ++ h.name) := List.append_cancel_left hrest
    obtain ⟨c, hc⟩ := List.exists_mem_of_ne_nil _ h.name_ne_nil
    have hinside : isBlank c = true := g.inner_blank c (by rw [hinner]; simp [hc])
    rw [(isNameChar_apart (h.name_char c hc)).1] at hinside
    cases hinside
  · intro c hc
    rcases List.mem_append.1 hc with hc | hc
    · exact (isBlank_apart (g.after_blank c hc)).2.1
    rcases List.mem_append.1 hc with hc | hc
    · exact (isNameChar_apart (word_char c hc)).2.1
    · exact (isBlank_apart (g.inner_blank c hc)).2.1
  · intro c hc
    simp only [List.mem_append, List.mem_singleton] at hc
    rcases hc with rfl | hc | rfl | hc | hc
    · rfl
    · exact (isNameChar_apart (word_char c hc)).2.1
    · rfl
    · exact hsigil c hc
    · exact (isNameChar_apart (h.name_char c hc)).2.1

end Head

end NameRecovery.FunctionNames
