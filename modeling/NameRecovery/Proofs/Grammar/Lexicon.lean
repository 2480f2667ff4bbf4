import NameRecovery.Grammar.Expression
import NameRecovery.Proofs.Grammar.Cover
import NameRecovery.Proofs.Grammar.Invariant

/-!
# What trees are made of

The texts in a tree come from tokens, and the fields of a node agree with each other:
the name of a member is an identifier unless it is computed, a getter has a function,
a template has at most one substitution for each of its pieces.

* `Lexicon` — what is known of the texts of tokens;
* `Made` — the texts of the tree are such texts, and the fields of its nodes agree;
* `Made.asPattern` — so do those of the pattern an expression stands for.
-/

namespace NameRecovery.Grammar

open Source

/-! ## Texts of tokens -/

/-- A mark is spelled like the one it is. -/
theorem spelling_of_isMark {token : Token} {text : String} (h : token.isMark text = true) :
    token.spelling = text := by
  rw [Token.spelling, beq_iff_eq.1 h]

/-- So is a keyword. -/
theorem spelling_of_isKeyword {token : Token} {text : String} (h : token.isKeyword text = true) :
    token.spelling = text := by
  rw [Token.spelling, beq_iff_eq.1 h]

/-- What is known of the texts that tokens are spelled with. -/
structure Lexicon where
  /-- The names and keywords. -/
  name : String → Prop
  /-- The spellings of literals. -/
  raw : String → Prop
  /-- The pieces of templates. -/
  piece : String → Prop
  /-- The words that become names wherever they come from. -/
  words : ∀ word ∈ ["let", "yield", "null"], name word

/-- Nothing is known of the texts. -/
def Lexicon.anything : Lexicon where
  name _ := True
  raw _ := True
  piece _ := True
  words _ _ := trivial

variable {L : Lexicon}

/-- Is the token spelled with texts of the lexicon? -/
def Lexicon.Covers (L : Lexicon) (token : Token) : Prop :=
  match token.lexeme with
  | .name text | .keyword text => L.name text
  | .boolean text => L.name text ∧ L.raw token.raw
  | .null | .number _ | .string _ _ | .regex _ _ => L.raw token.raw
  | .template raw _ _ => L.piece raw
  | .mark _ | .endOfInput => True

/-- Does the invariant say that the tokens are spelled with texts of the lexicon? -/
class Spoken (L : outParam Lexicon) (I : State → Prop) : Prop where
  /-- The lookahead is. -/
  look : ∀ {s : State}, I s → L.Covers s.lookahead
  /-- A regular expression is. -/
  slash : ∀ {s s' : State} {token : Token}, I s → isSlash s.lookahead = true →
    nextRegex s = .ok (token, s') → L.Covers token

/-- Tokens are always spelled with some texts. -/
theorem spoken_anything (I : State → Prop) : Spoken Lexicon.anything I := by
  have hcovers : ∀ token, Lexicon.anything.Covers token := by
    intro token
    unfold Lexicon.Covers
    split <;> trivial
  exact ⟨fun _ => hcovers _, fun _ _ _ => hcovers _⟩

/-! ## Nodes whose fields agree -/

/-- The operators in front of an operand. -/
def unaryOperators : List String :=
  ["+", "-", "~", "!", "delete", "void", "typeof"]

/-- The operators between two operands. -/
def binaryOperators : List String :=
  ["||", "&&", "|", "^", "&", "==", "!=", "===", "!==", "<", ">", "<=", ">=", "<<", ">>", ">>>",
    "+", "-", "*", "/", "%", "**", "in", "instanceof"]

/-- Is there a text of which `P` holds? -/
def OfText (P : String → Prop) (value : Option Tree) : Prop :=
  ∃ s, value = some (.text s) ∧ P s

/-- Is there a node of the given kind? -/
def OfKind (kind : String) (value : Option Tree) : Prop :=
  ∃ t, value = some t ∧ t.isKind kind = true

/-- Do the fields of a node of the given kind agree, and are its texts those of the
lexicon? -/
def Lexicon.Fits (L : Lexicon) (kind : String) (fields : List (String × Tree)) : Prop :=
  match kind with
  | "Identifier" => OfText L.name (fields.lookup "name")
  | "Literal" => OfText L.raw (fields.lookup "raw")
  | "TemplateElement" =>
    ∃ raw, fields.lookup "value" = some (.record [("raw", .text raw)]) ∧ L.piece raw
  | "TemplateLiteral" =>
    ∃ quasis exprs, fields.lookup "quasis" = some (.list quasis) ∧
      fields.lookup "expressions" = some (.list exprs) ∧ exprs.length ≤ quasis.length
  | "MemberExpression" =>
    fields.lookup "computed" = some (.bool true) ∨ OfKind "Identifier" (fields.lookup "property")
  | "Property" =>
    OfText (· ∈ ["init", "get", "set"]) (fields.lookup "kind") ∧
      (fields.lookup "kind" = some (.text "init") ∧ fields.lookup "method" = some (.bool false) ∨
        OfKind "FunctionExpression" (fields.lookup "value"))
  | "MethodDefinition" =>
    OfText (· ∈ ["constructor", "method", "get", "set"]) (fields.lookup "kind")
  | "ExportNamedDeclaration" =>
    fields.lookup "declaration" = some .null ∨ fields.lookup "specifiers" = some (.list [])
  | "VariableDeclaration" => OfText (· ∈ ["var", "let", "const"]) (fields.lookup "kind")
  | "UnaryExpression" => OfText (· ∈ unaryOperators) (fields.lookup "operator")
  | "UpdateExpression" => OfText (· ∈ ["++", "--"]) (fields.lookup "operator")
  | "BinaryExpression" | "LogicalExpression" =>
    OfText (· ∈ binaryOperators) (fields.lookup "operator")
  | "AssignmentExpression" => OfText (· ∈ assignmentOperators) (fields.lookup "operator")
  | _ => True

mutual

/-- Do the fields of every node agree, with texts of the lexicon? -/
def Made (L : Lexicon) : Tree → Prop
  | .node kind fields => L.Fits kind fields ∧ MadeFields L fields
  | .record fields => MadeFields L fields
  | .list items => MadeItems L items
  | _ => True

/-- Is this so of the values of fields? -/
def MadeFields (L : Lexicon) : List (String × Tree) → Prop
  | [] => True
  | (_, value) :: rest => Made L value ∧ MadeFields L rest

/-- Is this so of the items of a list? -/
def MadeItems (L : Lexicon) : List Tree → Prop
  | [] => True
  | item :: rest => Made L item ∧ MadeItems L rest

end

theorem madeItems_iff {items : List Tree} : MadeItems L items ↔ ∀ t ∈ items, Made L t := by
  induction items with
  | nil => simp [MadeItems]
  | cons item rest ih => rw [MadeItems, ih, List.forall_mem_cons]

theorem madeFields_iff {fields : List (String × Tree)} :
    MadeFields L fields ↔ ∀ field ∈ fields, Made L field.2 := by
  induction fields with
  | nil => simp [MadeFields]
  | cons field rest ih => rw [MadeFields, ih, List.forall_mem_cons]

section Simp

@[simp] theorem made_node (kind : String) (fields : List (String × Tree)) :
    Made L (.node kind fields) ↔ L.Fits kind fields ∧ MadeFields L fields := by
  rw [Made]

@[simp] theorem made_list (items : List Tree) :
    Made L (.list items) ↔ ∀ t ∈ items, Made L t := by
  rw [Made, madeItems_iff]

@[simp] theorem madeFields_nil : MadeFields L [] := by
  rw [MadeFields]
  trivial

@[simp] theorem madeFields_cons (key : String) (value : Tree) (rest : List (String × Tree)) :
    MadeFields L ((key, value) :: rest) ↔ Made L value ∧ MadeFields L rest := by
  rw [MadeFields]

@[simp] theorem made_null : Made L .null := trivial

@[simp] theorem made_text (s : String) : Made L (.text s) := trivial

@[simp] theorem made_bool (b : Bool) : Made L (.bool b) := trivial

@[simp] theorem made_int (n : Int) : Made L (.int n) := trivial

@[simp] theorem made_real (x : Float) : Made L (.real x) := trivial

@[simp] theorem made_record (fields : List (String × Tree)) :
    Made L (.record fields) ↔ MadeFields L fields := by
  rw [Made]

@[simp] theorem ofText_some (P : String → Prop) (s : String) :
    OfText P (some (.text s)) ↔ P s := by
  simp [OfText]

@[simp] theorem ofKind_some (kind : String) (t : Tree) :
    OfKind kind (some t) ↔ t.isKind kind = true := by
  simp [OfKind]

end Simp

theorem Made.get {t : Tree} (h : Made L t) (key : String) : Made L (t.get key) := by
  have hlookup : ∀ {fields : List (String × Tree)}, MadeFields L fields →
      Made L ((fields.lookup key).getD .null) := by
    intro fields hfields
    cases hfound : fields.lookup key with
    | none => exact made_null
    | some value =>
        obtain ⟨before, after, rfl, -⟩ := List.lookup_eq_some_iff.1 hfound
        exact madeFields_iff.1 hfields (key, value) (by simp)
  cases t with
  | node kind fields =>
      unfold Tree.get Tree.get?
      dsimp only
      split
      · exact made_text kind
      · exact hlookup ((made_node kind fields).1 h).2
  | record fields => exact hlookup ((made_record fields).1 h)
  | _ => exact made_null

/-! ## Patterns -/

/-- The pattern for a value in a field: for each item of a list, or for the value. -/
def patternOfValue : Tree → Tree
  | .list items => .list (items.map patternOfItem)
  | t => asPattern t

theorem asPatternIn_eq (key : String) (fields : List (String × Tree)) :
    asPatternIn key fields =
      fields.map fun field => (field.1, if field.1 = key then patternOfValue field.2 else field.2) := by
  induction fields with
  | nil => simp [asPatternIn]
  | cons field rest ih =>
      obtain ⟨k, value⟩ := field
      cases value with
      | list items =>
          rw [asPatternIn, ih, asPatternItems_eq]
          by_cases hk : k = key <;> simp [hk, patternOfValue]
      | _ =>
          rw [asPatternIn, ih]
          · rfl
          · intro _ hlist
            cases hlist

theorem lookup_asPatternIn (key k : String) (fields : List (String × Tree)) :
    (asPatternIn key fields).lookup k =
      (fields.lookup k).map fun value => if k = key then patternOfValue value else value := by
  rw [asPatternIn_eq]
  induction fields with
  | nil => rfl
  | cons field rest ih =>
      rw [List.map_cons, List.lookup_cons, List.lookup_cons]
      by_cases hk : k = field.1
      · subst hk
        simp
      · rw [beq_eq_false_iff_ne.2 hk]
        exact ih

/-- A function stays what it is. -/
theorem isKind_function_patternOfValue {t : Tree} (h : t.isKind "FunctionExpression" = true) :
    (patternOfValue t).isKind "FunctionExpression" = true := by
  cases t with
  | node kind fields =>
      obtain rfl : kind = "FunctionExpression" := by simpa [Tree.isKind, Tree.kind?] using h
      exact h
  | _ => cases h

theorem Lexicon.Fits.property_asPatternIn {fields : List (String × Tree)}
    (h : L.Fits "Property" fields) : L.Fits "Property" (asPatternIn "value" fields) := by
  have hlookup : ∀ k, k ≠ "value" → (asPatternIn "value" fields).lookup k = fields.lookup k := by
    intro k hk
    rw [lookup_asPatternIn]
    simp [hk]
  obtain ⟨hkind, hvalue⟩ := h
  refine ⟨by rw [hlookup "kind" (by decide)]; exact hkind, hvalue.imp ?_ ?_⟩
  · rw [hlookup "kind" (by decide), hlookup "method" (by decide)]
    exact id
  · rintro ⟨t, ht, hfunction⟩
    rw [lookup_asPatternIn, ht]
    exact ⟨_, rfl, isKind_function_patternOfValue hfunction⟩

/-- Is what the tree stands for made as well as the tree? -/
structure PatternMade (L : Lexicon) (t : Tree) : Prop where
  /-- The pattern it stands for is. -/
  pattern : Made L t → Made L (asPattern t)
  /-- The pattern it stands for between brackets is. -/
  item : Made L t → Made L (patternOfItem t)

theorem patternMade (t : Tree) : PatternMade L t := by
  induction t using Tree.branch_induction with
  | step t ih =>
      have hfields : ∀ {kind fields} (key : String), t = .node kind fields → MadeFields L fields →
          MadeFields L (asPatternIn key fields) := by
        rintro kind fields key rfl hfields
        rw [madeFields_iff] at hfields ⊢
        rw [asPatternIn_eq]
        intro field hfield
        obtain ⟨⟨k, value⟩, hmem, rfl⟩ := List.mem_map.1 hfield
        have hvalue := hfields (k, value) hmem
        dsimp only
        split
        · cases value with
          | list items =>
              refine (made_list _).2 fun t ht => ?_
              obtain ⟨item, hitem, rfl⟩ := List.mem_map.1 ht
              exact (Tree.of_branches_item ih hmem hitem).item ((made_list _).1 hvalue item hitem)
          | node kind inner => exact (Tree.of_branches_field ih k hmem rfl).pattern hvalue
          | record inner => simpa [patternOfValue, asPattern] using hvalue
          | _ => simp [patternOfValue, asPattern]
        · exact hvalue
      have hpattern : Made L t → Made L (asPattern t) := by
        intro h
        unfold asPattern
        split
        · exact (made_node _ _).2 ⟨trivial, hfields _ rfl ((made_node _ _).1 h).2⟩
        · exact (made_node _ _).2 ⟨trivial, hfields _ rfl ((made_node _ _).1 h).2⟩
        · exact (made_node _ _).2 ⟨trivial, hfields _ rfl ((made_node _ _).1 h).2⟩
        · have hleft := madeFields_iff.1 (hfields "left" rfl ((made_node _ _).1 h).2)
          refine (made_node _ _).2 ⟨trivial, madeFields_iff.2 fun field hfield => ?_⟩
          exact hleft field (List.mem_filter.1 hfield).1
        · exact h
      refine ⟨hpattern, fun h => ?_⟩
      unfold patternOfItem
      split
      · obtain ⟨hfits, hmade⟩ := (made_node _ _).1 h
        exact (made_node _ _).2 ⟨hfits.property_asPatternIn, hfields _ rfl hmade⟩
      · exact hpattern h

/-- The pattern an expression stands for is made of the same texts. -/
theorem Made.asPattern {t : Tree} (h : Made L t) : Made L (asPattern t) :=
  (patternMade t).pattern h

end NameRecovery.Grammar
