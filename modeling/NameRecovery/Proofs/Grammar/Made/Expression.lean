import NameRecovery.Proofs.Grammar.Made.Sequence

/-!
# Expressions are made of texts

* `objectLiteral_makes`, `classBy_makes` — object literals and classes;
* `coverParameters_makes` — the parameters an expression stands for;
* `primary_makes`, `callExpression_makes` — operands with accesses and calls;
* `assignment_makes` — expressions without commas.
-/

namespace NameRecovery.Grammar

open Source

set_option linter.unusedSectionVars false

variable {L : Lexicon} {I : State → Prop} [Steady I] [Spoken L I] {rules : Rules}

/-! ## Object literals -/

/-- A property with a value, or with a function if it is a method, a getter or a setter. -/
theorem propertyNode_made {kind : String} (hkind : kind ∈ ["init", "get", "set"]) {key value : Tree}
    (hkey : Made L key) (hvalue : Made L value) {method : Bool}
    (hfunction : kind = "init" ∧ method = false ∨ value.isKind "FunctionExpression" = true)
    (computed shorthand : Bool) :
    Made L (propertyNode kind key computed value method shorthand) := by
  have hfits : L.Fits "Property" [("key", key), ("computed", .bool computed), ("value", value),
      ("kind", .text kind), ("method", .bool method), ("shorthand", .bool shorthand)] := by
    refine ⟨⟨kind, rfl, hkind⟩, hfunction.imp ?_ fun h => ⟨value, rfl, h⟩⟩
    rintro ⟨rfl, rfl⟩
    exact ⟨rfl, rfl⟩
  simpa [propertyNode] using ⟨hfits, hkey, hvalue⟩

/-- A property with a value. -/
theorem valueProperty_made {key value : Tree} (hkey : Made L key) (hvalue : Made L value)
    (computed shorthand : Bool) :
    Made L (propertyNode "init" key computed value false shorthand) :=
  propertyNode_made (by decide) hkey hvalue (.inl ⟨rfl, rfl⟩) computed shorthand

/-- A property with a function. -/
theorem functionProperty_made {kind : String} (hkind : kind ∈ ["init", "get", "set"])
    {key value : Tree} (hkey : Made L key) (hvalue : MadeFunction L value) (computed method : Bool) :
    Made L (propertyNode kind key computed value method false) :=
  propertyNode_made hkind hkey hvalue.1 (.inr hvalue.2) computed false

/-- Is the key of a property, if it has been read, made of such texts, and its first token
covered? -/
structure PropertyHead.Made (L : Lexicon) (head : PropertyHead) : Prop where
  token : L.Covers head.token
  key : OfSome (fun key => Grammar.Made L key.node) head.key

theorem propertyHead_makes (h : rules.Built L I) :
    Makes I (propertyHead rules) (PropertyHead.Made L) := by
  unfold propertyHead
  refine .bind lookahead_makes fun token htoken => ?_
  split
  · rename_i text hlexeme
    have hname : Made L (identifier text) := by
      refine (identifier_named ?_).1
      simpa [Lexicon.Covers, hlexeme] using htoken
    refine .skip fun _ => .skip fun computed => .skip fun _ => .skip fun _ => ?_
    refine .branch (fun key => Made L key.node) (fun _ => propertyKey_makes h)
      (fun _ => .pure hname) fun key hkey => .pure ⟨htoken, ofSome_some hkey⟩
  · exact .skip fun _ => .pure ⟨htoken, ofSome_none _⟩
  · refine .skip fun computed => .bind (propertyKey_makes h) fun key hkey => ?_
    exact .pure ⟨htoken, ofSome_some hkey⟩

theorem plainProperty_makes (h : rules.Built L I) {head : PropertyHead} (hhead : L.Covers head.token)
    {key : Key} (hkey : Made L key.node) (hasProto : Bool) :
    Makes I (plainProperty rules head key hasProto) fun r => Made L r.1 := by
  unfold plainProperty
  refine .skip fun _ => .ite (fun _ => .when fun _ => .skip fun _ => ?_) fun _ => .skip fun _ => ?_
  · refine .bind h.assignment.inherited fun value hvalue => .pure ?_
    exact valueProperty_made hkey hvalue _ _
  · refine .ite (fun _ => ?_) fun _ => ?_
    · refine .branch (MadeFunction L) (fun _ => asyncMethod_makes h) (fun _ => plainMethod_makes h) ?_
      exact fun value hvalue => .pure (functionProperty_made (by decide) hkey hvalue _ _)
    · split
      · rename_i text hlexeme
        have hname : Made L (identifier text) := by
          refine (identifier_named ?_).1
          simpa [Lexicon.Covers, hlexeme] using hhead
        refine .skip fun _ => .ite (fun _ => .skip fun equals => .skip fun _ => ?_) fun _ => ?_
        · refine .skip fun _ => .bind h.assignment.isolated fun right hright => .pure ?_
          exact valueProperty_made hkey (default_made hname hright) _ _
        · exact .pure (valueProperty_made hkey hname _ _)
      · exact .skip fun token => unexpected_makes token

theorem objectProperty_makes (h : rules.Built L I) (hasProto : Bool) :
    Makes I (objectProperty rules hasProto) fun r => Made L r.1 := by
  unfold objectProperty
  refine .bind (propertyHead_makes h) fun head hhead => .skip fun next => ?_
  have hmethod : ∀ {kind} computed method {p : Parse Tree} {key : Key},
      kind ∈ ["init", "get", "set"] → Makes I p (MadeFunction L) → Made L key.node →
      Makes I (do return (propertyNode kind key.node computed (← p) method false, hasProto))
        fun r => Made L r.1 := fun computed method p key hkind hp hkey =>
    .bind hp fun value hvalue => .pure (functionProperty_made hkind hkey hvalue _ _)
  refine .ite (fun _ => .skip fun computed => .bind (propertyKey_makes h) fun key hkey => ?_) ?_
  · exact .skip fun _ => hmethod computed false (by decide) (getterMethod_makes h) hkey
  · refine fun _ => .ite (fun _ => .skip fun computed => ?_) fun _ => .ite (fun _ => ?_) fun _ => ?_
    · exact .bind (propertyKey_makes h) fun key hkey =>
        hmethod computed false (by decide) (setterMethod_makes h) hkey
    · exact .skip fun computed => .bind (propertyKey_makes h) fun key hkey =>
        hmethod computed true (by decide) (generatorMethod_makes h) hkey
    · split
      · exact .skip fun token => unexpected_makes token
      · rename_i key hkey
        exact plainProperty_makes h hhead.token (hhead.key key hkey) hasProto

theorem objectProperties_makes (h : rules.Built L I) (budget : Nat) (hasProto : Bool) :
    Makes I (objectProperties rules budget hasProto) fun ts => ∀ t ∈ ts, Made L t := by
  induction budget generalizing hasProto with
  | zero => exact complain_makes _
  | succ budget ih =>
      unfold objectProperties
      refine .skip fun _ => .ite (fun _ => .pure nofun) fun _ => .skip fun _ => ?_
      extract_lets rest
      have hrest : ∀ r, Made L r.1 → Makes I (rest r) fun ts => ∀ t ∈ ts, Made L t := by
        intro r hr
        refine .skip fun _ => .when fun _ => .bind (ih r.2) fun properties hproperties => .pure ?_
        exact List.forall_mem_cons.2 ⟨hr, hproperties⟩
      refine .ite (fun _ => ?_) fun _ => .bind (objectProperty_makes h hasProto) hrest
      refine .bind (spreadElement_makes h) fun element helement => ?_
      exact .bind (.pure helement) hrest

theorem objectLiteral_makes (h : rules.Built L I) : Makes I (objectLiteral rules) (Made L) := by
  unfold objectLiteral
  refine .skip fun _ => .bind (objectProperties_makes h _ false) fun properties hproperties => ?_
  refine .skip fun _ => .pure ?_
  simpa [Lexicon.Fits] using hproperties

/-! ## Classes -/

/-- Is the key of a class member, if it has been read, made of such texts? -/
def MemberHead.Made (L : Lexicon) (head : MemberHead) : Prop :=
  OfSome (fun key => Grammar.Made L key.node) head.key

theorem staticModifier_makes (h : rules.Built L I) (head : MemberHead) {key : Key}
    (hkey : Made L key.node) : Makes I (staticModifier rules head key) (MemberHead.Made L) := by
  unfold staticModifier
  refine .skip fun next => .ite (fun _ => .skip fun _ => .skip fun _ => ?_) fun _ => ?_
  · refine .ite (fun _ => .pure (ofSome_some hkey)) fun _ => ?_
    exact .bind (propertyKey_makes h) fun key hkey => .pure (ofSome_some hkey)
  · exact .pure (ofSome_some hkey)

theorem asyncModifier_makes (h : rules.Built L I) {head : MemberHead} (hhead : head.Made L) :
    Makes I (asyncModifier rules head) (MemberHead.Made L) := by
  unfold asyncModifier
  refine .skip fun next => .skip fun _ => .ite (fun _ => ?_) fun _ => .pure hhead
  exact .bind (propertyKey_makes h) fun key hkey => .when fun _ => .pure (ofSome_some hkey)

theorem memberHead_makes (h : rules.Built L I) : Makes I (memberHead rules) (MemberHead.Made L) := by
  unfold memberHead
  refine .skip fun token => .skip fun _ => .ite (fun _ => .pure (ofSome_none _)) fun _ => ?_
  refine .skip fun computed => .bind (propertyKey_makes h) fun key hkey => ?_
  exact .bind (staticModifier_makes h _ hkey) fun head hhead => asyncModifier_makes h hhead

/-- The kinds of members before the constructor is told apart. -/
def memberKinds : List String :=
  ["method", "get", "set"]

/-- Are the key and the function of a class member made of such texts, and is its kind one of
those above? -/
structure Member.Made (L : Lexicon) (member : Member) : Prop where
  key : Grammar.Made L member.key.node
  value : Grammar.Made L member.value
  kind : member.kind ∈ memberKinds

theorem memberRest_makes (h : rules.Built L I) {head : MemberHead} (hhead : head.Made L) :
    Makes I (memberRest rules head) (Member.Made L) := by
  have hmethod : "method" ∈ memberKinds := by decide
  have hget : "get" ∈ memberKinds := by decide
  have hset : "set" ∈ memberKinds := by decide
  unfold memberRest
  refine .skip fun next => .ite (fun _ => .skip fun computed => ?_) fun _ => ?_
  · refine .bind (propertyKey_makes h) fun key hkey => .skip fun _ => ?_
    exact .bind (getterMethod_makes h) fun value hvalue => .pure ⟨hkey, hvalue.1, hget⟩
  · refine .ite (fun _ => .skip fun computed => ?_) fun _ => .ite (fun _ => ?_) fun _ => ?_
    · refine .bind (propertyKey_makes h) fun key hkey => ?_
      exact .bind (setterMethod_makes h) fun value hvalue => .pure ⟨hkey, hvalue.1, hset⟩
    · refine .skip fun computed => .bind (propertyKey_makes h) fun key hkey => ?_
      exact .bind (generatorMethod_makes h) fun value hvalue => .pure ⟨hkey, hvalue.1, hmethod⟩
    · split
      · rename_i key hkey
        refine .skip fun _ => .ite (fun _ => ?_) fun _ => .skip fun token => unexpected_makes token
        refine .branch (MadeFunction L) (fun _ => asyncMethod_makes h)
          (fun _ => plainMethod_makes h) fun value hvalue => .pure ?_
        exact ⟨hhead key hkey, hvalue.1, hmethod⟩
      · exact .skip fun token => unexpected_makes token

theorem methodDefinition_made {member : Member} (h : member.Made L) (isConstructor isStatic : Bool) :
    Made L (.node "MethodDefinition"
      [("key", member.key.node), ("computed", .bool member.computed), ("value", member.value),
        ("kind", .text (if isConstructor then "constructor" else member.kind)),
        ("static", .bool isStatic)]) := by
  have hfits : (if isConstructor then "constructor" else member.kind) ∈
      ["constructor", "method", "get", "set"] := by
    split
    · exact List.mem_cons_self
    · exact List.mem_cons_of_mem _ h.kind
  simp only [made_node, madeFields_cons, madeFields_nil, made_bool, made_text, and_true, true_and]
  exact ⟨⟨_, rfl, hfits⟩, h.key, h.value⟩

theorem classMember_makes (h : rules.Built L I) (hasConstructor : Bool) :
    Makes I (classMember rules hasConstructor) fun r => Made L r.1 := by
  unfold classMember
  refine .bind (memberHead_makes h) fun head hhead => ?_
  refine .bind (memberRest_makes h hhead) fun member hmember => .when fun _ => ?_
  have hnode (isConstructor : Bool) := methodDefinition_made hmember isConstructor head.isStatic
  exact .ite (fun _ => .when fun _ => .when fun _ => .pure (hnode _)) fun _ => .pure (hnode _)

theorem classMembers_makes (h : rules.Built L I) (budget : Nat) (hasConstructor : Bool) :
    Makes I (classMembers rules budget hasConstructor) fun ts => ∀ t ∈ ts, Made L t := by
  induction budget generalizing hasConstructor with
  | zero => exact complain_makes _
  | succ budget ih =>
      unfold classMembers
      refine .skip fun _ => .ite (fun _ => .pure nofun) fun _ => .skip fun _ => ?_
      refine .ite (fun _ => ih hasConstructor) fun _ => ?_
      refine .bind (classMember_makes h hasConstructor) fun r hmember => ?_
      exact .bind (ih r.2) fun rest hrest => .pure (List.forall_mem_cons.2 ⟨hmember, hrest⟩)

theorem classRest_makes (h : rules.Built L I) {kind : String} {id : Option Tree}
    (hkind : kind = "ClassDeclaration" ∨ kind = "ClassExpression") (hid : OfSome (Made L) id) :
    Makes I (classRest rules kind id) (Made L) := by
  unfold classRest
  refine .skip fun _ => ?_
  extract_lets rest
  have hid := optional_made hid
  have hrest : ∀ superClass, Made L superClass → Makes I (rest superClass) (Made L) := by
    intro superClass hsuper
    refine .skip fun _ => .bind (classMembers_makes h _ false) fun members hmembers => ?_
    refine .skip fun _ => .pure ?_
    rcases hkind with rfl | rfl <;> simpa [Lexicon.Fits] using ⟨hid, hsuper, hmembers⟩
  refine .ite (fun _ => .skip fun _ => .bind ?_ hrest) fun _ => .bind (.pure made_null) hrest
  exact h.call.isolated

instance : Stays I seesAnyName := by
  unfold seesAnyName
  refine ⟨.skip fun token => ?_⟩
  split <;> exact .pure trivial

theorem classBy_makes (h : rules.Built L I) {kind : String}
    (hkind : kind = "ClassDeclaration" ∨ kind = "ClassExpression") (nameOptional : Bool) :
    Makes I (classBy rules kind nameOptional) (Made L) := by
  unfold classBy
  refine .skip fun c => .skip fun _ => .skip fun _ => .skip fun _ => ?_
  extract_lets rest
  have hrest : ∀ id, OfSome (Made L) id → Makes I (rest id) (Made L) := by
    intro id hid
    exact .bind (classRest_makes h hkind hid) fun t ht => .skip fun _ => .pure ht
  refine .ite (fun _ => .bind (.pure (ofSome_none _)) hrest) fun _ => ?_
  exact .bind (variableName_makes none) fun id hid => .bind (.pure (ofSome_some hid.1)) hrest

/-! ## Parameters read as expressions -/

theorem yieldDefault_makes {t : Tree} (h : Made L t) : Makes I (yieldDefault t) (Made L) := by
  unfold yieldDefault
  refine .ite (fun _ => .whenWith fun _ => .pure ?_) fun _ => .pure h
  exact default_made (h.get "left") (identifier_named (L.words "yield" (by decide))).1

theorem coverParameter_makes (isAsync : Bool) {t : Tree} (h : Made L t) :
    Makes I (coverParameter isAsync t) (Made L) := by
  unfold coverParameter
  refine .ite (fun _ => yieldDefault_makes h) fun _ => ?_
  exact .ite (fun _ => .skip fun token => unexpected_makes token) fun _ => .pure h

theorem Parameters.Made.admitPattern {ps : Parameters} (h : ps.Made L) (strict : Bool) {t : Tree}
    (ht : Grammar.Made L t) : (ps.admitPattern strict t).Made L :=
  h.snoc (foldl_admit_params strict (fun _ => none) id _ ps) ht

/-- The expressions that stand for parameters are made of such texts. -/
theorem cover_made {expr : Tree} (h : Made L expr) {exprs : List Tree} {isAsync : Bool}
    (hcover : (if expr.isKind "Identifier" then some ([expr], false)
      else if expr.isKind "ArrowParameterPlaceHolder" then
        match expr.get "params" with
        | .list params => some (params, expr.has "async")
        | _ => none
      else none) = some (exprs, isAsync)) : ∀ t ∈ exprs, Made L t := by
  split_ifs at hcover with hname harrow
  · obtain ⟨rfl, -⟩ := Prod.mk.inj (Option.some.inj hcover)
    exact List.forall_mem_singleton.2 h
  · have hparams := h.get "params"
    split at hcover
    · rename_i params heq
      obtain ⟨rfl, -⟩ := Prod.mk.inj (Option.some.inj hcover)
      rw [heq] at hparams
      exact (made_list _).1 hparams
    · cases hcover

/-- The parameters an expression stands for are made of such texts. -/
theorem coverParameters_makes {expr : Tree} (h : Made L expr) :
    Makes I (coverParameters expr) (OfSome (Parameters.Made L)) := by
  unfold coverParameters
  dsimp only
  split
  · exact .pure (ofSome_none _)
  · rename_i exprs isAsync hcover
    have hexprs := cover_made h hcover
    refine .bind (forIn_makes (J := Parameters.Made L) (fun t ht ps hps => ?_) ?_) fun ps hps => ?_
    · refine .bind (coverParameter_makes isAsync (hexprs t ht)) fun param hparam => ?_
      exact .skip fun c => .pure (hps.admitPattern c.strict hparam)
    · exact fun t ht => absurd ht List.not_mem_nil
    · refine .skip fun c => .whenWith fun _ => .when fun _ => ?_
      exact .pure (ofSome_some hps)

/-! ## Parentheses -/

theorem arrowParameters_made (isAsync : Bool) {params : List Tree} (h : ∀ t ∈ params, Made L t) :
    Made L (arrowParameters isAsync params) := by
  simpa [arrowParameters, Lexicon.Fits] using h

theorem map_asPattern_made {ts : List Tree} (h : ∀ t ∈ ts, Made L t) :
    ∀ t ∈ ts.map asPattern, Made L t := by
  intro t ht
  obtain ⟨expr, hexpr, rfl⟩ := List.mem_map.1 ht
  exact (h expr hexpr).asPattern

theorem groupTail_makes (h : rules.Built L I) (budget : Nat) {done : List Tree}
    (hdone : ∀ t ∈ done, Made L t) :
    Makes I (groupTail rules budget done) fun r => ∀ t ∈ r.1, Made L t := by
  induction budget generalizing done with
  | zero => exact complain_makes _
  | succ budget ih =>
      have hsnoc : ∀ {t}, Made L t → ∀ t' ∈ done ++ [t], Made L t' :=
        fun ht => List.forall_mem_append.2 ⟨hdone, List.forall_mem_singleton.2 ht⟩
      unfold groupTail
      refine .skip fun _ => .ite (fun _ => .pure hdone) fun _ => .skip fun _ => .skip fun _ => ?_
      refine .ite (fun _ => .pure hdone) fun _ => .skip fun _ => .ite (fun _ => ?_) fun _ => ?_
      · refine .skip fun _ => .whenWith fun _ => .bind (restParameter_makes h) fun r hr => ?_
        exact .skip fun _ => .skip fun _ => .when fun _ => .skip fun _ => .pure (hsnoc hr)
      · exact .bind h.assignment.inherited fun expr hexpr => ih (hsnoc hexpr)

theorem groupEnd_makes {expr : Tree} (hexpr : Made L expr) {parts : List Tree}
    (hparts : ∀ t ∈ parts, Made L t) : Makes I (groupEnd expr parts) (Made L) := by
  unfold groupEnd
  refine .skip fun _ => .skip fun _ => .ite (fun _ => .ite (fun _ => ?_) fun _ => ?_) fun _ => ?_
  · exact .skip fun _ => .pure (arrowParameters_made false (List.forall_mem_singleton.2 hexpr))
  · refine .skip fun _ => .whenWith fun _ => .skip fun _ => .pure ?_
    exact arrowParameters_made false (map_asPattern_made hparts)
  · exact .skip fun _ => .pure hexpr

theorem group_makes (h : rules.Built L I) : Makes I (group rules) (Made L) := by
  unfold group
  refine .skip fun _ => .skip fun _ => .ite (fun _ => ?_) fun _ => .skip fun _ => ?_
  · exact .skip fun _ => .when fun _ => .pure (arrowParameters_made false nofun)
  refine .ite (fun _ => ?_) fun _ => .skip fun _ => ?_
  · refine .bind (restParameter_makes h) fun r hr => .skip fun _ => .skip fun _ => ?_
    exact .when fun _ => .pure (arrowParameters_made false (List.forall_mem_singleton.2 hr))
  refine .bind h.assignment.inherited fun expr hexpr => .skip fun _ => .ite (fun _ => ?_) fun _ => ?_
  · have hfirst : ∀ t ∈ [expr], Made L t := List.forall_mem_singleton.2 hexpr
    refine .skip fun _ => .bind (groupTail_makes h _ hfirst) fun r hr => .ite (fun _ => ?_) fun _ => ?_
    · exact .pure (arrowParameters_made false (map_asPattern_made hr))
    · refine groupEnd_makes ?_ hr
      simpa [Lexicon.Fits] using hr
  · have hsingle := groupEnd_makes (I := I) hexpr (List.forall_mem_singleton.2 hexpr)
    refine .ite (fun _ => ?_) fun _ => hsingle
    have hparts := hexpr.get "expressions"
    split
    · rename_i parts heq
      rw [heq] at hparts
      exact groupEnd_makes hexpr ((made_list _).1 hparts)
    · exact hsingle

/-! ## Primary expressions -/

instance : Stays I seesImportCall := by
  unfold seesImportCall
  infer_instance

theorem bare_made {kind : String} (hkind : kind ∈ ["ThisExpression", "Super", "Import",
    "EmptyStatement", "DebuggerStatement"]) : Made L (.node kind []) := by
  simp only [List.mem_cons, List.not_mem_nil, or_false] at hkind
  rcases hkind with rfl | rfl | rfl | rfl | rfl <;> simp [Lexicon.Fits]

theorem keywordExpression_makes (h : rules.Built L I) (text : String) :
    Makes I (keywordExpression rules text) (Made L) := by
  unfold keywordExpression
  refine .skip fun c => .ite (fun _ => ?_) fun _ => .ite (fun _ => ?_) fun _ => .skip fun _ => ?_
  · exact anyWord_makes.mono fun _ ht => ht.1
  · exact .skip fun _ => .pure (identifier_named (L.words "let" (by decide))).1
  refine .ite (fun _ => ?_) fun _ => .ite (fun _ => ?_) fun _ => .ite (fun _ => ?_) fun _ => ?_
  · exact functionExpression_makes h
  · exact .skip fun _ => .pure (bare_made (by decide))
  · exact classBy_makes h (.inr rfl) true
  · refine .skip fun _ => .ite (fun _ => ?_) fun _ => .skip fun token => unexpected_makes token
    exact .skip fun _ => .pure (bare_made (by decide))

/-- A regular expression, where a slash is seen. -/
theorem regex_makesAt {s : State} (hs : I s) (hslash : isSlash s.lookahead = true) :
    MakesAt I s (do
      plainValue
      let token ← nextRegex
      match token.lexeme with
      | .regex pattern flags =>
        return Tree.node "Literal"
          [("raw", .text token.raw),
            ("regex", .record [("pattern", .text pattern), ("flags", .text flags)])]
      | _ => unexpected token) (Made L) := by
  refine .change hs fun s₁ hs₁ hsame => .bind (P := L.Covers) ?_ fun token htoken => ?_
  · rw [← hsame] at hslash
    exact fun token s' hrun => ⟨Steady.regex hs₁ hslash hrun, Spoken.slash hs₁ hslash hrun⟩
  · split
    · rename_i pattern flags hlexeme
      refine .pure ?_
      rw [Lexicon.Covers, hlexeme] at htoken
      simpa [Lexicon.Fits] using htoken
    · exact unexpected_makes token

theorem primary_makes (h : rules.Built L I) : Makes I (primary rules) (Made L) := by
  unfold primary
  refine makes_seeing fun s hs => ?_
  have htoken : L.Covers s.lookahead := Spoken.look hs
  have hliteral (hraw : L.raw s.lookahead.raw) : Makes I (do
      plainValue
      let _ ← nextToken
      return literal s.lookahead) (Made L) :=
    .skip fun _ => .skip fun _ => .pure (literal_made hraw)
  split <;> rename_i hlexeme
  · rename_i text
    refine Makes.at (.skip fun c => .when fun _ => .skip fun _ => .ite (fun _ => ?_) fun _ => ?_) hs
    · exact functionExpression_makes h
    · refine .skip fun _ => .pure (identifier_named ?_).1
      simpa [Lexicon.Covers, hlexeme] using htoken
  · exact Makes.at (.skip fun _ => hliteral (by simpa [Lexicon.Covers, hlexeme] using htoken)) hs
  · exact Makes.at (.skip fun _ => hliteral (by simpa [Lexicon.Covers, hlexeme] using htoken)) hs
  · rw [Lexicon.Covers, hlexeme] at htoken
    exact Makes.at (hliteral htoken.2) hs
  · exact Makes.at (hliteral (by simpa [Lexicon.Covers, hlexeme] using htoken)) hs
  · exact (template_makes h).at hs
  · exact Makes.at (.skip fun _ => (group_makes h).inherited) hs
  · exact (arrayLiteral_makes h).inherited.at hs
  · exact (objectLiteral_makes h).inherited.at hs
  · exact regex_makesAt hs (by simp [isSlash, Token.isMark, hlexeme])
  · exact regex_makesAt hs (by simp [isSlash, Token.isMark, hlexeme])
  · exact (keywordExpression_makes h _).at hs
  · exact Makes.at (.skip fun token => unexpected_makes token) hs

/-! ## Members and calls -/

theorem access_makes (h : rules.Built L I) {expr : Tree} (hexpr : Made L expr) :
    Makes I (access? rules expr) (OfSome (Made L)) := by
  unfold access?
  refine .skip fun token => ?_
  split
  · refine .skip fun _ => .skip fun _ => .bind anyWord_makes fun name hname => .pure ?_
    refine ofSome_some ?_
    simpa [memberNode] using ⟨.inr ⟨name, rfl, hname.2⟩, hexpr, hname.1⟩
  · refine .skip fun _ => .skip fun _ => .bind (expression_makes h).isolated fun key hkey => ?_
    refine .skip fun _ => .pure (ofSome_some ?_)
    simpa [memberNode] using ⟨.inl rfl, hexpr, hkey⟩
  · refine .bind (template_makes h) fun quasi hquasi => .pure (ofSome_some ?_)
    simpa [Lexicon.Fits] using ⟨hexpr, hquasi⟩
  · exact .pure (ofSome_none _)

theorem accesses_makes (h : rules.Built L I) (budget : Nat) {expr : Tree} (hexpr : Made L expr) :
    Makes I (accesses rules budget expr) (Made L) := by
  induction budget generalizing expr with
  | zero => exact complain_makes _
  | succ budget ih =>
      unfold accesses
      refine .bind (access_makes h hexpr) fun next hnext => ?_
      cases next with
      | some next => exact ih (hnext next rfl)
      | none => exact .pure hexpr

theorem callNode_made {kind : String} (hkind : kind = "CallExpression" ∨ kind = "NewExpression")
    {callee : Tree} (hcallee : Made L callee) {args : List Tree} (hargs : ∀ t ∈ args, Made L t) :
    Made L (callNode kind callee args) := by
  rcases hkind with rfl | rfl <;> simpa [callNode, Lexicon.Fits] using ⟨hcallee, hargs⟩

theorem newExpression_makes (h : rules.Built L I) : Makes I (newExpression rules) (Made L) := by
  unfold newExpression
  refine .bind anyWord_makes fun word hword => .skip fun _ => .ite (fun _ => ?_) fun _ => ?_
  · refine .skip fun token => .skip fun _ => .ite (fun _ => ?_) fun _ => unexpected_makes token
    refine .bind anyWord_makes fun property hproperty => .pure ?_
    simpa [Lexicon.Fits] using ⟨hword.1, hproperty.1⟩
  · refine .skip fun _ => .ite (fun _ => .skip fun token => unexpected_makes token) fun _ => ?_
    refine .bind h.callee.isolated fun callee hcallee => .skip fun _ => ?_
    refine .branch (fun args => ∀ t ∈ args, Made L t) (fun _ => arguments_makes h)
      (fun _ => .pure (List.forall_mem_nil _)) fun args hargs => .skip fun _ => .pure ?_
    exact callNode_made (.inr rfl) hcallee hargs

theorem operand_makes (h : rules.Built L I) : Makes I (operand rules) (Made L) := by
  unfold operand
  refine .skip fun _ => Makes.inherited ?_
  exact .ite (fun _ => newExpression_makes h) fun _ => primary_makes h

theorem superAccess_makes (brackets : List String) : Makes I (superAccess brackets) (Made L) := by
  unfold superAccess
  exact .skip fun _ => .skip fun _ => .whenWith fun _ => .pure (bare_made (by decide))

instance : Stays I seesSuper := by
  unfold seesSuper
  infer_instance

theorem callee_makes (h : rules.Built L I) : Makes I (callee rules) (Made L) := by
  unfold callee
  exact .skip fun _ => .branch (Made L) (fun _ => superAccess_makes _)
    (fun _ => operand_makes h) fun expr hexpr => accesses_makes h _ hexpr

theorem call_makes (h : rules.Built L I) {expr : Tree} (hexpr : Made L expr) (maybeArrow : Bool) :
    Makes I (call rules expr maybeArrow) (Made L) := by
  unfold call
  refine .skip fun _ => .branch (fun args => ∀ t ∈ args, Made L t)
    (fun _ => asyncArguments_makes h) (fun _ => arguments_makes h) fun args hargs => ?_
  refine .when fun _ => .skip fun _ => .ite (fun _ => .pure ?_) fun _ => .pure ?_
  · exact arrowParameters_made true (map_asPattern_made hargs)
  · exact callNode_made (.inl rfl) hexpr hargs

theorem callChain_makes (h : rules.Built L I) (start : Token) (budget : Nat) {expr : Tree}
    (hexpr : Made L expr) : Makes I (callChain rules start budget expr) (Made L) := by
  induction budget generalizing expr with
  | zero => exact complain_makes _
  | succ budget ih =>
      unfold callChain
      refine .skip fun _ => .ite (fun _ => .skip fun next => ?_) fun _ => ?_
      · exact .bind (call_makes h hexpr _) fun expr hexpr => ih hexpr
      · refine .bind (access_makes h hexpr) fun next hnext => ?_
        cases next with
        | some next => exact ih (hnext next rfl)
        | none => exact .pure hexpr

theorem callExpression_makes (h : rules.Built L I) : Makes I (callExpression rules) (Made L) := by
  unfold callExpression
  refine .skip fun start => .skip fun _ => .skip fun _ => .skip fun _ => ?_
  refine .branch (Made L) (fun _ => superAccess_makes _) (fun _ => operand_makes h) ?_
  intro expr hexpr
  exact .bind (callChain_makes h start _ hexpr) fun expr hexpr => .skip fun _ => .pure hexpr

/-! ## Operators -/

theorem spelling_of_any_isMark {token : Token} {texts : List String}
    (h : texts.any token.isMark = true) : token.spelling ∈ texts := by
  obtain ⟨text, hmem, hmark⟩ := List.any_eq_true.1 h
  rw [spelling_of_isMark hmark]
  exact hmem

theorem spelling_of_any_isKeyword {token : Token} {texts : List String}
    (h : texts.any token.isKeyword = true) : token.spelling ∈ texts := by
  obtain ⟨text, hmem, hkeyword⟩ := List.any_eq_true.1 h
  rw [spelling_of_isKeyword hkeyword]
  exact hmem

instance (expr : Tree) (complaint : Complaint) : Stays I (checkUpdate expr complaint) := by
  unfold checkUpdate
  infer_instance

/-- Checking the operand of an update leaves the state as it is. -/
theorem checkUpdate_state {expr : Tree} {complaint : Complaint} {s s' : State} {u : Unit}
    (h : checkUpdate expr complaint s = .ok (u, s')) : s' = s := by
  have hrun : MakesAt (· = s) s (checkUpdate expr complaint) fun _ => True := by
    unfold checkUpdate
    refine .read rfl (.passing (fun _ => ⟨_, rfl⟩) (.ite (fun _ => ?_) fun _ => ?_))
    · exact (complainLate_makes _).at rfl
    · exact Makes.at (.pure trivial) rfl
  exact (hrun u s' h).1

theorem updateNode_made {operator : String} (hoperator : operator ∈ ["++", "--"]) {argument : Tree}
    (h : Made L argument) (before : Bool) : Made L (updateNode operator argument before) := by
  simpa [updateNode] using ⟨⟨operator, rfl, hoperator⟩, h⟩

theorem update_makes (h : rules.Built L I) : Makes I (update rules) (Made L) := by
  unfold update
  refine makes_iff.2 fun s hs => .read rfl (.ite (fun hmark => ?_) fun _ => ?_)
  · refine .bind (nextToken_at hs) fun token htoken => .bind h.unary.inherited fun expr hexpr => ?_
    subst htoken
    refine .skip fun _ => .skip fun _ => .pure ?_
    exact updateNode_made (spelling_of_any_isMark hmark) hexpr true
  · refine Makes.at (.bind (callExpression_makes h).inherited fun expr hexpr => .skip fun _ => ?_) hs
    refine makes_iff.2 fun s hs => .read rfl (.ite (fun hmark => ?_) fun _ => Makes.at (.pure hexpr) hs)
    obtain ⟨-, hmark⟩ := Bool.and_eq_true_iff.1 hmark
    refine .check (fun _ _ => checkUpdate_state) fun _ => .change hs fun s₁ hs₁ hsame => ?_
    refine .bind (nextToken_at hs₁) fun token htoken => .pure ?_
    rw [htoken, hsame]
    exact updateNode_made (spelling_of_any_isMark hmark) hexpr false

theorem spelling_of_isUnaryOperator {token : Token} (h : isUnaryOperator token = true) :
    token.spelling ∈ unaryOperators := by
  rcases Bool.or_eq_true_iff.1 h with h | h
  · exact List.mem_append_left ["delete", "void", "typeof"] (spelling_of_any_isMark h)
  · exact List.mem_append_right ["+", "-", "~", "!"] (spelling_of_any_isKeyword h)

theorem unary_makes (h : rules.Built L I) : Makes I (unary rules) (Made L) := by
  unfold unary
  refine .skip fun token => .ite (fun hoperator => .skip fun _ => ?_) fun _ => .skip fun _ => ?_
  · refine .bind h.unary.inherited fun argument hargument => .skip fun _ => .when fun _ => ?_
    refine .skip fun _ => .pure ?_
    simpa using ⟨⟨token.spelling, rfl, spelling_of_isUnaryOperator hoperator⟩, hargument⟩
  · refine .ite (fun _ => .skip fun _ => ?_) fun _ => update_makes h
    refine .bind h.unary fun argument hargument => .pure ?_
    simpa [Lexicon.Fits] using hargument

theorem binaryNode_made {operator : String} (hoperator : operator ∈ binaryOperators)
    {left right : Tree} (hleft : Made L left) (hright : Made L right) :
    Made L (binaryNode operator left right) := by
  unfold binaryNode
  split <;> simpa using ⟨⟨operator, rfl, hoperator⟩, hleft, hright⟩

theorem power_makes (h : rules.Built L I) : Makes I (power rules) (Made L) := by
  unfold power
  refine .bind h.unary.inherited fun base hbase => .skip fun _ => .ite (fun _ => ?_) fun _ => ?_
  · refine .skip fun _ => .skip fun _ => .bind h.power.isolated fun exponent hexponent => ?_
    exact .pure (binaryNode_made (by decide) hbase hexponent)
  · exact .pure hbase

theorem spelling_of_bindingStrength (allowIn : Bool) {token : Token}
    (h : bindingStrength allowIn token ≠ 0) : token.spelling ∈ binaryOperators := by
  unfold bindingStrength at h
  split at h
  · rename_i text hlexeme
    rw [Token.spelling, hlexeme]
    contrapose! h
    simp only [binaryOperators, List.mem_cons, List.not_mem_nil, or_false, not_or] at h
    simp [h]
  · rename_i text hlexeme
    rw [Token.spelling, hlexeme]
    contrapose! h
    simp only [binaryOperators, List.mem_cons, List.not_mem_nil, or_false, not_or] at h
    simp [h]
  · exact absurd rfl h

/-- Are the left operands that wait made of such texts, with operators between two
operands? -/
def MadeWaiting (L : Lexicon) (waiting : List Waiting) : Prop :=
  ∀ w ∈ waiting, Made L w.left ∧ w.operator ∈ binaryOperators

theorem joinWaiting_made (strength : Nat) {waiting : List Waiting} {right : Tree}
    (hwaiting : MadeWaiting L waiting) (hright : Made L right) :
    MadeWaiting L (joinWaiting strength waiting right).1 ∧
      Made L (joinWaiting strength waiting right).2 := by
  induction waiting generalizing right with
  | nil => exact ⟨nofun, hright⟩
  | cons w rest ih =>
      obtain ⟨hw, hrest⟩ := List.forall_mem_cons.1 hwaiting
      rw [joinWaiting]
      split
      · exact ih hrest (binaryNode_made hw.2 hw.1 hright)
      · exact ⟨hwaiting, hright⟩

theorem binaryTail_makes (h : rules.Built L I) (budget : Nat) {waiting : List Waiting} {right : Tree}
    (hwaiting : MadeWaiting L waiting) (hright : Made L right) :
    Makes I (binaryTail rules budget waiting right) (Made L) := by
  induction budget generalizing waiting right with
  | zero => exact complain_makes _
  | succ budget ih =>
      unfold binaryTail
      refine .skip fun token => .skip fun c => .ite (fun _ => ?_) fun hstrength => .skip fun _ => ?_
      · exact .pure (joinWaiting_made 0 hwaiting hright).2
      · obtain ⟨hwaiting', hleft⟩ :=
          joinWaiting_made (bindingStrength c.allowIn token) hwaiting hright
        refine .skip fun _ => .bind h.power.isolated fun next hnext => ih ?_ hnext
        have hoperator : token.spelling ∈ binaryOperators := by
          refine spelling_of_bindingStrength c.allowIn ?_
          simpa using hstrength
        exact List.forall_mem_cons.2 ⟨⟨hleft, hoperator⟩, hwaiting'⟩

theorem binary_makes (h : rules.Built L I) : Makes I (binary rules) (Made L) := by
  unfold binary
  exact .bind h.power.inherited fun first hfirst => binaryTail_makes h _ nofun hfirst

theorem conditional_makes (h : rules.Built L I) : Makes I (conditional rules) (Made L) := by
  unfold conditional
  refine .bind (binary_makes h).inherited fun test htest => .skip fun _ => ?_
  refine .ite (fun _ => .skip fun _ => .skip fun _ => ?_) fun _ => .pure htest
  refine .bind h.assignment.isolated fun consequent hconsequent => .skip fun _ => .skip fun _ => ?_
  refine .bind h.assignment.isolated fun alternate halternate => .skip fun _ => .pure ?_
  simpa [Lexicon.Fits] using ⟨htest, hconsequent, halternate⟩

/-! ## Assignments -/

theorem yieldExpression_makes (h : rules.Built L I) : Makes I (yieldExpression rules) (Made L) := by
  unfold yieldExpression
  extract_lets node
  have hnode : ∀ {argument} delegate, Made L argument → Made L (node argument delegate) := by
    intro argument delegate hargument
    simpa [node, Lexicon.Fits] using hargument
  refine .skip fun _ => .skip fun _ => .ite (fun _ => .pure (hnode false made_null)) fun _ => ?_
  refine .skip fun _ => .skip fun _ => .skip fun delegate => .skip fun _ => ?_
  refine .branch (Made L) (fun _ => h.assignment) (fun _ => .pure made_null) ?_
  exact fun argument hargument => .skip fun _ => .pure (hnode delegate hargument)

theorem arrowFunction_makes (h : rules.Built L I) {ps : Parameters} (hps : ps.Made L)
    (isAsync : Bool) : Makes I (arrowFunction rules ps isAsync) (Made L) := by
  unfold arrowFunction
  refine .skip fun _ => .whenWith fun _ => .skip fun _ => .skip fun before => .skip fun _ => ?_
  refine .skip fun _ => .skip fun _ => ?_
  extract_lets rest
  have hrest : ∀ body, Made L body → Makes I (rest body) (Made L) := by
    intro body hbody
    refine .skip fun _ => .skip fun _ => .pure ?_
    simpa [Lexicon.Fits] using ⟨hps, hbody⟩
  refine .ite (fun _ => .skip fun c => .skip fun _ => ?_) fun _ => ?_
  · refine .bind (functionBody_makes h) fun body hbody => .skip fun _ => ?_
    exact .bind (.pure hbody) hrest
  · exact .bind h.assignment.isolated hrest

theorem assignTo_makesAt (h : rules.Built L I) (start : Token) {target : Tree}
    (htarget : Made L target) {s : State} (hs : I s)
    (hmark : assignmentOperators.any s.lookahead.isMark = true) :
    MakesAt I s (assignTo rules start target) (Made L) := by
  unfold assignTo
  refine .read rfl (.passing (fun _ => ⟨_, rfl⟩) ?_)
  extract_lets rest
  have hrest : MakesAt I s (rest ()) (Made L) := by
    refine .read rfl ?_
    extract_lets value
    have hvalue : ∀ s₁, I s₁ → s₁.lookahead = s.lookahead → MakesAt I s₁ (value ()) (Made L) := by
      intro s₁ hs₁ hsame
      refine .bind (nextToken_at hs₁) fun operator hoperator => ?_
      refine .bind h.assignment.isolated fun right hright => .skip fun _ => .pure ?_
      have hleft : Made L (if s.lookahead.isMark "=" then asPattern target else target) := by
        split
        · exact htarget.asPattern
        · exact htarget
      rw [hoperator, hsame]
      simpa using ⟨⟨_, rfl, spelling_of_any_isMark hmark⟩, hleft, hright⟩
    exact .ite (fun _ => .change hs hvalue) fun _ => hvalue s hs rfl
  refine .ite (fun _ => ?_) fun _ => hrest
  split
  · exact .passing (fun _ => ⟨_, rfl⟩) (.passing (fun _ => ⟨_, rfl⟩) hrest)
  · exact hrest

theorem asyncParameter_makes (h : rules.Built L I) (start : Token) :
    Makes I (asyncParameter? rules start) (OfSome (Made L)) := by
  unfold asyncParameter?
  refine .skip fun next => .ite (fun _ => ?_) fun _ => .pure (ofSome_none _)
  refine .bind (primary_makes h) fun param hparam => .pure (ofSome_some ?_)
  exact arrowParameters_made true (List.forall_mem_singleton.2 hparam.asPattern)

theorem assignment_makes (h : rules.Built L I) : Makes I (assignment rules) (Made L) := by
  unfold assignment
  refine .skip fun _ => .skip fun _ => .ite (fun _ => yieldExpression_makes h) fun _ => ?_
  refine .skip fun start => .bind (conditional_makes h) fun expr hexpr => ?_
  refine .bind (asyncParameter_makes h start) fun param hparam => .skip fun _ => ?_
  have htarget : Made L (param.getD expr) := by
    cases param with
    | none => exact hexpr
    | some param => exact hparam param rfl
  refine .ite (fun _ => .skip fun _ => ?_) fun _ => ?_
  · refine .bind (coverParameters_makes htarget) fun ps hps => ?_
    cases ps with
    | some ps => exact arrowFunction_makes h (hps ps rfl) _
    | none => exact .pure htarget
  · refine makes_iff.2 fun s hs => .read rfl (.ite (fun hmark => ?_) fun _ => ?_)
    · exact assignTo_makesAt h start htarget hs hmark
    · exact Makes.at (.pure htarget) hs

end NameRecovery.Grammar
