import NameRecovery.Requests
import NameRecovery.Proofs.Json.Limit

/-!
# One reply for each request

Each line that is not blank is answered by a line of its own, whatever stands on the other
lines: the reply is a function of the line and the settings alone.  It stands on one line and
reads back as what it is, and the value a request is known by comes back with it.  Only an
integer with too many digits ends the session; the replies written by then stay written.

* `answer?_cases` — what becomes of a line;
* `answerLines_tells` — what becomes of all lines;
* `Answered` — what a session leaves behind;
* `serve_answers_each_line` — **every session whose integers are short enough is answered so**;
* `serve_stops_at_integer` — a line that is one long integer ends the session.
-/

namespace NameRecovery

/-! ## Replies -/

theorem Reply.field?_id (reply : Reply) :
    (Json.object reply.fields).field? "id" = some reply.id := by
  rw [Reply.fields]
  split <;> rfl

theorem Reply.readable {reply : Reply} (h : reply.id.Readable) :
    (Json.object reply.fields).Readable := by
  rw [Reply.fields]
  split <;> simp [Json.Readable, Json.ReadableFields, h]

theorem Reply.isExact {reply : Reply} (h : reply.id.isExact = true) :
    (Json.object reply.fields).isExact = true := by
  rw [Reply.fields]
  split <;> simp [Json.isExact, Json.isExactFields, h]

namespace Requests

/-- Is there anything on the line? -/
def isRequest (line : String) : Bool :=
  Text.stripped line != ""

/-- Is the line refused for the length of an integer? -/
def isOverlong (line : String) : Bool :=
  match Json.decode (Text.stripped line) with
  | .error ⟨.tooManyDigits _, _, _, _⟩ => true
  | _ => false

/-- The reply to a line. -/
def replyTo (config : Config) (line : String) : Reply :=
  match Json.decode (Text.stripped line) with
  | .ok request => (handle config request).1
  | .error e => ⟨.error ("invalid request: " ++ e.message), .null⟩

/-- What is written for a line, without the line end. -/
def replyText (config : Config) (line : String) : String :=
  (Json.object (replyTo config line).fields).compact

/-- The value a request is known by. -/
def requestId (request : Json) : Json :=
  (request.field? "id").getD .null

theorem handle_id (config : Config) (request : Json) :
    (handle config request).1.id = requestId request := by
  simp only [handle]
  split <;> rfl

theorem readable_requestId {request : Json} (h : request.Readable) :
    (requestId request).Readable := by
  rw [requestId]
  cases hid : request.field? "id" with
  | none => trivial
  | some id =>
      cases request with
      | object fields => exact (Json.readable_object.1 h).2 ("id", id) (Table.mem_of_find? hid)
      | _ => cases hid

theorem readable_replyTo (config : Config) (line : String) :
    (Json.object (replyTo config line).fields).Readable := by
  apply Reply.readable
  rw [replyTo]
  split
  · rename_i request hrequest
    rw [handle_id]
    exact readable_requestId (Json.readable_of_decode hrequest)
  · trivial

/-! ## Lines -/

theorem stripped_blank {line : String} (h : isRequest line = false) : Text.stripped line = "" := by
  simpa [isRequest] using h

/-- A line is passed over, ends the session, or has its reply. -/
theorem answer?_cases (config : Config) (line : String) :
    (isRequest line = false ∧ isOverlong line = false ∧ answer? config line = none) ∨
    (isOverlong line = true ∧ ∃ trouble, answer? config line = some (.error trouble)) ∨
    (isRequest line = true ∧ isOverlong line = false ∧
      ∃ remarks, answer? config line = some (.ok (replyTo config line, remarks))) := by
  cases hrequest : isRequest line with
  | false =>
      have hblank := stripped_blank hrequest
      have hempty : isOverlong line = false := by
        rw [isOverlong, hblank]
        rfl
      exact .inl ⟨rfl, hempty, by simp [answer?, hblank]⟩
  | true =>
      have hne : Text.stripped line ≠ "" := by simpa [isRequest] using hrequest
      simp only [answer?, if_neg hne, isOverlong, replyTo]
      cases hdecode : Json.decode (Text.stripped line) with
      | ok request => exact .inr (.inr ⟨trivial, rfl, _, rfl⟩)
      | error e =>
          obtain ⟨problem, index, row, column⟩ := e
          cases problem with
          | tooManyDigits count => exact .inr (.inl ⟨rfl, _, rfl⟩)
          | _ => exact .inr (.inr ⟨trivial, rfl, _, rfl⟩)

/-- The lines that are answered: those with something on them, up to one that is refused. -/
def answered (lines : List String) : List String :=
  (lines.takeWhile fun line => !isOverlong line).filter isRequest

theorem takeWhile_short {lines : List String} (h : ∀ line ∈ lines, isOverlong line = false) :
    (lines.takeWhile fun line => !isOverlong line) = lines := by
  rw [List.takeWhile_eq_self_iff]
  intro line hline
  rw [h line hline]
  rfl

/-- Lines are answered in order up to one that is refused, which ends the session. -/
theorem answerLines_tells (config : Config) (lines : List String) (session : Session) :
    (answerLines config session lines).1.handled = session.handled + (answered lines).length ∧
    (answerLines config session lines).1.output = session.output ++
      String.join ((answered lines).map fun line => replyText config line ++ "\n") ∧
    ((answerLines config session lines).2 = .ok () ↔ ∀ line ∈ lines, isOverlong line = false) := by
  induction lines generalizing session with
  | nil => simp [answerLines, answered]
  | cons line rest ih =>
      rcases answer?_cases config line with ⟨hrequest, hshort, heq⟩ | ⟨hlong, trouble, heq⟩ |
        ⟨hrequest, hshort, remarks, heq⟩
      · have hanswered : answered (line :: rest) = answered rest := by
          simp [answered, hrequest, hshort]
        simp only [answerLines, heq, hanswered, List.forall_mem_cons, hshort, true_and]
        exact ih session
      · have hanswered : answered (line :: rest) = [] := by
          simp [answered, hlong]
        simp [answerLines, heq, hanswered, hlong]
      · have hanswered : answered (line :: rest) = line :: answered rest := by
          simp [answered, hrequest, hshort]
        obtain ⟨hhandled, houtput, hok⟩ := ih {
          handled := session.handled + 1
          output := session.output ++ (replyTo config line).line
          remarks := session.remarks ++ remarks }
        simp only [answerLines, heq, hanswered, List.forall_mem_cons, hshort, true_and]
        refine ⟨?_, ?_, hok⟩
        · rw [hhandled, List.length_cons]
          exact Nat.succ_add _ _
        · rw [houtput, List.map_cons, String.join_cons, String.append_assoc]
          rfl

/-- A text joined from lines has these lines, or one that is blank. -/
theorem attend_intercalate {lines : List String} (h : ∀ line ∈ lines, '\n' ∉ line.toList)
    (config : Config) :
    attend config (String.intercalate "\n" lines) = answerLines config {} lines := by
  cases hlines : lines with
  | nil =>
      have hblank : answer? config "" = none := rfl
      simp [attend, Text.splitAtChar, answerLines, hblank]
  | cons line rest =>
      have hpieces : ∀ piece ∈ lines.map String.toList, '\n' ∉ piece := by
        intro piece hpiece
        obtain ⟨line, hline, rfl⟩ := List.mem_map.1 hpiece
        exact h line hline
      have hsplit := Text.splitAtChar_intercalate (by simp [hlines]) hpieces
      have hfeed : "\n".toList = ['\n'] := rfl
      have hsame : ∀ line ∈ lines, (String.ofList ∘ String.toList) line = line :=
        fun line _ => String.ofList_toList
      rw [attend, ← hlines, String.toList_intercalate, hfeed, hsplit, List.map_map,
        List.map_congr_left hsame, List.map_id']

theorem serve_eq_ok_iff {config : Config} {input : String} {session : Session} :
    serve config input = .ok session ↔
      (attend config input).2 = .ok () ∧ session = (attend config input).1 := by
  rw [serve]
  cases (attend config input).2 with
  | error trouble => exact ⟨nofun, fun h => nomatch h.1⟩
  | ok u => exact ⟨fun h => ⟨rfl, (Except.ok.inj h).symm⟩, fun h => congrArg _ h.2.symm⟩

/-- A session is answered if and only if no line is refused for the length of an integer. -/
theorem serve_ok_iff {lines : List String} (h : ∀ line ∈ lines, '\n' ∉ line.toList)
    (config : Config) :
    (∃ session, serve config (String.intercalate "\n" lines) = .ok session) ↔
      ∀ line ∈ lines, isOverlong line = false := by
  rw [← (answerLines_tells config lines {}).2.2, ← attend_intercalate h config]
  simp only [serve_eq_ok_iff, exists_and_left, exists_eq, and_true]

/-! ## What is written -/

/-- The reply to a line stands on one line and reads back as what it is, and the value the
request is known by comes back with it. -/
structure Faithful (config : Config) (line : String) : Prop where
  /-- The reply has no control characters, and so no line end. -/
  onLine : Json.OnLine (replyText config line).toList
  /-- It reads back, numbers that are not whole as what their decimals mean. -/
  decodes : Json.decode (replyText config line) =
    .ok (Json.object (replyTo config line).fields).reread
  /-- If there are none, it reads back as it is. -/
  exact : (replyTo config line).id.isExact = true →
    Json.decode (replyText config line) = .ok (.object (replyTo config line).fields)
  /-- The reply to an object has the value under its `id`, or none. -/
  id : ∀ fields, Json.decode (Text.stripped line) = .ok (.object fields) →
    (requestId (.object fields)).isExact = true →
      ∃ reply, Json.decode (replyText config line) = .ok reply ∧
        reply.field? "id" = some (requestId (.object fields))

theorem faithful (config : Config) (line : String) : Faithful config line := by
  have hreadable := readable_replyTo config line
  have hdecodes := Json.decode_compact hreadable
  have hexact : (replyTo config line).id.isExact = true →
      Json.decode (replyText config line) = .ok (.object (replyTo config line).fields) := by
    intro hid
    rw [Json.reread_of_isExact (Reply.isExact hid)] at hdecodes
    exact hdecodes
  refine ⟨Json.onLine_compact hreadable, hdecodes, hexact, fun fields hfields hid => ?_⟩
  have heq : (replyTo config line).id = requestId (.object fields) := by
    rw [replyTo, hfields]
    exact handle_id config (.object fields)
  rw [← heq] at hid ⊢
  exact ⟨_, hexact hid, Reply.field?_id _⟩

/-- What a session leaves behind. -/
structure Answered (config : Config) (lines : List String) (session : Session) : Prop where
  /-- Each line that is not blank counts as a request. -/
  handled : session.handled = (lines.filter isRequest).length
  /-- The replies to these lines are written in their order, and nothing else. -/
  output : session.output =
    String.join ((lines.filter isRequest).map fun line => replyText config line ++ "\n")
  /-- Each of them is a line. -/
  pieces : Text.splitAtChar '\n' session.output.toList =
    (lines.filter isRequest).map (fun line => (replyText config line).toList) ++ [[]]
  /-- Each of them is faithful. -/
  faithful : ∀ line ∈ lines, isRequest line = true → Faithful config line

/-- There is no line end in a text without control characters. -/
theorem not_mem_of_onLine {text : List Char} (h : Json.OnLine text) : '\n' ∉ text :=
  fun hmem => absurd (h '\n' hmem) (by decide)

theorem pieces_of_replies (config : Config) (lines : List String) :
    Text.splitAtChar '\n'
        (String.join (lines.map fun line => replyText config line ++ "\n")).toList =
      lines.map (fun line => (replyText config line).toList) ++ [[]] := by
  have hpieces : ∀ piece ∈ lines.map fun line => (replyText config line).toList,
      '\n' ∉ piece := by
    intro piece hpiece
    obtain ⟨line, -, rfl⟩ := List.mem_map.1 hpiece
    exact not_mem_of_onLine (faithful config line).onLine
  rw [← Text.splitAtChar_flatMap hpieces, String.toList_join, List.flatMap_map, List.flatMap_map]
  simp only [String.toList_append]
  rfl

/-- Whatever becomes of a session, the lines before the one that ends it are answered. -/
theorem attend_answered {lines : List String} (h : ∀ line ∈ lines, '\n' ∉ line.toList)
    (config : Config) :
    Answered config (lines.takeWhile fun line => !isOverlong line)
      (attend config (String.intercalate "\n" lines)).1 := by
  obtain ⟨hhandled, houtput, -⟩ := answerLines_tells config lines {}
  rw [attend_intercalate h config]
  have hwritten : (answerLines config {} lines).1.output =
      String.join ((answered lines).map fun line => replyText config line ++ "\n") := by
    rw [houtput]
    exact String.empty_append
  refine ⟨hhandled.trans (Nat.zero_add _), hwritten, ?_, fun line _ _ => faithful config line⟩
  rw [hwritten]
  exact pieces_of_replies config _

theorem answered_of_serve {config : Config} {lines : List String}
    (h : ∀ line ∈ lines, '\n' ∉ line.toList) {session : Session}
    (hserve : serve config (String.intercalate "\n" lines) = .ok session) :
    Answered config lines session := by
  have hshort := (serve_ok_iff h config).1 ⟨session, hserve⟩
  obtain ⟨-, rfl⟩ := serve_eq_ok_iff.1 hserve
  have hanswered := attend_answered h config
  rwa [takeWhile_short hshort] at hanswered

/-! ## Integers that are too long -/

theorem trim_isInfix (cs : List Char) : Text.trim cs <:+: cs := by
  have hback : Text.trim cs <+: Text.trimStart cs := by
    have hsuffix := (List.dropWhile_suffix Text.isBlank : _ <:+ (Text.trimStart cs).reverse)
    rw [← List.reverse_prefix, List.reverse_reverse] at hsuffix
    exact hsuffix
  exact hback.isInfix.trans (List.dropWhile_suffix Text.isBlank).isInfix

/-- A line that is refused for the length of an integer has that many digits in a row. -/
theorem longRun_of_isOverlong {line : String} (h : isOverlong line = true) :
    ∃ count, Json.LongRun count line.toList := by
  rw [isOverlong] at h
  split at h
  · rename_i count index row column herror
    have hrun := Json.longRun_of_decode herror rfl
    rw [Text.stripped, String.toList_ofList] at hrun
    obtain ⟨run, hinfix, hall⟩ := hrun
    exact ⟨count, run, hinfix.trans (trim_isInfix _), hall⟩
  · cases h

theorem isBlank_digit {c : Char} (h : c.isDigit = true) : Text.isBlank c = false := by
  simp only [Char.isDigit, Bool.and_eq_true, decide_eq_true_eq] at h
  have hlow : '0'.toNat ≤ c.toNat := h.1
  have hhigh : c.toNat ≤ '9'.toNat := h.2
  have hzero : '0'.toNat = 48 := rfl
  have hnine : '9'.toNat = 57 := rfl
  simp only [Text.isBlank, Bool.or_eq_false_iff, Bool.and_eq_false_iff, decide_eq_false_iff_not,
    beq_eq_false_iff_ne]
  omega

theorem trimStart_digits {cs : List Char} (h : ∀ c ∈ cs, c.isDigit = true) :
    Text.trimStart cs = cs := by
  cases cs with
  | nil => rfl
  | cons c cs => simp [Text.trimStart, isBlank_digit (h c List.mem_cons_self)]

/-- A line that is one long integer is refused for it. -/
theorem isOverlong_digits {digits : List Char} (hdigits : ∀ c ∈ digits, c.isDigit = true)
    (hhead : digits.head? ≠ some '0') (hlong : Json.maxDigits < digits.length) :
    isOverlong (String.ofList digits) = true := by
  have hstripped : Text.stripped (String.ofList digits) = String.ofList digits := by
    rw [Text.stripped, String.toList_ofList, Text.trim, trimStart_digits hdigits,
      trimStart_digits fun c hc => hdigits c (List.mem_reverse.1 hc), List.reverse_reverse]
  rw [isOverlong, hstripped, Json.decode, String.toList_ofList,
    Json.decodeChars_long hdigits hhead hlong]

/-! ## All sessions -/

/-- **Every request is answered.**  Lines that are not blank are answered in order, each by
one line that depends on nothing but the request and the settings, reads back as the reply and
repeats the value under `id`; the session fails only if a line has more digits in a row than
an integer may have, and is refused for them, and by then the lines before it have been answered
in the same way. -/
theorem serve_answers_each_line (config : Config) (lines : List String)
    (h : ∀ line ∈ lines, '\n' ∉ line.toList) :
    ((∃ session, serve config (String.intercalate "\n" lines) = .ok session) ↔
      ∀ line ∈ lines, isOverlong line = false) ∧
    (∀ session, serve config (String.intercalate "\n" lines) = .ok session →
      Answered config lines session) ∧
    Answered config (lines.takeWhile fun line => !isOverlong line)
      (attend config (String.intercalate "\n" lines)).1 ∧
    ∀ line ∈ lines, isOverlong line = true → ∃ count, Json.LongRun count line.toList :=
  ⟨serve_ok_iff h config, fun _ hserve => answered_of_serve h hserve, attend_answered h config,
    fun _ _ hlong => longRun_of_isOverlong hlong⟩

/-- A blank line, a request without a program and a line that is no request. -/
theorem serve_answers_each_line_mixed :
    (∀ line ∈ ["  ", "\x7b\"id\": [7, \"a\\n\"], \"code\": 1\x7d", "x"], '\n' ∉ line.toList) ∧
    ∃ session, serve {} (String.intercalate "\n"
        ["  ", "\x7b\"id\": [7, \"a\\n\"], \"code\": 1\x7d", "x"]) = .ok session ∧
      session.handled = 2 ∧
      ∃ reply, Json.decode (replyText {} "\x7b\"id\": [7, \"a\\n\"], \"code\": 1\x7d") = .ok reply ∧
        reply.field? "id" = some (.array [.int 7, .text "a\n"]) := by
  have hbreak : ∀ line ∈ ["  ", "\x7b\"id\": [7, \"a\\n\"], \"code\": 1\x7d", "x"],
      '\n' ∉ line.toList := by decide
  obtain ⟨hiff, hanswered, -, -⟩ := serve_answers_each_line {} _ hbreak
  obtain ⟨session, hsession⟩ := hiff.2 (by decide +kernel)
  have hsaid := hanswered session hsession
  have hrequest : Json.decode (Text.stripped "\x7b\"id\": [7, \"a\\n\"], \"code\": 1\x7d") =
      .ok (.object [("id", .array [.int 7, .text "a\n"]), ("code", .int 1)]) := by rfl
  exact ⟨hbreak, session, hsession, hsaid.handled.trans (by decide +kernel),
    (hsaid.faithful _ (by simp) (by decide +kernel)).id _ hrequest rfl⟩

/-- A line that is one integer with 4301 digits ends the session: neither it nor the request
behind it is answered. -/
theorem serve_stops_at_integer :
    (∀ line ∈ [String.ofList (List.replicate 4301 '1'), "\x7b\"code\": \"a\", \"id\": 7\x7d"],
      '\n' ∉ line.toList) ∧
    isRequest "\x7b\"code\": \"a\", \"id\": 7\x7d" = true ∧
    (∀ session, serve {} (String.intercalate "\n"
      [String.ofList (List.replicate 4301 '1'), "\x7b\"code\": \"a\", \"id\": 7\x7d"]) ≠
        .ok session) ∧
    (attend {} (String.intercalate "\n"
      [String.ofList (List.replicate 4301 '1'), "\x7b\"code\": \"a\", \"id\": 7\x7d"])).1.output =
        "" := by
  have hdigits : ∀ c ∈ List.replicate 4301 '1', c.isDigit = true ∧ c ≠ '\n' := by
    intro c hc
    rw [List.eq_of_mem_replicate hc]
    decide
  have hbreak : ∀ line ∈
      [String.ofList (List.replicate 4301 '1'), "\x7b\"code\": \"a\", \"id\": 7\x7d"],
      '\n' ∉ line.toList := by
    refine List.forall_mem_cons.2 ⟨?_, by decide⟩
    rw [String.toList_ofList]
    exact fun hmem => (hdigits '\n' hmem).2 rfl
  have hlong : isOverlong (String.ofList (List.replicate 4301 '1')) = true :=
    isOverlong_digits (fun c hc => (hdigits c hc).1) (by simp)
      (by rw [List.length_replicate]; decide)
  refine ⟨hbreak, by decide +kernel, fun session hsession => ?_, ?_⟩
  · have hshort := (serve_ok_iff hbreak {}).1 ⟨session, hsession⟩ _ List.mem_cons_self
    rw [hlong] at hshort
    cases hshort
  · rw [(attend_answered hbreak {}).output, List.takeWhile_cons_of_neg
      (by rw [hlong]; exact Bool.false_ne_true)]
    rfl

end Requests
end NameRecovery
