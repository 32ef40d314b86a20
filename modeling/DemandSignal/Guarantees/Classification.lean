import DemandSignal.Simulation
import DemandSignal.Spec.Classification
import DemandSignal.Spec.Confidence
import DemandSignal.Spec.Parsing

/-!
# Classifying a text
-/

namespace DemandSignal

open Txn Interpret

variable {app : App} {event : Event} {L : Ledger Db Write} {text : String}

/-! ### The parser -/

/-- **The parser recovers the object a completion wraps**: any rendering of it, the compact one among
them, after a text without an opening brace and before a text without a closing one. Whatever the
completion is, the fields returned are those its slice between the first opening and the last closing
brace reads as. -/
theorem parseClassification_exact :
    (∀ fields front text back, '\x7b' ∉ front → '\x7d' ∉ back → Renders app.number fields text →
      parseClassification app (String.ofList (front ++ text ++ back)) = .ok fields) ∧
    (∀ fields, Json.Loaded app.number (.obj fields) →
      Renders app.number fields (Json.dumps (.obj fields))) ∧
    ∀ content, (∃ message, parseClassification app content = .error message) ∨
      ∃ fields front text back, parseClassification app content = .ok fields ∧
        content.toList = front ++ text ++ back ∧ '\x7b' ∉ front ∧ '\x7d' ∉ back ∧
        Renders app.number fields text := by
  refine ⟨fun fields front text back hfront hback htext => ?_, fun fields => renders_dumps,
    fun content => ?_⟩
  · exact parseClassification_eq_ok_iff.mpr
      ⟨front, text, back, String.toList_ofList, hfront, hback, htext⟩
  · cases hparse : parseClassification app content with
    | error message => exact .inl ⟨message, rfl⟩
    | ok fields =>
        obtain ⟨front, text, back, h⟩ := parseClassification_eq_ok_iff.mp hparse
        exact .inr ⟨fields, front, text, back, rfl, h⟩

/-- An object with braces in its strings, between two remarks with braces of the other kind. -/
theorem parseClassification_exact_wrapped :
    parseClassification shipped
      "\x7d Sure: \x7b \"label\": \"other\", \"reason\": \"a \x7d b \x7b\" \x7d \x7b" =
      .ok [("label", .str "other"), ("reason", .str "a \x7d b \x7b")] :=
  parseClassification_exact.1 _ "\x7d Sure: ".toList
    "\x7b \"label\": \"other\", \"reason\": \"a \x7d b \x7b\" \x7d".toList " \x7b".toList
    (by decide) (by decide) ⟨rfl, rfl, by decide +kernel⟩

/-! ### The retries -/

/-- A run of a classification alone that makes `calls` calls, answered by the outcomes in turn. -/
def AnsweredBy (app : App) (event : Event) (outcomes : ℕ → Reply) (L : Ledger Db Write) (calls : ℕ)
    (r : Except Error (Option Interpretation)) (L' : Ledger Db Write) : Prop :=
  ∃ s s' : Session Write Reply, s.pending = [] ∧ Runs {} s L (classifyEvent app event) r s' L' ∧
    s'.replies = s.replies ++ (List.range calls).map outcomes

theorem AnsweredBy.heard {outcomes : ℕ → Reply} {calls : ℕ} {r : Except Error (Option Interpretation)}
    {L' : Ledger Db Write} (h : AnsweredBy app event outcomes L calls r L')
    (hevent : event ∈ L.db .events) (htext : extractText event = some text) :
    Spent app event ((List.range calls).map outcomes) ∧
      Classifies app L event ((List.range calls).map outcomes) r L' := by
  obtain ⟨s, s', hs, hrun, hreplies⟩ := h
  obtain ⟨heard, hheard, hspent, hclassifies⟩ := runs_classifyEvent hs hevent htext hrun
  rw [hreplies, List.append_cancel_left_eq] at hheard
  rw [hheard]
  exact ⟨hspent, hclassifies⟩

/-- **The retries are bounded and exact**: no call for a short text; else as many as it takes to an
outcome that is no transient failure, within the budget, and that outcome decides what is stored, just
when what it comes to can be written to the database. -/
theorem classifyEvent_bounded (hdistinct : L.db.Distinct) (hevent : event ∈ L.db .events)
    (htext : extractText event = some text) (outcomes : ℕ → Reply) :
    (countTokens text < app.interpretMinTokens →
      ∀ calls r L', AnsweredBy app event outcomes L calls r L' → calls = 0 ∧
        StoresInterpretation event (skipped app (countTokens text)) r L') ∧
    (¬ countTokens text < app.interpretMinTokens →
      ∃ k, DecidedAt app app.retryMaxAttempts outcomes k ∧
        (∃ calls r L', AnsweredBy app event outcomes L calls r L') ∧
        ((∀ calls r L', AnsweredBy app event outcomes L calls r L' →
          DecidesBy app event (outcomes (k - 1)) L k calls r L') ↔
          Recordable app (outcomes (k - 1)) = true)) := by
  refine ⟨fun hshort calls r L' h => ?_, fun hlong => ?_⟩
  · obtain ⟨hspent, hclassifies⟩ := h.heard hevent htext
    have hnone : (List.range calls).map outcomes = [] := hspent.eq_nil htext hshort
    exact ⟨by simpa using hnone, hclassifies.stores_skipped hdistinct htext hshort⟩
  · obtain ⟨k, r, s', L', hdecided, hrun, hreplies, hraises⟩ :=
      exists_runs_classifyEvent (s := {}) rfl hevent htext hlong outcomes
    have hfollows : AnsweredBy app event outcomes L k r L' := ⟨{}, s', rfl, hrun, hreplies⟩
    refine ⟨k, hdecided, ⟨k, r, L', hfollows⟩, fun hall => ?_, fun hrecordable => ?_⟩
    · by_contra hunrecordable
      have hr := hraises (by simpa using hunrecordable)
      have hdecides := hall k r L' hfollows
      cases hresult : callResult app (outcomes (k - 1)) with
      | ok result =>
          obtain ⟨interpretation, hok, -⟩ := hdecides.success result hresult
          rw [hr] at hok
          cases hok
      | error error =>
          have hok := (hdecides.failure error hresult).raises
          rw [hr] at hok
          cases hok
    · intro calls r L' h
      obtain ⟨hspent, hclassifies⟩ := h.heard hevent htext
      obtain rfl := (hspent.tried htext hlong).decidedAt.unique hdecided
      have hlast : ((List.range calls).map outcomes).getLast? = some (outcomes (calls - 1)) := by
        rw [map_range_eq_append hdecided.pos, List.getLast?_concat]
      have hdecides := hclassifies.decidesBy hdistinct htext hlong hlast hrecordable
      rwa [List.length_map, List.length_range] at hdecides

/-- The event of a web form with the message. -/
def formEvent (message : String) : Event where
  id := 1
  externalEventId := "1"
  source := "web_form"
  dedupeKey := some "1"
  payloadHash := "1"
  schemaVersion := "1.0"
  campaignId := none
  identityFields := none
  rawPayload := texts [("message", message)]
  consent := false
  receivedAt := 0
  isValid := true
  createdAt := 0

def formLedger (message : String) : Ledger Db Write := ⟨{ events := [formEvent message] }, []⟩

theorem distinct_formLedger (message : String) : (formLedger message).db.Distinct := by
  intro t
  cases t <;> first | exact .nil | exact List.pairwise_singleton _ _

/-- A timeout, and then the answers of the classifier. -/
def afterTimeout (content : String) : ℕ → Reply
  | 0 => .failed true "timeout"
  | _ => .completion content none

def otherReply (reason : String) : String :=
  Python.concat ["\x7b\"label\": \"other\", \"confidence\": 0.5, \"reason\": \"", reason, "\"\x7d"]

theorem extractText_hi : extractText (formEvent "hi") = some "hi" := by decide +kernel

theorem extractText_pricing :
    extractText (formEvent "what does it cost") = some "what does it cost" := by decide +kernel

theorem classifyEvent_bounded_afterTimeout :
    (∀ calls r L', AnsweredBy shipped (formEvent "hi") (afterTimeout (otherReply "a question"))
      (formLedger "hi") calls r L' → calls = 0 ∧
        StoresInterpretation (formEvent "hi") (skipped shipped (countTokens "hi")) r L') ∧
    ∃ k, DecidedAt shipped 3 (afterTimeout (otherReply "a question")) k ∧
      (∃ calls r L', AnsweredBy shipped (formEvent "what does it cost")
        (afterTimeout (otherReply "a question")) (formLedger "what does it cost") calls r L') ∧
      ((∀ calls r L', AnsweredBy shipped (formEvent "what does it cost")
          (afterTimeout (otherReply "a question")) (formLedger "what does it cost") calls r L' →
        DecidesBy shipped (formEvent "what does it cost") (afterTimeout (otherReply "a question") (k - 1))
          (formLedger "what does it cost") k calls r L') ↔
        Recordable shipped (afterTimeout (otherReply "a question") (k - 1)) = true) :=
  ⟨(classifyEvent_bounded (distinct_formLedger "hi") (List.mem_singleton_self _) extractText_hi
      (afterTimeout (otherReply "a question"))).1 (by decide +kernel),
    (classifyEvent_bounded (distinct_formLedger "what does it cost") (List.mem_singleton_self _)
      extractText_pricing (afterTimeout (otherReply "a question"))).2 (by decide +kernel)⟩

/-- A well-formed answer with a `U+0000` in its reason is neither stored nor dead-lettered. -/
theorem classifyEvent_not_bounded :
    ¬ ∀ (app : App) (event : Event) (L : Ledger Db Write) (text : String) (outcomes : ℕ → Reply),
      L.db.Distinct → event ∈ L.db .events → extractText event = some text →
      ¬ countTokens text < app.interpretMinTokens →
      ∃ k, DecidedAt app app.retryMaxAttempts outcomes k ∧
        ∀ calls r L', AnsweredBy app event outcomes L calls r L' →
          DecidesBy app event (outcomes (k - 1)) L k calls r L' := by
  intro hall
  have hlong : ¬ countTokens "what does it cost" < shipped.interpretMinTokens := by decide +kernel
  have hmem : formEvent "what does it cost" ∈ (formLedger "what does it cost").db .events :=
    List.mem_singleton_self _
  obtain ⟨k, r, s', L', hdecided, hrun, hreplies, hraises⟩ := exists_runs_classifyEvent (s := {})
    rfl hmem extractText_pricing hlong (fun _ => .completion (otherReply "\\u0000") none)
  obtain ⟨k', hdecided', hdecides⟩ := hall shipped _ _ _
    (fun _ => .completion (otherReply "\\u0000") none) (distinct_formLedger _) hmem
    extractText_pricing hlong
  have hunrecordable : Recordable shipped (.completion (otherReply "\\u0000") none) = false := by
    decide +kernel
  have hsuccess : ∃ result,
      callResult shipped (.completion (otherReply "\\u0000") none) = .ok result := by
    have hok : (callResult shipped (.completion (otherReply "\\u0000") none)).toOption.isSome =
        true := by decide +kernel
    cases hresult : callResult shipped (.completion (otherReply "\\u0000") none) with
    | ok result => exact ⟨result, rfl⟩
    | error error =>
        rw [hresult] at hok
        cases hok
  obtain ⟨result, hresult⟩ := hsuccess
  obtain ⟨interpretation, hok, -⟩ := (hdecides k r L' ⟨{}, s', rfl, hrun, hreplies⟩).success result
    hresult
  rw [hraises hunrecordable] at hok
  cases hok

/-! ### The confidence -/

/-- Whatever interpretation a classification answered by the reply stores, its confidence lies between
zero and one and only lowers the score of its label. -/
def OnlyLowers (app : App) (policy : ScoringPolicy) (event : Event) (reply : Reply)
    (L : Ledger Db Write) : Prop :=
  ∀ outcomes calls interpretation L', outcomes (calls - 1) = reply →
    AnsweredBy app event outcomes L calls (.ok (some interpretation)) L' →
    interpretation.confidence.InUnit ∧
      Scoring.Lowers policy interpretation.label interpretation.confidence

/-- What is stored for an answer is what the answer is read as. -/
theorem AnsweredBy.stored {outcomes : ℕ → Reply} {calls : ℕ} {interpretation : Interpretation}
    {L' : Ledger Db Write} {result : Json.Fields × Option Usage}
    (h : AnsweredBy app event outcomes L calls (.ok (some interpretation)) L')
    (hevent : event ∈ L.db .events) (htext : extractText event = some text)
    (hlong : ¬ countTokens text < app.interpretMinTokens)
    (hresult : callResult app (outcomes (calls - 1)) = .ok result) :
    (classified app result).storable = true ∧
      (classified app result).edit interpretation = interpretation := by
  obtain ⟨hspent, hclassifies⟩ := h.heard hevent htext
  have hlast : ((List.range calls).map outcomes).getLast? = some (outcomes (calls - 1)) := by
    rw [map_range_eq_append (hspent.tried htext hlong).decidedAt.pos, List.getLast?_concat]
  generalize hr : Except.ok (some interpretation) = r at hclassifies
  cases hclassifies with
  | stored hfields hinterprets =>
      obtain rfl := Option.some_injective _ (Except.ok.inj hr)
      obtain ⟨result', hresult', rfl⟩ := hfields.eq_classified htext hlong hlast
      obtain rfl := Except.ok.inj (hresult'.symm.trans hresult)
      have hedit := hinterprets.edit_eq
      cases hinterprets with
      | intro _ hstorable => exact ⟨hstorable, hedit⟩
  | dead => cases hr
  | alreadyDead => cases hr
  | unstorable => cases hr
  | badMessage => cases hr

/-- **A confidence only lowers a score** just when the answer is not stored for another reason, or the
number it gives is harmless. -/
theorem classifyEvent_onlyLowers {policy : ScoringPolicy}
    (hnonneg : ∀ entry ∈ policy.labelScores, ∀ score ∈ entry.2, 0 ≤ score)
    (hdistinct : L.db.Distinct) (hevent : event ∈ L.db .events)
    (htext : extractText event = some text) (hlong : ¬ countTokens text < app.interpretMinTokens)
    {reply : Reply} {result : Json.Fields × Option Usage}
    (hresult : callResult app reply = .ok result) :
    OnlyLowers app policy event reply L ↔
      Python.storable (label app result.1) = false ∨ Python.storable (reason app result.1) = false ∨
        Scoring.Harmless policy (label app result.1)
          (Decimal.denotes app.digit (str app result.1 "confidence" "0")) := by
  rw [← Scoring.harmless_iff hnonneg (Decimal.quantizes_denotes _ _), ← confidence]
  have hstorable : (classified app result).storable = true ↔
      Python.storable (label app result.1) = true ∧ Python.storable (reason app result.1) = true ∧
        (confidence app result.1).fits = true := by
    simp only [Classified.storable, classified, Bool.and_eq_true, and_assoc]
  constructor
  · intro h
    by_contra hnot
    simp only [not_or, Bool.not_eq_false] at hnot
    obtain ⟨hlabel, hreason, hnot⟩ := hnot
    refine hnot fun hfits => ?_
    have hrecordable : Recordable app reply = true := by
      rw [Recordable, hresult]
      exact hstorable.mpr ⟨hlabel, hreason, hfits⟩
    obtain ⟨k, r, s', L', hdecided, hrun, hreplies, -⟩ :=
      exists_runs_classifyEvent (s := {}) rfl hevent htext hlong fun _ => reply
    have hfollows : AnsweredBy app event (fun _ => reply) L k r L' := ⟨{}, s', rfl, hrun, hreplies⟩
    obtain ⟨-, hclassifies⟩ := hfollows.heard hevent htext
    have hlast : ((List.range k).map fun _ => reply).getLast? = some reply := by
      rw [map_range_eq_append hdecided.pos, List.getLast?_concat]
    obtain ⟨interpretation, rfl, -, -, hedit⟩ :=
      (hclassifies.decidesBy hdistinct htext hlong hlast hrecordable).success result hresult
    have hlowers := h (fun _ => reply) k interpretation L' rfl hfollows
    rw [← hedit] at hlowers
    exact hlowers
  · rintro h outcomes calls interpretation L' rfl hfollows
    obtain ⟨hstored, hedit⟩ := hfollows.stored hevent htext hlong hresult
    obtain ⟨hlabel, hreason, hfits⟩ := hstorable.mp hstored
    rw [← hedit]
    obtain hlabel' | hreason' | hlowers := h
    · exact absurd (hlabel.symm.trans hlabel') (by decide)
    · exact absurd (hreason.symm.trans hreason') (by decide)
    · exact hlowers hfits

/-- A completion that gives only a label and a confidence, as text. -/
def ratedReply (confidence : String) : Reply :=
  .completion (Python.concat
    ["\x7b\"label\": \"pricing_inquiry\", \"confidence\": \"", confidence, "\"\x7d"]) none

theorem callResult_completion {content : String} {fields : Json.Fields} {usage : Option Usage}
    (h : parseClassification app content = .ok fields) :
    callResult app (.completion content usage) = .ok (fields, usage) := by
  rw [callResult, h]

theorem callResult_half : callResult shipped (ratedReply "0.5") =
    .ok ([("label", .str "pricing_inquiry"), ("confidence", .str "0.5")], none) :=
  callResult_completion (by decide +kernel)

theorem callResult_over : callResult shipped (ratedReply "1.5") =
    .ok ([("label", .str "pricing_inquiry"), ("confidence", .str "1.5")], none) :=
  callResult_completion (by decide +kernel)

theorem classifyEvent_onlyLowers_half :
    OnlyLowers shipped scoringPolicyV1 (formEvent "what does it cost") (ratedReply "0.5")
        (formLedger "what does it cost") ↔
      Python.storable "pricing_inquiry" = false ∨ Python.storable "" = false ∨
        Scoring.Harmless scoringPolicyV1 "pricing_inquiry" (Decimal.denotes shipped.digit "0.5") :=
  classifyEvent_onlyLowers (by decide) (distinct_formLedger _) (List.mem_singleton_self _)
    extractText_pricing (by decide +kernel) callResult_half

/-- A confidence of one and a half is stored, and takes the score of its label above itself. -/
theorem classifyEvent_not_onlyLowers :
    ¬ ∀ (app : App) (policy : ScoringPolicy) (event : Event) (reply : Reply) (L : Ledger Db Write),
      (∀ entry ∈ policy.labelScores, ∀ score ∈ entry.2, 0 ≤ score) → L.db.Distinct →
      event ∈ L.db .events → OnlyLowers app policy event reply L := by
  intro hall
  have hmem : formEvent "what does it cost" ∈ (formLedger "what does it cost").db .events :=
    List.mem_singleton_self _
  have hlong : ¬ countTokens "what does it cost" < shipped.interpretMinTokens := by decide +kernel
  obtain ⟨k, r, s', L', hdecided, hrun, hreplies, -⟩ := exists_runs_classifyEvent (s := {})
    rfl hmem extractText_pricing hlong fun _ => ratedReply "1.5"
  have hfollows : AnsweredBy shipped (formEvent "what does it cost") (fun _ => ratedReply "1.5")
    (formLedger "what does it cost") k r L' := ⟨{}, s', rfl, hrun, hreplies⟩
  obtain ⟨-, hclassifies⟩ := hfollows.heard hmem extractText_pricing
  have hlast : ((List.range k).map fun _ => ratedReply "1.5").getLast? = some (ratedReply "1.5") := by
    rw [map_range_eq_append hdecided.pos, List.getLast?_concat]
  obtain ⟨interpretation, rfl, -, -, hedit⟩ :=
    (hclassifies.decidesBy (distinct_formLedger _) extractText_pricing hlong hlast
      (by decide +kernel)).success _ callResult_over
  have hlowers := hall shipped scoringPolicyV1 _ _ _ (by decide) (distinct_formLedger _) hmem
    (fun _ => ratedReply "1.5") k interpretation L' rfl hfollows
  have hconfidence : interpretation.confidence = .hundredths 150 :=
    (congrArg Interpretation.confidence hedit).symm.trans
      (by decide +kernel : confidence shipped
        [("label", .str "pricing_inquiry"), ("confidence", .str "1.5")] = .hundredths 150)
  have hunit := hlowers.1
  rw [hconfidence] at hunit
  exact absurd hunit.2 (by decide)

end DemandSignal
