import DemandSignal.System
import DemandSignal.Txn.Interpreter
import DemandSignal.Txn.Sequence

/-!
# Simulation

Scripts of requests, run one after another by the interpreter, and the shipped configuration over
ASCII text.
-/

namespace DemandSignal

open Txn

/-- A request, the clock readings and the replies while it is served. -/
structure Turn where
  request : Request
  clock : Nat → Time
  reply : Question → Reply

/-- The visit of one turn. -/
def Turn.visit (app : App) (turn : Turn) (L : Ledger Db Write) :
    Visit Request Db Write Error Reply Response :=
  let run := exec ⟨turn.clock, fun _ => turn.reply⟩ (handle app turn.request) {} L 0
  ⟨turn.request, L, run.1, run.2.1, run.2.2.1⟩

/-- The visits of a script. -/
def simulate (app : App) : List Turn → Ledger Db Write → List (Visit Request Db Write Error Reply Response)
  | [], _ => []
  | turn :: turns, L => turn.visit app L :: simulate app turns (turn.visit app L).after

/-- The ledger a script leaves. -/
def outcome (app : App) (turns : List Turn) (L : Ledger Db Write) : Ledger Db Write :=
  turns.foldl (fun L turn => (turn.visit app L).after) L

theorem Turn.visit_runs (app : App) (turn : Turn) (L : Ledger Db Write) :
    Runs ((service app).solo turn.request) {} L (handle app turn.request) (turn.visit app L).result
      (turn.visit app L).session (turn.visit app L).after :=
  exec_runs _ (fun _ => id) (fun _ => id) (fun _ _ _ => trivial) (fun _ _ => trivial) _ _ _ _

/-- **The simulation serves the script.** -/
theorem simulate_served (app : App) (turns : List Turn) :
    Served (service app) emptyLedger (simulate app turns emptyLedger)
      (outcome app turns emptyLedger) := by
  have hserved : ∀ (turns : List Turn) visits L, Served (service app) emptyLedger visits L →
      Served (service app) emptyLedger (visits ++ simulate app turns L) (outcome app turns L) := by
    intro turns
    induction turns with
    | nil =>
        intro visits L h
        rwa [simulate, List.append_nil]
    | cons turn turns ih =>
        intro visits L h
        rw [simulate, List.append_cons]
        exact ih _ _ (h.snoc (turn.visit_runs app L))
  exact hserved turns [] emptyLedger .nil

/-- A request can always be served. -/
theorem exists_served (app : App) (request : Request) (L : Ledger Db Write) :
    ∃ r s' L', Runs ((service app).solo request) {} L (handle app request) r s' L' := by
  have hanswers : ∀ q : Question, ∃ reply : Reply, (service app).Answers q reply :=
    fun _ => ⟨.failed false "", trivial⟩
  exact exists_run (fun _ => id) (fun _ => id) (fun _ _ _ => trivial) hanswers _ _ _

/-! ### The shipped configuration over ASCII text -/

def firstDay : String := "2026-01-01T00:00:00Z"

def secondDay : String := "2026-01-02T00:00:00Z"

def quoted (text : String) : String := Python.concat ["\"", text, "\""]

/-- The canonical text of fields in the order of their keys. -/
def canonicalObject (fields : List (String × String)) : String :=
  Python.concat (["\x7b"] ++ ((fields.map fun field =>
    Python.concat [quoted field.1, ":", field.2]).intersperse ",") ++ ["\x7d"])

def canonicalText (fields : List (String × String)) : String :=
  canonicalObject (fields.map fun field => (field.1, quoted field.2))

def formText (externalEventId receivedAt message : String) : String :=
  canonicalText [("email", "ada@example.com"), ("external_event_id", externalEventId),
    ("message", message), ("received_at", receivedAt), ("source", "web_form")]

/-- The digests of the texts that scripts hash. -/
def digests : List (String × String) :=
  [(formText "1" firstDay "hi",
      "ab2fef5ce6bd9ba13a180f9114cbdb231d6b06a020876dedc8f9b6da2d7e6e94"),
    (formText "1" firstDay "what does it cost",
      "aec9f376531eb8aaf9d40c613351110dea17285ed86a2d7d3142794195f6df10"),
    (formText "2" secondDay "hi",
      "44f5b156423cd4e2e29c92c796d399c74ab39968c45e1c40c4af22529f7454c7"),
    (canonicalText [("email", "bob@example.com"), ("external_event_id", "2"), ("message", "hi"),
      ("received_at", firstDay), ("source", "web_form")],
      "a4d21a81060a946df3c95ead5c659767258e41a58c531c24ade9feab78761739"),
    (canonicalText [("external_event_id", "3"), ("received_at", firstDay), ("source",
      "email_engagement")],
      "8f44eec1e7e27cc849137c2a03885816379b18ad4d1236b1a2bc92392f1a8e16"),
    (canonicalText [("email", "ada@example.com"), ("external_event_id", "3"), ("received_at",
      firstDay), ("source", "email_engagement")],
      "b12da7d894c2f0461770143d2130c75305b9d797e6a6326077f5fc2799049e92"),
    (canonicalText [("email", "bob@example.com"), ("external_event_id", "3"), ("received_at",
      firstDay), ("source", "email_engagement")],
      "5bc5a65444bc3bb31042855087e37d94730be5a65f8ecb31cda0c19ea6cb6b0d"),
    (canonicalObject [("body", "true"), ("email", quoted "ada@example.com"), ("external_event_id",
      quoted "1"), ("received_at", quoted firstDay), ("source", quoted "web_form")],
      "1e51e5c7bde93dbb717a86bb380b2ff63e5244b42a44ff51dfa9de0399c839d3"),
    (formText "1" secondDay "hi",
      "c48ec5af57115fe488b3b3023e96302a709d4e5bf2a4aa2f2877d2a4338988e3"),
    (formText "2" firstDay "hi",
      "d209a59cfd84da4b3857e4b27055db2cd5290e0ccbd0e96be20964af32578606"),
    (canonicalText [("display_name", "Ada"), ("external_event_id", "4"), ("received_at",
      firstDay), ("source", "social_mention"), ("text", "hi")],
      "30e28cc8486643a5070d6044bbf7f6fb660ad895044ddaabb392e6fed8e1628b"),
    (canonicalText [("display_name", "Ada"), ("external_event_id", "5"), ("received_at",
      firstDay), ("source", "social_mention"), ("text", "hi")],
      "8ff16c01d11f8427d33018940ffeea7dcde23d7c8b47118721f8e992f37f8c3f"),
    (canonicalText [("email", "ada@example.com"), ("external_event_id", "1"), ("message", "hi"),
      ("phone", "5550001111"), ("received_at", firstDay), ("source", "web_form")],
      "e46f38fa2fc6ec45e66ee70e1a1593b6748b52d5e74088e264f219520e58c8bd"),
    (canonicalText [("external_event_id", "2"), ("message", "hi"), ("phone", "5550001111"),
      ("received_at", firstDay), ("source", "web_form")],
      "4d1eb95277448e46aa6347a0e88bb105f87f7e2103cea1ec4ad872e297f5b0e5"),
    ("web_form|1", "27624e74342fc8a8979f83d3aeb73dce6fb5a5945455e1f83b02f40fc57c3c4a"),
    ("web_form|2", "45820e8597594806e5c72c9db1d7498a44d40ad8fe58d946c238131a1949cac7"),
    ("email_engagement|3", "a5bb8b136be2e6ef411a9f10c6ca7202ac98b9f8ae524a17ee002b626b9a594b"),
    ("social_mention|4", "39cabb7212452aa191d1c61ce71f57feefadc93ca6d09543a5986f39d0ec9fe8"),
    ("social_mention|5", "07ad7b100a1576b4615b3d78023a8afb9fdbee7b71472004dbcc15b05fbfe554")]

/-- The functions of the runtime and of the third-party packages, on the values scripts use. -/
def asciiPlatform : Platform where
  sha256 text := (digests.lookup text).getD text
  lower text := String.ofList (text.toList.map Decimal.lowerAscii)
  digit c := if c.isDigit then some (c.toNat - '0'.toNat) else none
  number := Numeral.ofText
  container value := String.ofList (Json.dumps value)
  repr text := Python.concat ["'", text, "'"]
  fromisoformat _ := none
  datetime value :=
    match value with
    | .str text => [(firstDay, 1767225600000000), (secondDay, 1767312000000000)].lookup text
    | _ => none
  boolean value :=
    match value with
    | .bool b => some b
    | _ => none
  emailStr := some
  message _ := "invalid"

def shipped : App :=
  { asciiPlatform with
    identityPolicy := identityPolicyV1
    scoringPolicy := scoringPolicyV1
    routingRules := routingRulesV1 }

/-! ### The digests by buckets

Two requests with different keys make a script look up their digests, which compares long texts. The
same table in buckets is looked up faster.
-/

/-- The bucket of the text that `n` is the bucket of and this one after it. -/
def bucketFrom (n : Nat) (text : String) : Nat :=
  text.toByteArray.data.toList.foldl (fun n byte => (31 * n + byte.toNat) % 1009) n

/-- The buckets of `digests`. -/
def buckets : List Nat :=
  [204, 416, 956, 291, 102, 947, 801, 901, 586, 574, 649, 1003, 216, 840, 766, 767, 536, 258, 259]

def lookupDigest (text : String) : Option String :=
  (((buckets.zip digests).filter fun entry => entry.1 = bucketFrom 0 text).map Prod.snd).lookup text

def bucketed : App :=
  { shipped with sha256 := fun text => (lookupDigest text).getD text }

theorem bucketFrom_concat (n : Nat) (parts : List String) :
    bucketFrom n (Python.concat parts) = parts.foldl bucketFrom n := by
  induction parts generalizing n with
  | nil => rfl
  | cons part parts ih =>
      rw [List.foldl_cons, ← ih]
      simp [bucketFrom, Python.concat, List.utf8Encode]

/-- The bucket of a canonical text, without the text. -/
def objectBucket (fields : List (String × String)) : Nat :=
  bucketFrom (((fields.map fun field => [quoted field.1, ":", field.2]).intersperse [","]).foldl
    (fun n parts => parts.foldl bucketFrom n) (bucketFrom 0 "\x7b")) "\x7d"

theorem bucketFrom_canonicalObject (fields : List (String × String)) :
    bucketFrom 0 (canonicalObject fields) = objectBucket fields := by
  have hfields : ∀ (fields : List (String × String)) n,
      ((fields.map fun field => Python.concat [quoted field.1, ":", field.2]).intersperse ",").foldl
        bucketFrom n =
      ((fields.map fun field => [quoted field.1, ":", field.2]).intersperse [","]).foldl
        (fun n parts => parts.foldl bucketFrom n) n := by
    intro fields
    induction fields with
    | nil => exact fun n => rfl
    | cons field fields ih =>
        intro n
        cases fields with
        | nil => simp [bucketFrom_concat]
        | cons next fields =>
            simp only [List.map_cons, List.intersperse_cons_cons, List.foldl_cons, bucketFrom_concat]
            exact ih _
  rw [canonicalObject, bucketFrom_concat, List.foldl_append, List.foldl_append, hfields]
  rfl

theorem buckets_eq : buckets = digests.map fun entry => bucketFrom 0 entry.1 := by
  simp only [digests, formText, canonicalText, List.map_cons, List.map_nil, bucketFrom_canonicalObject]
  decide +kernel

/-- Only the entries with the tag of the key can be found. -/
theorem lookup_filter_tag {α β γ : Type} [DecidableEq α] [DecidableEq γ] (tag : α → γ)
    (entries : List (α × β)) (key : α) :
    ((((entries.map fun entry => tag entry.1).zip entries).filter fun entry =>
      entry.1 = tag key).map Prod.snd).lookup key = entries.lookup key := by
  induction entries with
  | nil => rfl
  | cons entry entries ih =>
      rw [List.map_cons, List.zip_cons_cons, List.filter_cons, List.lookup_cons]
      by_cases htag : tag entry.1 = tag key
      · rw [if_pos (decide_eq_true htag), List.map_cons, List.lookup_cons, ih]
      · have hkey : (key == entry.1) = false := beq_false_of_ne fun h => htag (congrArg tag h.symm)
        rw [if_neg (by simpa using htag), ih, hkey]

theorem lookupDigest_eq (text : String) : lookupDigest text = digests.lookup text := by
  rw [lookupDigest, buckets_eq, lookup_filter_tag (bucketFrom 0)]

theorem shipped_eq_bucketed : shipped = bucketed := by
  simp only [bucketed, lookupDigest_eq]
  rfl

/-! ### Scripts -/

/-- What the schema makes of a payload that it accepts. -/
theorem exists_valid {payload : Json.Fields} {p : EventIn → Bool}
    (h : (Schemas.validate shipped payload).toOption.any p = true) :
    ∃ model, Schemas.validate shipped payload = .ok model ∧ p model = true := by
  cases hvalid : Schemas.validate shipped payload with
  | error errors =>
      rw [hvalid] at h
      cases h
  | ok model =>
      rw [hvalid] at h
      exact ⟨model, rfl, h⟩

/-- A payload of text fields. -/
def texts (fields : List (String × String)) : Json.Fields :=
  fields.map fun field => (field.1, .str field.2)

theorem wf_texts {fields : List (String × String)} (h : (fields.map Prod.fst).Nodup) :
    (Json.obj (texts fields)).Wf := by
  refine ⟨?_, Json.wfFields_iff.mpr fun p hp => ?_⟩
  · rw [texts, List.map_map]
    exact h
  · obtain ⟨field, -, rfl⟩ := List.mem_map.mp hp
    trivial

def submit (fields : List (String × String)) (h : (fields.map Prod.fst).Nodup) : Request :=
  .postEvent (some ⟨.obj (texts fields), wf_texts h⟩)

/-- A web form of one sender. -/
def webForm (externalEventId receivedAt message : String) : Request :=
  submit [("source", "web_form"), ("external_event_id", externalEventId),
    ("received_at", receivedAt), ("email", "ada@example.com"), ("message", message)] (by simp)

def bobForm : Request :=
  submit [("source", "web_form"), ("external_event_id", "2"), ("received_at", firstDay),
    ("email", "bob@example.com"), ("message", "hi")] (by simp)

/-- An engagement of nobody, which is parked. -/
def engagement : Request :=
  submit [("source", "email_engagement"), ("external_event_id", "3"), ("received_at", firstDay)]
    (by simp)

def engagementOf (email : String) : Request :=
  submit [("source", "email_engagement"), ("external_event_id", "3"), ("received_at", firstDay),
    ("email", email)] (by simp)

/-- A form whose text is read from a field that the schema does not declare, and is no text. -/
def flaggedForm : Request :=
  .postEvent (some ⟨.obj (("body", .bool true) :: texts [("source", "web_form"),
    ("external_event_id", "1"), ("received_at", firstDay), ("email", "ada@example.com")]), by
      refine ⟨by decide, Json.wfFields_iff.mpr fun p hp => ?_⟩
      rcases List.mem_cons.mp hp with rfl | hp
      · trivial
      · exact Json.wfFields_iff.mp (wf_texts (by simp)).2 p hp⟩)

/-- The provider cannot be reached. -/
def unreachable : Question → Reply := fun _ => .failed false "connection refused"

/-- The visits of requests at successive instants, while the provider cannot be reached. -/
def failing (requests : List Request) : List Turn :=
  requests.map fun request => ⟨request, fun n => n, unreachable⟩

/-- What a schedule of requests leads to. -/
def interleave (reply : Question → Reply) (schedule : List (Action Request)) :
    Option (Config Request Db Write Error Question Reply Response) :=
  Config.play (service shipped) reply 0 ⟨emptyLedger, []⟩ schedule

theorem interleave_reachable {reply : Question → Reply} {schedule : List (Action Request)}
    {config : Config Request Db Write Error Question Reply Response}
    (h : interleave reply schedule = some config) : Reachable (service shipped) emptyLedger config :=
  Config.play_reachable (fun _ _ _ _ => trivial) (fun _ => trivial) .refl h

/-- What a schedule in phases leads to: each phase begins at an instant of its own. -/
def interleavePhases (reply : Question → Reply) (phases : List (Time × List (Action Request))) :
    Option (Config Request Db Write Error Question Reply Response) :=
  phases.foldlM (fun config phase => config.play (service shipped) reply phase.1 phase.2)
    ⟨emptyLedger, []⟩

theorem interleavePhases_reachable {reply : Question → Reply}
    {phases : List (Time × List (Action Request))}
    {config : Config Request Db Write Error Question Reply Response}
    (h : interleavePhases reply phases = some config) :
    Reachable (service shipped) emptyLedger config := by
  have hphases : ∀ (phases : List (Time × List (Action Request))) start,
      Reachable (service shipped) emptyLedger start →
      phases.foldlM (fun config phase => config.play (service shipped) reply phase.1 phase.2) start =
        some config → Reachable (service shipped) emptyLedger config := by
    intro phases
    induction phases with
    | nil =>
        intro start hstart h
        cases h
        exact hstart
    | cons phase phases ih =>
        intro start hstart h
        rw [List.foldlM_cons] at h
        obtain ⟨next, hnext, h⟩ := Option.bind_eq_some_iff.mp h
        exact ih next
          (Config.play_reachable (fun _ _ _ _ => trivial) (fun _ => trivial) hstart hnext) h
  exact hphases phases _ .refl h

/-- A schedule that serves requests one after another, each in so many steps. -/
def inTurn (first : Nat) (requests : List (Request × Nat)) : List (Action Request) :=
  requests.zipIdx.flatMap fun entry =>
    .spawn entry.1.1 :: List.replicate entry.1.2 (.step (first + entry.2))

end DemandSignal
