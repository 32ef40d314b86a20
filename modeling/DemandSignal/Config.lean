import DemandSignal.Db.Store
import DemandSignal.Json.Text
import DemandSignal.Python.Difflib

/-!
# Configuration

The settings of `app/config.py`, the policy files of `app/policies/`, and the functions of the Python
runtime and of Pydantic that the services call. An `App` carries them all.
-/

namespace DemandSignal

open Txn

/-- What Pydantic finds wrong with one field of a payload. -/
inductive FieldError where
  | unionTagNotFound
  | unionTagInvalid (tag : Json)
  | missing (field : String)
  | stringType (field : String)
  | stringTooShort (field : String)
  | datetime (field : String) (value : Json)
  | boolean (field : String) (value : Json)
  | email (field : String) (value : Json)
  | literal (field : String) (expected : List String)
deriving DecidableEq

/-- Functions of the Python runtime and of third-party packages. -/
structure Platform where
  /-- `hashlib.sha256(text.encode("utf-8")).hexdigest()` -/
  sha256 : String → String
  /-- `str.lower` -/
  lower : String → String
  /-- The value of a decimal digit of any script. -/
  digit : Char → Option Nat
  /-- A numeric literal as `json` reads it and renders it again. -/
  number : List Char → Numeral
  /-- `str` of a list or a dict. -/
  container : Json → String
  /-- `repr` of a string. -/
  repr : String → String
  /-- `datetime.fromisoformat` -/
  fromisoformat : String → Option Time
  /-- A Pydantic `datetime`. -/
  datetime : Json → Option Time
  /-- A Pydantic `bool`. -/
  boolean : Json → Option Bool
  /-- A Pydantic `EmailStr`. -/
  emailStr : String → Option String
  /-- The message of a validation error. -/
  message : FieldError → String

structure Settings where
  classificationModel : String := "deepseek/deepseek-v4-flash"
  interpretMinTokens : Nat := 2
  interpretMinTokens_pos : 1 ≤ interpretMinTokens := by decide
  retryMaxAttempts : Nat := 3
  retryMaxAttempts_pos : 1 ≤ retryMaxAttempts := by decide

structure IdentityPolicy where
  confidenceThreshold : ℚ

structure Threshold where
  minScore : Int
  decision : String

structure ScoringPolicy where
  policyVersion : String
  labelScores : List (String × Option Int)
  sourceBonus : List (String × Int)
  consentBonus : Int
  campaignBonus : Int
  confidenceMultiplierEnabled : Bool
  decisionThresholds : List Threshold
  decisionThresholds_ne_nil : decisionThresholds ≠ []

structure RoutingRule where
  name : String
  decision : String
  label : Option String := none
  queue : String
  slaHours : Int

structure Fallback where
  queue : String
  ruleMatched : String
  slaHours : Int

structure RoutingRules where
  rules : List RoutingRule
  fallback : Fallback

structure App extends Platform, Settings where
  identityPolicy : IdentityPolicy
  scoringPolicy : ScoringPolicy
  routingRules : RoutingRules

/-! ### The shipped policies -/

def identityPolicyV1 : IdentityPolicy := ⟨85 / 100⟩

def scoringPolicyV1 : ScoringPolicy where
  policyVersion := "1.0"
  labelScores :=
    [("pricing_inquiry", some 85), ("product_question", some 60), ("competitor_mention", some 55),
      ("onboarding", some 75), ("integration", some 70), ("feature_request", some 65),
      ("other", some 40), ("unknown", none)]
  sourceBonus := [("web_form", 5), ("social_mention", 3), ("email_engagement", 4)]
  consentBonus := 5
  campaignBonus := 3
  confidenceMultiplierEnabled := true
  decisionThresholds := [⟨70, "hot"⟩, ⟨45, "warm"⟩, ⟨20, "cold"⟩]
  decisionThresholds_ne_nil := by simp

def routingRulesV1 : RoutingRules where
  rules :=
    [⟨"hot_any", "hot", none, "sales_urgent", 2⟩,
      ⟨"warm_pricing", "warm", some "pricing_inquiry", "sales_priority", 8⟩,
      ⟨"warm_any", "warm", none, "sales_default", 24⟩,
      ⟨"needs_review_any", "needs_review", none, "manual_queue", 48⟩,
      ⟨"cold_any", "cold", none, "nurture", 72⟩]
  fallback := ⟨"unassigned", "fallback_no_rule", 72⟩

/-! ### Exceptions and the provider -/

/-- An exception that ends a request: an `HTTPException`, or one that nobody catches. -/
inductive Error where
  | http (status : Nat) (error : String)
  | malformedJson
  | integrityError
  | dataError
  | invalidRequest
  | missingGreenlet
  | attributeError
  | valueError
deriving DecidableEq

/-- The text sent to the classifier. -/
structure Question where
  text : String

/-- What the provider did: an exception, transient or not, or a completion. -/
inductive Reply where
  | failed (retryable : Bool) (message : String)
  | completion (content : String) (usage : Option Usage)

/-- The programs of the services. -/
abbrev Prog (α : Type) := Program Db Write Error Question Reply α

end DemandSignal
