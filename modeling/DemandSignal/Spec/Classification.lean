import DemandSignal.Spec.Reruns
import DemandSignal.Spec.Starts

/-!
# Classifying a text

What a classification alone does with the replies it hears, and the run that hears a given sequence of
outcomes: it calls the provider up to the first outcome that is no transient failure, or until its
budget is spent.
-/

namespace DemandSignal

open Txn Program

namespace Interpret

variable {app : App} {event : Event} {L L' : Ledger Db Write} {heard : List Reply}
  {outcomes : ℕ → Reply}

/-! ### The replies heard -/

/-- What a classification alone does. -/
inductive Classifies (app : App) (L : Ledger Db Write) (event : Event) (heard : List Reply) :
    Except Error (Option Interpretation) → Ledger Db Write → Prop
  | stored {fields interpretation ws} (hfields : Classification app event heard fields)
      (hinterprets : Interprets still L event fields interpretation ws) :
      Classifies app L event heard (.ok (some interpretation)) (L.commit ws)
  | dead {error ws} (herror : Exhausted app event heard error) (hdead : DeadLetters still L event ws)
      (hcount : CountsCalls heard.length ws) : Classifies app L event heard (.ok none) (L.commit ws)
  | alreadyDead {error} (herror : Exhausted app event heard error)
      (hheld : L.db.holds .deadLetterQueue (.unresolvedEvent event.id) = true) :
      Classifies app L event heard (.ok none) L
  | unstorable {fields} (hfields : Classification app event heard fields)
      (hstorable : fields.storable = false) : Classifies app L event heard (.error .dataError) L
  | badMessage {error} (herror : Exhausted app event heard error)
      (hstorable : Python.storable (Python.take 500 error.message) = false) :
      Classifies app L event heard (.error .dataError) L

theorem runs_classifyEvent {setting : Setting Db Write Key Question Reply}
    {s s' : Session Write Reply} {r : Except Error (Option Interpretation)} (hs : s.pending = [])
    (hevent : event ∈ L.db .events) {text : String} (htext : extractText event = some text)
    (hrun : Runs setting s L (classifyEvent app event) r s' L') :
    ∃ heard, s'.replies = s.replies ++ heard ∧ Spent app event heard ∧
      Classifies app L event heard r L' := by
  have howes : ∀ {T : Ledger Db Write → List Write → Prop},
      Owes (alone setting.Answers fun _ _ => True) s T := fun _ _ _ _ _ => trivial
  refine hrun.of_wp (fun r s' L' => ∃ heard, s'.replies = s.replies ++ heard ∧
    Spent app event heard ∧ Classifies app L event heard r L') ?_
  refine wp_classifyEvent fair_alone hs hevent (fun _ _ => howes) howes
    (fun s' L₁ ws heard fields interpretation hrests hbefore hfields hspent hinterprets _ => ?_)
    (fun s' L₁ ws heard error hrests hbefore herror hspent hdead hcount _ => ?_)
    (fun s' L₁ L' heard error hrests hbefore herror hspent hheld hafter => ?_)
    (fun hnone => ?_)
    (fun s' L' heard fields hrests hbefore hfields hspent hstorable => ?_)
    (fun s' L' heard error hrests hbefore herror hspent hstorable => ?_)
    fun x s' L' hraced => absurd hraced not_raced_alone
  · rw [before_alone] at hbefore
    subst hbefore
    exact ⟨heard, hrests.replies, hspent, .stored hfields hinterprets⟩
  · rw [before_alone] at hbefore
    subst hbefore
    exact ⟨heard, hrests.replies, hspent, .dead herror hdead hcount⟩
  · rw [before_alone] at hbefore hafter
    subst hbefore hafter
    exact ⟨heard, hrests.replies, hspent, .alreadyDead herror hheld⟩
  · rw [htext] at hnone
    cases hnone
  · rw [before_alone] at hbefore
    subst hbefore
    exact ⟨heard, hrests.replies, hspent, .unstorable hfields hstorable⟩
  · rw [before_alone] at hbefore
    subst hbefore
    exact ⟨heard, hrests.replies, hspent, .badMessage herror hstorable⟩

theorem Spent.eq_nil {text : String} (h : Spent app event heard) (htext : extractText event = some text)
    (hshort : countTokens text < app.interpretMinTokens) : heard = [] := by
  cases h with
  | skipped => rfl
  | called htext' hlong =>
      obtain rfl := Option.some_injective _ (htext'.symm.trans htext)
      exact absurd hshort hlong

theorem Spent.tried {text : String} (h : Spent app event heard) (htext : extractText event = some text)
    (hlong : ¬ countTokens text < app.interpretMinTokens) :
    Tried app app.retryMaxAttempts heard := by
  cases h with
  | skipped htext' hshort =>
      obtain rfl := Option.some_injective _ (htext'.symm.trans htext)
      exact absurd hshort hlong
  | called _ _ htried => exact htried

/-! ### A sequence of outcomes -/

/-- The call that decides, counted from one: the first whose outcome is no transient failure, or the
last the budget allows. -/
structure DecidedAt (app : App) (budget : ℕ) (outcomes : ℕ → Reply) (k : ℕ) : Prop where
  pos : 1 ≤ k
  le : k ≤ budget
  transient : ∀ i, i + 1 < k → Transient app (outcomes i)
  ends : k = budget ∨ ¬ Transient app (outcomes (k - 1))

theorem DecidedAt.unique {budget k k' : ℕ} (h : DecidedAt app budget outcomes k)
    (h' : DecidedAt app budget outcomes k') : k = k' := by
  have hle : ∀ {k k' : ℕ}, DecidedAt app budget outcomes k → DecidedAt app budget outcomes k' →
      k' ≤ k := by
    intro k k' h h'
    by_contra hlt
    obtain heq | hends := h.ends
    · exact absurd h'.le (by omega)
    · exact hends (h'.transient (k - 1) (by have := h.pos; omega))
  exact le_antisymm (hle h' h) (hle h h')

theorem map_range_eq_append {n : ℕ} (hpos : 1 ≤ n) :
    (List.range n).map outcomes = (List.range (n - 1)).map outcomes ++ [outcomes (n - 1)] := by
  obtain ⟨m, rfl⟩ := Nat.exists_eq_add_of_le' hpos
  rw [Nat.add_sub_cancel, List.range_succ, List.map_append, List.map_singleton]

/-- The replies heard of a sequence are those up to the deciding call. -/
theorem Tried.decidedAt {budget n : ℕ} (h : Tried app budget ((List.range n).map outcomes)) :
    DecidedAt app budget outcomes n := by
  have hpos : 1 ≤ n := by
    rcases n with _ | n
    · exact absurd rfl h.ne_nil
    · omega
  refine ⟨hpos, by simpa using h.le, fun i hi => h.transient _ ?_, ?_⟩
  · rw [map_range_eq_append hpos, List.dropLast_concat]
    exact List.mem_map_of_mem (List.mem_range.mpr (by omega))
  · refine h.ends.imp (fun hlength => by simpa using hlength) fun hends => hends _ ?_
    rw [map_range_eq_append hpos, List.getLast?_concat]
    rfl

theorem DecidedAt.one {budget : ℕ} (hbudget : 1 ≤ budget)
    (hends : budget = 1 ∨ ¬ Transient app (outcomes 0)) : DecidedAt app budget outcomes 1 :=
  ⟨le_rfl, hbudget, fun i hi => by omega, hends.imp_left Eq.symm⟩

theorem DecidedAt.succ {budget k : ℕ} (hfirst : Transient app (outcomes 0))
    (h : DecidedAt app budget (fun i => outcomes (i + 1)) k) :
    DecidedAt app (budget + 1) outcomes (k + 1) := by
  have hpos := h.pos
  refine ⟨by omega, Nat.succ_le_succ h.le, fun i hi => ?_, h.ends.imp (congrArg (· + 1)) ?_⟩
  · cases i with
    | zero => exact hfirst
    | succ i => exact h.transient i (by omega)
  · rw [Nat.add_sub_cancel, Nat.sub_add_cancel hpos]
    exact id

/-! ### The run that hears a sequence -/

def hearAll (s : Session Write Reply) (heard : List Reply) : Session Write Reply :=
  { s with replies := s.replies ++ heard }

theorem hearAll_hear (s : Session Write Reply) (reply : Reply) (heard : List Reply) :
    hearAll (s.hear reply) heard = hearAll s (reply :: heard) := by
  simp [hearAll, Session.hear]

theorem runs_call {s : Session Write Reply} (question : Question) (reply : Reply) :
    Runs {} s L (call question : Prog Reply) (.ok reply) (s.hear reply) L :=
  .move (.ask trivial) .ret

/-- What the calls come to: the result of the last, or its error with their number. -/
def afterCalls (app : App) (last : Reply) (attempts : ℕ) :
    Except (String × ℕ) (Json.Fields × Option Usage) :=
  match callResult app last with
  | .ok result => .ok result
  | .error error => .error (error.message, attempts)

theorem exists_runs_callLlm (app : App) (text : String) (L : Ledger Db Write) (further : ℕ) :
    ∀ (attempts : ℕ) (outcomes : ℕ → Reply) (s : Session Write Reply),
      ∃ k, DecidedAt app (further + 1) outcomes k ∧
        Runs {} s L (callLlm app text further attempts)
          (.ok (afterCalls app (outcomes (k - 1)) (attempts + k)))
          (hearAll s ((List.range k).map outcomes)) L := by
  induction further with
  | zero =>
      intro attempts outcomes s
      refine ⟨1, .one le_rfl (.inl rfl), ?_⟩
      unfold callLlm
      refine (runs_call _ (outcomes 0)).bind_ok ?_
      rw [afterCalls]
      cases hresult : callResult app (outcomes 0) with
      | ok result => exact .ret
      | error error =>
          dsimp only
          split <;> exact .ret
  | succ further ih =>
      intro attempts outcomes s
      cases hresult : callResult app (outcomes 0) with
      | ok result =>
          have hfinal : ¬ Transient app (outcomes 0) := by
            rintro ⟨message, h⟩
            rw [hresult] at h
            cases h
          refine ⟨1, .one (by omega) (.inr hfinal), ?_⟩
          unfold callLlm
          refine (runs_call _ (outcomes 0)).bind_ok ?_
          rw [afterCalls, hresult]
          exact .ret
      | error error =>
          by_cases hretry : error.retryable = true
          · have hfirst : Transient app (outcomes 0) :=
              ⟨error.message, hresult.trans (by rw [← hretry])⟩
            obtain ⟨k, hdecided, hrun⟩ :=
              ih (attempts + 1) (fun i => outcomes (i + 1)) (s.hear (outcomes 0))
            refine ⟨k + 1, hdecided.succ hfirst, ?_⟩
            have hcount : attempts + 1 + k = attempts + (k + 1) := by omega
            have hpos := hdecided.pos
            rw [hearAll_hear, Nat.sub_add_cancel hpos, hcount] at hrun
            rw [List.range_succ_eq_map, List.map_cons, List.map_map, Nat.add_sub_cancel]
            unfold callLlm
            refine (runs_call _ (outcomes 0)).bind_ok ?_
            rw [hresult]
            dsimp only
            rw [if_pos hretry]
            exact hrun
          · have hfinal : ¬ Transient app (outcomes 0) := by
              rintro ⟨message, h⟩
              rw [hresult] at h
              exact hretry (by rw [Except.error.inj h])
            refine ⟨1, .one (by omega) (.inr hfinal), ?_⟩
            unfold callLlm
            refine (runs_call _ (outcomes 0)).bind_ok ?_
            rw [afterCalls, hresult]
            dsimp only
            rw [if_neg hretry]
            exact .ret

theorem replies_persist {setting : Setting Db Write Key Question Reply} {s s' : Session Write Reply}
    {fields : Classified} {r : Except Error Interpretation} (hs : s.pending = [])
    (hevent : event ∈ L.db .events) (hrun : Runs setting s L (persist event.id fields) r s' L') :
    s'.replies = s.replies :=
  hrun.of_wp (fun _ s' _ => s'.replies = s.replies)
    (wp_persist fair_alone hs hevent (fun _ _ _ _ _ _ => trivial)
      (fun s' L₁ ws interpretation hrests _ _ _ => by rw [hrests.replies, List.append_nil])
      (fun _ => rfl) fun x s' L' hraced => absurd hraced not_raced_alone)

attribute [local irreducible] Python.take

theorem replies_deadLetter {setting : Setting Db Write Key Question Reply}
    {s s' : Session Write Reply} {message : String} {retryCount : ℕ} {r : Except Error Unit}
    (hs : s.pending = []) (hevent : event ∈ L.db .events)
    (hrun : Runs setting s L (deadLetter event.id message retryCount) r s' L') :
    s'.replies = s.replies :=
  hrun.of_wp (fun _ s' _ => s'.replies = s.replies)
    (wp_deadLetter fair_alone hs hevent (fun _ _ _ _ _ => trivial)
      (fun s' L₁ ws hrests _ _ _ _ => by rw [hrests.replies, List.append_nil])
      (fun s' L₁ L' hrests _ _ _ => by rw [hrests.replies, List.append_nil]) fun _ => rfl)

/-- What the last call comes to can be written to the database. -/
def Recordable (app : App) (last : Reply) : Bool :=
  match callResult app last with
  | .ok result => (classified app result).storable
  | .error error => Python.storable (Python.take 500 error.message)

/-- A classification that reaches the provider goes on with what the calls come to. -/
theorem runs_classifyEvent_of_calls {s s₁ : Session Write Reply} {text : String}
    {outcome : Except (String × ℕ) (Json.Fields × Option Usage)}
    (htext : extractText event = some text) (hlong : ¬ countTokens text < app.interpretMinTokens)
    (hcalls : Runs {} s L (callLlm app text (app.retryMaxAttempts - 1) 0) (.ok outcome) s₁ L)
    ⦃r : Except Error (Option Interpretation)⦄ ⦃s' : Session Write Reply⦄ ⦃L' : Ledger Db Write⦄
    (hrest : Runs {} s₁ L (match outcome with
      | .error (message, attempts) =>
          (deadLetter event.id message attempts).bind fun _ => .ret none
      | .ok result =>
          (persist event.id (classified app result)).bind fun row => .ret (some row)) r s' L') :
    Runs {} s L (classifyEvent app event) r s' L' := by
  unfold classifyEvent
  rw [htext]
  dsimp only
  rw [if_neg hlong]
  exact hcalls.bind_ok hrest

theorem exists_runs_classifyEvent {s : Session Write Reply} (hs : s.pending = [])
    (hevent : event ∈ L.db .events) {text : String} (htext : extractText event = some text)
    (hlong : ¬ countTokens text < app.interpretMinTokens) (outcomes : ℕ → Reply) :
    ∃ k r s' L', DecidedAt app app.retryMaxAttempts outcomes k ∧
      Runs {} s L (classifyEvent app event) r s' L' ∧
      s'.replies = s.replies ++ (List.range k).map outcomes ∧
      (Recordable app (outcomes (k - 1)) = false → r = .error .dataError) := by
  obtain ⟨k, hdecided, hcalls⟩ :=
    exists_runs_callLlm app text L (app.retryMaxAttempts - 1) 0 outcomes s
  rw [Nat.sub_add_cancel app.retryMaxAttempts_pos] at hdecided
  have hanswers : ∀ q : Question, ∃ reply : Reply,
      ({} : Setting Db Write Key Question Reply).Answers q reply := fun _ => ⟨.failed false "", trivial⟩
  have hpending : (hearAll s ((List.range k).map outcomes)).pending = [] := hs
  have hclassify := runs_classifyEvent_of_calls htext hlong hcalls
  rw [afterCalls] at hclassify
  refine ⟨k, ?_⟩
  unfold Recordable
  cases hresult : callResult app (outcomes (k - 1)) with
  | ok result =>
      rw [hresult] at hclassify
      dsimp only at hclassify ⊢
      by_cases hstorable : (classified app result).storable = true
      · obtain ⟨r, s', L', hrest⟩ := exists_run (fun _ => id) (fun _ => id) (fun _ _ _ => trivial)
          hanswers (persist event.id (classified app result))
          (hearAll s ((List.range k).map outcomes)) L
        have hreplies := replies_persist hpending hevent hrest
        have hrecordable : {P : Prop} → (classified app result).storable = false → P := fun h => by rw [hstorable] at h; cases h
        cases r with
        | ok result => exact ⟨_, s', L', hdecided, hclassify (hrest.bind_ok .ret), hreplies, hrecordable⟩
        | error x => exact ⟨_, s', L', hdecided, hclassify hrest.bind_error, hreplies, hrecordable⟩
      · refine ⟨.error .dataError, hearAll s ((List.range k).map outcomes), L, hdecided,
          hclassify ?_, rfl, fun _ => rfl⟩
        unfold persist
        rw [if_neg hstorable]
        exact .raise
  | error error =>
      rw [hresult] at hclassify
      dsimp only at hclassify ⊢
      by_cases hstorable : Python.storable (Python.take 500 error.message) = true
      · obtain ⟨r, s', L', hrest⟩ := exists_run (fun _ => id) (fun _ => id) (fun _ _ _ => trivial)
          hanswers (deadLetter event.id error.message (0 + k))
          (hearAll s ((List.range k).map outcomes)) L
        have hreplies := replies_deadLetter hpending hevent hrest
        have hrecordable : {P : Prop} →
            Python.storable (Python.take 500 error.message) = false → P := fun h => by rw [hstorable] at h; cases h
        cases r with
        | ok result => exact ⟨_, s', L', hdecided, hclassify (hrest.bind_ok .ret), hreplies, hrecordable⟩
        | error x => exact ⟨_, s', L', hdecided, hclassify hrest.bind_error, hreplies, hrecordable⟩
      · refine ⟨.error .dataError, hearAll s ((List.range k).map outcomes), L, hdecided,
          hclassify ?_, rfl, fun _ => rfl⟩
        unfold deadLetter
        dsimp only
        rw [if_neg hstorable]
        exact .raise

/-! ### What the deciding outcome leads to -/

/-- The interpretation of the event is stored and returned, with these columns. -/
def StoresInterpretation (event : Event) (fields : Classified)
    (r : Except Error (Option Interpretation)) (L' : Ledger Db Write) : Prop :=
  ∃ interpretation, r = .ok (some interpretation) ∧ interpretation ∈ L'.db .interpretations ∧
    interpretation.eventId = event.id ∧ fields.edit interpretation = interpretation

/-- No interpretation is touched, `InterpretError` is raised, and the event has an unresolved dead
letter, which carries the number of calls if it is new. -/
structure DeadLettersCalls (event : Event) (L : Ledger Db Write) (k : ℕ)
    (r : Except Error (Option Interpretation)) (L' : Ledger Db Write) : Prop where
  raises : r = .ok none
  interpretations : L'.db .interpretations = L.db .interpretations
  unresolved : Unresolved event.id L'.db
  retryCount : ∀ dlq ∈ L'.db .deadLetterQueue, dlq ∈ L.db .deadLetterQueue ∨
    DeadLetterQueue.retryCount dlq = k

/-- The classification is decided by the outcome of its `k`-th call. -/
structure DecidesBy (app : App) (event : Event) (last : Reply) (L : Ledger Db Write) (k calls : ℕ)
    (r : Except Error (Option Interpretation)) (L' : Ledger Db Write) : Prop where
  calls : calls = k
  success : ∀ result, callResult app last = .ok result →
    StoresInterpretation event (classified app result) r L'
  failure : ∀ error, callResult app last = .error error → DeadLettersCalls event L k r L'

theorem Interprets.stores {fields : Classified} {interpretation : Interpretation} {ws : List Write}
    (h : Interprets still L event fields interpretation ws) (hdistinct : L.db.Distinct) :
    StoresInterpretation event fields (.ok (some interpretation)) (L.commit ws) :=
  ⟨interpretation, rfl, (h.sets hdistinct).2.2.2.new_mem, (h.sets hdistinct).1, h.edit_eq⟩

theorem DeadLetters.lettersCalls {k : ℕ} {ws : List Write} (h : DeadLetters still L event ws)
    (hcount : CountsCalls k ws) : DeadLettersCalls event L k (.ok none) (L.commit ws) := by
  refine ⟨rfl, commit_of_untouched (h.tables.ne (by decide)), (h.unresolved event.id).mpr (.inl rfl),
    fun dlq hdlq => ?_⟩
  obtain ⟨new, hnew, -, -, hrows⟩ := h.rows
  rw [hrows, List.mem_append, List.mem_singleton] at hdlq
  obtain hold | rfl := hdlq
  · exact .inl hold
  · exact .inr (hcount dlq hnew)

theorem Classification.eq_skipped {fields : Classified} {text : String}
    (h : Classification app event heard fields) (htext : extractText event = some text)
    (hshort : countTokens text < app.interpretMinTokens) :
    fields = Interpret.skipped app (countTokens text) := by
  cases h with
  | skipped htext' =>
      obtain rfl := Option.some_injective _ (htext'.symm.trans htext)
      rfl
  | classified htext' hlong =>
      obtain rfl := Option.some_injective _ (htext'.symm.trans htext)
      exact absurd hshort hlong

theorem Classification.eq_classified {fields : Classified} {text : String} {last : Reply}
    (h : Classification app event heard fields) (htext : extractText event = some text)
    (hlong : ¬ countTokens text < app.interpretMinTokens) (hlast : heard.getLast? = some last) :
    ∃ result, callResult app last = .ok result ∧ fields = Interpret.classified app result := by
  cases h with
  | skipped htext' hshort =>
      obtain rfl := Option.some_injective _ (htext'.symm.trans htext)
      exact absurd hshort hlong
  | classified _ _ hlast' hanswer =>
      obtain rfl := Option.some_injective _ (hlast'.symm.trans hlast)
      exact ⟨_, hanswer, rfl⟩

theorem Exhausted.not_short {error : CallError} {text : String} (h : Exhausted app event heard error)
    (htext : extractText event = some text) : ¬ countTokens text < app.interpretMinTokens := by
  obtain ⟨htext', hlong, -, -⟩ := h
  obtain rfl := Option.some_injective _ (htext'.symm.trans htext)
  exact hlong

/-- A short text is stored as unknown. -/
theorem Classifies.stores_skipped {r : Except Error (Option Interpretation)} {text : String}
    (h : Classifies app L event heard r L') (hdistinct : L.db.Distinct)
    (htext : extractText event = some text) (hshort : countTokens text < app.interpretMinTokens) :
    StoresInterpretation event (skipped app (countTokens text)) r L' := by
  cases h with
  | stored hfields hinterprets =>
      obtain rfl := hfields.eq_skipped htext hshort
      exact hinterprets.stores hdistinct
  | unstorable hfields hstorable =>
      obtain rfl := hfields.eq_skipped htext hshort
      rw [storable_skipped] at hstorable
      cases hstorable
  | dead herror => exact absurd hshort (herror.not_short htext)
  | alreadyDead herror => exact absurd hshort (herror.not_short htext)
  | badMessage herror => exact absurd hshort (herror.not_short htext)

/-- A classification does as its last reply decides, if that can be recorded. -/
theorem Classifies.decidesBy {last : Reply} {r : Except Error (Option Interpretation)}
    (h : Classifies app L event heard r L') (hdistinct : L.db.Distinct)
    {text : String} (htext : extractText event = some text)
    (hlong : ¬ countTokens text < app.interpretMinTokens) (hlast : heard.getLast? = some last)
    (hrecordable : Recordable app last = true) :
    DecidesBy app event last L heard.length heard.length r L' := by
  unfold Recordable at hrecordable
  have hclassified : ∀ {fields}, Classification app event heard fields →
      ∃ result, callResult app last = .ok result ∧ fields = classified app result :=
    fun hfields => hfields.eq_classified htext hlong hlast
  have hexhausted : ∀ {error}, Exhausted app event heard error → callResult app last = .error error := by
    rintro error ⟨_, _, hlast', hanswer⟩
    rw [hlast] at hlast'
    cases hlast'
    exact hanswer
  cases h with
  | stored hfields hinterprets =>
      obtain ⟨result, hresult, rfl⟩ := hclassified hfields
      refine ⟨rfl, fun result' hresult' => ?_, fun error herror => ?_⟩
      · rw [hresult] at hresult'
        cases hresult'
        exact hinterprets.stores hdistinct
      · rw [hresult] at herror
        cases herror
  | dead herror hdead hcount =>
      refine ⟨rfl, fun result hresult => ?_, fun _ _ => hdead.lettersCalls hcount⟩
      rw [hexhausted herror] at hresult
      cases hresult
  | alreadyDead herror hheld =>
      refine ⟨rfl, fun result hresult => ?_, fun _ _ =>
        ⟨rfl, rfl, unresolved_of_holds hheld, fun _ hdlq => .inl hdlq⟩⟩
      rw [hexhausted herror] at hresult
      cases hresult
  | unstorable hfields hstorable =>
      obtain ⟨result, hresult, rfl⟩ := hclassified hfields
      rw [hresult] at hrecordable
      exact absurd (hrecordable.symm.trans hstorable) (by decide)
  | badMessage herror hstorable =>
      rw [hexhausted herror] at hrecordable
      exact absurd (hrecordable.symm.trans hstorable) (by decide)

end Interpret

end DemandSignal
