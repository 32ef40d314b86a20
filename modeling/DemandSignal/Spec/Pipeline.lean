import DemandSignal.Spec.Resolution

/-!
# What the pipeline does

One rule for each function of `app/services/interpret.py`, `score.py`, `attribute.py`, `act.py`,
`pipeline.py` and `escalation.py`.
-/

namespace DemandSignal

open Txn Program

variable {rules : Rules Db Write Question Reply} {sight : Sight} {s : Session Write Reply}
  {L : Ledger Db Write} {app : App}

/-! ### Interpretation -/

namespace Interpret

/-- What a classification is made from: nothing when the text is too short, else the last reply. -/
inductive Classification (app : App) (event : Event) : List Reply → Classified → Prop
  | skipped {text} (htext : extractText event = some text)
      (hshort : countTokens text < app.interpretMinTokens) :
      Classification app event [] (skipped app (countTokens text))
  | classified {text heard last result} (htext : extractText event = some text)
      (hlong : ¬ countTokens text < app.interpretMinTokens) (hlast : heard.getLast? = some last)
      (hanswer : callResult app last = .ok result) :
      Classification app event heard (classified app result)

/-- The last reply of an exhausted call. -/
inductive Exhausted (app : App) (event : Event) : List Reply → CallError → Prop
  | intro {text heard last error} (htext : extractText event = some text)
      (hlong : ¬ countTokens text < app.interpretMinTokens) (hlast : heard.getLast? = some last)
      (hanswer : callResult app last = .error error) : Exhausted app event heard error

/-- A reply that is worth another call. -/
def Transient (app : App) (reply : Reply) : Prop :=
  ∃ message, callResult app reply = .error ⟨true, message⟩

/-- The replies of a classification with a budget of calls: all but the last are transient failures,
and the last is none or has used the budget up. -/
structure Tried (app : App) (budget : Nat) (heard : List Reply) : Prop where
  ne_nil : heard ≠ []
  le : heard.length ≤ budget
  transient : ∀ reply ∈ heard.dropLast, Transient app reply
  ends : heard.length = budget ∨ ∀ last ∈ heard.getLast?, ¬ Transient app last

theorem Tried.singleton {budget : Nat} {reply : Reply} (hbudget : 1 ≤ budget)
    (hends : budget = 1 ∨ ¬ Transient app reply) : Tried app budget [reply] := by
  refine ⟨List.cons_ne_nil _ _, hbudget, nofun, hends.imp (fun h => h.symm) fun h last hlast => ?_⟩
  cases hlast
  exact h

theorem Tried.cons {budget : Nat} {reply : Reply} {heard : List Reply}
    (hreply : Transient app reply) (h : Tried app budget heard) :
    Tried app (budget + 1) (reply :: heard) := by
  refine ⟨List.cons_ne_nil _ _, Nat.succ_le_succ h.le, ?_, h.ends.imp (congrArg (· + 1)) ?_⟩
  · rw [List.dropLast_cons_of_ne_nil h.ne_nil]
    exact List.forall_mem_cons.mpr ⟨hreply, h.transient⟩
  · intro hends last hlast
    rw [List.getLast?_cons_of_ne_nil h.ne_nil] at hlast
    exact hends last hlast

theorem wp_callLlm {text : String}
    {post : Post Db Write Error Reply (Except (String × Nat) (Json.Fields × Option Usage))} :
    ∀ {further attempts : Nat} {s : Session Write Reply} {L : Ledger Db Write}, s.pending = [] →
      (∀ s' L' heard last result, Rests s heard s' → Before rules s.own L L' →
        Tried app (further + 1) heard → heard.getLast? = some last → rules.Answers ⟨text⟩ last →
        callResult app last = .ok result → post (.ok (.ok result)) s' L') →
      (∀ s' L' heard last error, Rests s heard s' → Before rules s.own L L' →
        Tried app (further + 1) heard → heard.getLast? = some last → rules.Answers ⟨text⟩ last →
        callResult app last = .error error →
        post (.ok (.error (error.message, attempts + heard.length))) s' L') →
      wp rules (callLlm app text further attempts) post s L := by
  intro further
  induction further with
  | zero =>
      intro attempts s L hs hok herror
      unfold callLlm
      simp only [bind_eq, pure_eq, wp_bind]
      refine wp_call fun L₁ reply h₁ hanswer => ?_
      have hrests : Rests s [reply] (s.hear reply) := ⟨hs, rfl, fun _ hu => hu⟩
      have htried : Tried app (0 + 1) [reply] := .singleton le_rfl (.inl rfl)
      rw [Post.andThen_ok]
      cases hresult : callResult app reply with
      | ok result => exact hok _ L₁ [reply] reply result hrests h₁ htried rfl hanswer hresult
      | error error =>
          simp only
          split <;> exact herror _ L₁ [reply] reply error hrests h₁ htried rfl hanswer hresult
  | succ further ih =>
      intro attempts s L hs hok herror
      unfold callLlm
      simp only [bind_eq, pure_eq, wp_bind]
      refine wp_call fun L₁ reply h₁ hanswer => ?_
      have hrests : Rests s [reply] (s.hear reply) := ⟨hs, rfl, fun _ hu => hu⟩
      rw [Post.andThen_ok]
      cases hresult : callResult app reply with
      | ok result =>
          have htried : Tried app (further + 1 + 1) [reply] :=
            .singleton (by omega) (.inr fun ⟨_, h⟩ => by rw [hresult] at h; cases h)
          exact hok _ L₁ [reply] reply result hrests h₁ htried rfl hanswer hresult
      | error error =>
          simp only
          split
          · next hretry =>
            have htransient : Transient app reply :=
              ⟨error.message, hresult.trans (by rw [← hretry])⟩
            refine ih hs ?_ ?_
            · intro s' L' heard last result hrests' hbefore htried hlast
              exact hok s' L' _ last result (hrests.trans hrests') (h₁.trans hbefore)
                (htried.cons htransient) (by rw [List.getLast?_append, hlast, Option.some_or])
            · intro s' L' heard last error hrests' hbefore htried hlast hanswer' hresult'
              have hcount : attempts + 1 + heard.length = attempts + ([reply] ++ heard).length := by
                simp only [List.length_append, List.length_singleton]
                omega
              rw [hcount]
              exact herror s' L' _ last error (hrests.trans hrests') (h₁.trans hbefore)
                (htried.cons htransient) (by rw [List.getLast?_append, hlast, Option.some_or])
                hanswer' hresult'
          · next hretry =>
            have htried : Tried app (further + 1 + 1) [reply] := by
              refine .singleton (by omega) (.inr fun ⟨_, h⟩ => hretry ?_)
              rw [hresult] at h
              rw [Except.error.inj h]
            exact herror _ L₁ [reply] reply error hrests h₁ htried rfl hanswer hresult

theorem wp_upsertInterpretation (fair : Fair rules sight) (hs : s.pending = []) {eventId : Uuid}
    {fields : Classified} {post : Post Db Write Error Reply Interpretation}
    (hok : ∀ s' L' now (row : Upsert .interpretations), Proceeds rules s L now (row.writes now) s' L' →
      InterpretsBy sight L' eventId fields now row → post (.ok row.row) s' L')
    (hraced : ∀ x s' L', Raced rules → post (.error x) s' L') :
    wp rules (upsertInterpretation eventId fields) post s L := by
  unfold upsertInterpretation
  simp only [bind_eq, pure_eq, wp_bind]
  refine wp_find fair (.of_idle hs L) (by simp [hs]) (fun s₁ L₁ now₁ existing h₁ _ hfind => ?_)
    fun s₁ L₁ now₁ h₁ hnone => ?_
  · simp only [Post.andThen_ok, wp_bind]
    have hexisting : existing ∈ L₁.db .interpretations := List.mem_of_find?_eq_some hfind
    have hevent : Interpretation.eventId existing = eventId := by simpa using List.find?_some hfind
    refine wp_save_of_ne fair h₁.ready (by decide) (fun _ => rfl) fun s₂ L₂ now₂ h₂ => ?_
    obtain ⟨rfl, h₂'⟩ := h₁.trans h₂
    exact hok s₂ L₂ now₂ (.updated existing _) h₂'
      ⟨h₂.before.sight fair (fair.now _ _ hexisting), hevent, rfl⟩
  · have hnone : ∀ row ∈ L₁.db .interpretations, ¬ Interpretation.eventId row = eventId :=
      fun row hrow => by simpa using hnone row hrow
    refine wp_insert fair h₁.ready (fun _ _ => rfl) (by simp [h₁.pending, hs]) ?_
      (fun _ _ _ _ _ => trivial) (fun s₂ L₂ id now₂ h₂ _ _ => ?_) (hraced _)
    · intro id now key hkey
      rw [Row.indexed, List.mem_singleton] at hkey
      rw [Db.holds_eq_false]
      intro row hrow hmem
      simp only [hkey, Row.keys, Row.indexed, List.mem_cons, reduceCtorEq,
        Key.interpretationEvent.injEq, List.not_mem_nil, or_false, false_or] at hmem
      exact hnone row hrow hmem.symm
    · obtain ⟨rfl, h₂'⟩ := h₁.trans h₂
      refine hok s₂ L₂ now₂ (.created _) (by rw [Upsert.writes_created]; exact h₂') ⟨?_, rfl⟩
      exact h₂.before.sight fair (fair.now
        (fun db => ∀ row ∈ db .interpretations, ¬ Interpretation.eventId row = eventId) _ hnone)

theorem wp_persist (fair : Fair rules sight) (hs : s.pending = []) {event : Event}
    {fields : Classified} (hevent : Sees sight L event)
    (howes : ∀ interpretation, Owes rules s fun L ws =>
      Interprets sight L event fields interpretation ws)
    {post : Post Db Write Error Reply Interpretation}
    (hok : ∀ s' L₁ ws interpretation, Rests s [] s' → Before rules s.own L L₁ →
      Interprets sight L₁ event fields interpretation ws → Applicable ws L₁.db →
      post (.ok interpretation) s' (L₁.commit ws))
    (hdata : fields.storable = false → post (.error .dataError) s L)
    (hraced : ∀ x s' L', Raced rules → post (.error x) s' L') :
    wp rules (persist event.id fields) post s L := by
  unfold persist
  simp only [bind_eq, pure_eq]
  by_cases hstorable : fields.storable = true
  · rw [if_pos hstorable, wp_bind]
    refine wp_upsertInterpretation fair hs (fun s₁ L₁ now₁ row h₁ hrow => ?_) hraced
    have hevent := h₁.before.sight fair hevent
    simp only [Post.andThen_ok, wp_bind]
    refine wp_writeReceipt fair h₁.ready fun s₂ L₂ rid now₂ h₂ _ => ?_
    have hevent := h₂.before.sight fair hevent
    have hrow := hrow.mono fun P => h₂.before.sight fair
    obtain ⟨rfl, h₂⟩ := h₁.trans h₂
    simp only [Post.andThen_ok, wp_bind]
    refine wp_commitNow fair h₂.ready (howes row.row) h₂.own
      (by rw [h₂.pending, hs, List.nil_append]; rfl) (fun L₃ h₃ => .intro (h₃.sight fair hevent) hstorable
        (hrow.mono fun P => h₃.sight fair)) fun L₃ h₃ hT happ => ?_
    exact hok _ L₃ _ _ h₂.rests_close (h₂.before.trans (h₃.mono h₂.own)) hT happ
  · rw [if_neg hstorable]
    exact hdata (by simpa using hstorable)

theorem Interprets.exists_row (fair : Fair rules sight) {event : Event}
    {fields : Classified} {interpretation : Interpretation} {ws : List Write}
    (h : Interprets sight L event fields interpretation ws) :
    ∃ row ∈ (L.commit ws).db .interpretations, Interpretation.eventId row = event.id := by
  obtain @⟨upsert, rid, now, -, -, hby⟩ := h
  have hsub : ∀ rest, upsert.inserts ⊆ upsert.writes now ++ rest := fun rest => by
    simp [Upsert.writes]
  obtain ⟨row, hrow, hkept⟩ := hby.exists_kept fair.toLawful _ (hsub _)
  have hstatic : Row.Static (t := .interpretations) Interpretation.eventId := fun _ _ _ => rfl
  refine ⟨row, hrow, (hkept.static hstatic).trans ?_⟩
  cases upsert with
  | created row => rw [Upsert.loaded, hby.2]; rfl
  | updated loaded new => exact hby.2.1

/-- The dead letter carries the number of calls. -/
def CountsCalls (retryCount : Nat) (ws : List Write) : Prop :=
  ∀ dlq, .insert .deadLetterQueue dlq ∈ ws → DeadLetterQueue.retryCount dlq = retryCount

theorem countsCalls_pair {dlq : DeadLetterQueue} {receipt : Receipt} {retryCount : Nat}
    (h : dlq.retryCount = retryCount) :
    CountsCalls retryCount [.insert .deadLetterQueue dlq, .insert .receipts receipt] := by
  intro dlq' hmem
  rw [List.mem_cons, List.mem_singleton] at hmem
  obtain heq | heq := hmem <;> cases heq
  exact h

-- Unification would count up to the bound of the text.
attribute [local irreducible] Python.take

theorem wp_deadLetter (fair : Fair rules sight) (hs : s.pending = []) {event : Event}
    {message : String} {retryCount : Nat} (hevent : Sees sight L event)
    (howes : Owes rules s fun L ws => DeadLetters sight L event ws)
    {post : Post Db Write Error Reply Unit}
    (hok : ∀ s' L₁ ws, Rests s [] s' → Before rules s.own L L₁ → DeadLetters sight L₁ event ws →
      CountsCalls retryCount ws → Applicable ws L₁.db → post (.ok ()) s' (L₁.commit ws))
    (hopen : ∀ s' L₁ L', Rests s [] s' → Before rules s.own L L₁ →
      L₁.db.holds .deadLetterQueue (.unresolvedEvent event.id) = true → Before rules s.own L₁ L' →
      post (.ok ()) s' L')
    (hdata : Python.storable (Python.take 500 message) = false → post (.error .dataError) s L) :
    wp rules (deadLetter event.id message retryCount) post s L := by
  unfold deadLetter
  simp only [bind_eq]
  by_cases hstorable : Python.storable (Python.take 500 message) = true
  · rw [if_pos hstorable, wp_bind]
    refine wp_tryInsert fair (.of_idle hs L) (fun _ _ => rfl) (by simp [hs])
      (fun _ _ _ _ _ => trivial) (fun s₁ L₁ id now₁ h₁ _ _ => ?_) fun s₁ L₁ id now₁ h₁ _ hheld => ?_
    · have hevent := h₁.before.sight fair hevent
      simp only [Post.andThen_ok, wp_bind]
      refine wp_writeReceipt fair h₁.ready fun s₂ L₂ rid now₂ h₂ _ => ?_
      have hevent := h₂.before.sight fair hevent
      obtain ⟨rfl, h₂⟩ := h₁.trans h₂
      simp only [Post.andThen_ok]
      refine wp_commitNow fair h₂.ready howes h₂.own (by rw [h₂.pending, hs]; rfl)
        (fun L₃ h₃ => .intro (h₃.sight fair hevent) rfl rfl rfl) fun L₃ h₃ hT happ => ?_
      exact hok _ L₃ _ h₂.rests_close (h₂.before.trans (h₃.mono h₂.own)) hT (countsCalls_pair rfl) happ
    · rw [Post.andThen_ok]
      refine wp_rollbackNow fun L₂ h₂ => ?_
      obtain ⟨key, hkey, hheld⟩ := hheld
      rw [Row.indexed, if_neg (by simp), List.mem_singleton] at hkey
      subst hkey
      exact hopen _ L₁ L₂ ⟨rfl, by simp [Session.undo, h₁.replies], h₁.own⟩ h₁.before hheld
        (h₂.mono h₁.own)
  · rw [if_neg hstorable]
    exact hdata (by simpa using hstorable)

/-- The row of a text that is too short can be stored. -/
theorem storable_skipped (tokens : Nat) : (skipped app tokens).storable = true := by
  have hdigits : ∀ n : Nat, Char.ofNat 0 ∉ Nat.toDigits 10 n := by
    intro n hmem
    have hdigit : (Char.ofNat 0).isDigit = true :=
      Nat.isDigit_of_mem_toDigits (by decide) (by decide) hmem
    simp at hdigit
  simp only [Classified.storable, skipped, Python.storable, Python.concat, Decimal.fits,
    List.flatMap_cons, List.flatMap_nil, String.toList_ofList]
  simp [hdigits]

/-- The calls of a classification: none for a short text, else what the budget allows. -/
inductive Spent (app : App) (event : Event) : List Reply → Prop
  | skipped {text} (htext : extractText event = some text)
      (hshort : countTokens text < app.interpretMinTokens) : Spent app event []
  | called {text heard} (htext : extractText event = some text)
      (hlong : ¬ countTokens text < app.interpretMinTokens)
      (htried : Tried app app.retryMaxAttempts heard) : Spent app event heard

theorem wp_classifyEvent (fair : Fair rules sight) (hs : s.pending = []) {event : Event}
    (hevent : Sees sight L event)
    (hinterprets : ∀ fields interpretation, Owes rules s fun L ws =>
      Interprets sight L event fields interpretation ws)
    (hdead : Owes rules s fun L ws => DeadLetters sight L event ws)
    {post : Post Db Write Error Reply (Option Interpretation)}
    (hsome : ∀ s' L₁ ws heard fields interpretation, Rests s heard s' → Before rules s.own L L₁ →
      Classification app event heard fields → Spent app event heard →
      Interprets sight L₁ event fields interpretation ws → Applicable ws L₁.db → post (.ok (some interpretation)) s' (L₁.commit ws))
    (hnone : ∀ s' L₁ ws heard error, Rests s heard s' → Before rules s.own L L₁ →
      Exhausted app event heard error → Spent app event heard → DeadLetters sight L₁ event ws →
      CountsCalls heard.length ws → Applicable ws L₁.db → post (.ok none) s' (L₁.commit ws))
    (hopen : ∀ s' L₁ L' heard error, Rests s heard s' → Before rules s.own L L₁ →
      Exhausted app event heard error → Spent app event heard →
      L₁.db.holds .deadLetterQueue (.unresolvedEvent event.id) = true → Before rules s.own L₁ L' →
      post (.ok none) s' L')
    (hattribute : extractText event = none → post (.error .attributeError) s L)
    (hunstorable : ∀ s' L' heard fields, Rests s heard s' → Before rules s.own L L' →
      Classification app event heard fields → Spent app event heard → fields.storable = false →
      post (.error .dataError) s' L')
    (hmessage : ∀ s' L' heard error, Rests s heard s' → Before rules s.own L L' →
      Exhausted app event heard error → Spent app event heard →
      Python.storable (Python.take 500 error.message) = false → post (.error .dataError) s' L')
    (hraced : ∀ x s' L', Raced rules → post (.error x) s' L') :
    wp rules (classifyEvent app event) post s L := by
  unfold classifyEvent
  simp only [bind_eq, pure_eq]
  cases htext : extractText event with
  | none => exact hattribute htext
  | some text =>
      simp only
      by_cases hshort : countTokens text < app.interpretMinTokens
      · rw [if_pos hshort, wp_bind]
        have hfields := Classification.skipped htext hshort
        exact wp_persist fair hs hevent (hinterprets _)
          (fun s' L₁ ws interpretation hrests hbefore hT happ =>
            hsome s' L₁ ws [] _ interpretation hrests hbefore hfields (.skipped htext hshort) hT happ)
          (fun h => by rw [storable_skipped] at h; cases h) hraced
      · rw [if_neg hshort, wp_bind]
        have hbudget : app.retryMaxAttempts - 1 + 1 = app.retryMaxAttempts :=
          Nat.sub_add_cancel app.retryMaxAttempts_pos
        refine wp_callLlm hs (fun s₁ L₁ heard last result hrests hbefore htried hlast _ hresult => ?_)
          fun s₁ L₁ heard last error hrests hbefore htried hlast _ hresult => ?_ <;>
        rw [hbudget] at htried
        · have hfields := Classification.classified htext hshort hlast hresult
          have hevent := hbefore.sight fair hevent
          simp only [Post.andThen_ok, wp_bind]
          refine wp_persist fair hrests.pending hevent
            (fun interpretation => (hinterprets _ interpretation).mono hrests.own)
            (fun s' L₂ ws interpretation hrests' hbefore' hT happ => ?_)
            (fun h => hunstorable s₁ L₁ heard _ hrests hbefore hfields (.called htext hshort htried) h)
            hraced
          have hheard := hrests.trans hrests'
          rw [List.append_nil] at hheard
          exact hsome s' L₂ ws heard _ interpretation hheard
            (hbefore.trans (hbefore'.mono hrests.own)) hfields (.called htext hshort htried) hT happ
        · have herror := Exhausted.intro htext hshort hlast hresult
          have hevent := hbefore.sight fair hevent
          simp only [Post.andThen_ok, wp_bind]
          refine wp_deadLetter fair hrests.pending hevent (hdead.mono hrests.own)
            (fun s' L₂ ws hrests' hbefore' hT hcount happ => ?_)
            (fun s' L₂ L' hrests' hbefore' hheld hafter => ?_)
            fun h => hmessage s₁ L₁ heard error hrests hbefore herror (.called htext hshort htried) h
          · have hheard := hrests.trans hrests'
            rw [List.append_nil] at hheard
            rw [Nat.zero_add] at hcount
            exact hnone s' L₂ ws heard error hheard (hbefore.trans (hbefore'.mono hrests.own)) herror
              (.called htext hshort htried) hT hcount happ
          · have hheard := hrests.trans hrests'
            rw [List.append_nil] at hheard
            exact hopen s' L₂ L' heard error hheard (hbefore.trans (hbefore'.mono hrests.own)) herror
              (.called htext hshort htried) hheld (hafter.mono hrests.own)

end Interpret

/-! ### Scoring -/

namespace Scoring

theorem wp_upsertScore (fair : Fair rules sight) (hs : s.pending = []) {event : Event}
    {identityId : Uuid} {score : Option Int} {decision : String} {features : Features}
    {post : Post Db Write Error Reply Unit}
    (hok : ∀ s' L' now upsert, Proceeds rules s L now (upsertWrites upsert) s' L' →
      ScoresBy sight L' event.id
        ⟨identityId, score, features, app.scoringPolicy.policyVersion, decision⟩ now upsert →
      (∃ row ∈ s'.view L'.db .scores, Score.eventId row = event.id) → post (.ok ()) s' L') :
    wp rules (upsertScore app event identityId score decision features) post s L := by
  intro L₁ hrely id hunused hown L₂ hrely' now hnow
  have hbefore : Before rules s.own L L₂ :=
    (Before.of_rely hrely).trans
      ((Before.of_rely hrely').mono fun _ hu => List.mem_cons_of_mem _ hu)
  have hready : Ready ((s.draw id).begin now) L₂ := (Ready.of_idle hs L₂).draw.begin
  have hview : ∀ db : Db, (s.draw id).view db = db := fun db => by simp [Session.view, Session.draw, hs]
  have hunused₂ : ¬ L₂.db.InUse id :=
    fair.unused _ L₁ L₂ id hrely' (List.mem_cons_self ..) hunused
  simp only [hview]
  cases hfind : (L₂.db .scores).find? fun row => Decidable.decide (row.eventId = event.id) with
  | some row =>
      have hrow : row ∈ L₂.db .scores := List.mem_of_find?_eq_some hfind
      have hevent : Score.eventId row = event.id := by simpa using List.find?_some hfind
      refine ⟨fun b hb => by simp at hb, fun w b hw _ _ => ?_, fun w b hw hrefuse => ?_⟩
      · cases hw
        refine hok _ L₂ now (.updated row _) ⟨⟨hnow, rfl, rfl, rfl, rfl,
          fun _ hu => List.mem_cons_of_mem _ hu⟩, hbefore,
          hready.add_update (Write.tame_update (by decide) _ _)⟩ ⟨fair.now _ _ hrow, hevent, rfl⟩ ?_
        obtain ⟨row', hrow', hkept⟩ := exists_kept_view (s := ((s.draw id).begin now).add _) hrow
        have hstatic : Row.Static (t := .scores) Score.eventId := fun _ _ _ => rfl
        exact ⟨row', hrow', (hkept.static hstatic).trans hevent⟩
      · cases hw
        have hrefuse : Db.refuses L₂.db (.update .scores row ({ row with
          identityId, score, features, policyVersion := app.scoringPolicy.policyVersion
          decision } : Score)) = true := hrefuse
        rw [Db.refuses, List.any_eq_true] at hrefuse
        obtain ⟨key, hkey, hheld⟩ := hrefuse
        have hkey : key ∈ Row.keys (t := .scores) row := hkey
        simp [hkey] at hheld
  | none =>
      have hnone : ∀ row ∈ L₂.db .scores, ¬ Score.eventId row = event.id :=
        fun row hrow => by simpa using List.find?_eq_none.mp hfind row hrow
      have hfree : L₂.db.holds .scores (.scoreEvent event.id) = false := by
        rw [Db.holds_eq_false]
        intro row hrow hmem
        simp only [Row.keys, Row.indexed, List.mem_cons, reduceCtorEq, Key.scoreEvent.injEq,
          List.not_mem_nil, or_false, false_or] at hmem
        exact hnone row hrow hmem.symm
      refine ⟨fun b hb => by simp at hb, fun w b hw _ _ => ?_, fun w b hw hrefuse => ?_⟩
      · cases hw
        refine hok _ L₂ now (.created _) ⟨continues_draw_add (s := s) hnow id _, hbefore, ?_⟩
          ⟨fair.now (fun db => ∀ row ∈ db .scores, ¬ Score.eventId row = event.id) _ hnone, rfl⟩ ?_
        · refine hready.add_insert (List.mem_cons_self ..) ?_ hunused₂ ?_ ?_
          · simp [Session.begin, Session.draw, hs, insertIds]
          · intro key hkey
            rw [Row.indexed, List.mem_singleton] at hkey
            rwa [hkey]
          · simp [Session.begin, Session.draw, hs]
        · obtain ⟨row', hrow', hkept⟩ := exists_inserted_view (s := ((s.draw id).begin now).add _)
            L₂.db (List.mem_append_right _ (List.mem_singleton_self _))
          have hstatic : Row.Static (t := .scores) Score.eventId := fun _ _ _ => rfl
          exact ⟨row', hrow', hkept.static hstatic⟩
      · cases hw
        have hrefuse : Db.refuses L₂.db (.insert .scores ({ id, eventId := event.id, identityId
                                                            score, features
                                                            policyVersion :=
                                                              app.scoringPolicy.policyVersion
                                                            decision, createdAt := now } : Score)) =
          true := hrefuse
        simp [Db.refuses, Row.keys, Row.indexed, hfree, holds_row_of_not_inUse hunused₂, Row.id]
          at hrefuse

theorem wp_scoreEvent (fair : Fair rules sight) (hs : s.pending = []) {event : Event}
    {identityId : Uuid} {interpretation : Interpretation} (hevent : Sees sight L event)
    (hlinked : Resolve.SeesLinked sight L event.id identityId)
    {post : Post Db Write Error Reply Score}
    (hok : ∀ s' L' now ws row, Proceeds rules s L now ws s' L' →
      Scores app sight L' event identityId interpretation row ws → post (.ok row) s' L')
    (hvalue : computeScore app.scoringPolicy interpretation.label interpretation.confidence
      event.source event.consent event.campaignId = none → post (.error .valueError) s L) :
    wp rules (scoreEvent app event identityId interpretation) post s L := by
  unfold scoreEvent
  simp only [bind_eq, pure_eq]
  cases hscore : computeScore app.scoringPolicy interpretation.label interpretation.confidence
      event.source event.consent event.campaignId with
  | none => exact hvalue hscore
  | some result =>
      obtain ⟨score, decision, features⟩ := result
      simp only [wp_bind]
      refine wp_upsertScore fair hs fun s₁ L₁ now₁ upsert h₁ hrow hview => ?_
      have hevent := h₁.before.sight fair hevent
      have hlinked := hlinked.imp_right (h₁.before.sight fair)
      simp only [Post.andThen_ok, wp_bind]
      refine wp_select fair h₁.ready fun s₂ L₂ now₂ h₂ _ => ?_
      have hevent := h₂.before.sight fair hevent
      have hlinked := hlinked.imp_right (h₂.before.sight fair)
      have hrow := hrow.mono fun P => h₂.before.sight fair
      rw [Post.andThen_ok]
      cases hfind : (s₁.view L₂.db .scores).find? fun row => Decidable.decide (row.eventId = event.id) with
      | none =>
          -- the upsert left a row, and rows stay
          exfalso
          obtain ⟨row, hmem, heventId⟩ := hview
          obtain ⟨row₀, hrow₀, hkept⟩ := Db.mem_foldl_apply hmem
          have hstatic : Row.Static (t := .scores) Score.eventId := fun _ _ _ => rfl
          have hrow₀' : ∃ row' ∈ s₁.view L₂.db .scores, Row.Kept row₀ row' := by
            rcases hrow₀ with hrow₀ | hrow₀
            · obtain ⟨row₁, hrow₁, hkept₁⟩ := (h₂.before.toExtends fair).exists_kept hrow₀
              obtain ⟨row₂, hrow₂, hkept₂⟩ := exists_kept_view (s := s₁) hrow₁
              exact ⟨row₂, hrow₂, hkept₁.trans hkept₂⟩
            · exact exists_inserted_view L₂.db (mem_inserted.mp hrow₀)
          obtain ⟨row', hrow', hkept'⟩ := hrow₀'
          refine absurd (List.find?_eq_none.mp hfind row' hrow') ?_
          simpa using (hkept'.static hstatic).trans ((hkept.static hstatic).symm.trans heventId)
      | some row =>
          have heventId : Score.eventId row = event.id := by simpa using List.find?_some hfind
          have hread : sight (fun db => row ∈ (upsertWrites upsert).foldl Db.apply db .scores) L₂ := by
            refine fair.now _ L₂ ?_
            have hmem := List.mem_of_find?_eq_some hfind
            rwa [Session.view, h₁.pending, hs, List.nil_append] at hmem
          obtain ⟨rfl, h₂⟩ := h₁.trans h₂
          simp only [wp_bind]
          refine wp_writeReceipt fair h₂.ready fun s₃ L₃ rid now₃ h₃ _ => ?_
          have hread := h₃.before.sight fair hread
          have hevent := h₃.before.sight fair hevent
          have hlinked := hlinked.imp_right (h₃.before.sight fair)
          have hrow := hrow.mono fun P => h₃.before.sight fair
          obtain ⟨rfl, h₃⟩ := h₂.trans h₃
          rw [List.append_nil] at h₃
          exact hok s₃ L₃ now₃ _ row h₃ (.intro hevent hlinked hscore hrow heventId hread)

end Scoring

/-! ### Acting -/

namespace Attribute

@[simp]
theorem editTouch_fixed (touch : AttributionTouch) (event : Event) (now : Time) :
    (editTouch touch event now).id = touch.id ∧
      (editTouch touch event now).identityId = touch.identityId ∧
      (editTouch touch event now).createdAt = touch.createdAt := by
  simp only [editTouch]
  split <;> split <;> exact ⟨rfl, rfl, rfl⟩

@[simp]
theorem extendTouch_fixed (touch : AttributionTouch) (event : Event) (now : Time) :
    (extendTouch touch event now).id = touch.id ∧
      (extendTouch touch event now).identityId = touch.identityId ∧
      (extendTouch touch event now).createdAt = touch.createdAt := by
  simp only [extendTouch]
  split <;> split <;> exact ⟨rfl, rfl, rfl⟩

theorem wp_upsertAttribution (fair : Fair rules sight) (hs : Ready s L)
    (huntouched : ∀ w ∈ s.pending, w.table ≠ .attributionTouches) {event : Event} {identityId : Uuid}
    (hlead : (∃ lead : Lead, .insert .leads lead ∈ s.pending ∧ lead.identityId = identityId) ∨
      sight (fun db => ∃ lead ∈ db .leads, Lead.identityId lead = identityId) L)
    {post : Post Db Write Error Reply (AttributionTouch × AttributionTouch)}
    (hok : ∀ s' L' now updatedAt touch, Proceeds rules s L now touch.inserts s' L' →
      Act.TouchesBy sight L' event identityId now updatedAt touch →
      post (.ok (touch.loaded, touch.row)) s' L')
    (hraced : ∀ x s' L', Raced rules → post (.error x) s' L') :
    wp rules (upsertAttribution event identityId) post s L := by
  unfold upsertAttribution findTouch
  simp only [bind_eq, pure_eq, wp_bind]
  refine wp_find fair hs huntouched (fun s₁ L₁ now₁ existing h₁ _ hfind => ?_)
    fun s₁ L₁ now₁ h₁ hnone => ?_
  · have hexisting : existing ∈ L₁.db .attributionTouches := List.mem_of_find?_eq_some hfind
    have hidentity : AttributionTouch.identityId existing = identityId := by
      simpa using List.find?_some hfind
    simp only [Post.andThen_ok, wp_bind]
    refine wp_utcNow fair h₁.ready fun L₂ updatedAt hbefore hready _ => ?_
    have h₂ : Proceeds rules s L now₁ [] s₁ L₂ :=
      ⟨h₁.toContinues, h₁.before.trans (hbefore.mono h₁.own), hready⟩
    have hby : ∀ new, new = (if event.isEdit then editTouch existing event updatedAt
        else extendTouch existing event updatedAt) →
        post (.ok (existing, new)) s₁ L₂ := fun new hnew =>
      hok s₁ L₂ now₁ updatedAt (.updated existing new) h₂
        ⟨hbefore.sight fair (fair.now _ _ hexisting), hidentity, hnew⟩
    rw [Post.andThen_ok]
    split
    · next hedit => exact hby _ (by rw [if_pos hedit])
    · next hedit => exact hby _ (by rw [if_neg hedit])
  · have hnone : ∀ touch ∈ L₁.db .attributionTouches,
        ¬ AttributionTouch.identityId touch = identityId :=
      fun touch htouch => by simpa using hnone touch htouch
    simp only [Post.andThen_ok, wp_bind]
    refine wp_tryInsert_seen fair h₁.ready (fun _ _ => rfl)
      (by rwa [h₁.pending, List.append_nil]) ?_ (fun s₂ L₂ id now₂ h₂ => ?_)
      (fun s₂ L₂ id now₂ h₂ _ _ => ?_) fun s₂ L₂ now₂ h₂ hrace => ?_
    · intro id now key hkey
      rw [Row.indexed, List.mem_singleton] at hkey
      rw [Db.holds_eq_false]
      intro touch htouch hmem
      simp only [hkey, Row.keys, Row.indexed, List.mem_cons, reduceCtorEq,
        Key.touchIdentity.injEq, List.not_mem_nil, or_false, false_or] at hmem
      exact hnone touch htouch hmem.symm
    · rcases hlead with ⟨lead, hmem, hidentity⟩ | hseen
      · exact .inl ⟨lead, by rwa [h₂.pending, h₁.pending, List.append_nil, List.append_nil], hidentity⟩
      · have hstatic : Row.Static (t := .leads) Lead.identityId := fun _ _ _ => rfl
        have hlead := fair.persists hstatic (h₁.before.sight fair hseen)
        exact .inr (h₂.before.sight fair (fair.now (fun db => (∃ lead ∈ db .leads,
          Lead.identityId lead = identityId) ∧ ∀ touch ∈ db .attributionTouches,
            AttributionTouch.identityId touch ≠ identityId) L₁ ⟨hlead, hnone⟩))
    · obtain ⟨rfl, h₂'⟩ := h₁.trans h₂
      refine hok s₂ L₂ now₂ 0 (.created _) h₂' ⟨?_, rfl⟩
      exact h₂.before.sight fair (fair.now (fun db => ∀ touch ∈ db .attributionTouches,
        ¬ AttributionTouch.identityId touch = identityId) _ hnone)
    · simp only [Post.andThen_ok, wp_bind]
      refine wp_rollbackNow fun L₃ h₃ => ?_
      simp only [Post.andThen_ok, wp_bind]
      exact wp_find fair (.of_idle rfl _) (by simp [Session.undo])
        (fun s₄ L₄ now₄ touch h₄ _ _ => hraced _ s₄ L₄ hrace)
        fun s₄ L₄ now₄ h₄ _ => hraced _ s₄ L₄ hrace

end Attribute

namespace Act

theorem wp_createOrUpdateLead (fair : Fair rules sight) (hs : s.pending = []) {event : Event}
    {identityId : Uuid} {post : Post Db Write Error Reply (Lead × Lead × Op)}
    (hok : ∀ s' L' now lead, Proceeds rules s L now lead.inserts s' L' →
      LeadsBy sight L' event identityId now lead → post (.ok (lead.loaded, lead.row, lead.op)) s' L')
    (hraced : ∀ x s' L', Raced rules → post (.error x) s' L') :
    wp rules (createOrUpdateLead event identityId) post s L := by
  unfold createOrUpdateLead findLead
  simp only [bind_eq, pure_eq, wp_bind]
  refine wp_find fair (.of_idle hs L) (by simp [hs]) (fun s₁ L₁ now₁ existing h₁ _ hfind => ?_)
    fun s₁ L₁ now₁ h₁ hnone => ?_
  · have hexisting : existing ∈ L₁.db .leads := List.mem_of_find?_eq_some hfind
    have hidentity : Lead.identityId existing = identityId := by simpa using List.find?_some hfind
    exact hok s₁ L₁ now₁ (.updated existing _) h₁ ⟨fair.now _ _ hexisting, hidentity, rfl⟩
  · have hnone : ∀ lead ∈ L₁.db .leads, ¬ Lead.identityId lead = identityId :=
      fun lead hlead => by simpa using hnone lead hlead
    simp only [Post.andThen_ok, wp_bind]
    refine wp_tryInsert_seen fair h₁.ready (fun _ _ => rfl) (by simp [h₁.pending, hs]) ?_
      (fun _ _ _ _ _ => trivial) (fun s₂ L₂ id now₂ h₂ _ _ => ?_) fun s₂ L₂ now₂ h₂ hrace => ?_
    · intro id now key hkey
      rw [Row.indexed, List.mem_singleton] at hkey
      rw [Db.holds_eq_false]
      intro lead hlead hmem
      simp only [hkey, Row.keys, Row.indexed, List.mem_cons, reduceCtorEq,
        Key.leadIdentity.injEq, List.not_mem_nil, or_false, false_or] at hmem
      exact hnone lead hlead hmem.symm
    · obtain ⟨rfl, h₂'⟩ := h₁.trans h₂
      refine hok s₂ L₂ now₂ (.created _) h₂' ⟨?_, rfl⟩
      exact h₂.before.sight fair (fair.now
        (fun db => ∀ lead ∈ db .leads, ¬ Lead.identityId lead = identityId) _ hnone)
    · simp only [Post.andThen_ok, wp_bind]
      refine wp_rollbackNow fun L₃ h₃ => ?_
      simp only [Post.andThen_ok, wp_bind]
      exact wp_find fair (.of_idle rfl _) (by simp [Session.undo])
        (fun s₄ L₄ now₄ lead h₄ _ _ => hraced _ s₄ L₄ hrace)
        fun s₄ L₄ now₄ h₄ _ => hraced _ s₄ L₄ hrace

/-- The lead of an upsert is a new one of the transaction, or one that was seen. -/
theorem LeadsBy.lead {event : Event} {identityId : Uuid} {now : Time} {lead : Upsert .leads}
    (fair : Fair rules sight) (h : LeadsBy sight L event identityId now lead) :
    (∃ new : Lead, .insert .leads new ∈ lead.inserts ∧ new.id = Lead.id lead.row ∧
        new.identityId = identityId) ∨
      sight (fun db => ∃ row ∈ db .leads, Lead.id row = Lead.id lead.row ∧
        Lead.identityId row = identityId) L := by
  cases lead with
  | created row => exact .inl ⟨row, List.mem_singleton_self _, rfl, by rw [h.2]⟩
  | updated loaded new =>
      obtain ⟨hseen, hidentity, rfl⟩ := h
      exact .inr (fair.mono _ _ L (fun db hdb => ⟨loaded, hdb, rfl, hidentity⟩) hseen)

theorem wp_routeLead (fair : Fair rules sight) (hs : Ready s L) {start : Time}
    (hstart : s.start = some start) (huntouched : ∀ w ∈ s.pending, w.table ≠ .routes)
    {loaded lead : Lead} {decision label : String} (hid : lead.id = loaded.id)
    (hidentity : lead.identityId = loaded.identityId)
    (hlead : (∃ new : Lead, .insert .leads new ∈ s.pending ∧ new.id = lead.id) ∨
      sight (fun db => db.Has .leads lead.id) L)
    {post : Post Db Write Error Reply (Route × Route × Op)}
    (hok : ∀ s' L' now assignedAt route,
      Proceeds rules s L now (saved .leads loaded lead now ++ route.inserts) s' L' →
      RoutesBy sight L' lead.id (applyRoutingRule decision label app.routingRules) assignedAt route →
      now ≤ assignedAt → post (.ok (route.loaded, route.row, route.op)) s' L')
    (hraced : ∀ x s' L', Raced rules → post (.error x) s' L') :
    wp rules (routeLead app loaded lead decision label) post s L := by
  unfold routeLead findRoute
  simp only [bind_eq, pure_eq, wp_bind]
  refine wp_utcNow fair hs fun L₁ assignedAt hbefore hready hread => ?_
  have hassigned : start ≤ assignedAt := hread start (by simp [hstart])
  simp only [Post.andThen_ok, wp_bind]
  refine wp_save_of_ne fair hready (by decide)
    (fun now => by simp [Row.keys, Row.id, Row.indexed, Row.stamp, hid, hidentity])
    fun s₂ L₂ now₂ h₂ => ?_
  obtain rfl : now₂ = start := h₂.starts start (by simp [hstart])
  have h₂ : Proceeds rules s L now₂ (saved .leads loaded lead now₂) s₂ L₂ :=
    ⟨h₂.toContinues, hbefore.trans h₂.before, h₂.ready⟩
  have huntouched₂ : ∀ w ∈ s₂.pending, w.table ≠ .routes := by
    intro w hw
    rw [h₂.pending, List.mem_append] at hw
    rcases hw with hw | hw
    · exact huntouched w hw
    · rw [(table_of_mem_saved hw).1]
      simp [Write.table]
  simp only [Post.andThen_ok, wp_bind]
  refine wp_find fair h₂.ready huntouched₂ (fun s₃ L₃ now₃ existing h₃ _ hfind => ?_)
    fun s₃ L₃ now₃ h₃ hnone => ?_
  · have hexisting : existing ∈ L₃.db .routes := List.mem_of_find?_eq_some hfind
    have hlead : Route.leadId existing = lead.id := by simpa using List.find?_some hfind
    obtain ⟨rfl, h₃⟩ := h₂.trans h₃
    exact hok s₃ L₃ now₃ assignedAt (.updated existing _) h₃
      ⟨fair.now _ _ hexisting, hlead, rfl⟩ hassigned
  · have hnone : ∀ route ∈ L₃.db .routes, ¬ Route.leadId route = lead.id :=
      fun route hroute => by simpa using hnone route hroute
    simp only [Post.andThen_ok, wp_bind]
    refine wp_tryInsert_seen fair h₃.ready (fun _ _ => rfl)
      (by rwa [h₃.pending, List.append_nil]) ?_ (fun s₄ L₄ id now₄ h₄ => ?_)
      (fun s₄ L₄ id now₄ h₄ _ _ => ?_) fun s₄ L₄ now₄ h₄ hrace => ?_
    · intro id now key hkey
      rw [Row.indexed, List.mem_singleton] at hkey
      rw [Db.holds_eq_false]
      intro route hroute hmem
      simp only [hkey, Row.keys, Row.indexed, List.mem_cons, reduceCtorEq, Key.routeLead.injEq,
        List.not_mem_nil, or_false, false_or] at hmem
      exact hnone route hroute hmem.symm
    · rcases hlead with ⟨new, hmem, hid⟩ | hseen
      · refine .inl ⟨new, ?_, hid⟩
        rw [h₄.pending, h₃.pending, h₂.pending]
        simp [hmem]
      · have hhas := fair.persists (Row.static_id .leads)
          (h₃.before.sight fair (h₂.before.sight fair hseen))
        exact .inr (h₄.before.sight fair (fair.now (fun db => db.Has .leads lead.id ∧
          ∀ route ∈ db .routes, Route.leadId route ≠ lead.id) L₃ ⟨hhas, hnone⟩))
    · obtain ⟨rfl, h₄'⟩ := h₃.trans h₄
      obtain ⟨rfl, h₄'⟩ := h₂.trans h₄'
      refine hok s₄ L₄ now₄ assignedAt (.created _) h₄' ⟨?_, rfl⟩ hassigned
      exact h₄.before.sight fair (fair.now
        (fun db => ∀ route ∈ db .routes, ¬ Route.leadId route = lead.id) _ hnone)
    · simp only [Post.andThen_ok, wp_bind]
      refine wp_rollbackNow fun L₅ h₅ => ?_
      simp only [Post.andThen_ok, wp_bind]
      exact wp_find fair (.of_idle rfl _) (by simp [Session.undo])
        (fun s₆ L₆ now₆ route h₆ _ _ => hraced _ s₆ L₆ hrace)
        fun s₆ L₆ now₆ h₆ _ => hraced _ s₆ L₆ hrace

/-- The touch keeps its entries. -/
theorem Grounds.touch_keys {event : Event} {identityId : Uuid} {score : Option Score}
    {lead : Upsert .leads} {route : Upsert .routes} {touch : Upsert .attributionTouches}
    {now assignedAt updatedAt : Time}
    (h : Grounds app sight L event identityId score lead route touch now assignedAt updatedAt)
    (now' : Time) : (Row.stamp (t := .attributionTouches) touch.row now').keys = touch.loaded.keys := by
  refine Upsert.By.kept h.touched fun row => ?_
  simp only [Row.keys, Row.id, Row.indexed]
  split <;> simp

/-- The end of `act`: the flush of the touch, the three receipts and the commit. -/
theorem wp_record (fair : Fair rules sight) {s₀ : Session Write Reply} {event : Event}
    {identityId : Uuid} {score : Option Score} (lead : Upsert .leads) (route : Upsert .routes)
    (touch : Upsert .attributionTouches) {now : Time} (hs : Ready s L)
    (hstart : s.start = some now) (hown : s₀.own ⊆ s.own)
    (hkeys : ∀ now, (Row.stamp (t := .attributionTouches) touch.row now).keys = touch.loaded.keys)
    (hpending : s.pending = lead.inserts ++ saved .leads lead.loaded lead.row now ++ route.inserts ++
      saved .leads lead.row ({ (lead.row : Lead) with status := .routed } : Lead) now ++
      saved .routes route.loaded route.row now ++ touch.inserts)
    {T : Ledger Db Write → List Write → Prop} (howes : Owes rules s₀ T)
    (hpay : ∀ L' leadRid routeRid touchRid, Before rules s.own L L' →
      T L' (writes event identityId (decisionOf score) lead route touch leadRid routeRid touchRid now))
    {post : Post Db Write Error Reply Acted} {acted : Acted}
    (hok : ∀ s' L₁ ws, Rests s [] s' → Before rules s.own L L₁ → T L₁ ws → Applicable ws L₁.db →
      post (.ok acted) s' (L₁.commit ws)) :
    wp rules (do
      save .attributionTouches Error.integrityError touch.loaded touch.row
      let _ ← writeReceipt (if lead.op = .created then .leadCreated else .leadUpdated)
        (Lead.id lead.row) .lead (.lead lead.op (decisionOf score)) (some event.id) (some identityId)
      let _ ← writeReceipt (if route.op = .created then .routed else .routeUpdated)
        (Route.id route.row) .route (.route (Route.queue route.row) (Route.ruleMatched route.row)
          (Route.slaDeadline route.row)) (some event.id) (some identityId)
      let _ ← writeReceipt (if lead.op = .created then .attributedCreated else .attributedUpdated)
        (AttributionTouch.id touch.row) .attributionTouch
        (.attributed (AttributionTouch.firstTouchAt touch.row)
          (AttributionTouch.lastTouchAt touch.row)) (some event.id) (some identityId)
      commitNow
      return acted) post s L := by
  simp only [bind_eq, pure_eq, wp_bind]
  refine wp_save_of_ne fair hs (by decide) hkeys fun s₁ L₁ now₁ h₁ => ?_
  obtain rfl : now₁ = now := h₁.starts now (by simp [hstart])
  simp only [Post.andThen_ok, wp_bind]
  refine wp_writeReceipt fair h₁.ready fun s₂ L₂ leadRid now₂ h₂ _ => ?_
  obtain ⟨rfl, h₂⟩ := h₁.trans h₂
  simp only [Post.andThen_ok, wp_bind]
  refine wp_writeReceipt fair h₂.ready fun s₃ L₃ routeRid now₃ h₃ _ => ?_
  obtain ⟨rfl, h₃⟩ := h₂.trans h₃
  simp only [Post.andThen_ok, wp_bind]
  refine wp_writeReceipt fair h₃.ready fun s₄ L₄ touchRid now₄ h₄ _ => ?_
  obtain ⟨rfl, h₄⟩ := h₃.trans h₄
  simp only [Post.andThen_ok, wp_bind]
  have hwrites : s₄.pending = writes event identityId (decisionOf score) lead route touch leadRid
      routeRid touchRid now₄ := by
    rw [h₄.pending, hpending, writes]
    simp only [List.append_assoc, List.cons_append, List.nil_append]
  refine wp_commitNow fair h₄.ready howes (fun _ hu => h₄.own (hown hu)) hwrites
    (fun L' h' => hpay L' _ _ _ (h₄.before.trans (h'.mono h₄.own))) fun L' h' hT happ => ?_
  exact hok _ L' _ h₄.rests_close (h₄.before.trans (h'.mono h₄.own)) hT happ

/-- What acting returns of its rows. -/
def performed (score : Option Score) (lead : Upsert .leads) (route : Upsert .routes)
    (touch : Upsert .attributionTouches) : Acted where
  leadId := Lead.id lead.row
  leadOp := lead.op
  routeId := Route.id route.row
  queue := Route.queue route.row
  ruleMatched := Route.ruleMatched route.row
  slaDeadline := Route.slaDeadline route.row
  decision := decisionOf score
  attributionTouchId := AttributionTouch.id touch.row

/-- An event is acted on, and what is returned is of the rows that are written. -/
inductive Performs (app : App) (sight : Sight) (L : Ledger Db Write) (event : Event)
    (identityId : Uuid) (score : Option Score) : Acted → List Write → Prop
  | intro {lead route touch leadRid routeRid touchRid now assignedAt updatedAt}
      (h : Grounds app sight L event identityId score lead route touch now assignedAt updatedAt) :
      Performs app sight L event identityId score (performed score lead route touch)
        (writes event identityId (decisionOf score) lead route touch leadRid routeRid touchRid now)

theorem Performs.acts {event : Event} {identityId : Uuid} {score : Option Score} {acted : Acted}
    {ws : List Write} (h : Performs app sight L event identityId score acted ws) :
    Acts app sight L event identityId score ws := by
  obtain ⟨h⟩ := h
  exact .intro h

theorem wp_act (fair : Fair rules sight) (hs : s.pending = []) {event : Event} {identityId : Uuid}
    {score : Option Score} (hevent : Sees sight L event)
    (hlinked : Resolve.SeesLinked sight L event.id identityId)
    (howes : Owes rules s fun L ws => Acts app sight L event identityId score ws)
    {post : Post Db Write Error Reply Acted}
    (hok : ∀ s' L₁ ws acted, Rests s [] s' → Before rules s.own L L₁ →
      Performs app sight L₁ event identityId score acted ws → Applicable ws L₁.db →
      post (.ok acted) s' (L₁.commit ws))
    (hraced : ∀ x s' L', Raced rules → post (.error x) s' L') :
    wp rules (act app event identityId score) post s L := by
  unfold act
  simp only [bind_eq, pure_eq, wp_bind]
  refine wp_createOrUpdateLead fair hs (fun s₁ L₁ now₁ lead h₁ hlead => ?_) hraced
  have hevent := h₁.before.sight fair hevent
  have hlinked := hlinked.imp_right (h₁.before.sight fair)
  simp only [Post.andThen_ok, wp_bind]
  have hlead' := hlead.lead fair
  refine wp_routeLead fair h₁.ready h₁.start ?_ (Upsert.By.kept hlead fun _ => rfl)
    (Upsert.By.kept hlead fun _ => rfl) ?_
    (fun s₂ L₂ now₂ assignedAt route h₂ hroute hassigned => ?_) hraced
  · intro w hw
    rw [h₁.pending, hs, List.nil_append] at hw
    rw [Upsert.table_of_mem_inserts hw]
    decide
  · refine hlead'.imp (fun ⟨new, hmem, hid, _⟩ => ⟨new, ?_, hid⟩)
      (fair.mono _ _ L₁ fun db ⟨row, hrow, hid, _⟩ => ⟨row, hrow, hid⟩)
    exact h₁.pending ▸ List.mem_append_right _ hmem
  have hlead' := hlead'.imp_right (h₂.before.sight fair)
  have hevent := h₂.before.sight fair hevent
  have hlinked := hlinked.imp_right (h₂.before.sight fair)
  have hlead := hlead.mono fun P => h₂.before.sight fair
  have hkeys : ∀ now, (Row.stamp (t := .routes) route.row now).keys = route.loaded.keys :=
    fun now => Upsert.By.kept hroute fun _ => rfl
  obtain ⟨rfl, h₂⟩ := h₁.trans h₂
  simp only [Post.andThen_ok, wp_bind]
  refine wp_save_of_ne fair h₂.ready (by decide) (fun _ => rfl) fun s₃ L₃ now₃ h₃ => ?_
  have hevent := h₃.before.sight fair hevent
  have hlinked := hlinked.imp_right (h₃.before.sight fair)
  have hlead := hlead.mono fun P => h₃.before.sight fair
  have hroute := hroute.mono fun P => h₃.before.sight fair
  have hlead' := hlead'.imp_right (h₃.before.sight fair)
  obtain ⟨rfl, h₃⟩ := h₂.trans h₃
  simp only [Post.andThen_ok, wp_bind]
  refine wp_save_of_ne fair h₃.ready (by decide) hkeys fun s₄ L₄ now₄ h₄ => ?_
  have hevent := h₄.before.sight fair hevent
  have hlinked := hlinked.imp_right (h₄.before.sight fair)
  have hlead := hlead.mono fun P => h₄.before.sight fair
  have hroute := hroute.mono fun P => h₄.before.sight fair
  have hlead' := hlead'.imp_right (h₄.before.sight fair)
  obtain ⟨rfl, h₄⟩ := h₃.trans h₄
  simp only [Post.andThen_ok, wp_bind]
  refine Attribute.wp_upsertAttribution fair h₄.ready ?_ ?_
    (fun s₅ L₅ now₅ updatedAt touch h₅ htouch => ?_) hraced
  · intro w hw
    rw [h₄.pending, hs] at hw
    simp only [List.nil_append, List.mem_append] at hw
    obtain (((hw | hw | hw) | hw) | hw) := hw
    · rw [Upsert.table_of_mem_inserts hw]
      decide
    · rw [(table_of_mem_saved hw).1]
      simp [Write.table]
    · rw [Upsert.table_of_mem_inserts hw]
      decide
    · rw [(table_of_mem_saved hw).1]
      simp [Write.table]
    · rw [(table_of_mem_saved hw).1]
      simp [Write.table]
  · refine hlead'.imp (fun ⟨new, hmem, _, hidentity⟩ => ⟨new, ?_, hidentity⟩)
      (fair.mono _ _ L₄ fun db ⟨row, hrow, _, hidentity⟩ => ⟨row, hrow, hidentity⟩)
    rw [h₄.pending]
    simp [hmem]
  obtain ⟨rfl, h₅'⟩ := h₄.trans h₅
  have hgrounds : Grounds app sight L₅ event identityId score lead route touch now₅ assignedAt
      updatedAt :=
    ⟨h₅.before.sight fair hevent, hlinked.imp_right (h₅.before.sight fair),
      hlead.mono fun P => h₅.before.sight fair, hroute.mono fun P => h₅.before.sight fair, hassigned,
      htouch⟩
  have howes : Owes rules s fun L ws =>
      Performs app sight L event identityId score (performed score lead route touch) ws :=
    fun s' L hown hready hperforms => howes s' L hown hready hperforms.acts
  refine wp_record fair lead route touch h₅'.ready h₅'.start h₅'.own hgrounds.touch_keys ?_ howes
    (fun L' leadRid routeRid touchRid h' => .intro (hgrounds.mono fun P => h'.sight fair))
    fun s' L' ws hrests hbefore hT happ => hok s' L' ws _ ?_ ?_ hT happ
  · rw [h₅'.pending, hs]
    simp only [List.append_assoc, List.nil_append]
  · refine ⟨hrests.pending, ?_, fun _ hu => hrests.own (h₅'.own hu)⟩
    rw [hrests.replies, h₅'.replies]
  · exact h₅'.before.trans (hbefore.mono h₅'.own)

end Act

/-! ### The pipeline -/

namespace Pipeline

/-- How a pipeline run of an event can end. -/
inductive Ends (app : App) (rules : Rules Db Write Question Reply) (sight : Sight)
    (s : Session Write Reply) (L : Ledger Db Write) (event : Event) (identityId : Uuid) :
    Except Error (Option Outcome) → Session Write Reply → Ledger Db Write → Prop
  | acted {s' L₁ ws₁ L₂ ws₂ L₃ ws₃ heard fields interpretation current score acted}
      (hrests : Rests s heard s') (hbefore₁ : Before rules s.own L L₁)
      (hfields : Interpret.Classification app event heard fields)
      (hinterprets : Interpret.Interprets sight L₁ event fields interpretation ws₁)
      (happ₁ : Applicable ws₁ L₁.db) (hbefore₂ : Before rules s.own (L₁.commit ws₁) L₂)
      (hcurrent : sight (fun db => current ∈ db .interpretations) L₂)
      (heventId : current.eventId = event.id)
      (hscores : Scoring.Scores app sight L₂ event identityId current score ws₂)
      (happ₂ : Applicable ws₂ L₂.db) (hbefore₃ : Before rules s.own (L₂.commit ws₂) L₃)
      (hacts : Act.Performs app sight L₃ event identityId (some score) acted ws₃)
      (happ₃ : Applicable ws₃ L₃.db) :
      Ends app rules sight s L event identityId (.ok (some ⟨interpretation, some score, acted⟩)) s'
        (L₃.commit ws₃)
  | dead {s' L₁ ws heard error} (hrests : Rests s heard s') (hbefore : Before rules s.own L L₁)
      (herror : Interpret.Exhausted app event heard error)
      (hdead : Interpret.DeadLetters sight L₁ event ws) (happ : Applicable ws L₁.db) :
      Ends app rules sight s L event identityId (.ok none) s' (L₁.commit ws)
  | alreadyDead {s' L₁ L' heard error} (hrests : Rests s heard s')
      (hbefore : Before rules s.own L L₁) (herror : Interpret.Exhausted app event heard error)
      (hheld : L₁.db.holds .deadLetterQueue (.unresolvedEvent event.id) = true)
      (hafter : Before rules s.own L₁ L') :
      Ends app rules sight s L event identityId (.ok none) s' L'
  | noText (htext : Interpret.extractText event = none) :
      Ends app rules sight s L event identityId (.error .attributeError) s L
  | unstorable {s' L' heard fields} (hrests : Rests s heard s') (hbefore : Before rules s.own L L')
      (hfields : Interpret.Classification app event heard fields)
      (hunstorable : fields.storable = false) :
      Ends app rules sight s L event identityId (.error .dataError) s' L'
  | badMessage {s' L' heard error} (hrests : Rests s heard s') (hbefore : Before rules s.own L L')
      (herror : Interpret.Exhausted app event heard error)
      (hunstorable : Python.storable (Python.take 500 error.message) = false) :
      Ends app rules sight s L event identityId (.error .dataError) s' L'
  | noScore {s' L₁ ws₁ L' heard fields interpretation current} (hrests : Rests s heard s')
      (hbefore : Before rules s.own L L₁)
      (hfields : Interpret.Classification app event heard fields)
      (hinterprets : Interpret.Interprets sight L₁ event fields interpretation ws₁)
      (happ : Applicable ws₁ L₁.db) (hafter : Before rules s.own (L₁.commit ws₁) L')
      (hcurrent : current ∈ L'.db .interpretations) (heventId : current.eventId = event.id)
      (hscore : Scoring.computeScore app.scoringPolicy current.label current.confidence event.source
        event.consent event.campaignId = none) :
      Ends app rules sight s L event identityId (.error .valueError) s' L'
  | raced {x s' L'} (hraced : Raced rules) : Ends app rules sight s L event identityId (.error x) s' L'

/-- A pipeline that has acted rests. -/
theorem Ends.rests {event : Event} {identityId : Uuid} {outcome : Outcome}
    {s' : Session Write Reply} {L' : Ledger Db Write}
    (h : Ends app rules sight s L event identityId (.ok (some outcome)) s' L') :
    s'.pending = [] ∧ s.own ⊆ s'.own := by
  cases h with
  | acted hrests => exact ⟨hrests.pending, hrests.own⟩

/-- What a request has seen of a table outlives the commits that leave the table alone. -/
theorem sight_commit (fair : Fair rules sight) {t : Table} {ws : List Write}
    (hws : ∀ w ∈ ws, w.table ≠ t) (P : List (Row t) → Prop) (h : sight (fun db => P (db t)) L) :
    sight (fun db => P (db t)) (L.commit ws) :=
  fair.commit _ L ws (fun db hdb => by rwa [Db.foldl_apply_of_untouched hws]) h

theorem sightLinked_commit (fair : Fair rules sight) {ws : List Write}
    (hws : ∀ w ∈ ws, w.table ≠ .identityLinks) {eventId identityId : Uuid}
    (h : Resolve.SeesLinked sight L eventId identityId) :
    Resolve.SeesLinked sight (L.commit ws) eventId identityId :=
  h.imp_right (sight_commit (t := .identityLinks) fair hws fun rows => ∃ link ∈ rows,
    IdentityLink.eventId link = eventId ∧ IdentityLink.identityId link = identityId)

theorem wp_runDownstream (fair : Fair rules sight) (hs : s.pending = []) {event : Event}
    {identityId : Uuid} (hevent : Sees sight L event)
    (hlinked : Resolve.SeesLinked sight L event.id identityId)
    (hinterprets : ∀ fields interpretation, Owes rules s fun L ws =>
      Interpret.Interprets sight L event fields interpretation ws)
    (hdead : Owes rules s fun L ws => Interpret.DeadLetters sight L event ws)
    (hscores : ∀ interpretation score, Owes rules s fun L ws =>
      Scoring.Scores app sight L event identityId interpretation score ws)
    (hacts : ∀ score, Owes rules s fun L ws => Act.Acts app sight L event identityId score ws)
    {post : Post Db Write Error Reply (Option Outcome)}
    (h : ∀ r s' L', Ends app rules sight s L event identityId r s' L' → post r s' L') :
    wp rules (runDownstream app event identityId) post s L := by
  unfold runDownstream
  simp only [bind_eq, pure_eq, wp_bind]
  refine Interpret.wp_classifyEvent fair hs hevent hinterprets hdead
    (fun s₁ L₁ ws₁ heard fields interpretation hrests hbefore₁ hfields _ hinterprets₁ happ₁ => ?_)
    (fun s' L₁ ws heard error hrests hbefore herror _ hdead _ happ =>
      h _ _ _ (.dead hrests hbefore herror hdead happ))
    (fun s' L₁ L' heard error hrests hbefore herror _ hheld hafter =>
      h _ _ _ (.alreadyDead hrests hbefore herror hheld hafter))
    (fun htext => h _ _ _ (.noText htext))
    (fun s' L' heard fields hrests hbefore hfields _ hunstorable =>
      h _ _ _ (.unstorable hrests hbefore hfields hunstorable))
    (fun s' L' heard error hrests hbefore herror _ hunstorable =>
      h _ _ _ (.badMessage hrests hbefore herror hunstorable))
    (fun x s' L' hraced => h _ _ _ (.raced hraced))
  have hevent₁ : Sees sight (L₁.commit ws₁) event :=
    sight_commit fair (hinterprets₁.tables.ne (by decide))
      (fun rows => event ∈ rows) (hbefore₁.sight fair hevent)
  have hlinked₁ : Resolve.SeesLinked sight (L₁.commit ws₁) event.id identityId :=
    sightLinked_commit fair
      (hinterprets₁.tables.ne (by decide))
      (hlinked.imp_right (hbefore₁.sight fair))
  have hstatic : Row.Static (t := .interpretations) Interpretation.eventId := fun _ _ _ => rfl
  obtain ⟨row, hrow, hrowEvent⟩ := hinterprets₁.exists_row fair
  simp only [Post.andThen_ok, wp_bind]
  refine wp_find fair (.of_idle hrests.pending _) (by simp [hrests.pending])
    (fun s₂ L₂ now₂ current h₂ _ hfind => ?_) fun s₂ L₂ now₂ h₂ hnone => ?_
  · have hcurrent : current ∈ L₂.db .interpretations := List.mem_of_find?_eq_some hfind
    have hcurrentEvent : Interpretation.eventId current = event.id := by
      simpa using List.find?_some hfind
    have hrests₂ : Rests s heard s₂ := by simpa using hrests.trans (h₂.rests hrests.pending)
    have hbefore₂ : Before rules s.own (L₁.commit ws₁) L₂ := h₂.before.mono hrests.own
    have hevent₂ := h₂.before.sight fair hevent₁
    have hlinked₂ := hlinked₁.imp_right (h₂.before.sight fair)
    simp only [Post.andThen_ok, wp_bind]
    refine Scoring.wp_scoreEvent fair hrests₂.pending hevent₂ hlinked₂
      (fun s₃ L₃ now₃ ws₂ score h₃ hscores₃ => ?_) fun hscore => ?_
    · have hown₃ : s.own ⊆ s₃.own := fun _ hu => h₃.own (hrests₂.own hu)
      have hcurrent₃ := h₃.before.sight fair
        (fair.now (fun db => current ∈ db .interpretations) L₂ hcurrent)
      simp only [Post.andThen_ok, wp_bind]
      refine wp_commitNow fair h₃.ready (hscores current score) hown₃
        (by rw [h₃.pending, hrests₂.pending, List.nil_append])
        (fun L₄ h₄ => hscores₃.mono fun P => h₄.sight fair) fun L₄ h₄ hT₄ happ₄ => ?_
      have hevent₄ : Sees sight (L₄.commit ws₂) event :=
        sight_commit fair (hT₄.tables.ne (by decide))
          (fun rows => event ∈ rows) (h₄.sight fair (h₃.before.sight fair hevent₂))
      have hlinked₄ : Resolve.SeesLinked sight (L₄.commit ws₂) event.id identityId :=
        sightLinked_commit fair
          (hT₄.tables.ne (by decide))
          (hlinked₂.imp_right fun hlinked => h₄.sight fair (h₃.before.sight fair hlinked))
      simp only [Post.andThen_ok, wp_ret, wp_bind]
      refine Act.wp_act (s := s₃.close) fair rfl hevent₄ hlinked₄ ((hacts (some score)).mono hown₃)
        (fun s₅ L₅ ws₃ acted hrests₅ hbefore₅ hacts₅ happ₅ => ?_) fun x s' L' hraced => ?_
      swap
      · exact h _ _ _ (.raced hraced)
      have hheard : Rests s heard s₅ := by
        simpa using (hrests₂.trans h₃.rests_close).trans hrests₅
      exact h _ _ _ (.acted hheard hbefore₁ hfields hinterprets₁ happ₁
        ((hbefore₂.trans (h₃.before.mono hrests₂.own)).trans (h₄.mono hown₃))
        (h₄.sight fair hcurrent₃) hcurrentEvent hT₄ happ₄ (hbefore₅.mono hown₃) hacts₅ happ₅)
    · exact h _ _ _ (.noScore hrests₂ hbefore₁ hfields hinterprets₁ happ₁ hbefore₂ hcurrent
        hcurrentEvent hscore)
  · obtain ⟨row', hrow', hkept⟩ := (h₂.before.toExtends fair).exists_kept hrow
    refine absurd ?_ (hnone row' hrow')
    simpa using (hkept.static hstatic).trans hrowEvent

end Pipeline

end DemandSignal
