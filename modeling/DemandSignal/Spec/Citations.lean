import DemandSignal.Spec.Integrity
import DemandSignal.Txn.Constancy

/-!
# What requests cite

Every commit of every request cites rows that are there. An identity that a request has seen or made
is there for the rest of the request, and the identity of an escalation is that of a lead it read.
-/

namespace DemandSignal

open Txn Program

/-- The rules of a session whose transactions have to cite what is there. -/
structure Citing (rules : Rules Db Write Question Reply) (app : App) (sight : Sight) : Prop where
  fair : Fair rules sight
  intact : rules.Keeps Intact
  commits : ∀ s L, Ready s L → Transaction app sight L s.pending → L.db.Cites s.pending →
    rules.commits s L

theorem Fair.given {rules : Rules Db Write Question Reply} {sight : Sight} (fair : Fair rules sight)
    (fact : Ledger Db Write → Prop) : Fair (rules.given fact) sight where
  toLawful := fair.toLawful
  ready := fair.ready
  unused := fair.unused
  history := fair.history
  stable := fair.stable
  alone := fair.alone
  refusals s L t row hs hheld hcontested _ := fair.refusals s L t row hs hheld hcontested

/-- What everybody keeps outlives the interference a session sees. -/
theorem Before.keeps {rules : Rules Db Write Question Reply} {fact : Ledger Db Write → Prop}
    (hkeeps : rules.Keeps fact) {own : List Uuid} {L L' : Ledger Db Write}
    (h : Before rules own L L') (hL : fact L) : fact L' := by
  induction h with
  | refl => exact hL
  | tail _ hlast ih =>
      obtain ⟨s, -, hrely⟩ := hlast
      exact hkeeps.rely s _ _ hrely ih

/-! ### Escalations -/

/-- The identity of a receipt that is written is one of these. -/
def Signed (signers : Uuid → Prop) (w : Write) : Prop :=
  ∀ receipt : Receipt, w = .insert .receipts receipt → ∀ u ∈ receipt.identityId, signers u

def signing (signers : Uuid → Prop) : Watch Write Question Reply where
  writes _ w := Signed signers w

/-- On every path of the program the receipts are signed so. -/
def Signs (signers : Uuid → Prop) {α : Type} (p : Prog α) : Prop :=
  ∀ s, p.Walks (signing signers) (fun _ _ => True) s

namespace Signs

variable {signers : Uuid → Prop} {α β : Type}

theorem ret (a : α) : Signs signers (.ret a) := fun _ => trivial

theorem bind {p : Prog α} {g : α → Prog β} (hp : Signs signers p) (hg : ∀ a, Signs signers (g a)) :
    Signs signers (p.bind g) :=
  fun s => walks_bind.mpr ((hp s).mono fun a s _ => hg a s)

theorem commitNow : Signs signers (commitNow : Prog Unit) := fun _ => trivial

theorem select (q : Db → α) : Signs signers (.select q) := fun _ _ _ => trivial

theorem evaluateEscalation (route : Option Route) {identityId : Uuid} (hsigner : signers identityId) :
    Signs signers (Escalation.evaluateEscalation route identityId) := by
  unfold Escalation.evaluateEscalation
  cases route with
  | none => exact ret _
  | some route =>
    dsimp only
    split
    · exact ret _
    · refine bind (fun _ _ => trivial) fun now => ?_
      split
      · refine bind (fun s t => ⟨fun db w b hw => ⟨?_, trivial⟩, fun _ _ _ => trivial, trivial⟩)
          fun _ => bind (fun s u t => ⟨fun db w b hw => ⟨?_, trivial⟩, fun _ _ _ => trivial, trivial⟩)
            fun _ => ret _
        · rintro receipt rfl
          simp only [Prod.mk.injEq] at hw
          split at hw <;> cases hw.1
        · rintro receipt rfl
          cases hw
          rintro u ⟨⟩
          exact hsigner
      · exact ret _

theorem viewLead (filters : Leads.Filters) {lead : Lead} (hsigner : signers lead.identityId) :
    Signs signers (Leads.viewLead filters lead) := by
  unfold Leads.viewLead Leads.sourceMatches
  refine (select _).bind fun route => (select _).bind fun score => bind ?_ fun keep => ?_
  · split
    · exact ret _
    · refine (select _).bind fun event => ?_
      cases event <;> exact ret _
  · split
    · split
      · exact (evaluateEscalation route hsigner).bind fun _ => ret _
      · exact ret _
    · exact ret _

theorem viewLeads (filters : Leads.Filters) {leads : List Lead}
    (hsigners : ∀ lead ∈ leads, signers lead.identityId) :
    Signs signers (Leads.viewLeads filters leads) := by
  induction leads with
  | nil => exact ret _
  | cons lead leads ih =>
      exact (viewLead filters (hsigners lead (List.mem_cons_self ..))).bind fun view =>
        (ih fun lead hlead => hsigners lead (List.mem_cons_of_mem _ hlead)).bind fun _ => ret _

end Signs

/-- The database is intact and knows the identity. -/
def Knows (identityId : Uuid) (L : Ledger Db Write) : Prop :=
  Intact L ∧ L.db.Has .identities identityId

namespace Citing

variable {rules : Rules Db Write Question Reply} {sight : Sight} {s : Session Write Reply}
  {L : Ledger Db Write} {app : App}

theorem keepsHas (citing : Citing rules app sight) (t : Table) (u : Uuid) :
    rules.Keeps fun L => L.db.Has t u :=
  ⟨fun s L L' hrely h => (citing.fair.history s L L' hrely).has h, fun _ _ _ h => h.foldl _⟩

theorem keepsKnows (citing : Citing rules app sight) (identityId : Uuid) :
    rules.Keeps (Knows identityId) := citing.intact.and (citing.keepsHas ..)

/-- A transaction that cites what is there is paid for. -/
theorem owes (citing : Citing rules app sight) (s : Session Write Reply)
    {fact : Ledger Db Write → Prop} {T : Ledger Db Write → List Write → Prop}
    (htransaction : ∀ L ws, T L ws → Transaction app sight L ws)
    (hcites : ∀ L ws, fact L → T L ws → L.db.Cites ws) : Owes (rules.given fact) s T :=
  fun s' L _ hready hT hfact =>
    citing.commits s' L hready (htransaction L _ hT) (hcites L _ hfact hT)

/-! ### The pipeline -/

theorem wp_runDownstream (citing : Citing rules app sight) (hs : s.pending = []) {event : Event}
    {identityId : Uuid} (hevent : Sees sight L event)
    (hlinked : Resolve.SeesLinked sight L event.id identityId) (hknown : Knows identityId L)
    {post : Post Db Write Error Reply (Option Pipeline.Outcome)}
    (hpost : ∀ r s' L', Pipeline.Ends app (rules.given (Knows identityId)) sight s L event identityId
      r s' L' → Knows identityId L' → post r s' L') :
    wp rules (Pipeline.runDownstream app event identityId) post s L := by
  have lawful := citing.fair.toLawful
  refine wp_given (citing.keepsKnows identityId) hknown ?_
  exact Pipeline.wp_runDownstream (citing.fair.given _) hs hevent hlinked
    (fun _ _ => citing.owes s (fun _ _ => .interprets) fun _ _ _ h => h.cites lawful)
    (citing.owes s (fun _ _ => .deadLetters) fun _ _ _ h => h.cites lawful)
    (fun _ _ => citing.owes s (fun _ _ => .scores) fun _ _ hfact h => h.cites lawful hfact.2)
    (fun _ => citing.owes s (fun _ _ => .acts) fun _ _ hfact h => h.cites lawful hfact.1 hfact.2)
    hpost

/-- An identity that a link names is known. -/
theorem knows_of_linked (hintact : Intact L) {eventId identityId : Uuid}
    (h : Resolve.Linked eventId identityId L.db) : Knows identityId L := by
  obtain ⟨link, hlink, -, rfl⟩ := h
  exact ⟨hintact, hintact L .refl .identityLinks link hlink _ (List.mem_cons_self ..)⟩

/-- The pipeline behind a `POST`, a decision or a form. -/
theorem wp_downstream (citing : Citing rules app sight) (hs : s.pending = []) {event : Event}
    {identityId : Uuid} (hevent : Sees sight L event)
    (hlinked : Resolve.SeesLinked sight L event.id identityId) (hknown : Knows identityId L) {β : Type}
    {g : Option Pipeline.Outcome → Prog β}
    (hg : ∀ outcome s' L', wp rules (g outcome) (fun _ _ _ => True) s' L') :
    wp rules ((Pipeline.runDownstream app event identityId).bind g) (fun _ _ _ => True) s L := by
  rw [wp_bind]
  refine citing.wp_runDownstream hs hevent hlinked hknown fun r s' L' _ _ => ?_
  cases r with
  | error x => trivial
  | ok outcome => exact hg outcome s' L'

theorem wp_process (citing : Citing rules app sight) (hs : s.pending = []) {event : Event}
    {status : Ingest.IngestStatus} (hevent : Sees sight L event) (hintact : Intact L) :
    wp rules (Events.process app event status) (fun _ _ _ => True) s L := by
  have lawful := citing.fair.toLawful
  unfold Events.process
  simp only [bind_eq, pure_eq, wp_bind]
  refine wp_given citing.intact hintact (Resolve.wp_resolveIdentity (citing.fair.given _) hs hevent
    (fun _ => citing.owes s (fun _ _ => .links) fun _ _ _ h => h.cites lawful)
    (citing.owes s (fun _ _ => .parks) fun _ _ _ h => h.cites lawful)
    (fun s₁ L₁ identityId hrests hbefore hlinked hintact => ?_)
    (fun s₁ L₁ L' ws identityId expired hrests hbefore hT happ hafter _ hintact => ?_)
    (fun _ _ _ _ _ _ _ _ _ _ _ => trivial) fun _ _ _ _ _ => trivial)
  · refine citing.wp_downstream hrests.pending (hbefore.sight (citing.fair.given _) hevent)
      (.inr (citing.fair.now _ _ hlinked)) (knows_of_linked hintact hlinked) fun outcome _ _ => ?_
    cases outcome <;> trivial
  · cases expired with
    | true => trivial
    | false =>
        have hknown : Knows identityId L' := ⟨hintact, (hafter.toExtends (citing.fair.given _)).has
          (hT.has lawful)⟩
        have hevent : Sees sight (L₁.commit ws) event :=
          Pipeline.sight_commit citing.fair (hT.tables.ne (by decide))
            (fun rows => event ∈ rows) (hbefore.sight (citing.fair.given _) hevent)
        refine citing.wp_downstream hrests.pending (hafter.sight (citing.fair.given _) hevent)
          ((hT.linked lawful).imp_right (hafter.sight (citing.fair.given _))) hknown
          fun outcome _ _ => ?_
        cases outcome <;> trivial

theorem wp_createEvent (citing : Citing rules app sight) (hs : s.pending = []) (hintact : Intact L)
    (body : Option Json) : wp rules (Events.createEvent app body) (fun _ _ _ => True) s L := by
  have lawful := citing.fair.toLawful
  by_cases hvalid : ∃ payload model, body = some (.obj payload) ∧
      Schemas.validate app payload = .ok model
  · obtain ⟨payload, model, rfl, hvalid⟩ := hvalid
    have hprocess : ∀ s₁ L₁ (event : Event) status, s₁.pending = [] → event ∈ L₁.db .events →
        Intact L₁ → wp rules (Events.process app event status) (fun _ _ _ => True) s₁ L₁ :=
      fun s₁ L₁ event status hs hevent hintact =>
        citing.wp_process hs (citing.fair.now (fun db => event ∈ db .events) L₁ hevent) hintact
    unfold Events.createEvent
    simp only [hvalid, bind_eq, pure_eq, wp_bind]
    refine wp_given citing.intact hintact (Ingest.wp_createEvent (citing.fair.given _) hs hvalid
      (fun _ => citing.owes s (fun _ _ => .creates) fun _ _ _ h => h.cites)
      (fun _ => citing.owes s (fun _ _ => .edits) fun _ _ _ h => h.cites lawful)
      (fun _ _ _ _ _ _ _ _ _ => trivial)
      (fun _ _ _ _ _ _ _ _ _ _ => trivial)
      (fun s₁ L₁ L' id ws event hrests _ _ _ _ hfind _ _ _ hintact => ?_)
      (fun s₁ L₁ L' existing ws event hrests _ _ _ _ hfind _ hintact => ?_)
      (fun _ _ _ _ _ _ _ => trivial) fun _ _ _ _ _ => trivial)
    · exact hprocess s₁ L' event .created hrests.pending (List.mem_of_find?_eq_some hfind) hintact
    · exact hprocess s₁ L' event .edit hrests.pending (List.mem_of_find?_eq_some hfind) hintact
  · refine wp_given citing.intact hintact (Events.wp_createEvent_invalid (citing.fair.given _) hs
      (fun payload model hbody hmodel => hvalid ⟨payload, model, hbody, hmodel⟩)
      (citing.owes s (fun _ _ => .rejects) fun _ _ _ h => h.cites) ?_ ?_ ?_)
    · exact fun _ _ _ => trivial
    · exact fun _ _ _ _ _ _ _ _ => trivial
    · exact fun _ _ _ _ _ _ _ _ _ _ _ _ _ _ => trivial

/-! ### Reviews and replays -/

theorem wp_decide (citing : Citing rules app sight) (hs : s.pending = []) (hintact : Intact L)
    {reviewId : Uuid} {decision : String} {identityId : Option Uuid} {β : Type}
    {refuse : Resolve.ReviewError → Prog β} {absent : Resolve.ResolvedReview → Prog β}
    {answer : Resolve.ResolvedReview → Option Pipeline.Outcome → Prog β}
    (hrefuse : ∀ error s' L', wp rules (refuse error) (fun _ _ _ => True) s' L')
    (habsent : ∀ result s' L', wp rules (absent result) (fun _ _ _ => True) s' L')
    (hanswer : ∀ result outcome s' L', wp rules (answer result outcome) (fun _ _ _ => True) s' L') :
    wp rules ((Resolve.resolveReview reviewId decision identityId).bind fun r => match r with
      | .error error => refuse error
      | .ok result => (find .events fun event => event.id = result.eventId).bind fun r => match r with
        | none => absent result
        | some event =>
            (Pipeline.runDownstream app event result.identityId).bind (answer result))
      (fun _ _ _ => True) s L := by
  have lawful := citing.fair.toLawful
  rw [wp_bind]
  refine wp_given citing.intact hintact (Resolve.wp_resolveReview (citing.fair.given _) hs
    (fun _ _ => citing.owes s (fun _ _ => .resolves) fun _ _ hintact h => h.cites lawful hintact)
    (fun s' L' error _ _ _ => hrefuse error s' L')
    (fun s₁ L₁ ws review target hrests hbefore hT happ _ _ hintact => ?_) fun _ _ _ _ _ => trivial)
  simp only [Post.andThen_ok, wp_bind]
  refine wp_find citing.fair (.of_idle hrests.pending _) (by simp [hrests.pending])
    (fun s₂ L₂ now₂ event h₂ _ hfind => ?_) fun s₂ L₂ _ _ _ => habsent _ s₂ L₂
  have hevent : event ∈ L₂.db .events := List.mem_of_find?_eq_some hfind
  have heventId : event.id = review.eventId := by simpa using List.find?_some hfind
  have hlinked : Resolve.SeesLinked sight L₂ event.id target := by
    rw [heventId]
    exact (hT.linked lawful).imp_right (h₂.before.sight citing.fair)
  have hknown : Knows target L₂ := h₂.before.keeps (citing.keepsKnows target) ⟨hintact, hT.has lawful⟩
  have hs₂ : s₂.pending = [] := (hrests.trans (h₂.rests hrests.pending)).pending
  simp only [Post.andThen_ok]
  exact citing.wp_downstream hs₂ (citing.fair.now (fun db => event ∈ db .events) L₂ hevent) hlinked
    hknown (hanswer _)

theorem wp_resolveManualReview (citing : Citing rules app sight) (hs : s.pending = [])
    (hintact : Intact L) (reviewId : Option Uuid) (decision : String)
    (choice : Option (Option Uuid)) : wp rules
      (ManualReview.resolveManualReview app reviewId decision choice) (fun _ _ _ => True) s L := by
  unfold ManualReview.resolveManualReview Resolve.findReview
  simp only [bind_eq, pure_eq]
  by_cases hdecision : decision = "merge_into" ∨ decision = "create_new"
  · rw [if_pos hdecision, wp_bind]
    refine ManualReview.wp_boundId (fun id _ => ?_) trivial
    simp only [Post.andThen_ok, wp_bind]
    refine wp_find citing.fair (.of_idle hs L) (by simp [hs]) (fun s₁ L₁ now₁ entry h₁ _ _ => ?_)
      fun _ _ _ _ _ => trivial
    simp only [Post.andThen_ok]
    split
    · trivial
    · simp only [wp_bind]
      refine ManualReview.wp_mergeTarget (fun target _ => ?_) trivial
      rw [Post.andThen_ok]
      refine citing.wp_decide (h₁.rests hs).pending (h₁.before.keeps citing.intact hintact)
        (fun _ _ _ => trivial) (fun _ _ _ => trivial) fun result outcome _ _ => ?_
      cases outcome <;> trivial
  · rw [if_neg hdecision]
    trivial

theorem wp_resolveForm (citing : Citing rules app sight) (hs : s.pending = []) (hintact : Intact L)
    (reviewId : Option Uuid) (decision : String) (choice : Option (Option Uuid)) :
    wp rules (ManualReview.resolveForm app reviewId decision choice) (fun _ _ _ => True) s L := by
  unfold ManualReview.resolveForm Resolve.findReview
  simp only [bind_eq, pure_eq, wp_bind]
  refine ManualReview.wp_boundId (fun id _ => ?_) trivial
  simp only [Post.andThen_ok, wp_bind]
  refine wp_find citing.fair (.of_idle hs L) (by simp [hs]) (fun s₁ L₁ now₁ entry h₁ _ _ => ?_)
    fun _ _ _ _ _ => trivial
  simp only [Post.andThen_ok, wp_bind]
  refine ManualReview.wp_mergeTarget (fun target _ => ?_) trivial
  rw [Post.andThen_ok]
  refine citing.wp_decide (h₁.rests hs).pending (h₁.before.keeps citing.intact hintact)
    (fun error _ _ => ?_) (fun _ _ _ => trivial) fun _ _ _ _ => trivial
  cases error <;> trivial

/-- A replay closes the dead letter under the identity it found. -/
theorem wp_replayEvent (citing : Citing rules app sight) (hs : s.pending = []) (hintact : Intact L)
    (authorized : Bool) (eventId : Option Uuid) :
    wp rules (Admin.replayEvent app authorized eventId) (fun _ _ _ => True) s L := by
  have fair := citing.fair
  unfold Admin.replayEvent Admin.findUnresolved
  cases authorized with
  | false => trivial
  | true =>
    rw [if_pos rfl]
    simp only [bind_eq, pure_eq, wp_bind]
    refine Admin.wp_parseEventId (fun id _ => ?_) fun _ => trivial
    simp only [Post.andThen_ok, wp_bind]
    refine wp_find fair (.of_idle hs L) (by simp [hs]) (fun s₁ L₁ now₁ event h₁ _ hfind => ?_)
      fun _ _ _ _ _ => trivial
    obtain rfl : event.id = id := by simpa using List.find?_some hfind
    have hevent := fair.now (fun db => event ∈ db .events) L₁ (List.mem_of_find?_eq_some hfind)
    have hs₁ := (h₁.rests hs).pending
    simp only [Post.andThen_ok, wp_bind]
    refine wp_find fair h₁.ready (by simp [hs₁]) (fun s₂ L₂ now₂ dlq h₂ _ hfind => ?_)
      fun _ _ _ _ _ => trivial
    have hopen := List.find?_some hfind
    simp only [Bool.and_eq_true, decide_eq_true_eq, Bool.not_eq_true'] at hopen
    have hdlq := fair.now (fun db => dlq ∈ db .deadLetterQueue) L₂ (List.mem_of_find?_eq_some hfind)
    have hs₂ := (h₂.rests hs₁).pending
    simp only [Post.andThen_ok, wp_bind]
    refine wp_findAll fair h₂.ready (by simp [hs₂]) fun s₃ L₃ now₃ h₃ => ?_
    have hevent := h₃.before.sight fair (h₂.before.sight fair hevent)
    have hdlq := h₃.before.sight fair hdlq
    have hs₃ := (h₃.rests hs₂).pending
    have hintact₃ : Intact L₃ := h₃.before.keeps citing.intact
      (h₂.before.keeps citing.intact (h₁.before.keeps citing.intact hintact))
    simp only [Post.andThen_ok]
    cases hlinks : (L₃.db .identityLinks).filter fun link => link.eventId = event.id with
    | nil => trivial
    | cons link rest =>
      cases rest with
      | cons _ _ => trivial
      | nil =>
        have hlink : link ∈ (L₃.db .identityLinks).filter fun link => link.eventId = event.id := by
          rw [hlinks]
          exact List.mem_singleton_self _
        rw [List.mem_filter, decide_eq_true_eq] at hlink
        have hlinked : Resolve.Linked event.id link.identityId L₃.db := ⟨link, hlink.1, hlink.2, rfl⟩
        simp only [wp_bind]
        refine citing.wp_runDownstream hs₃ hevent (.inr (fair.now _ _ hlinked))
          (knows_of_linked hintact₃ hlinked) fun r s' L' hends hknown => ?_
        cases r with
        | error x => trivial
        | ok outcome =>
          cases outcome with
          | none => trivial
          | some outcome =>
            have hrests₄ := hends.rests
            have hdlq := Admin.sight_of_acted (fair.given _) hends (P := fun rows => dlq ∈ rows) hdlq
            -- the rest of the replay may assume that its identity is known
            refine wp_given (citing.keepsKnows link.identityId) hknown ?_
            have fair' := fair.given (Knows link.identityId)
            simp only [wp_bind]
            refine wp_save fair' (.of_idle hrests₄.1 _) (fun _ => ?_)
              (fun _ => Write.tame_resolve rfl) fun s₅ L₅ now₅ h₅ => ?_
            · intro key hkey
              rcases List.mem_cons.mp hkey with rfl | hkey
              · exact List.mem_cons_self ..
              · exact absurd hkey (by simp [Row.indexed, Row.stamp])
            have hdlq := h₅.before.sight fair' hdlq
            simp only [Post.andThen_ok, wp_bind]
            refine wp_writeReceipt fair' h₅.ready fun s₆ L₆ rid now₆ h₆ _ => ?_
            have hdlq := h₆.before.sight fair' hdlq
            obtain ⟨rfl, h₆⟩ := h₅.trans h₆
            simp only [Post.andThen_ok, wp_bind]
            exact wp_commitNow fair' h₆.ready (citing.owes s' (fun _ _ => .revives)
                fun _ _ hknown h => h.cites fair.toLawful hknown.1 hknown.2) h₆.own
              (by rw [h₆.pending, hrests₄.1, List.nil_append])
              (fun L₇ h₇ => .intro (h₇.sight fair' hdlq) hopen.1 hopen.2) fun _ _ _ _ _ => trivial

/-! ### Leads -/

/-- The identities of the receipts a session is about to commit are there. -/
def Vouched (s : Session Write Reply) (L : Ledger Db Write) : Prop :=
  ∀ receipt ∈ inserted .receipts s.pending, ∀ u ∈ Receipt.identityId receipt, L.db.Has .identities u

/-- The rules of a session that owes nothing but this. -/
@[reducible]
def vouching (rules : Rules Db Write Question Reply) : Rules Db Write Question Reply :=
  rules.owing Vouched fun _ _ _ => True

theorem fair_vouching (citing : Citing rules app sight) : Fair (vouching rules) sight where
  toLawful := citing.fair.toLawful
  ready := citing.fair.ready
  unused := citing.fair.unused
  history := citing.fair.history
  stable := citing.fair.stable
  alone := citing.fair.alone
  refusals _ _ _ _ _ _ _ := trivial

/-- Receipts that are signed by identities that are there. -/
theorem wp_of_signs (citing : Citing rules app sight) (hs : s.pending = []) {signers : Uuid → Prop}
    {α : Type} {p : Prog α} (hsigns : Signs signers p)
    (hknown : ∀ u, signers u → L.db.Has .identities u) :
    wp (vouching rules) p (fun _ _ _ => True) s L := by
  have hkeeps : (vouching rules).Keeps fun L => ∀ u, signers u → L.db.Has .identities u :=
    ⟨fun s L L' hrely h u hu => (citing.fair.history s L L' hrely).has (h u hu),
      fun _ _ _ h u hu => (h u hu).foldl _⟩
  have hwalks : wp (rules.owing (fun s _ => ∀ w ∈ s.pending, Signed signers w) fun _ _ _ => True) p
      (fun _ _ _ => True) s L :=
    wp_mono (fun _ _ _ _ => trivial)
      (wp_of_walks (fun _ _ h => h) (hsigns s) (by simp [hs]))
  refine wp_of_owing hkeeps hknown (fun s L hsigned hknown => ?_) (fun _ _ _ _ _ => trivial) hwalks
  exact fun receipt hreceipt u hu =>
    hknown u (hsigned _ (mem_inserted.mp hreceipt) receipt rfl u hu)

/-- A reader of leads pays with its escalations and with their signatures. -/
theorem wp_of_escalates (citing : Citing rules app sight) (hintact : Intact L) {α : Type} {p : Prog α}
    (hescalates : wp (rules.owing (fun s L => Ready s L ∧ Escalation.Escalates sight L s.pending)
      rules.refusals) p (fun _ _ _ => True) s L)
    (hvouched : wp (vouching rules) p (fun _ _ _ => True) s L) :
    wp rules p (fun _ _ _ => True) s L := by
  have hboth := wp_mono (fun _ _ _ _ => trivial) (wp_and hescalates hvouched)
  refine wp_of_owing citing.intact hintact ?_ (fun _ _ _ howed _ => howed.1) hboth
  rintro s L ⟨⟨hready, hescalates⟩, hvouched⟩ hintact
  exact citing.commits s L hready (.escalates hescalates)
    (hescalates.cites citing.fair.toLawful hintact hvouched)

theorem fair_escalating (citing : Citing rules app sight) : Fair (rules.owing
    (fun s L => Ready s L ∧ Escalation.Escalates sight L s.pending) rules.refusals) sight where
  toLawful := citing.fair.toLawful
  ready := citing.fair.ready
  unused := citing.fair.unused
  history := citing.fair.history
  stable := citing.fair.stable
  alone := citing.fair.alone
  refusals := citing.fair.refusals

theorem has_of_lead (hintact : Intact L) {lead : Lead} (hlead : lead ∈ L.db .leads) :
    L.db.Has .identities lead.identityId :=
  hintact L .refl .leads lead hlead _ (List.mem_cons_self ..)

theorem wp_listLeads (citing : Citing rules app sight) (hs : s.pending = []) (hintact : Intact L)
    (filters : Leads.Filters) : wp rules (Leads.listLeads filters) (fun _ _ _ => True) s L := by
  refine citing.wp_of_escalates hintact (Leads.wp_listLeads citing.fair_escalating hs
    (fun _ _ _ hready hescalates => ⟨hready, hescalates⟩) fun _ _ _ _ _ _ _ => trivial) ?_
  unfold Leads.listLeads
  simp only [bind_eq, pure_eq, wp_bind]
  refine wp_findAll citing.fair_vouching (.of_idle hs L) (by simp [hs]) fun s₁ L₁ now₁ h₁ => ?_
  have hintact₁ : Intact L₁ := Before.keeps citing.intact h₁.before hintact
  simp only [Post.andThen_ok]
  refine citing.wp_of_signs (h₁.rests hs).pending
    (?_ : Signs (fun u => L₁.db.Has .identities u) _) fun _ h => h
  exact (Signs.viewLeads filters fun lead hlead => has_of_lead hintact₁
    (List.mem_of_mem_filter hlead)).bind fun _ => Signs.commitNow.bind fun _ => .ret _

theorem wp_getLead (citing : Citing rules app sight) (hs : s.pending = []) (hintact : Intact L)
    (withEvent : Bool) (leadId : Option Uuid) :
    wp rules (Leads.getLead withEvent leadId) (fun _ _ _ => True) s L := by
  refine citing.wp_of_escalates hintact (Leads.wp_getLead citing.fair_escalating hs
    (fun _ _ _ hready hescalates => ⟨hready, hescalates⟩) (fun _ _ _ _ => trivial)
    fun _ _ _ _ _ _ _ => trivial) ?_
  unfold Leads.getLead
  simp only [bind_eq, pure_eq, wp_bind]
  refine ManualReview.wp_boundId (fun id _ => ?_) trivial
  simp only [Post.andThen_ok, wp_bind]
  refine wp_find citing.fair_vouching (.of_idle hs L) (by simp [hs])
    (fun s₁ L₁ now₁ lead h₁ _ hfind => ?_) fun _ _ _ _ _ => trivial
  have hlead : lead ∈ L₁.db .leads := List.mem_of_find?_eq_some hfind
  have hintact₁ : Intact L₁ := Before.keeps citing.intact h₁.before hintact
  simp only [Post.andThen_ok]
  refine citing.wp_of_signs (h₁.rests hs).pending
    (?_ : Signs (fun u => L₁.db.Has .identities u) _) fun _ h => h
  refine (Signs.select _).bind fun route => (Signs.select _).bind fun score =>
    (Signs.select _).bind fun touch => ?_
  have hescalation := Signs.evaluateEscalation route (has_of_lead hintact₁ hlead)
  cases withEvent with
  | false =>
      rw [if_neg (by decide)]
      exact hescalation.bind fun escalated => Signs.commitNow.bind fun _ => .ret _
  | true =>
      rw [if_pos rfl]
      exact (Signs.select _).bind fun event => hescalation.bind fun escalated =>
        Signs.commitNow.bind fun _ => .ret _

/-! ### Every request -/

attribute [local irreducible] Dashboard.reconciliation

/-- **Every commit of a request cites what is there.** -/
theorem wp_handle (citing : Citing rules app sight) (hs : s.pending = []) (hintact : Intact L)
    (request : Request) : wp rules (handle app request) (fun _ _ _ => True) s L := by
  have hanswer : ∀ {α : Type} {p : Prog α} {g : α → Prog Response},
      wp rules p (fun _ _ _ => True) s L →
      (∀ a s' L', wp rules (g a) (fun _ _ _ => True) s' L') →
      wp rules (p.bind g) (fun _ _ _ => True) s L :=
    fun h hg => wp_then h (fun a s' L' _ => hg a s' L') fun _ _ _ _ => trivial
  cases request with
  | postEvent body => exact hanswer (citing.wp_createEvent hs hintact _) fun _ _ _ => trivial
  | resolveManualReview reviewId decision identityId =>
      exact hanswer (citing.wp_resolveManualReview hs hintact _ _ _) fun _ _ _ => trivial
  | resolveForm reviewId decision identityId =>
      exact hanswer (citing.wp_resolveForm hs hintact _ _ _) fun _ _ _ => trivial
  | replayEvent authorized eventId =>
      exact hanswer (citing.wp_replayEvent hs hintact _ _) fun _ _ _ => trivial
  | simulateFailure authorized stage eventId =>
      have howes : ∀ event, Owes rules s fun L ws => Interpret.DeadLetters sight L event ws :=
        fun _ s' L _ hready h => citing.commits s' L hready (.deadLetters h)
          (h.cites citing.fair.toLawful)
      exact hanswer (Admin.wp_simulateFailure citing.fair hs howes (fun _ _ _ _ => trivial)
        fun _ _ _ _ _ _ _ _ _ => trivial) fun _ _ _ => trivial
  | listLeads filters => exact hanswer (citing.wp_listLeads hs hintact _) fun _ _ _ => trivial
  | getLead withEvent leadId =>
      exact hanswer (citing.wp_getLead hs hintact _ _) fun _ _ _ => trivial
  | reconciliation window =>
      exact hanswer (Dashboard.wp_reconciliation citing.fair hs fun _ _ _ _ => trivial)
        fun _ _ _ => trivial

end Citing

end DemandSignal
