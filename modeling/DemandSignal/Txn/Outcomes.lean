import DemandSignal.Txn.Logic

/-!
# Outcomes

What a program that runs alone can leave behind, for what the outside world has told it. Programs with
the same outcomes may answer differently.
-/

namespace DemandSignal.Txn

variable {D W K X Q A α β γ : Type} [Store D W K] {setting : Setting D W K Q A} {s : Session W A}
  {L : Ledger D W}

/-- The program only returns or raises. -/
def Program.Stops (p : Program D W X Q A α) : Prop := (∃ a, p = .ret a) ∨ ∃ x, p = .raise x

theorem Program.stops_ret (a : α) : (.ret a : Program D W X Q A α).Stops := .inl ⟨a, rfl⟩

theorem Program.stops_raise (x : X) : (.raise x : Program D W X Q A α).Stops := .inr ⟨x, rfl⟩

theorem Move.bind {p p' : Program D W X Q A α} {s s' : Session W A} {L L' : Ledger D W}
    (h : Move setting s L p s' L' p') (g : α → Program D W X Q A β) :
    Move setting s L (p.bind g) s' L' (p'.bind g) := by
  cases h with
  | read hstart hpermit => exact .read hstart hpermit
  | skipped hstart hwrite hpermit => exact .skipped hstart hwrite hpermit
  | wrote hstart hwrite haccept hfree hpermit => exact .wrote hstart hwrite haccept hfree hpermit
  | refused hstart hwrite hrefuse hfree hpermit => exact .refused hstart hwrite hrefuse hfree hpermit
  | commit => exact .commit
  | rollback => exact .rollback
  | uuid hunused hown hfree => exact .uuid hunused hown hfree
  | now hread => exact .now hread
  | ask hanswer => exact .ask hanswer

theorem Runs.bind_ok {p : Program D W X Q A α} {g : α → Program D W X Q A β} {s s₁ s' : Session W A}
    {L L₁ L' : Ledger D W} {a : α} {r : Except X β} (h : Runs setting s L p (.ok a) s₁ L₁)
    (hrest : Runs setting s₁ L₁ (g a) r s' L') : Runs setting s L (p.bind g) r s' L' := by
  generalize hr : (Except.ok a : Except X α) = ra at h
  induction h with
  | ret =>
      cases hr
      exact hrest
  | raise => cases hr
  | move hmove _ ih => exact .move (hmove.bind g) (ih hrest hr)

theorem Runs.bind_error {p : Program D W X Q A α} {g : α → Program D W X Q A β} {s s' : Session W A}
    {L L' : Ledger D W} {x : X} (h : Runs setting s L p (.error x) s' L') :
    Runs setting s L (p.bind g) (.error x) s' L' := by
  generalize hr : (Except.error x : Except X α) = ra at h
  induction h with
  | ret => cases hr
  | raise =>
      cases hr
      exact .raise
  | move hmove _ ih => exact .move (hmove.bind g) (ih hr)

theorem Move.heard {p p' : Program D W X Q A α} {s s' : Session W A} {L L' : Ledger D W}
    (h : Move setting s L p s' L' p') :
    ∀ reply ∈ s'.replies, reply ∈ s.replies ∨ ∃ q, setting.Answers q reply := by
  cases h with
  | ask hanswer =>
      intro reply hreply
      rcases List.mem_append.mp hreply with hold | hnew
      · exact .inl hold
      · rw [List.mem_singleton.mp hnew]
        exact .inr ⟨_, hanswer⟩
  | _ => exact fun reply hreply => .inl hreply

/-- What a run has heard are answers. -/
theorem Runs.heard {p : Program D W X Q A α} {s s' : Session W A} {L L' : Ledger D W} {r : Except X α}
    (h : Runs setting s L p r s' L') :
    ∀ reply ∈ s'.replies, reply ∈ s.replies ∨ ∃ q, setting.Answers q reply := by
  induction h with
  | ret => exact fun reply hreply => .inl hreply
  | raise => exact fun reply hreply => .inl hreply
  | move hmove _ ih =>
      intro reply hreply
      rcases ih reply hreply with hold | hanswer
      exacts [hmove.heard reply hold, .inr hanswer]

/-- Some run of the program hears `heard` and leaves the ledger `L'`. -/
def Outcome (setting : Setting D W K Q A) (s : Session W A) (L : Ledger D W)
    (p : Program D W X Q A α) (heard : List A) (L' : Ledger D W) : Prop :=
  ∃ r s', Runs setting s L p r s' L' ∧ s'.replies = heard

def SameOutcomes (setting : Setting D W K Q A) (s : Session W A) (L : Ledger D W)
    (p : Program D W X Q A α) (q : Program D W X Q A β) : Prop :=
  ∀ heard L', Outcome setting s L p heard L' ↔ Outcome setting s L q heard L'

/-- Every run of the program hears nothing and leaves the ledger alone. -/
def Inert (setting : Setting D W K Q A) (s : Session W A) (L : Ledger D W)
    (p : Program D W X Q A α) : Prop :=
  ∀ r s' L', Runs setting s L p r s' L' → L' = L ∧ s'.replies = s.replies

theorem Program.Stops.outcome_iff {p : Program D W X Q A α} (h : p.Stops) {heard : List A}
    {L' : Ledger D W} : Outcome setting s L p heard L' ↔ heard = s.replies ∧ L' = L := by
  constructor
  · rintro ⟨r, s', hrun, rfl⟩
    obtain ⟨a, rfl⟩ | ⟨x, rfl⟩ := h
    · cases hrun with
      | ret => exact ⟨rfl, rfl⟩
      | move hmove => cases hmove
    · cases hrun with
      | raise => exact ⟨rfl, rfl⟩
      | move hmove => cases hmove
  · rintro ⟨rfl, rfl⟩
    obtain ⟨a, rfl⟩ | ⟨x, rfl⟩ := h
    · exact ⟨_, s, .ret, rfl⟩
    · exact ⟨_, s, .raise, rfl⟩

namespace SameOutcomes

theorem refl (p : Program D W X Q A α) : SameOutcomes setting s L p p := fun _ _ => Iff.rfl

theorem symm {p : Program D W X Q A α} {q : Program D W X Q A β} (h : SameOutcomes setting s L p q) :
    SameOutcomes setting s L q p := fun heard L' => (h heard L').symm

theorem trans {p : Program D W X Q A α} {q : Program D W X Q A β} {r : Program D W X Q A γ}
    (h : SameOutcomes setting s L p q) (h' : SameOutcomes setting s L q r) :
    SameOutcomes setting s L p r := fun heard L' => (h heard L').trans (h' heard L')

theorem of_stops {p : Program D W X Q A α} {q : Program D W X Q A β} (hp : p.Stops) (hq : q.Stops) :
    SameOutcomes setting s L p q := fun _ _ => hp.outcome_iff.trans hq.outcome_iff.symm

/-- Programs that begin alike have the same outcomes if what comes next has. -/
theorem bind {p : Program D W X Q A α} {f : α → Program D W X Q A β} {g : α → Program D W X Q A γ}
    (h : ∀ a s₁ L₁, Runs setting s L p (.ok a) s₁ L₁ → SameOutcomes setting s₁ L₁ (f a) (g a)) :
    SameOutcomes setting s L (p.bind f) (p.bind g) := by
  have hle : ∀ {β γ : Type} {f : α → Program D W X Q A β} {g : α → Program D W X Q A γ},
      (∀ a s₁ L₁, Runs setting s L p (.ok a) s₁ L₁ → SameOutcomes setting s₁ L₁ (f a) (g a)) →
      ∀ heard L', Outcome setting s L (p.bind f) heard L' → Outcome setting s L (p.bind g) heard L' := by
    rintro β γ f g h heard L' ⟨r, s', hrun, hheard⟩
    obtain ⟨a, s₁, L₁, hfirst, hrest⟩ | ⟨x, rfl, hfirst⟩ := hrun.of_bind
    · obtain ⟨r', s'', hrest', hheard'⟩ := (h a s₁ L₁ hfirst heard L').mp ⟨r, s', hrest, hheard⟩
      exact ⟨r', s'', hfirst.bind_ok hrest', hheard'⟩
    · exact ⟨_, s', hfirst.bind_error, hheard⟩
  exact fun heard L' => ⟨hle h heard L', hle (fun a s₁ L₁ hrun => (h a s₁ L₁ hrun).symm) heard L'⟩

/-- What is made of the result does not matter. -/
theorem bind_stops (p : Program D W X Q A α) {g : α → Program D W X Q A β} (hg : ∀ a, (g a).Stops) :
    SameOutcomes setting s L (p.bind g) p := by
  intro heard L'
  constructor
  · rintro ⟨r, s', hrun, hheard⟩
    obtain ⟨a, s₁, L₁, hfirst, hrest⟩ | ⟨x, rfl, hfirst⟩ := hrun.of_bind
    · obtain ⟨rfl, rfl⟩ := (hg a).outcome_iff.mp ⟨r, s', hrest, hheard⟩
      exact ⟨_, s₁, hfirst, rfl⟩
    · exact ⟨_, s', hfirst, hheard⟩
  · rintro ⟨r, s', hrun, hheard⟩
    cases r with
    | ok a =>
        have houtcome : Outcome setting s' L' (g a) heard L' :=
          (hg a).outcome_iff.mpr ⟨hheard.symm, rfl⟩
        obtain ⟨r', s'', hrest, hheard'⟩ := houtcome
        exact ⟨r', s'', hrun.bind_ok hrest, hheard'⟩
    | error x => exact ⟨_, s', hrun.bind_error, hheard⟩

end SameOutcomes

theorem Inert.outcome_iff {p : Program D W X Q A α} (h : Inert setting s L p)
    (hruns : ∃ r s' L', Runs setting s L p r s' L') {heard : List A} {L' : Ledger D W} :
    Outcome setting s L p heard L' ↔ heard = s.replies ∧ L' = L := by
  constructor
  · rintro ⟨r, s', hrun, rfl⟩
    obtain ⟨hL, hreplies⟩ := h r s' L' hrun
    exact ⟨hreplies, hL⟩
  · rintro ⟨rfl, rfl⟩
    obtain ⟨r, s', L', hrun⟩ := hruns
    obtain ⟨rfl, hreplies⟩ := h r s' L' hrun
    exact ⟨r, s', hrun, hreplies⟩

end DemandSignal.Txn
