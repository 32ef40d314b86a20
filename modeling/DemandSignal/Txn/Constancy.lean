import DemandSignal.Txn.Logic
import DemandSignal.Txn.Walks

/-!
# Constancy and conjunction

A fact of the ledger that everybody keeps may be assumed at each step of a program and of what it
returns, and what is known of a program by two arguments, or of its paths alone, is known by one.
-/

namespace DemandSignal.Txn

variable {D W K X Q A α β : Type} [Store D W K]

namespace Rules

/-- The others keep the fact, and so does a commit that pays what it owes. -/
structure Keeps (rules : Rules D W Q A) (fact : Ledger D W → Prop) : Prop where
  rely : ∀ s L L', rules.rely s L L' → fact L → fact L'
  commits : ∀ s L, rules.commits s L → fact L → fact (L.commit s.pending)

theorem Keeps.and {rules : Rules D W Q A} {fact fact' : Ledger D W → Prop} (h : rules.Keeps fact)
    (h' : rules.Keeps fact') : rules.Keeps fun L => fact L ∧ fact' L :=
  ⟨fun s L L' hrely hL => ⟨h.rely s L L' hrely hL.1, h'.rely s L L' hrely hL.2⟩,
    fun s L hcommits hL => ⟨h.commits s L hcommits hL.1, h'.commits s L hcommits hL.2⟩⟩

/-- The rules of a program that may assume the fact when it commits and when it is refused. -/
@[reducible]
def given (rules : Rules D W Q A) (fact : Ledger D W → Prop) : Rules D W Q A :=
  { rules with
    commits := fun s L => fact L → rules.commits s L
    refusals := fun s L w => fact L → rules.refusals s L w }

/-- The rules of a program that owes other things when it commits and when it is refused. -/
@[reducible]
def owing (rules : Rules D W Q A) (commits : Session W A → Ledger D W → Prop)
    (refusals : Session W A → Ledger D W → W → Prop) : Rules D W Q A :=
  { rules with commits, refusals }

end Rules

variable {rules : Rules D W Q A} {post : Post D W X A β} {p : Program D W X Q A β}
  {s : Session W A} {L : Ledger D W}

/-- **The rule of constancy.** -/
theorem wp_given {fact : Ledger D W → Prop} (hkeeps : rules.Keeps fact) (hfact : fact L)
    (h : wp (rules.given fact) p (fun r s L => fact L → post r s L) s L) : wp rules p post s L := by
  induction p generalizing s L with
  | ret a => exact h hfact
  | raise x => exact h hfact
  | read q k ih =>
      exact fun L' hL t ht hp => ih _ (hkeeps.rely _ _ _ hL hfact) (h L' hL t ht hp)
  | write f k ih =>
      intro L' hL t ht
      have hfact := hkeeps.rely _ _ _ hL hfact
      obtain ⟨hskip, hwrote, hrefused⟩ := h L' hL t ht
      exact ⟨fun b hb hp => ih _ hfact (hskip b hb hp),
        fun w b hw ha hp => ih _ hfact (hwrote w b hw ha hp),
        fun w b hw hr hp => ⟨(hrefused w b hw hr hp).1 hfact, ih _ hfact (hrefused w b hw hr hp).2⟩⟩
  | commit k ih =>
      intro L' hL
      have hfact := hkeeps.rely _ _ _ hL hfact
      have hcommits := (h L' hL).1 hfact
      exact ⟨hcommits, ih (hkeeps.commits _ _ hcommits hfact) (h L' hL).2⟩
  | rollback k ih => exact fun L' hL => ih (hkeeps.rely _ _ _ hL hfact) (h L' hL)
  | uuid k ih =>
      exact fun L' hL u hu hown => ih _ (hkeeps.rely _ _ _ hL hfact) (h L' hL u hu hown)
  | now k ih => exact fun L' hL t ht => ih _ (hkeeps.rely _ _ _ hL hfact) (h L' hL t ht)
  | ask q k ih => exact fun L' hL a ha => ih _ (hkeeps.rely _ _ _ hL hfact) (h L' hL a ha)

/-- What a program pays by two arguments it pays by one. -/
theorem wp_and {commits : Session W A → Ledger D W → Prop}
    {refusals : Session W A → Ledger D W → W → Prop} {post' : Post D W X A β}
    (h : wp rules p post s L) (h' : wp (rules.owing commits refusals) p post' s L) :
    wp (rules.owing (fun s L => rules.commits s L ∧ commits s L)
      fun s L w => rules.refusals s L w ∧ refusals s L w) p
      (fun r s L => post r s L ∧ post' r s L) s L := by
  induction p generalizing s L with
  | ret a => exact ⟨h, h'⟩
  | raise x => exact ⟨h, h'⟩
  | read q k ih => exact fun L' hL t ht hp => ih _ (h L' hL t ht hp) (h' L' hL t ht hp)
  | write f k ih =>
      intro L' hL t ht
      obtain ⟨hskip, hwrote, hrefused⟩ := h L' hL t ht
      obtain ⟨hskip', hwrote', hrefused'⟩ := h' L' hL t ht
      exact ⟨fun b hb hp => ih _ (hskip b hb hp) (hskip' b hb hp),
        fun w b hw ha hp => ih _ (hwrote w b hw ha hp) (hwrote' w b hw ha hp),
        fun w b hw hr hp => ⟨⟨(hrefused w b hw hr hp).1, (hrefused' w b hw hr hp).1⟩,
          ih _ (hrefused w b hw hr hp).2 (hrefused' w b hw hr hp).2⟩⟩
  | commit k ih => exact fun L' hL => ⟨⟨(h L' hL).1, (h' L' hL).1⟩, ih (h L' hL).2 (h' L' hL).2⟩
  | rollback k ih => exact fun L' hL => ih (h L' hL) (h' L' hL)
  | uuid k ih => exact fun L' hL u hu hown => ih _ (h L' hL u hu hown) (h' L' hL u hu hown)
  | now k ih => exact fun L' hL t ht => ih _ (h L' hL t ht) (h' L' hL t ht)
  | ask q k ih => exact fun L' hL a ha => ih _ (h L' hL a ha) (h' L' hL a ha)

/-- What a program owes may be weakened. -/
theorem wp_owing {commits : Session W A → Ledger D W → Prop}
    {refusals : Session W A → Ledger D W → W → Prop}
    (hcommits : ∀ s L, rules.commits s L → commits s L)
    (hrefusals : ∀ s L w, rules.refusals s L w → refusals s L w) (h : wp rules p post s L) :
    wp (rules.owing commits refusals) p post s L := by
  induction p generalizing s L with
  | ret a => exact h
  | raise x => exact h
  | read q k ih => exact fun L' hL t ht hp => ih _ (h L' hL t ht hp)
  | write f k ih =>
      intro L' hL t ht
      obtain ⟨hskip, hwrote, hrefused⟩ := h L' hL t ht
      exact ⟨fun b hb hp => ih _ (hskip b hb hp), fun w b hw ha hp => ih _ (hwrote w b hw ha hp),
        fun w b hw hr hp =>
          ⟨hrefusals _ _ _ (hrefused w b hw hr hp).1, ih _ (hrefused w b hw hr hp).2⟩⟩
  | commit k ih => exact fun L' hL => ⟨hcommits _ _ (h L' hL).1, ih (h L' hL).2⟩
  | rollback k ih => exact fun L' hL => ih (h L' hL)
  | uuid k ih => exact fun L' hL u hu hown => ih _ (h L' hL u hu hown)
  | now k ih => exact fun L' hL t ht => ih _ (h L' hL t ht)
  | ask q k ih => exact fun L' hL a ha => ih _ (h L' hL a ha)

/-- A fact that everybody keeps may help to pay. -/
theorem wp_of_owing {fact : Ledger D W → Prop} {commits : Session W A → Ledger D W → Prop}
    {refusals : Session W A → Ledger D W → W → Prop} (hkeeps : rules.Keeps fact) (hfact : fact L)
    (hcommits : ∀ s L, commits s L → fact L → rules.commits s L)
    (hrefusals : ∀ s L w, refusals s L w → fact L → rules.refusals s L w)
    (h : wp (rules.owing commits refusals) p post s L) : wp rules p post s L := by
  have howing := wp_owing hcommits hrefusals h
  refine wp_given hkeeps hfact (wp_mono ?_ (show wp (rules.given fact) p post s L from howing))
  exact fun _ _ _ hpost _ => hpost

/-- What a walk pays at each write holds of all that the program commits. -/
theorem wp_of_walks {watch : Watch W Q A} {ok : W → Prop} (hwatch : ∀ s w, watch.writes s w → ok w)
    {returns : β → Session W A → Prop} (h : p.Walks watch returns s) (hs : ∀ w ∈ s.pending, ok w) :
    wp (rules.owing (fun s _ => ∀ w ∈ s.pending, ok w) fun _ _ _ => True) p
      (fun r s' _ => (∀ w ∈ s'.pending, ok w) ∧ ∀ b, r = .ok b → returns b s') s L := by
  induction p generalizing s L with
  | ret b =>
      refine ⟨hs, ?_⟩
      rintro _ ⟨⟩
      exact h
  | raise x => exact ⟨hs, fun _ hr => by cases hr⟩
  | read q k ih => exact fun L' hL t ht hp => ih _ (h _ _) hs
  | write f k ih =>
      intro L' hL t ht
      obtain ⟨hwrote, hskip, hrefused⟩ := h t
      refine ⟨fun b hb hp => ih _ (hskip _ b hb) hs, fun w b hw ha hp => ?_,
        fun w b hw hr hp => ⟨trivial, ih _ hrefused hs⟩⟩
      obtain ⟨hpays, hwalks⟩ := hwrote _ w b hw
      refine ih _ hwalks fun w' hw' => ?_
      rcases List.mem_append.mp hw' with hw' | hw'
      · exact hs w' hw'
      · rw [List.mem_singleton] at hw'
        subst hw'
        exact hwatch _ _ hpays
  | commit k ih => exact fun L' hL => ⟨hs, ih h (by simp [Session.close])⟩
  | rollback k ih => exact fun L' hL => ih h (by simp [Session.undo])
  | uuid k ih => exact fun L' hL u hu hown => ih _ (h u) hs
  | now k ih => exact fun L' hL t ht => ih _ (h t) hs
  | ask q k ih => exact fun L' hL a ha => ih _ (h.2 a) hs

end DemandSignal.Txn
