import DemandSignal.Txn.Run

/-!
# A program logic for transactions

`wp` is the weakest precondition of a program under rules: `rely` says how the ledger may change
between two of the session's own steps, `commits` is what the session owes whenever it commits and
`refusals` what it owes whenever a unique index refuses it a row.
With a `rely` of equality the rules read a sequential run; with the interference of the other
sessions they read every interleaving. A postcondition speaks of values and of exceptions.
-/

namespace DemandSignal.Txn

variable {D W K X Q A α β : Type} [Store D W K]

structure Rules (D W Q A : Type) where
  rely : Session W A → Ledger D W → Ledger D W → Prop
  Permits : Session W A → Ledger D W → Verdict W → Prop := fun _ _ _ => True
  Answers : Q → A → Prop := fun _ _ => True
  commits : Session W A → Ledger D W → Prop := fun _ _ => True
  refusals : Session W A → Ledger D W → W → Prop := fun _ _ _ => True

/-- What must hold of a result, the session and the ledger. -/
abbrev Post (D W X A α : Type) := Except X α → Session W A → Ledger D W → Prop

def wp (rules : Rules D W Q A) :
    Program D W X Q A α → Post D W X A α → Session W A → Ledger D W → Prop
  | .ret a, post, s, L => post (.ok a) s L
  | .raise x, post, s, L => post (.error x) s L
  | .read q k, post, s, L => ∀ L', rules.rely s L L' → ∀ t, s.StartsAt t →
      rules.Permits s L' .read → wp rules (k (q (s.view L'.db))) post (s.begin t) L'
  | .write f k, post, s, L => ∀ L', rules.rely s L L' → ∀ t, s.StartsAt t →
      (∀ b, f t (s.view L'.db) = (none, b) → rules.Permits s L' (.wrote none) →
        wp rules (k (some b)) post (s.begin t) L') ∧
      (∀ w b, f t (s.view L'.db) = (some w, b) → Store.refuses (s.view L'.db) w = false →
        rules.Permits s L' (.wrote (some w)) →
        wp rules (k (some b)) post ((s.begin t).add w) L') ∧
      (∀ w b, f t (s.view L'.db) = (some w, b) → Store.refuses (s.view L'.db) w = true →
        rules.Permits s L' (.refused w) →
        rules.refusals (s.begin t) L' w ∧ wp rules (k none) post (s.begin t) L')
  | .commit k, post, s, L => ∀ L', rules.rely s L L' →
      rules.commits s L' ∧ wp rules k post s.close (L'.commit s.pending)
  | .rollback k, post, s, L => ∀ L', rules.rely s L L' → wp rules k post s.undo L'
  | .uuid k, post, s, L => ∀ L', rules.rely s L L' → ∀ u, ¬ Store.InUse L'.db u → u ∉ s.own →
      wp rules (k u) post (s.draw u) L'
  | .now k, post, s, L => ∀ L', rules.rely s L L' → ∀ t, s.MayRead t → wp rules (k t) post s L'
  | .ask q k, post, s, L => ∀ L', rules.rely s L L' → ∀ a, rules.Answers q a →
      wp rules (k a) post (s.hear a) L'

/-- The postcondition of the first of two programs. -/
def Post.andThen (rules : Rules D W Q A) (g : α → Program D W X Q A β) (post : Post D W X A β) :
    Post D W X A α
  | .ok a, s, L => wp rules (g a) post s L
  | .error x, s, L => post (.error x) s L

section Structure

variable {rules : Rules D W Q A} {post post' : Post D W X A β}

@[simp]
theorem wp_ret (b : β) (s : Session W A) (L : Ledger D W) :
    wp rules (.ret b) post s L = post (.ok b) s L := rfl

@[simp]
theorem wp_raise (x : X) (s : Session W A) (L : Ledger D W) :
    wp rules (.raise x) post s L = post (.error x) s L := rfl

@[simp]
theorem Post.andThen_ok (g : α → Program D W X Q A β) (a : α) (s : Session W A) (L : Ledger D W) :
    post.andThen rules g (.ok a) s L = wp rules (g a) post s L := rfl

@[simp]
theorem Post.andThen_error (g : α → Program D W X Q A β) (x : X) (s : Session W A)
    (L : Ledger D W) : post.andThen rules g (.error x) s L = post (.error x) s L := rfl

theorem wp_bind (p : Program D W X Q A α) (g : α → Program D W X Q A β) (s : Session W A)
    (L : Ledger D W) : wp rules (p.bind g) post s L = wp rules p (post.andThen rules g) s L := by
  induction p generalizing s L with
  | ret a => rfl
  | raise x => rfl
  | read q k ih => simp only [Program.bind, wp, ih]
  | write f k ih => simp only [Program.bind, wp, ih]
  | commit k ih => simp only [Program.bind, wp, ih]
  | rollback k ih => simp only [Program.bind, wp, ih]
  | uuid k ih => simp only [Program.bind, wp, ih]
  | now k ih => simp only [Program.bind, wp, ih]
  | ask q k ih => simp only [Program.bind, wp, ih]

theorem wp_mono {p : Program D W X Q A β} (hpost : ∀ r s L, post r s L → post' r s L)
    {s : Session W A} {L : Ledger D W} (h : wp rules p post s L) : wp rules p post' s L := by
  induction p generalizing s L with
  | ret a => exact hpost _ _ _ h
  | raise x => exact hpost _ _ _ h
  | read q k ih => exact fun L' hL t ht hp => ih _ (h L' hL t ht hp)
  | write f k ih =>
      intro L' hL t ht
      obtain ⟨hskip, hwrote, hrefused⟩ := h L' hL t ht
      exact ⟨fun b hb hp => ih _ (hskip b hb hp), fun w b hw ha hp => ih _ (hwrote w b hw ha hp),
        fun w b hw hr hp => ⟨(hrefused w b hw hr hp).1, ih _ (hrefused w b hw hr hp).2⟩⟩
  | commit k ih => exact fun L' hL => ⟨(h L' hL).1, ih (h L' hL).2⟩
  | rollback k ih => exact fun L' hL => ih (h L' hL)
  | uuid k ih => exact fun L' hL u hu hown => ih _ (h L' hL u hu hown)
  | now k ih => exact fun L' hL t ht => ih _ (h L' hL t ht)
  | ask q k ih => exact fun L' hL a ha => ih _ (h L' hL a ha)

/-- Two programs in a row, through what is known after the first. -/
theorem wp_then {p : Program D W X Q A α} {g : α → Program D W X Q A β} {mid : Post D W X A α}
    {s : Session W A} {L : Ledger D W} (hp : wp rules p mid s L)
    (hok : ∀ a s' L', mid (.ok a) s' L' → wp rules (g a) post s' L')
    (herror : ∀ x s' L', mid (.error x) s' L' → post (.error x) s' L') :
    wp rules (p.bind g) post s L := by
  rw [wp_bind]
  refine wp_mono (fun r s' L' h => ?_) hp
  cases r with
  | ok a => exact hok a s' L' h
  | error x => exact herror x s' L' h

/-- A weakest precondition survives whatever the rely allows, once its postcondition does. -/
theorem wp_stable (rules : Rules D W Q A) {p : Program D W X Q A β}
    (htrans : ∀ s L L' L'', rules.rely s L L' → rules.rely s L' L'' → rules.rely s L L'')
    (hpost : ∀ r s L L', post r s L → rules.rely s L L' → post r s L')
    {s : Session W A} {L L' : Ledger D W} (h : wp rules p post s L) (hrely : rules.rely s L L') :
    wp rules p post s L' := by
  cases p with
  | ret a => exact hpost _ _ _ _ h hrely
  | raise x => exact hpost _ _ _ _ h hrely
  | read q k => exact fun L'' hL => h L'' (htrans _ _ _ _ hrely hL)
  | write f k => exact fun L'' hL => h L'' (htrans _ _ _ _ hrely hL)
  | commit k => exact fun L'' hL => h L'' (htrans _ _ _ _ hrely hL)
  | rollback k => exact fun L'' hL => h L'' (htrans _ _ _ _ hrely hL)
  | uuid k => exact fun L'' hL => h L'' (htrans _ _ _ _ hrely hL)
  | now k => exact fun L'' hL => h L'' (htrans _ _ _ _ hrely hL)
  | ask q k => exact fun L'' hL => h L'' (htrans _ _ _ _ hrely hL)

end Structure

/-- One step of a session keeps its weakest precondition, and a commit pays what it owes. -/
theorem Move.sound (rules : Rules D W Q A) {post : Post D W X A α} {setting : Setting D W K Q A}
    (hrefl : ∀ s L, rules.rely s L L)
    (hpermits : ∀ s L v, setting.Permits s L v → rules.Permits s L v)
    (hanswers : ∀ q a, setting.Answers q a → rules.Answers q a)
    {s s' : Session W A} {L L' : Ledger D W} {p p' : Program D W X Q A α}
    (hmove : Move setting s L p s' L' p') (h : wp rules p post s L) :
    wp rules p' post s' L' ∧
      (L' = L ∨ rules.commits s L ∧ L' = L.commit s.pending ∧ s' = s.close) := by
  cases hmove with
  | read hstart hpermit => exact ⟨h _ (hrefl _ _) _ hstart (hpermits _ _ _ hpermit), .inl rfl⟩
  | skipped hstart hwrite hpermit =>
      exact ⟨(h _ (hrefl _ _) _ hstart).1 _ hwrite (hpermits _ _ _ hpermit), .inl rfl⟩
  | wrote hstart hwrite haccept hfree hpermit =>
      exact ⟨(h _ (hrefl _ _) _ hstart).2.1 _ _ hwrite haccept (hpermits _ _ _ hpermit), .inl rfl⟩
  | refused hstart hwrite hrefuse hfree hpermit =>
      exact ⟨((h _ (hrefl _ _) _ hstart).2.2 _ _ hwrite hrefuse (hpermits _ _ _ hpermit)).2, .inl rfl⟩
  | commit => exact ⟨(h _ (hrefl _ _)).2, .inr ⟨(h _ (hrefl _ _)).1, rfl, rfl⟩⟩
  | rollback => exact ⟨h _ (hrefl _ _), .inl rfl⟩
  | uuid hunused hown hfree => exact ⟨h _ (hrefl _ _) _ hunused hown, .inl rfl⟩
  | now hread => exact ⟨h _ (hrefl _ _) _ hread, .inl rfl⟩
  | ask hanswer => exact ⟨h _ (hrefl _ _) _ (hanswers _ _ hanswer), .inl rfl⟩

/-! ### Sequential runs -/

/-- The rules of a session that runs alone. -/
def alone (Answers : Q → A → Prop) (commits : Session W A → Ledger D W → Prop) :
    Rules D W Q A where
  rely _ L L' := L' = L
  Answers := Answers
  commits := commits

/-- A run that starts with its weakest precondition ends with its postcondition, and an invariant of
the commits holds wherever it stops. -/
theorem Runs.sound {post : Post D W X A α} {setting : Setting D W K Q A}
    {commits : Session W A → Ledger D W → Prop} {inv : Ledger D W → Prop}
    (hinv : ∀ s L, inv L → commits s L → inv (L.commit s.pending)) {s s' : Session W A}
    {L L' : Ledger D W} {p : Program D W X Q A α} {r : Except X α}
    (hrun : Runs setting s L p r s' L') (hL : inv L)
    (h : wp (alone setting.Answers commits) p post s L) : post r s' L' ∧ inv L' := by
  induction hrun with
  | ret => exact ⟨h, hL⟩
  | raise => exact ⟨h, hL⟩
  | move hmove _ ih =>
      obtain ⟨hwp, rfl | ⟨hcommits, rfl, -⟩⟩ := Move.sound (alone setting.Answers commits)
        (fun _ _ => rfl) (fun _ _ _ _ => trivial) (fun _ _ ha => ha) hmove h
      · exact ih hL hwp
      · exact ih (hinv _ _ hL hcommits) hwp

theorem Runs.of_wp {setting : Setting D W K Q A} {s s' : Session W A} {L L' : Ledger D W}
    {p : Program D W X Q A α} {r : Except X α} (hrun : Runs setting s L p r s' L')
    (post : Post D W X A α)
    (h : wp (alone setting.Answers fun _ _ => True) p post s L) : post r s' L' := by
  have hinv : ∀ (s : Session W A) (L : Ledger D W), True → True → True := fun _ _ _ _ => trivial
  exact (hrun.sound hinv trivial h).1

theorem Move.of_bind {setting : Setting D W K Q A} {p : Program D W X Q A α}
    {g : α → Program D W X Q A β} {q : Program D W X Q A β} {s s' : Session W A}
    {L L' : Ledger D W} (hmove : Move setting s L (p.bind g) s' L' q) :
    (∃ a, p = .ret a) ∨ ∃ p', q = p'.bind g ∧ Move setting s L p s' L' p' := by
  cases p with
  | ret a => exact .inl ⟨a, rfl⟩
  | raise x => cases hmove
  | read q k =>
      cases hmove with
      | read hstart hpermit => exact .inr ⟨_, rfl, .read hstart hpermit⟩
  | write f k =>
      cases hmove with
      | skipped hstart hwrite hpermit => exact .inr ⟨_, rfl, .skipped hstart hwrite hpermit⟩
      | wrote hstart hwrite haccept hfree hpermit =>
          exact .inr ⟨_, rfl, .wrote hstart hwrite haccept hfree hpermit⟩
      | refused hstart hwrite hrefuse hfree hpermit =>
          exact .inr ⟨_, rfl, .refused hstart hwrite hrefuse hfree hpermit⟩
  | commit k =>
      cases hmove with
      | commit => exact .inr ⟨_, rfl, .commit⟩
  | rollback k =>
      cases hmove with
      | rollback => exact .inr ⟨_, rfl, .rollback⟩
  | uuid k =>
      cases hmove with
      | uuid hunused hown hfree => exact .inr ⟨_, rfl, .uuid hunused hown hfree⟩
  | now k =>
      cases hmove with
      | now hread => exact .inr ⟨_, rfl, .now hread⟩
  | ask q k =>
      cases hmove with
      | ask hanswer => exact .inr ⟨_, rfl, .ask hanswer⟩

/-- A run of two programs in a row is a run of the first, and of the second from where it ended. -/
theorem Runs.of_bind {setting : Setting D W K Q A} {p : Program D W X Q A α}
    {g : α → Program D W X Q A β} {s s' : Session W A} {L L' : Ledger D W} {r : Except X β}
    (hrun : Runs setting s L (p.bind g) r s' L') :
    (∃ a s₁ L₁, Runs setting s L p (.ok a) s₁ L₁ ∧ Runs setting s₁ L₁ (g a) r s' L') ∨
      ∃ x, r = .error x ∧ Runs setting s L p (.error x) s' L' := by
  by_cases hret : ∃ a, p = .ret a
  · obtain ⟨a, rfl⟩ := hret
    exact .inl ⟨a, s, L, .ret, hrun⟩
  · generalize hq : p.bind g = q at hrun
    induction hrun generalizing p with
    | ret => cases p <;> first | cases hq | exact absurd ⟨_, rfl⟩ hret
    | raise =>
        cases p with
        | raise x =>
            cases hq
            exact .inr ⟨_, rfl, .raise⟩
        | ret a => exact absurd ⟨_, rfl⟩ hret
        | _ => cases hq
    | move hmove hrest ih =>
        subst hq
        obtain ⟨a, rfl⟩ | ⟨p', rfl, hmove'⟩ := hmove.of_bind
        · exact absurd ⟨_, rfl⟩ hret
        · by_cases hret' : ∃ a, p' = .ret a
          · obtain ⟨a, rfl⟩ := hret'
            exact .inl ⟨a, _, _, .move hmove' .ret, hrest⟩
          · obtain ⟨a, s₁, L₁, h, h'⟩ | ⟨x, hr, h⟩ := ih hret' rfl
            exacts [.inl ⟨a, s₁, L₁, .move hmove' h, h'⟩, .inr ⟨x, hr, .move hmove' h⟩]

end DemandSignal.Txn
