import DemandSignal.Json.RoundTrip
import DemandSignal.Services.Interpret

/-!
# Reading a completion

The slice the classifier reads runs from the first opening brace to the last closing one. It is the
only middle part of the completion between a text without the one and a text without the other.
-/

namespace DemandSignal

/-! ### The first and the last of a character -/

section Index

variable {c : Char} {cs front back : List Char}

theorem findIdx?_of_not_mem (h : c ∉ front) :
    (front ++ c :: back).findIdx? (· = c) = some front.length := by
  have hfront : front.findIdx? (fun d => decide (d = c)) = none := by
    rw [List.findIdx?_eq_none_iff]
    rintro d hd
    exact decide_eq_false fun heq => h (heq ▸ hd)
  rw [List.findIdx?_append, hfront, Option.none_or, List.findIdx?_cons, if_pos (decide_eq_true rfl)]
  simp

theorem exists_of_findIdx? {n : Nat} (h : cs.findIdx? (· = c) = some n) :
    ∃ front back, cs = front ++ c :: back ∧ c ∉ front ∧ front.length = n := by
  obtain ⟨hn, hc, hbefore⟩ := List.findIdx?_eq_some_iff_getElem.mp h
  have hc : cs[n] = c := of_decide_eq_true hc
  refine ⟨cs.take n, cs.drop (n + 1), ?_, fun hmem => ?_, List.length_take_of_le hn.le⟩
  · rw [← hc, ← List.drop_eq_getElem_cons hn, List.take_append_drop]
  · obtain ⟨i, hi, heq⟩ := List.mem_take_iff_getElem.mp hmem
    exact hbefore i (by omega) (decide_eq_true heq)

theorem Interpret.lastIndex_of_not_mem (h : c ∉ back) :
    Interpret.lastIndex c (front ++ c :: back) = some front.length := by
  have hreverse : (front ++ c :: back).reverse = back.reverse ++ c :: front.reverse := by simp
  rw [Interpret.lastIndex, hreverse, findIdx?_of_not_mem (by simpa using h), Option.map_some,
    List.length_append, List.length_cons, List.length_reverse]
  congr 1
  omega

theorem Interpret.exists_of_lastIndex {n : Nat} (h : Interpret.lastIndex c cs = some n) :
    ∃ front back, cs = front ++ c :: back ∧ c ∉ back ∧ front.length = n := by
  obtain ⟨m, hm, rfl⟩ := Option.map_eq_some_iff.mp h
  obtain ⟨front, back, hreverse, hnot, hlength⟩ := exists_of_findIdx? hm
  refine ⟨back.reverse, front.reverse, ?_, by simpa using hnot, ?_⟩
  · rw [← List.reverse_reverse cs, hreverse, List.reverse_append, List.reverse_cons,
      List.append_assoc, List.singleton_append]
  · have hcount := congrArg List.length hreverse
    simp only [List.length_reverse, List.length_append, List.length_cons] at hcount ⊢
    omega

/-- The part between two characters, the first of which comes before the second. -/
theorem exists_between {d : Char} {rest most : List Char}
    (h : front ++ c :: rest = most ++ d :: back) (hlt : front.length < most.length) :
    ∃ middle, most = front ++ c :: middle := by
  obtain ⟨middle, hmost, hrest⟩ | ⟨middle, hfront, _⟩ := List.append_eq_append_iff.mp h
  · cases middle with
    | nil => simp [hmost] at hlt
    | cons e middle =>
        cases hrest
        exact ⟨middle, hmost⟩
  · simp [hfront] at hlt

theorem slice_between {d : Char} {middle : List Char} :
    ((front ++ c :: middle ++ d :: back).take ((front ++ c :: middle).length + 1)).drop
      front.length = c :: (middle ++ [d]) := by
  have hsplit : front ++ c :: middle ++ d :: back = (front ++ c :: (middle ++ [d])) ++ back := by
    simp
  have hlength : (front ++ c :: middle).length + 1 = (front ++ c :: (middle ++ [d])).length := by
    simp only [List.length_append, List.length_cons, List.length_nil]
    omega
  rw [hsplit, hlength, List.take_left, List.drop_left]

end Index

namespace Interpret

variable {app : App}

/-- A text between braces that reads as an object with the fields. -/
structure Renders (number : List Char → Numeral) (fields : Json.Fields) (text : List Char) :
    Prop where
  opens : text.head? = some '\x7b'
  closes : text.getLast? = some '\x7d'
  reads : Json.loads number text = some (.obj fields)

theorem Renders.exists_middle {number : List Char → Numeral} {fields : Json.Fields}
    {text : List Char} (h : Renders number fields text) :
    ∃ middle, text = '\x7b' :: (middle ++ ['\x7d']) := by
  obtain ⟨most, rfl⟩ := List.getLast?_eq_some_iff.mp h.closes
  cases most with
  | nil => cases h.opens
  | cons c middle =>
      cases h.opens
      exact ⟨middle, rfl⟩

/-- The compact rendering of an object is one of its renderings. -/
theorem renders_dumps {number : List Char → Numeral} {fields : Json.Fields}
    (h : Json.Loaded number (.obj fields)) :
    Renders number fields (Json.dumps (.obj fields)) := by
  refine ⟨?_, ?_, Json.loads_dumps h.1 h.2⟩
  · cases fields <;> rfl
  · cases fields with
    | nil => rfl
    | cons p rest => rw [Json.dumps, List.getLast?_cons, List.getLast?_concat]; rfl

/-- The classifier returns the fields of a rendering that the completion holds between a text without
an opening brace and a text without a closing one, and of nothing else. -/
theorem parseClassification_eq_ok_iff {content : String} {fields : Json.Fields} :
    parseClassification app content = .ok fields ↔
      ∃ front text back, content.toList = front ++ text ++ back ∧ '\x7b' ∉ front ∧ '\x7d' ∉ back ∧
        Renders app.number fields text := by
  constructor
  · intro h
    unfold parseClassification at h
    dsimp only at h
    split at h
    · cases h
    · split at h
      · next start stop hstart hstop =>
          split at h
          · cases h
          · next hlt =>
              split at h
              · next fields' hreads =>
                  cases h
                  obtain ⟨front, rest, hfront, hnot, rfl⟩ := exists_of_findIdx? hstart
                  obtain ⟨most, back, hback, hnot', rfl⟩ := exists_of_lastIndex hstop
                  obtain ⟨middle, rfl⟩ := exists_between (hfront.symm.trans hback) (not_le.mp hlt)
                  rw [hback, slice_between] at hreads
                  refine ⟨front, '\x7b' :: (middle ++ ['\x7d']), back, ?_, hnot, hnot', rfl, ?_, hreads⟩
                  · simp [hback]
                  · rw [List.getLast?_cons, List.getLast?_concat]
                    rfl
              · cases h
      · cases h
  · rintro ⟨front, text, back, hcontent, hfront, hback, htext⟩
    obtain ⟨middle, rfl⟩ := htext.exists_middle
    have hopen : content.toList.findIdx? (· = '\x7b') = some front.length := by
      rw [hcontent, List.append_assoc, List.cons_append, findIdx?_of_not_mem hfront]
    have hcontent' : content.toList = front ++ '\x7b' :: middle ++ '\x7d' :: back := by
      rw [hcontent]
      simp
    have hclose : lastIndex '\x7d' content.toList = some (front ++ '\x7b' :: middle).length := by
      rw [hcontent', lastIndex_of_not_mem hback]
    have hne : content ≠ "" := by
      rintro rfl
      simp at hcontent
    have hlt : ¬ (front ++ '\x7b' :: middle).length ≤ front.length := by
      simp
    unfold parseClassification
    dsimp only
    rw [if_neg hne, hopen, hclose]
    dsimp only
    rw [if_neg hlt, hcontent', slice_between, htext.reads]

end Interpret

end DemandSignal
