import DemandSignal.Json.Text
import Mathlib.Data.List.Induction
import Mathlib.Data.List.TakeWhile

/-!
# Reading back what was rendered

Every reading function undoes the rendering of its part and stops where that part ends. The
induction is on the value; the fuel is bounded by the length of its rendering.
-/

namespace DemandSignal.Json

/-! ### Characters and strings -/

theorem hexVal_hexDigit : ∀ n < 16, hexVal (hexDigit n) = some n := by decide

theorem readUnit_hexDigits {n : Nat} (hn : n < 0x10000) (rest : List Char) :
    readUnit (hexDigits n ++ rest) = some (n, rest) := by
  have hsum : 4096 * (n / 4096 % 16) + 256 * (n / 256 % 16) + 16 * (n / 16 % 16) + n % 16 = n := by
    omega
  simp only [hexDigits, List.cons_append, List.nil_append, readUnit,
    hexVal_hexDigit _ (Nat.mod_lt _ (by decide : 0 < 16)), hsum]

theorem readUnicode_unit {n : Nat} (hn : n < 0xd800 ∨ 0xdc00 ≤ n) (hlt : n < 0x10000)
    (rest : List Char) : readUnicode (hexDigits n ++ rest) = some (Char.ofNat n, rest) := by
  rw [readUnicode, readUnit_hexDigits hlt]
  exact if_neg (by omega)

theorem readUnicode_pair {n m : Nat} (hn : 0xd800 ≤ n ∧ n < 0xdc00) (hm : 0xdc00 ≤ m ∧ m < 0xe000)
    (rest : List Char) : readUnicode (hexDigits n ++ (escapeUnit m ++ rest)) =
      some (Char.ofNat (0x10000 + (n - 0xd800) * 0x400 + (m - 0xdc00)), rest) := by
  rw [readUnicode, readUnit_hexDigits (by omega)]
  simp only [if_pos hn, escapeUnit, List.cons_append]
  rw [readUnit_hexDigits (by omega)]
  exact if_pos hm

theorem toNat_bounds (c : Char) : c.toNat < 0xd800 ∨ 0xe000 ≤ c.toNat ∧ c.toNat < 0x110000 := by
  have hvalid : c.toNat < 0xd800 ∨ 0xdfff < c.toNat ∧ c.toNat < 0x110000 := c.valid
  omega

/-- The code point of a surrogate pair. -/
theorem surrogates_sum {n : Nat} (hn : 0x10000 ≤ n) :
    0x10000 + (0xd800 + (n - 0x10000) / 0x400 - 0xd800) * 0x400 +
      (0xdc00 + (n - 0x10000) % 0x400 - 0xdc00) = n := by
  omega

/-- A character past the basic plane comes back from its surrogate pair. -/
theorem readUnicode_char_pair {c : Char} (hc : 0x10000 ≤ c.toNat) (rest : List Char) :
    readUnicode (hexDigits (0xd800 + (c.toNat - 0x10000) / 0x400) ++
      (escapeUnit (0xdc00 + (c.toNat - 0x10000) % 0x400) ++ rest)) = some (c, rest) := by
  have hbound := toNat_bounds c
  rw [readUnicode_pair (by omega) (by omega), surrogates_sum hc, Char.ofNat_toNat]

theorem readChars_backslash (fuel : Nat) (cs : List Char) :
    readChars (fuel + 1) ('\\' :: cs) =
      match readEscape cs with
      | none => none
      | some (c, rest) => (readChars fuel rest).map fun (cs, rest) => (c :: cs, rest) := by
  rcases hescape : readEscape cs with _ | ⟨c, rest⟩ <;> simp [readChars, hescape]

theorem readChars_escapeChar (fuel : Nat) (c : Char) (rest : List Char) :
    readChars (fuel + 1) (escapeChar c ++ rest) =
      (readChars fuel rest).map fun (cs, rest) => (c :: cs, rest) := by
  have hescape : ∀ tail : List Char, readEscape (tail ++ rest) = some (c, rest) →
      readChars (fuel + 1) ('\\' :: tail ++ rest) =
        (readChars fuel rest).map fun (cs, rest) => (c :: cs, rest) := by
    intro tail htail
    rw [List.cons_append, readChars_backslash, htail]
  unfold escapeChar
  split
  · next h => exact hescape ['"'] (by rw [h]; rfl)
  split
  · next h => exact hescape ['\\'] (by rw [h]; rfl)
  split
  · next h => exact hescape ['n'] (by rw [h]; rfl)
  split
  · next h => exact hescape ['r'] (by rw [h]; rfl)
  split
  · next h => exact hescape ['t'] (by rw [h]; rfl)
  split
  · next h => exact hescape ['b'] (by rw [← Char.ofNat_toNat c, h]; rfl)
  split
  · next h => exact hescape ['f'] (by rw [← Char.ofNat_toNat c, h]; rfl)
  split
  · next hquote hslash _ _ _ _ _ h =>
      rw [List.singleton_append, readChars, if_neg hquote, if_neg hslash, if_neg (by omega)]
  split
  · next h =>
      refine hescape ('u' :: hexDigits c.toNat) ?_
      have hbound := toNat_bounds c
      rw [List.cons_append, readEscape, readUnicode_unit (by omega) h, Char.ofNat_toNat]
  · next h =>
      refine hescape ('u' :: (hexDigits _ ++ escapeUnit _)) ?_
      rw [List.cons_append, readEscape, List.append_assoc, readUnicode_char_pair (by omega)]

theorem readChars_flatMap (cs rest : List Char) {fuel : Nat} (hfuel : cs.length < fuel) :
    readChars fuel (cs.flatMap escapeChar ++ '"' :: rest) = some (cs, rest) := by
  induction cs generalizing fuel with
  | nil =>
      obtain ⟨fuel, rfl⟩ := Nat.exists_eq_add_of_lt hfuel
      simp [readChars]
  | cons c cs ih =>
      obtain ⟨fuel, rfl⟩ : ∃ n, fuel = n + 1 := ⟨fuel - 1, by omega⟩
      rw [List.flatMap_cons, List.append_assoc, readChars_escapeChar,
        ih (by simp only [List.length_cons] at hfuel; omega)]
      rfl

theorem escapeChar_ne_nil (c : Char) : escapeChar c ≠ [] := by
  unfold escapeChar escapeUnit
  repeat' split
  all_goals exact List.cons_ne_nil _ _

theorem length_le_flatMap (cs : List Char) : cs.length ≤ (cs.flatMap escapeChar).length := by
  induction cs with
  | nil => simp
  | cons c cs ih =>
      have := List.length_pos_iff.mpr (escapeChar_ne_nil c)
      rw [List.flatMap_cons, List.length_append, List.length_cons]
      omega

theorem readString_quote (s : String) (rest : List Char) :
    readString ((quote s).tail ++ rest) = some (s, rest) := by
  have hlen := length_le_flatMap s.toList
  rw [readString, quote, List.tail_cons, List.append_assoc, List.singleton_append,
    readChars_flatMap _ _ (by simp only [List.length_append, List.length_cons]; omega)]
  simp

/-! ### Numbers -/

def NumeralChars (cs : List Char) : Prop := ∀ c ∈ cs, isNumeralChar c = true

theorem NumeralChars.cons {c : Char} {cs : List Char} (hc : isNumeralChar c = true)
    (h : NumeralChars cs) : NumeralChars (c :: cs) := by
  rintro d hd
  rcases List.mem_cons.mp hd with rfl | hd
  exacts [hc, h d hd]

theorem isDigitRun_chars {cs : List Char} (h : isDigitRun cs = true) : NumeralChars cs := by
  intro c hc
  simp only [isDigitRun, Bool.and_eq_true, List.all_eq_true] at h
  simp only [isNumeralChar, h.2 c hc, Bool.true_or]

theorem isExponent_chars {cs : List Char} (h : isExponent cs = true) : NumeralChars cs := by
  cases cs with
  | nil => simp [NumeralChars]
  | cons e rest =>
      simp only [isExponent, Bool.and_eq_true, Bool.or_eq_true, beq_iff_eq] at h
      obtain ⟨he, hrest⟩ := h
      refine .cons (by rcases he with rfl | rfl <;> decide) ?_
      split at hrest
      · exact .cons (by decide) (isDigitRun_chars hrest)
      · exact .cons (by decide) (isDigitRun_chars hrest)
      · exact isDigitRun_chars hrest

/-- Digits up to a tail of numeral characters. -/
theorem span_chars {cs : List Char} (htail : NumeralChars (cs.dropWhile Char.isDigit)) :
    NumeralChars cs := by
  intro c hc
  rw [← List.takeWhile_append_dropWhile (p := Char.isDigit) (l := cs)] at hc
  rcases List.mem_append.mp hc with hc | hc
  · simp only [isNumeralChar, List.mem_takeWhile_imp hc, Bool.true_or]
  · exact htail c hc

theorem isFraction_chars {cs : List Char} (h : isFraction cs = true) : NumeralChars cs := by
  unfold isFraction at h
  split at h
  · simp only [Bool.and_eq_true] at h
    exact .cons (by decide) (span_chars (isExponent_chars h.2))
  · exact isExponent_chars h

theorem isMagnitude_chars {cs : List Char} (h : isMagnitude cs = true) : NumeralChars cs := by
  simp only [isMagnitude, Bool.and_eq_true] at h
  exact span_chars (isFraction_chars h.2)

theorem isNumeral_chars {cs : List Char} (h : isNumeral cs = true) : NumeralChars cs := by
  simp only [isNumeral, Bool.or_eq_true] at h
  rcases h with h | h
  · unfold isNumber at h
    split at h
    · exact .cons (by decide) (isMagnitude_chars h)
    · exact isMagnitude_chars h
  · simp only [isSpecial, Bool.or_eq_true, beq_iff_eq] at h
    rcases h with (rfl | rfl) | rfl <;> simp [NumeralChars, isNumeralChar]

/-- The character that tells a number from every other value. -/
def IsNumeralHead (c : Char) : Prop := c.isDigit = true ∨ c = '-' ∨ c = 'N' ∨ c = 'I'

theorem isMagnitude_head {cs : List Char} (h : isMagnitude cs = true) :
    ∃ c tail, cs = c :: tail ∧ c.isDigit = true := by
  simp only [isMagnitude, isDigitRun, Bool.and_eq_true] at h
  cases cs with
  | nil => simp at h
  | cons c tail =>
      refine ⟨c, tail, rfl, ?_⟩
      by_contra hc
      simp [hc] at h

theorem isNumeral_head {cs : List Char} (h : isNumeral cs = true) :
    ∃ c tail, cs = c :: tail ∧ IsNumeralHead c := by
  simp only [isNumeral, Bool.or_eq_true] at h
  rcases h with h | h
  · unfold isNumber at h
    split at h
    · exact ⟨_, _, rfl, .inr (.inl rfl)⟩
    · obtain ⟨c, tail, rfl, hc⟩ := isMagnitude_head h
      exact ⟨c, tail, rfl, .inl hc⟩
  · simp only [isSpecial, Bool.or_eq_true, beq_iff_eq] at h
    rcases h with (rfl | rfl) | rfl
    exacts [⟨_, _, rfl, .inr (.inr (.inl rfl))⟩, ⟨_, _, rfl, .inr (.inr (.inr rfl))⟩,
      ⟨_, _, rfl, .inr (.inl rfl)⟩]

/-- No number reaches into what follows. -/
def Stops (rest : List Char) : Prop := ∀ c ∈ rest.head?, isNumeralChar c = false

theorem takeWhile_numeral {cs rest : List Char} (h : NumeralChars cs) (hrest : Stops rest) :
    (cs ++ rest).takeWhile isNumeralChar = cs ∧ (cs ++ rest).dropWhile isNumeralChar = rest := by
  induction cs with
  | nil =>
      cases rest with
      | nil => simp
      | cons c rest => simp [hrest c rfl]
  | cons c cs ih =>
      have := ih fun d hd => h d (List.mem_cons_of_mem c hd)
      simp [h c (List.mem_cons_self ..), this]

/-! ### Objects -/

theorem foldl_setField (acc ps : Fields) (h : ((acc ++ ps).map Prod.fst).Nodup) :
    ps.foldl setField acc = acc ++ ps := by
  induction ps generalizing acc with
  | nil => simp
  | cons p ps ih =>
      have hfresh : p.1 ∉ acc.map Prod.fst := by
        simp only [List.map_append, List.map_cons, List.nodup_append] at h
        intro hmem
        exact h.2.2 _ hmem _ (List.mem_cons_self ..) rfl
      rw [List.foldl_cons, setField, if_neg hfresh, ih _ (by simpa using h), List.append_assoc]
      rfl

/-- Building a `dict` from pairs with distinct keys keeps them. -/
theorem dict_eq_self {ps : Fields} (h : (ps.map Prod.fst).Nodup) : dict ps = ps :=
  foldl_setField [] ps h

/-! ### Values -/

/-- The first character of a rendering is no space and closes nothing. -/
theorem dumps_head (j : Json) : ∃ c tail, dumps j = c :: tail ∧ isSpace c = false ∧ c ≠ ']' := by
  cases j with
  | null => exact ⟨_, _, rfl, by decide, by decide⟩
  | bool b => cases b <;> exact ⟨_, _, rfl, by decide, by decide⟩
  | num n =>
      obtain ⟨c, tail, htext, hc⟩ := isNumeral_head n.ok
      refine ⟨c, tail, by rw [dumps, htext], ?_⟩
      rcases hc with hc | rfl | rfl | rfl
      · have : ∀ d, d.isDigit = false → c ≠ d := by
          rintro d hd rfl
          simp [hc] at hd
        simp [isSpace, this ' ' (by decide), this '\t' (by decide), this '\n' (by decide),
          this '\r' (by decide), this ']' (by decide)]
      all_goals decide
  | str s => exact ⟨_, _, rfl, by decide, by decide⟩
  | arr xs => cases xs <;> exact ⟨_, _, rfl, by decide, by decide⟩
  | obj fields =>
      rcases fields with _ | ⟨⟨k, v⟩, rest⟩ <;> exact ⟨_, _, rfl, by decide, by decide⟩

theorem skipSpace_of_head {c : Char} {cs : List Char} (hc : isSpace c = false) :
    skipSpace (c :: cs) = c :: cs := by
  simp [skipSpace, hc]

theorem stops_cons {c : Char} (hc : isNumeralChar c = false) (cs : List Char) : Stops (c :: cs) := by
  simpa [Stops] using hc

theorem stops_dumpsList (xs : List Json) (rest : List Char) : Stops (dumpsList xs ++ ']' :: rest) := by
  cases xs <;> exact stops_cons (by decide) _

theorem stops_dumpsFields (fields : Fields) (rest : List Char) :
    Stops (dumpsFields fields ++ '}' :: rest) := by
  cases fields <;> exact stops_cons (by decide) _

variable {number : List Char → Numeral}

theorem readValue_numeral {n : Numeral} (hnumber : number n.text = n) (fuel : Nat)
    {rest : List Char} (hrest : Stops rest) :
    readValue number (fuel + 1) (n.text ++ rest) = some (.num n, rest) := by
  obtain ⟨c, tail, htext, hc⟩ := isNumeral_head n.ok
  obtain ⟨htake, hdrop⟩ := takeWhile_numeral (isNumeral_chars n.ok) hrest
  have hread : readNumeral number (n.text ++ rest) = some (.num n, rest) := by
    rw [readNumeral, htake, hdrop, if_pos n.ok, hnumber]
  have hne : ∀ d, d.isDigit = false → d ≠ '-' → d ≠ 'N' → d ≠ 'I' → c ≠ d := by
    rintro d hdigit hminus hN hI rfl
    rcases hc with hc | hc | hc | hc
    exacts [by simp [hc] at hdigit, hminus hc, hN hc, hI hc]
  have hspace : isSpace c = false := by
    simp [isSpace, hne ' ', hne '\t', hne '\n', hne '\r']
  rw [htext, List.cons_append] at hread ⊢
  rw [readValue, skipSpace_of_head hspace]
  split
  · next h => exact absurd (List.cons.inj h).1 (hne _ (by decide) (by decide) (by decide) (by decide))
  · next h => exact absurd (List.cons.inj h).1 (hne _ (by decide) (by decide) (by decide) (by decide))
  · next h => exact absurd (List.cons.inj h).1 (hne _ (by decide) (by decide) (by decide) (by decide))
  · next h => exact absurd (List.cons.inj h).1 (hne _ (by decide) (by decide) (by decide) (by decide))
  · next h => exact absurd (List.cons.inj h).1 (hne _ (by decide) (by decide) (by decide) (by decide))
  · next h => exact absurd (List.cons.inj h).1 (hne _ (by decide) (by decide) (by decide) (by decide))
  · exact hread

mutual

/-- Every number of the value reads as itself. -/
def Rendered (number : List Char → Numeral) : Json → Prop
  | .num n => number n.text = n
  | .arr xs => RenderedList number xs
  | .obj fields => RenderedFields number fields
  | _ => True

def RenderedList (number : List Char → Numeral) : List Json → Prop
  | [] => True
  | x :: xs => Rendered number x ∧ RenderedList number xs

def RenderedFields (number : List Char → Numeral) : Fields → Prop
  | [] => True
  | (_, v) :: rest => Rendered number v ∧ RenderedFields number rest

end

mutual

theorem rendered_ofText : ∀ j : Json, Rendered Numeral.ofText j
  | .num n => Numeral.ofText_text n
  | .arr xs => renderedList_ofText xs
  | .obj fields => renderedFields_ofText fields
  | .null | .bool _ | .str _ => trivial

theorem renderedList_ofText : ∀ xs : List Json, RenderedList Numeral.ofText xs
  | [] => trivial
  | x :: xs => ⟨rendered_ofText x, renderedList_ofText xs⟩

theorem renderedFields_ofText : ∀ fields : Fields, RenderedFields Numeral.ofText fields
  | [] => trivial
  | (_, v) :: rest => ⟨rendered_ofText v, renderedFields_ofText rest⟩

end

/-- The reader gives back the value of a rendering and stops there. -/
def Reads (number : List Char → Numeral) (j : Json) : Prop :=
  ∀ fuel rest, (dumps j).length ≤ fuel → Stops rest →
    readValue number fuel (dumps j ++ rest) = some (j, rest)

set_option linter.unnecessarySeqFocus false in
theorem readMembers_field {k : String} {v : Json} (hv : Reads number v) {fuel : Nat}
    {tail : List Char} (hfuel : (dumps v).length ≤ fuel) (htail : Stops tail) :
    readMembers number (fuel + 1) (quote k ++ ':' :: dumps v ++ tail) =
      match skipSpace tail with
      | ',' :: rest => (readMembers number fuel rest).map fun (ps, rest) => ((k, v) :: ps, rest)
      | '}' :: rest => some ([(k, v)], rest)
      | _ => none := by
  have hquote : readString ((quote k).tail ++ ':' :: (dumps v ++ tail)) =
      some (k, ':' :: (dumps v ++ tail)) := readString_quote k _
  rw [readMembers]
  simp only [quote, List.cons_append, List.append_assoc, List.nil_append,
    skipSpace_of_head (show isSpace '"' = false by decide)]
  simp only [quote, List.tail_cons, List.append_assoc, List.cons_append, List.nil_append] at hquote
  simp only [hquote, skipSpace_of_head (show isSpace ':' = false by decide),
    hv fuel tail hfuel htail] <;> rfl

mutual

theorem reads_dumps : ∀ {j : Json}, j.Wf → Rendered number j → Reads number j
  | .null, _, _, fuel, rest, hfuel, _ => by
      obtain ⟨fuel, rfl⟩ : ∃ n, fuel = n + 1 := ⟨fuel - 1, by simp [dumps] at hfuel; omega⟩
      rfl
  | .bool true, _, _, fuel, rest, hfuel, _ => by
      obtain ⟨fuel, rfl⟩ : ∃ n, fuel = n + 1 := ⟨fuel - 1, by simp [dumps] at hfuel; omega⟩
      rfl
  | .bool false, _, _, fuel, rest, hfuel, _ => by
      obtain ⟨fuel, rfl⟩ : ∃ n, fuel = n + 1 := ⟨fuel - 1, by simp [dumps] at hfuel; omega⟩
      rfl
  | .num n, _, hnumber, fuel, rest, hfuel, hrest => by
      obtain ⟨c, tail, htext, _⟩ := isNumeral_head n.ok
      obtain ⟨fuel, rfl⟩ : ∃ n, fuel = n + 1 := ⟨fuel - 1, by simp [dumps, htext] at hfuel; omega⟩
      exact readValue_numeral hnumber fuel hrest
  | .str s, _, _, fuel, rest, hfuel, _ => by
      obtain ⟨fuel, rfl⟩ : ∃ n, fuel = n + 1 := ⟨fuel - 1, by simp [dumps, quote] at hfuel; omega⟩
      have hread := readString_quote s rest
      simp only [quote, List.tail_cons] at hread
      rw [dumps, quote, List.cons_append, readValue]
      simp only [skipSpace_of_head (show isSpace '"' = false by decide), hread, Option.map_some]
  | .arr [], _, _, fuel, rest, hfuel, _ => by
      obtain ⟨fuel, rfl⟩ : ∃ n, fuel = n + 1 := ⟨fuel - 1, by simp [dumps] at hfuel; omega⟩
      rfl
  | .arr (x :: xs), hj, hr, fuel, rest, hfuel, _ => by
      obtain ⟨fuel, rfl⟩ : ∃ n, fuel = n + 1 := ⟨fuel - 1, by simp [dumps] at hfuel; omega⟩
      have hread := readElements_dumpsList hj.2 hr.2 (reads_dumps hj.1 hr.1) fuel rest
        (by simp [dumps] at hfuel ⊢; omega)
      obtain ⟨c, tail, hx, hspace, hclose⟩ := dumps_head x
      simp only [dumps, List.cons_append, List.append_assoc, List.nil_append] at hread ⊢
      rw [readValue]
      simp only [skipSpace_of_head (show isSpace '[' = false by decide)]
      rw [hx, List.cons_append] at hread ⊢
      rw [skipSpace_of_head hspace]
      split
      · next h => exact absurd (List.cons.inj h).1 hclose
      · rw [hread]
        rfl
  | .obj [], _, _, fuel, rest, hfuel, _ => by
      obtain ⟨fuel, rfl⟩ : ∃ n, fuel = n + 1 := ⟨fuel - 1, by simp [dumps] at hfuel; omega⟩
      rfl
  | .obj ((k, v) :: fields), hj, hr, fuel, rest, hfuel, _ => by
      obtain ⟨fuel, rfl⟩ : ∃ n, fuel = n + 1 := ⟨fuel - 1, by simp [dumps] at hfuel; omega⟩
      have hread := readMembers_dumpsFields hj.2.2 hr.2 (reads_dumps hj.2.1 hr.1) k fuel rest
        (by simp [dumps] at hfuel ⊢; omega)
      simp only [dumps, List.cons_append, List.append_assoc, List.nil_append] at hread ⊢
      rw [readValue]
      simp only [skipSpace_of_head (show isSpace '\x7b' = false by decide)]
      simp only [quote, List.cons_append] at hread ⊢
      simp only [skipSpace_of_head (show isSpace '"' = false by decide)]
      split
      · next h => exact absurd (List.cons.inj h).1 (by decide)
      · rw [hread, Option.map_some, dict_eq_self hj.1]

theorem readElements_dumpsList : ∀ {xs : List Json}, WfList xs → RenderedList number xs →
    ∀ {x : Json}, Reads number x → ∀ fuel rest,
      (dumps x ++ dumpsList xs).length + 1 ≤ fuel →
      readElements number fuel (dumps x ++ (dumpsList xs ++ ']' :: rest)) = some (x :: xs, rest)
  | [], _, _, x, hx, fuel, rest, hfuel => by
      obtain ⟨fuel, rfl⟩ : ∃ n, fuel = n + 1 := ⟨fuel - 1, by omega⟩
      rw [readElements, hx fuel _ (by simp at hfuel; omega) (stops_dumpsList [] rest)]
      rfl
  | y :: ys, hxs, hr, x, hx, fuel, rest, hfuel => by
      obtain ⟨fuel, rfl⟩ : ∃ n, fuel = n + 1 := ⟨fuel - 1, by omega⟩
      have hread := readElements_dumpsList hxs.2 hr.2 (reads_dumps hxs.1 hr.1) fuel rest
        (by simp [dumpsList] at hfuel ⊢; omega)
      rw [readElements, hx fuel _ (by simp at hfuel; omega) (stops_dumpsList (y :: ys) rest)]
      simp only [dumpsList, List.cons_append, List.append_assoc,
        skipSpace_of_head (show isSpace ',' = false by decide), hread, Option.map_some]

theorem readMembers_dumpsFields : ∀ {fields : Fields}, WfFields fields →
    RenderedFields number fields → ∀ {v : Json}, Reads number v → ∀ k fuel rest,
      (quote k ++ ':' :: dumps v ++ dumpsFields fields).length + 1 ≤ fuel →
      readMembers number fuel (quote k ++ ':' :: dumps v ++ (dumpsFields fields ++ '}' :: rest)) =
        some ((k, v) :: fields, rest)
  | [], _, _, v, hv, k, fuel, rest, hfuel => by
      obtain ⟨fuel, rfl⟩ : ∃ n, fuel = n + 1 := ⟨fuel - 1, by omega⟩
      rw [readMembers_field hv (by simp at hfuel; omega) (stops_dumpsFields [] rest)]
      rfl
  | (k', w) :: fields, hfields, hr, v, hv, k, fuel, rest, hfuel => by
      obtain ⟨fuel, rfl⟩ : ∃ n, fuel = n + 1 := ⟨fuel - 1, by omega⟩
      have hread := readMembers_dumpsFields hfields.2 hr.2 (reads_dumps hfields.1 hr.1) k' fuel
        rest (by simp [dumpsFields] at hfuel ⊢; omega)
      rw [readMembers_field hv (by simp at hfuel; omega)
        (stops_dumpsFields ((k', w) :: fields) rest)]
      simp only [List.cons_append, List.append_assoc] at hread
      simp only [dumpsFields, List.cons_append, List.append_assoc,
        skipSpace_of_head (show isSpace ',' = false by decide), hread, Option.map_some]

end

/-- **Reading undoes rendering.** -/
theorem loads_dumps {j : Json} (hj : j.Wf) (hr : Rendered number j) :
    loads number (dumps j) = some j := by
  have hread := reads_dumps hj hr ((dumps j).length + 1) [] (by omega) (by simp [Stops])
  rw [List.append_nil] at hread
  rw [loads, hread]
  rfl

theorem dumps_injective {a b : Json} (ha : a.Wf) (hb : b.Wf) (h : dumps a = dumps b) : a = b := by
  have hread := loads_dumps ha (rendered_ofText a)
  rw [h, loads_dumps hb (rendered_ofText b), Option.some_inj] at hread
  exact hread.symm

/-! ### Sorted renderings -/

mutual

theorem wf_sortKeys : ∀ {j : Json}, j.Wf → (sortKeys j).Wf
  | .null, _ => trivial
  | .bool _, _ => trivial
  | .num _, _ => trivial
  | .str _, _ => trivial
  | .arr _, h => wfList_sortList h
  | .obj fields, h => by
      refine ⟨?_, wfFields_iff.mpr fun p hp => ?_⟩
      · rw [((sortByKey_perm _).map Prod.fst).nodup_iff, keys_sortFields]
        exact h.1
      · exact wfFields_iff.mp (wfFields_sortFields h.2) p ((sortByKey_perm _).mem_iff.mp hp)

theorem wfList_sortList : ∀ {xs : List Json}, WfList xs → WfList (sortList xs)
  | [], _ => trivial
  | _ :: _, h => ⟨wf_sortKeys h.1, wfList_sortList h.2⟩

theorem wfFields_sortFields : ∀ {fields : Fields}, WfFields fields → WfFields (sortFields fields)
  | [], _ => trivial
  | (_, _) :: _, h => ⟨wf_sortKeys h.1, wfFields_sortFields h.2⟩

end

theorem wfList_iff {xs : List Json} : WfList xs ↔ ∀ x ∈ xs, x.Wf := by
  induction xs with
  | nil => simp [WfList]
  | cons x xs ih => simp [WfList, ih]

theorem renderedList_iff {xs : List Json} :
    RenderedList number xs ↔ ∀ x ∈ xs, Rendered number x := by
  induction xs with
  | nil => simp [RenderedList]
  | cons x xs ih => simp [RenderedList, ih]

theorem renderedFields_iff {fields : Fields} :
    RenderedFields number fields ↔ ∀ p ∈ fields, Rendered number p.2 := by
  induction fields with
  | nil => simp [RenderedFields]
  | cons p rest ih => simp [RenderedFields, ih]

mutual

theorem rendered_sortKeys : ∀ {j : Json}, Rendered number j → Rendered number (sortKeys j)
  | .null, _ => trivial
  | .bool _, _ => trivial
  | .num _, h => h
  | .str _, _ => trivial
  | .arr _, h => renderedList_sortList h
  | .obj _, h => renderedFields_iff.mpr fun p hp =>
      renderedFields_iff.mp (renderedFields_sortFields h) p ((sortByKey_perm _).mem_iff.mp hp)

theorem renderedList_sortList : ∀ {xs : List Json}, RenderedList number xs →
    RenderedList number (sortList xs)
  | [], _ => trivial
  | _ :: _, h => ⟨rendered_sortKeys h.1, renderedList_sortList h.2⟩

theorem renderedFields_sortFields : ∀ {fields : Fields}, RenderedFields number fields →
    RenderedFields number (sortFields fields)
  | [], _ => trivial
  | (_, _) :: _, h => ⟨rendered_sortKeys h.1, renderedFields_sortFields h.2⟩

end

theorem sameFields_map {f : String × Json → String × Json} (hkey : ∀ p, (f p).1 = p.1)
    {fields : Fields} (h : ∀ p ∈ fields, SameUpToOrder (f p).2 p.2) :
    SameFields (fields.map f) fields := by
  induction fields with
  | nil => exact .nil
  | cons p rest ih =>
      have hp : f p = (p.1, (f p).2) := Prod.ext (hkey p) rfl
      rw [List.map_cons, hp]
      exact .cons (h p (List.mem_cons_self ..)) (ih fun q hq => h q (List.mem_cons_of_mem _ hq))

mutual

/-- Sorting the keys changes their order only. -/
theorem sortKeys_same : ∀ j : Json, SameUpToOrder (sortKeys j) j
  | .null => .null
  | .bool b => .bool b
  | .num n => .num n
  | .str s => .str s
  | .arr xs => .arr (sortList_same xs)
  | .obj fields => by
      have hperm : (sortByKey (sortFields fields)).Perm
          (fields.map fun p => (p.1, sortKeys p.2)) := by
        rw [← sortFields_eq_map]
        exact sortByKey_perm _
      obtain ⟨zs, hzs, hmap⟩ := exists_perm_of_map_perm hperm
      rw [sortKeys, ← hmap]
      exact .obj (sameFields_map (f := fun p => (p.1, sortKeys p.2)) (fun _ => rfl) fun p hp =>
        sortFields_same fields p (hzs.mem_iff.mp hp)) hzs

theorem sortList_same : ∀ xs : List Json, SameList (sortList xs) xs
  | [] => .nil
  | x :: xs => .cons (sortKeys_same x) (sortList_same xs)

theorem sortFields_same : ∀ fields : Fields, ∀ p ∈ fields, SameUpToOrder (sortKeys p.2) p.2
  | (_, v) :: rest, p, hp => by
      rcases List.mem_cons.mp hp with rfl | hp
      · exact sortKeys_same v
      · exact sortFields_same rest p hp

end

/-- **Sorted renderings agree exactly on values equal up to the order of keys.** -/
theorem dumps_sortKeys_eq_iff {a b : Json} (ha : a.Wf) (hb : b.Wf) :
    dumps (sortKeys a) = dumps (sortKeys b) ↔ SameUpToOrder a b := by
  rw [← sortKeys_eq_iff hb]
  exact ⟨dumps_injective (wf_sortKeys ha) (wf_sortKeys hb), congrArg dumps⟩

/-! ### What the reader returns -/

theorem keys_setField (fields : Fields) (pair : String × Json) :
    (setField fields pair).map Prod.fst =
      if pair.1 ∈ fields.map Prod.fst then fields.map Prod.fst
      else fields.map Prod.fst ++ [pair.1] := by
  unfold setField
  split
  · rw [List.map_map]
    refine List.map_congr_left fun p _ => ?_
    dsimp only [Function.comp_apply]
    split <;> rfl
  · rw [List.map_append, List.map_singleton]

theorem nodup_setField {fields : Fields} (h : (fields.map Prod.fst).Nodup) (pair : String × Json) :
    ((setField fields pair).map Prod.fst).Nodup := by
  rw [keys_setField]
  split
  · exact h
  · next hnew => exact List.nodup_append.mpr ⟨h, List.nodup_singleton _, by grind⟩

theorem mem_setField {fields : Fields} {pair p : String × Json} (hp : p ∈ setField fields pair) :
    p ∈ fields ∨ p.2 = pair.2 := by
  unfold setField at hp
  split at hp
  · obtain ⟨q, hq, rfl⟩ := List.mem_map.mp hp
    split
    · exact .inr rfl
    · exact .inl hq
  · rw [List.mem_append, List.mem_singleton] at hp
    exact hp.imp_right fun h => by rw [h]

/-- A `dict` has distinct keys, and its values are among those of the pairs it is built from. -/
theorem dict_spec (pairs : Fields) :
    ((dict pairs).map Prod.fst).Nodup ∧ ∀ p ∈ dict pairs, ∃ q ∈ pairs, p.2 = q.2 := by
  induction pairs using List.reverseRecOn with
  | nil => exact ⟨List.nodup_nil, nofun⟩
  | append_singleton pairs pair ih =>
      have hdict : dict (pairs ++ [pair]) = setField (dict pairs) pair := by
        rw [dict, List.foldl_append, List.foldl_cons, List.foldl_nil, dict]
      rw [hdict]
      refine ⟨nodup_setField ih.1 pair, fun p hp => ?_⟩
      rcases mem_setField hp with hp | hp
      · obtain ⟨q, hq, heq⟩ := ih.2 p hp
        exact ⟨q, List.mem_append_left _ hq, heq⟩
      · exact ⟨pair, List.mem_append_right _ (List.mem_singleton_self _), hp⟩

/-- What can be read: distinct keys in every object, and numbers that read as themselves. -/
def Loaded (number : List Char → Numeral) (j : Json) : Prop := j.Wf ∧ Rendered number j

theorem loaded_arr {xs : List Json} (h : ∀ x ∈ xs, Loaded number x) : Loaded number (.arr xs) :=
  ⟨wfList_iff.mpr fun x hx => (h x hx).1, renderedList_iff.mpr fun x hx => (h x hx).2⟩

theorem loaded_obj {pairs : Fields} (h : ∀ p ∈ pairs, Loaded number p.2) :
    Loaded number (.obj (dict pairs)) := by
  obtain ⟨hnodup, hmem⟩ := dict_spec pairs
  have hloaded : ∀ p ∈ dict pairs, Loaded number p.2 := by
    intro p hp
    obtain ⟨q, hq, heq⟩ := hmem p hp
    rw [heq]
    exact h q hq
  exact ⟨⟨hnodup, wfFields_iff.mpr fun p hp => (hloaded p hp).1⟩,
    renderedFields_iff.mpr fun p hp => (hloaded p hp).2⟩

theorem loaded_readNumeral (hnumber : ∀ cs, number (number cs).text = number cs) {cs rest : List Char}
    {j : Json} (h : readNumeral number cs = some (j, rest)) : Loaded number j := by
  unfold readNumeral at h
  split at h
  · cases h
    exact ⟨trivial, hnumber _⟩
  · cases h

/-- The three readers, by the fuel they share. -/
theorem loaded_read (hnumber : ∀ cs, number (number cs).text = number cs) (fuel : Nat) :
    (∀ cs j rest, readValue number fuel cs = some (j, rest) → Loaded number j) ∧
    (∀ cs xs rest, readElements number fuel cs = some (xs, rest) → ∀ x ∈ xs, Loaded number x) ∧
    (∀ cs ps rest, readMembers number fuel cs = some (ps, rest) → ∀ p ∈ ps, Loaded number p.2) := by
  induction fuel with
  | zero => exact ⟨nofun, nofun, nofun⟩
  | succ fuel ih =>
      obtain ⟨ihvalue, ihelements, ihmembers⟩ := ih
      refine ⟨fun cs j rest h => ?_, fun cs xs rest h => ?_, fun cs ps rest h => ?_⟩
      · rw [readValue] at h
        split at h
        · obtain ⟨⟨s, _⟩, _, heq⟩ := Option.map_eq_some_iff.mp h
          cases heq
          exact ⟨trivial, trivial⟩
        · split at h
          · cases h
            exact loaded_arr nofun
          · obtain ⟨⟨xs, _⟩, hread, heq⟩ := Option.map_eq_some_iff.mp h
            cases heq
            exact loaded_arr (ihelements _ _ _ hread)
        · split at h
          · cases h
            exact loaded_obj fun (p : String × Json) (hp : p ∈ ([] : Fields)) =>
              absurd hp List.not_mem_nil
          · obtain ⟨⟨ps, _⟩, hread, heq⟩ := Option.map_eq_some_iff.mp h
            cases heq
            exact loaded_obj (ihmembers _ _ _ hread)
        · cases h
          exact ⟨trivial, trivial⟩
        · cases h
          exact ⟨trivial, trivial⟩
        · cases h
          exact ⟨trivial, trivial⟩
        · exact loaded_readNumeral hnumber h
      · rw [readElements] at h
        split at h
        · cases h
        · next x _ hread =>
            have hx := ihvalue _ _ _ hread
            split at h
            · obtain ⟨⟨xs, _⟩, hrest, heq⟩ := Option.map_eq_some_iff.mp h
              cases heq
              exact List.forall_mem_cons.mpr ⟨hx, ihelements _ _ _ hrest⟩
            · cases h
              exact List.forall_mem_singleton.mpr hx
            · cases h
      · rw [readMembers] at h
        split at h
        · split at h
          · cases h
          · split at h
            · split at h
              · cases h
              · next v _ hread =>
                  have hv := ihvalue _ _ _ hread
                  split at h
                  · obtain ⟨⟨ps, _⟩, hrest, heq⟩ := Option.map_eq_some_iff.mp h
                    cases heq
                    exact List.forall_mem_cons.mpr ⟨hv, ihmembers _ _ _ hrest⟩
                  · cases h
                    exact List.forall_mem_singleton.mpr hv
                  · cases h
            · cases h
        · cases h

theorem loaded_loads (hnumber : ∀ cs, number (number cs).text = number cs) {cs : List Char} {j : Json}
    (h : loads number cs = some j) : Loaded number j := by
  unfold loads at h
  split at h
  · next j' rest hread =>
      split at h
      · cases h
        exact (loaded_read hnumber _).1 _ _ _ hread
      · cases h
  · cases h

end DemandSignal.Json
