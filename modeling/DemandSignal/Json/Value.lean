import Mathlib.Data.List.Sort
import Mathlib.Data.String.Basic

/-!
# JSON values

Values as a JSON reader returns them: objects keep the order of their keys, and a number is its
rendered literal. Equality up to the order of keys, at every depth, is what sorting the keys decides.
-/

namespace DemandSignal

def isDigitRun (cs : List Char) : Bool := cs ≠ [] && cs.all Char.isDigit

/-- An optional exponent and then the end. -/
def isExponent : List Char → Bool
  | [] => true
  | e :: rest =>
      (e == 'e' || e == 'E') &&
        match rest with
        | '+' :: ds => isDigitRun ds
        | '-' :: ds => isDigitRun ds
        | ds => isDigitRun ds

/-- An optional fraction, an optional exponent and then the end. -/
def isFraction : List Char → Bool
  | '.' :: rest =>
      isDigitRun (rest.takeWhile Char.isDigit) && isExponent (rest.dropWhile Char.isDigit)
  | rest => isExponent rest

def isMagnitude (cs : List Char) : Bool :=
  let ds := cs.takeWhile Char.isDigit
  isDigitRun ds && (ds.length == 1 || ds.head? != some '0') && isFraction (cs.dropWhile Char.isDigit)

/-- A JSON number: no leading zeros, an optional fraction and an optional exponent. -/
def isNumber : List Char → Bool
  | '-' :: cs => isMagnitude cs
  | cs => isMagnitude cs

/-- The literals `json` reads and renders outside the JSON grammar. -/
def isSpecial (cs : List Char) : Bool :=
  cs == "NaN".toList || cs == "Infinity".toList || cs == "-Infinity".toList

def isNumeral (cs : List Char) : Bool := isNumber cs || isSpecial cs

/-- A number, as its rendered literal. -/
structure Numeral where
  text : List Char
  ok : isNumeral text = true
deriving DecidableEq

/-- A literal as the number it renders. -/
def Numeral.ofText (cs : List Char) : Numeral :=
  if h : isNumeral cs = true then ⟨cs, h⟩ else ⟨['0'], by decide⟩

theorem Numeral.ofText_text (n : Numeral) : Numeral.ofText n.text = n := by
  rw [Numeral.ofText, dif_pos n.ok]

inductive Json where
  | null
  | bool (b : Bool)
  | num (n : Numeral)
  | str (s : String)
  | arr (xs : List Json)
  | obj (fields : List (String × Json))

namespace Json

/-- The fields of an object. -/
abbrev Fields := List (String × Json)

def get (fields : Fields) (key : String) : Json := (fields.lookup key).getD null

mutual

def decEq : (a b : Json) → Decidable (a = b)
  | .null, .null => isTrue rfl
  | .bool a, .bool b => decidable_of_iff (a = b) (by simp)
  | .num a, .num b => decidable_of_iff (a = b) (by simp)
  | .str a, .str b => decidable_of_iff (a = b) (by simp)
  | .arr a, .arr b => @decidable_of_iff _ (a = b) (by simp) (decEqList a b)
  | .obj a, .obj b => @decidable_of_iff _ (a = b) (by simp) (decEqFields a b)
  | .null, .bool _ | .null, .num _ | .null, .str _ | .null, .arr _ | .null, .obj _ => isFalse nofun
  | .bool _, .null | .bool _, .num _ | .bool _, .str _ | .bool _, .arr _ | .bool _, .obj _ =>
      isFalse nofun
  | .num _, .null | .num _, .bool _ | .num _, .str _ | .num _, .arr _ | .num _, .obj _ =>
      isFalse nofun
  | .str _, .null | .str _, .bool _ | .str _, .num _ | .str _, .arr _ | .str _, .obj _ =>
      isFalse nofun
  | .arr _, .null | .arr _, .bool _ | .arr _, .num _ | .arr _, .str _ | .arr _, .obj _ =>
      isFalse nofun
  | .obj _, .null | .obj _, .bool _ | .obj _, .num _ | .obj _, .str _ | .obj _, .arr _ =>
      isFalse nofun

def decEqList : (xs ys : List Json) → Decidable (xs = ys)
  | [], [] => isTrue rfl
  | [], _ :: _ => isFalse nofun
  | _ :: _, [] => isFalse nofun
  | x :: xs, y :: ys =>
      @decidable_of_iff _ (x = y ∧ xs = ys) (by simp)
        (@instDecidableAnd _ _ (decEq x y) (decEqList xs ys))

def decEqFields : (xs ys : Fields) → Decidable (xs = ys)
  | [], [] => isTrue rfl
  | [], _ :: _ => isFalse nofun
  | _ :: _, [] => isFalse nofun
  | (k, v) :: xs, (k', w) :: ys =>
      @decidable_of_iff _ (k = k' ∧ v = w ∧ xs = ys) (by simp [and_assoc])
        (@instDecidableAnd _ _ (inferInstanceAs (Decidable (k = k')))
          (@instDecidableAnd _ _ (decEq v w) (decEqFields xs ys)))

end

instance : DecidableEq Json := decEq

/-! ### Objects with distinct keys -/

mutual

/-- Every object, at every depth, has distinct keys: what a Python `dict` is. -/
def Wf : Json → Prop
  | .arr xs => WfList xs
  | .obj fields => (fields.map Prod.fst).Nodup ∧ WfFields fields
  | _ => True

def WfList : List Json → Prop
  | [] => True
  | x :: xs => Wf x ∧ WfList xs

def WfFields : Fields → Prop
  | [] => True
  | (_, v) :: rest => Wf v ∧ WfFields rest

end

mutual

/-- Equal up to the order of the keys of every object. Arrays are ordered. -/
inductive SameUpToOrder : Json → Json → Prop where
  | null : SameUpToOrder .null .null
  | bool (b : Bool) : SameUpToOrder (.bool b) (.bool b)
  | num (n : Numeral) : SameUpToOrder (.num n) (.num n)
  | str (s : String) : SameUpToOrder (.str s) (.str s)
  | arr {xs ys} (h : SameList xs ys) : SameUpToOrder (.arr xs) (.arr ys)
  | obj {xs ys zs} (h : SameFields xs zs) (hperm : zs.Perm ys) : SameUpToOrder (.obj xs) (.obj ys)

inductive SameList : List Json → List Json → Prop where
  | nil : SameList [] []
  | cons {x y xs ys} (h : SameUpToOrder x y) (hrest : SameList xs ys) :
      SameList (x :: xs) (y :: ys)

inductive SameFields : Fields → Fields → Prop where
  | nil : SameFields [] []
  | cons {k v w xs ys} (h : SameUpToOrder v w) (hrest : SameFields xs ys) :
      SameFields ((k, v) :: xs) ((k, w) :: ys)

end

/-! ### Sorting the keys -/

/-- `sorted` on the keys of a `dict`. -/
def sortByKey (fields : Fields) : Fields := fields.insertionSort fun p q => p.1 ≤ q.1

mutual

def sortKeys : Json → Json
  | .arr xs => .arr (sortList xs)
  | .obj fields => .obj (sortByKey (sortFields fields))
  | .null => .null
  | .bool b => .bool b
  | .num n => .num n
  | .str s => .str s

def sortList : List Json → List Json
  | [] => []
  | x :: xs => sortKeys x :: sortList xs

def sortFields : Fields → Fields
  | [] => []
  | (k, v) :: rest => (k, sortKeys v) :: sortFields rest

end

theorem sortFields_eq_map (fields : Fields) :
    sortFields fields = fields.map fun p => (p.1, sortKeys p.2) := by
  induction fields with
  | nil => rfl
  | cons p rest ih => rw [sortFields, ih, List.map_cons]

theorem keys_sortFields (fields : Fields) :
    (sortFields fields).map Prod.fst = fields.map Prod.fst := by
  simp [sortFields_eq_map]

theorem sortByKey_perm (fields : Fields) : (sortByKey fields).Perm fields :=
  List.perm_insertionSort _ fields

theorem sortByKey_pairwise (fields : Fields) :
    (sortByKey fields).Pairwise fun p q => p.1 ≤ q.1 := by
  have : Std.Total fun p q : String × Json => p.1 ≤ q.1 := ⟨fun p q => le_total p.1 q.1⟩
  have : IsTrans (String × Json) fun p q => p.1 ≤ q.1 := ⟨fun _ _ _ h h' => le_trans h h'⟩
  exact List.pairwise_insertionSort _ fields

/-- Two orders of fields with distinct keys sort alike. -/
theorem sortByKey_eq_of_perm {xs ys : Fields} (hperm : xs.Perm ys)
    (hnodup : (ys.map Prod.fst).Nodup) : sortByKey xs = sortByKey ys := by
  have hsorted : (sortByKey xs).Perm (sortByKey ys) :=
    (sortByKey_perm xs).trans (hperm.trans (sortByKey_perm ys).symm)
  refine List.Perm.eq_of_pairwise ?_ (sortByKey_pairwise xs) (sortByKey_pairwise ys) hsorted
  intro p q hp hq hle hge
  have hkey : p.1 = q.1 := le_antisymm hle hge
  have hpm : p ∈ ys := (hperm.mem_iff).mp ((sortByKey_perm xs).mem_iff.mp hp)
  have hqm : q ∈ ys := (sortByKey_perm ys).mem_iff.mp hq
  exact List.inj_on_of_nodup_map hnodup hpm hqm hkey

theorem wfFields_iff {fields : Fields} : WfFields fields ↔ ∀ p ∈ fields, p.2.Wf := by
  induction fields with
  | nil => simp [WfFields]
  | cons p rest ih => simp [WfFields, ih]

mutual

theorem sortKeys_eq_of_same {a b : Json} (h : SameUpToOrder a b) (hb : b.Wf) :
    sortKeys a = sortKeys b := by
  cases h with
  | null | bool | num | str => rfl
  | arr h =>
      rw [sortKeys, sortKeys, sortList_eq_of_same h hb]
  | @obj xs ys zs h hperm =>
      have hzs : WfFields zs :=
        wfFields_iff.mpr fun p hp => wfFields_iff.mp hb.2 p (hperm.mem_iff.mp hp)
      rw [sortKeys, sortKeys, sortFields_eq_of_same h hzs, sortFields_eq_map, sortFields_eq_map]
      congr 1
      refine sortByKey_eq_of_perm (hperm.map _) ?_
      rw [← sortFields_eq_map, keys_sortFields]
      exact hb.1

theorem sortList_eq_of_same {xs ys : List Json} (h : SameList xs ys) (hys : WfList ys) :
    sortList xs = sortList ys := by
  cases h with
  | nil => rfl
  | cons h hrest =>
      rw [sortList, sortList, sortKeys_eq_of_same h hys.1, sortList_eq_of_same hrest hys.2]

theorem sortFields_eq_of_same {xs ys : Fields} (h : SameFields xs ys) (hys : WfFields ys) :
    sortFields xs = sortFields ys := by
  cases h with
  | nil => rfl
  | cons h hrest =>
      rw [sortFields, sortFields, sortKeys_eq_of_same h hys.1, sortFields_eq_of_same hrest hys.2]

end

/-- A reordering of mapped fields comes from a reordering of the fields. -/
theorem exists_perm_of_map_perm {f : String × Json → String × Json} {xs ys : Fields}
    (h : xs.Perm (ys.map f)) : ∃ zs : Fields, zs.Perm ys ∧ zs.map f = xs := by
  induction ys generalizing xs with
  | nil => exact ⟨[], .refl _, by simpa using h.symm⟩
  | cons y ys ih =>
      obtain ⟨front, back, rfl⟩ := List.append_of_mem (h.symm.subset (List.mem_cons_self ..))
      have hrest : (front ++ back).Perm (ys.map f) :=
        (List.perm_middle.symm.trans h).cons_inv
      obtain ⟨zs, hperm, hmap⟩ := ih hrest
      obtain ⟨zfront, zback, rfl, hfront, hback⟩ := List.map_eq_append_iff.mp hmap
      exact ⟨zfront ++ y :: zback, List.perm_middle.trans (hperm.cons y), by simp [hfront, hback]⟩

mutual

theorem same_of_sortKeys_eq : ∀ {a b : Json}, sortKeys a = sortKeys b → SameUpToOrder a b
  | .null, b, h => by
      cases b <;> simp [sortKeys] at h
      exact .null
  | .bool x, b, h => by
      cases b <;> simp [sortKeys] at h
      subst h
      exact .bool x
  | .num x, b, h => by
      cases b <;> simp [sortKeys] at h
      subst h
      exact .num x
  | .str x, b, h => by
      cases b <;> simp [sortKeys] at h
      subst h
      exact .str x
  | .arr xs, b, h => by
      cases b <;> simp only [sortKeys, reduceCtorEq, Json.arr.injEq] at h
      exact .arr (sameList_of_sortList_eq h)
  | .obj xs, b, h => by
      cases b <;> simp only [sortKeys, reduceCtorEq, Json.obj.injEq] at h
      rename_i ys
      have hperm : (sortFields xs).Perm (ys.map fun p => (p.1, sortKeys p.2)) := by
        rw [← sortFields_eq_map]
        exact (sortByKey_perm _).symm.trans (h ▸ sortByKey_perm _)
      obtain ⟨zs, hzs, hmap⟩ := exists_perm_of_map_perm hperm
      exact .obj (sameFields_of_sortFields_eq (by rw [sortFields_eq_map zs, hmap])) hzs

theorem sameList_of_sortList_eq :
    ∀ {xs ys : List Json}, sortList xs = sortList ys → SameList xs ys
  | [], ys, h => by
      cases ys <;> simp [sortList] at h
      exact .nil
  | x :: xs, ys, h => by
      cases ys <;> simp only [sortList, reduceCtorEq, List.cons.injEq] at h
      exact .cons (same_of_sortKeys_eq h.1) (sameList_of_sortList_eq h.2)

theorem sameFields_of_sortFields_eq :
    ∀ {xs ys : Fields}, sortFields xs = sortFields ys → SameFields xs ys
  | [], ys, h => by
      cases ys <;> simp [sortFields] at h
      exact .nil
  | (k, v) :: xs, ys, h => by
      rcases ys with _ | ⟨⟨k', w⟩, ys⟩ <;>
        simp only [sortFields, reduceCtorEq, List.cons.injEq, Prod.mk.injEq] at h
      obtain ⟨⟨rfl, hv⟩, hrest⟩ := h
      exact .cons (same_of_sortKeys_eq hv) (sameFields_of_sortFields_eq hrest)

end

/-- Sorting the keys decides equality up to their order. -/
theorem sortKeys_eq_iff {a b : Json} (hb : b.Wf) : sortKeys a = sortKeys b ↔ SameUpToOrder a b :=
  ⟨same_of_sortKeys_eq, fun h => sortKeys_eq_of_same h hb⟩

end Json

end DemandSignal
