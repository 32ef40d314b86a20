import Mathlib.Data.List.AList

/-!
# Keyed versions

A map that holds one version of each key. What is submitted for a key is new, or the same as the version
that is held, or an edit that takes its place.
-/

namespace DemandSignal.Keyed

inductive Verdict where
  | created
  | duplicate
  | edit
deriving DecidableEq

/-- One version of each key. -/
abbrev Versions (κ ν : Type) := AList fun _ : κ => ν

variable {κ ν : Type} [DecidableEq κ] {same : ν → ν → Prop} {versions : Versions κ ν} {key : κ}
  {value stored : ν}

open Classical in
noncomputable def judge (same : ν → ν → Prop) (versions : Versions κ ν) (key : κ) (value : ν) :
    Verdict :=
  match versions.lookup key with
  | none => .created
  | some stored => if same stored value then .duplicate else .edit

noncomputable def submit (same : ν → ν → Prop) (versions : Versions κ ν) (submission : κ × ν) :
    Versions κ ν :=
  if judge same versions submission.1 submission.2 = .duplicate then versions
  else versions.insert submission.1 submission.2

noncomputable def replay (same : ν → ν → Prop) (submissions : List (κ × ν)) : Versions κ ν :=
  submissions.foldl (submit same) ∅

theorem judge_of_none (h : versions.lookup key = none) : judge same versions key value = .created := by
  rw [judge, h]

theorem judge_of_same (h : versions.lookup key = some stored) (hsame : same stored value) :
    judge same versions key value = .duplicate := by
  rw [judge, h]
  exact if_pos hsame

theorem judge_of_not_same (h : versions.lookup key = some stored) (hsame : ¬ same stored value) :
    judge same versions key value = .edit := by
  rw [judge, h]
  exact if_neg hsame

/-- The three verdicts, each exactly where it belongs. -/
theorem judge_eq_iff (verdict : Verdict) : judge same versions key value = verdict ↔
    match verdict with
    | .created => key ∉ versions
    | .duplicate => ∃ stored ∈ versions.lookup key, same stored value
    | .edit => ∃ stored ∈ versions.lookup key, ¬ same stored value := by
  cases hlookup : versions.lookup key with
  | none =>
      rw [judge_of_none hlookup]
      cases verdict <;> simp [AList.lookup_eq_none.mp hlookup]
  | some stored =>
      have hmem : key ∈ versions := AList.lookup_isSome.mp (by rw [hlookup]; rfl)
      by_cases hsame : same stored value
      · rw [judge_of_same hlookup hsame]
        cases verdict <;> simp [hmem, hsame]
      · rw [judge_of_not_same hlookup hsame]
        cases verdict <;> simp [hmem, hsame]

theorem submit_of_duplicate (h : judge same versions key value = .duplicate) :
    submit same versions (key, value) = versions := if_pos h

theorem submit_of_ne (h : judge same versions key value ≠ .duplicate) :
    submit same versions (key, value) = versions.insert key value := if_neg h

theorem replay_concat (submissions : List (κ × ν)) (submission : κ × ν) :
    replay same (submissions ++ [submission]) = submit same (replay same submissions) submission :=
  List.foldl_concat ..

/-- A version that is new adds a key, one that is edited none. -/
theorem length_keys_submit : (submit same versions (key, value)).keys.length =
    versions.keys.length + if judge same versions key value = .created then 1 else 0 := by
  cases hjudge : judge same versions key value with
  | created =>
      have hnew := (judge_eq_iff .created).mp hjudge
      rw [submit_of_ne (by simp [hjudge]), AList.keys_insert, List.length_cons,
        List.erase_of_not_mem fun hkey => hnew (AList.mem_keys.mpr hkey)]
      rfl
  | duplicate =>
      rw [submit_of_duplicate hjudge]
      rfl
  | edit =>
      obtain ⟨stored, hstored, -⟩ := (judge_eq_iff .edit).mp hjudge
      have hkey : key ∈ versions.keys :=
        AList.mem_keys.mp (AList.lookup_isSome.mp (by rw [hstored]; rfl))
      have hpos := List.length_pos_of_mem hkey
      rw [submit_of_ne (by simp [hjudge]), AList.keys_insert, List.length_cons,
        List.length_erase_of_mem hkey]
      simp only [reduceCtorEq, if_false]
      omega

/-- The verdicts on one submission after another. -/
noncomputable def verdicts (same : ν → ν → Prop) : Versions κ ν → List (κ × ν) → List Verdict
  | _, [] => []
  | versions, submission :: submissions =>
      judge same versions submission.1 submission.2 ::
        verdicts same (submit same versions submission) submissions

theorem verdicts_concat (submissions : List (κ × ν)) (submission : κ × ν) :
    verdicts same versions (submissions ++ [submission]) = verdicts same versions submissions ++
      [judge same (submissions.foldl (submit same) versions) submission.1 submission.2] := by
  induction submissions generalizing versions with
  | nil => rfl
  | cons first submissions ih => rw [List.cons_append, verdicts, verdicts, ih]; rfl

theorem length_keys_foldl (submissions : List (κ × ν)) :
    (submissions.foldl (submit same) versions).keys.length =
      versions.keys.length + (verdicts same versions submissions).count .created := by
  induction submissions generalizing versions with
  | nil => rfl
  | cons submission submissions ih =>
      rw [List.foldl_cons, ih, length_keys_submit, verdicts, List.count_cons]
      by_cases hjudge : judge same versions submission.1 submission.2 = .created
      · rw [if_pos hjudge, if_pos (by simpa using hjudge)]
        omega
      · rw [if_neg hjudge, if_neg (by simpa using hjudge)]
        omega

/-- There are as many keys as submissions that were new. -/
theorem count_created (submissions : List (κ × ν)) :
    (verdicts same ∅ submissions).count .created = (replay same submissions).keys.length := by
  rw [replay, length_keys_foldl, AList.keys_empty, List.length_nil, Nat.zero_add]

end DemandSignal.Keyed
