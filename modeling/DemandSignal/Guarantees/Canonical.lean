import DemandSignal.Json.RoundTrip
import DemandSignal.Services.Ingest

/-!
# Canonical payloads

The canonical rendering of a value stands for the value: it is read back up to the order of keys, and
no two values that differ otherwise share it.
-/

namespace DemandSignal

/-- **Canonical JSON identifies what was read**, up to the order of the keys of every object. A number
is the literal it renders as, which is read as itself. -/
theorem canonicalJson_exact {number : List Char → Numeral}
    (hnumber : ∀ cs, number (number cs).text = number cs) {s t : List Char} {a b : Json}
    (ha : Json.loads number s = some a) (hb : Json.loads number t = some b) :
    (Ingest.canonicalJson a = Ingest.canonicalJson b ↔ Json.SameUpToOrder a b) ∧
      ∃ c, Json.loads number (Ingest.canonicalJson a).toList = some c ∧
        Json.SameUpToOrder c a := by
  obtain ⟨hwfa, hrendered⟩ := Json.loaded_loads hnumber ha
  obtain ⟨hwfb, -⟩ := Json.loaded_loads hnumber hb
  refine ⟨?_, a.sortKeys, ?_, Json.sortKeys_same a⟩
  · rw [← Json.dumps_sortKeys_eq_iff hwfa hwfb]
    exact String.ofList_inj
  · rw [Ingest.canonicalJson, String.toList_ofList]
    exact Json.loads_dumps (Json.wf_sortKeys hwfa) (Json.rendered_sortKeys hrendered)

/-- A payload and a reordering of it, one level down. -/
def reordered : List Char × List Char :=
  ("\x7b\"b\": [1.50, \x7b\"d\": null, \"c\": \"\\\"\x7d\"\x7d], \"a\": \"x\"\x7d".toList,
    "\x7b\"a\":\"x\",\"b\":[1.50,\x7b\"c\":\"\\u0022\x7d\",\"d\":null\x7d]\x7d".toList)

theorem canonicalJson_exact_reordered :
    ∃ a b, Json.loads Numeral.ofText reordered.1 = some a ∧
      Json.loads Numeral.ofText reordered.2 = some b ∧ Json.SameUpToOrder a b := by
  obtain ⟨a, ha⟩ : ∃ a, Json.loads Numeral.ofText reordered.1 = some a :=
    Option.isSome_iff_exists.mp (by decide +kernel)
  obtain ⟨b, hb⟩ : ∃ b, Json.loads Numeral.ofText reordered.2 = some b :=
    Option.isSome_iff_exists.mp (by decide +kernel)
  have heq : (Json.loads Numeral.ofText reordered.1).map Ingest.canonicalJson =
      (Json.loads Numeral.ofText reordered.2).map Ingest.canonicalJson := by decide +kernel
  rw [ha, hb, Option.map_some, Option.map_some, Option.some_inj] at heq
  exact ⟨a, b, ha, hb, (canonicalJson_exact (fun _ => Numeral.ofText_text _) ha hb).1.mp heq⟩

end DemandSignal
