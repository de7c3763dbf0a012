import SJava.Text.Blank

/-!
# UTF-8

Bytes read as text.

* `decode?_eq_some_iff`: the texts read are those that were written.
-/

namespace SJava.Text

/-- The text that the bytes are the UTF-8 form of, if there is one. -/
def decode? (bytes : List UInt8) : Option Text :=
  (String.fromUTF8? bytes.toByteArray).map String.toList

theorem decode?_eq_some_iff {bytes : List UInt8} {s : Text} :
    decode? bytes = some s ↔ bytes.toByteArray = s.utf8Encode := by
  constructor
  · intro h
    obtain ⟨t, ht, rfl⟩ := Option.map_eq_some_iff.1 h
    simp only [String.fromUTF8?] at ht
    split at ht <;> simp at ht
    rw [← ht, String.utf8Encode_toList]
    rfl
  · intro h
    have hv : bytes.toByteArray.IsValidUTF8 := ⟨s, h⟩
    have hs : String.fromUTF8 bytes.toByteArray hv = String.ofList s :=
      String.toByteArray_inj.1 (h.trans String.toByteArray_ofList.symm)
    simp [decode?, String.fromUTF8?, hv, hs]

end SJava.Text
